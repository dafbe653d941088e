import Mathlib.Data.List.Induction
import Mathlib.Order.Lattice

/-!
# The best of a list

A loop keeps the best score so far and the element that has it; an element replaces the one
before when its score is strictly better. Elements without a score are passed over.
-/

namespace FastLivo.Lib

variable {ε R : Type*} [LinearOrder R]

/-- What the loop keeps. -/
structure Best (ε R : Type*) where
  found : Bool := false
  score : R
  pick : Option ε := none

/-- An element is offered. -/
def Best.offer (score : ε → Option R) (s : Best ε R) (e : ε) : Best ε R :=
  match score e with
  | none => s
  | some r => if s.score < r then ⟨true, r, some e⟩ else { s with found := true }

/-- The loop over a list, from a score to beat. -/
def bestOf (score : ε → Option R) (floor : R) (l : List ε) : Best ε R :=
  l.foldl (Best.offer score) { score := floor }

theorem bestOf_singleton {score : ε → Option R} {floor r : R} {e : ε} (h : score e = some r)
    (hr : floor < r) : bestOf score floor [e] = ⟨true, r, some e⟩ := by
  unfold bestOf
  rw [List.foldl_cons, List.foldl_nil]
  unfold Best.offer
  rw [h]
  exact if_pos hr

/-- What the loop knows of the elements it saw. -/
structure Chosen (score : ε → Option R) (floor : R) (l : List ε) (s : Best ε R) : Prop where
  found : s.found = true ↔ ∃ e ∈ l, (score e).isSome
  le : ∀ e ∈ l, ∀ r, score e = some r → r ≤ s.score
  floor_le : floor ≤ s.score
  pick : s.pick = none ∧ s.score = floor ∨ ∃ e ∈ l, s.pick = some e ∧ score e = some s.score

variable {score : ε → Option R} {floor : R} {l l' : List ε} {s : Best ε R}

theorem Chosen.offer (h : Chosen score floor l s) (e : ε) :
    Chosen score floor (l ++ [e]) (s.offer score e) := by
  have hmem : ∀ e' ∈ l, e' ∈ l ++ [e] := fun _ he' => List.mem_append_left _ he'
  have hlast : e ∈ l ++ [e] := List.mem_append_right _ (List.mem_singleton_self e)
  unfold Best.offer
  cases hscore : score e with
  | none =>
    constructor
    · rw [h.found]
      simp [or_and_right, exists_or, hscore]
    · intro e' he' r hr
      rcases List.mem_append.mp he' with he' | he'
      · exact h.le e' he' r hr
      · rw [List.mem_singleton.mp he', hscore] at hr
        cases hr
    · exact h.floor_le
    · exact h.pick.imp_right fun ⟨e', he', hpick⟩ => ⟨e', hmem e' he', hpick⟩
  | some r =>
    have hsome : ∃ e' ∈ l ++ [e], (score e').isSome := ⟨e, hlast, by rw [hscore]; rfl⟩
    dsimp only
    split
    · rename_i hlt
      constructor
      · exact iff_of_true rfl hsome
      · intro e' he' r' hr'
        rcases List.mem_append.mp he' with he' | he'
        · exact (h.le e' he' r' hr').trans hlt.le
        · rw [List.mem_singleton.mp he', hscore] at hr'
          exact (Option.some.inj hr').symm.le
      · exact h.floor_le.trans hlt.le
      · exact .inr ⟨e, hlast, rfl, hscore⟩
    · rename_i hnot
      constructor
      · exact iff_of_true rfl hsome
      · intro e' he' r' hr'
        rcases List.mem_append.mp he' with he' | he'
        · exact h.le e' he' r' hr'
        · rw [List.mem_singleton.mp he', hscore] at hr'
          exact (Option.some.inj hr').symm.le.trans (not_lt.mp hnot)
      · exact h.floor_le
      · exact h.pick.imp_right fun ⟨e', he', hpick⟩ => ⟨e', hmem e' he', hpick⟩

theorem bestOf_chosen (score : ε → Option R) (floor : R) (l : List ε) :
    Chosen score floor l (bestOf score floor l) := by
  induction l using List.reverseRecOn with
  | nil => exact ⟨by simp [bestOf], nofun, le_refl _, .inl ⟨rfl, rfl⟩⟩
  | append_singleton l e ih =>
    rw [bestOf, List.foldl_append]
    exact ih.offer e

/-- Where all scores beat the floor, the pick is an element of the greatest score. -/
theorem Chosen.greatest (h : Chosen score floor l s)
    (hfloor : ∀ e ∈ l, ∀ r, score e = some r → floor < r) (hfound : s.found = true) :
    ∃ e ∈ l, s.pick = some e ∧ score e = some s.score ∧
      ∀ e' ∈ l, ∀ r, score e' = some r → r ≤ s.score := by
  rcases h.pick with ⟨-, hscore⟩ | ⟨e, he, hpick, hscore⟩
  · obtain ⟨e, he, hsome⟩ := h.found.mp hfound
    obtain ⟨r, hr⟩ := Option.isSome_iff_exists.mp hsome
    have hle := h.le e he r hr
    rw [hscore] at hle
    exact absurd hle (not_le.mpr (hfloor e he r hr))
  · exact ⟨e, he, hpick, hscore, h.le⟩

/-- The score does not depend on the order in which the elements are seen. -/
theorem bestOf_congr (score : ε → Option R) (floor : R) (hmem : ∀ e, e ∈ l ↔ e ∈ l') :
    (bestOf score floor l).found = (bestOf score floor l').found ∧
      (bestOf score floor l).score = (bestOf score floor l').score := by
  have hle : ∀ l l' : List ε, (∀ e, e ∈ l → e ∈ l') →
      (bestOf score floor l).score ≤ (bestOf score floor l').score := by
    intro l l' hsub
    have hl' := bestOf_chosen score floor l'
    rcases (bestOf_chosen score floor l).pick with ⟨-, hscore⟩ | ⟨e, he, -, hscore⟩
    · rw [hscore]
      exact hl'.floor_le
    · exact hl'.le e (hsub e he) _ hscore
  constructor
  · rw [Bool.eq_iff_iff, (bestOf_chosen score floor l).found, (bestOf_chosen score floor l').found]
    simp only [hmem]
  · exact (hle l l' fun e => (hmem e).mp).antisymm (hle l' l fun e => (hmem e).mpr)

end FastLivo.Lib
