import FastLivo.Lib.Assign
import Mathlib.Logic.Basic

/-!
# A cache in front of a function

A loop asks a cache for the value at the key of an argument, and computes the value and stores it
where there is none. The keys need not tell the arguments apart.
-/

namespace FastLivo.Lib

variable {α κ β : Type*} [DecidableEq κ]

/-- The value for an argument, and the cache after it. -/
def fetch (key : α → κ) (f : α → β) (cache : κ → Option β) (a : α) : β × (κ → Option β) :=
  match cache (key a) with
  | some b => (b, cache)
  | none => (f a, assign cache (key a) (some (f a)))

/-- The values for a list of arguments. -/
def fetchAll (key : α → κ) (f : α → β) : (κ → Option β) → List α → List β
  | _, [] => []
  | cache, a :: l => (fetch key f cache a).1 :: fetchAll key f (fetch key f cache a).2 l

/-- Arguments that share a key share the value, with each other and with the cache. -/
structure Shareable (key : α → κ) (f : α → β) (cache : κ → Option β) (l : List α) : Prop where
  cached : ∀ a ∈ l, ∀ b, cache (key a) = some b → b = f a
  fresh : ∀ a ∈ l, ∀ a' ∈ l, cache (key a) = none → key a = key a' → f a = f a'

variable {key : α → κ} {f : α → β} {cache : κ → Option β} {a : α} {b : β} {l : List α}

theorem fetch_of_some (h : cache (key a) = some b) : fetch key f cache a = (b, cache) := by
  unfold fetch
  rw [h]

theorem fetch_of_none (h : cache (key a) = none) :
    fetch key f cache a = (f a, assign cache (key a) (some (f a))) := by
  unfold fetch
  rw [h]

omit [DecidableEq κ] in
theorem Shareable.nil : Shareable key f cache [] :=
  ⟨fun _ ha => absurd ha List.not_mem_nil, fun _ ha => absurd ha List.not_mem_nil⟩

omit [DecidableEq κ] in
theorem shareable_cons_of_some (h : cache (key a) = some b) :
    Shareable key f cache (a :: l) ↔ b = f a ∧ Shareable key f cache l := by
  constructor
  · intro hs
    exact ⟨hs.cached a List.mem_cons_self b h,
      fun a' ha' => hs.cached a' (List.mem_cons_of_mem a ha'),
      fun a' ha' d hd => hs.fresh a' (List.mem_cons_of_mem a ha') d (List.mem_cons_of_mem a hd)⟩
  · intro ⟨hb, hs⟩
    constructor
    · intro a' ha' b' hb'
      rcases List.mem_cons.mp ha' with rfl | ha'
      · exact (Option.some.inj (h.symm.trans hb')) ▸ hb
      · exact hs.cached a' ha' b' hb'
    · intro a' ha' d hd hnone heq
      rcases List.mem_cons.mp ha' with rfl | ha'
      · rw [h] at hnone
        cases hnone
      · rcases List.mem_cons.mp hd with rfl | hd
        · rw [heq, h] at hnone
          cases hnone
        · exact hs.fresh a' ha' d hd hnone heq

/-- The first argument with a key decides for those behind it. -/
theorem shareable_cons_of_none (h : cache (key a) = none) :
    Shareable key f cache (a :: l) ↔
      Shareable key f (assign cache (key a) (some (f a))) l := by
  constructor
  · intro hs
    constructor
    · intro a' ha' b hb
      by_cases heq : key a' = key a
      · rw [heq, assign_self, Option.some.injEq] at hb
        exact hb.symm.trans (hs.fresh a List.mem_cons_self a' (List.mem_cons_of_mem a ha') h
          heq.symm)
      · rw [assign_of_ne heq] at hb
        exact hs.cached a' (List.mem_cons_of_mem a ha') b hb
    · intro a' ha' d hd hnone heq
      have hne : key a' ≠ key a := by
        intro hk
        rw [hk, assign_self] at hnone
        cases hnone
      rw [assign_of_ne hne] at hnone
      exact hs.fresh a' (List.mem_cons_of_mem a ha') d (List.mem_cons_of_mem a hd) hnone heq
  · intro hs
    have hfirst : ∀ a' ∈ l, key a' = key a → f a = f a' := by
      intro a' ha' heq
      apply hs.cached a' ha'
      rw [heq, assign_self]
    constructor
    · intro a' ha' b hb
      rcases List.mem_cons.mp ha' with rfl | ha'
      · rw [h] at hb
        cases hb
      · apply hs.cached a' ha'
        rw [assign_of_ne]
        · exact hb
        · intro heq
          rw [heq, h] at hb
          cases hb
    · intro a' ha' d hd hnone heq
      rcases List.mem_cons.mp ha' with rfl | htail
      · rcases List.mem_cons.mp hd with rfl | hdtail
        · rfl
        · exact hfirst d hdtail heq.symm
      · rcases List.mem_cons.mp hd with rfl | hdtail
        · exact (hfirst a' htail heq).symm
        · by_cases hk : key a' = key a
          · exact (hfirst a' htail hk).symm.trans (hfirst d hdtail (heq.symm.trans hk))
          · apply hs.fresh a' htail d hdtail _ heq
            rw [assign_of_ne hk]
            exact hnone

/-- The cache is invisible if and only if the arguments can share it. -/
theorem fetchAll_eq_map_iff :
    fetchAll key f cache l = l.map f ↔ Shareable key f cache l := by
  induction l generalizing cache with
  | nil => exact iff_of_true rfl .nil
  | cons a l ih =>
    unfold fetchAll
    rw [List.map_cons, List.cons.injEq]
    cases h : cache (key a) with
    | some b =>
      rw [fetch_of_some h, shareable_cons_of_some h]
      exact and_congr_right fun _ => ih
    | none =>
      rw [fetch_of_none h, shareable_cons_of_none h]
      exact (and_iff_right rfl).trans ih

/-- From an empty cache. -/
theorem fetchAll_empty_eq_map_iff :
    fetchAll key f (fun _ => none) l = l.map f ↔
      ∀ a ∈ l, ∀ a' ∈ l, key a = key a' → f a = f a' := by
  rw [fetchAll_eq_map_iff]
  constructor
  · intro hs a ha a' ha'
    exact hs.fresh a ha a' ha' rfl
  · intro h
    exact ⟨fun _ _ _ hb => absurd hb (Option.some_ne_none _).symm, fun a ha a' ha' _ => h a ha a' ha'⟩

end FastLivo.Lib
