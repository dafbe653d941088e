import Mathlib.Data.List.Basic
import Mathlib.Order.Lattice

/-!
# Backward sweep of two ordered sequences

Items are walked from the last to the first while heads are taken from the last
to the first: each head is applied to the items it precedes, and the next head
goes on where the walk stopped. The walk cannot leave the first item, so the
cursor stays on it when it is reached, also for the heads that follow.

`sweep_toList` says what such a loop computes on items in time order: every item
but the first gets the first head that precedes it, and the first item gets
every head that precedes it.
-/

namespace FastLivo.Lib

variable {α η T : Type*} [LinearOrder T]

/-- A cursor on a non-empty list; `before` is read from the cursor backwards. -/
structure Cursor (α : Type*) where
  before : List α
  cur : α
  after : List α

/-- Items the cursor has not left yet, in order. -/
def Cursor.pending (c : Cursor α) : List α := c.before.reverse ++ [c.cur]

def Cursor.toList (c : Cursor α) : List α := c.pending ++ c.after

/-- Walk backwards while items are hit; the first item ends the walk. -/
def walk (hit : α → Bool) (f : α → α) : List α → α → List α → Cursor α
  | [], p, after => if hit p then ⟨[], f p, after⟩ else ⟨[], p, after⟩
  | q :: qs, p, after => if hit p then walk hit f qs q (f p :: after) else ⟨q :: qs, p, after⟩

/-- One walk for each head, all on the same cursor. -/
def sweep (time : α → T) (off : η → T) (f : η → α → α) : List η → Cursor α → Cursor α
  | [], c => c
  | h :: hs, c =>
      sweep time off f hs (walk (fun p => decide (off h < time p)) (f h) c.before c.cur c.after)

/-- The sweep started on the last item of a list. -/
def sweepList (time : α → T) (off : η → T) (f : η → α → α) (hs : List η) (l : List α) : List α :=
  match l.reverse with
  | [] => []
  | p :: before => (sweep time off f hs ⟨before, p, []⟩).toList

variable {time : α → T} {off : η → T} {f : η → α → α}

section Map

variable {β κ : Type*} {time' : β → T} {off' : κ → T} {f' : κ → β → β} (g : α → β) (k : η → κ)

def Cursor.map (g : α → β) (c : Cursor α) : Cursor β :=
  ⟨c.before.map g, g c.cur, c.after.map g⟩

omit [LinearOrder T] in
theorem walk_map {hit : α → Bool} {hit' : β → Bool} {u : α → α} {u' : β → β}
    (hh : ∀ p, hit' (g p) = hit p) (hu : ∀ p, u' (g p) = g (u p)) (before : List α) (p : α)
    (after : List α) :
    walk hit' u' (before.map g) (g p) (after.map g) = (walk hit u before p after).map g := by
  induction before generalizing p after with
  | nil =>
    simp only [walk, List.map_nil, hh, hu]
    split <;> rfl
  | cons b bs ih =>
    simp only [walk, List.map_cons, hh, hu]
    split
    · rw [← List.map_cons, ih]
    · rfl

/-- Sweeping commutes with a map of items and heads that keeps times and rewriting. -/
theorem sweepList_map (ht : ∀ p, time' (g p) = time p) (ho : ∀ h, off' (k h) = off h)
    (hf : ∀ h p, f' (k h) (g p) = g (f h p)) (hs : List η) (l : List α) :
    sweepList time' off' f' (hs.map k) (l.map g) = (sweepList time off f hs l).map g := by
  have hsweep : ∀ c : Cursor α,
      sweep time' off' f' (hs.map k) (c.map g) = (sweep time off f hs c).map g := by
    induction hs with
    | nil => intro c; rfl
    | cons h hs ih =>
      intro c
      rw [List.map_cons, sweep, sweep, ← ih]
      congr 1
      exact walk_map g (fun p => by rw [ht, ho]) (hf h) c.before c.cur c.after
  unfold sweepList
  rw [← List.map_reverse]
  cases l.reverse with
  | nil => rfl
  | cons p before =>
    have h := hsweep ⟨before, p, []⟩
    simp only [Cursor.map, List.map_nil] at h
    simp only [List.map_cons, h, Cursor.toList, Cursor.pending, List.map_append,
      List.map_reverse, List.map_nil]

end Map

/-- An item that is passed once. -/
def once (time : α → T) (off : η → T) (f : η → α → α) (hs : List η) (p : α) : α :=
  match hs.find? fun h => decide (off h < time p) with
  | some h => f h p
  | none => p

/-- An item the cursor stays on. -/
def every (time : α → T) (off : η → T) (f : η → α → α) (hs : List η) (p : α) : α :=
  (hs.filter fun h => decide (off h < time p)).foldl (fun q h => f h q) p

def swept (time : α → T) (off : η → T) (f : η → α → α) (hs : List η) : List α → List α
  | [] => []
  | p :: ps => every time off f hs p :: ps.map (once time off f hs)

theorem once_cons_of_lt {h : η} {hs : List η} {p : α} (hlt : off h < time p) :
    once time off f (h :: hs) p = f h p := by
  simp [once, hlt]

theorem once_cons_of_not_lt {h : η} {hs : List η} {p : α} (hlt : ¬ off h < time p) :
    once time off f (h :: hs) p = once time off f hs p := by
  simp [once, hlt]

theorem every_cons_of_lt {h : η} {hs : List η} {p : α} (hlt : off h < time p)
    (hf : time (f h p) = time p) :
    every time off f (h :: hs) p = every time off f hs (f h p) := by
  simp [every, hlt, hf]

theorem every_cons_of_not_lt {h : η} {hs : List η} {p : α} (hlt : ¬ off h < time p) :
    every time off f (h :: hs) p = every time off f hs p := by
  simp [every, hlt]

theorem time_once (hf : ∀ h p, time (f h p) = time p) (hs : List η) (p : α) :
    time (once time off f hs p) = time p := by
  unfold once
  split
  · exact hf _ p
  · rfl

theorem time_every (hf : ∀ h p, time (f h p) = time p) (hs : List η) (p : α) :
    time (every time off f hs p) = time p := by
  unfold every
  generalize (hs.filter fun h => decide (off h < time p)) = l
  have hfold : ∀ q, time (l.foldl (fun q h => f h q) q) = time q := by
    induction l with
    | nil => intro q; rfl
    | cons h l ih => intro q; rw [List.foldl_cons, ih, hf]
  exact hfold p

/-- One walk, on items in time order: it stops at the last item it does not hit,
or rewrites everything and stays on the first item. -/
theorem walk_cases (hit : α → Bool) (g : α → α) (before : List α) (p : α) (after : List α) :
    (∃ kept q done, before.reverse ++ [p] = kept.reverse ++ [q] ++ done ∧ hit q = false ∧
        (∀ d ∈ done, hit d = true) ∧ walk hit g before p after = ⟨kept, q, done.map g ++ after⟩) ∨
      (∃ q done, before.reverse ++ [p] = q :: done ∧ (∀ d ∈ q :: done, hit d = true) ∧
        walk hit g before p after = ⟨[], g q, done.map g ++ after⟩) := by
  induction before generalizing p after with
  | nil =>
    cases hp : hit p with
    | true => exact .inr ⟨p, [], by simp, by simp [hp], by simp [walk, hp]⟩
    | false => exact .inl ⟨[], p, [], by simp, hp, by simp, by simp [walk, hp]⟩
  | cons b bs ih =>
    cases hp : hit p with
    | false => exact .inl ⟨b :: bs, p, [], by simp, hp, by simp, by simp [walk, hp]⟩
    | true =>
      have hw : walk hit g (b :: bs) p after = walk hit g bs b (g p :: after) := by
        simp [walk, hp]
      rcases ih b (g p :: after) with ⟨kept, q, done, he, hq, hd, hr⟩ | ⟨q, done, he, hd, hr⟩
      · refine .inl ⟨kept, q, done ++ [p], ?_, hq, ?_, ?_⟩
        · rw [List.reverse_cons, he]; simp
        · intro d hm
          rcases List.mem_append.mp hm with hm | hm
          · exact hd d hm
          · rw [List.mem_singleton.mp hm]; exact hp
        · rw [hw, hr]; simp
      · refine .inr ⟨q, done ++ [p], ?_, ?_, ?_⟩
        · rw [List.reverse_cons, he]; simp
        · intro d hm
          rcases List.mem_append.mp (show d ∈ (q :: done) ++ [p] by simpa using hm) with hm | hm
          · exact hd d hm
          · rw [List.mem_singleton.mp hm]; exact hp
        · rw [hw, hr]; simp

/-- What the sweep leaves, for items in time order and rewriting that keeps times. -/
theorem sweep_toList (hf : ∀ h p, time (f h p) = time p) (hs : List η) :
    ∀ c : Cursor α, c.pending.Pairwise (fun a b => time a ≤ time b) →
      (sweep time off f hs c).toList = swept time off f hs c.pending ++ c.after := by
  induction hs with
  | nil =>
    intro c _
    have hid : swept time off f [] c.pending = c.pending := by
      cases c.pending with
      | nil => rfl
      | cons p ps =>
        have hmap : ps.map (once time off f []) = ps :=
          (List.map_congr_left fun _ _ => rfl).trans (List.map_id ps)
        simp [swept, every, hmap]
    rw [sweep, hid]
    rfl
  | cons h hs ih =>
    intro c hsorted
    obtain ⟨before, p, after⟩ := c
    have hpend : (Cursor.mk before p after).pending = before.reverse ++ [p] := rfl
    rcases walk_cases (fun p => decide (off h < time p)) (f h) before p after with
      ⟨kept, q, done, he, hq, hd, hr⟩ | ⟨q, done, he, hd, hr⟩
    · -- the walk stopped at `q`: everything up to it waits for the next head
      have hkeep : (Cursor.mk kept q (done.map (f h) ++ after)).pending = kept.reverse ++ [q] := rfl
      rw [hpend, he, List.pairwise_append] at hsorted
      obtain ⟨hs1, -, -⟩ := hsorted
      have hbefore : ∀ a ∈ kept.reverse ++ [q], ¬ off h < time a := by
        intro a ha hlt
        have haq : time a ≤ time q := by
          rcases List.mem_append.mp ha with hm | hm
          · exact (List.pairwise_append.mp hs1).2.2 a hm q (by simp)
          · rw [List.mem_singleton.mp hm]
        exact of_decide_eq_false hq (hlt.trans_le haq)
      have hdone : done.map (once time off f (h :: hs)) = done.map (f h) :=
        List.map_congr_left fun d hm => once_cons_of_lt (of_decide_eq_true (hd d hm))
      rw [sweep, hr, ih ⟨kept, q, done.map (f h) ++ after⟩ hs1, hkeep, hpend, he]
      cases hl : kept.reverse ++ [q] with
      | nil => simp at hl
      | cons a as =>
        rw [hl] at hbefore
        have has : as.map (once time off f (h :: hs)) = as.map (once time off f hs) :=
          List.map_congr_left fun d hm =>
            once_cons_of_not_lt (hbefore d (List.mem_cons_of_mem _ hm))
        simp only [List.cons_append, swept, List.map_append, has, hdone,
          every_cons_of_not_lt (hbefore a List.mem_cons_self), List.append_assoc]
    · -- every waiting item was hit: the cursor stays on the first one
      have hq := of_decide_eq_true (hd q List.mem_cons_self)
      have hdone : done.map (once time off f (h :: hs)) = done.map (f h) :=
        List.map_congr_left fun d hm =>
          once_cons_of_lt (of_decide_eq_true (hd d (List.mem_cons_of_mem _ hm)))
      rw [sweep, hr, ih _ (by simp [Cursor.pending]), hpend, he]
      simp only [Cursor.pending, List.reverse_nil, List.nil_append, swept, List.map_nil,
        List.cons_append, hdone, every_cons_of_lt hq (hf h q)]

/-- The sweep of a list in time order. -/
theorem sweepList_eq (hf : ∀ h p, time (f h p) = time p) (hs : List η) (l : List α)
    (hl : l.Pairwise fun a b => time a ≤ time b) :
    sweepList time off f hs l = swept time off f hs l := by
  unfold sweepList
  cases hr : l.reverse with
  | nil => rw [List.reverse_eq_nil_iff.mp hr]; rfl
  | cons p before =>
    have he : l = (Cursor.mk before p []).pending := by
      have := congrArg List.reverse hr
      rwa [List.reverse_reverse, List.reverse_cons] at this
    simp only
    rw [sweep_toList hf hs ⟨before, p, []⟩ (he ▸ hl), ← he, List.append_nil]

end FastLivo.Lib
