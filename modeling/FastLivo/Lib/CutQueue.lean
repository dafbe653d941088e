import Mathlib.Data.List.TakeWhile
import Mathlib.Data.List.Nodup
import Mathlib.Order.Lattice

/-!
# Queues cut by intervals

Items arrive in time order and wait in a queue. A cut pops everything up to its
high end and delivers what is later than its low end. As long as the low ends do not
fall behind items an earlier cut left out, each cut delivers exactly the items of its
interval that were there and not delivered before, and all cuts together deliver
every item at most once and in order.
-/

namespace FastLivo.Lib

variable {α T : Type*}

/-- One cut: its interval, how many items had arrived, and what it delivered. -/
structure Cut (α T : Type*) where
  low : T
  high : T
  seen : Nat
  out : List α

/-- Everything that arrived, what still waits, and the cuts made. -/
structure CutQueue (α T : Type*) where
  accepted : List α
  queue : List α
  cuts : List (Cut α T)

def CutQueue.push (a : α) (q : CutQueue α T) : CutQueue α T :=
  { q with accepted := q.accepted ++ [a], queue := q.queue ++ [a] }

@[simp] theorem CutQueue.push_accepted (q : CutQueue α T) (a : α) :
    (q.push a).accepted = q.accepted ++ [a] := rfl

@[simp] theorem CutQueue.push_queue (q : CutQueue α T) (a : α) :
    (q.push a).queue = q.queue ++ [a] := rfl

@[simp] theorem CutQueue.push_cuts (q : CutQueue α T) (a : α) : (q.push a).cuts = q.cuts := rfl

variable [LinearOrder T]

/-- Popping while the time is at most `high`, from items in time order. -/
theorem mem_takeWhile_iff_le (time : α → T) (high : T) {l : List α}
    (hl : l.Pairwise fun a b => time a ≤ time b) (a : α) :
    a ∈ l.takeWhile (fun a => !decide (high < time a)) ↔ a ∈ l ∧ time a ≤ high := by
  induction l with
  | nil => simp
  | cons b l ih =>
    obtain ⟨hb, hl⟩ := List.pairwise_cons.mp hl
    by_cases hlt : high < time b
    · rw [List.takeWhile_cons_of_neg (by simp [hlt])]
      constructor
      · intro h
        cases h
      · rintro ⟨hmem, hle⟩
        rcases List.mem_cons.mp hmem with rfl | hmem
        · exact absurd hle (not_le.mpr hlt)
        · exact absurd ((hb a hmem).trans hle) (not_le.mpr hlt)
    · rw [List.takeWhile_cons_of_pos (by simpa using hlt), List.mem_cons, List.mem_cons, ih hl]
      constructor
      · rintro (rfl | ⟨hmem, hle⟩)
        · exact ⟨.inl rfl, not_lt.mp hlt⟩
        · exact ⟨.inr hmem, hle⟩
      · rintro ⟨rfl | hmem, hle⟩
        · exact .inl rfl
        · exact .inr ⟨hmem, hle⟩

omit [LinearOrder T] in
/-- A place in a list with one more item is the new item or a place in the list. -/
theorem snoc_eq_append_cons {l cs cs' : List α} {x c : α} (h : l ++ [x] = cs ++ c :: cs') :
    (l = cs ∧ x = c) ∨ ∃ cs'', l = cs ++ c :: cs'' := by
  rcases List.eq_nil_or_concat cs' with rfl | ⟨cs'', last, rfl⟩
  · obtain ⟨hl, hx⟩ := List.append_inj' h rfl
    exact .inl ⟨hl, (List.cons.inj hx).1⟩
  · have heq : l ++ [x] = (cs ++ c :: cs'') ++ [last] := by simpa using h
    exact .inr ⟨cs'', (List.append_inj' heq rfl).1⟩

/-- What a cut at `(low, high]` does with the queue as it stands. -/
def CutQueue.nextCut (time : α → T) (low high : T) (q : CutQueue α T) : Cut α T where
  low := low
  high := high
  seen := q.accepted.length
  out := (q.queue.takeWhile fun a => !decide (high < time a)).filter fun a => decide (low < time a)

def CutQueue.cut (time : α → T) (low high : T) (q : CutQueue α T) : CutQueue α T :=
  { q with
    queue := q.queue.dropWhile fun a => !decide (high < time a)
    cuts := q.cuts ++ [q.nextCut time low high] }

/-- Pushes in time order, and cuts whose low end is past all items left out so far. -/
inductive CutQueue.Step (time : α → T) (q : CutQueue α T) : CutQueue α T → Prop
  | push (a : α) (hnew : a ∉ q.accepted) (hlate : ∀ b ∈ q.accepted, time b ≤ time a) :
      Step time q (q.push a)
  | cut (low high : T) (hlow : ∀ c ∈ q.cuts, ∀ a ∈ q.accepted, time a ≤ c.low → time a ≤ low) :
      Step time q (q.cut time low high)

/-- A cut delivered exactly the items of its interval that had arrived and that no
earlier cut delivered. -/
def Cut.Exact (time : α → T) (accepted : List α) (earlier : List (Cut α T)) (c : Cut α T) : Prop :=
  ∀ a, a ∈ c.out ↔ a ∈ accepted.take c.seen ∧ (∀ d ∈ earlier, a ∉ d.out) ∧
    c.low < time a ∧ time a ≤ c.high

/-- Invariant of the runs: popped items were delivered or left out by some cut. -/
structure CutQueue.Valid (time : α → T) (q : CutQueue α T) : Prop where
  sorted : q.accepted.Pairwise fun a b => time a ≤ time b
  nodup : q.accepted.Nodup
  seen : ∀ c ∈ q.cuts, c.seen ≤ q.accepted.length
  split : ∃ gone, q.accepted = gone ++ q.queue ∧ (q.cuts.flatMap Cut.out).Sublist gone ∧
    ∀ a ∈ gone, (∃ c ∈ q.cuts, a ∈ c.out) ∨ ∃ c ∈ q.cuts, time a ≤ c.low
  exact : ∀ cs c cs', q.cuts = cs ++ c :: cs' → c.Exact time q.accepted cs

variable {time : α → T} {q q' : CutQueue α T}

@[simp] theorem CutQueue.cut_accepted (low high : T) :
    (q.cut time low high).accepted = q.accepted := rfl

@[simp] theorem CutQueue.cut_queue (low high : T) :
    (q.cut time low high).queue = q.queue.dropWhile fun a => !decide (high < time a) := rfl

@[simp] theorem CutQueue.cut_cuts (low high : T) :
    (q.cut time low high).cuts = q.cuts ++ [q.nextCut time low high] := rfl

theorem CutQueue.valid_empty : (⟨[], [], []⟩ : CutQueue α T).Valid time where
  sorted := .nil
  nodup := .nil
  seen := by simp
  split := ⟨[], rfl, List.Sublist.refl _, by simp⟩
  exact cs c cs' h := by simp at h

theorem CutQueue.Valid.push (h : q.Valid time) {a : α} (hnew : a ∉ q.accepted)
    (hlate : ∀ b ∈ q.accepted, time b ≤ time a) :
    (q.push a).Valid time where
  sorted := by
    refine List.pairwise_append.mpr ⟨h.sorted, List.pairwise_singleton _ _, ?_⟩
    intro b hb c hc
    rw [List.mem_singleton.mp hc]
    exact hlate b hb
  nodup := by
    refine List.nodup_append.mpr ⟨h.nodup, List.nodup_singleton a, ?_⟩
    intro b hb c hc hbc
    rw [List.mem_singleton.mp hc] at hbc
    exact hnew (hbc ▸ hb)
  seen c hc := by
    rw [push_accepted, List.length_append]
    exact (h.seen c hc).trans (Nat.le_add_right _ _)
  split := by
    obtain ⟨gone, hsplit, hsub, hgone⟩ := h.split
    exact ⟨gone, by simp [hsplit], hsub, hgone⟩
  exact cs c cs' hc := by
    have hmem : c ∈ q.cuts := hc ▸ List.mem_append_right _ List.mem_cons_self
    unfold Cut.Exact
    rw [push_accepted, List.take_append_of_le_length (h.seen c hmem)]
    exact h.exact cs c cs' hc

theorem CutQueue.Valid.queue_sorted (h : q.Valid time) :
    q.queue.Pairwise fun a b => time a ≤ time b := by
  obtain ⟨gone, hsplit, -⟩ := h.split
  exact (List.pairwise_append.mp (hsplit ▸ h.sorted)).2.1

/-- What a cut takes: the queued items of its interval. -/
theorem CutQueue.Valid.mem_nextCut (h : q.Valid time) (low high : T) (a : α) :
    a ∈ (q.nextCut time low high).out ↔ a ∈ q.queue ∧ low < time a ∧ time a ≤ high := by
  unfold nextCut
  rw [List.mem_filter, mem_takeWhile_iff_le time high h.queue_sorted]
  simp only [decide_eq_true_eq]
  tauto

/-- Queued items were not delivered; the others were, or are older than the low end. -/
theorem CutQueue.Valid.mem_queue_iff (h : q.Valid time) {low : T}
    (hlow : ∀ c ∈ q.cuts, ∀ a ∈ q.accepted, time a ≤ c.low → time a ≤ low) {a : α}
    (ha : low < time a) : a ∈ q.queue ↔ a ∈ q.accepted ∧ ∀ d ∈ q.cuts, a ∉ d.out := by
  obtain ⟨gone, hsplit, hsub, hgone⟩ := h.split
  have hdisj := (List.nodup_append.mp (hsplit ▸ h.nodup)).2.2
  constructor
  · intro hq
    refine ⟨hsplit ▸ List.mem_append_right _ hq, fun d hd hout => ?_⟩
    exact hdisj a (hsub.subset (List.mem_flatMap.mpr ⟨d, hd, hout⟩)) a hq rfl
  · rintro ⟨hacc, hout⟩
    rcases List.mem_append.mp (hsplit ▸ hacc) with hg | hq
    · rcases hgone a hg with ⟨c, hc, hin⟩ | ⟨c, hc, hle⟩
      · exact absurd hin (hout c hc)
      · exact absurd (hlow c hc a hacc hle) (not_le.mpr ha)
    · exact hq

theorem CutQueue.Valid.cut (h : q.Valid time) {low high : T}
    (hlow : ∀ c ∈ q.cuts, ∀ a ∈ q.accepted, time a ≤ c.low → time a ≤ low) :
    (q.cut time low high).Valid time where
  sorted := h.sorted
  nodup := h.nodup
  seen c hc := by
    rcases List.mem_append.mp hc with hc | hc
    · exact h.seen c hc
    · rw [List.mem_singleton.mp hc]
      exact le_rfl
  split := by
    obtain ⟨gone, hsplit, hsub, hgone⟩ := h.split
    refine ⟨gone ++ q.queue.takeWhile (fun a => !decide (high < time a)), ?_, ?_, ?_⟩
    · rw [cut_accepted, cut_queue, List.append_assoc, List.takeWhile_append_dropWhile]
      exact hsplit
    · simp only [cut_cuts, List.flatMap_append, List.flatMap_singleton]
      exact hsub.append List.filter_sublist
    · intro a ha
      rcases List.mem_append.mp ha with ha | ha
      · rcases hgone a ha with ⟨c, hc, hin⟩ | ⟨c, hc, hle⟩
        · exact .inl ⟨c, List.mem_append_left _ hc, hin⟩
        · exact .inr ⟨c, List.mem_append_left _ hc, hle⟩
      · by_cases hlt : low < time a
        · exact .inl ⟨_, List.mem_append_right _ List.mem_cons_self,
            List.mem_filter.mpr ⟨ha, decide_eq_true hlt⟩⟩
        · exact .inr ⟨_, List.mem_append_right _ List.mem_cons_self, not_lt.mp hlt⟩
  exact cs c cs' hc := by
    rcases snoc_eq_append_cons hc with ⟨rfl, rfl⟩ | ⟨cs'', hold⟩
    · -- the new cut
      intro a
      change a ∈ (q.nextCut time low high).out ↔ a ∈ q.accepted.take q.accepted.length ∧ _
      rw [h.mem_nextCut, List.take_length]
      constructor
      · rintro ⟨hq, hlt, hle⟩
        obtain ⟨hacc, hout⟩ := (h.mem_queue_iff hlow hlt).mp hq
        exact ⟨hacc, hout, hlt, hle⟩
      · rintro ⟨hacc, hout, hlt, hle⟩
        exact ⟨(h.mem_queue_iff hlow hlt).mpr ⟨hacc, hout⟩, hlt, hle⟩
    · -- an earlier cut
      exact h.exact cs c cs'' hold

/-- One step keeps the invariant. -/
theorem CutQueue.Valid.step (h : q.Valid time) (hs : q.Step time q') : q'.Valid time := by
  cases hs with
  | push a hnew hlate => exact h.push hnew hlate
  | cut low high hlow => exact h.cut hlow

/-- An item past the low end of a cut that reaches it, and past the high ends of all
cuts before, is delivered by this cut. -/
theorem CutQueue.Valid.mem_out (h : q.Valid time) {cs cs' : List (Cut α T)} {c : Cut α T}
    (hc : q.cuts = cs ++ c :: cs') {pre post : List α} {a : α} (ha : q.accepted = pre ++ a :: post)
    (hseen : pre.length < c.seen) (hlow : c.low < time a) (hhigh : time a ≤ c.high)
    (hprev : ∀ d ∈ cs, d.high < time a) : a ∈ c.out := by
  refine (h.exact cs c cs' hc a).mpr ⟨?_, fun d hd hout => ?_, hlow, hhigh⟩
  · rw [ha, List.take_append, List.mem_append]
    right
    obtain ⟨n, hn⟩ := Nat.exists_eq_add_of_lt hseen
    rw [show c.seen - pre.length = n + 1 by omega, List.take_succ_cons]
    exact List.mem_cons_self
  · obtain ⟨ds, ds', rfl⟩ := List.append_of_mem hd
    have hle := ((h.exact ds d (ds' ++ c :: cs') (by simp [hc]) a).mp hout).2.2.2
    exact absurd hle (not_le.mpr (hprev d hd))

end FastLivo.Lib
