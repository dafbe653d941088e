import Mathlib.Data.List.Sort
import Mathlib.Data.List.TakeWhile
import Mathlib.Algebra.Order.Group.Abs
import Mathlib.Tactic.Linarith

/-!
# Queues sorted by time

Entries are inserted behind the last one that is not later. A search around a time walks
over the queue once and stops behind the window; on a sorted queue it finds an entry
closest to the time, or there is none in the window. Taking that entry drops everything
in front of it, so no entry is taken twice.
-/

namespace FastLivo.Lib

variable {β T : Type*} [LinearOrder T]

def Sorted (time : β → T) (l : List β) : Prop := l.Pairwise fun a b => time a ≤ time b

/-- Insertion at `upper_bound`. -/
def insertSorted (time : β → T) (x : β) (l : List β) : List β :=
  l.orderedInsert (fun a b => time a < time b) x

theorem insertSorted_perm (time : β → T) (x : β) (l : List β) :
    (insertSorted time x l).Perm (x :: l) :=
  List.perm_orderedInsert _ x l

theorem Sorted.insert {time : β → T} {l : List β} (h : Sorted time l) (x : β) :
    Sorted time (insertSorted time x l) := by
  induction l with
  | nil => exact List.pairwise_singleton _ _
  | cons b l ih =>
    obtain ⟨hb, hl⟩ := List.pairwise_cons.mp h
    by_cases hlt : time x < time b
    · rw [insertSorted, List.orderedInsert_cons, if_pos hlt]
      refine List.pairwise_cons.mpr ⟨fun c hc => ?_, h⟩
      rcases List.mem_cons.mp hc with rfl | hc
      · exact hlt.le
      · exact hlt.le.trans (hb c hc)
    · rw [insertSorted, List.orderedInsert_cons, if_neg hlt]
      refine List.pairwise_cons.mpr ⟨fun c hc => ?_, ih hl⟩
      rcases List.mem_cons.mp ((insertSorted_perm time x l).mem_iff.mp hc) with rfl | hc
      · exact not_lt.mp hlt
      · exact hb c hc

theorem Sorted.suffix {time : β → T} {l l' : List β} (h : Sorted time l) (hs : l' <:+ l) :
    Sorted time l' :=
  h.sublist hs.sublist

/-- On a sorted queue the front is popped up to the first entry that is not too early. -/
theorem Sorted.le_of_mem_dropWhile {time : β → T} {l : List β} {low : T} (h : Sorted time l) {b : β}
    (hb : b ∈ l.dropWhile fun a => decide (time a < low)) : low ≤ time b := by
  induction l with
  | nil => cases hb
  | cons a l ih =>
    obtain ⟨ha, hl⟩ := List.pairwise_cons.mp h
    by_cases hlt : time a < low
    · rw [List.dropWhile_cons_of_pos (by simpa using hlt)] at hb
      exact ih hl hb
    · rw [List.dropWhile_cons_of_neg (by simpa using hlt)] at hb
      rcases List.mem_cons.mp hb with rfl | hb
      · exact not_lt.mp hlt
      · exact (not_lt.mp hlt).trans (ha b hb)

/-- What is left behind the entries that are too early are the ones that are not. -/
theorem Sorted.dropWhile_eq_filter {time : β → T} {l : List β} (h : Sorted time l) (low : T) :
    (l.dropWhile fun b => decide (time b < low)) = l.filter fun b => decide (low ≤ time b) := by
  induction l with
  | nil => rfl
  | cons a l ih =>
    obtain ⟨ha, hl⟩ := List.pairwise_cons.mp h
    by_cases hlt : time a < low
    · rw [List.dropWhile_cons_of_pos (by simpa using hlt), ih hl,
        List.filter_cons_of_neg (by simpa using hlt)]
    · have hall : ∀ b ∈ a :: l, decide (low ≤ time b) = true := by
        intro b hb
        rcases List.mem_cons.mp hb with rfl | hb
        · simpa using hlt
        · exact decide_eq_true ((not_lt.mp hlt).trans (ha b hb))
      rw [List.dropWhile_cons_of_neg (by simpa using hlt), List.filter_eq_self.mpr hall]

section Nearest

variable [AddCommGroup T]

/-- One walk over the queue from position `i` on, with the position of the best entry so
far and its distance. A tie goes to the later entry, and an entry behind the window ends
the walk. -/
def nearestFrom (time : β → T) (t tol : T) : List β → ℕ → Option ℕ → T → Option ℕ
  | [], _, best, _ => best
  | b :: l, i, best, dist =>
    let d := |time b - t|
    let r := if d ≤ dist then (some i, d) else (best, dist)
    if t + tol < time b then r.1 else nearestFrom time t tol l (i + 1) r.1 r.2

/-- The entry taken at time `t` and the queue that is left. -/
def takeNearest (time : β → T) (t tol : T) (l : List β) : Option β × List β :=
  let l := l.dropWhile fun b => decide (time b < t - tol)
  match nearestFrom time t tol l 0 none tol with
  | some i => (l[i]?, l.drop (i + 1))
  | none => (none, l)

/-- What a search owes its caller. -/
structure Nearest (time : β → T) (t tol : T) (l : List β) (taken : Option β) (rest : List β) :
    Prop where
  /-- The rest is behind the entry taken. -/
  split : ∃ pre, l = pre ++ (taken.toList ++ rest)
  close : ∀ b, taken = some b → |time b - t| ≤ tol
  closest : ∀ b, taken = some b → ∀ c ∈ l, |time b - t| ≤ |time c - t|
  none_close : taken = none → ∀ c ∈ l, tol < |time c - t|
  not_early : ∀ c ∈ rest, t - tol ≤ time c
  not_before : ∀ b, taken = some b → ∀ c ∈ rest, time b ≤ time c

theorem Nearest.mem {time : β → T} {t tol : T} {l rest : List β} {taken : Option β}
    (h : Nearest time t tol l taken rest) {b : β} (hb : taken = some b) : b ∈ l := by
  obtain ⟨pre, rfl⟩ := h.split
  simp [hb]

theorem Nearest.suffix {time : β → T} {t tol : T} {l rest : List β} {taken : Option β}
    (h : Nearest time t tol l taken rest) : rest <:+ l := by
  obtain ⟨pre, rfl⟩ := h.split
  rw [← List.append_assoc]
  exact List.suffix_append _ _

variable [IsOrderedAddMonoid T]

/-- The walk keeps the best entry it was given, or finds one of the queue that is at
least as close as all others. -/
theorem nearestFrom_cases {time : β → T} {t tol : T} {l : List β} (h : Sorted time l) (i : ℕ)
    (best : Option ℕ) {dist : T} (hdist : dist ≤ tol) :
    (nearestFrom time t tol l i best dist = best ∧ ∀ b ∈ l, dist < |time b - t|) ∨
    ∃ k b, nearestFrom time t tol l i best dist = some (i + k) ∧ l[k]? = some b ∧
      |time b - t| ≤ dist ∧ ∀ c ∈ l, |time b - t| ≤ |time c - t| := by
  induction l generalizing i best dist with
  | nil => exact .inl ⟨rfl, by simp⟩
  | cons a l ih =>
    obtain ⟨ha, hl⟩ := List.pairwise_cons.mp h
    rw [nearestFrom]
    by_cases hclose : |time a - t| ≤ dist
    · -- An entry this close lies in the window, so the walk goes on.
      have hwindow : ¬t + tol < time a := by
        have hle : time a - t ≤ tol := (le_abs_self _).trans (hclose.trans hdist)
        rw [not_lt, ← sub_le_iff_le_add']
        exact hle
      simp only [if_pos hclose, if_neg hwindow]
      rcases ih hl (i + 1) (some i) (hclose.trans hdist) with ⟨heq, hfar⟩ | ⟨k, b, heq, hk, hb, hmin⟩
      · refine .inr ⟨0, a, heq, rfl, hclose, fun c hc => ?_⟩
        rcases List.mem_cons.mp hc with rfl | hc
        · exact le_refl _
        · exact (hfar c hc).le
      · refine .inr ⟨k + 1, b, ?_, hk, hb.trans hclose, fun c hc => ?_⟩
        · rw [heq, Nat.add_assoc, Nat.add_comm 1 k]
        · rcases List.mem_cons.mp hc with rfl | hc
          · exact hb
          · exact hmin c hc
    · simp only [if_neg hclose]
      have hfara : dist < |time a - t| := not_le.mp hclose
      by_cases hwindow : t + tol < time a
      · -- Nothing behind the window is closer.
        simp only [if_pos hwindow]
        refine .inl ⟨trivial, fun c hc => ?_⟩
        rcases List.mem_cons.mp hc with rfl | hc
        · exact hfara
        · have hlate : tol < time c - t := lt_sub_iff_add_lt'.mpr (hwindow.trans_le (ha c hc))
          exact hdist.trans_lt (hlate.trans_le (le_abs_self _))
      · simp only [if_neg hwindow]
        rcases ih hl (i + 1) best hdist with ⟨heq, hfar⟩ | ⟨k, b, heq, hk, hb, hmin⟩
        · refine .inl ⟨heq, fun c hc => ?_⟩
          rcases List.mem_cons.mp hc with rfl | hc
          · exact hfara
          · exact hfar c hc
        · refine .inr ⟨k + 1, b, ?_, hk, hb, fun c hc => ?_⟩
          · rw [heq, Nat.add_assoc, Nat.add_comm 1 k]
          · rcases List.mem_cons.mp hc with rfl | hc
            · exact hb.trans hfara.le
            · exact hmin c hc

/-- Entries popped for being too early are outside the window. -/
theorem tol_lt_of_mem_takeWhile {time : β → T} {t tol : T} {l : List β} {c : β}
    (hc : c ∈ l.takeWhile fun b => decide (time b < t - tol)) : tol < |time c - t| := by
  have hearly : time c < t - tol := by simpa using List.mem_takeWhile_imp hc
  have hlt : tol < -(time c - t) := by
    rw [neg_sub]
    exact lt_sub_comm.mp hearly
  exact hlt.trans_le (neg_le_abs _)

theorem takeNearest_spec {time : β → T} {l : List β} (h : Sorted time l) (t tol : T) :
    Nearest time t tol l (takeNearest time t tol l).1 (takeNearest time t tol l).2 := by
  have hsplit := List.takeWhile_append_dropWhile (p := fun b => decide (time b < t - tol)) (l := l)
  have hkept : Sorted time (l.dropWhile fun b => decide (time b < t - tol)) :=
    h.suffix (List.dropWhile_suffix _)
  have hfar : ∀ c ∈ l, c ∉ l.dropWhile (fun b => decide (time b < t - tol)) →
      tol < |time c - t| := by
    intro c hc hdropped
    rw [← hsplit] at hc
    exact tol_lt_of_mem_takeWhile ((List.mem_append.mp hc).resolve_right hdropped)
  unfold takeNearest
  rcases nearestFrom_cases (t := t) hkept 0 none (le_refl tol) with ⟨heq, hnone⟩ | ⟨k, b, heq, hk, hb, hmin⟩
  · simp only [heq]
    refine ⟨⟨_, hsplit.symm⟩, by simp, by simp, fun _ c hc => ?_, fun c hc => ?_, by simp⟩
    · by_cases hmem : c ∈ l.dropWhile fun b => decide (time b < t - tol)
      · exact hnone c hmem
      · exact hfar c hc hmem
    · exact h.le_of_mem_dropWhile hc
  · rw [Nat.zero_add] at heq
    simp only [heq, hk]
    obtain ⟨hlen, hget⟩ := List.getElem?_eq_some_iff.mp hk
    have hbehind : (l.dropWhile fun b => decide (time b < t - tol)).drop k =
        b :: (l.dropWhile fun b => decide (time b < t - tol)).drop (k + 1) := by
      rw [List.drop_eq_getElem_cons hlen, hget]
    refine ⟨⟨l.takeWhile (fun b => decide (time b < t - tol)) ++
      (l.dropWhile fun b => decide (time b < t - tol)).take k, ?_⟩, ?_, ?_, by simp, ?_, ?_⟩
    · rw [Option.toList_some, List.singleton_append, ← hbehind, List.append_assoc,
        List.take_append_drop, hsplit]
    · intro c hc
      rw [← Option.some.inj hc]
      exact hb
    · intro a ha c hc
      rw [← Option.some.inj ha]
      by_cases hmem : c ∈ l.dropWhile fun b => decide (time b < t - tol)
      · exact hmin c hmem
      · exact hb.trans (hfar c hc hmem).le
    · exact fun c hc => h.le_of_mem_dropWhile (List.mem_of_mem_drop hc)
    · intro a ha c hc
      rw [← Option.some.inj ha]
      have hpair := hkept.suffix (List.drop_suffix k _)
      rw [hbehind] at hpair
      exact (List.pairwise_cons.mp hpair).1 c hc

/-! ### A walk that keeps the first of the closest -/

/-- One walk over the queue from position `i` on, with the position of the closest entry so
far and its distance. It stops at the first entry past `t` that is not closer. -/
def closestFrom (time : β → T) (t : T) : List β → ℕ → ℕ → T → ℕ × T
  | [], _, best, dist => (best, dist)
  | b :: l, i, best, dist =>
    let d := |time b - t|
    if dist ≤ d ∧ t < time b then (best, dist)
    else if d < dist then closestFrom time t l (i + 1) i d
    else closestFrom time t l (i + 1) best dist

/-- The closest entry if it is within `tol`, and the queue behind it. -/
def searchClosest (time : β → T) (t tol : T) : List β → Option β × List β
  | [] => (none, [])
  | a :: l =>
    let (i, dist) := closestFrom time t l 1 0 |time a - t|
    if tol < dist then (none, a :: l) else ((a :: l)[i]?, (a :: l).drop (i + 1))

/-- The same with the entries earlier than `t - keep` dropped first. -/
def takeClosest (time : β → T) (t keep tol : T) (l : List β) : Option β × List β :=
  searchClosest time t tol (l.dropWhile fun b => decide (time b < t - keep))

/-- The walk keeps the entry it was given, or finds a closer one of the queue; none is
closer than the result. -/
theorem closestFrom_cases {time : β → T} {t : T} {l : List β}
    (h : Sorted time l) (i best : ℕ) (dist : T) :
    (closestFrom time t l i best dist = (best, dist) ∧ ∀ c ∈ l, dist ≤ |time c - t|) ∨
    ∃ k b, closestFrom time t l i best dist = (i + k, |time b - t|) ∧ l[k]? = some b ∧
      |time b - t| < dist ∧ ∀ c ∈ l, |time b - t| ≤ |time c - t| := by
  induction l generalizing i best dist with
  | nil => exact .inl ⟨rfl, by simp⟩
  | cons a l ih =>
    obtain ⟨ha, hl⟩ := List.pairwise_cons.mp h
    rw [closestFrom]
    by_cases hstop : dist ≤ |time a - t| ∧ t < time a
    · -- Behind an entry past `t` the distances only grow.
      rw [if_pos hstop]
      refine .inl ⟨rfl, fun c hc => ?_⟩
      rcases List.mem_cons.mp hc with rfl | hc
      · exact hstop.1
      · rw [abs_of_pos (sub_pos.mpr hstop.2)] at hstop
        exact hstop.1.trans ((sub_le_sub_right (ha c hc) t).trans (le_abs_self _))
    · rw [if_neg hstop]
      by_cases hcloser : |time a - t| < dist
      · rw [if_pos hcloser]
        rcases ih hl (i + 1) i |time a - t| with ⟨heq, hmin⟩ | ⟨k, b, heq, hk, hb, hmin⟩
        · refine .inr ⟨0, a, heq, rfl, hcloser, fun c hc => ?_⟩
          rcases List.mem_cons.mp hc with rfl | hc
          · exact le_refl _
          · exact hmin c hc
        · refine .inr ⟨k + 1, b, ?_, hk, hb.trans hcloser, fun c hc => ?_⟩
          · rw [heq, Nat.add_assoc, Nat.add_comm 1 k]
          · rcases List.mem_cons.mp hc with rfl | hc
            · exact hb.le
            · exact hmin c hc
      · rw [if_neg hcloser]
        rcases ih hl (i + 1) best dist with ⟨heq, hmin⟩ | ⟨k, b, heq, hk, hb, hmin⟩
        · refine .inl ⟨heq, fun c hc => ?_⟩
          rcases List.mem_cons.mp hc with rfl | hc
          · exact not_lt.mp hcloser
          · exact hmin c hc
        · refine .inr ⟨k + 1, b, ?_, hk, hb, fun c hc => ?_⟩
          · rw [heq, Nat.add_assoc, Nat.add_comm 1 k]
          · rcases List.mem_cons.mp hc with rfl | hc
            · exact hb.le.trans (not_lt.mp hcloser)
            · exact hmin c hc

/-- What a search that keeps entries for a while owes its caller. -/
structure Closest (time : β → T) (t keep tol : T) (l : List β) (taken : Option β)
    (rest : List β) : Prop where
  /-- The rest is behind the entry taken. -/
  split : ∃ pre, l = pre ++ (taken.toList ++ rest)
  close : ∀ b, taken = some b → |time b - t| ≤ tol
  closest : ∀ b, taken = some b → ∀ c ∈ l, |time b - t| ≤ |time c - t|
  none_close : taken = none → ∀ c ∈ l, tol < |time c - t|
  /-- A search in vain drops what is too old and nothing else. -/
  kept : taken = none → ∃ pre, l = pre ++ rest ∧ ∀ c ∈ pre, time c < t - keep

omit [IsOrderedAddMonoid T] in
theorem Closest.mem {time : β → T} {t keep tol : T} {l rest : List β} {taken : Option β}
    (h : Closest time t keep tol l taken rest) {b : β} (hb : taken = some b) : b ∈ l := by
  obtain ⟨pre, rfl⟩ := h.split
  simp [hb]

omit [IsOrderedAddMonoid T] in
/-- A search succeeds exactly when some entry is within the tolerance. -/
theorem Closest.isSome_iff {time : β → T} {t keep tol : T} {l rest : List β} {taken : Option β}
    (h : Closest time t keep tol l taken rest) :
    taken.isSome ↔ ∃ c ∈ l, |time c - t| ≤ tol := by
  cases taken with
  | none => simpa using h.none_close rfl
  | some b => simpa using ⟨b, h.mem rfl, h.close b rfl⟩

/-- A search without dropping keeps a queue in which nothing is close enough. -/
theorem searchClosest_cases {time : β → T} {l : List β} (h : Sorted time l) (t tol : T) :
    (searchClosest time t tol l = (none, l) ∧ ∀ c ∈ l, tol < |time c - t|) ∨
    ∃ pre b rest, searchClosest time t tol l = (some b, rest) ∧ l = pre ++ b :: rest ∧
      |time b - t| ≤ tol ∧ ∀ c ∈ l, |time b - t| ≤ |time c - t| := by
  cases l with
  | nil => exact .inl ⟨rfl, by simp⟩
  | cons a l =>
    obtain ⟨-, hl⟩ := List.pairwise_cons.mp h
    -- The walk starts with the front as the best entry, so it always ends with some entry.
    obtain ⟨i, b, hwalk, hi, hmin⟩ : ∃ i b, closestFrom time t l 1 0 |time a - t| =
        (i, |time b - t|) ∧ (a :: l)[i]? = some b ∧
          ∀ c ∈ a :: l, |time b - t| ≤ |time c - t| := by
      rcases closestFrom_cases hl 1 0 |time a - t| with ⟨heq, hmin⟩ | ⟨k, b, heq, hk, hb, hmin⟩
      · exact ⟨0, a, heq, rfl, List.forall_mem_cons.mpr ⟨le_refl _, hmin⟩⟩
      · refine ⟨1 + k, b, heq, ?_, List.forall_mem_cons.mpr ⟨hb.le, hmin⟩⟩
        rw [Nat.add_comm]
        exact hk
    rw [searchClosest, hwalk]
    dsimp only
    by_cases htol : tol < |time b - t|
    · rw [if_pos htol]
      exact .inl ⟨rfl, fun c hc => htol.trans_le (hmin c hc)⟩
    · rw [if_neg htol, hi]
      obtain ⟨hlen, hget⟩ := List.getElem?_eq_some_iff.mp hi
      refine .inr ⟨(a :: l).take i, b, _, rfl, ?_, not_lt.mp htol, hmin⟩
      rw [← hget, ← List.drop_eq_getElem_cons hlen, List.take_append_drop]

theorem takeClosest_spec {time : β → T} {l : List β} (h : Sorted time l) {t keep tol : T}
    (hkeep : tol ≤ keep) :
    Closest time t keep tol l (takeClosest time t keep tol l).1
      (takeClosest time t keep tol l).2 := by
  have hsplit := List.takeWhile_append_dropWhile (p := fun b => decide (time b < t - keep)) (l := l)
  have hkept : Sorted time (l.dropWhile fun b => decide (time b < t - keep)) :=
    h.suffix (List.dropWhile_suffix _)
  have hold : ∀ c ∈ l.takeWhile fun b => decide (time b < t - keep), time c < t - keep :=
    fun c hc => by simpa using List.mem_takeWhile_imp hc
  have hfar : ∀ c ∈ l.takeWhile fun b => decide (time b < t - keep), tol < |time c - t| :=
    fun c hc => hkeep.trans_lt (tol_lt_of_mem_takeWhile hc)
  unfold takeClosest
  generalize l.takeWhile (fun b => decide (time b < t - keep)) = old at hsplit hold hfar
  generalize l.dropWhile (fun b => decide (time b < t - keep)) = queue at hsplit hkept
  subst hsplit
  rcases searchClosest_cases hkept t tol with
    ⟨heq, hnone⟩ | ⟨pre, b, rest, heq, rfl, hb, hmin⟩
  · rw [heq]
    refine ⟨⟨old, by simp⟩, by simp, by simp, fun _ => ?_, fun _ => ⟨old, rfl, hold⟩⟩
    exact List.forall_mem_append.mpr ⟨hfar, hnone⟩
  · rw [heq]
    refine ⟨⟨old ++ pre, by simp⟩, ?_, ?_, by simp, by simp⟩
    · rintro c ⟨⟩
      exact hb
    · rintro c ⟨⟩
      exact List.forall_mem_append.mpr ⟨fun c hc => hb.trans (hfar c hc).le, hmin⟩

end Nearest

/-! ### Entries that are taken at most once -/

/-- A queue of numbered entries beside the numbers taken from it: sorted, bounded, and
nothing in it was taken. -/
structure Ledger (time : β → T) (number : β → ℕ) (cap next : ℕ) (queue : List β)
    (taken : List ℕ) : Prop where
  sorted : Sorted time queue
  bounded : queue.length ≤ cap
  distinct : (taken ++ queue.map number).Nodup
  below : ∀ n ∈ taken ++ queue.map number, n < next

theorem Ledger.empty (time : β → T) (number : β → ℕ) (cap next : ℕ) :
    Ledger time number cap next [] [] :=
  ⟨List.Pairwise.nil, by simp, by simp, by simp⟩

/-- An entry with the next number comes in, and the oldest ones beyond the bound go. -/
theorem Ledger.insert {time : β → T} {number : β → ℕ} {cap next : ℕ} {queue : List β}
    {taken : List ℕ} (h : Ledger time number cap next queue taken) {x : β}
    (hx : number x = next) :
    Ledger time number cap (next + 1)
      ((insertSorted time x queue).drop ((insertSorted time x queue).length - cap)) taken := by
  -- Up to their order the numbers are the old ones and the next one.
  have hperm := ((insertSorted_perm time x queue).map number).append_left taken
  rw [List.map_cons, hx] at hperm
  have hsub : ((insertSorted time x queue).drop ((insertSorted time x queue).length - cap)).Sublist
      (insertSorted time x queue) := List.drop_sublist _ _
  have hnumbers := (hsub.map number).append_left taken
  refine ⟨(h.sorted.insert x).sublist hsub, ?_, ?_, fun n hn => ?_⟩
  · rw [List.length_drop]
    omega
  · refine (hperm.nodup_iff.mpr (List.nodup_middle.mpr ?_)).sublist hnumbers
    exact List.nodup_cons.mpr ⟨fun hmem => (h.below _ hmem).ne rfl, h.distinct⟩
  · rcases List.mem_cons.mp (List.perm_middle.mem_iff.mp (hperm.mem_iff.mp (hnumbers.subset hn)))
      with rfl | hold
    · exact Nat.lt_succ_self _
    · exact (h.below n hold).trans (Nat.lt_succ_self _)

/-- An entry is taken, and some in front of it are dropped. -/
theorem Ledger.take {time : β → T} {number : β → ℕ} {cap next : ℕ} {queue rest pre : List β}
    {taken : List ℕ} {x : Option β} (h : Ledger time number cap next queue taken)
    (hsplit : queue = pre ++ (x.toList ++ rest)) :
    Ledger time number cap next rest (taken ++ (x.map number).toList) := by
  have hsuffix : rest <:+ queue := by
    rw [hsplit, ← List.append_assoc]
    exact List.suffix_append _ _
  have hsub : ((taken ++ (x.map number).toList) ++ rest.map number).Sublist
      (taken ++ queue.map number) := by
    rw [List.append_assoc, hsplit, List.map_append, List.map_append, Option.toList_map]
    exact (List.sublist_append_right _ _).append_left taken
  exact ⟨h.sorted.suffix hsuffix, hsuffix.length_le.trans h.bounded, h.distinct.sublist hsub,
    fun n hn => h.below n (hsub.subset hn)⟩

end FastLivo.Lib
