import FastLivo.Lib.TimedQueue

/-!
# Search with one entry of look-ahead

A search in a sorted queue that pops what is too early and then chooses between the first two
entries that are left. It misses the closest entry of a window exactly where a third entry comes
closer than the second.
-/

namespace FastLivo.Lib

variable {β T : Type*} [LinearOrder T] [AddCommGroup T]

/-- The closer one of the first two entries; a tie goes to the first one. -/
def closerOfTwo (time : β → T) (t : T) : List β → Option β
  | [] => none
  | [b] => some b
  | b :: c :: _ => some (if |time c - t| < |time b - t| then c else b)

/-- The entry that the search around time `t` finds. -/
def lookAhead (time : β → T) (t tol : T) (l : List β) : Option β :=
  (closerOfTwo time t (l.dropWhile fun b => decide (time b < t - tol))).filter fun b =>
    decide (|time b - t| < tol)

/-- The search finds an entry in the window when there is one, and then a closest one. -/
structure FindsClosest (time : β → T) (t tol : T) (l : List β) (found : Option β) : Prop where
  isSome_iff : found.isSome ↔ ∃ b ∈ l, |time b - t| < tol
  closest : ∀ b, found = some b → b ∈ l ∧ ∀ c ∈ l, |time b - t| ≤ |time c - t|

/-- Behind an entry that is not too early and one more, none in the window comes closer. -/
def SecondClosest (time : β → T) (t tol : T) (l : List β) : Prop :=
  ∀ a b c, [a, b, c].Sublist l → t - tol ≤ time a → |time c - t| < tol →
    |time b - t| ≤ |time c - t|

theorem closerOfTwo_mem {time : β → T} {t : T} {l : List β} {b : β}
    (h : closerOfTwo time t l = some b) : b ∈ l := by
  match l, h with
  | [a], h => simpa [closerOfTwo, eq_comm] using h
  | a :: c :: l, h =>
    obtain rfl : _ = b := Option.some.inj h
    split <;> simp

/-- The choice is as close as both. -/
theorem closerOfTwo_le {time : β → T} {t : T} {a c b : β} {l : List β}
    (h : closerOfTwo time t (a :: c :: l) = some b) :
    |time b - t| ≤ |time a - t| ∧ |time b - t| ≤ |time c - t| := by
  obtain rfl : _ = b := Option.some.inj h
  split
  · rename_i hlt
    exact ⟨hlt.le, le_rfl⟩
  · rename_i hge
    exact ⟨le_rfl, not_lt.mp hge⟩

variable {time : β → T} {t tol : T} {l : List β}

theorem lookAhead_eq_some {b : β} : lookAhead time t tol l = some b ↔
    closerOfTwo time t (l.dropWhile fun b => decide (time b < t - tol)) = some b ∧
      |time b - t| < tol := by
  rw [lookAhead, Option.filter_eq_some_iff, decide_eq_true_iff]

/-- A first or second entry that no later one beats makes the choice a closest one. -/
theorem closerOfTwo_closest {kept : List β} {b c : β}
    (h : ∀ x y z, [x, y, z].Sublist kept → |time z - t| < tol → |time y - t| ≤ |time z - t|)
    (hb : closerOfTwo time t kept = some b) (hc : c ∈ kept) (hwindow : |time c - t| < tol) :
    |time b - t| ≤ |time c - t| := by
  match kept, hb, hc with
  | [x], hb, hc => rw [List.mem_singleton.mp hc, Option.some.inj hb]
  | x :: y :: rest, hb, hc =>
    obtain ⟨hx, hy⟩ := closerOfTwo_le hb
    rcases List.mem_cons.mp hc with rfl | hc
    · exact hx
    rcases List.mem_cons.mp hc with rfl | hrest
    · exact hy
    · have hthree : [x, y, c].Sublist (x :: y :: rest) :=
        ((List.singleton_sublist.mpr hrest).cons_cons y).cons_cons x
      exact hy.trans (h x y c hthree hwindow)

/-- Entries that are not too early are not popped. -/
theorem sublist_dropWhile {s : List β} (hs : s.Sublist l) (h : ∀ b ∈ s, t - tol ≤ time b) :
    s.Sublist (l.dropWhile fun b => decide (time b < t - tol)) := by
  have hsplit := List.takeWhile_append_dropWhile (p := fun b => decide (time b < t - tol)) (l := l)
  rw [← hsplit] at hs
  obtain ⟨s₁, s₂, rfl, hs₁, hs₂⟩ := List.sublist_append_iff.mp hs
  cases s₁ with
  | nil => exact hs₂
  | cons b s₁ =>
    have hearly : time b < t - tol := by
      simpa using List.mem_takeWhile_imp (hs₁.subset List.mem_cons_self)
    exact absurd (h b List.mem_cons_self) (not_le.mpr hearly)

variable [IsOrderedAddMonoid T]

omit [AddCommGroup T] in
/-- A later search may start from what an earlier one left. -/
theorem dropWhile_dropWhile {low low' : T} (h : low ≤ low') (l : List β) :
    (l.dropWhile fun b => decide (time b < low)).dropWhile (fun b => decide (time b < low')) =
      l.dropWhile fun b => decide (time b < low') := by
  induction l with
  | nil => rfl
  | cons b l ih =>
    by_cases hb : time b < low
    · rw [List.dropWhile_cons_of_pos (by simpa using hb), ih,
        List.dropWhile_cons_of_pos (by simpa using hb.trans_le h)]
    · rw [List.dropWhile_cons_of_neg (by simpa using hb)]

theorem lookAhead_dropWhile {t' : T} (h : t ≤ t') (l : List β) :
    lookAhead time t' tol (l.dropWhile fun b => decide (time b < t - tol)) =
      lookAhead time t' tol l := by
  rw [lookAhead, dropWhile_dropWhile (sub_le_sub_right h tol), lookAhead]

/-- Before the time, the earlier of two entries is the farther one. -/
theorem abs_sub_le_of_early {a b : β} (hab : time a ≤ time b) (hb : time b ≤ t) :
    |time b - t| ≤ |time a - t| := by
  rw [abs_of_nonpos (sub_nonpos.mpr hb), abs_of_nonpos (sub_nonpos.mpr (hab.trans hb))]
  exact neg_le_neg (sub_le_sub_right hab t)

/-- After the time it is the closer one. -/
theorem abs_sub_le_of_late {a b : β} (hab : time a ≤ time b) (ha : t ≤ time a) :
    |time a - t| ≤ |time b - t| := by
  rw [abs_of_nonneg (sub_nonneg.mpr ha), abs_of_nonneg (sub_nonneg.mpr (ha.trans hab))]
  exact sub_le_sub_right hab t

theorem early_of_farther {a b : β} (hab : time a ≤ time b) (h : |time b - t| < |time a - t|) :
    time a ≤ t :=
  (not_le.mp fun hle => not_le.mpr h (abs_sub_le_of_late hab hle)).le

/-- What is popped lies outside the window. -/
theorem mem_or_tol_le {c : β} (hc : c ∈ l) :
    c ∈ l.dropWhile (fun b => decide (time b < t - tol)) ∨ tol < |time c - t| := by
  have hsplit := List.takeWhile_append_dropWhile (p := fun b => decide (time b < t - tol)) (l := l)
  rw [← hsplit, List.mem_append] at hc
  rcases hc with hc | hc
  · exact .inr (tol_lt_of_mem_takeWhile hc)
  · exact .inl hc

theorem SecondClosest.le (h : SecondClosest time t tol l) (hsorted : Sorted time l) {b c : β}
    (hb : closerOfTwo time t (l.dropWhile fun b => decide (time b < t - tol)) = some b)
    (hc : c ∈ l) (hwindow : |time c - t| < tol) : |time b - t| ≤ |time c - t| := by
  have hkept := (mem_or_tol_le hc).resolve_right (not_lt.mpr hwindow.le)
  refine closerOfTwo_closest (fun x y z hthree hz => ?_) hb hkept hwindow
  have hx := hsorted.le_of_mem_dropWhile (hthree.subset List.mem_cons_self)
  exact h x y z (hthree.trans (List.dropWhile_suffix _).sublist) hx hz

/-- The choice is farther than a third entry that comes closer than the second. -/
theorem lt_closerOfTwo {kept : List β} (hsorted : Sorted time kept) {a b c m : β}
    (hthree : [a, b, c].Sublist kept) (hcloser : |time c - t| < |time b - t|)
    (hm : closerOfTwo time t kept = some m) : |time c - t| < |time m - t| := by
  have horder := hsorted.sublist hthree
  have hbc : time b ≤ time c := by
    simp only [List.pairwise_cons] at horder
    exact horder.2.1 c (by simp)
  have hearly : time b ≤ t := early_of_farther hbc hcloser
  match kept, hsorted, hthree, hm with
  | [x], _, hthree, _ => simpa using hthree.length_le
  | x :: y :: rest, hsorted, hthree, hm =>
    obtain ⟨hx, hyrest⟩ := List.pairwise_cons.mp hsorted
    have htail : [b, c].Sublist (y :: rest) := by
      cases hthree with
      | cons _ h => exact (List.sublist_cons_self a [b, c]).trans h
      | cons_cons _ h => exact h
    have hb : b ∈ y :: rest := htail.subset List.mem_cons_self
    have hyb : time y ≤ time b := by
      rcases List.mem_cons.mp hb with rfl | hb
      · exact le_rfl
      · exact (List.pairwise_cons.mp hyrest).1 b hb
    have hy : |time c - t| < |time y - t| := hcloser.trans_le (abs_sub_le_of_early hyb hearly)
    have hx : |time c - t| < |time x - t| :=
      hcloser.trans_le (abs_sub_le_of_early (hx b hb) hearly)
    obtain rfl : _ = m := Option.some.inj hm
    split
    · exact hy
    · exact hx

/-- The search finds a closest entry exactly where no third one comes closer. -/
theorem findsClosest_iff (hsorted : Sorted time l) :
    FindsClosest time t tol l (lookAhead time t tol l) ↔ SecondClosest time t tol l := by
  constructor
  · intro h a b c hthree ha hwindow
    by_contra hcloser
    rw [not_le] at hcloser
    have hc : c ∈ l := hthree.subset (by simp)
    obtain ⟨m, hm⟩ := Option.isSome_iff_exists.mp (h.isSome_iff.mpr ⟨c, hc, hwindow⟩)
    have hlate : ∀ x ∈ [a, b, c], t - tol ≤ time x := by
      have horder := List.pairwise_cons.mp (hsorted.sublist hthree)
      intro x hx
      rcases List.mem_cons.mp hx with rfl | hx
      · exact ha
      · exact ha.trans (horder.1 x hx)
    have hlt := lt_closerOfTwo (hsorted.suffix (List.dropWhile_suffix _))
      (sublist_dropWhile hthree hlate) hcloser (lookAhead_eq_some.mp hm).1
    exact not_le.mpr hlt ((h.closest m hm).2 c hc)
  · intro h
    refine ⟨⟨?_, ?_⟩, ?_⟩
    · intro hsome
      obtain ⟨b, hb⟩ := Option.isSome_iff_exists.mp hsome
      obtain ⟨hchoice, hwindow⟩ := lookAhead_eq_some.mp hb
      exact ⟨b, (List.dropWhile_suffix _).subset (closerOfTwo_mem hchoice), hwindow⟩
    · rintro ⟨c, hc, hwindow⟩
      have hkept : c ∈ l.dropWhile fun b => decide (time b < t - tol) :=
        (mem_or_tol_le hc).resolve_right (not_lt.mpr hwindow.le)
      obtain ⟨b, hb⟩ : ∃ b, closerOfTwo time t
          (l.dropWhile fun b => decide (time b < t - tol)) = some b := by
        match l.dropWhile (fun b => decide (time b < t - tol)), hkept with
        | [x], _ => exact ⟨x, rfl⟩
        | x :: y :: rest, _ => exact ⟨_, rfl⟩
      exact Option.isSome_iff_exists.mpr
        ⟨b, lookAhead_eq_some.mpr ⟨hb, (h.le hsorted hb hc hwindow).trans_lt hwindow⟩⟩
    · intro b hb
      obtain ⟨hchoice, hwindow⟩ := lookAhead_eq_some.mp hb
      refine ⟨(List.dropWhile_suffix _).subset (closerOfTwo_mem hchoice), fun c hc => ?_⟩
      rcases lt_or_ge |time c - t| tol with hcw | hcw
      · exact h.le hsorted hchoice hc hcw
      · exact hwindow.le.trans hcw

end FastLivo.Lib
