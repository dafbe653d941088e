import FastLivo.Lib.LookAhead
import FastLivo.Mapper.Callbacks

/-!
# Association of RTK and LIVO samples

The matching loop of `InitializeRTK` walks over both buffers once. On sorted buffers each RTK
sample gets the closer one of the first two LIVO samples of its window, so a dense LIVO buffer can
hide the closest one.
-/

namespace FastLivo

open Lib

variable {C : Carrier}

/-- The loop of `matchRtk` with the samples in place of their positions. -/
def associate (threshold : Double) :
    List (RTK C) → List (Double × C.V3D) → List (RTK C × (Double × C.V3D))
  | [], _ => []
  | rtk :: rest, livo =>
    match livo.dropWhile fun l => decide (l.1 < rtk.timestamp - threshold) with
    | [] => []
    | l :: ls =>
      let dt := |l.1 - rtk.timestamp|
      let best := match ls with
        | next :: _ => if |next.1 - rtk.timestamp| < dt then next else l
        | [] => l
      if |best.1 - rtk.timestamp| < threshold then
        (rtk, best) :: associate threshold rest (l :: ls)
      else associate threshold rest (l :: ls)

theorem matchRtk_eq (threshold : Double) (rtk : List (RTK C)) (livo : List (Double × C.V3D)) :
    matchRtk threshold rtk livo = (associate threshold rtk livo).map fun a => (a.1.p, a.2.2) := by
  induction rtk generalizing livo with
  | nil => rfl
  | cons r rest ih =>
    rw [matchRtk, associate]
    cases livo.dropWhile fun l => decide (l.1 < r.timestamp - threshold) with
    | nil => rfl
    | cons l ls =>
      cases ls <;> simp only [ih, apply_ite (List.map _), List.map_cons]

theorem pair_or_skip (threshold : Double) (r : RTK C) (best : Double × C.V3D)
    (pairs : List (RTK C × (Double × C.V3D))) :
    (if |best.1 - r.timestamp| < threshold then (r, best) :: pairs else pairs) =
      (((some best).filter fun b => decide (|b.1 - r.timestamp| < threshold)).map (r, ·)).toList ++
        pairs := by
  rw [Option.filter_some]
  by_cases hclose : |best.1 - r.timestamp| < threshold
  · rw [if_pos hclose, if_pos (decide_eq_true hclose)]
    rfl
  · rw [if_neg hclose, if_neg (by simpa using hclose)]
    rfl

/-- One turn of the loop. -/
theorem associate_cons {threshold : Double} {r : RTK C} (rest : List (RTK C))
    {livo kept : List (Double × C.V3D)}
    (hkept : (livo.dropWhile fun l => decide (l.1 < r.timestamp - threshold)) = kept) :
    associate threshold (r :: rest) livo =
      if kept = [] then []
      else ((lookAhead Prod.fst r.timestamp threshold livo).map (r, ·)).toList ++
        associate threshold rest kept := by
  rw [associate, lookAhead, hkept]
  rcases kept with _ | ⟨l, _ | ⟨next, ls⟩⟩
  · rfl
  · exact pair_or_skip threshold r l _
  · exact pair_or_skip threshold r _ _

/-- On a sorted RTK buffer the walk searches the whole LIVO buffer for each sample. -/
theorem associate_eq {threshold : Double} {rtk : List (RTK C)} (hrtk : Sorted RTK.timestamp rtk)
    (livo : List (Double × C.V3D)) :
    associate threshold rtk livo =
      rtk.filterMap fun r => (lookAhead Prod.fst r.timestamp threshold livo).map (r, ·) := by
  induction rtk generalizing livo with
  | nil => rfl
  | cons r rest ih =>
    obtain ⟨hr, hrest⟩ := List.pairwise_cons.mp hrtk
    have hsame : ∀ r' ∈ r :: rest, lookAhead Prod.fst r'.timestamp threshold
        (livo.dropWhile fun l => decide (l.1 < r.timestamp - threshold)) =
          lookAhead Prod.fst r'.timestamp threshold livo := by
      intro r' hr'
      refine lookAhead_dropWhile ?_ livo
      rcases List.mem_cons.mp hr' with rfl | hr'
      · exact le_rfl
      · exact hr r' hr'
    have hrun : (rest.filterMap fun r' => (lookAhead Prod.fst r'.timestamp threshold
        (livo.dropWhile fun l => decide (l.1 < r.timestamp - threshold))).map (r', ·)) =
          rest.filterMap fun r' => (lookAhead Prod.fst r'.timestamp threshold livo).map (r', ·) := by
      refine List.filterMap_congr fun r' hr' => ?_
      rw [hsame r' (List.mem_cons_of_mem r hr')]
    rw [associate_cons rest rfl]
    split
    · -- Nothing is left for this sample and the later ones.
      rename_i hnone
      rw [hnone] at hsame
      symm
      refine List.filterMap_eq_nil_iff.mpr fun r' hr' => ?_
      rw [← hsame r' hr']
      rfl
    · rw [ih hrest, hrun]
      cases hfound : lookAhead Prod.fst r.timestamp threshold livo with
      | none => rw [List.filterMap_cons_none (by rw [hfound]; rfl)]; rfl
      | some l => rw [List.filterMap_cons_some (by rw [hfound]; rfl)]; rfl

theorem mem_associate {threshold : Double} {rtk : List (RTK C)} (hrtk : Sorted RTK.timestamp rtk)
    {livo : List (Double × C.V3D)} {r : RTK C} {l : Double × C.V3D} :
    (r, l) ∈ associate threshold rtk livo ↔
      r ∈ rtk ∧ lookAhead Prod.fst r.timestamp threshold livo = some l := by
  rw [associate_eq hrtk, List.mem_filterMap]
  constructor
  · rintro ⟨r', hr', hfound⟩
    obtain ⟨l', hl', heq⟩ := Option.map_eq_some_iff.mp hfound
    obtain ⟨rfl, rfl⟩ := Prod.mk.inj heq
    exact ⟨hr', hl'⟩
  · rintro ⟨hr, hfound⟩
    exact ⟨r, hr, by rw [hfound]; rfl⟩

/-- Every RTK sample is paired exactly when a LIVO sample lies strictly within the threshold, and
then with one closest in time. -/
structure NearestAssociation (threshold : Double) (rtk : List (RTK C))
    (livo : List (Double × C.V3D)) (pairs : List (RTK C × (Double × C.V3D))) : Prop where
  ordered : (pairs.map Prod.fst).Sublist rtk
  paired : ∀ r ∈ rtk, (∃ l, (r, l) ∈ pairs) ↔ ∃ l ∈ livo, |l.1 - r.timestamp| < threshold
  nearest : ∀ r l, (r, l) ∈ pairs →
    l ∈ livo ∧ ∀ m ∈ livo, |l.1 - r.timestamp| ≤ |m.1 - r.timestamp|

theorem associate_ordered {threshold : Double} {rtk : List (RTK C)}
    (hrtk : Sorted RTK.timestamp rtk) (livo : List (Double × C.V3D)) :
    ((associate threshold rtk livo).map Prod.fst).Sublist rtk := by
  rw [associate_eq hrtk, List.map_filterMap]
  induction rtk with
  | nil => exact List.Sublist.slnil
  | cons r rest ih =>
    have hrest := ih (List.pairwise_cons.mp hrtk).2
    cases hfound : lookAhead Prod.fst r.timestamp threshold livo with
    | none =>
      rw [List.filterMap_cons_none (by simp [hfound])]
      exact hrest.cons r
    | some l =>
      rw [List.filterMap_cons_some (b := r) (by simp [hfound])]
      exact hrest.cons_cons r

theorem nearestAssociation_iff {threshold : Double} {rtk : List (RTK C)}
    (hrtk : Sorted RTK.timestamp rtk) (livo : List (Double × C.V3D)) :
    NearestAssociation threshold rtk livo (associate threshold rtk livo) ↔
      ∀ r ∈ rtk, FindsClosest Prod.fst r.timestamp threshold livo
        (lookAhead Prod.fst r.timestamp threshold livo) := by
  have hpaired : ∀ r ∈ rtk, (∃ l, (r, l) ∈ associate threshold rtk livo) ↔
      (lookAhead Prod.fst r.timestamp threshold livo).isSome := by
    intro r hr
    rw [Option.isSome_iff_exists]
    exact exists_congr fun l => (mem_associate hrtk).trans (and_iff_right hr)
  constructor
  · intro h r hr
    refine ⟨(hpaired r hr).symm.trans (h.paired r hr), fun l hl => ?_⟩
    exact h.nearest r l ((mem_associate hrtk).mpr ⟨hr, hl⟩)
  · intro h
    refine ⟨associate_ordered hrtk livo, fun r hr => ?_, fun r l hmem => ?_⟩
    · exact (hpaired r hr).trans (h r hr).isSome_iff
    · obtain ⟨hr, hl⟩ := (mem_associate hrtk).mp hmem
      exact (h r hr).closest l hl

/-- The pairs of sorted buffers are nearest ones exactly where no window hides a third LIVO sample
that comes closer than its second. -/
theorem associate_nearest_iff (threshold : Double) (rtk : List (RTK C))
    (livo : List (Double × C.V3D)) (hrtk : Sorted RTK.timestamp rtk)
    (hlivo : Sorted Prod.fst livo) :
    matchRtk threshold rtk livo = (associate threshold rtk livo).map (fun a => (a.1.p, a.2.2)) ∧
      (NearestAssociation threshold rtk livo (associate threshold rtk livo) ↔
        ∀ r ∈ rtk, SecondClosest Prod.fst r.timestamp threshold livo) := by
  refine ⟨matchRtk_eq threshold rtk livo, (nearestAssociation_iff hrtk livo).trans ?_⟩
  exact forall₂_congr fun r _ => findsClosest_iff hlivo

/-- LIVO samples 40 ms and 20 ms before an RTK sample and one at its time. -/
def denseLivo : List (Double × Carrier.trivial.V3D) :=
  [24 / 25, 49 / 50, 1].map fun t => (t, Carrier.trivial.zero3d)

def loneRtk : List (RTK Carrier.trivial) := [{ timestamp := 1 }]

theorem associate_nearest_iff_dense :
    NearestAssociation (1 / 20) loneRtk denseLivo (associate (1 / 20) loneRtk denseLivo) ↔
      ∀ r ∈ loneRtk, SecondClosest Prod.fst r.timestamp (1 / 20) denseLivo :=
  (associate_nearest_iff (1 / 20) loneRtk denseLivo (List.pairwise_singleton _ _)
    (by simp [Sorted, denseLivo]; norm_num)).2

/-- The sample at the time itself is not the one that is paired. -/
theorem associate_dense_far :
    Sorted RTK.timestamp loneRtk ∧ Sorted Prod.fst denseLivo ∧
      ¬NearestAssociation (1 / 20) loneRtk denseLivo (associate (1 / 20) loneRtk denseLivo) := by
  refine ⟨List.pairwise_singleton _ _, by simp [Sorted, denseLivo]; norm_num, fun h => ?_⟩
  have hfound : lookAhead Prod.fst 1 (1 / 20) denseLivo =
      some (49 / 50, Carrier.trivial.zero3d) := by
    rw [lookAhead_eq_some]
    norm_num [closerOfTwo, denseLivo, abs_of_neg]
  have hpair : ({ timestamp := 1 }, (49 / 50, Carrier.trivial.zero3d)) ∈
      associate (1 / 20) loneRtk denseLivo :=
    (mem_associate (List.pairwise_singleton _ _)).mpr ⟨List.mem_singleton.mpr rfl, hfound⟩
  have hle := (h.nearest _ _ hpair).2 (1, Carrier.trivial.zero3d) (by simp [denseLivo])
  norm_num at hle

end FastLivo
