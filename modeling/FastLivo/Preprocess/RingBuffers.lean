import FastLivo.Preprocess.FeatureBounds

/-!
# The buffers of the rings

The handlers sort the points into a buffer for each ring, and give every buffer that is long enough
to `give_feature`, with the types they fill for it.
-/

set_option linter.unusedSectionVars false

namespace FastLivo.Preprocess

open Lib

variable {K : Type} [Zero K] [Add K] [Sub K] [Mul K] [Div K] [Neg K] [LT K] [LE K] [DecidableLT K]
  [DecidableLE K] [OfScientific K] {ops : FloatOps K} {cfg : Config K}

/-! ## The types of a ring -/

/-- The range of coordinates in `avia_handler`. -/
def vecSquare (v : Vec3 K) : K := v.x * v.x + v.y * v.y

/-- The range of coordinates in the other handlers. -/
def vecRange (ops : FloatOps K) (v : Vec3 K) : K := ops.sqrt (v.x * v.x + v.y * v.y)

theorem planarSquare_eq (p : PointType K) : planarSquare p = vecSquare p.vec := rfl

theorem planarRange_eq (p : PointType K) : planarRange ops p = vecRange ops p.vec := rfl

theorem map_dista_orgTypes (rangeOf : PointType K → K) (pl : List (PointType K)) :
    (orgTypes ops rangeOf pl).map OrgType.dista =
      ScanRing.distas ops (pl.map PointType.vec) := by
  induction pl with
  | nil => rfl
  | cons p pl ih =>
    cases pl with
    | nil => rfl
    | cons q rest => exact congrArg (_ :: ·) ih

theorem map_range_orgTypes (rangeOf : PointType K → K) (pl : List (PointType K)) :
    (orgTypes ops rangeOf pl).map OrgType.range = pl.map rangeOf := by
  induction pl with
  | nil => rfl
  | cons p pl ih =>
    cases pl with
    | nil => rfl
    | cons q rest => exact congrArg (_ :: ·) ih

/-- The types that a handler fills have the shape of the ring. -/
theorem shapeOf_orgTypes {rangeOf : PointType K → K} {vecRangeOf : Vec3 K → K}
    (hrange : ∀ p, rangeOf p = vecRangeOf p.vec) (pl : List (PointType K)) :
    ShapeOf ops ⟨pl.map PointType.vec, vecRangeOf⟩ pl (orgTypes ops rangeOf pl) where
  points := rfl
  ranges := by
    rw [map_range_orgTypes, List.map_map]
    exact List.map_congr_left fun p _ => hrange p
  distas := map_dista_orgTypes rangeOf pl

/-! ## The loop over the rings -/

/-- The first buffers hold the points of these coordinates. -/
structure BuffersOf (n : ℕ) (content : ℕ → List (Vec3 K)) (buffers : List (List (PointType K))) :
    Prop where
  length : buffers.length = maxBuffers
  ring : ∀ j < n, ∀ pl, buffers[j]? = some pl → pl.map PointType.vec = content j

theorem isSome_clearBuffers_iff :
    (clearBuffers cfg : Option (List (List (PointType K)))).isSome ↔ cfg.nScans ≤ maxBuffers := by
  rw [clearBuffers, Option.isSome_ite]

theorem buffersOf_clear {buffers : List (List (PointType K))}
    (h : clearBuffers cfg = some buffers) (n : ℕ) : BuffersOf n (fun _ => []) buffers := by
  have hscans : cfg.nScans ≤ maxBuffers := isSome_clearBuffers_iff.mp (Option.isSome_of_eq_some h)
  rw [clearBuffers, if_pos hscans] at h
  obtain rfl := Option.some.inj h
  refine ⟨List.length_replicate, fun j _ pl hpl => ?_⟩
  rw [List.eq_of_mem_replicate (List.mem_of_getElem? hpl)]
  rfl

/-- A point goes to the end of its ring, and changes no other one. -/
theorem BuffersOf.push {n : ℕ} {content : ℕ → List (Vec3 K)}
    {buffers : List (List (PointType K))} (h : BuffersOf n content buffers) {ring : ℕ} (hring : ring < maxBuffers) (p : PointType K) :
    ∃ buffers', pushBuffer buffers ring p = some buffers' ∧
      BuffersOf n (fun j => if j = ring then content j ++ [p.vec] else content j) buffers' := by
  have hlt : ring < buffers.length := h.length ▸ hring
  have hget : buffers[ring]? = some buffers[ring] := List.getElem?_eq_getElem hlt
  refine ⟨buffers.set ring (buffers[ring] ++ [p]), ?_, ?_, ?_⟩
  · rw [pushBuffer, hget]
    rfl
  · rw [List.length_set, h.length]
  · intro j hn pl hpl
    by_cases hj : j = ring
    · subst hj
      rw [List.getElem?_set_self hlt] at hpl
      obtain rfl := Option.some.inj hpl
      rw [if_pos rfl, List.map_append, h.ring j hn _ hget]
      rfl
    · rw [List.getElem?_set_ne (Ne.symm hj)] at hpl
      rw [if_neg hj, h.ring j hn pl hpl]

variable [NatCast K]

/-- The loop over the rings stays inside when each ring that is long enough has a point and fits. -/
theorem isSome_ringFeatures_iff {content : ℕ → List (Vec3 K)} {buffers : List (List (PointType K))}
    (h : BuffersOf cfg.nScans content buffers) (hscans : cfg.nScans ≤ maxBuffers) {rangeOf : PointType K → K}
    {vecRangeOf : Vec3 K → K} (hrange : ∀ p, rangeOf p = vecRangeOf p.vec) (minSize : ℕ) :
    (ringFeatures ops cfg rangeOf minSize buffers).isSome ↔
      ∀ j < cfg.nScans, minSize ≤ (content j).length →
        content j ≠ [] ∧ (ScanRing.mk (content j) vecRangeOf).Fits ops cfg := by
  rw [ringFeatures, isSome_foldlM_iff (fun _ => True) (fun j => minSize ≤ (content j).length →
    content j ≠ [] ∧ (ScanRing.mk (content j) vecRangeOf).Fits ops cfg) ?_
    (fun _ _ _ _ _ _ => trivial) trivial]
  · exact ⟨fun hall j hj => hall j (List.mem_range.mpr hj),
      fun hall j hj => hall j (List.mem_range.mp hj)⟩
  · intro j hj clouds _
    have hn := List.mem_range.mp hj
    have hlt : j < buffers.length := by
      have := h.length
      omega
    have hget : buffers[j]? = some buffers[j] := List.getElem?_eq_getElem hlt
    have hcontent := h.ring j hn _ hget
    rw [hget, Option.bind_eq_bind, Option.bind_some, ← hcontent, List.length_map]
    by_cases hshort : buffers[j].length < minSize
    · rw [if_pos hshort]
      exact ⟨fun _ hlong => absurd hlong (by omega), fun _ => rfl⟩
    · rw [if_neg hshort, ringTypes]
      by_cases hempty : buffers[j] = []
      · rw [hempty, if_pos List.isEmpty_nil]
        refine ⟨fun hnone => absurd hnone Bool.false_ne_true, fun hall => ?_⟩
        rw [hempty] at hshort
        exact absurd rfl (hall (by omega)).1
      · rw [if_neg (by simpa using hempty), Option.bind_eq_bind, Option.bind_some,
          isSome_giveFeature_iff (shapeOf_orgTypes hrange buffers[j])]
        constructor
        · intro hfits _
          exact ⟨by simpa using hempty, hfits⟩
        · intro hall
          exact (hall (by omega)).2

end FastLivo.Preprocess
