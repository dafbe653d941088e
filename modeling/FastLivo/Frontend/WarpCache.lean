import FastLivo.Frontend.VioRollback
import FastLivo.Lib.Memo
import FastLivo.Lib.Selection
import FastLivo.VisualMap.Grid

/-!
# The warps of a frame

Without normals `retrieveFromVisualSparseMap` takes the warp of a point from its reference feature
and keeps it in `warp_map`, under the id of the feature. That id is the one of the frame which the
feature was created in, so all the features of a frame share it.
-/

namespace FastLivo.Frontend

open Lib Esikf Matrix

noncomputable section

/-! ## Points and their features -/

/-- `Feature`: `id` is the id of the frame it was created in. -/
structure WarpFeature where
  id : ℤ
  px : ℝ × ℝ
  f : Vec3
  tFW : Pose3
  level : ℕ

/-- `VisualPoint`. -/
structure MapPoint where
  pos : Vec3
  obs : List WarpFeature
  isNormalInitialized : Bool

/-- `Warp`. -/
structure Warp where
  searchLevel : ℕ
  aCurRef : Matrix (Fin 2) (Fin 2) ℝ

/-- The frame that points are retrieved for, with `depth_img` by place. -/
structure WarpFrame where
  cam : Camera
  width : ℤ
  patchSizeHalf : ℕ
  tFW : Pose3
  depthImg : ℤ → ℝ

/-- `SE3::operator*` of a point. -/
def transformPoint (t : Pose3) (p : Vec3) : Vec3 := t.rotation.matrix *ᵥ p + t.translation

/-- `pos()` of a frame and of a feature. -/
def framePos (t : Pose3) : Vec3 := t⁻¹.translation

/-- `cos_angle` of an observation. -/
def cosAngle (framepos pos : Vec3) (o : WarpFeature) : ℝ :=
  normalized (framepos - pos) ⬝ᵥ normalized (framePos o.tFW - pos)

/-- `getCloseViewObs`. -/
def getCloseViewObs (framepos : Vec3) (pt : MapPoint) : Option WarpFeature :=
  match pt.obs with
  | [] => none
  | first :: _ =>
    let best := bestOf (fun o => some (cosAngle framepos pt.pos o)) 0 pt.obs
    if best.score < 0.5 then none else some (best.pick.getD first)

/-- `getWarpMatrixAffine`. -/
def getWarpMatrixAffine (cam : Camera) (pxRef : ℝ × ℝ) (fRef : Vec3) (depthRef : ℝ)
    (tCurRef : Pose3) (levelRef pyramidLevel halfpatchSize : ℕ) : Matrix (Fin 2) (Fin 2) ℝ :=
  let step : ℝ := halfpatchSize * (2 ^ levelRef : ℕ) * (2 ^ pyramidLevel : ℕ)
  let xyzRef := depthRef • fRef
  let xyzDuRef := cam.cam2world (pxRef.1 + step, pxRef.2)
  let xyzDvRef := cam.cam2world (pxRef.1, pxRef.2 + step)
  let xyzDuRef := (zCoord xyzRef / zCoord xyzDuRef) • xyzDuRef
  let xyzDvRef := (zCoord xyzRef / zCoord xyzDvRef) • xyzDvRef
  let pxCur := cam.world2cam (transformPoint tCurRef xyzRef)
  let pxDu := cam.world2cam (transformPoint tCurRef xyzDuRef)
  let pxDv := cam.world2cam (transformPoint tCurRef xyzDvRef)
  !![(pxDu.1 - pxCur.1) / halfpatchSize, (pxDv.1 - pxCur.1) / halfpatchSize;
     (pxDu.2 - pxCur.2) / halfpatchSize, (pxDv.2 - pxCur.2) / halfpatchSize]

/-- The loop of `getBestSearchLevel`, with the levels it has left. -/
def searchLevelFrom : ℕ → ℕ → ℝ → ℕ
  | 0, searchLevel, _ => searchLevel
  | left + 1, searchLevel, d =>
    if 3.0 < d then searchLevelFrom left (searchLevel + 1) (d * 0.25) else searchLevel

/-- `getBestSearchLevel`. -/
def getBestSearchLevel (aCurRef : Matrix (Fin 2) (Fin 2) ℝ) (maxLevel : ℕ) : ℕ :=
  searchLevelFrom maxLevel 0 aCurRef.det

theorem searchLevelFrom_le (left searchLevel : ℕ) (d : ℝ) :
    searchLevelFrom left searchLevel d ≤ searchLevel + left := by
  induction left generalizing searchLevel d with
  | zero => exact le_rfl
  | succ left ih =>
    unfold searchLevelFrom
    split
    · have hnext := ih (searchLevel + 1) (d * 0.25)
      omega
    · omega

/-- A search level is one of the levels asked for. -/
theorem getBestSearchLevel_le (aCurRef : Matrix (Fin 2) (Fin 2) ℝ) (maxLevel : ℕ) :
    getBestSearchLevel aCurRef maxLevel ≤ maxLevel :=
  (searchLevelFrom_le maxLevel 0 _).trans (Nat.zero_add maxLevel).le

/-! ## The loop over the cells -/

namespace WarpFrame

/-- `depth_continous`: a depth beside the point is far from that of the point. -/
def DepthContinous (fr : WarpFrame) (pt : MapPoint) : Prop :=
  let ptCam := transformPoint fr.tFW pt.pos
  let pc := fr.cam.world2cam ptCam
  ∃ u v : ℤ, (-fr.patchSizeHalf ≤ u ∧ u ≤ fr.patchSizeHalf) ∧
    (-fr.patchSizeHalf ≤ v ∧ v ≤ fr.patchSizeHalf) ∧ ¬(u = 0 ∧ v = 0) ∧
    let depth :=
      fr.depthImg (fr.width * (v + VisualMap.truncate pc.2) + u + VisualMap.truncate pc.1)
    depth ≠ 0 ∧ 0.5 < |zCoord ptCam - depth|

open Classical in
/-- The reference feature of a point, unless the point is passed over. -/
def reference (fr : WarpFrame) (pt : MapPoint) : Option WarpFeature :=
  if fr.DepthContinous pt then none
  else if pt.isNormalInitialized = false then none
  else getCloseViewObs (framePos fr.tFW) pt

/-- The warp of a point from a feature. -/
def ownWarp (fr : WarpFrame) (p : MapPoint × WarpFeature) : Warp :=
  let ref := p.2
  let aCurRefZero := getWarpMatrixAffine fr.cam ref.px ref.f (norm3 (framePos ref.tFW - p.1.pos))
    (fr.tFW * ref.tFW⁻¹) ref.level 0 fr.patchSizeHalf
  { searchLevel := getBestSearchLevel aCurRefZero 2
    aCurRef := aCurRefZero }

/-- The loop over the points of the cells: each point that is not passed over, with its reference
feature and the warp that is used. -/
def warpLoop (fr : WarpFrame) : (ℤ → Option Warp) → List MapPoint →
    List ((MapPoint × WarpFeature) × Warp)
  | _, [] => []
  | warpMap, pt :: pts =>
    match fr.reference pt with
    | none => fr.warpLoop warpMap pts
    | some ref =>
      match warpMap ref.id with
      | some ot => ((pt, ref), ot) :: fr.warpLoop warpMap pts
      | none =>
        let ot := fr.ownWarp (pt, ref)
        ((pt, ref), ot) :: fr.warpLoop (assign warpMap ref.id (some ot)) pts

/-- The warps of a frame: `warp_map` has been cleared. -/
def retrieveWarps (fr : WarpFrame) (pts : List MapPoint) : List ((MapPoint × WarpFeature) × Warp) :=
  fr.warpLoop (fun _ => none) pts

/-- The points that are not passed over, with their reference features. -/
def processed (fr : WarpFrame) (pts : List MapPoint) : List (MapPoint × WarpFeature) :=
  pts.filterMap fun pt => (fr.reference pt).map (pt, ·)

/-! ## The cache -/

variable {fr : WarpFrame} {pt : MapPoint} {pts : List MapPoint} {ref : WarpFeature}

theorem processed_cons_of_none (h : fr.reference pt = none) :
    fr.processed (pt :: pts) = fr.processed pts := by
  unfold processed
  rw [List.filterMap_cons_none]
  rw [h]
  rfl

theorem processed_cons_of_some (h : fr.reference pt = some ref) :
    fr.processed (pt :: pts) = (pt, ref) :: fr.processed pts := by
  unfold processed
  rw [List.filterMap_cons_some]
  rw [h]
  rfl

/-- The loop asks `warp_map` for the points in turn. -/
theorem warpLoop_eq (fr : WarpFrame) (pts : List MapPoint) (warpMap : ℤ → Option Warp) :
    (fr.warpLoop warpMap pts).map Prod.fst = fr.processed pts ∧
      (fr.warpLoop warpMap pts).map Prod.snd =
        fetchAll (fun p => p.2.id) fr.ownWarp warpMap (fr.processed pts) := by
  induction pts generalizing warpMap with
  | nil => exact ⟨rfl, rfl⟩
  | cons pt pts ih =>
    unfold warpLoop
    cases href : fr.reference pt with
    | none =>
      rw [processed_cons_of_none href]
      exact ih warpMap
    | some ref =>
      rw [processed_cons_of_some href]
      unfold fetchAll
      cases hmap : warpMap ref.id with
      | some ot =>
        have hfetch : fetch (fun p : MapPoint × WarpFeature => p.2.id) fr.ownWarp warpMap
            (pt, ref) = (ot, warpMap) := fetch_of_some hmap
        rw [hfetch]
        dsimp only
        rw [hmap]
        exact ⟨congrArg ((pt, ref) :: ·) (ih warpMap).1, congrArg (ot :: ·) (ih warpMap).2⟩
      | none =>
        have hfetch : fetch (fun p : MapPoint × WarpFeature => p.2.id) fr.ownWarp warpMap
            (pt, ref) = (fr.ownWarp (pt, ref), assign warpMap ref.id (some (fr.ownWarp (pt, ref)))) :=
          fetch_of_none hmap
        rw [hfetch]
        dsimp only
        rw [hmap]
        have hnext := ih (assign warpMap ref.id (some (fr.ownWarp (pt, ref))))
        exact ⟨congrArg ((pt, ref) :: ·) hnext.1, congrArg (fr.ownWarp (pt, ref) :: ·) hnext.2⟩

/-- The warps are those of the points' own features if features with one id have one warp. -/
theorem own_iff_shared :
    (∀ u ∈ fr.retrieveWarps pts, u.2 = fr.ownWarp u.1) ↔
      ∀ p ∈ fr.processed pts, ∀ q ∈ fr.processed pts, p.2.id = q.2.id →
        fr.ownWarp p = fr.ownWarp q := by
  obtain ⟨hfst, hsnd⟩ := warpLoop_eq fr pts fun _ => none
  rw [← fetchAll_empty_eq_map_iff, ← hsnd, ← hfst, List.map_map, List.map_inj_left]
  rfl

end WarpFrame

/-- Every point of a frame gets the warp of its own reference feature if and only if those of the
reference features that were created in one frame give one warp. -/
theorem warps_own_iff (fr : WarpFrame) (pts : List MapPoint) :
    (fr.retrieveWarps pts).map Prod.fst = fr.processed pts ∧
      ((∀ u ∈ fr.retrieveWarps pts, u.2 = fr.ownWarp u.1) ↔
        ∀ p ∈ fr.processed pts, ∀ q ∈ fr.processed pts, p.2.id = q.2.id →
          fr.ownWarp p = fr.ownWarp q) :=
  ⟨(WarpFrame.warpLoop_eq fr pts _).1, WarpFrame.own_iff_shared⟩

/-! ## Two points that were created in one frame -/

theorem half_le_cos {a b : Vec3} (ha : 0 < a ⬝ᵥ a) (hb : 0 < b ⬝ᵥ b) (hd : 0 ≤ a ⬝ᵥ b)
    (h : (a ⬝ᵥ a) * (b ⬝ᵥ b) ≤ (a ⬝ᵥ b + a ⬝ᵥ b) * (a ⬝ᵥ b + a ⬝ᵥ b)) :
    0.5 ≤ normalized a ⬝ᵥ normalized b := by
  have hroot : norm3 a * norm3 b ≤ a ⬝ᵥ b + a ⬝ᵥ b := by
    unfold norm3
    rw [← Real.sqrt_mul ha.le]
    exact Real.sqrt_le_iff.mpr ⟨add_nonneg hd hd, h.trans_eq (sq _).symm⟩
  have hpos : 0 < norm3 a * norm3 b := mul_pos (Real.sqrt_pos.mpr ha) (Real.sqrt_pos.mpr hb)
  have hcos : normalized a ⬝ᵥ normalized b = (a ⬝ᵥ b) / (norm3 a * norm3 b) := by
    unfold normalized
    rw [smul_dotProduct, dotProduct_smul, smul_eq_mul, smul_eq_mul, div_eq_mul_inv, mul_inv]
    ring
  rw [hcos, le_div_iff₀ hpos]
  linarith

theorem norm3_neg (v : Vec3) : norm3 (-v) = norm3 v := by
  unfold norm3
  rw [neg_dotProduct_neg]

/-- A bearing with `z = 1` before it was normalized, moved to a depth. -/
theorem rescale_normalized {v : Vec3} (hv : zCoord v = 1) (z : ℝ) :
    (z / zCoord (normalized v)) • normalized v = z • v := by
  have hne : norm3 v ≠ 0 := (norm3_pos_of_zCoord (hv ▸ one_pos)).ne'
  have hz : zCoord (normalized v) = (norm3 v)⁻¹ * zCoord v := rfl
  rw [hz, hv, mul_one, div_inv_eq_mul]
  unfold normalized
  rw [smul_smul, mul_assoc, mul_inv_cancel₀ hne, mul_one]

/-- A point that was created in the first frame, in front of the camera. -/
def MapPoint.created (p : Vec3) : MapPoint where
  pos := p
  obs := [⟨0, Camera.pinhole.world2cam p, normalized p, 1, 0⟩]
  isNormalInitialized := true

/-- A later frame, one unit behind it, with no depth known. -/
def WarpFrame.behind : WarpFrame where
  cam := Camera.pinhole
  width := 640
  patchSizeHalf := 4
  tFW := ⟨1, ![0, 0, 1]⟩
  depthImg _ := 0

theorem framePos_behind : framePos WarpFrame.behind.tFW = ![0, 0, -1] := by
  unfold framePos WarpFrame.behind
  rw [Pose3.inv_translation, inv_one, Rot3.matrix_one, one_mulVec]
  ext i
  fin_cases i
  · exact neg_zero
  · exact neg_zero
  · rfl

theorem framePos_one : framePos 1 = 0 := by
  unfold framePos
  rw [inv_one, Pose3.one_translation]

/-- The angle between the two views of a point is small enough. -/
theorem half_le_cosAngle {x z : ℝ} (hz : 1 ≤ z) :
    0.5 ≤ cosAngle (framePos WarpFrame.behind.tFW) ![x, 0, z]
      ⟨0, Camera.pinhole.world2cam ![x, 0, z], normalized ![x, 0, z], 1, 0⟩ := by
  have ha : (![0, 0, -1] - ![x, 0, z] : Vec3) = ![-x, 0, -1 - z] := by
    ext i
    fin_cases i
    · exact zero_sub x
    · exact sub_zero 0
    · rfl
  have hb : (0 - ![x, 0, z] : Vec3) = ![-x, 0, -z] := by
    ext i
    fin_cases i
    · exact zero_sub x
    · exact sub_zero 0
    · exact zero_sub z
  -- the squared lengths and the product, by the squared length `n` of the shorter view
  obtain ⟨n, hn⟩ : ∃ n, n = x * x + z * z := ⟨_, rfl⟩
  have hn1 : z ≤ n := by
    rw [hn]
    nlinarith [mul_self_nonneg x]
  have haa : (![-x, 0, -1 - z] : Vec3) ⬝ᵥ ![-x, 0, -1 - z] = n + z + z + 1 := by
    simp only [cons_dotProduct_cons, dotProduct_of_isEmpty]
    rw [hn]
    ring
  have hbb : (![-x, 0, -z] : Vec3) ⬝ᵥ ![-x, 0, -z] = n := by
    simp only [cons_dotProduct_cons, dotProduct_of_isEmpty]
    rw [hn]
    ring
  have hab : (![-x, 0, -1 - z] : Vec3) ⬝ᵥ ![-x, 0, -z] = n + z := by
    simp only [cons_dotProduct_cons, dotProduct_of_isEmpty]
    rw [hn]
    ring
  unfold cosAngle
  rw [framePos_behind, framePos_one, ha, hb]
  apply half_le_cos
  · rw [haa]
    linarith
  · rw [hbb]
    linarith
  · rw [hab]
    linarith
  · rw [haa, hbb, hab]
    nlinarith

theorem getCloseViewObs_singleton {framepos p : Vec3} {o : WarpFeature} {init : Bool}
    (h : 0.5 ≤ cosAngle framepos p o) : getCloseViewObs framepos ⟨p, [o], init⟩ = some o := by
  have hpos := lt_of_lt_of_le (by norm_num : (0 : ℝ) < 0.5) h
  have hbest : bestOf (fun o => some (cosAngle framepos p o)) 0 [o] =
      ⟨true, cosAngle framepos p o, some o⟩ := bestOf_singleton rfl hpos
  unfold getCloseViewObs
  dsimp only
  simp only [hbest]
  exact if_neg (not_lt.mpr h)

theorem reference_created {x z : ℝ} (hz : 1 ≤ z) :
    WarpFrame.behind.reference (MapPoint.created ![x, 0, z]) =
      some ⟨0, Camera.pinhole.world2cam ![x, 0, z], normalized ![x, 0, z], 1, 0⟩ := by
  have hdepth : ¬WarpFrame.behind.DepthContinous (MapPoint.created ![x, 0, z]) := by
    intro ⟨u, v, _, _, _, hne, _⟩
    exact hne rfl
  have hinit : ¬(MapPoint.created ![x, 0, z]).isNormalInitialized = false := by
    intro h
    cases h
  have hcos := half_le_cosAngle (x := x) hz
  unfold WarpFrame.reference
  rw [if_neg hdepth, if_neg hinit]
  exact getCloseViewObs_singleton hcos

/-- A step to the right in the first image is `z / (z + 1)` of a step in the later one. -/
theorem ownWarp_created {x z : ℝ} (hz : 1 ≤ z) :
    (WarpFrame.behind.ownWarp (MapPoint.created ![x, 0, z],
      ⟨0, Camera.pinhole.world2cam ![x, 0, z], normalized ![x, 0, z], 1, 0⟩)).aCurRef 0 0 =
      z / (z + 1) := by
  have hne : z ≠ 0 := by linarith
  have hne1 : z + 1 ≠ 0 := by linarith
  have hz0 : 0 < zCoord ![x, 0, z] := lt_of_lt_of_le one_pos hz
  have hxyz : norm3 (framePos 1 - ![x, 0, z]) • normalized ![x, 0, z] = ![x, 0, z] := by
    rw [framePos_one, zero_sub, norm3_neg, norm3_smul_normalized (norm3_pos_of_zCoord hz0)]
  have hstep : ((4 : ℕ) : ℝ) * ((2 ^ 0 : ℕ) : ℝ) * ((2 ^ 0 : ℕ) : ℝ) = 4 := by norm_num
  have hbearing : Camera.pinhole.cam2world (x / z + 320.0 + 4, 0 / z + 240.0) =
      normalized ![x / z + 4, 0, 1] := by
    apply congrArg normalized
    ext i
    fin_cases i
    · show x / z + 320.0 + 4 - 320.0 = x / z + 4
      rw [add_right_comm, add_sub_cancel_right]
    · show 0 / z + 240.0 - 240.0 = 0
      rw [zero_div, zero_add, sub_self]
    · rfl
  have hmove : ∀ v : Vec3, (Camera.pinhole.world2cam
      (transformPoint (WarpFrame.behind.tFW * 1⁻¹) v)).1 = v 0 / (v 2 + 1) + 320.0 := by
    intro v
    unfold transformPoint WarpFrame.behind
    rw [inv_one, mul_one, Rot3.matrix_one, one_mulVec]
    show (v 0 + 0) / (v 2 + 1) + 320.0 = _
    rw [add_zero]
  have hscaled := rescale_normalized (rfl : zCoord ![x / z + 4, 0, 1] = 1) z
  unfold WarpFrame.ownWarp getWarpMatrixAffine MapPoint.created
  dsimp only
  rw [hxyz]
  show ((Camera.pinhole.world2cam (transformPoint (WarpFrame.behind.tFW * 1⁻¹)
    ((z / zCoord (Camera.pinhole.cam2world
        (x / z + 320.0 + ((4 : ℕ) : ℝ) * ((2 ^ 0 : ℕ) : ℝ) * ((2 ^ 0 : ℕ) : ℝ), 0 / z + 240.0))) •
      Camera.pinhole.cam2world
        (x / z + 320.0 + ((4 : ℕ) : ℝ) * ((2 ^ 0 : ℕ) : ℝ) * ((2 ^ 0 : ℕ) : ℝ), 0 / z + 240.0)))).1 -
    (Camera.pinhole.world2cam (transformPoint (WarpFrame.behind.tFW * 1⁻¹) ![x, 0, z])).1) /
      ((4 : ℕ) : ℝ) = z / (z + 1)
  rw [hstep, hbearing, hscaled, hmove, hmove]
  show (z * (x / z + 4) / (z * 1 + 1) + 320.0 - (x / (z + 1) + 320.0)) / ((4 : ℕ) : ℝ) = z / (z + 1)
  rw [Nat.cast_ofNat, mul_one, add_sub_add_right_eq_sub]
  field_simp
  ring

/-- The features of both points were created in frame 0; the second point gets the warp of the
first, which is not its own. -/
theorem shared_warp :
    ∃ fr pts, ¬∀ u ∈ WarpFrame.retrieveWarps fr pts, u.2 = fr.ownWarp u.1 := by
  refine ⟨WarpFrame.behind, [MapPoint.created ![0, 0, 1], MapPoint.created ![100, 0, 2]], ?_⟩
  rw [WarpFrame.own_iff_shared]
  rw [WarpFrame.processed_cons_of_some (reference_created le_rfl),
    WarpFrame.processed_cons_of_some (reference_created one_le_two)]
  intro h
  have hwarp := h _ List.mem_cons_self _ (List.mem_cons_of_mem _ List.mem_cons_self) rfl
  have hentry := congrArg (fun w => w.aCurRef 0 0) hwarp
  rw [ownWarp_created le_rfl, ownWarp_created one_le_two] at hentry
  norm_num at hentry

end

end FastLivo.Frontend
