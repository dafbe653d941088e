import FastLivo.Frontend.ErrorConvention
import FastLivo.Frontend.LinearStep
import FastLivo.Frontend.Photometric

/-!
# Jacobians of the measurements

The rows of the LiDAR and RTK updates and the factors of the photometric rows are derivatives of
what they predict, with respect to the error that the exponential injects, and the steps of the
updates are taken against the residuals.
-/

namespace FastLivo.Frontend

open Lib Esikf Matrix

noncomputable section

variable {C : Carrier}

/-! ## What the measurements predict -/

/-- Signed distance of a point of the LiDAR frame to the plane with normal `n` and offset `d`. -/
def planeDistance (cfg : LioConfig) (n : Vec3) (d : ℝ) (p : Vec3) (s : ExactState C) : ℝ :=
  n ⬝ᵥ (rotOf s *ᵥ (cfg.extR *ᵥ p + cfg.extT) + posOf s) + d

/-- Position of the antenna. -/
def antenna (cfg : LioConfig) (s : ExactState C) : Vec3 := posOf s + rotOf s *ᵥ cfg.rtkLeverArm

/-- `rtk.p`, where the antenna was measured. -/
def measuredAntenna (c : LioCall C) : Vec3 := c.rtk.p

/-- A row of six columns among those of the error. -/
def padRow (h : PoseIndex → ℝ) : StateVector := h ᵥ* (1 : StateMatrix).submatrix poseIndex id

/-- What multiplies `Jimg * Jdpi` in `JdR`. -/
def rotFactor (cfg : VioConfig) (pf : Vec3) : Mat3 := skew pf * cfg.jdphiDR - cfg.jdpDR

/-- What multiplies `Jimg * Jdpi` in `Jdt`. -/
def posFactor (cfg : VioConfig) (s : ExactState C) : Mat3 := -(cfg.rci * (rotOf s)ᵀ)

/-- `Jimg * Jdpi` of a pixel. -/
def pixelGradient (cfg : VioConfig) (ph : Photo) (level : ℕ) (state : ExactState C)
    (pt : TrackedPoint) (x y : ℕ) : Vec3 :=
  let scale : ℤ := 2 ^ (level + pt.searchLevel)
  let invScale : ℝ := 1 / scale
  let pf := pointInCamera cfg state pt.pos
  let s := subpixel scale (ph.cam.world2cam pf)
  let ptr := imgPtr ph.img scale ph.patchSizeHalf s x y
  (invScale • expoOf state • imageGradient ph.img scale s ptr) ᵥ* computeProjectionJacobian ph.cam pf

/-! ## Derivatives -/

section Derivatives

variable (s : ExactState C)

theorem padRow_vecMul {m : Type} [Fintype m] (a : m → ℝ) (A B : Matrix m (Fin 3) ℝ) :
    a ᵥ* padCols poseIndex (fromCols A B) = padRow (Sum.elim (a ᵥ* A) (a ᵥ* B)) := by
  rw [padCols, ← vecMul_vecMul, vecMul_fromCols]
  rfl

theorem padRow_apply (h : PoseIndex → ℝ) (c : PoseIndex) : padRow h (poseIndex c) = h c :=
  padCols_apply poseIndex_injective (of fun (_ : Unit) => h) () c

/-- The row of a plane match. -/
theorem hasRowAt_planeDistance (c : LioCall C) (ptpl : PointToPlane) (d : ℝ) :
    HasRowAt (fun x => planeDistance c.cfg ptpl.normal d ptpl.pointB (retract s x))
      (padRow (lidarRow c s ptpl).h) 0 := by
  have h := (hasJacobianAt_point s (c.cfg.extR *ᵥ ptpl.pointB + c.cfg.extT)).dotProduct ptpl.normal d
  rw [padRow_vecMul, vecMul_neg, ← vecMul_vecMul, ← mulVec_transpose, ← mulVec_transpose,
    skew_transpose, neg_mulVec, neg_neg, vecMul_one] at h
  exact h

theorem padCols_fromCols_row {m : Type*} (A B : Matrix m (Fin 3) ℝ) (i : m) :
    padCols poseIndex (fromCols A B) i = padRow (Sum.elim (A i) (B i)) := rfl

/-- The rows of the antenna position, with their residuals. -/
theorem rtkRows_spec (c : LioCall C) (k : Fin 3) :
    ∃ row, (rtkRows c s)[(k : ℕ)]? = some row ∧
      HasRowAt (fun x => antenna c.cfg (retract s x) k) (padRow row.h) 0 ∧
      row.meas = measuredAntenna c k - antenna c.cfg s k := by
  have hpoint := (hasJacobianAt_point s c.cfg.rtkLeverArm).row k
  simp only [add_comm _ (posOf _)] at hpoint
  rw [padCols_fromCols_row, ← neg_mul] at hpoint
  let positionCov : Mat3 := c.rtk.positionCov
  have hget : (rtkRows c s)[(k : ℕ)]? =
      some ⟨Sum.elim ((-rotOf s * skew c.cfg.rtkLeverArm) k) ((1 : Mat3) k),
        1 / max (positionCov k k) 1e-6, (measuredAntenna c - antenna c.cfg s) k⟩ := by
    unfold rtkRows
    rw [List.getElem?_ofFn, dif_pos k.isLt]
    rfl
  exact ⟨_, hget, hpoint, rfl⟩

theorem posOf_retract_zero : posOf (retract s 0) = posOf s := by
  rw [posOf_retract]
  exact add_zero _

theorem rotOf_retract_zero : rotOf (retract s 0) = rotOf s := by
  have hzero : StateVector.block 0 .rot = 0 := rfl
  rw [rotOf_retract, hzero, expSkew_zero, Rot3.matrix_one, Matrix.mul_one]

theorem pointInCamera_eq (cfg : VioConfig) (p : Vec3) :
    pointInCamera cfg s p = cfg.rci *ᵥ ((rotOf s)ᵀ *ᵥ (p - posOf s)) + cfg.pci := by
  show (cfg.rci * (rotOf s)ᵀ) *ᵥ p + (-(cfg.rci * (rotOf s)ᵀ) *ᵥ posOf s + cfg.pci) = _
  rw [mulVec_mulVec, mulVec_sub, neg_mulVec]
  abel

/-- The constants of `initializeVIO` take the offset of the camera out again. -/
theorem rotFactor_eq {cfg : VioConfig} {Q : Rot3} (hrci : cfg.rci = Q.matrix) (p : Vec3) :
    rotFactor cfg (pointInCamera cfg s p) = cfg.rci * skew ((rotOf s)ᵀ *ᵥ (p - posOf s)) := by
  have hframe (v : Vec3) : skew v * Q.matrix = Q.matrix * skew (Q.matrixᵀ *ᵥ v) := by
    rw [skew_transpose_mulVec, ← Matrix.mul_assoc, ← Matrix.mul_assoc, Q.matrix_mul_transpose,
      Matrix.one_mul]
  have hsum (v w : Vec3) : skew v + skew w = skew (v + w) := (skewLinear.map_add v w).symm
  have hpoint : Q.matrixᵀ *ᵥ pointInCamera cfg s p + cfg.pic = (rotOf s)ᵀ *ᵥ (p - posOf s) := by
    unfold VioConfig.pic
    rw [pointInCamera_eq, hrci, mulVec_add, mulVec_mulVec, Q.transpose_mul_matrix, one_mulVec,
      neg_mulVec, add_neg_cancel_right]
  unfold rotFactor VioConfig.jdphiDR VioConfig.jdpDR
  rw [neg_mul, sub_neg_eq_add, hrci, hframe, ← Matrix.mul_add, hsum, hpoint]

/-- A point in the camera frame. -/
theorem hasJacobianAt_pointInCamera {cfg : VioConfig} {Q : Rot3} (hrci : cfg.rci = Q.matrix)
    (p : Vec3) :
    HasJacobianAt (fun x => pointInCamera cfg (retract s x) p)
      (padCols poseIndex (fromCols (rotFactor cfg (pointInCamera cfg s p)) (posFactor cfg s))) 0 := by
  have hoffset := (hasJacobianAt_posOf s).const_sub p
  have hbody := HasJacobianAt.mulVec_mul (hasJacobianAt_rotOf_transpose s) hoffset
  have h := (hbody.mulVec cfg.rci).add_const cfg.pci
  simp only [← pointInCamera_eq] at h
  rw [posOf_retract_zero, rotOf_retract_zero, Matrix.mul_add, ← Matrix.mul_assoc,
    ← rotFactor_eq s hrci, ← Matrix.mul_assoc, Matrix.mul_neg, ← Matrix.neg_mul] at h
  rw [padCols_fromCols]
  exact h

/-- The factors of a pixel. -/
theorem updateStatePixel_factors (cfg : VioConfig) (ph : Photo) (level : ℕ) (pt : TrackedPoint)
    (x y : ℕ) :
    (updateStatePixel cfg ph level s pt x y).jdR =
        pixelGradient cfg ph level s pt x y ᵥ* rotFactor cfg (pointInCamera cfg s pt.pos) ∧
      (updateStatePixel cfg ph level s pt x y).jdt =
        pixelGradient cfg ph level s pt x y ᵥ* posFactor cfg s := by
  unfold updateStatePixel
  extract_lets rwi invExpoTime jdpDt scale invScale pf pc jdpi pHat sub ptr jimg jdphi jdp value
  have hgradient : pixelGradient cfg ph level s pt x y = jimg ᵥ* jdpi := rfl
  have hphi : jdphi = (jimg ᵥ* jdpi) ᵥ* pHat := rfl
  have hp : jdp = -(jimg ᵥ* jdpi) := neg_vecMul jimg jdpi
  constructor
  · show jdphi ᵥ* cfg.jdphiDR + jdp ᵥ* cfg.jdpDR = _
    rw [hgradient, hphi, hp, rotFactor, vecMul_sub, vecMul_vecMul, neg_vecMul, sub_eq_add_neg]
  · show jdp ᵥ* jdpDt = _
    rw [hgradient, hp, posFactor, neg_vecMul, vecMul_neg]
    rfl

end Derivatives

/-! ## Steps -/

/-- A step for residuals `r` with jacobian `J`, from the distance to the prior: none has smaller
linearised residuals and distance, and at the prior the residuals decrease where they can. -/
structure DecreasesResidual {m : Type} [Fintype m] (P : StateMatrix) (W : Matrix m m ℝ)
    (J : Matrix m StateIndex ℝ) (r : m → ℝ) (step : StateVector → StateVector) : Prop where
  least : ∀ vec x, mapCost P W J (-r) vec (step vec) ≤ mapCost P W J (-r) vec x
  decreases : Jᵀ *ᵥ (W *ᵥ r) ≠ 0 →
    (r + J *ᵥ step 0) ⬝ᵥ (W *ᵥ (r + J *ᵥ step 0)) < r ⬝ᵥ (W *ᵥ r)

theorem mapStep_decreasesResidual {m : Type} [Fintype m] {P : StateMatrix} {W : Matrix m m ℝ}
    (hP : P.PosDef) (hW : W.PosSemidef) (J : Matrix m StateIndex ℝ) (r : m → ℝ) :
    DecreasesResidual P W J r fun vec => mapStep P (Jᵀ * W * J) (Jᵀ *ᵥ (W *ᵥ (-r))) vec := by
  constructor
  · intro vec x
    exact mapCost_mapStep_le J (-r) vec hP hW x
  · intro hgradient
    have hopposite : Jᵀ *ᵥ (W *ᵥ (-r)) ≠ 0 := by
      rw [mulVec_neg, mulVec_neg]
      exact neg_ne_zero.mpr hgradient
    have h := residual_mapStep_lt J (-r) hP hW hopposite
    have hsquare : -r ⬝ᵥ (W *ᵥ -r) = r ⬝ᵥ (W *ᵥ r) := by
      rw [mulVec_neg, neg_dotProduct_neg]
    rwa [sub_neg_eq_add, add_comm _ r, hsquare] at h

/-- Rows of an iteration. -/
def iterationRows (c : LioCall C) (s : ExactState C) (ptplList : List PointToPlane) : List Row :=
  ptplList.map (lidarRow c s) ++ if useRtk c s then rtkRows c s else []

theorem iterationRows_positive (c : LioCall C) (s : ExactState C) (ptplList : List PointToPlane) :
    Positive (iterationRows c s ptplList) := by
  intro r hr
  rcases List.mem_append.mp hr with hr | hr
  · obtain ⟨ptpl, -, rfl⟩ := List.mem_map.mp hr
    exact lidarRow_pos _ _ _
  · split at hr
    · exact rtkRows_pos _ _ r hr
    · cases hr

theorem solution_decreasesResidual {rows : List Row} (hrows : Positive rows) {P : StateMatrix}
    (hP : P.PosDef) :
    DecreasesResidual P (diagonal (rInv rows)) (jacobian rows) (-measVec rows)
      (solution rows P) := by
  have hW : (diagonal (rInv rows)).PosSemidef := PosSemidef.diagonal fun i => (hrows.rInv_pos i).le
  have h := mapStep_decreasesResidual hP hW (jacobian rows) (-measVec rows)
  rw [neg_neg] at h
  simp only [← solution_eq] at h
  exact h

theorem vioSolution_decreasesResidual {ι : Type} [Fintype ι] [DecidableEq ι] {imgPointCov : ℝ}
    (hcov : 0 < imgPointCov) {P : StateMatrix} (hP : P.PosDef) (H : Matrix ι ExpoIndex ℝ)
    (z : ι → ℝ) :
    DecreasesResidual (imgPointCov⁻¹ • P) 1 (padCols expoIndex H) z
      (vioSolution expoIndex imgPointCov P H z) := by
  have hscaled : (imgPointCov⁻¹ • P).PosDef := hP.smul (inv_pos.mpr hcov)
  have h := mapStep_decreasesResidual hscaled PosSemidef.one (padCols expoIndex H) z
  simp only [Matrix.mul_one, one_mulVec, ← vioSolution_eq expoIndex_injective] at h
  exact h

/-! ## All measurements -/

/-- The jacobians and the signs of the updates in a state. -/
structure JacobiansMatch (c : LioCall C) (cfg : VioConfig) (s : ExactState C) : Prop where
  /-- The code injects an error by the exponential, up to its cut-off. -/
  injection : ∀ x : StateVector, x.block .rot = 0 ∨ 0.00001 < norm3 (x.block .rot) →
    boxplus s x = retract s x
  lidar : ∀ ptpl d,
    HasRowAt (fun x => planeDistance c.cfg ptpl.normal d ptpl.pointB (retract s x))
      (padRow (lidarRow c s ptpl).h) 0 ∧ (lidarRow c s ptpl).meas = -ptpl.disToPlane
  rtk : ∀ k : Fin 3, ∃ row, (rtkRows c s)[(k : ℕ)]? = some row ∧
    HasRowAt (fun x => antenna c.cfg (retract s x) k) (padRow row.h) 0 ∧
    row.meas = measuredAntenna c k - antenna c.cfg s k
  camera : ∀ p, HasJacobianAt (fun x => pointInCamera cfg (retract s x) p)
    (padCols poseIndex (fromCols (rotFactor cfg (pointInCamera cfg s p)) (posFactor cfg s))) 0
  pixel : ∀ ph level pt x y,
    (updateStatePixel cfg ph level s pt x y).jdR =
        pixelGradient cfg ph level s pt x y ᵥ* rotFactor cfg (pointInCamera cfg s pt.pos) ∧
      (updateStatePixel cfg ph level s pt x y).jdt =
        pixelGradient cfg ph level s pt x y ᵥ* posFactor cfg s
  lidarStep : ∀ ptplList (P : StateMatrix), P.PosDef →
    DecreasesResidual P (diagonal (rInv (iterationRows c s ptplList)))
      (jacobian (iterationRows c s ptplList)) (-measVec (iterationRows c s ptplList))
      (solution (iterationRows c s ptplList) P)
  vioStep : ∀ (f : VioFrame C) level (P : StateMatrix), P.PosDef → 0 < cfg.imgPointCov →
    DecreasesResidual (cfg.imgPointCov⁻¹ • P) 1 (padCols expoIndex (f.hSub cfg level s))
      (f.z level s) (vioSolution expoIndex cfg.imgPointCov P (f.hSub cfg level s) (f.z level s))

theorem measurement_jacobians (c : LioCall C) {cfg : VioConfig} {Q : Rot3}
    (hrci : cfg.rci = Q.matrix) (s : ExactState C) : JacobiansMatch c cfg s where
  injection _ h := boxplus_eq_retract s h
  lidar ptpl d := ⟨hasRowAt_planeDistance s c ptpl d, rfl⟩
  rtk k := rtkRows_spec s c k
  camera p := hasJacobianAt_pointInCamera s hrci p
  pixel ph level pt x y := updateStatePixel_factors s cfg ph level pt x y
  lidarStep ptplList _ hP := solution_decreasesResidual (iterationRows_positive c s ptplList) hP
  vioStep _ _ _ hP hcov := vioSolution_decreasesResidual hcov hP _ _

/-- A camera that is turned against the IMU. -/
def VioConfig.turned : VioConfig :=
  { VioConfig.sample with rci := (expSkew ![0, 1, 0]).matrix, pci := ![0, 0.1, 0] }

/-- A body that is turned, away from the origin. -/
def StatesGroup.away : ExactState Carrier.trivial :=
  { rotEnd := (expSkew ![1, 0, 0]).matrix, posEnd := (![1, 0, 0] : Vec3) }

/-- The LiDAR, the camera and the body are turned against each other. -/
theorem measurement_jacobians_turned :
    JacobiansMatch LioCall.onePlane VioConfig.turned StatesGroup.away :=
  measurement_jacobians LioCall.onePlane (Q := expSkew ![0, 1, 0]) rfl StatesGroup.away

/-! ## Below the cut-off -/

/-- The error as the code injects it does not turn the attitude near zero. -/
theorem hasRowAt_planeDistance_boxplus (cfg : LioConfig) (n : Vec3) (d : ℝ) (p : Vec3)
    (s : ExactState C) :
    HasRowAt (fun x => planeDistance cfg n d p (boxplus s x)) (padRow (Sum.elim 0 n)) 0 := by
  have hfixed : HasRowAt (fun x =>
      n ⬝ᵥ (posOf (retract s x) + rotOf s *ᵥ (cfg.extR *ᵥ p + cfg.extT)) + d)
      (padRow (Sum.elim 0 n)) 0 := by
    have hpos := (hasJacobianAt_posOf s).add_const (rotOf s *ᵥ (cfg.extR *ᵥ p + cfg.extT))
    have h := hpos.dotProduct n d
    have hcols : padCols poseIndex (fromCols 0 1) = blockCols .pos := by
      rw [padCols_fromCols, Matrix.zero_mul, Matrix.one_mul, zero_add]
    rwa [← hcols, padRow_vecMul, vecMul_zero, vecMul_one] at h
  refine HasFDerivAt.congr_of_eventuallyEq hfixed ?_
  filter_upwards [expVec_eventually_one] with x hx
  have hrot : rotOf (boxplus s x) = rotOf s := by
    show rotOf s * expVec (StateVector.block x .rot) = rotOf s
    rw [hx, Matrix.mul_one]
  unfold planeDistance
  rw [hrot, add_comm (rotOf s *ᵥ _)]
  rfl

theorem lidarRow_not_derivative :
    ¬ HasRowAt (fun x => planeDistance LioCall.noPlanes.cfg PointToPlane.sample.normal 0
        PointToPlane.sample.pointB (boxplus VIOManager.start.state x))
      (padRow (lidarRow LioCall.noPlanes VIOManager.start.state PointToPlane.sample).h) 0 := by
  intro h
  have hrow := h.unique (hasRowAt_planeDistance_boxplus _ _ _ _ _)
  have hentry := congrFun hrow (poseIndex (.inl 2))
  rw [padRow_apply, padRow_apply] at hentry
  have hcross :
      (lidarRow LioCall.noPlanes VIOManager.start.state PointToPlane.sample).h (.inl 2) = 1 := by
    have hpoint : (1 : Mat3) *ᵥ PointToPlane.sample.pointB + 0 = ![1, 0, 0] := by
      rw [one_mulVec, add_zero]
      rfl
    have hnormal : (1 : Mat3)ᵀ *ᵥ PointToPlane.sample.normal = ![0, 1, 0] := by
      rw [transpose_one, one_mulVec]
      rfl
    show (skew ((1 : Mat3) *ᵥ PointToPlane.sample.pointB + 0) *ᵥ
      ((1 : Mat3)ᵀ *ᵥ PointToPlane.sample.normal)) 2 = 1
    rw [hpoint, hnormal]
    simp [skew, mulVec, dotProduct, Fin.sum_univ_three]
  rw [hcross] at hentry
  exact one_ne_zero hentry

end

end FastLivo.Frontend
