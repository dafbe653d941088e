import FastLivo.Frontend.BodyCovariance
import FastLivo.Frontend.ErrorConvention

/-!
# The covariance of a point

It is computed three times: for the first map, in each iteration of the LiDAR update, and for
the points that the map is updated with.
-/

namespace FastLivo.Frontend

open Lib Esikf Matrix

noncomputable section

variable {C : Carrier}

/-! ## The three formulas -/

/-- `var` in `BuildVoxelMap`. -/
def buildVar (cfg : LioConfig) (state : ExactState C) (q : PointType) : Mat3 :=
  let (pointThis, var) := calcBodyCov (pointB q) cfg.deptErr cfg.beamErr
  let pointCrossmat := skew pointThis
  (rotOf state * cfg.extR) * var * (rotOf state * cfg.extR)ᵀ +
    -pointCrossmat * diagBlock (covOf state) .rot * (-pointCrossmat)ᵀ + diagBlock (covOf state) .pos

/-- `pv.var` in an iteration of `StateEstimation`. -/
def estimationVar (cfg : LioConfig) (state : ExactState C) (q : PointType) : Mat3 :=
  (PointWithVar.update cfg state q {} (prepared cfg q).1 (prepared cfg q).2).var

/-- `var` in `handleLIO`, from the lists that `StateEstimation` left. -/
def updateVar (cfg : LioConfig) (state : ExactState C) (q : PointType) : Mat3 :=
  let pointCrossmat := (prepared cfg q).1
  let var := (prepared cfg q).2
  (rotOf state * cfg.extR) * var * (rotOf state * cfg.extR)ᵀ +
    -pointCrossmat * diagBlock (covOf state) .rot * (-pointCrossmat)ᵀ + diagBlock (covOf state) .pos

/-! ## First-order propagation -/

/-- A point of the LiDAR frame in the IMU frame. -/
def imuPoint (cfg : LioConfig) (p : Vec3) : Vec3 := cfg.extR *ᵥ p + cfg.extT

/-- A point of the LiDAR frame in the world. -/
def worldPoint (cfg : LioConfig) (s : ExactState C) (p : Vec3) : Vec3 :=
  rotOf s *ᵥ imuPoint cfg p + posOf s

/-- What the sensor is taken to measure a point with. -/
def sensorCov (cfg : LioConfig) (p : Vec3) : Mat3 := (calcBodyCov p cfg.deptErr cfg.beamErr).2

/-- A matrix is the covariance of the sensor and that of the state, each carried over by the
derivative of the point in the world. -/
def Propagated (cfg : LioConfig) (s : ExactState C) (p : Vec3) (V : Mat3) : Prop :=
  ∃ (Jp : Mat3) (Jx : Matrix (Fin 3) StateIndex ℝ),
    HasJacobianAt (fun p => worldPoint cfg s p) Jp p ∧
    HasJacobianAt (fun x => worldPoint cfg (retract s x) p) Jx 0 ∧
    V = Jp * sensorCov cfg p * Jpᵀ + Jx * covOf s * Jxᵀ

/-- A block of a covariance. -/
def covBlock (cov : StateMatrix) (b c : StateBlock) : Mat3 :=
  of fun i j => cov (some (b, i)) (some (c, j))

section Terms

variable (cfg : LioConfig) (s : ExactState C)

/-- What the attitude adds to the covariance of a point, as the code has it. -/
def attitudeTerm (v : Vec3) : Mat3 := skew v * diagBlock (covOf s) .rot * (skew v)ᵀ

/-- What the sensor adds. -/
def sensorTerm (D : Mat3) : Mat3 := (rotOf s * cfg.extR) * D * (rotOf s * cfg.extR)ᵀ

/-- What position and attitude have in common. -/
def crossTerm (v : Vec3) : Mat3 :=
  rotOf s * skew v * covBlock (covOf s) .rot .pos +
    covBlock (covOf s) .pos .rot * (rotOf s * skew v)ᵀ

end Terms

variable {cfg : LioConfig} {s : ExactState C} {q : PointType} {p : Vec3} {V : Mat3}

theorem blockCols_mul_mul (P : StateMatrix) (b c : StateBlock) :
    blockCols b * P * (blockCols c)ᵀ = covBlock P b c := by
  ext i j
  simp [blockCols, covBlock, mul_apply, one_apply]

theorem hasJacobianAt_worldPoint (cfg : LioConfig) (s : ExactState C) (p : Vec3) :
    HasJacobianAt (fun p => worldPoint cfg s p) (rotOf s * cfg.extR) p := by
  have h := (((HasJacobianAt.mulVec_id cfg.extR p).add_const cfg.extT).mulVec (rotOf s)).add_const
    (posOf s)
  exact h

/-- The derivatives are the product of the rotations, and the turned lever arm. -/
theorem propagated_iff :
    Propagated cfg s p V ↔
      V = sensorTerm cfg s (sensorCov cfg p) +
        rotOf s * attitudeTerm s (imuPoint cfg p) * (rotOf s)ᵀ - crossTerm s (imuPoint cfg p) +
        diagBlock (covOf s) .pos := by
  have hpoint := hasJacobianAt_worldPoint cfg s p
  have hstate : HasJacobianAt (fun x => worldPoint cfg (retract s x) p)
      (padCols poseIndex (fromCols (-(rotOf s * skew (imuPoint cfg p))) 1)) 0 :=
    hasJacobianAt_point s (imuPoint cfg p)
  have hvalue : (rotOf s * cfg.extR) * sensorCov cfg p * (rotOf s * cfg.extR)ᵀ +
      padCols poseIndex (fromCols (-(rotOf s * skew (imuPoint cfg p))) 1) * covOf s *
        (padCols poseIndex (fromCols (-(rotOf s * skew (imuPoint cfg p))) 1))ᵀ =
      sensorTerm cfg s (sensorCov cfg p) +
        rotOf s * attitudeTerm s (imuPoint cfg p) * (rotOf s)ᵀ - crossTerm s (imuPoint cfg p) +
        diagBlock (covOf s) .pos := by
    rw [padCols_fromCols, Matrix.one_mul]
    generalize hA : rotOf s * skew (imuPoint cfg p) = A
    have hexpand : (-A * blockCols .rot + blockCols .pos) * covOf s *
        (-A * blockCols .rot + blockCols .pos)ᵀ =
        A * (blockCols .rot * covOf s * (blockCols .rot)ᵀ) * Aᵀ -
          (A * (blockCols .rot * covOf s * (blockCols .pos)ᵀ) +
            blockCols .pos * covOf s * (blockCols .rot)ᵀ * Aᵀ) +
          blockCols .pos * covOf s * (blockCols .pos)ᵀ := by
      simp only [transpose_add, transpose_mul, transpose_neg, Matrix.add_mul, Matrix.mul_add,
        Matrix.neg_mul, Matrix.mul_neg, Matrix.mul_assoc]
      abel
    rw [hexpand]
    simp only [blockCols_mul_mul]
    have hrot : covBlock (covOf s) .rot .rot = diagBlock (covOf s) .rot := rfl
    have hpos : covBlock (covOf s) .pos .pos = diagBlock (covOf s) .pos := rfl
    rw [hrot, hpos, ← hA]
    unfold sensorTerm attitudeTerm crossTerm
    simp only [transpose_mul, Matrix.mul_assoc]
    abel
  constructor
  · rintro ⟨Jp, Jx, hJp, hJx, rfl⟩
    rw [hJp.unique hpoint, hJx.unique hstate, hvalue]
  · rintro rfl
    exact ⟨_, _, hpoint, hstate, hvalue.symm⟩

/-! ## Agreement -/

/-- The point of a scan as `calcBodyCov` leaves it. -/
def raised (q : PointType) : Vec3 := raisedPoint (pointB q)

/-- The point of a scan that `StateEstimation` starts from. -/
def lifted (q : PointType) : Vec3 :=
  if zCoord (pointB q) = 0 then setZ (pointB q) 0.001 else pointB q

theorem zCoord_lifted (q : PointType) : zCoord (lifted q) ≠ 0 := by
  unfold lifted
  split
  · have hz : zCoord (setZ (pointB q) 0.001) = 0.001 := rfl
    rw [hz]
    norm_num
  · assumption

/-- The covariance of the sensor at a point: one variance along its direction, and another one
across it. -/
def noiseAt (cfg : LioConfig) (p : Vec3) : Mat3 :=
  directedCov (cfg.deptErr * cfg.deptErr) (acrossVar cfg.beamErr p) (normalized p)

theorem raisedPoint_of_zCoord {p : Vec3} (hz : zCoord p ≠ 0) : raisedPoint p = p := if_neg hz

theorem sensorCov_eq (cfg : LioConfig) (p : Vec3) : sensorCov cfg p = noiseAt cfg (raisedPoint p) :=
  calcBodyCov_eq p cfg.deptErr cfg.beamErr

theorem sensorCov_lifted (cfg : LioConfig) (q : PointType) :
    sensorCov cfg (lifted q) = noiseAt cfg (lifted q) := by
  rw [sensorCov_eq, raisedPoint_of_zCoord (zCoord_lifted q)]

theorem prepared_eq (cfg : LioConfig) (q : PointType) :
    prepared cfg q = (skew (imuPoint cfg (lifted q)), sensorCov cfg (lifted q)) := by
  have hkept : (calcBodyCov (lifted q) cfg.deptErr cfg.beamErr).1 = lifted q :=
    if_neg (zCoord_lifted q)
  show (skew (cfg.extR *ᵥ (calcBodyCov (lifted q) cfg.deptErr cfg.beamErr).1 + cfg.extT),
    sensorCov cfg (lifted q)) = _
  rw [hkept]
  rfl

theorem neg_skew_mul (v : Vec3) (M : Mat3) : -skew v * M * (-skew v)ᵀ = skew v * M * (skew v)ᵀ := by
  rw [transpose_neg, Matrix.neg_mul, neg_mul_neg]

theorem buildVar_eq : buildVar cfg s q =
    sensorTerm cfg s (sensorCov cfg (pointB q)) + attitudeTerm s (raised q) +
      diagBlock (covOf s) .pos := by
  show sensorTerm cfg s (sensorCov cfg (pointB q)) +
    -skew (raised q) * diagBlock (covOf s) .rot * (-skew (raised q))ᵀ + _ = _
  rw [neg_skew_mul]
  rfl

theorem estimationVar_eq : estimationVar cfg s q =
    rotOf s * sensorCov cfg (lifted q) * (rotOf s)ᵀ + attitudeTerm s (imuPoint cfg (lifted q)) +
      diagBlock (covOf s) .pos := by
  rw [estimationVar, prepared_eq]
  show rotOf s * sensorCov cfg (lifted q) * (rotOf s)ᵀ +
    -skew (imuPoint cfg (lifted q)) * diagBlock (covOf s) .rot *
      -(skew (imuPoint cfg (lifted q)))ᵀ + _ = _
  rw [← transpose_neg, neg_skew_mul]
  rfl

theorem updateVar_eq : updateVar cfg s q =
    sensorTerm cfg s (sensorCov cfg (lifted q)) + attitudeTerm s (imuPoint cfg (lifted q)) +
      diagBlock (covOf s) .pos := by
  rw [updateVar, prepared_eq]
  show sensorTerm cfg s (sensorCov cfg (lifted q)) +
    -skew (imuPoint cfg (lifted q)) * diagBlock (covOf s) .rot *
      (-skew (imuPoint cfg (lifted q)))ᵀ + _ = _
  rw [neg_skew_mul]
  rfl

/-- What the rotations, the lever arm, the state and the point must be for the three formulas to
agree with the propagation. -/
structure TermsAgree (cfg : LioConfig) (s : ExactState C) (q : PointType) : Prop where
  /-- The rotation of the LiDAR, which is left out of an iteration, keeps the noise. -/
  sensor : rotOf s * noiseAt cfg (lifted q) * (rotOf s)ᵀ =
    (rotOf s * cfg.extR) * noiseAt cfg (lifted q) * (rotOf s * cfg.extR)ᵀ
  /-- The first map takes the lever arm in the LiDAR frame, and raises a point of height zero by
  less. -/
  lever : (rotOf s * cfg.extR) * (noiseAt cfg (raised q) - noiseAt cfg (lifted q)) *
      (rotOf s * cfg.extR)ᵀ =
    attitudeTerm s (cfg.extR *ᵥ lifted q + cfg.extT) - attitudeTerm s (raised q)
  /-- The lever arm is not turned into the world, and what position and attitude have in common
  is left out. -/
  attitude : attitudeTerm s (raised q) =
    rotOf s * attitudeTerm s (cfg.extR *ᵥ pointB q + cfg.extT) * (rotOf s)ᵀ -
      crossTerm s (cfg.extR *ᵥ pointB q + cfg.extT)

/-- The same for a point that is not of height zero, with rotations and with a covariance of the
attitude that is positive definite. -/
structure PoseAgrees (cfg : LioConfig) (s : ExactState C) (p : Vec3) : Prop where
  /-- The noise has no direction, or the rotation of the LiDAR keeps that of the point. -/
  sensor : cfg.deptErr * cfg.deptErr = acrossVar cfg.beamErr p ∨
    cfg.extR *ᵥ p = p ∨ cfg.extR *ᵥ p = -p
  /-- The point of the IMU frame is that of the LiDAR frame, or the opposite one. -/
  lever : cfg.extR *ᵥ p + cfg.extT = p ∨ cfg.extR *ᵥ p + cfg.extT = -p
  attitude : attitudeTerm s p =
    rotOf s * attitudeTerm s (cfg.extR *ᵥ p + cfg.extT) * (rotOf s)ᵀ -
      crossTerm s (cfg.extR *ᵥ p + cfg.extT)

/-- The three covariances of a point agree and propagate those of sensor and state. -/
def VarsAgree (cfg : LioConfig) (s : ExactState C) (q : PointType) : Prop :=
  buildVar cfg s q = estimationVar cfg s q ∧ estimationVar cfg s q = updateVar cfg s q ∧
    Propagated cfg s (pointB q) (updateVar cfg s q)

theorem varsAgree_iff : VarsAgree cfg s q ↔ TermsAgree cfg s q := by
  have hlever : sensorTerm cfg s (noiseAt cfg (raised q)) + attitudeTerm s (raised q) =
      sensorTerm cfg s (noiseAt cfg (lifted q)) + attitudeTerm s (imuPoint cfg (lifted q)) ↔
        (rotOf s * cfg.extR) * (noiseAt cfg (raised q) - noiseAt cfg (lifted q)) *
          (rotOf s * cfg.extR)ᵀ = attitudeTerm s (imuPoint cfg (lifted q)) -
            attitudeTerm s (raised q) := by
    rw [Matrix.mul_sub, Matrix.sub_mul, sub_eq_sub_iff_add_eq_add, sensorTerm, sensorTerm]
    exact ⟨fun h => h.trans (add_comm _ _), fun h => h.trans (add_comm _ _)⟩
  have hpoint : sensorCov cfg (pointB q) = noiseAt cfg (raised q) := sensorCov_eq cfg (pointB q)
  rw [VarsAgree, propagated_iff, estimationVar_eq, updateVar_eq, buildVar_eq, sensorCov_lifted,
    hpoint]
  constructor
  · rintro ⟨hbuild, hestimation, hpropagated⟩
    have hbuild := add_right_cancel (hbuild.trans hestimation)
    have hsensor := add_right_cancel (add_right_cancel hestimation)
    have hpropagated := add_right_cancel hpropagated
    refine ⟨hsensor, hlever.mp hbuild, ?_⟩
    rw [← hbuild, add_sub_assoc] at hpropagated
    exact add_left_cancel hpropagated
  · rintro ⟨hsensor, harm, hattitude⟩
    have hbuild := hlever.mpr harm
    refine ⟨?_, ?_, ?_⟩
    · rw [hbuild, hsensor]
      rfl
    · rw [hsensor]
      rfl
    · rw [← hbuild, hattitude, add_sub_assoc]
      rfl

/-- What the rotations leave of the condition. -/
theorem termsAgree_iff_pose (hR : rotOf s * (rotOf s)ᵀ = 1) (hE : cfg.extR * cfg.extRᵀ = 1)
    (hS : (diagBlock (covOf s) .rot).PosDef) (hz : zCoord (pointB q) ≠ 0) :
    TermsAgree cfg s q ↔ PoseAgrees cfg s (pointB q) := by
  have hraised : raised q = pointB q := if_neg hz
  have hlifted : lifted q = pointB q := if_neg hz
  have hpos : 0 < norm3 (pointB q) := norm3_pos_of_ne 2 hz
  have hne : pointB q ≠ 0 := fun h => hz (congrFun h 2)
  have hR' : (rotOf s)ᵀ * rotOf s = 1 := mul_eq_one_comm.mp hR
  have hsensor : rotOf s * noiseAt cfg (pointB q) * (rotOf s)ᵀ =
      (rotOf s * cfg.extR) * noiseAt cfg (pointB q) * (rotOf s * cfg.extR)ᵀ ↔
        cfg.deptErr * cfg.deptErr = acrossVar cfg.beamErr (pointB q) ∨
          cfg.extR *ᵥ pointB q = pointB q ∨ cfg.extR *ᵥ pointB q = -pointB q := by
    have hturned : (rotOf s * cfg.extR) * (rotOf s * cfg.extR)ᵀ = 1 := by
      rw [transpose_mul, Matrix.mul_assoc, ← Matrix.mul_assoc cfg.extR, hE, Matrix.one_mul, hR]
    have hcancel {v w : Vec3} : rotOf s *ᵥ v = rotOf s *ᵥ w ↔ v = w := by
      refine ⟨fun h => ?_, fun h => by rw [h]⟩
      have h' := congrArg ((rotOf s)ᵀ *ᵥ ·) h
      simpa only [mulVec_mulVec, hR', one_mulVec] using h'
    have hunit {v w : Vec3} : (norm3 (pointB q))⁻¹ • v = (norm3 (pointB q))⁻¹ • w ↔ v = w :=
      (smul_right_injective Vec3 (inv_ne_zero hpos.ne')).eq_iff
    rw [noiseAt, mul_directedCov_mul hR, mul_directedCov_mul hturned, directedCov_eq_iff,
      ← mulVec_mulVec, ← mulVec_neg, hcancel, hcancel, normalized, mulVec_smul, ← smul_neg, hunit,
      hunit]
    exact or_congr_right (or_congr eq_comm (eq_comm.trans neg_eq_iff_eq_neg))
  constructor
  · rintro ⟨hkept, harm, hattitude⟩
    rw [hlifted] at hkept
    rw [hraised, hlifted, sub_self, Matrix.mul_zero, Matrix.zero_mul, eq_comm, sub_eq_zero,
      eq_comm] at harm
    rw [hraised] at hattitude
    exact ⟨hsensor.mp hkept, (skew_mul_skew_eq_iff hS hne).mp harm, hattitude⟩
  · rintro ⟨hkept, harm, hattitude⟩
    refine ⟨?_, ?_, ?_⟩
    · rw [hlifted]
      exact hsensor.mpr hkept
    · rw [hraised, hlifted, sub_self, Matrix.mul_zero, Matrix.zero_mul, eq_comm, sub_eq_zero, eq_comm]
      exact (skew_mul_skew_eq_iff hS hne).mpr harm
    · rw [hraised]
      exact hattitude

/-- The three covariances of a point agree and propagate those of sensor and state exactly under
this condition on the rotations, the lever arm, the state and the point. -/
theorem pointVar_agree_iff (cfg : LioConfig) (s : ExactState C) (q : PointType) :
    (VarsAgree cfg s q ↔ TermsAgree cfg s q) ∧
      (rotOf s * (rotOf s)ᵀ = 1 → cfg.extR * cfg.extRᵀ = 1 →
        (diagBlock (covOf s) .rot).PosDef → zCoord (pointB q) ≠ 0 →
          (VarsAgree cfg s q ↔ PoseAgrees cfg s (pointB q))) :=
  ⟨varsAgree_iff, fun hR hE hS hz => varsAgree_iff.trans (termsAgree_iff_pose hR hE hS hz)⟩

/-! ## A point above the LiDAR -/

/-- A LiDAR in the frame of the IMU, but for its height above it. -/
def LioConfig.above (height : ℝ) : LioConfig where
  maxIterations := 5
  deptErr := 0.05
  beamErr := 0.02
  extR := 1
  extT := ![0, 0, height]
  rtkLeverArm := 0
  rtkInnovationGate := 16.27

theorem diagBlock_initial : diagBlock (covOf ({} : ExactState Carrier.trivial)) .rot =
    (0.01 : ℝ) • 1 := by
  ext i j
  by_cases h : i = j <;> simp [diagBlock, covOf, exactCarrier, initCov, one_apply, h]

theorem crossTerm_initial (v : Vec3) : crossTerm ({} : ExactState Carrier.trivial) v = 0 := by
  have hzero {b c : StateBlock} (h : b ≠ c) :
      covBlock (covOf ({} : ExactState Carrier.trivial)) b c = 0 := by
    ext i j
    simp [covBlock, covOf, exactCarrier, initCov, h]
  rw [crossTerm, hzero (by decide), hzero (by decide), Matrix.mul_zero, Matrix.zero_mul, add_zero]

theorem rotOf_initial : rotOf ({} : ExactState Carrier.trivial) = 1 := rfl

theorem rotations_above (height : ℝ) :
    rotOf ({} : ExactState Carrier.trivial) * (rotOf ({} : ExactState Carrier.trivial))ᵀ = 1 ∧
      (LioConfig.above height).extR * (LioConfig.above height).extRᵀ = 1 := by
  have hone : (1 : Mat3) * (1 : Mat3)ᵀ = 1 := by rw [transpose_one, Matrix.mul_one]
  exact ⟨hone, hone⟩

theorem posDef_initial : (diagBlock (covOf ({} : ExactState Carrier.trivial)) .rot).PosDef := by
  rw [diagBlock_initial]
  exact PosDef.one.smul (by norm_num)

theorem pointB_above : pointB { z := 1 } = ![0, 0, 1] := by simp [pointB]

theorem zCoord_above : zCoord (pointB { z := 1 }) ≠ 0 := by
  rw [pointB_above]
  exact one_ne_zero

theorem imuPoint_above (height : ℝ) :
    (LioConfig.above height).extR *ᵥ ![0, 0, 1] + (LioConfig.above height).extT =
      ![0, 0, 1 + height] := by
  simp [LioConfig.above]

theorem not_poseAgrees_above :
    ¬PoseAgrees (.above 1) ({} : ExactState Carrier.trivial) (pointB { z := 1 }) := by
  intro h
  have hlever := h.lever
  rw [pointB_above, imuPoint_above] at hlever
  rcases hlever with hsame | hopposite
  · have hz := congrFun hsame 2
    simp only [cons_val] at hz
    norm_num at hz
  · have hz := congrFun hopposite 2
    simp only [cons_val, Pi.neg_apply] at hz
    norm_num at hz

/-- In the frame of the IMU the covariances of a point above it agree, and with a LiDAR that is a
metre above the IMU they do not. -/
theorem pointVar_agree_iff_above :
    VarsAgree (.above 0) ({} : ExactState Carrier.trivial) { z := 1 } ∧
      ¬VarsAgree (.above 1) ({} : ExactState Carrier.trivial) { z := 1 } := by
  constructor
  · refine ((pointVar_agree_iff (.above 0) {} { z := 1 }).2 (rotations_above 0).1
      (rotations_above 0).2 posDef_initial zCoord_above).mpr ⟨.inr (.inl ?_), .inl ?_, ?_⟩
    · exact one_mulVec _
    · rw [pointB_above, imuPoint_above, add_zero]
    · rw [pointB_above, imuPoint_above, add_zero, crossTerm_initial, rotOf_initial, transpose_one,
        Matrix.mul_one, Matrix.one_mul, sub_zero]
  · exact fun h => not_poseAgrees_above
      (((pointVar_agree_iff (.above 1) {} { z := 1 }).2 (rotations_above 1).1
        (rotations_above 1).2 posDef_initial zCoord_above).mp h)

/-- The first map takes the lever arm of a point above a LiDAR that is not the IMU. -/
theorem pointVar_differ : ¬∀ (cfg : LioConfig) (s : ExactState Carrier.trivial) (q : PointType),
    VarsAgree cfg s q := by
  intro h
  have hpose := termsAgree_iff_pose (rotations_above 1).1 (rotations_above 1).2 posDef_initial
    zCoord_above
  exact not_poseAgrees_above (hpose.mp (varsAgree_iff.mp (h _ _ _)))

end

end FastLivo.Frontend
