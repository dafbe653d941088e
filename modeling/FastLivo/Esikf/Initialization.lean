import FastLivo.Esikf.Filter
import Mathlib.Analysis.Real.Pi.Bounds

/-!
# Initialisation from an RTK observation

What the three updates compute for the observation that the filter was just initialised from, and
what `replaceYaw` keeps of an attitude.
-/

namespace FastLivo.Esikf

open Matrix

noncomputable section

/-! ## Angles -/

theorem kPi_lt_pi : kPi < Real.pi := Real.pi_gt_d20

theorem kPi_pos : 0 < kPi := by
  have h := two_kPi_pos
  linarith

theorem wrapAngle_mem (angle : ℝ) : -kPi ≤ wrapAngle angle ∧ wrapAngle angle ≤ kPi := by
  unfold wrapAngle
  split
  · have h := toIocMod_mem_Ioc two_kPi_pos (-kPi) angle
    exact ⟨h.1.le, by linarith [h.2]⟩
  · rename_i hhigh
    split
    · have h := toIcoMod_mem_Ico two_kPi_pos (-kPi) angle
      exact ⟨h.1, by linarith [h.2]⟩
    · rename_i hlow
      exact ⟨not_lt.mp hlow, not_lt.mp hhigh⟩

/-- Whole turns are taken off. -/
theorem sub_wrapAngle (angle : ℝ) : ∃ n : ℤ, angle - wrapAngle angle = n • (2 * kPi) := by
  unfold wrapAngle
  split
  · exact ⟨_, self_sub_toIocMod two_kPi_pos (-kPi) angle⟩
  · split
    · exact ⟨_, self_sub_toIcoMod two_kPi_pos (-kPi) angle⟩
    · exact ⟨0, by rw [sub_self, zero_zsmul]⟩

theorem wrapAngle_turns (n : ℤ) : wrapAngle (n • (2 * kPi)) = 0 := by
  have hpi := kPi_pos
  have hzero : wrapAngle 0 = 0 := by
    rw [wrapAngle, if_neg hpi.not_gt, if_neg (by linarith)]
  have hioc : toIocMod two_kPi_pos (-kPi) (n • (2 * kPi)) = 0 := by
    rw [← add_zero (n • (2 * kPi)), toIocMod_zsmul_add]
    exact (toIocMod_eq_self two_kPi_pos).mpr ⟨by linarith, by linarith⟩
  have hico : toIcoMod two_kPi_pos (-kPi) (n • (2 * kPi)) = 0 := by
    rw [← add_zero (n • (2 * kPi)), toIcoMod_zsmul_add]
    exact (toIcoMod_eq_self two_kPi_pos).mpr ⟨by linarith, by linarith⟩
  unfold wrapAngle
  split
  · exact hioc
  · rename_i hhigh
    split
    · exact hico
    · -- neither loop runs, so there is no turn to take off
      rename_i hlow
      rw [← hioc]
      refine ((toIocMod_eq_self two_kPi_pos).mpr ⟨?_, by linarith⟩).symm
      rcases (not_lt.mp hlow).lt_or_eq with h | h
      · exact h
      · exfalso
        have hturns : (2 * n + 1 : ℤ) = (0 : ℤ) := by
          have hreal : ((2 * n + 1 : ℤ) : ℝ) * kPi = 0 := by
            rw [zsmul_eq_mul] at h
            push_cast
            linarith
          exact_mod_cast (mul_eq_zero.mp hreal).resolve_right hpi.ne'
        omega

/-- An angle and its wrapped value differ by no innovation. -/
theorem wrapAngle_sub_wrapAngle (angle : ℝ) : wrapAngle (angle - wrapAngle angle) = 0 := by
  obtain ⟨n, hn⟩ := sub_wrapAngle angle
  rw [hn, wrapAngle_turns]

/-! ## Tilt -/

/-- The vertical in the frame of the body: what an attitude says without its heading. -/
def tilt (rotation : Rot3) : Vec3 := fun j => zCoord fun i => rotation.matrix i j

theorem tilt_apply (R : Rot3) (j : Fin 3) : tilt R j = R.matrix 2 j := rfl

theorem tilt_sq (R : Rot3) : tilt R 0 ^ 2 + tilt R 1 ^ 2 + tilt R 2 ^ 2 = 1 := by
  have h := congrArg (fun M : Mat3 => M 2 2) R.matrix_mul_transpose
  simp only [mul_apply, Fin.sum_univ_three, transpose_apply, one_apply_eq] at h
  rw [tilt_apply, tilt_apply, tilt_apply]
  linarith

/-- The pitch read from an attitude. -/
theorem clamp_tilt (R : Rot3) : max (-1) (min (-R.matrix 2 0) 1) = -tilt R 0 := by
  have h := tilt_sq R
  have hbound : |tilt R 0| ≤ 1 := by
    rw [← sq_le_one_iff_abs_le_one]
    nlinarith [sq_nonneg (tilt R 1), sq_nonneg (tilt R 2)]
  obtain ⟨hlow, hhigh⟩ := abs_le.mp hbound
  show max (-1) (min (-tilt R 0) 1) = _
  rw [min_eq_left (by linarith), max_eq_right (by linarith)]

theorem abs_tilt_le (R : Rot3) : -1 ≤ -tilt R 0 ∧ -tilt R 0 ≤ 1 := by
  rw [← clamp_tilt]
  exact ⟨le_max_left _ _, max_le (by norm_num) (min_le_right _ _)⟩

/-- The entries of three turns that the code reads. -/
theorem euler_entries (yaw pitch roll : ℝ) :
    (unitZ yaw * unitY pitch * unitX roll).matrix 0 0 = Real.cos pitch * Real.cos yaw ∧
      (unitZ yaw * unitY pitch * unitX roll).matrix 1 0 = Real.cos pitch * Real.sin yaw ∧
      tilt (unitZ yaw * unitY pitch * unitX roll) =
        ![-Real.sin pitch, Real.cos pitch * Real.sin roll, Real.cos pitch * Real.cos roll] := by
  refine ⟨?_, ?_, ?_⟩
  · simp [Rot3.matrix, unitX, unitY, unitZ]
    ring
  · simp [Rot3.matrix, unitX, unitY, unitZ]
    ring
  · ext j
    fin_cases j <;>
      simp [tilt_apply, Rot3.matrix, unitX, unitY, unitZ]

/-- The pitch lies in the half circle where the cosine is the length of the rest of the tilt. -/
theorem cos_pitch (R : Rot3) :
    Real.cos (Real.arcsin (-tilt R 0)) = ‖(⟨tilt R 2, tilt R 1⟩ : ℂ)‖ := by
  rw [Real.cos_arcsin, Complex.norm_def, Complex.normSq_mk]
  congr 1
  linarith [tilt_sq R]

/-- The heading is replaced, the tilt stays. -/
theorem tilt_replaceYaw (R : Rot3) (yaw : ℝ) : tilt (replaceYaw R yaw) = tilt R := by
  obtain ⟨hlow, hhigh⟩ := abs_tilt_le R
  unfold replaceYaw
  dsimp only
  rw [clamp_tilt, (euler_entries _ _ _).2.2, Real.sin_arcsin hlow hhigh, cos_pitch, neg_neg]
  have hroll : atan2 (R.matrix 2 1) (R.matrix 2 2) = Complex.arg ⟨tilt R 2, tilt R 1⟩ := rfl
  rw [hroll, Complex.norm_mul_sin_arg, Complex.norm_mul_cos_arg]
  ext j
  fin_cases j <;> rfl

/-- Without tilt there is only a turn about the vertical. -/
theorem eq_unitZ_of_tilt {R : Rot3} (h : tilt R = ![0, 0, 1]) : R = unitZ (yawOf R) := by
  have h20 : R.matrix 2 0 = 0 := congrFun h 0
  have h21 : R.matrix 2 1 = 0 := congrFun h 1
  have h22 : R.matrix 2 2 = 1 := congrFun h 2
  have hcol := congrArg (fun M : Mat3 => M 2 2) R.transpose_mul_matrix
  have hunit := congrArg (fun M : Mat3 => M 0 0) R.transpose_mul_matrix
  simp only [mul_apply, Fin.sum_univ_three, transpose_apply, one_apply_eq, h20, h22] at hcol hunit
  have h02 : R.matrix 0 2 = 0 := by
    have : R.matrix 0 2 * R.matrix 0 2 = 0 := by
      nlinarith [mul_self_nonneg (R.matrix 0 2), mul_self_nonneg (R.matrix 1 2)]
    exact mul_self_eq_zero.mp this
  have h12 : R.matrix 1 2 = 0 := by
    have : R.matrix 1 2 * R.matrix 1 2 = 0 := by
      nlinarith [mul_self_nonneg (R.matrix 0 2), mul_self_nonneg (R.matrix 1 2)]
    exact mul_self_eq_zero.mp this
  -- the cofactors give the second column from the first
  have h11 : R.matrix 1 1 = R.matrix 0 0 := by
    have hadj := congrArg (fun M : Mat3 => M 0 0) R.adjugate_matrix
    simpa [adjugate_fin_three, h21, h22] using hadj
  have h01 : R.matrix 0 1 = -R.matrix 1 0 := by
    have hadj := congrArg (fun M : Mat3 => M 0 1) R.adjugate_matrix
    simp [adjugate_fin_three, h21, h22] at hadj
    linarith
  have hnorm : ‖(⟨R.matrix 0 0, R.matrix 1 0⟩ : ℂ)‖ = 1 := by
    rw [Complex.norm_def, Complex.normSq_mk, Real.sqrt_eq_one]
    linarith
  have hcos : Real.cos (yawOf R) = R.matrix 0 0 := by
    have harg := Complex.norm_mul_cos_arg ⟨R.matrix 0 0, R.matrix 1 0⟩
    rwa [hnorm, one_mul] at harg
  have hsin : Real.sin (yawOf R) = R.matrix 1 0 := by
    have harg := Complex.norm_mul_sin_arg ⟨R.matrix 0 0, R.matrix 1 0⟩
    rwa [hnorm, one_mul] at harg
  ext i j
  show _ = !![Real.cos (yawOf R), -Real.sin (yawOf R), 0; Real.sin (yawOf R), Real.cos (yawOf R), 0;
    0, 0, 1] i j
  rw [hcos, hsin]
  fin_cases i <;> fin_cases j <;> simp [h01, h02, h11, h12, h20, h21, h22]

theorem tilt_mul_inv {R S : Rot3} (h : tilt S = tilt R) : tilt (S * R⁻¹) = ![0, 0, 1] := by
  have hrow : tilt (S * R⁻¹) = tilt (R * R⁻¹) := by
    ext j
    show (S.matrix * R⁻¹.matrix) 2 j = (R.matrix * R⁻¹.matrix) 2 j
    rw [mul_apply_eq_vecMul, mul_apply_eq_vecMul]
    exact congrFun (congrArg (fun v => v ᵥ* R⁻¹.matrix) h) j
  rw [hrow, mul_inv_cancel]
  ext j
  fin_cases j <;> simp [tilt_apply]

/-- Attitudes of the same tilt differ by a turn about the vertical. -/
theorem eq_unitZ_mul {R S : Rot3} (h : tilt S = tilt R) : S = unitZ (yawOf (S * R⁻¹)) * R :=
  calc S = S * R⁻¹ * R := (inv_mul_cancel_right S R).symm
    _ = unitZ (yawOf (S * R⁻¹)) * R := by rw [← eq_unitZ_of_tilt (tilt_mul_inv h)]

/-- Away from gimbal lock the new heading is read back. -/
theorem yawOf_replaceYaw {R : Rot3} (hlock : |R.matrix 2 0| < 1) {yaw : ℝ}
    (hyaw : -Real.pi < yaw ∧ yaw ≤ Real.pi) : yawOf (replaceYaw R yaw) = yaw := by
  obtain ⟨hlow, hhigh⟩ := abs_lt.mp hlock
  have hpitch : 0 < Real.cos (Real.arcsin (-tilt R 0)) := by
    rw [Real.cos_arcsin, Real.sqrt_pos]
    show 0 < 1 - (-R.matrix 2 0) ^ 2
    nlinarith
  unfold yawOf replaceYaw
  dsimp only
  rw [clamp_tilt, (euler_entries _ _ _).1, (euler_entries _ _ _).2.1]
  generalize Real.cos (Real.arcsin (-tilt R 0)) = c at hpitch ⊢
  have hpolar : (⟨c * Real.cos yaw, c * Real.sin yaw⟩ : ℂ) =
      c * (Complex.cos yaw + Complex.sin yaw * Complex.I) := by
    apply Complex.ext <;>
      simp [Complex.cos_ofReal_re, Complex.sin_ofReal_re, Complex.cos_ofReal_im,
        Complex.sin_ofReal_im]
  unfold atan2
  rw [hpolar, Complex.arg_mul_cos_add_sin_mul_I hpitch hyaw]

namespace RealtimeGlobalEsikf

/-! ## Innovations -/

section Updates

variable (N : Numerics) (cfg : GlobalEsikfConfig) (observation : GlobalRtkObservation)
  (f : RealtimeGlobalEsikf)

theorem updatePosition_eq :
    updatePosition N cfg observation f =
      f.kalmanUpdate N (positionInnovation cfg observation f)
        (rowBlocks (-(f.globalPose.rotation.matrix * skew cfg.imuToAntenna)) 1 0)
        (diagonal observation.positionVariance) cfg.positionNisGate := rfl

theorem updateVelocity_eq :
    updateVelocity N cfg observation f =
      f.kalmanUpdate N (velocityInnovation cfg observation f)
        (rowBlocks (-(f.globalPose.rotation.matrix *
          skew (f.angularVelocityBody ⨯₃ cfg.imuToAntenna))) 0 1)
        (diagonal observation.velocityVariance) cfg.velocityNisGate := rfl

theorem updateHeading_eq :
    updateHeading N cfg observation f =
      f.kalmanUpdate N (fun _ => headingInnovation cfg observation f)
        (headingJacobian N f.globalPose.rotation)
        (diagonal fun _ => max 1e-6 observation.headingVariance) cfg.headingNisGate := rfl

end Updates

section Initialised

variable (cfg : GlobalEsikfConfig) (observation : GlobalRtkObservation) (localPose : Pose3)
  (f : RealtimeGlobalEsikf)

/-- The antenna is where the observation says. -/
theorem positionInnovation_initialized :
    positionInnovation cfg observation (f.initializeFromRtk cfg observation localPose) = 0 := by
  unfold positionInnovation initializeFromRtk
  dsimp only
  rw [sub_add_cancel, sub_self]

/-- The velocity of the lever arm is taken off once and added once. -/
theorem velocityInnovation_initialized (hvalid : observation.velocityValid = true) :
    velocityInnovation cfg observation (f.initializeFromRtk cfg observation localPose) = 0 := by
  unfold velocityInnovation initializeFromRtk
  dsimp only
  rw [if_pos hvalid, sub_add_cancel, sub_self]

theorem headingInnovation_initialized (hlock : |localPose.rotation.matrix 2 0| < 1)
    (hvalid : observation.headingValid = true) :
    headingInnovation cfg observation (f.initializeFromRtk cfg observation localPose) = 0 := by
  obtain ⟨hlow, hhigh⟩ := wrapAngle_mem (observation.heading + cfg.headingOffset)
  have hpi := kPi_lt_pi
  unfold headingInnovation initializeFromRtk
  dsimp only
  rw [if_pos hvalid, yawOf_replaceYaw hlock ⟨by linarith, by linarith⟩, wrapAngle_sub_wrapAngle]

end Initialised

/-- Right after the initialisation the three innovations vanish, and a new heading is a turn about
the vertical. -/
theorem initialized_consistent (cfg : GlobalEsikfConfig) (observation : GlobalRtkObservation)
    (localPose : Pose3) (hlock : |localPose.rotation.matrix 2 0| < 1) (f : RealtimeGlobalEsikf) :
    let g := f.initializeFromRtk cfg observation localPose
    positionInnovation cfg observation g = 0 ∧
      (observation.velocityValid = true → velocityInnovation cfg observation g = 0) ∧
      (observation.headingValid = true → headingInnovation cfg observation g = 0) ∧
      ∀ (R : Rot3) (psi : ℝ), ∃ turn, replaceYaw R psi = unitZ turn * R :=
  ⟨positionInnovation_initialized cfg observation localPose f,
    velocityInnovation_initialized cfg observation localPose f,
    headingInnovation_initialized cfg observation localPose f hlock,
    fun R psi => ⟨_, eq_unitZ_mul (tilt_replaceYaw R psi)⟩⟩

theorem initialized_consistent_level :
    let observation : GlobalRtkObservation :=
      { position := 1, heading := 4, velocityValid := true, headingValid := true }
    let g := RealtimeGlobalEsikf.configured.initializeFromRtk {} observation 1
    positionInnovation {} observation g = 0 ∧
      (observation.velocityValid = true → velocityInnovation {} observation g = 0) ∧
      (observation.headingValid = true → headingInnovation {} observation g = 0) ∧
      ∀ (R : Rot3) (psi : ℝ), ∃ turn, replaceYaw R psi = unitZ turn * R :=
  initialized_consistent {} _ 1 (by simp) .configured

/-! ## The observation once more -/

/-- Pose and velocities agree; covariances may differ. -/
structure SameMotion (f g : RealtimeGlobalEsikf) : Prop where
  globalPose : g.globalPose = f.globalPose
  velocity : g.velocity = f.velocity
  angularVelocityBody : g.angularVelocityBody = f.angularVelocityBody

theorem SameMotion.refl (f : RealtimeGlobalEsikf) : SameMotion f f := ⟨rfl, rfl, rfl⟩

theorem SameMotion.trans {f g h : RealtimeGlobalEsikf} (hfg : SameMotion f g)
    (hgh : SameMotion g h) : SameMotion f h :=
  ⟨hgh.1.trans hfg.1, hgh.2.trans hfg.2, hgh.3.trans hfg.3⟩

section Motion

variable {N : Numerics} {cfg : GlobalEsikfConfig} {observation : GlobalRtkObservation}
  {f g : RealtimeGlobalEsikf}

theorem injectError_zero (f : RealtimeGlobalEsikf) : SameMotion f (f.injectError N 0) := by
  have hzero (b : ErrorBlock) : Error.segment 0 b = 0 := rfl
  refine ⟨?_, ?_, rfl⟩
  · unfold injectError
    dsimp only
    rw [hzero, hzero, N.expmap_zero, mul_one, add_zero]
  · exact add_zero f.velocity

/-- Without innovation only the covariance changes. -/
theorem kalmanUpdate_zero {n : ℕ} (jacobian : Matrix (Fin n) ErrorIndex ℝ)
    (measurementCovariance : Matrix (Fin n) (Fin n) ℝ) (nisGate : ℝ) (f : RealtimeGlobalEsikf) :
    SameMotion f (f.kalmanUpdate N 0 jacobian measurementCovariance nisGate).2 := by
  unfold kalmanUpdate
  split
  · exact .refl f
  · split
    · exact .refl f
    · have h := injectError_zero (N := N) f
      dsimp only
      rw [mulVec_zero]
      exact ⟨h.1, h.2, h.3⟩

theorem SameMotion.updatePosition (h : SameMotion f g)
    (hzero : positionInnovation cfg observation f = 0) :
    SameMotion f (g.updatePosition N cfg observation).2 := by
  have hinnovation : positionInnovation cfg observation g = 0 := by
    rw [← hzero, positionInnovation, positionInnovation, h.globalPose]
  rw [updatePosition_eq, hinnovation]
  exact h.trans (kalmanUpdate_zero _ _ _ g)

theorem SameMotion.updateVelocity (h : SameMotion f g)
    (hzero : velocityInnovation cfg observation f = 0) :
    SameMotion f (g.updateVelocity N cfg observation).2 := by
  have hinnovation : velocityInnovation cfg observation g = 0 := by
    rw [← hzero, velocityInnovation, velocityInnovation, h.globalPose, h.velocity,
      h.angularVelocityBody]
  rw [updateVelocity_eq, hinnovation]
  exact h.trans (kalmanUpdate_zero _ _ _ g)

theorem SameMotion.updateHeading (h : SameMotion f g)
    (hzero : headingInnovation cfg observation f = 0) :
    SameMotion f (g.updateHeading N cfg observation).2 := by
  have hinnovation : (fun _ : Fin 1 => headingInnovation cfg observation g) = 0 := by
    funext _
    show headingInnovation cfg observation g = 0
    rw [← hzero, headingInnovation, headingInnovation, h.globalPose]
  rw [updateHeading_eq, hinnovation]
  exact h.trans (kalmanUpdate_zero _ _ _ g)

theorem SameMotion.updateIf (valid : Bool)
    {update : RealtimeGlobalEsikf → Bool × RealtimeGlobalEsikf} (h : SameMotion f g)
    (hupdate : valid = true → SameMotion f (update g).2) :
    SameMotion f (updateIf valid update g).2.1 := by
  unfold RealtimeGlobalEsikf.updateIf
  split
  · rename_i hvalid
    exact hupdate hvalid
  · exact h

/-- The observation that a filter was initialised from does not move it. -/
theorem updateFromRtk_initialized (localPose : Pose3) (hlock : |localPose.rotation.matrix 2 0| < 1)
    (f : RealtimeGlobalEsikf) :
    let g := f.initializeFromRtk cfg observation localPose
    SameMotion g (g.updateFromRtk N cfg observation).2.1 := by
  intro g
  have hposition := (SameMotion.refl g).updateIf true fun _ =>
    (SameMotion.refl g).updatePosition (N := N)
      (positionInnovation_initialized cfg observation localPose f)
  have hvelocity := hposition.updateIf observation.velocityValid fun hvalid =>
    hposition.updateVelocity (N := N)
      (velocityInnovation_initialized cfg observation localPose f hvalid)
  exact hvelocity.updateIf observation.headingValid fun hvalid =>
    hvelocity.updateHeading (headingInnovation_initialized cfg observation localPose f hlock hvalid)

end Motion

end RealtimeGlobalEsikf

end

end FastLivo.Esikf
