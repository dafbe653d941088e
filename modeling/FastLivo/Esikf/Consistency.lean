import FastLivo.Esikf.Numerics
import FastLivo.Lib.ErrorState

/-!
# Consistency of the prediction

`predict` computes the velocity from the two positions and forgets the old one, while its
transition matrix carries the velocity error over unchanged. The rows of rotation and
position are the jacobian of the pose.
-/

namespace FastLivo.Esikf

open Lib Matrix RealtimeGlobalEsikf Asymptotics Filter Topology

noncomputable section

/-- Nominal pose and velocity. -/
def RealtimeGlobalEsikf.nominal (f : RealtimeGlobalEsikf) : Pose3 × Vec3 := (f.globalPose, f.velocity)

/-- `matrix.block<3, 3>`. -/
def block (matrix : Matrix9d) (row col : ErrorBlock) : Mat3 :=
  of fun i j => matrix (row, i) (col, j)

/-- The transition matrix of `predict` is the jacobian of its nominal map. -/
def PredictConsistent (N : Numerics) (cfg : GlobalEsikfConfig) (f : RealtimeGlobalEsikf)
    (localRelative : Pose3) (dt : ℝ) : Prop :=
  IsErrorJacobian (fun e g => g.injectError N e) nominal (predict N cfg localRelative dt) f
    (transition f.globalPose.rotation localRelative).mulVecLin

/-- A difference `d` in velocity is mapped to the velocity block times `d`. -/
def VelocityCarried (N : Numerics) (cfg : GlobalEsikfConfig) (f : RealtimeGlobalEsikf)
    (localRelative : Pose3) (dt : ℝ) (d : Vec3) : Prop :=
  ({ f with velocity := f.velocity + d }.predict N cfg localRelative dt).velocity -
      (f.predict N cfg localRelative dt).velocity =
    block (transition f.globalPose.rotation localRelative) .velocity .velocity *ᵥ d

theorem block_velocity (rotation : Rot3) (localRelative : Pose3) :
    block (transition rotation localRelative) .velocity .velocity = 1 := by
  ext i j
  simp [block, transition, setBlock, one_apply]

/-- The prediction reads the pose and not the velocity. -/
theorem predict_velocity_congr (N : Numerics) (cfg : GlobalEsikfConfig) {f g : RealtimeGlobalEsikf}
    (h : f.globalPose = g.globalPose) (localRelative : Pose3) (dt : ℝ) :
    (f.predict N cfg localRelative dt).velocity = (g.predict N cfg localRelative dt).velocity := by
  simp only [predict, h]

/-- A pure velocity error leaves the pose as it is. -/
theorem injectError_globalPose (N : Numerics) {error : Error} (f : RealtimeGlobalEsikf)
    (hrotation : error.segment .rotation = 0) (hposition : error.segment .position = 0) :
    (f.injectError N error).globalPose = f.globalPose := by
  simp [injectError, hrotation, hposition, N.expmap_zero]

theorem not_predictConsistent (N : Numerics) (cfg : GlobalEsikfConfig) (f : RealtimeGlobalEsikf)
    (localRelative : Pose3) (dt : ℝ) : ¬PredictConsistent N cfg f localRelative dt := by
  intro hconsistent
  -- The first coordinate of the velocity ignores an error in itself.
  have hzero : (transition f.globalPose.rotation localRelative).mulVecLin
      (Pi.single (.velocity, 0) 1) (.velocity, 0) = 0 := by
    refine hconsistent.eq_zero_of_ignored (fun p => p.2 0)
      (ContinuousLinearMap.proj (ErrorBlock.velocity, (0 : Fin 3))) (fun g e => rfl) fun s => ?_
    refine congrFun (predict_velocity_congr N cfg (injectError_globalPose N f ?_ ?_)
      localRelative dt) 0
    · ext i
      simp [Error.segment]
    · ext i
      simp [Error.segment]
  have hone : transition f.globalPose.rotation localRelative (.velocity, 0) (.velocity, 0) = 1 :=
    congrFun (congrFun (block_velocity f.globalPose.rotation localRelative) 0) 0
  simp [hone] at hzero

theorem velocityCarried_iff (N : Numerics) (cfg : GlobalEsikfConfig) (f : RealtimeGlobalEsikf)
    (localRelative : Pose3) (dt : ℝ) (d : Vec3) :
    VelocityCarried N cfg f localRelative dt d ↔ d = 0 := by
  have hsame : ({ f with velocity := f.velocity + d }.predict N cfg localRelative dt).velocity =
      (f.predict N cfg localRelative dt).velocity := predict_velocity_congr N cfg rfl localRelative dt
  rw [VelocityCarried, hsame, sub_self, block_velocity, one_mulVec]
  exact eq_comm

/-- For no pose, velocity, increment and time is the transition matrix the jacobian of the
prediction, and no difference in velocity survives it. -/
theorem predict_inconsistent (N : Numerics) (cfg : GlobalEsikfConfig) (f : RealtimeGlobalEsikf)
    (localRelative : Pose3) (dt : ℝ) :
    ¬PredictConsistent N cfg f localRelative dt ∧
      ∀ d, VelocityCarried N cfg f localRelative dt d ↔ d = 0 :=
  ⟨not_predictConsistent N cfg f localRelative dt, velocityCarried_iff N cfg f localRelative dt⟩

/-- A filter at rest with a velocity correction of 1 m/s, a tenth of a second later. -/
theorem velocity_lost :
    ¬PredictConsistent .exact {} configured 1 (1 / 10) ∧
      ¬VelocityCarried .exact {} configured 1 (1 / 10) ![1, 0, 0] := by
  refine ⟨not_predictConsistent _ _ _ _ _, fun hcarried => ?_⟩
  have hzero := (velocityCarried_iff _ _ _ _ _ _).mp hcarried
  simpa using congrFun hzero 0

/-! ## Rotation and position -/

/-- The exponential map of SO(3) as `gtsam` documents it: rotations act on its axis, and to
first order it moves a vector by the cross product. -/
structure ExpmapLaws (N : Numerics) : Prop where
  conj : ∀ (R : Rot3) (v : Vec3), N.expmap (R.matrixᵀ *ᵥ v) = R⁻¹ * N.expmap v * R
  deriv : ∀ w : Vec3,
    (fun v => (N.expmap v).matrix *ᵥ w - w - v ⨯₃ w) =o[𝓝 0] fun v : Vec3 => v

theorem exact_expmapLaws : ExpmapLaws .exact := ⟨expSkew_conj, expSkew_deriv⟩

theorem sum_errorIndex (g : ErrorIndex → ℝ) :
    ∑ j, g j = ∑ i, g (.rotation, i) + (∑ i, g (.position, i) + ∑ i, g (.velocity, i)) := by
  rw [Fintype.sum_prod_type]
  show ∑ b ∈ ({.rotation, .position, .velocity} : Finset ErrorBlock), _ = _
  rw [Finset.sum_insert (by decide), Finset.sum_insert (by decide), Finset.sum_singleton]

theorem transition_rotation (rotation : Rot3) (localRelative : Pose3) (e : Error) :
    Error.segment (transition rotation localRelative *ᵥ e) .rotation =
      localRelative.rotation.matrixᵀ *ᵥ e.segment .rotation := by
  ext i
  simp [Error.segment, mulVec, dotProduct, sum_errorIndex, transition, setBlock, one_apply]

theorem transition_position (rotation : Rot3) (localRelative : Pose3) (e : Error) :
    Error.segment (transition rotation localRelative *ᵥ e) .position =
      e.segment .position - rotation.matrix *ᵥ (localRelative.translation ⨯₃ e.segment .rotation) := by
  rw [← skew_mulVec, mulVec_mulVec]
  ext i
  simp [Error.segment, mulVec, dotProduct, sum_errorIndex, transition, setBlock, one_apply]
  ring

/-- What the prediction adds to the linear image of an error: the rest of the rotation
error, seen from the end of the increment. -/
def predictRest (N : Numerics) (rotation : Rot3) (localRelative : Pose3) (e : Error) : Error :=
  fun j => match j.1 with
    | .position => (rotation.matrix *ᵥ ((N.expmap (e.segment .rotation)).matrix *ᵥ
        localRelative.translation - localRelative.translation -
        skew (e.segment .rotation) *ᵥ localRelative.translation)) j.2
    | _ => 0

theorem predictRest_isLittleO {N : Numerics} (laws : ExpmapLaws N) (rotation : Rot3)
    (localRelative : Pose3) :
    predictRest N rotation localRelative =o[𝓝 0] fun e => e := by
  have hsegment : Tendsto (fun e : Error => e.segment .rotation) (𝓝 0) (𝓝 0) := by
    have hcont : Continuous fun e : Error => e.segment .rotation := by
      unfold Error.segment
      fun_prop
    exact hcont.tendsto 0
  have hbound : (fun e : Error => e.segment .rotation) =O[𝓝 0] fun e => e := by
    refine IsBigO.of_bound 1 (Eventually.of_forall fun e => ?_)
    rw [one_mul]
    exact (pi_norm_le_iff_of_nonneg (norm_nonneg _)).mpr fun i => norm_le_pi_norm e _
  have hrest := ((laws.deriv localRelative.translation).comp_tendsto hsegment).trans_isBigO hbound
  let turned : Vec3 →L[ℝ] Vec3 := LinearMap.toContinuousLinearMap rotation.matrix.mulVecLin
  have hturned := (turned.isBigO_comp _ _).trans_isLittleO hrest
  refine isLittleO_pi.mpr fun j => ?_
  obtain ⟨b, i⟩ := j
  cases b with
  | rotation => exact isLittleO_zero _ _
  | position =>
    simp only [predictRest, skew_mulVec]
    exact isLittleO_pi.mp hturned i
  | velocity => exact isLittleO_zero _ _

theorem predicted_rotation (N : Numerics) (rotation : Rot3) (localRelative : Pose3) (e : Error) :
    Error.segment (transition rotation localRelative *ᵥ e + predictRest N rotation localRelative e)
      .rotation = localRelative.rotation.matrixᵀ *ᵥ e.segment .rotation := by
  rw [← transition_rotation rotation]
  ext i
  simp [Error.segment, predictRest]

theorem predicted_position (N : Numerics) (rotation : Rot3) (localRelative : Pose3) (e : Error) :
    Error.segment (transition rotation localRelative *ᵥ e + predictRest N rotation localRelative e)
      .position = e.segment .position + rotation.matrix *ᵥ
        ((N.expmap (e.segment .rotation)).matrix *ᵥ localRelative.translation -
          localRelative.translation) := by
  have hrest : Error.segment (predictRest N rotation localRelative e) .position =
      rotation.matrix *ᵥ ((N.expmap (e.segment .rotation)).matrix *ᵥ
        localRelative.translation - localRelative.translation -
        skew (e.segment .rotation) *ᵥ localRelative.translation) := rfl
  have hsplit : Error.segment
        (transition rotation localRelative *ᵥ e + predictRest N rotation localRelative e) .position =
      Error.segment (transition rotation localRelative *ᵥ e) .position +
        Error.segment (predictRest N rotation localRelative e) .position := rfl
  rw [hsplit, hrest, transition_position, skew_mulVec, mulVec_sub _ _ (e.segment .rotation ⨯₃ _),
    ← cross_anticomm (e.segment .rotation), mulVec_neg]
  abel

/-- The rows of rotation and position are right: the transition matrix is the jacobian of
the predicted pose. -/
theorem predict_pose_consistent {N : Numerics} (laws : ExpmapLaws N) (cfg : GlobalEsikfConfig)
    (f : RealtimeGlobalEsikf) (localRelative : Pose3) (dt : ℝ) :
    IsErrorJacobian (fun e g => g.injectError N e) globalPose (predict N cfg localRelative dt) f
      (transition f.globalPose.rotation localRelative).mulVecLin := by
  refine ⟨predictRest N f.globalPose.rotation localRelative,
    predictRest_isLittleO laws _ localRelative, Eventually.of_forall fun (e : Error) => ?_⟩
  ext1
  · show f.globalPose.rotation * N.expmap (e.segment .rotation) * localRelative.rotation =
      f.globalPose.rotation * localRelative.rotation * N.expmap _
    rw [mulVecLin_apply, predicted_rotation, laws.conj]
    group
  · show f.globalPose.translation + e.segment .position +
        (f.globalPose.rotation * N.expmap (e.segment .rotation)).matrix *ᵥ
          localRelative.translation =
      f.globalPose.translation + f.globalPose.rotation.matrix *ᵥ localRelative.translation + _
    rw [mulVecLin_apply, predicted_position, Rot3.matrix_mul, ← mulVec_mulVec, mulVec_sub]
    abel

end

end FastLivo.Esikf
