import FastLivo.Backend.Lockstep
import FastLivo.Esikf.Numerics
import FastLivo.Lib.Geodesic

/-!
# Smoothing of the map correction

The correction published with every odometry message follows the one of the last keyframe along
the one-parameter subgroup between them. While the target stays, the logarithm of what is left
shrinks by the same factor with every message.
-/

namespace FastLivo.Backend

open Lib Esikf Frontend Matrix

noncomputable section

/-- `gtsam::Vector6`: rotation and translation. -/
abbrev Vector6 := Vec3 × Vec3

/-- `gtsam::Pose3::Expmap` and `gtsam::Pose3::Logmap`. -/
abbrev PoseMaps := ExpLog Pose3 Vector6

/-- `correction_smoothing_alpha_` from its parameter. -/
def correctionSmoothingAlpha (param : ℝ) : ℝ := max 0.001 (min param 1.0)

theorem correctionSmoothingAlpha_mem (param : ℝ) :
    correctionSmoothingAlpha param ∈ Set.Ioc 0 1 := by
  unfold correctionSmoothingAlpha
  constructor
  · exact lt_max_of_lt_left (by norm_num)
  · exact max_le (by norm_num) ((min_le_right _ _).trans (by norm_num))

variable {cfg : BackendConfig} {G : Geodesy}

/-- `smoothCorrectionStep`, with the correction it returns. -/
def smoothCorrectionStep (M : PoseMaps) (alpha : ℝ) (b : Optimization cfg G) :
    Optimization cfg G × Pose3 :=
  if !b.correctionInitialized then (b, 1)
  else
    let delta := b.smoothedMapToOdom.between b.targetMapToOdom
    let scaledDelta := alpha • M.log delta
    let smoothed := b.smoothedMapToOdom.compose (M.exp scaledDelta)
    ({ b with smoothedMapToOdom := smoothed }, smoothed)

/-- What is left between the correction and its target. -/
def Optimization.correctionRest (b : Optimization cfg G) : Pose3 :=
  b.smoothedMapToOdom.between b.targetMapToOdom

/-! ## Schedules -/

/-- A keyframe that sets the target, or a message that takes a step. -/
inductive CorrectionEvent
  | update (latestLocalPose latestGlobalPose : Pose3)
  | smooth

def CorrectionEvent.isSmooth : CorrectionEvent → Bool
  | .update _ _ => false
  | .smooth => true

/-- A keyframe does not move the target. -/
def CorrectionEvent.Keeps (target : Pose3) : CorrectionEvent → Prop
  | .update latestLocalPose latestGlobalPose =>
    latestGlobalPose.compose latestLocalPose.inverse = target
  | .smooth => True

def correctionEvent (M : PoseMaps) (alpha : ℝ) (b : Optimization cfg G) :
    CorrectionEvent → Optimization cfg G
  | .update latestLocalPose latestGlobalPose =>
    updateGlobalCorrection latestLocalPose latestGlobalPose b
  | .smooth => (smoothCorrectionStep M alpha b).1

/-- The events in order. -/
def runCorrection (M : PoseMaps) (alpha : ℝ) (b : Optimization cfg G)
    (events : List CorrectionEvent) : Optimization cfg G :=
  events.foldl (correctionEvent M alpha) b

/-! ## Steps -/

section Step

variable {M : PoseMaps} {alpha : ℝ} {b : Optimization cfg G} (hinit : b.correctionInitialized = true)
include hinit

theorem smoothCorrectionStep_eq :
    smoothCorrectionStep M alpha b =
      ({ b with smoothedMapToOdom := M.toward alpha b.smoothedMapToOdom b.targetMapToOdom },
        M.toward alpha b.smoothedMapToOdom b.targetMapToOdom) := by
  rw [smoothCorrectionStep, if_neg (by rw [hinit]; exact Bool.false_ne_true)]
  rfl

/-- A keyframe that keeps the target changes nothing. -/
theorem updateGlobalCorrection_keeps {latestLocalPose latestGlobalPose : Pose3}
    (hkeep : latestGlobalPose.compose latestLocalPose.inverse = b.targetMapToOdom) :
    updateGlobalCorrection latestLocalPose latestGlobalPose b = b := by
  simp only [updateGlobalCorrection, hkeep, if_pos hinit]
  rw [← hinit]

/-- What a step leaves. -/
theorem correctionRest_smooth (hlaw : M.OneParameter b.correctionRest) (h0 : 0 ≤ alpha)
    (h1 : alpha ≤ 1) :
    M.log (smoothCorrectionStep M alpha b).1.correctionRest =
        (1 - alpha) • M.log b.correctionRest ∧
      M.OneParameter (smoothCorrectionStep M alpha b).1.correctionRest := by
  rw [smoothCorrectionStep_eq hinit]
  exact ⟨ExpLog.log_toward hlaw h0 h1, ExpLog.oneParameter_toward hlaw h0 h1⟩

end Step

/-- A run that keeps the target. -/
theorem correctionRest_run {M : PoseMaps} {alpha : ℝ} (h0 : 0 ≤ alpha) (h1 : alpha ≤ 1)
    (events : List CorrectionEvent) {b : Optimization cfg G}
    (hinit : b.correctionInitialized = true) (hlaw : M.OneParameter b.correctionRest)
    (hkeep : ∀ e ∈ events, e.Keeps b.targetMapToOdom) :
    M.log (runCorrection M alpha b events).correctionRest =
      (1 - alpha) ^ events.countP CorrectionEvent.isSmooth • M.log b.correctionRest := by
  induction events generalizing b with
  | nil => exact (one_smul ℝ _).symm
  | cons e events ih =>
    obtain ⟨he, hevents⟩ := List.forall_mem_cons.mp hkeep
    cases e with
    | update latestLocalPose latestGlobalPose =>
      have hsame : runCorrection M alpha b (.update latestLocalPose latestGlobalPose :: events) =
          runCorrection M alpha b events :=
        congrArg (runCorrection M alpha · events) (updateGlobalCorrection_keeps hinit he)
      rw [hsame, ih hinit hlaw hevents]
      rfl
    | smooth =>
      obtain ⟨hstep, hpart⟩ := correctionRest_smooth hinit hlaw h0 h1
      have htarget : (smoothCorrectionStep M alpha b).1.targetMapToOdom = b.targetMapToOdom := by
        rw [smoothCorrectionStep_eq hinit]
      have hinit' : (smoothCorrectionStep M alpha b).1.correctionInitialized = true := by
        rw [smoothCorrectionStep_eq hinit]
        exact hinit
      calc M.log (runCorrection M alpha b (.smooth :: events)).correctionRest
          = (1 - alpha) ^ events.countP CorrectionEvent.isSmooth •
              M.log (smoothCorrectionStep M alpha b).1.correctionRest :=
            ih hinit' hpart fun e he => htarget ▸ hevents e he
        _ = (1 - alpha) ^ (events.countP CorrectionEvent.isSmooth + 1) •
              M.log b.correctionRest := by
            rw [hstep, smul_smul, ← pow_succ]
        _ = (1 - alpha) ^ (CorrectionEvent.smooth :: events).countP CorrectionEvent.isSmooth •
              M.log b.correctionRest := by
            rw [List.countP_cons_of_pos rfl]

/-- While the target stays, `n` steps scale the logarithm of what is left by the `n`-th power;
a correction at its target stays; the first target is taken at once. -/
theorem correction_converges (M : PoseMaps) {alpha : ℝ} (halpha : alpha ∈ Set.Ioc 0 1)
    (b : Optimization cfg G) (hlaw : M.OneParameter b.correctionRest) :
    (b.correctionInitialized = true →
      M.log (smoothCorrectionStep M alpha b).1.correctionRest =
          (1 - alpha) • M.log b.correctionRest ∧
        ∀ events : List CorrectionEvent, (∀ e ∈ events, e.Keeps b.targetMapToOdom) →
          M.log (runCorrection M alpha b events).correctionRest =
            (1 - alpha) ^ events.countP CorrectionEvent.isSmooth • M.log b.correctionRest) ∧
      (b.correctionInitialized = true → b.smoothedMapToOdom = b.targetMapToOdom →
        smoothCorrectionStep M alpha b = (b, b.targetMapToOdom)) ∧
      (b.correctionInitialized = false → ∀ latestLocalPose latestGlobalPose : Pose3,
        (updateGlobalCorrection latestLocalPose latestGlobalPose b).smoothedMapToOdom =
            latestGlobalPose.compose latestLocalPose.inverse ∧
          (updateGlobalCorrection latestLocalPose latestGlobalPose b).correctionRest = 1) := by
  have h0 : 0 ≤ alpha := halpha.1.le
  refine ⟨fun hinit => ⟨(correctionRest_smooth hinit hlaw h0 halpha.2).1,
    fun events hkeep => correctionRest_run h0 halpha.2 events hinit hlaw hkeep⟩,
    fun hinit hequal => ?_, fun hinit latestLocalPose latestGlobalPose => ?_⟩
  · have hone : b.correctionRest = 1 := by
      rw [Optimization.correctionRest, hequal]
      exact inv_mul_cancel _
    rw [hone] at hlaw
    have hstays : M.toward alpha b.smoothedMapToOdom b.targetMapToOdom = b.smoothedMapToOdom := by
      rw [← hequal, ExpLog.toward_self hlaw]
    rw [smoothCorrectionStep_eq hinit, hstays]
    exact Prod.ext rfl hequal
  · have hfirst : (updateGlobalCorrection latestLocalPose latestGlobalPose b).smoothedMapToOdom =
        latestGlobalPose.compose latestLocalPose.inverse := by
      unfold updateGlobalCorrection
      exact if_neg (by rw [hinit]; exact Bool.false_ne_true)
    refine ⟨hfirst, ?_⟩
    rw [Optimization.correctionRest, hfirst]
    exact inv_mul_cancel _

/-! ## The maps of SE(3) -/

/-- The left jacobian of SO(3), which carries the translation along. -/
def leftJacobian (omega : Vec3) : Mat3 :=
  let theta := norm3 omega
  1 + ((1 - Real.cos theta) / theta ^ 2) • skew omega +
    ((theta - Real.sin theta) / theta ^ 3) • (skew omega * skew omega)

/-- The maps in exact arithmetic, `log` for rotations by less than a half turn. -/
def PoseMaps.exact : PoseMaps where
  exp xi := ⟨expSkew xi.1, leftJacobian xi.1 *ᵥ xi.2⟩
  log pose :=
    let omega := logSkew pose.rotation
    (omega, (leftJacobian omega)⁻¹ *ᵥ pose.translation)

theorem leftJacobian_zero : leftJacobian 0 = 1 := by
  have hskew : skew 0 = 0 := by
    ext i j
    fin_cases i <;> fin_cases j <;> simp [skew]
  simp only [leftJacobian, hskew, smul_zero, Matrix.mul_zero, add_zero]

theorem logSkew_one : logSkew 1 = 0 := by
  have hskew : skewPart (1 : Mat3) = 0 := by
    ext i
    fin_cases i <;> simp [skewPart]
  simp only [logSkew, Rot3.matrix_one, hskew, smul_zero]

theorem log_translation (t : Vec3) : PoseMaps.exact.log ⟨1, t⟩ = (0, t) := by
  simp only [PoseMaps.exact, logSkew_one, leftJacobian_zero, inv_one, one_mulVec]

theorem exp_translation (t : Vec3) : PoseMaps.exact.exp (0, t) = ⟨1, t⟩ := by
  simp only [PoseMaps.exact, expSkew_zero, leftJacobian_zero, one_mulVec]

/-- Translations lie on straight lines. -/
theorem oneParameter_translation (t : Vec3) : PoseMaps.exact.OneParameter ⟨1, t⟩ := by
  have hline (s : ℝ) : s • PoseMaps.exact.log ⟨1, t⟩ = (0, s • t) := by
    rw [log_translation, Prod.smul_mk, smul_zero]
  refine ⟨?_, fun a b => ?_, fun a _ _ => ?_⟩
  · rw [log_translation, exp_translation]
  · rw [hline, hline, hline, exp_translation, exp_translation, exp_translation, add_smul]
    ext1
    · exact (mul_one _).symm
    · rw [Pose3.mul_translation, Rot3.matrix_one, one_mulVec]
  · rw [hline, exp_translation, log_translation]

/-- A correction one metre below its target. -/
def metreBehind : Optimization {} .flat :=
  { Optimization.start {} () with
    targetMapToOdom := ⟨1, Pi.single (Fin.last 2) 1⟩
    correctionInitialized := true }

theorem correctionRest_metreBehind : metreBehind.correctionRest = ⟨1, Pi.single (Fin.last 2) 1⟩ := by
  show (1 : Pose3)⁻¹ * _ = _
  rw [inv_one, one_mul]
  rfl

theorem correction_converges_metreBehind :
    PoseMaps.exact.log (runCorrection .exact 0.05 metreBehind
        [.smooth, .update 1 ⟨1, Pi.single (Fin.last 2) 1⟩, .smooth]).correctionRest =
      ((1 - 0.05) ^ 2 : ℝ) • PoseMaps.exact.log metreBehind.correctionRest := by
  have hlaw : PoseMaps.exact.OneParameter metreBehind.correctionRest := by
    rw [correctionRest_metreBehind]
    exact oneParameter_translation _
  have htarget : (⟨1, Pi.single (Fin.last 2) 1⟩ : Pose3) * 1⁻¹ = ⟨1, Pi.single (Fin.last 2) 1⟩ := by
    rw [inv_one, mul_one]
  exact ((correction_converges .exact ⟨by norm_num, by norm_num⟩ metreBehind hlaw).1 rfl).2 _
    (List.forall_mem_cons.mpr ⟨trivial, List.forall_mem_cons.mpr
      ⟨htarget, List.forall_mem_cons.mpr ⟨trivial, List.forall_mem_nil _⟩⟩⟩)

end

end FastLivo.Backend
