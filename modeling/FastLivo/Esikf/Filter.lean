import FastLivo.Esikf.Pose
import FastLivo.Lib.TimedQueue
import FastLivo.Lib.Kalman
import FastLivo.Time

/-!
# `RealtimeGlobalEsikf`

The error-state filter that anchors the local odometry to the RTK frame. Stamps are the
exact values of the doubles; the state is computed over the reals. `gtsam` and `Eigen`
give the exponential and logarithm of SO(3) and the factorisation of the innovation
covariance.
-/

namespace FastLivo.Esikf

open Lib Matrix

noncomputable section

/-! ## Types -/

/-- `GlobalRtkObservation`. -/
structure GlobalRtkObservation where
  stamp : Double := 0
  position : Vec3 := 0
  positionVariance : Vec3 := 1
  velocity : Vec3 := 0
  velocityVariance : Vec3 := 1
  heading : ℝ := 0
  headingVariance : ℝ := 1
  velocityValid : Bool := false
  headingValid : Bool := false
  /-- Ghost: number of the observation among the queued ones. -/
  seq : ℕ := 0

/-- `GlobalEsikfConfig`. -/
structure GlobalEsikfConfig where
  enabled : Bool := true
  syncTolerance : Double := 1 / 10
  rotationProcessVariance : ℝ := 2.5e-5
  positionProcessVariance : ℝ := 2.5e-3
  velocityProcessVariance : ℝ := 2.5e-2
  positionNisGate : ℝ := 16.27
  velocityNisGate : ℝ := 16.27
  headingNisGate : ℝ := 9
  headingOffset : ℝ := 0
  imuToAntenna : Vec3 := 0

/-- The three parts of the error `[dtheta, dp, dv]`. -/
inductive ErrorBlock
  | rotation
  | position
  | velocity
  deriving DecidableEq

instance : Fintype ErrorBlock := ⟨{.rotation, .position, .velocity}, fun b => by cases b <;> decide⟩

abbrev ErrorIndex := ErrorBlock × Fin 3

/-- `Eigen::Matrix<double, 9, 1>`. -/
abbrev Error := ErrorIndex → ℝ

/-- `error.segment<3>`. -/
def Error.segment (error : Error) (b : ErrorBlock) : Vec3 := fun i => error (b, i)

/-- `Matrix9d`. -/
abbrev Matrix9d := Matrix ErrorIndex ErrorIndex ℝ

/-- Assignment to `matrix.block<3, 3>`. -/
def setBlock (matrix : Matrix9d) (row col : ErrorBlock) (block : Mat3) : Matrix9d :=
  of fun i j => if i.1 = row ∧ j.1 = col then block i.2 j.2 else matrix i j

/-- A jacobian of three rows from its blocks. -/
def rowBlocks (rotation position velocity : Mat3) : Matrix (Fin 3) ErrorIndex ℝ :=
  of fun i j => match j.1 with
    | .rotation => rotation i j.2
    | .position => position i j.2
    | .velocity => velocity i j.2

/-- A diagonal matrix from the diagonals of its blocks. -/
def diagonalBlocks (rotation position velocity : Vec3) : Matrix9d :=
  diagonal fun i => match i.1 with
    | .rotation => rotation i.2
    | .position => position i.2
    | .velocity => velocity i.2

/-- The library functions the filter calls, with what it relies on. -/
structure Numerics where
  /-- `gtsam::Rot3::Expmap`. -/
  expmap : Vec3 → Rot3
  /-- `gtsam::Rot3::Logmap`. -/
  logmap : Rot3 → Vec3
  /-- `Eigen::LDLT`: its `solve` when `info()` is `Success`. -/
  ldlt : ∀ {n : ℕ}, Matrix (Fin n) (Fin n) ℝ → Option ((Fin n → ℝ) → Fin n → ℝ)
  expmap_zero : expmap 0 = 1
  ldlt_solve : ∀ {n : ℕ} {S : Matrix (Fin n) (Fin n) ℝ} {solve : (Fin n → ℝ) → Fin n → ℝ},
    S.PosDef → ldlt S = some solve → ∀ b, S *ᵥ solve b = b

/-- Members of `RealtimeGlobalEsikf`. -/
structure RealtimeGlobalEsikf where
  rtkQueue : List GlobalRtkObservation := []
  lastLocalPose : Pose3 := 1
  globalPose : Pose3 := 1
  velocity : Vec3 := 0
  angularVelocityBody : Vec3 := 0
  covariance : Matrix9d := 1
  lastLivoStamp : Double := 0
  haveLivo : Bool := false
  globallyInitialized : Bool := false
  /-- Ghost: observations queued so far. -/
  rtkSeq : ℕ := 0

namespace RealtimeGlobalEsikf

/-- `configure`, on a filter just constructed. -/
def configured : RealtimeGlobalEsikf where
  covariance := diagonalBlocks ![0.25, 0.25, 1] ![100, 100, 100] ![4, 4, 4]

/-- `pushRtk`; `stamp` is the stamp of the observation, `none` when it is not finite. -/
def pushRtk (stamp : Option Double) (observation : GlobalRtkObservation)
    (f : RealtimeGlobalEsikf) : RealtimeGlobalEsikf :=
  match stamp with
  | none => f
  | some stamp =>
    let queue := insertSorted GlobalRtkObservation.stamp
      { observation with stamp := stamp, seq := f.rtkSeq } f.rtkQueue
    { f with rtkQueue := queue.drop (queue.length - 2000), rtkSeq := f.rtkSeq + 1 }

/-! ## Propagation -/

/-- `transition` of `predict`. -/
def transition (oldRotation : Rot3) (localRelative : Pose3) : Matrix9d :=
  setBlock (setBlock 1 .rotation .rotation localRelative.rotation.matrixᵀ) .position .rotation
    (-(oldRotation.matrix * skew localRelative.translation))

/-- `process_noise` of `predict`. -/
def processNoise (cfg : GlobalEsikfConfig) (dt : ℝ) : Matrix9d :=
  diagonalBlocks (fun _ => cfg.rotationProcessVariance * dt)
    (fun _ => cfg.positionProcessVariance * dt) (fun _ => cfg.velocityProcessVariance * dt)

/-- `predict`. -/
def predict (N : Numerics) (cfg : GlobalEsikfConfig) (localRelative : Pose3) (dt : ℝ)
    (f : RealtimeGlobalEsikf) : RealtimeGlobalEsikf :=
  let globalPose := f.globalPose.compose localRelative
  let F := transition f.globalPose.rotation localRelative
  { f with
    angularVelocityBody := dt⁻¹ • N.logmap localRelative.rotation
    globalPose := globalPose
    velocity := dt⁻¹ • (globalPose.translation - f.globalPose.translation)
    covariance := symmetrize (F * f.covariance * Fᵀ + processNoise cfg dt) }

/-- Head of `processLivo`: the reference is set, moved, or moved with a prediction. -/
def advance (N : Numerics) (cfg : GlobalEsikfConfig) (stamp : Double) (localPose : Pose3)
    (f : RealtimeGlobalEsikf) : RealtimeGlobalEsikf :=
  if !f.haveLivo then
    { f with
      lastLocalPose := localPose, globalPose := localPose, lastLivoStamp := stamp, haveLivo := true }
  else
    let dt := stamp - f.lastLivoStamp
    if dt ≤ 0 ∨ 1 < dt then { f with lastLocalPose := localPose, lastLivoStamp := stamp }
    else
      { f.predict N cfg (f.lastLocalPose.between localPose) dt with
        lastLocalPose := localPose, lastLivoStamp := stamp }

/-! ## Updates -/

/-- `initializeFromRtk`. -/
def initializeFromRtk (cfg : GlobalEsikfConfig) (observation : GlobalRtkObservation)
    (localPose : Pose3) (f : RealtimeGlobalEsikf) : RealtimeGlobalEsikf :=
  let rotation :=
    if observation.headingValid then
      replaceYaw localPose.rotation (wrapAngle (observation.heading + cfg.headingOffset))
    else localPose.rotation
  { f with
    globalPose := ⟨rotation, observation.position - rotation.matrix *ᵥ cfg.imuToAntenna⟩
    velocity :=
      if observation.velocityValid then
        observation.velocity - rotation.matrix *ᵥ (f.angularVelocityBody ⨯₃ cfg.imuToAntenna)
      else 0
    covariance := diagonalBlocks
      (fun _ => if observation.headingValid then observation.headingVariance else 1)
      observation.positionVariance
      (if observation.velocityValid then observation.velocityVariance else fun _ => 4)
    globallyInitialized := true }

/-- `injectError`. -/
def injectError (N : Numerics) (error : Error) (f : RealtimeGlobalEsikf) : RealtimeGlobalEsikf :=
  { f with
    globalPose := ⟨f.globalPose.rotation * N.expmap (error.segment .rotation),
      f.globalPose.translation + error.segment .position⟩
    velocity := f.velocity + error.segment .velocity }

/-- `kalmanUpdate`; a real `nis` is finite. -/
def kalmanUpdate (N : Numerics) {n : ℕ} (innovation : Fin n → ℝ)
    (jacobian : Matrix (Fin n) ErrorIndex ℝ) (measurementCovariance : Matrix (Fin n) (Fin n) ℝ)
    (nisGate : ℝ) (f : RealtimeGlobalEsikf) : Bool × RealtimeGlobalEsikf :=
  match N.ldlt (innovationCov f.covariance jacobian measurementCovariance) with
  | none => (false, f)
  | some solve =>
    if nisGate < innovation ⬝ᵥ solve innovation then (false, f)
    else
      let gain := f.covariance * jacobianᵀ * of fun i j => solve (Pi.single j 1) i
      (true,
        { f.injectError N (gain *ᵥ innovation) with
          covariance := symmetrize (joseph f.covariance jacobian measurementCovariance gain) })

/-- `updatePosition`. -/
def updatePosition (N : Numerics) (cfg : GlobalEsikfConfig) (observation : GlobalRtkObservation)
    (f : RealtimeGlobalEsikf) : Bool × RealtimeGlobalEsikf :=
  let rotation := f.globalPose.rotation.matrix
  let predicted := f.globalPose.translation + rotation *ᵥ cfg.imuToAntenna
  f.kalmanUpdate N (observation.position - predicted)
    (rowBlocks (-(rotation * skew cfg.imuToAntenna)) 1 0)
    (diagonal observation.positionVariance) cfg.positionNisGate

/-- `updateVelocity`. -/
def updateVelocity (N : Numerics) (cfg : GlobalEsikfConfig) (observation : GlobalRtkObservation)
    (f : RealtimeGlobalEsikf) : Bool × RealtimeGlobalEsikf :=
  let rotation := f.globalPose.rotation.matrix
  let leverVelocityBody := f.angularVelocityBody ⨯₃ cfg.imuToAntenna
  let predicted := f.velocity + rotation *ᵥ leverVelocityBody
  f.kalmanUpdate N (observation.velocity - predicted)
    (rowBlocks (-(rotation * skew leverVelocityBody)) 0 1)
    (diagonal observation.velocityVariance) cfg.velocityNisGate

/-- Row of `updateHeading` on the rotation error, by differences. -/
def headingJacobian (N : Numerics) (rotation : Rot3) : Matrix (Fin 1) ErrorIndex ℝ :=
  of fun _ j => match j.1 with
    | .rotation =>
      wrapAngle (yawOf (rotation * N.expmap (Pi.single j.2 1e-6)) - yawOf rotation) / 1e-6
    | .position => 0
    | .velocity => 0

/-- `updateHeading`. -/
def updateHeading (N : Numerics) (cfg : GlobalEsikfConfig) (observation : GlobalRtkObservation)
    (f : RealtimeGlobalEsikf) : Bool × RealtimeGlobalEsikf :=
  let rotation := f.globalPose.rotation
  f.kalmanUpdate N
    (fun _ => wrapAngle (observation.heading + cfg.headingOffset - yawOf rotation))
    (headingJacobian N rotation) (diagonal fun _ => max 1e-6 observation.headingVariance)
    cfg.headingNisGate

/-- The innovation of `updatePosition`. -/
def positionInnovation (cfg : GlobalEsikfConfig) (observation : GlobalRtkObservation)
    (f : RealtimeGlobalEsikf) : Vec3 :=
  let rotation := f.globalPose.rotation.matrix
  let predicted := f.globalPose.translation + rotation *ᵥ cfg.imuToAntenna
  observation.position - predicted

/-- The innovation of `updateVelocity`. -/
def velocityInnovation (cfg : GlobalEsikfConfig) (observation : GlobalRtkObservation)
    (f : RealtimeGlobalEsikf) : Vec3 :=
  let rotation := f.globalPose.rotation.matrix
  let leverVelocityBody := f.angularVelocityBody ⨯₃ cfg.imuToAntenna
  let predicted := f.velocity + rotation *ᵥ leverVelocityBody
  observation.velocity - predicted

/-- The innovation of `updateHeading`. -/
def headingInnovation (cfg : GlobalEsikfConfig) (observation : GlobalRtkObservation)
    (f : RealtimeGlobalEsikf) : ℝ :=
  wrapAngle (observation.heading + cfg.headingOffset - yawOf f.globalPose.rotation)

/-- Ghost: one update that a frame tried. -/
structure Update where
  before : RealtimeGlobalEsikf
  after : RealtimeGlobalEsikf
  accepted : Bool

/-- An update that runs only when its field is valid. -/
def updateIf (valid : Bool) (update : RealtimeGlobalEsikf → Bool × RealtimeGlobalEsikf)
    (f : RealtimeGlobalEsikf) : Bool × RealtimeGlobalEsikf × List Update :=
  if valid then
    let (used, g) := update f
    (used, g, [⟨f, g, used⟩])
  else (false, f, [])

/-- The three updates of `processLivo`: `rtk_updated` and the filter. -/
def updateFromRtk (N : Numerics) (cfg : GlobalEsikfConfig) (observation : GlobalRtkObservation)
    (f : RealtimeGlobalEsikf) : Bool × RealtimeGlobalEsikf × List Update :=
  let (positionUsed, f, us) := updateIf true (updatePosition N cfg observation) f
  let (velocityUsed, f, vs) :=
    updateIf observation.velocityValid (updateVelocity N cfg observation) f
  let (headingUsed, f, ws) := updateIf observation.headingValid (updateHeading N cfg observation) f
  (positionUsed || velocityUsed || headingUsed, f, us ++ vs ++ ws)

/-! ## Frames -/

/-- The result of `processLivo`, its output parameters, and what the frame did. -/
structure LivoResult where
  returned : Bool := false
  rtkUpdated : Bool := false
  /-- `global_pose`, `global_velocity` and `covariance`, when they are written. -/
  snapshot : Option (Pose3 × Vec3 × Matrix9d) := none
  /-- Ghost: the observation consumed. -/
  consumed : Option GlobalRtkObservation := none
  /-- Ghost: the updates tried. -/
  updates : List Update := []

/-- The use of the observation consumed. -/
def applyRtk (N : Numerics) (cfg : GlobalEsikfConfig) (localPose : Pose3)
    (observation : GlobalRtkObservation) (f : RealtimeGlobalEsikf) :
    Bool × RealtimeGlobalEsikf × List Update :=
  if f.globallyInitialized then f.updateFromRtk N cfg observation
  else (false, f.initializeFromRtk cfg observation localPose, [])

/-- `processLivo`; `stamp` is `none` when it is not finite. -/
def processLivo (N : Numerics) (cfg : GlobalEsikfConfig) (stamp : Option Double)
    (localPose : Pose3) (f : RealtimeGlobalEsikf) : LivoResult × RealtimeGlobalEsikf :=
  match stamp with
  | none => ({}, f)
  | some stamp =>
    if !cfg.enabled then ({}, f)
    else
      let f := f.advance N cfg stamp localPose
      let (best, queue) :=
        takeNearest GlobalRtkObservation.stamp stamp cfg.syncTolerance f.rtkQueue
      let f := { f with rtkQueue := queue }
      let (rtkUpdated, f, updates) := match best with
        | none => (false, f, [])
        | some observation => f.applyRtk N cfg localPose observation
      ({ returned := f.globallyInitialized
         rtkUpdated := rtkUpdated
         snapshot := some (f.globalPose, f.velocity, f.covariance)
         consumed := best
         updates := updates }, f)

end RealtimeGlobalEsikf

end

end FastLivo.Esikf
