import FastLivo.Frontend.StatesGroup

/-!
# IMU propagation in exact arithmetic

`ImuKernel` with the arithmetic of `IMU_Processing.cpp`: what `UndistortPcl` and
`Forward_without_imu` do to the state and its covariance.
-/

namespace FastLivo.Frontend

open Lib Esikf Matrix

noncomputable section

/-- Members of `ImuProcess` that the arithmetic reads. -/
structure ImuParams where
  covGyr : Vec3
  covAcc : Vec3
  covBiasGyr : Vec3
  covBiasAcc : Vec3
  covInvExpo : ℝ
  baBgEstEn : Bool
  gravityEstEn : Bool
  exposureEstimateEn : Bool
  lidRotToImu : Mat3
  lidOffsetToImu : Vec3
  /-- Storing in a `float`. -/
  toFloat : ℝ → Double

/-- The noise parameters are not negative. -/
structure ImuParams.NonNeg (p : ImuParams) : Prop where
  covGyr : ∀ i, 0 ≤ p.covGyr i
  covAcc : ∀ i, 0 ≤ p.covAcc i
  covBiasGyr : ∀ i, 0 ≤ p.covBiasGyr i
  covBiasAcc : ∀ i, 0 ≤ p.covBiasAcc i
  covInvExpo : 0 ≤ p.covInvExpo

/-- `F_x` of `UndistortPcl`. -/
def undistortF (p : ImuParams) (rImu : Mat3) (accAvr angvelAvr : Vec3) (dt : ℝ) : StateMatrix :=
  let F := setBlock 1 .rot .rot (expVel angvelAvr (-dt))
  let F := if p.baBgEstEn then setBlock F .rot .biasG (-(dt • 1)) else F
  let F := setBlock F .pos .vel (dt • 1)
  let F := setBlock F .vel .rot (-(dt • (rImu * skew accAvr)))
  let F := if p.baBgEstEn then setBlock F .vel .biasA (-(dt • rImu)) else F
  if p.gravityEstEn then setBlock F .vel .gravity (dt • 1) else F

/-- `cov_w` of `UndistortPcl`. -/
def undistortCovW (p : ImuParams) (rImu : Mat3) (dt : ℝ) : StateMatrix :=
  let Q : StateMatrix := if p.exposureEstimateEn then setExpo 0 (p.covInvExpo * dt * dt) else 0
  let Q := setBlock Q .rot .rot (diagonal fun i => p.covGyr i * dt * dt)
  let Q := setBlock Q .vel .vel ((dt * dt) • (rImu * diagonal p.covAcc * rImuᵀ))
  let Q := setBlock Q .biasG .biasG (diagonal fun i => p.covBiasGyr i * dt * dt)
  setBlock Q .biasA .biasA (diagonal fun i => p.covBiasAcc i * dt * dt)

/-- `F_x` of `Forward_without_imu`. -/
def forwardF (biasG : Vec3) (dt : ℝ) : StateMatrix :=
  let F := setBlock 1 .rot .rot (expVel biasG (-dt))
  let F := setBlock F .rot .biasG (dt • 1)
  setBlock F .pos .vel (dt • 1)

/-- `cov_w` of `Forward_without_imu`. -/
def forwardCovW (p : ImuParams) (dt : ℝ) : StateMatrix :=
  let Q := setBlock 0 .biasG .biasG (diagonal fun i => p.covGyr i * dt * dt)
  setBlock Q .vel .vel (diagonal fun i => p.covAcc i * dt * dt)

variable {C : Carrier}

/-- One pass of the propagation loop of `UndistortPcl`. -/
def propagateOnce (p : ImuParams) (meanAcc : Vec3) (head tail : Imu (exactCarrier C)) (dt : Double)
    (st : PropState (exactCarrier C)) : PropState (exactCarrier C) :=
  let dt : ℝ := dt
  let headGyr : Vec3 := head.angularVelocity
  let tailGyr : Vec3 := tail.angularVelocity
  let headAcc : Vec3 := head.linearAcceleration
  let tailAcc : Vec3 := tail.linearAcceleration
  let biasG : Vec3 := st.stateInout.biasG
  let biasA : Vec3 := st.stateInout.biasA
  let gravity : Vec3 := st.stateInout.gravity
  let cov : StateMatrix := st.stateInout.cov
  let rImu : Mat3 := st.rImu
  let velImu : Vec3 := st.velImu
  let posImu : Vec3 := st.posImu
  let angvelAvr := (0.5 : ℝ) • (headGyr + tailGyr) - biasG
  let accAvr := (9.81 / norm3 meanAcc) • ((0.5 : ℝ) • (headAcc + tailAcc)) - biasA
  let F := undistortF p rImu accAvr angvelAvr dt
  let rImu' := rImu * expVel angvelAvr dt
  let accImu := rImu' *ᵥ accAvr + gravity
  { stateInout := { st.stateInout with cov := F * cov * Fᵀ + undistortCovW p rImu dt }
    accImu := accImu
    angvelAvr := angvelAvr
    velImu := velImu + dt • accImu
    posImu := posImu + dt • velImu + (0.5 * dt * dt) • accImu
    rImu := rImu' }

/-- State update of `Forward_without_imu`. -/
def forwardOnce (p : ImuParams) (dt : Double) (s : ExactState C) : ExactState C :=
  let dt : ℝ := dt
  let biasG : Vec3 := s.biasG
  let cov : StateMatrix := s.cov
  let rotEnd : Mat3 := s.rotEnd
  let posEnd : Vec3 := s.posEnd
  let velEnd : Vec3 := s.velEnd
  let F := forwardF biasG dt
  { s with
    cov := F * cov * Fᵀ + forwardCovW p dt
    rotEnd := rotEnd * expVel biasG dt
    posEnd := posEnd + dt • velEnd }

def xyzVec (q : Xyz) : Vec3 := ![(q.x : ℝ), (q.y : ℝ), (q.z : ℝ)]

def ImuParams.store (p : ImuParams) (v : Vec3) : Xyz :=
  ⟨p.toFloat (xCoord v), p.toFloat (yCoord v), p.toFloat (zCoord v)⟩

/-- `P_compensate` of `UndistortPcl`. -/
def undistortCoords (p : ImuParams) (stateEnd : ExactState C) (head : Pose6D (exactCarrier C))
    (dt : Double) (q : Xyz) : Xyz :=
  let dt : ℝ := dt
  let rotEnd : Mat3 := stateEnd.rotEnd
  let posEnd : Vec3 := stateEnd.posEnd
  let rImu : Mat3 := head.rot
  let accImu : Vec3 := head.acc
  let velImu : Vec3 := head.vel
  let posImu : Vec3 := head.pos
  let angvelAvr : Vec3 := head.gyr
  let extRRi := p.lidRotToImuᵀ * rotEndᵀ
  let exrRExtT := p.lidRotToImuᵀ *ᵥ p.lidOffsetToImu
  let rI := rImu * expVel angvelAvr dt
  let tEi := posImu + dt • velImu + (0.5 * dt * dt) • accImu - posEnd
  p.store
    (extRRi *ᵥ (rI *ᵥ (p.lidRotToImu *ᵥ xyzVec q + p.lidOffsetToImu) + tEi) - exrRExtT)

/-- `P_compensate` of `Forward_without_imu`. -/
def forwardCoords (p : ImuParams) (state : ExactState C) (dtJ : Double) (q : Xyz) : Xyz :=
  let dtJ : ℝ := dtJ
  let biasG : Vec3 := state.biasG
  let rotEnd : Mat3 := state.rotEnd
  let velEnd : Vec3 := state.velEnd
  p.store (expVel biasG (-dtJ) *ᵥ xyzVec q + -(dtJ • (rotEndᵀ *ᵥ velEnd)))

/-- The kernel of the IMU processing in exact arithmetic. -/
def exactKernel (p : ImuParams) : ImuKernel (exactCarrier C) where
  meanAcc0 := (![0, 0, -1] : Vec3)
  norm v := norm3 v
  meanStep (mean cur : Vec3) n := mean + (n : ℝ)⁻¹ • (cur - mean)
  gravityOf (mean : Vec3) := (9.81 / norm3 mean) • -mean
  propagate meanAcc head tail dt st := propagateOnce p meanAcc head tail dt st
  undistort := undistortCoords p
  forward := forwardOnce p
  forwardPoint := forwardCoords p
  transform (t : Pose3) (v : Vec3) := t.rotation.matrix *ᵥ v + t.translation
  rotate (t : Pose3) (v : Vec3) := t.rotation.matrix *ᵥ v
  rotateCov (t : Pose3) (A : Mat3) := t.rotation.matrix * A * t.rotation.matrixᵀ
  extrapolate (x v : Vec3) dt := x + (dt : ℝ) • v
  addDiagonal (A : Mat3) var := A + (var : ℝ) • (1 : Mat3)

end

end FastLivo.Frontend
