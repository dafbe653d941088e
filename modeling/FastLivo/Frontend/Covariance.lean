import FastLivo.Frontend.Prediction
import FastLivo.Frontend.Posterior
import FastLivo.Frontend.VioPosterior
import FastLivo.Lib.Run

/-!
# The covariance over whole runs

Propagations, LiDAR updates and photometric updates in any order. Each is written in its
own way; each keeps the covariance positive definite.
-/

namespace FastLivo.Frontend

open Lib Esikf Matrix

noncomputable section

/-- The estimator of the mapper: `_state`, `state_propagat` and the managers. -/
structure Odometry (C : Carrier) where
  state : ExactState C
  statePropagat : ExactState C
  imu : ImuProcess (exactCarrier C)
  voxelmapManager : VoxelMapManager C
  vioManager : VIOManager C

/-- Parameters of the estimator. -/
structure OdometrySetup where
  imuCfg : ImuConfig
  imu : ImuParams
  lio : LioConfig
  vio : VioConfig

/-- The noise is noise, and every update iterates. -/
structure OdometrySetup.Admissible (S : OdometrySetup) : Prop where
  imu : S.imu.NonNeg
  lioIterations : 1 ≤ S.lio.maxIterations
  vioIterations : 1 ≤ S.vio.maxIterations
  vioLevels : 1 ≤ S.vio.patchPyrimidLevel
  imgPointCov : 0 < S.vio.imgPointCov

/-- What the estimator is asked to do. -/
inductive OdometryEvent (C : Carrier)
  | undistortPcl (lidarMeas : LidarMeasureGroup (exactCarrier C))
      (meas : MeasureGroup (exactCarrier C))
  | forwardWithoutImu (meas : LidarMeasureGroup (exactCarrier C))
  /-- Either of them, or the initialisation. -/
  | process2 (tGToW : Pose3) (lidarMeas : LidarMeasureGroup (exactCarrier C))
      (curPclUn : List PointType)
  | stateEstimation (kernel : LioKernel) (featsDownBody : List PointType) (rtkGood : Bool)
      (rtk : RTK (exactCarrier C))
  | computeJacobianAndUpdateEKF (frame : VioFrame C)

variable {C : Carrier}

/-- The state after a propagation, also as `state_propagat`. -/
def Odometry.propagated (o : Odometry C) (state : ExactState C)
    (imu : ImuProcess (exactCarrier C)) : Odometry C :=
  { o with state := state, statePropagat := state, imu := imu }

/-- A call of `StateEstimation` with its manager. -/
def OdometrySetup.runLio (S : OdometrySetup) (o : Odometry C) (kernel : LioKernel)
    (featsDownBody : List PointType) (rtkGood : Bool) (rtk : RTK (exactCarrier C)) :
    VoxelMapManager C × List (LioPass C) :=
  stateEstimation ⟨S.lio, kernel, o.statePropagat, rtkGood, rtk⟩
    { o.voxelmapManager with state := o.state, featsDownBody := featsDownBody }

/-- A call of `computeJacobianAndUpdateEKF` on `_state`, with a trace of its own. -/
def OdometrySetup.runVio (S : OdometrySetup) (o : Odometry C) (frame : VioFrame C) :
    VIOManager C :=
  computeJacobianAndUpdateEKF S.vio frame o.statePropagat
    { o.vioManager with state := o.state, passes := [] }

/-- A step of the estimator; `none` when a propagation is undefined. -/
def OdometrySetup.step (S : OdometrySetup) (o : Odometry C) : OdometryEvent C → Option (Odometry C)
  | .undistortPcl lidarMeas meas =>
    let r := undistortPcl (exactKernel S.imu) lidarMeas meas o.state o.imu
    some (o.propagated r.2.2.1 r.1)
  | .forwardWithoutImu meas =>
    (forwardWithoutImu S.imuCfg (exactKernel S.imu) meas o.state o.imu).map
      fun r => o.propagated r.2.2.1 r.1
  | .process2 tGToW lidarMeas curPclUn =>
    (process2 S.imuCfg (exactKernel S.imu) tGToW lidarMeas o.state curPclUn o.imu).map
      fun r => o.propagated r.2.2.1 r.1
  | .stateEstimation kernel featsDownBody rtkGood rtk =>
    let m := (S.runLio o kernel featsDownBody rtkGood rtk).1
    some { o with state := m.state, voxelmapManager := m }
  | .computeJacobianAndUpdateEKF frame =>
    let m := S.runVio o frame
    some { o with state := m.state, vioManager := m }

/-- Every inverse an update would take in this state exists. -/
structure InversesExist (S : OdometrySetup) (o : Odometry C) : Prop where
  lio : ∀ kernel feats rtkGood rtk, ∀ q ∈ (S.runLio o kernel feats rtkGood rtk).2,
    IsUnit (covOf q.state) ∧ IsUnit (pad poseIndex (hTH q.rows) + (covOf q.state)⁻¹)
  vio : ∀ frame, ∀ q ∈ (S.runVio o frame).passes,
    IsUnit (S.vio.imgPointCov⁻¹ • covOf q.state) ∧
      IsUnit (informationAt S.vio frame q + (S.vio.imgPointCov⁻¹ • covOf q.state)⁻¹)

variable {S : OdometrySetup} {o t : Odometry C}

theorem runLio_posDef (hS : S.Admissible) (h : (covOf o.state).PosDef) (kernel : LioKernel)
    (feats : List PointType) (rtkGood : Bool) (rtk : RTK (exactCarrier C)) :
    (covOf (S.runLio o kernel feats rtkGood rtk).1.state).PosDef := by
  obtain ⟨init, last, -, htrace⟩ := stateEstimation_trace
    ⟨S.lio, kernel, o.statePropagat, rtkGood, rtk⟩
    { o.voxelmapManager with state := o.state, featsDownBody := feats } hS.lioIterations h
  have hlast := (htrace.uses last (by simp)).positive
  rw [OdometrySetup.runLio, htrace.cov, ← hlast.pad_hTH]
  exact posterior_posDef h hlast.information

theorem runVio_posDef (hS : S.Admissible) (h : (covOf o.state).PosDef) (frame : VioFrame C) :
    (covOf (S.runVio o frame).state).PosDef := by
  by_cases hpoints : frame.totalPoints = 0
  · rw [OdometrySetup.runVio, computeJacobianAndUpdateEKF, if_pos hpoints]
    exact h
  · obtain ⟨-, q, -, -, hcov⟩ := computeJacobianAndUpdateEKF_cov o.statePropagat hS.vioIterations
      hS.vioLevels hpoints hS.imgPointCov
      (m := { o.vioManager with state := o.state, passes := [] }) ⟨rfl, by simp⟩ h
    rw [OdometrySetup.runVio, hcov]
    exact posterior_posDef h
      ((informationAt_posSemidef q).smul (inv_pos.mpr hS.imgPointCov).le)

/-- Every step keeps the covariance positive definite. -/
theorem step_posDef (hS : S.Admissible) (h : (covOf o.state).PosDef) {e : OdometryEvent C}
    (hstep : S.step o e = some t) : (covOf t.state).PosDef := by
  cases e with
  | undistortPcl lidarMeas meas =>
    cases hstep
    exact undistortPcl_posDef hS.imu lidarMeas meas o.imu h
  | forwardWithoutImu meas =>
    obtain ⟨r, hr, rfl⟩ := Option.map_eq_some_iff.mp hstep
    exact forwardWithoutImu_posDef hS.imu hr h
  | process2 tGToW lidarMeas curPclUn =>
    obtain ⟨r, hr, rfl⟩ := Option.map_eq_some_iff.mp hstep
    exact process2_posDef hS.imu hr h
  | stateEstimation kernel feats rtkGood rtk =>
    cases hstep
    exact runLio_posDef hS h kernel feats rtkGood rtk
  | computeJacobianAndUpdateEKF frame =>
    cases hstep
    exact runVio_posDef hS h frame

theorem inversesExist_of_posDef (hS : S.Admissible) (h : (covOf o.state).PosDef) :
    InversesExist S o where
  lio kernel feats rtkGood rtk q hq := by
    obtain ⟨init, last, hpasses, htrace⟩ := stateEstimation_trace
      ⟨S.lio, kernel, o.statePropagat, rtkGood, rtk⟩
      { o.voxelmapManager with state := o.state, featsDownBody := feats } hS.lioIterations h
    have huses := htrace.uses q (hpasses ▸ hq)
    have hcov : covOf q.state = covOf o.state := huses.cov
    rw [hcov]
    exact ⟨h.isUnit, (information_posDef h huses.positive.information).isUnit⟩
  vio frame q hq := by
    by_cases hpoints : frame.totalPoints = 0
    · rw [OdometrySetup.runVio, computeJacobianAndUpdateEKF, if_pos hpoints] at hq
      cases hq
    · obtain ⟨hpasses, -⟩ := computeJacobianAndUpdateEKF_cov o.statePropagat hS.vioIterations
        hS.vioLevels hpoints hS.imgPointCov
        (m := { o.vioManager with state := o.state, passes := [] }) ⟨rfl, by simp⟩ h
      rw [hpasses q hq]
      have hscaled := h.smul (inv_pos.mpr hS.imgPointCov)
      exact ⟨hscaled.isUnit, (information_posDef hscaled (informationAt_posSemidef q)).isUnit⟩

/-- Over every run from the initial covariance, the covariance is symmetric and positive
definite after every step, and the inverses of the updates exist. -/
theorem cov_posDef (hS : S.Admissible) {init : Odometry C} (hinit : covOf init.state = initCov)
    (h : Reach S.step (fun _ _ => True) init o) :
    (covOf o.state).IsSymm ∧ (covOf o.state).PosDef ∧ InversesExist S o := by
  have hpos : (covOf o.state).PosDef := by
    refine h.invariant (I := fun o => (covOf o.state).PosDef) ?_ ?_
    · rw [hinit]
      exact initCov_posDef
    · intro o t e _ hcov _ hstep
      exact step_posDef hS hcov hstep
  refine ⟨?_, hpos, inversesExist_of_posDef hS hpos⟩
  have hherm := hpos.isHermitian
  rwa [IsHermitian, conjTranspose_eq_transpose_of_trivial] at hherm

/-! ## A run -/

def OdometrySetup.sample : OdometrySetup where
  imuCfg := ⟨true, 20, false⟩
  imu :=
    { covGyr := fun _ => 0.1, covAcc := fun _ => 0.1, covBiasGyr := fun _ => 0.0001
      covBiasAcc := fun _ => 0.0001, covInvExpo := 0.2
      baBgEstEn := true, gravityEstEn := true, exposureEstimateEn := true
      lidRotToImu := 1, lidOffsetToImu := 0, toFloat := fun _ => 0 }
  lio := LioCall.noPlanes.cfg
  vio :=
    { maxIterations := 5, patchPyrimidLevel := 4, imgPointCov := 100.0, exposureEstimateEn := true
      inverseCompositionEn := false, rci := 1, pci := 0 }

theorem OdometrySetup.sample_admissible : OdometrySetup.sample.Admissible where
  imu := by
    constructor <;> norm_num [OdometrySetup.sample]
  lioIterations := by decide
  vioIterations := by decide
  vioLevels := by decide
  imgPointCov := by norm_num [OdometrySetup.sample]

def Odometry.start : Odometry Carrier.trivial where
  state := {}
  statePropagat := {}
  imu :=
    { imuNeedInit := false, meanAcc := (1 : Vec3), imuMeanAccNorm := (1 : ℝ)
      lastPropEndTime := 0, timeLastScan := 0, firstLidarTime := 0 }
  voxelmapManager := VoxelMapManager.onePoint
  vioManager := { state := {}, g := 0, rcw := 1, pcw := 0 }

/-- A propagation, a LiDAR update and a photometric update of one pixel. -/
def sampleEvents : List (OdometryEvent Carrier.trivial) :=
  [.undistortPcl { lioVioFlg := .lio } { lioTime := 1, imu := [{}] },
    .stateEstimation LioCall.noPlanes.kernel [{ x := 1 }] true { valid := true },
    .computeJacobianAndUpdateEKF ⟨1, 1, Nat.one_pos, fun _ _ _ => ⟨1, 1, 1, 1⟩, fun _ _ => (1, 1),
      fun _ _ _ => 1⟩]

theorem cov_posDef_sample :
    ∃ o, exec OdometrySetup.sample.step Odometry.start sampleEvents = some o ∧
      (covOf o.state).IsSymm ∧ (covOf o.state).PosDef ∧ InversesExist OdometrySetup.sample o :=
  have ⟨o, ho⟩ : ∃ o, exec OdometrySetup.sample.step Odometry.start sampleEvents = some o :=
    ⟨_, rfl⟩
  ⟨o, ho, cov_posDef OdometrySetup.sample_admissible rfl (.of_exec ho)⟩

end

end FastLivo.Frontend
