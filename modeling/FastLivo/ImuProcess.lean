import FastLivo.CommonLib
import FastLivo.Lib.Sweep

/-!
# IMU processing

`ImuProcess` with the functions `Process2` runs: the initialisation, the RTK
extrapolation, the propagation and the point undistortion. The arithmetic on
vectors, rotations and covariances is a parameter (`ImuKernel`); which samples,
time steps and poses it is applied to is the program's own.
-/

namespace FastLivo

open Lib

/-- Variables of the propagation loop of `UndistortPcl`. -/
structure PropState (C : Carrier) where
  stateInout : StatesGroup C
  accImu : C.V3D
  angvelAvr : C.V3D
  velImu : C.V3D
  posImu : C.V3D
  rImu : C.M3D

/-- Coordinates of a point. -/
structure Xyz where
  x : Double
  y : Double
  z : Double
  deriving DecidableEq, Repr

/-- Numerical code of the IMU processing. -/
structure ImuKernel (C : Carrier) where
  /-- `V3D(0, 0, -1.0)`. -/
  meanAcc0 : C.V3D
  norm : C.V3D → C.Scalar
  /-- `mean += (cur - mean) / N`. -/
  meanStep : C.V3D → C.V3D → Nat → C.V3D
  /-- `-mean_acc / mean_acc.norm() * G_m_s2`. -/
  gravityOf : C.V3D → C.V3D
  /-- Covariance, attitude, position and velocity update over one interval, from
  `mean_acc`, the two samples at its ends and its length. -/
  propagate : C.V3D → Imu C → Imu C → Double → PropState C → PropState C
  /-- `P_compensate` of `UndistortPcl`: end state, head pose, time after the head. -/
  undistort : StatesGroup C → Pose6D C → Double → Xyz → Xyz
  /-- State update of `Forward_without_imu` over `dt`. -/
  forward : Double → StatesGroup C → StatesGroup C
  /-- `P_compensate` of `Forward_without_imu`: end state, time before the scan end. -/
  forwardPoint : StatesGroup C → Double → Xyz → Xyz
  transform : C.SE3 → C.V3D → C.V3D
  rotate : C.SE3 → C.V3D → C.V3D
  rotateCov : C.SE3 → C.M3D → C.M3D
  /-- `p + v * dt`. -/
  extrapolate : C.V3D → C.V3D → Double → C.V3D
  /-- Add a variance to the diagonal. -/
  addDiagonal : C.M3D → Double → C.M3D

/-- Parameters of `ImuProcess`. -/
structure ImuConfig where
  imuEn : Bool
  maxIniCount : Int
  /-- `lidar_type == L515` of the processor's own, never assigned, `lidar_type`. -/
  lidarTypeL515 : Bool

/-- `ImuProcess`. -/
structure ImuProcess (C : Carrier) where
  imuNeedInit : Bool
  bFirstFrame : Bool := true
  imuTimeInit : Bool := false
  initIterNum : Nat := 1
  meanAcc : C.V3D
  meanGyr : C.V3D := C.zero3d
  imuMeanAccNorm : C.Scalar
  angvelLast : C.V3D := C.zero3d
  accSLast : C.V3D := C.zero3d
  lastImu : Imu C := {}
  imuPose : List (Pose6D C) := []
  pclWaitProc : List PointType := []
  lastPropEndTime : Double
  timeLastScan : Double
  firstLidarTime : Double

variable {C : Carrier}

def PointType.xyz (p : PointType) : Xyz := ⟨p.x, p.y, p.z⟩

def PointType.setXyz (p : PointType) (q : Xyz) : PointType := { p with x := q.x, y := q.y, z := q.z }

/-- Offset of a point in seconds, `curvature / double(1000)`. -/
def PointType.offset (p : PointType) : Double := p.curvature / 1000

@[simp] theorem PointType.setXyz_curvature (p : PointType) (q : Xyz) :
    (p.setXyz q).curvature = p.curvature := rfl

@[simp] theorem PointType.setXyz_offset (p : PointType) (q : Xyz) :
    (p.setXyz q).offset = p.offset := rfl

/-! ## Initialisation -/

/-- `Reset`. -/
def ImuProcess.reset (K : ImuKernel C) (p : ImuProcess C) : ImuProcess C :=
  { p with
    meanAcc := K.meanAcc0, meanGyr := C.zero3d, angvelLast := C.zero3d, imuNeedInit := true
    initIterNum := 1, imuPose := [], lastImu := {} }

/-- Loop of `IMU_init` over the samples, with the counter `N`. -/
def meanLoop (K : ImuKernel C) : List (Imu C) → C.V3D × C.V3D × Nat → C.V3D × C.V3D × Nat
  | [], m => m
  | imu :: imus, (acc, gyr, n) =>
      meanLoop K imus
        (K.meanStep acc imu.linearAcceleration n, K.meanStep gyr imu.angularVelocity n, n + 1)

/-- `IMU_init`; `none` when `meas.imu.front()` or `.back()` does not exist. -/
def imuInit (K : ImuKernel C) (meas : MeasureGroup C) (state : StatesGroup C) (p : ImuProcess C) :
    Option (ImuProcess C × StatesGroup C) :=
  match meas.imu.head?, meas.imu.getLast? with
  | some front, some back =>
    let p := if p.bFirstFrame then
        { p.reset K with
          initIterNum := 1, bFirstFrame := false
          meanAcc := front.linearAcceleration, meanGyr := front.angularVelocity }
      else p
    let (acc, gyr, n) := meanLoop K meas.imu (p.meanAcc, p.meanGyr, p.initIterNum)
    some ({ p with meanAcc := acc, meanGyr := gyr, initIterNum := n
                   imuMeanAccNorm := K.norm acc, lastImu := back },
      { state with gravity := K.gravityOf acc, rotEnd := C.eye3d, biasG := C.zero3d })
  | _, _ => none

/-! ## Without IMU -/

/-- `time_list` order. -/
def sortByTime (points : List PointType) : List PointType :=
  points.mergeSort fun a b => decide (a.curvature ≤ b.curvature)

/-- Compensation of one point in `Forward_without_imu`. -/
def forwardPoint (K : ImuKernel C) (stateEnd : StatesGroup C) (pclEndOffsetTime : Double)
    (q : PointType) : PointType :=
  q.setXyz (K.forwardPoint stateEnd (pclEndOffsetTime - q.offset) q.xyz)

/-- Loop of `Forward_without_imu` over the sorted points, for any rewriting `f` of them.
It stops before `begin()`. -/
def forwardPass {α : Type} (cfg : ImuConfig) (f : α → α) : List α → List α
  | [] => []
  | begin :: rest => if cfg.lidarTypeL515 then begin :: rest else begin :: rest.map f

/-- `Forward_without_imu`; `none` when the cloud is empty and `points.back()` does
not exist. -/
def forwardWithoutImu (cfg : ImuConfig) (K : ImuKernel C) (meas : LidarMeasureGroup C)
    (stateInout : StatesGroup C) (p : ImuProcess C) :
    Option (ImuProcess C × LidarMeasureGroup C × StatesGroup C × List PointType) :=
  let points := sortByTime meas.lidar.points
  match points.getLast? with
  | none => none
  | some back =>
    let pclBegTime := meas.lidarFrameBegTime
    let dt := if p.bFirstFrame then 1 / 10 else pclBegTime - p.timeLastScan
    let state := K.forward dt stateInout
    some ({ p with bFirstFrame := false, timeLastScan := pclBegTime },
      { meas with lastLioUpdateTime := pclBegTime + back.offset }, state,
      forwardPass cfg (forwardPoint K state back.offset) points)

/-! ## Propagation -/

/-- One pass of the propagation loop: the samples at its ends, `dt` and `offs_t`. -/
structure PropStep (C : Carrier) where
  head : Imu C
  tail : Imu C
  dt : Double
  offsT : Double

/-- Time steps of the propagation loop over `v_imu`. The three branches are the
ones of the source: head before the interval, inner interval, last interval. -/
def propSteps (propBegTime propEndTime : Double) : List (Imu C) → List (PropStep C)
  | head :: tail :: rest =>
      if tail.sec < propBegTime then propSteps propBegTime propEndTime (tail :: rest)
      else
        (if head.sec < propBegTime then
          ⟨head, tail, tail.sec - propBegTime, tail.sec - propBegTime⟩
        else if rest ≠ [] then
          ⟨head, tail, tail.sec - head.sec, tail.sec - propBegTime⟩
        else
          ⟨head, tail, propEndTime - head.sec, propEndTime - propBegTime⟩) ::
        propSteps propBegTime propEndTime (tail :: rest)
  | _ => []

/-- `set_pose6d` of the loop variables. -/
def PropState.pose (st : PropState C) (offsT : Double) : Pose6D C :=
  ⟨offsT, st.accImu, st.angvelAvr, st.velImu, st.posImu, st.rImu⟩

/-- The propagation loop: final variables and the poses it pushes. -/
def propagateAll (K : ImuKernel C) (meanAcc : C.V3D) :
    List (PropStep C) → PropState C → PropState C × List (Pose6D C)
  | [], st => (st, [])
  | s :: ss, st =>
      let st' := K.propagate meanAcc s.head s.tail s.dt st
      let r := propagateAll K meanAcc ss st'
      (r.1, st'.pose s.offsT :: r.2)

/-- `prop_end_time`. -/
def propEndTime (flg : EkfState) (meas : MeasureGroup C) : Double :=
  if flg = .lio then meas.lioTime else meas.vioTime

/-- `UndistortPcl` up to the saving of `last_imu` and `last_prop_end_time`: the
hand-over of `pcl_proc_cur`, the first pose and the propagation loop. -/
def undistortForward (K : ImuKernel C) (lidarMeas : LidarMeasureGroup C) (meas : MeasureGroup C)
    (state : StatesGroup C) (p : ImuProcess C) :
    ImuProcess C × LidarMeasureGroup C × StatesGroup C :=
  let flg := lidarMeas.lioVioFlg
  let propBeg := p.lastPropEndTime
  let propEnd := propEndTime flg meas
  let vImu := p.lastImu :: meas.imu
  let p := if flg = .lio then
      { p with
        pclWaitProc := lidarMeas.pclProcCur
        imuPose := p.imuPose ++
          [⟨0, p.accSLast, p.angvelLast, state.velEnd, state.posEnd, state.rotEnd⟩] }
    else p
  let lidarMeas := if flg = .lio then { lidarMeas with lidarScanIndexNow := 0 } else lidarMeas
  let tau := if p.imuTimeInit then state.invExpoTime else C.one
  let st : PropState C :=
    ⟨state, p.accSLast, p.angvelLast, state.velEnd, state.posEnd, state.rotEnd⟩
  let (st, poses, lidarMeas) :=
    if flg = .lio ∨ flg = .vio then
      let (st, poses) := propagateAll K p.meanAcc (propSteps propBeg propEnd vImu) st
      (st, poses, { lidarMeas with lastLioUpdateTime := propEnd })
    else (st, [], lidarMeas)
  ({ p with
      imuTimeInit := true
      imuPose := p.imuPose ++ poses
      accSLast := st.accImu, angvelLast := st.angvelAvr
      lastImu := vImu.getLast (List.cons_ne_nil _ _)
      lastPropEndTime := propEnd },
    lidarMeas,
    { st.stateInout with
      velEnd := st.velImu, rotEnd := st.rImu, posEnd := st.posImu, invExpoTime := tau })

/-! ## Undistortion -/

/-- Compensation of one point in the interval of a head pose. -/
def undistortPoint (K : ImuKernel C) (stateEnd : StatesGroup C) (head : Pose6D C) (q : PointType) :
    PointType :=
  q.setXyz (K.undistort stateEnd head (q.offset - head.offsetTime) q.xyz)

/-- Backward pass of `UndistortPcl`, for any rewriting `f` of the points. The heads of
the intervals are all poses but the last one, taken from the back. -/
def backwardPass {α η : Type} (offset : α → Double) (offsetTime : η → Double) (f : η → α → α)
    (poses : List η) (points : List α) : List α :=
  sweepList offset offsetTime f poses.dropLast.reverse points

/-- `UndistortPcl`: processor, measurement, state and `pcl_out`. An empty cloud
returns before the pose list is cleared. -/
def undistortPcl (K : ImuKernel C) (lidarMeas : LidarMeasureGroup C) (meas : MeasureGroup C)
    (state : StatesGroup C) (p : ImuProcess C) :
    ImuProcess C × LidarMeasureGroup C × StatesGroup C × List PointType :=
  let (p, lidarMeas, state) := undistortForward K lidarMeas meas state p
  if p.pclWaitProc.length < 1 then (p, lidarMeas, state, [])
  else if lidarMeas.lioVioFlg = .lio then
    ({ p with pclWaitProc := [], imuPose := [] }, lidarMeas, state,
      backwardPass PointType.offset (fun h : Pose6D C => h.offsetTime) (undistortPoint K state)
        p.imuPose p.pclWaitProc)
  else (p, lidarMeas, state, [])

/-! ## RTK extrapolation -/

/-- `GetRTKCorrectedState` on the RTK observation of the current measurement. -/
def getRTKCorrectedState (K : ImuKernel C) (propEnd : Double) (tGToW : C.SE3) (rtk : RTK C) : RTK C :=
  if !rtk.valid || decide (rtk.timestamp ≤ 1 / 1000) then rtk
  else
    let rtk := { rtk with
      p := K.transform tGToW rtk.p, v := K.rotate tGToW rtk.v
      positionCov := K.rotateCov tGToW rtk.positionCov }
    let dt := propEnd - rtk.timestamp
    if dt < -1 / 1000 ∨ 1 / 2 < dt then { rtk with valid := false }
    else
      let extrapolationStd := 1 / 10 * |dt|
      { rtk with
        p := K.extrapolate rtk.p rtk.v dt
        positionCov := K.addDiagonal rtk.positionCov (extrapolationStd * extrapolationStd)
        timestamp := propEnd }

/-- Replace `measures.back()`. -/
def LidarMeasureGroup.setBack (g : LidarMeasureGroup C) (m : MeasureGroup C) : LidarMeasureGroup C :=
  { g with measures := g.measures.dropLast ++ [m] }

/-- `Process2`: processor, measurement, state and the undistorted cloud, which is
also an input since the initialisation leaves it as it is. `none` when
`measures.back()` does not exist or `Forward_without_imu` is undefined. -/
def process2 (cfg : ImuConfig) (K : ImuKernel C) (tGToW : C.SE3) (lidarMeas : LidarMeasureGroup C)
    (stat : StatesGroup C) (curPclUn : List PointType) (p : ImuProcess C) :
    Option (ImuProcess C × LidarMeasureGroup C × StatesGroup C × List PointType) :=
  if !cfg.imuEn then forwardWithoutImu cfg K lidarMeas stat p
  else
    match lidarMeas.measures.getLast? with
    | none => none
    | some meas =>
      if p.imuNeedInit then
        if meas.imu.isEmpty then some (p, lidarMeas, stat, curPclUn)
        else
          match imuInit K meas stat p with
          | none => none
          | some (p, stat) =>
            some ({ p with imuNeedInit := !decide (cfg.maxIniCount < p.initIterNum) },
              lidarMeas, stat, curPclUn)
      else
        let meas := { meas with
          rtk := getRTKCorrectedState K (propEndTime lidarMeas.lioVioFlg meas) tGToW meas.rtk }
        some (undistortPcl K (lidarMeas.setBack meas) meas stat p)

/-! ## A processor without numerics -/

def ImuKernel.trivial : ImuKernel Carrier.trivial where
  meanAcc0 := ()
  norm _ := ()
  meanStep _ _ _ := ()
  gravityOf _ := ()
  propagate _ _ _ _ st := st
  undistort _ _ _ q := q
  forward _ st := st
  forwardPoint _ _ q := q
  transform _ _ := ()
  rotate _ _ := ()
  rotateCov _ _ := ()
  extrapolate _ _ _ := ()
  addDiagonal _ _ := ()

/-- An initialised processor with its last sample and the end of its last interval. -/
def ImuProcess.trivial (lastImu : Stamp) (lastPropEndTime : Double) :
    ImuProcess Carrier.trivial where
  imuNeedInit := false
  meanAcc := ()
  imuMeanAccNorm := ()
  lastImu := { stamp := lastImu }
  lastPropEndTime := lastPropEndTime
  timeLastScan := 0
  firstLidarTime := 0

/-- A measurement of a LIO step with samples without readings. -/
def MeasureGroup.trivial (lioTime : Double) (stamps : List Stamp) :
    MeasureGroup Carrier.trivial where
  lioTime := lioTime
  imu := stamps.map fun s => { stamp := s }

end FastLivo
