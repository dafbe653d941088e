import FastLivo.Mapper.State

/-!
# Estimation and mapping

What `run()` does with a measurement after `sync_packages` returned true, and the
IMU-rate propagation of the timer. The estimator's numerics come from the kernel;
which of them run, on which members, is the program's own. Log files, timing
statistics and debug markers are left out.
-/

namespace FastLivo

variable {C : Carrier}

/-- `handleFirstFrame`. -/
def handleFirstFrame (s : LIVMapper C) : LIVMapper C :=
  if s.est.isFirstFrame then s
  else
    { s with
      est := { s.est with firstLidarTime := s.meas.lastLioUpdateTime, isFirstFrame := true }
      imu := { s.imu with firstLidarTime := s.meas.lastLioUpdateTime } }

/-- `gravityAlignment`. -/
def gravityAlignment (K : Kernel C) (s : LIVMapper C) : LIVMapper C :=
  if !s.imu.imuNeedInit && !s.est.gravityAlignFinished then
    { s with est := { s.est with
        state := K.gravityAlignment s.est.state, gravityAlignFinished := true } }
  else s

/-- Hand-over of the propagated state and cloud to the map. -/
def beginScan (K : Kernel C) (s : LIVMapper C) : LIVMapper C :=
  { s with est := { s.est with
      statePropagat := s.est.state
      voxelmapManager := K.beginScan s.est.voxelmapManager s.est.state s.est.featsUndistort } }

/-- `processImu`. -/
def processImu (cfg : Config C) (K : Kernel C) (s : LIVMapper C) : Option (LIVMapper C) := do
  let (imu, meas, state, feats) ←
    process2 cfg.imu K.toImuKernel s.rtk.tGToW s.meas s.est.state s.est.featsUndistort s.imu
  let s := { s with
    imu := imu, meas := meas, est := { s.est with state := state, featsUndistort := feats } }
  some (beginScan K (if cfg.gravityAlignEn then gravityAlignment K s else s))

/-- What `handleLIO` and `handleVIO` leave for `imu_prop_callback`. -/
def finishEkf (cfg : Config C) (s : LIVMapper C) : LIVMapper C :=
  if cfg.imuPropEnable then
    { s with prop := { s.prop with
        ekfFinishOnce := true, latestEkfState := s.est.state
        latestEkfTime := s.meas.lastLioUpdateTime, stateUpdateFlg := true } }
  else s

/-! ## Publishing -/

/-- `publish_odometry`. -/
def publishOdometry (s : LIVMapper C) : Output C := .aftMapped s.est.state

/-- `publish_path`. -/
def publishPath (s : LIVMapper C) : LIVMapper C × Output C :=
  let path := s.est.path ++ [s.est.state]
  ({ s with est := { s.est with path := path } }, .path path)

/-- `publish_mavros`. -/
def publishMavros (s : LIVMapper C) : Output C := .mavros s.est.state

/-- Clouds of `publish_frame_world` with images: points are collected over
`pub_scan_num` frames and then coloured. -/
def publishCloudRGB (cfg : Config C) (K : Kernel C) (s : LIVMapper C) :
    LIVMapper C × List (Output C) :=
  let waitPub := s.est.pclWaitPub ++ s.est.pclWWaitPub
  let last := decide (s.est.pubNum = cfg.pubScanNum)
  let rgb := if last then K.colorize s.est.vioManager waitPub else []
  ({ s with est := { s.est with
      pubNum := if last then 1 else s.est.pubNum + 1
      pclWaitPub := if rgb.isEmpty then waitPub else [] } },
    [.cloudRegisteredRGB rgb,
      .syncedCloudRGB (rosTime s.est.keyframeTime) (K.bodyRGB s.est.state rgb)])

/-- Clouds of `publish_frame_world` without images. -/
def publishCloud (K : Kernel C) (s : LIVMapper C) : List (Output C) :=
  [.cloudRegistered s.est.pclWWaitPub,
    .syncedCloud (rosTime s.est.keyframeTime) (K.body s.est.state s.est.pclWWaitPub)]

/-- `livo_state_buffer` gets the antenna position until the RTK is aligned. -/
def pushLivoState (cfg : Config C) (K : Kernel C) (s : LIVMapper C) : LIVMapper C :=
  if cfg.rtkEn && !s.rtk.rtkIni then
    let buffer := s.rtk.livoStateBuffer ++ [(s.est.keyframeTime, K.antenna s.est.state)]
    { s with rtk := { s.rtk with livoStateBuffer := buffer.drop (buffer.length - 5000) } }
  else s

/-- `publish_frame_world`. -/
def publishFrameWorld (cfg : Config C) (K : Kernel C) (s : LIVMapper C) :
    LIVMapper C × List (Output C) :=
  if s.est.pclWWaitPub.isEmpty then (s, [])
  else
    let (s, clouds) :=
      if cfg.imgEn then publishCloudRGB cfg K s else (s, publishCloud K s)
    let s := pushLivoState cfg K s
    ({ s with est := { s.est with pclWWaitPub := [] } },
      clouds ++ [.odometry (rosTime s.est.keyframeTime) s.est.state])

/-! ## Updates -/

/-- `rtk_good` of `handleLIO`. -/
def rtkUsable (r : RtkFrontend C) (rtk : RTK C) : Bool :=
  r.rtkIni && rtk.valid && decide (1 / 100000 < rtk.timestamp)

/-- `handleLIO` up to the EKF update, on the RTK observation of the measurement. -/
def estimateLio (cfg : Config C) (K : Kernel C) (rtk : RTK C) (down : List PointType)
    (s : LIVMapper C) : LIVMapper C :=
  let vm := K.setFeatsDown s.est.voxelmapManager down (K.transformLidar s.est.state down)
  let vm := if s.est.lidarMapInited then vm else K.buildVoxelMap vm
  let good := rtkUsable s.rtk rtk
  let vm := K.stateEstimation vm s.est.statePropagat good rtk
  finishEkf cfg
    { s with
      est := { s.est with
        lidarMapInited := true, voxelmapManager := vm, state := K.state vm, pvList := K.pvList vm }
      rtk := { s.rtk with rtkGood := good } }

/-- Map update of `handleLIO`, and the cloud left for publishing. -/
def updateMap (cfg : Config C) (K : Kernel C) (down : List PointType) (s : LIVMapper C) :
    LIVMapper C :=
  let vm := K.refreshPvList s.est.voxelmapManager s.est.state (K.transformLidar s.est.state down)
  let vm := K.updateVoxelMap vm
  let full := if cfg.denseMapEn then s.est.featsUndistort else down
  { s with est := { s.est with
    voxelmapManager := if cfg.mapSlidingEn then K.mapSliding vm else vm, pvList := K.pvList vm
    pclWWaitPub := full.map (K.rgbPointBodyToWorld s.est.state) } }

/-- `handleLIO` on a cloud that is not empty. -/
def updateLio (cfg : Config C) (K : Kernel C) (rtk : RTK C) (s : LIVMapper C) :
    LIVMapper C × List (Output C) :=
  let down := K.downSizeFilterSurf s.est.featsUndistort
  let s := estimateLio cfg K rtk down s
  let odometry := publishOdometry s
  let s := updateMap cfg K down s
  let (s, frame) := if cfg.imgEn then (s, []) else publishFrameWorld cfg K s
  let (s, path) := publishPath s
  (s, odometry :: frame ++ [path, publishMavros s])

/-- `handleLIO`; `none` when `measures.back()` does not exist. -/
def handleLio (cfg : Config C) (K : Kernel C) (s : LIVMapper C) :
    Option (LIVMapper C × List (Output C)) :=
  if s.est.featsUndistort.isEmpty then some (s, [])
  else s.meas.measures.getLast?.map fun m => updateLio cfg K m.rtk s

/-- `fabs(... - plot_time) < (frame_cnt / 2 * 0.1)`. -/
def plotFlag (cfg : Config C) (s : LIVMapper C) : Bool :=
  decide (|s.meas.lastLioUpdateTime - s.est.firstLidarTime - cfg.plotTime|
    < (cfg.frameCnt.tdiv 2 : Int) * (1 / 10 : Double))

/-- `processFrame` of `handleVIO` on the current measurement. -/
def estimateVio (cfg : Config C) (K : Kernel C) (m : MeasureGroup C) (s : LIVMapper C) :
    LIVMapper C :=
  let (vio, mat, pvList, vm, state) :=
    K.processFrame s.est.vioManager (plotFlag cfg s) m.img.mat s.est.pvList s.est.voxelmapManager
      (s.meas.lastLioUpdateTime - s.est.firstLidarTime) s.est.state s.est.statePropagat
  finishEkf cfg
    { s with
      est := { s.est with vioManager := vio, pvList := pvList, voxelmapManager := vm, state := state }
      meas := s.meas.setBack { m with img := { m.img with mat := mat } } }

/-- `handleVIO` with points to publish. -/
def updateVio (cfg : Config C) (K : Kernel C) (m : MeasureGroup C) (s : LIVMapper C) :
    LIVMapper C × List (Output C) :=
  let (s, frame) := publishFrameWorld cfg K (estimateVio cfg K m s)
  (s, frame ++ [.rgbImg (K.imgCp s.est.vioManager)])

/-- `handleVIO`; `none` when `measures.back()` does not exist. -/
def handleVio (cfg : Config C) (K : Kernel C) (s : LIVMapper C) :
    Option (LIVMapper C × List (Output C)) :=
  if s.est.pclWWaitPub.isEmpty then some (s, [])
  else s.meas.measures.getLast?.map fun m => updateVio cfg K m s

/-- `stateEstimationAndMapping`. -/
def stateEstimationAndMapping (cfg : Config C) (K : Kernel C) (s : LIVMapper C) :
    Option (LIVMapper C × List (Output C)) :=
  match s.meas.lioVioFlg with
  | .vio => handleVio cfg K s
  | .lio | .lo => handleLio cfg K s
  | .wait => some (s, [])

/-! ## IMU-rate propagation -/

/-- Loop over `prop_imu_buffer` with `imu_propagate` and `last_t_from_lidar_end_time`. -/
def propImuLoop (K : Kernel C) (norm : C.Scalar) (ekfTime : Double) :
    List (Imu C) → StatesGroup C × Double → StatesGroup C × Double
  | [], acc => acc
  | m :: ms, (state, last) =>
    let t := m.sec - ekfTime
    propImuLoop K norm ekfTime ms
      (K.propImuOnce norm state (t - last) m.linearAcceleration m.angularVelocity, t)

/-- Members `imu_prop_callback` sets once it has samples to work on. -/
def propagateImu (K : Kernel C) (norm : C.Scalar) (p : ImuPropagation C) : ImuPropagation C :=
  if p.stateUpdateFlg then
    let buffer := p.propImuBuffer.dropWhile fun m => decide (m.sec < p.latestEkfTime)
    let (state, last) := propImuLoop K norm p.latestEkfTime buffer (p.latestEkfState, 0)
    { p with
      imuPropagate := state, propImuBuffer := buffer
      lastTFromLidarEndTime := last, stateUpdateFlg := false }
  else
    let (state, last) := propImuLoop K norm p.latestEkfTime [p.newestImu]
      (p.imuPropagate, p.lastTFromLidarEndTime)
    { p with imuPropagate := state, lastTFromLidarEndTime := last }

/-- `imu_prop_callback`. -/
def imuPropCallback (cfg : Config C) (K : Kernel C) (s : LIVMapper C) :
    LIVMapper C × List (Output C) :=
  if s.imu.imuNeedInit || !s.prop.newImu || !s.prop.ekfFinishOnce then (s, [])
  else
    let prop := { s.prop with newImu := false }
    if cfg.imuPropEnable && !prop.propImuBuffer.isEmpty then
      let prop := propagateImu K s.imu.imuMeanAccNorm prop
      ({ s with prop := prop }, [.imuPropagate prop.newestImu.stamp prop.imuPropagate])
    else ({ s with prop := prop }, [])

end FastLivo
