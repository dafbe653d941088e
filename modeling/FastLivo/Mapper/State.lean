import FastLivo.ImuProcess

/-!
# State of `LIVMapper`

The members of `LIVMapper` in groups: the sensor buffers filled by the callbacks,
the estimator with its maps and clouds, the IMU-rate propagation and the RTK
frontend. Function-local `static` variables are members here. The defaults are
the values after construction and `initializeComponents`; members the source
leaves uninitialised are taken from `Config.uninit`.
-/

namespace FastLivo

/-- Whatever memory holds where the source initialises nothing. -/
structure Uninit (C : Carrier) where
  lastPropEndTime : Double
  timeLastScan : Double
  firstLidarTime : Double
  imuMeanAccNorm : C.Scalar
  latestEkfTime : Double

/-- Parameters read by `readParameters`. -/
structure Config (C : Carrier) where
  lidarEn : Bool := true
  imgEn : Bool := true
  imuEn : Bool := true
  rosDriverFixEn : Bool := false
  hiltiEn : Bool := false
  imuPropEnable : Bool := false
  gravityAlignEn : Bool := false
  denseMapEn : Bool := false
  mapSlidingEn : Bool := false
  rtkEn : Bool := false
  debugMode : Bool := false
  /-- `gps_message_type == "navsatfix"`. -/
  navsatfix : Bool := false
  pubScanNum : Int := 1
  frameCnt : Int := 6
  plotTime : Double := -10
  exposureTimeInit : Double := 0
  imgTimeOffset : Double := 0
  imuTimeOffset : Double := 0
  lidarTimeOffset : Double := 0
  gpsTimeOffset : Double := 0
  onlineRtkSyncThreshold : Double := 1 / 20
  onlineRtkMinDistance : Double := 5
  onlineRtkMaxHAcc : Double := 1 / 2
  onlineRtkMaxVAcc : Double := 1
  onlineRtkMinHStd : Double := 1 / 50
  onlineRtkMinVStd : Double := 1 / 20
  onlineRtkMinMatches : Nat := 20
  imuIntFrame : Int := 3
  lidarTypeL515 : Bool := false
  uninit : Uninit C

variable {C : Carrier}

/-- `slam_mode_`, set by `initializeComponents`. -/
def Config.slamMode (cfg : Config C) : SlamMode :=
  if cfg.imgEn && cfg.lidarEn then .livo else if cfg.imuEn then .onlyLio else .onlyLo

theorem Config.slamMode_livo {cfg : Config C} (h : cfg.slamMode = .livo) :
    cfg.imgEn = true ∧ cfg.lidarEn = true := by
  unfold Config.slamMode at h
  split at h
  · rename_i hlivo
    exact (Bool.and_eq_true _ _).mp hlivo
  · split at h <;> cases h

theorem Config.slamMode_onlyLo {cfg : Config C} (h : cfg.slamMode = .onlyLo) :
    cfg.imuEn = false ∧ (cfg.lidarEn = true → cfg.imgEn = false) := by
  unfold Config.slamMode at h
  split at h
  · cases h
  · rename_i hlivo
    split at h
    · cases h
    · rename_i himu
      exact ⟨by simpa using himu, fun hlidar => by simpa [hlidar] using hlivo⟩

theorem Config.slamMode_onlyLio {cfg : Config C} (h : cfg.slamMode = .onlyLio) :
    cfg.imuEn = true ∧ (cfg.lidarEn = true → cfg.imgEn = false) := by
  unfold Config.slamMode at h
  split at h
  · cases h
  · rename_i hlivo
    split at h
    · rename_i himu
      exact ⟨himu, fun hlidar => by simpa [hlidar] using hlivo⟩
    · cases h

def Config.imu (cfg : Config C) : ImuConfig := ⟨cfg.imuEn, cfg.imuIntFrame, cfg.lidarTypeL515⟩

variable (C)

/-- Buffers between the sensor callbacks and `sync_packages`. -/
structure SensorBuffers where
  lidRawDataBuffer : List Scan := []
  lidHeaderTimeBuffer : List Double := []
  imuBuffer : List (Imu C) := []
  imgBuffer : List (Image C) := []
  imgTimeBuffer : List Double := []
  lastTimestampLidar : Double := -1
  lastTimestampImu : Double := -1
  lastTimestampImg : Double := -1
  lidarPushed : Bool := false
  frameCounter : Nat := 0
  /-- Ghost: clouds, samples and images accepted so far. -/
  lidSeq : Nat := 0
  imuSeq : Nat := 0
  imgSeq : Nat := 0

/-- State, maps and clouds of the estimator, and what is published of them. -/
structure Estimation where
  state : StatesGroup C := {}
  statePropagat : StatesGroup C := {}
  voxelmapManager : C.VoxelMapManager
  vioManager : C.VIOManager
  pvList : C.PvList
  featsUndistort : List PointType := []
  pclWWaitPub : List PointType := []
  pclWaitPub : List PointType := []
  pubNum : Int := 1
  lidarMapInited : Bool := false
  isFirstFrame : Bool := false
  firstLidarTime : Double := 0
  gravityAlignFinished : Bool := false
  keyframeTime : Double := 0
  path : List (StatesGroup C) := []

/-- Members of the IMU-rate propagation. -/
structure ImuPropagation where
  imuPropagate : StatesGroup C := {}
  latestEkfState : StatesGroup C := {}
  latestEkfTime : Double
  newImu : Bool := false
  stateUpdateFlg : Bool := false
  ekfFinishOnce : Bool := false
  propImuBuffer : List (Imu C) := []
  newestImu : Imu C := {}
  lastTFromLidarEndTime : Double := 0

/-- Members of the RTK frontend. -/
structure RtkFrontend where
  rtkIni : Bool := false
  rtkGood : Bool := false
  rtkBuffer : List (RTK C) := []
  livoStateBuffer : List (Double × C.V3D) := []
  tWToG : C.SE3 := C.se3
  tGToW : C.SE3 := C.se3
  gpsTrans : C.LocalCartesian
  /-- `first_gps` of `rtk_cbk`. -/
  firstGpsPvt : Bool := false
  /-- `first_gps` of `navsatfix_cbk`. -/
  firstGpsFix : Bool := true
  /-- Ghost: observations accepted so far. -/
  rtkSeq : Nat := 0

/-- `LIVMapper`. -/
structure LIVMapper where
  buf : SensorBuffers C := {}
  meas : LidarMeasureGroup C := {}
  imu : ImuProcess C
  est : Estimation C
  prop : ImuPropagation C
  rtk : RtkFrontend C

/-- What the mapper publishes. Stamps taken from the wall clock are left out. -/
inductive Output where
  /-- `/odometry/fast_livo2`. -/
  | odometry (stamp : Stamp) (state : StatesGroup C)
  | syncedCloudRGB (stamp : Stamp) (cloud : List C.PointRGB)
  | syncedCloud (stamp : Stamp) (cloud : List PointType)
  | cloudRegisteredRGB (cloud : List C.PointRGB)
  | cloudRegistered (cloud : List PointType)
  /-- `/aft_mapped_to_init`. -/
  | aftMapped (state : StatesGroup C)
  | path (poses : List (StatesGroup C))
  | mavros (state : StatesGroup C)
  | rgbImg (img : C.Mat)
  /-- `/LIVO2/imu_propagate`. -/
  | imuPropagate (stamp : Stamp) (state : StatesGroup C)
  /-- `/gps/odometry`. -/
  | gps (time : Double) (p : C.V3D)

/-- Numerical code of the mapper: EKF updates, maps, rendering and geodesy. -/
structure Kernel extends ImuKernel C where
  gravityAlignment : StatesGroup C → StatesGroup C
  /-- `state_ = _state; feats_undistort_ = feats_undistort`. -/
  beginScan : C.VoxelMapManager → StatesGroup C → List PointType → C.VoxelMapManager
  downSizeFilterSurf : List PointType → List PointType
  transformLidar : StatesGroup C → List PointType → List PointType
  /-- `feats_down_body_`, `feats_down_world_` and `feats_down_size_`. -/
  setFeatsDown : C.VoxelMapManager → List PointType → List PointType → C.VoxelMapManager
  buildVoxelMap : C.VoxelMapManager → C.VoxelMapManager
  stateEstimation : C.VoxelMapManager → StatesGroup C → Bool → RTK C → C.VoxelMapManager
  state : C.VoxelMapManager → StatesGroup C
  pvList : C.VoxelMapManager → C.PvList
  /-- Loop over `pv_list_` with the updated state, before `UpdateVoxelMap`. -/
  refreshPvList : C.VoxelMapManager → StatesGroup C → List PointType → C.VoxelMapManager
  updateVoxelMap : C.VoxelMapManager → C.VoxelMapManager
  mapSliding : C.VoxelMapManager → C.VoxelMapManager
  rgbPointBodyToWorld : StatesGroup C → PointType → PointType
  /-- `processFrame` with `plot_flag`, the image, `_pv_list`, the map, the image
  time, `_state` and `state_propagat`; it may change what it is given by reference. -/
  processFrame : C.VIOManager → Bool → C.Mat → C.PvList → C.VoxelMapManager → Double →
    StatesGroup C → StatesGroup C →
    C.VIOManager × C.Mat × C.PvList × C.VoxelMapManager × StatesGroup C
  imgCp : C.VIOManager → C.Mat
  colorize : C.VIOManager → List PointType → List C.PointRGB
  bodyRGB : StatesGroup C → List C.PointRGB → List C.PointRGB
  body : StatesGroup C → List PointType → List PointType
  /-- `prop_imu_once` with `IMU_mean_acc_norm`. -/
  propImuOnce : C.Scalar → StatesGroup C → Double → C.V3D → C.V3D → StatesGroup C
  /-- `pos_end + rot_end * rtk_lever_arm_`. -/
  antenna : StatesGroup C → C.V3D
  geoReset : C.LocalCartesian → C.Geo → C.LocalCartesian
  geoForward : C.LocalCartesian → C.Geo → C.V3D
  /-- `(vel_e, vel_n, -vel_d)`. -/
  velENU : C.Scalar → C.Scalar → C.Scalar → C.V3D
  diagonal : Double → Double → Double → C.M3D
  sqrt : Double → Double
  dist : C.V3D → C.V3D → Double
  computeSVD : List C.V3D → List C.V3D → C.SE3
  inverse : C.SE3 → C.SE3
  allFinite : C.SE3 → Bool

variable {C}

/-- The mapper after construction. -/
def LIVMapper.init (cfg : Config C) (K : Kernel C) (vm : C.VoxelMapManager) (vio : C.VIOManager)
    (pv : C.PvList) (geo : C.LocalCartesian) : LIVMapper C where
  imu := {
    imuNeedInit := cfg.imuEn, meanAcc := K.meanAcc0, imuMeanAccNorm := cfg.uninit.imuMeanAccNorm
    lastPropEndTime := cfg.uninit.lastPropEndTime, timeLastScan := cfg.uninit.timeLastScan
    firstLidarTime := cfg.uninit.firstLidarTime }
  est := { voxelmapManager := vm, vioManager := vio, pvList := pv }
  prop := { latestEkfTime := cfg.uninit.latestEkfTime }
  rtk := { gpsTrans := geo }

/-! ## No numerics -/

def Kernel.trivial : Kernel Carrier.trivial where
  toImuKernel := .trivial
  gravityAlignment st := st
  beginScan vm _ _ := vm
  downSizeFilterSurf pts := pts
  transformLidar _ pts := pts
  setFeatsDown vm _ _ := vm
  buildVoxelMap vm := vm
  stateEstimation vm _ _ _ := vm
  state _ := {}
  pvList _ := ()
  refreshPvList vm _ _ := vm
  updateVoxelMap vm := vm
  mapSliding vm := vm
  rgbPointBodyToWorld _ p := p
  processFrame vio _ mat pv vm _ st _ := (vio, mat, pv, vm, st)
  imgCp _ := ()
  colorize _ pts := pts.map fun _ => ()
  bodyRGB _ pts := pts
  body _ pts := pts
  propImuOnce _ st _ _ _ := st
  antenna _ := ()
  geoReset g _ := g
  geoForward _ _ := ()
  velENU _ _ _ := ()
  diagonal _ _ _ := ()
  sqrt x := x
  dist _ _ := 0
  computeSVD _ _ := ()
  inverse _ := ()
  allFinite _ := true

/-- Zeros where the source initialises nothing. -/
def Uninit.zero : Uninit Carrier.trivial := ⟨0, 0, 0, (), 0⟩

end FastLivo
