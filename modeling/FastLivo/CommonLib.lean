import FastLivo.Time

/-!
# Data shared by the mapper and the IMU processing

The estimator's numbers (vectors, rotations, covariances, maps, images) are
opaque carriers: the code modelled here moves them around and never looks inside.
Times, curvatures and point coordinates are concrete.

Fields marked ghost are written by the sensor callbacks and read by no function
of the model. They name where a datum came from, so that theorems can speak
about it after it was moved.
-/

namespace FastLivo

/-- `SLAM_MODE`. -/
inductive SlamMode | onlyLo | onlyLio | livo
  deriving DecidableEq, Repr

/-- `EKF_STATE`. -/
inductive EkfState | wait | vio | lio | lo
  deriving DecidableEq, Repr

/-- The estimator's own types, with the values their constructors give. -/
structure Carrier where
  Scalar : Type
  V3D : Type
  M3D : Type
  Cov : Type
  SE3 : Type
  Mat : Type
  PointRGB : Type
  VoxelMapManager : Type
  VIOManager : Type
  PvList : Type
  Geo : Type
  LocalCartesian : Type
  one : Scalar
  zero3d : V3D
  eye3d : M3D
  initCov : Cov
  se3 : SE3
  emptyMat : Mat

variable (C : Carrier)

/-- `StatesGroup`. -/
structure StatesGroup where
  rotEnd : C.M3D := C.eye3d
  posEnd : C.V3D := C.zero3d
  velEnd : C.V3D := C.zero3d
  invExpoTime : C.Scalar := C.one
  biasG : C.V3D := C.zero3d
  biasA : C.V3D := C.zero3d
  gravity : C.V3D := C.zero3d
  cov : C.Cov := C.initCov

/-- `Pose6D`. -/
structure Pose6D where
  offsetTime : Double
  acc : C.V3D
  gyr : C.V3D
  vel : C.V3D
  pos : C.V3D
  rot : C.M3D

/-- `PointType` (`pcl::PointXYZINormal`); `curvature` is a time in milliseconds. -/
structure PointType where
  x : Double := 0
  y : Double := 0
  z : Double := 0
  intensity : Double := 0
  normalX : Double := 0
  normalY : Double := 0
  normalZ : Double := 0
  curvature : Double := 0
  /-- Ghost: header time of the point's scan plus its raw offset. -/
  acq : Double := 0
  deriving DecidableEq, Repr

/-- The point without its curvature. -/
def PointType.key (p : PointType) : PointType := { p with curvature := 0 }

/-- A cloud waiting in `lid_raw_data_buffer`. -/
structure Scan where
  points : List PointType := []
  /-- Ghost: the header time the callback computed for this cloud. -/
  headerTime : Double := 0
  /-- Ghost: number of clouds accepted before this one. -/
  seq : Nat := 0
  deriving DecidableEq, Repr

/-- `sensor_msgs::msg::Imu`. -/
structure Imu where
  stamp : Stamp := ⟨0, 0⟩
  linearAcceleration : C.V3D := C.zero3d
  angularVelocity : C.V3D := C.zero3d
  /-- Ghost: number of samples accepted before this one. -/
  seq : Nat := 0

variable {C} in
def Imu.sec (m : Imu C) : Double := m.stamp.toSec

/-- A `cv::Mat` of `img_buffer`. -/
structure Image where
  mat : C.Mat := C.emptyMat
  /-- Ghost: the offset-corrected time the callback computed for this image. -/
  time : Double := 0
  /-- Ghost: number of images accepted before this one. -/
  seq : Nat := 0

/-- `RTK`. -/
structure RTK where
  timestamp : Double := 0
  p : C.V3D := C.zero3d
  v : C.V3D := C.zero3d
  positionCov : C.M3D := C.eye3d
  valid : Bool := false
  /-- Ghost: number of observations accepted before this one. -/
  seq : Nat := 0

/-- `MeasureGroup`. -/
structure MeasureGroup where
  vioTime : Double := 0
  lioTime : Double := 0
  rtk : RTK C := {}
  imu : List (Imu C) := []
  img : Image C := {}

/-- `LidarMeasureGroup`. -/
structure LidarMeasureGroup where
  lidarFrameBegTime : Double := 0
  lidarFrameEndTime : Double := 0
  lastLioUpdateTime : Double := -1
  lidar : Scan := {}
  pclProcCur : List PointType := []
  pclProcNext : List PointType := []
  measures : List (MeasureGroup C) := []
  lioVioFlg : EkfState := .wait
  lidarScanIndexNow : Nat := 0

/-- Carrier with one value of every type: runs on it show times, buffers and points. -/
def Carrier.trivial : Carrier where
  Scalar := Unit
  V3D := Unit
  M3D := Unit
  Cov := Unit
  SE3 := Unit
  Mat := Unit
  PointRGB := Unit
  VoxelMapManager := Unit
  VIOManager := Unit
  PvList := Unit
  Geo := Unit
  LocalCartesian := Unit
  one := ()
  zero3d := ()
  eye3d := ()
  initCov := ()
  se3 := ()
  emptyMat := ()

end FastLivo
