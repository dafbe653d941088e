import FastLivo.Lib.Binary
import FastLivo.Lib.Memory
import FastLivo.Lib.OptionList

/-!
# The two point formats of the lidar driver

`Lddc` publishes a packet either as a `PointCloud2`, whose points are packed structures in
memory, or as a `CustomMsg`. A `float` is kept as its bits; a `double` holds any integer
that is converted to it.
-/

namespace FastLivo.Livox

open Lib

/-! ## Packets -/

/-- `PointXyzlt`. -/
structure PointXyzlt where
  x : UInt32
  y : UInt32
  z : UInt32
  intensity : UInt32
  tag : UInt8
  line : UInt8
  offsetTime : UInt64
  deriving DecidableEq, Repr

/-- `StoragePacket`. -/
structure StoragePacket where
  baseTime : UInt64
  pointsNum : UInt32
  points : List PointXyzlt
  deriving DecidableEq, Repr

/-! ## Messages -/

/-- `rclcpp::Time`: the stamp of a number of nanoseconds, and the number of a stamp, which has
none when its seconds are negative. The seconds are a signed 32-bit integer. -/
structure RosTime (Stamp : Type) where
  stamp : UInt64 → Stamp
  nanoseconds : Stamp → Option ℕ
  nanoseconds_stamp : ∀ t, t.toNat < 2147483648000000000 → nanoseconds (stamp t) = some t.toNat
  nanoseconds_lt : ∀ t n, nanoseconds (stamp t) = some n → n < 2147483648000000000

/-- `std_msgs::Header`. -/
structure Header (Stamp : Type) where
  stamp : Stamp
  frameId : String
  deriving DecidableEq, Repr

namespace PointField

/-- `PointField::UINT8`. -/
def UINT8 : UInt8 := 2

/-- `PointField::FLOAT32`. -/
def FLOAT32 : UInt8 := 7

/-- `PointField::FLOAT64`. -/
def FLOAT64 : UInt8 := 8

end PointField

/-- `sensor_msgs::PointField`. -/
structure PointField where
  name : String
  offset : UInt32
  datatype : UInt8
  count : UInt32
  deriving DecidableEq, Repr

/-- What the memory of a point holds. -/
inductive Scalar where
  | float32 (bits : UInt32)
  | uint8 (value : UInt8)
  | float64 (value : Option ℚ)
  deriving DecidableEq, Repr

def Scalar.size : Scalar → ℕ
  | .float32 _ => 4
  | .uint8 _ => 1
  | .float64 _ => 8

theorem Scalar.size_pos (v : Scalar) : 0 < v.size := by
  cases v <;> exact Nat.succ_pos _

/-- `sensor_msgs::PointCloud2`. -/
structure PointCloud2 (Stamp : Type) where
  header : Header Stamp
  height : UInt32
  width : UInt32
  fields : List PointField
  isBigendian : Bool
  pointStep : UInt32
  rowStep : UInt32
  data : List (Memory.Fragment Scalar)
  isDense : Bool
  deriving DecidableEq, Repr

/-- `livox_ros_driver2::msg::CustomPoint`. -/
structure CustomPoint where
  offsetTime : UInt32
  x : UInt32
  y : UInt32
  z : UInt32
  reflectivity : UInt8
  tag : UInt8
  line : UInt8
  deriving DecidableEq, Repr

/-- `livox_ros_driver2::msg::CustomMsg`. -/
structure CustomMsg (Stamp : Type) where
  header : Header Stamp
  timebase : UInt64
  pointNum : UInt32
  lidarId : UInt8
  points : List CustomPoint
  deriving DecidableEq, Repr

/-! ## `PointCloud2` -/

/-- `LivoxPointXyzrtlt`. -/
structure LivoxPointXyzrtlt where
  x : UInt32
  y : UInt32
  z : UInt32
  reflectivity : UInt32
  tag : UInt8
  line : UInt8
  timestamp : Option ℚ
  deriving DecidableEq, Repr

namespace LivoxPointXyzrtlt

/-- The members in the order of the packed structure. -/
def members (p : LivoxPointXyzrtlt) : List Scalar :=
  [.float32 p.x, .float32 p.y, .float32 p.z, .float32 p.reflectivity, .uint8 p.tag, .uint8 p.line,
    .float64 p.timestamp]

def bytes (p : LivoxPointXyzrtlt) : List (Memory.Fragment Scalar) :=
  Memory.packed Scalar.size p.members

/-- `sizeof(LivoxPointXyzrtlt)`. -/
def sizeof : UInt32 := 26

@[simp] theorem length_bytes (p : LivoxPointXyzrtlt) : p.bytes.length = sizeof.toNat := by
  unfold bytes
  rw [Memory.length_packed]
  rfl

end LivoxPointXyzrtlt

/-- The point that `InitPointcloud2Msg` copies. -/
def PointXyzlt.toLivoxPoint (p : PointXyzlt) : LivoxPointXyzrtlt where
  x := p.x
  y := p.y
  z := p.z
  reflectivity := p.intensity
  tag := p.tag
  line := p.line
  timestamp := some p.offsetTime.toNat

section Driver

variable {Stamp : Type} (time : RosTime Stamp) (frameId : String)

/-- `Lddc::InitPointcloud2MsgHeader`. -/
def initPointcloud2MsgHeader (cloud : PointCloud2 Stamp) : PointCloud2 Stamp :=
  { cloud with
    header := { cloud.header with frameId := frameId }
    height := 1
    width := 0
    fields :=
      [ ⟨"x", 0, PointField.FLOAT32, 1⟩, ⟨"y", 4, PointField.FLOAT32, 1⟩,
        ⟨"z", 8, PointField.FLOAT32, 1⟩, ⟨"intensity", 12, PointField.FLOAT32, 1⟩,
        ⟨"tag", 16, PointField.UINT8, 1⟩, ⟨"line", 17, PointField.UINT8, 1⟩,
        ⟨"timestamp", 18, PointField.FLOAT64, 1⟩ ]
    pointStep := LivoxPointXyzrtlt.sizeof }

/-- `Lddc::InitPointcloud2Msg`, with the `timestamp` it returns. -/
def initPointcloud2Msg (pkg : StoragePacket) (cloud : PointCloud2 Stamp) (timestamp : UInt64) :
    Option (PointCloud2 Stamp × UInt64) := do
  let cloud := initPointcloud2MsgHeader frameId cloud
  let timestamp := if pkg.points.isEmpty then timestamp else pkg.baseTime
  let points ← (List.range pkg.pointsNum.toNat).mapM fun i =>
    pkg.points[i]?.bind fun p => some p.toLivoxPoint
  return ({ cloud with
    header := { cloud.header with stamp := time.stamp timestamp }
    width := pkg.pointsNum
    rowStep := pkg.pointsNum * LivoxPointXyzrtlt.sizeof
    isBigendian := false
    isDense := true
    data := (points.map LivoxPointXyzrtlt.bytes).flatten }, timestamp)

/-! ## `CustomMsg` -/

/-- `kLivoxLidarType`. -/
def kLivoxLidarType : UInt8 := 8

/-- `LidarDevice`, without what the messages do not use. -/
structure LidarDevice where
  lidarType : UInt8
  handle : UInt32
  deriving DecidableEq, Repr

/-- `Lddc::InitCustomMsg`. -/
def initCustomMsg (pkg : StoragePacket) (lidar : LidarDevice) : CustomMsg Stamp :=
  let timestamp := if pkg.points.isEmpty then 0 else pkg.baseTime
  { header := { stamp := time.stamp timestamp, frameId := frameId }
    timebase := timestamp
    pointNum := pkg.pointsNum
    lidarId := if lidar.lidarType = kLivoxLidarType then lidar.handle.toUInt8 else 0
    points := [] }

/-- A `float` assigned to a `uint8_t`: undefined where its integer part is not one. -/
def floatToUInt8 (bits : UInt32) : Option UInt8 := do
  let v ← decode32 bits
  if 0 ≤ truncate v ∧ truncate v < 256 then some (UInt8.ofNat (truncate v).toNat) else none

/-- The point that `FillPointsToCustomMsg` makes. -/
def PointXyzlt.toCustomPoint (baseTime : UInt64) (p : PointXyzlt) : Option CustomPoint := do
  let reflectivity ← floatToUInt8 p.intensity
  return {
    x := p.x
    y := p.y
    z := p.z
    reflectivity := reflectivity
    tag := p.tag
    line := p.line
    offsetTime := (p.offsetTime - baseTime).toUInt32 }

/-- `Lddc::FillPointsToCustomMsg`. -/
def fillPointsToCustomMsg (msg : CustomMsg Stamp) (pkg : StoragePacket) :
    Option (CustomMsg Stamp) := do
  let points ← (List.range pkg.pointsNum.toNat).mapM fun i =>
    pkg.points[i]?.bind (PointXyzlt.toCustomPoint pkg.baseTime)
  return { msg with points := msg.points ++ points }

/-- The message of `PublishCustomPointcloud`. -/
def customMsg (pkg : StoragePacket) (lidar : LidarDevice) : Option (CustomMsg Stamp) :=
  fillPointsToCustomMsg (initCustomMsg time frameId pkg lidar) pkg

end Driver

end FastLivo.Livox
