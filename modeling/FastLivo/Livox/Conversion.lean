import FastLivo.Livox.PointFormats

/-!
# From `PointCloud2` to `CustomMsg`

`PointCloud2ToCustomNode` reads the points of a `PointCloud2` back from memory. On the
message of the driver it finds every member where the driver wrote it; the reflectivity and
the offset time are converted in another way than the driver converts them.
-/

namespace FastLivo.Livox

open Lib

/-! ## The converter -/

/-- `find_field`. -/
def findField {Stamp : Type} (cloud : PointCloud2 Stamp) (name : String) : Option PointField :=
  cloud.fields.find? fun field => field.name == name

/-- `read_value<float>`. -/
def readFloat (data : List (Memory.Fragment Scalar)) (address : ℕ) : Option UInt32 :=
  match Memory.read Scalar.size data address 4 with
  | some (.float32 bits) => some bits
  | _ => none

/-- `read_value<std::uint8_t>`. -/
def readUInt8 (data : List (Memory.Fragment Scalar)) (address : ℕ) : Option UInt8 :=
  match Memory.read Scalar.size data address 1 with
  | some (.uint8 value) => some value
  | _ => none

/-- `read_value<double>`. -/
def readDouble (data : List (Memory.Fragment Scalar)) (address : ℕ) : Option (Option ℚ) :=
  match Memory.read Scalar.size data address 8 with
  | some (.float64 value) => some value
  | _ => none

theorem readFloat_eq {data : List (Memory.Fragment Scalar)} {address : ℕ} {bits : UInt32}
    (h : Memory.read Scalar.size data address 4 = some (.float32 bits)) :
    readFloat data address = some bits := by
  unfold readFloat
  rw [h]

theorem readUInt8_eq {data : List (Memory.Fragment Scalar)} {address : ℕ} {value : UInt8}
    (h : Memory.read Scalar.size data address 1 = some (.uint8 value)) :
    readUInt8 data address = some value := by
  unfold readUInt8
  rw [h]

theorem readDouble_eq {data : List (Memory.Fragment Scalar)} {address : ℕ} {value : Option ℚ}
    (h : Memory.read Scalar.size data address 8 = some (.float64 value)) :
    readDouble data address = some value := by
  unfold readDouble
  rw [h]

/-- `std::lround`: unspecified where the nearest integer is not a `long`. -/
def lround (v : ℚ) : Option ℤ :=
  let n := roundAway v
  if -9223372036854775808 ≤ n ∧ n < 9223372036854775808 then some n else none

/-- `to_reflectivity`. -/
def toReflectivity (intensity : UInt32) : Option UInt8 :=
  match decode32 intensity with
  | none => some 0
  | some v => (lround v).map fun n => UInt8.ofNat (max 0 (min n 255)).toNat

/-- `to_offset_time`. -/
def toOffsetTime (timestampNs timebaseNs : Option ℚ) : UInt32 :=
  match timestampNs, timebaseNs with
  | some timestamp, some timebase =>
    let relative := timestamp - timebase
    if relative ≤ 0 then 0
    else UInt32.ofNat (min (roundAway relative) 4294967295).toNat
  | _, _ => 0

/-- The fields that `validate` finds, by what they are named. -/
structure PointFields where
  x : PointField
  y : PointField
  z : PointField
  intensity : PointField
  tag : PointField
  line : PointField
  timestamp : PointField
  deriving DecidableEq, Repr

section Converter

variable {Stamp : Type}

/-- A turn of the loop of `validate`. -/
def validateField (cloud : PointCloud2 Stamp) (name : String) (type : UInt8) (size : UInt32) :
    Except String PointField :=
  match findField cloud name with
  | none => .error (invalidField name)
  | some field =>
    if field.datatype ≠ type ∨ field.count ≠ 1 ∨ cloud.pointStep < field.offset + size then
      .error (invalidField name)
    else .ok field
where
  invalidField (name : String) : String :=
    "Invalid Livox PointCloud2: field '" ++ name ++ "' is missing or has an unexpected layout"

/-- `required_size`. -/
def PointCloud2.requiredSize (cloud : PointCloud2 Stamp) : UInt64 :=
  if cloud.height = 0 then 0
  else (cloud.height - 1).toUInt64 * cloud.rowStep.toUInt64 +
    cloud.width.toUInt64 * cloud.pointStep.toUInt64

/-- `PointCloud2ToCustomNode::validate`. -/
def validate (cloud : PointCloud2 Stamp) : Except String PointFields := do
  let x ← validateField cloud "x" PointField.FLOAT32 4
  let y ← validateField cloud "y" PointField.FLOAT32 4
  let z ← validateField cloud "z" PointField.FLOAT32 4
  let intensity ← validateField cloud "intensity" PointField.FLOAT32 4
  let tag ← validateField cloud "tag" PointField.UINT8 1
  let line ← validateField cloud "line" PointField.UINT8 1
  let timestamp ← validateField cloud "timestamp" PointField.FLOAT64 8
  if cloud.isBigendian then throw "Big-endian PointCloud2 is not supported"
  if cloud.data.length < cloud.requiredSize.toNat then
    throw ("PointCloud2 data is truncated: need " ++ toString cloud.requiredSize ++
      " bytes, got " ++ toString cloud.data.length)
  return ⟨x, y, z, intensity, tag, line, timestamp⟩

/-- The point at this address. -/
def readPoint (fields : PointFields) (data : List (Memory.Fragment Scalar)) (timebase : UInt64)
    (address : ℕ) : Option CustomPoint := do
  let x ← readFloat data (address + fields.x.offset.toNat)
  let y ← readFloat data (address + fields.y.offset.toNat)
  let z ← readFloat data (address + fields.z.offset.toNat)
  let intensity ← readFloat data (address + fields.intensity.offset.toNat)
  let reflectivity ← toReflectivity intensity
  let tag ← readUInt8 data (address + fields.tag.offset.toNat)
  let line ← readUInt8 data (address + fields.line.offset.toNat)
  let timestamp ← readDouble data (address + fields.timestamp.offset.toNat)
  return {
    x := x
    y := y
    z := z
    reflectivity := reflectivity
    tag := tag
    line := line
    offsetTime := toOffsetTime timestamp (some timebase.toNat) }

/-- The message that `PointCloud2ToCustomNode::convert` publishes, unless it rejects the cloud
or its time is negative. -/
def convert (time : RosTime Stamp) (lidarId : UInt8) (cloud : PointCloud2 Stamp) :
    Option (CustomMsg Stamp) := do
  let fields ← (validate cloud).toOption
  let nanoseconds ← time.nanoseconds cloud.header.stamp
  let timebase := UInt64.ofNat nanoseconds
  let rows ← (List.range cloud.height.toNat).mapM fun row =>
    (List.range cloud.width.toNat).mapM fun col =>
      readPoint fields cloud.data timebase
        (row * cloud.rowStep.toNat + col * cloud.pointStep.toNat)
  return {
    header := cloud.header
    timebase := timebase
    pointNum := UInt32.ofNat rows.flatten.length
    lidarId := lidarId
    points := rows.flatten }

end Converter

/-! ## The message of the driver -/

/-- What the converter makes of a point of the driver. -/
def PointXyzlt.converted (timebase : UInt64) (p : PointXyzlt) : Option CustomPoint := do
  let reflectivity ← toReflectivity p.intensity
  return {
    x := p.x
    y := p.y
    z := p.z
    reflectivity := reflectivity
    tag := p.tag
    line := p.line
    offsetTime := toOffsetTime (some p.offsetTime.toNat) (some timebase.toNat) }

/-- The fields of `InitPointcloud2MsgHeader`. -/
def driverFields : PointFields where
  x := ⟨"x", 0, PointField.FLOAT32, 1⟩
  y := ⟨"y", 4, PointField.FLOAT32, 1⟩
  z := ⟨"z", 8, PointField.FLOAT32, 1⟩
  intensity := ⟨"intensity", 12, PointField.FLOAT32, 1⟩
  tag := ⟨"tag", 16, PointField.UINT8, 1⟩
  line := ⟨"line", 17, PointField.UINT8, 1⟩
  timestamp := ⟨"timestamp", 18, PointField.FLOAT64, 1⟩

section Layout

variable {ps : List LivoxPointXyzrtlt} {i : ℕ} (hi : i < ps.length)

include hi

/-- A member of a point lies at its offset from the address of the point. -/
theorem read_member (k : ℕ) (hk : k < ps[i].members.length) :
    Memory.read Scalar.size (ps.map LivoxPointXyzrtlt.bytes).flatten
      (i * LivoxPointXyzrtlt.sizeof.toNat + ((ps[i].members.take k).map Scalar.size).sum)
      ps[i].members[k].size = some ps[i].members[k] := by
  have hstep : ∀ b ∈ ps.map LivoxPointXyzrtlt.bytes,
      b.length = LivoxPointXyzrtlt.sizeof.toNat := by
    intro b hb
    obtain ⟨p, -, rfl⟩ := List.mem_map.mp hb
    exact p.length_bytes
  have hi' : i < (ps.map LivoxPointXyzrtlt.bytes).length := by simpa using hi
  rw [Memory.read_block Scalar.size hstep hi', List.getElem_map]
  exact Memory.read_packed Scalar.size _ k hk (Scalar.size_pos _) _

/-- The converter reads back what the driver wrote. -/
theorem readPoint_driver (timebase : UInt64) :
    readPoint driverFields (ps.map LivoxPointXyzrtlt.bytes).flatten timebase
      (i * LivoxPointXyzrtlt.sizeof.toNat) =
      (toReflectivity ps[i].reflectivity).map fun reflectivity =>
        { x := ps[i].x
          y := ps[i].y
          z := ps[i].z
          reflectivity := reflectivity
          tag := ps[i].tag
          line := ps[i].line
          offsetTime := toOffsetTime ps[i].timestamp (some timebase.toNat) } := by
  have hx : readFloat (ps.map LivoxPointXyzrtlt.bytes).flatten
      (i * LivoxPointXyzrtlt.sizeof.toNat + driverFields.x.offset.toNat) = some ps[i].x :=
    readFloat_eq (read_member hi 0 (by decide : 0 < 7))
  have hy : readFloat (ps.map LivoxPointXyzrtlt.bytes).flatten
      (i * LivoxPointXyzrtlt.sizeof.toNat + driverFields.y.offset.toNat) = some ps[i].y :=
    readFloat_eq (read_member hi 1 (by decide : 1 < 7))
  have hz : readFloat (ps.map LivoxPointXyzrtlt.bytes).flatten
      (i * LivoxPointXyzrtlt.sizeof.toNat + driverFields.z.offset.toNat) = some ps[i].z :=
    readFloat_eq (read_member hi 2 (by decide : 2 < 7))
  have hintensity : readFloat (ps.map LivoxPointXyzrtlt.bytes).flatten
      (i * LivoxPointXyzrtlt.sizeof.toNat + driverFields.intensity.offset.toNat) =
        some ps[i].reflectivity :=
    readFloat_eq (read_member hi 3 (by decide : 3 < 7))
  have htag : readUInt8 (ps.map LivoxPointXyzrtlt.bytes).flatten
      (i * LivoxPointXyzrtlt.sizeof.toNat + driverFields.tag.offset.toNat) = some ps[i].tag :=
    readUInt8_eq (read_member hi 4 (by decide : 4 < 7))
  have hline : readUInt8 (ps.map LivoxPointXyzrtlt.bytes).flatten
      (i * LivoxPointXyzrtlt.sizeof.toNat + driverFields.line.offset.toNat) = some ps[i].line :=
    readUInt8_eq (read_member hi 5 (by decide : 5 < 7))
  have htimestamp : readDouble (ps.map LivoxPointXyzrtlt.bytes).flatten
      (i * LivoxPointXyzrtlt.sizeof.toNat + driverFields.timestamp.offset.toNat) =
        some ps[i].timestamp :=
    readDouble_eq (read_member hi 6 (by decide : 6 < 7))
  unfold readPoint
  rw [hx, hy, hz, hintensity, htag, hline, htimestamp]
  cases h : toReflectivity ps[i].reflectivity <;> simp [h]

end Layout

section Driver

variable {Stamp : Type} (time : RosTime Stamp)

/-- The message that `InitPointcloud2Msg` leaves for these points. -/
def driverCloud (frameId : String) (pkg : StoragePacket) (timestamp : UInt64) :
    PointCloud2 Stamp where
  header := { stamp := time.stamp timestamp, frameId := frameId }
  height := 1
  width := pkg.pointsNum
  fields :=
    [driverFields.x, driverFields.y, driverFields.z, driverFields.intensity, driverFields.tag,
      driverFields.line, driverFields.timestamp]
  isBigendian := false
  pointStep := LivoxPointXyzrtlt.sizeof
  rowStep := pkg.pointsNum * LivoxPointXyzrtlt.sizeof
  data := (((pkg.points.take pkg.pointsNum.toNat).map PointXyzlt.toLivoxPoint).map
    LivoxPointXyzrtlt.bytes).flatten
  isDense := true

theorem initPointcloud2Msg_eq (frameId : String) {pkg : StoragePacket}
    (hnum : pkg.pointsNum.toNat ≤ pkg.points.length) (hne : pkg.points ≠ [])
    (cloud : PointCloud2 Stamp) (timestamp : UInt64) :
    initPointcloud2Msg time frameId pkg cloud timestamp =
      some (driverCloud time frameId pkg pkg.baseTime, pkg.baseTime) := by
  have hempty : pkg.points.isEmpty = false := by simpa using hne
  have hpoints : ((List.range pkg.pointsNum.toNat).mapM fun i =>
      pkg.points[i]?.bind fun p => some p.toLivoxPoint) =
      some ((pkg.points.take pkg.pointsNum.toNat).map PointXyzlt.toLivoxPoint) := by
    rw [mapM_range hnum]
    exact List.mapM_pure
  unfold initPointcloud2Msg
  simp only [hempty, hpoints]
  rfl

/-- The message of the driver is as long as its points. -/
theorem length_data (frameId : String) {pkg : StoragePacket}
    (hnum : pkg.pointsNum.toNat ≤ pkg.points.length) (timestamp : UInt64) :
    (driverCloud time frameId pkg timestamp).data.length =
      pkg.pointsNum.toNat * LivoxPointXyzrtlt.sizeof.toNat := by
  have hstep : ∀ b ∈ ((pkg.points.take pkg.pointsNum.toNat).map PointXyzlt.toLivoxPoint).map
      LivoxPointXyzrtlt.bytes, b.length = LivoxPointXyzrtlt.sizeof.toNat := by
    intro b hb
    obtain ⟨p, -, rfl⟩ := List.mem_map.mp hb
    exact p.length_bytes
  refine (Memory.length_blocks hstep).trans ?_
  simp [hnum]

theorem requiredSize_driverCloud (frameId : String) (pkg : StoragePacket) (timestamp : UInt64) :
    (driverCloud time frameId pkg timestamp).requiredSize.toNat =
      pkg.pointsNum.toNat * LivoxPointXyzrtlt.sizeof.toNat := by
  have hlt := pkg.pointsNum.toNat_lt
  have hsize : LivoxPointXyzrtlt.sizeof.toNat = 26 := rfl
  have hzero : (1 - 1 : UInt32).toUInt64 = 0 := rfl
  unfold PointCloud2.requiredSize driverCloud
  dsimp only
  rw [if_neg (by decide), hzero, UInt64.zero_mul, UInt64.zero_add, UInt64.toNat_mul,
    UInt32.toNat_toUInt64, UInt32.toNat_toUInt64, hsize]
  omega

/-- The converter accepts the message of the driver. -/
theorem validate_driverCloud (frameId : String) {pkg : StoragePacket}
    (hnum : pkg.pointsNum.toNat ≤ pkg.points.length) (timestamp : UInt64) :
    validate (driverCloud time frameId pkg timestamp) = .ok driverFields := by
  have hlong : ¬(driverCloud time frameId pkg timestamp).data.length <
      (driverCloud time frameId pkg timestamp).requiredSize.toNat := by
    rw [length_data time frameId hnum, requiredSize_driverCloud]
    omega
  have hx : validateField (driverCloud time frameId pkg timestamp) "x" PointField.FLOAT32 4 =
      .ok driverFields.x := rfl
  have hy : validateField (driverCloud time frameId pkg timestamp) "y" PointField.FLOAT32 4 =
      .ok driverFields.y := rfl
  have hz : validateField (driverCloud time frameId pkg timestamp) "z" PointField.FLOAT32 4 =
      .ok driverFields.z := rfl
  have hintensity : validateField (driverCloud time frameId pkg timestamp) "intensity"
      PointField.FLOAT32 4 = .ok driverFields.intensity := rfl
  have htag : validateField (driverCloud time frameId pkg timestamp) "tag" PointField.UINT8 1 =
      .ok driverFields.tag := rfl
  have hline : validateField (driverCloud time frameId pkg timestamp) "line" PointField.UINT8 1 =
      .ok driverFields.line := rfl
  have htimestamp : validateField (driverCloud time frameId pkg timestamp) "timestamp"
      PointField.FLOAT64 8 = .ok driverFields.timestamp := rfl
  have hendian : (driverCloud time frameId pkg timestamp).isBigendian = false := rfl
  unfold validate
  rw [hx, hy, hz, hintensity, htag, hline, htimestamp]
  simp only [hendian, hlong]
  rfl

/-- The converter sees the points of the packet. -/
theorem convert_driverCloud (frameId : String) {pkg : StoragePacket}
    (hnum : pkg.pointsNum.toNat ≤ pkg.points.length) (timestamp : UInt64) (lidarId : UInt8) :
    convert time lidarId (driverCloud time frameId pkg timestamp) = do
      let nanoseconds ← time.nanoseconds (time.stamp timestamp)
      let points ← (pkg.points.take pkg.pointsNum.toNat).mapM
        (PointXyzlt.converted (UInt64.ofNat nanoseconds))
      return {
        header := (driverCloud time frameId pkg timestamp).header
        timebase := UInt64.ofNat nanoseconds
        pointNum := UInt32.ofNat points.length
        lidarId := lidarId
        points := points } := by
  have hrow (timebase : UInt64) :
      ((List.range pkg.pointsNum.toNat).mapM fun col =>
        readPoint driverFields (driverCloud time frameId pkg timestamp).data timebase
          (0 * (driverCloud time frameId pkg timestamp).rowStep.toNat +
            col * LivoxPointXyzrtlt.sizeof.toNat)) =
      (pkg.points.take pkg.pointsNum.toNat).mapM (PointXyzlt.converted timebase) := by
    rw [← mapM_range hnum]
    apply mapM_congr
    intro col hcol
    have hcol' : col < pkg.pointsNum.toNat := List.mem_range.mp hcol
    have hi : col < ((pkg.points.take pkg.pointsNum.toNat).map PointXyzlt.toLivoxPoint).length := by
      simp
      omega
    rw [Nat.zero_mul, Nat.zero_add]
    refine (readPoint_driver hi timebase).trans ?_
    rw [List.getElem?_eq_getElem (by omega), List.getElem_map, List.getElem_take]
    unfold PointXyzlt.converted
    cases h : toReflectivity pkg.points[col].intensity <;> simp [PointXyzlt.toLivoxPoint, h]
  have hrows (timebase : UInt64) :
      ((List.range (driverCloud time frameId pkg timestamp).height.toNat).mapM fun row =>
        (List.range (driverCloud time frameId pkg timestamp).width.toNat).mapM fun col =>
          readPoint driverFields (driverCloud time frameId pkg timestamp).data timebase
            (row * (driverCloud time frameId pkg timestamp).rowStep.toNat +
              col * (driverCloud time frameId pkg timestamp).pointStep.toNat)) =
      ((pkg.points.take pkg.pointsNum.toNat).mapM (PointXyzlt.converted timebase)).map ([·]) := by
    have hheight : List.range (driverCloud time frameId pkg timestamp).height.toNat = [0] := rfl
    rw [hheight, List.mapM_cons, List.mapM_nil]
    refine (congrArg (Option.bind · fun points => some [points]) (hrow timebase)).trans ?_
    exact Option.map_eq_bind.symm
  have hok : (Except.ok driverFields : Except String PointFields).toOption = some driverFields := rfl
  have hstamp : (driverCloud time frameId pkg timestamp).header.stamp = time.stamp timestamp := rfl
  unfold convert
  rw [validate_driverCloud time frameId hnum]
  rw [hok, hstamp]
  simp only [Option.bind_eq_bind, Option.bind_some]
  congr 1
  funext nanoseconds
  rw [hrows]
  cases (pkg.points.take pkg.pointsNum.toNat).mapM
    (PointXyzlt.converted (UInt64.ofNat nanoseconds)) with
  | none => rfl
  | some points => simp

end Driver

end FastLivo.Livox
