import FastLivo.Lib.CheckedAccess
import FastLivo.Livox.PointFormats

/-!
# Point packets of the lidar driver

`OnLivoxLidarPointCloudCallback` copies a packet of the network into the queue, and the processing
thread decodes its points. The count of points, the length and the type come from the packet, and
nothing compares them: the count divides, the length is subtracted from, and the decoders read as
many points as are announced.
-/

namespace FastLivo.Livox

open Lib

/-! ## Packets -/

/-- The structures and constants of the SDK: sizes in bytes, data types and types of devices. -/
structure LivoxSdk where
  ethernetPacket : ℕ
  rawImuPoint : ℕ
  cartesianHighRawPoint : ℕ
  cartesianLowRawPoint : ℕ
  spherPoint : ℕ
  imuData : UInt8
  cartesianCoordinateHighData : UInt8
  cartesianCoordinateLowData : UInt8
  sphericalCoordinateData : UInt8
  industrialHAP : UInt8
  mid360 : UInt8
  /-- A packet ends with an array of one byte. -/
  ethernetPacket_pos : 0 < ethernetPacket
  ethernetPacket_lt : ethernetPacket < 65536
  rawImuPoint_pos : 0 < rawImuPoint

/-- `LivoxLidarEthernetPacket`, without what the driver does not read. The stated length counts the
header and the bytes from `data` on. -/
structure EthernetPacket (sdk : LivoxSdk) where
  length : UInt16
  timeInterval : UInt16
  dotNum : UInt16
  dataType : UInt8
  timeType : UInt8
  data : List UInt8
  length_data : data.length = length.toNat + 1 - sdk.ethernetPacket

/-- `RawPacket`. -/
structure RawPacket where
  lidarType : UInt8
  handle : UInt32
  extrinsicEnable : Bool
  pointNum : UInt32
  dataType : UInt8
  lineNum : UInt8
  timeStamp : UInt64
  pointInterval : UInt64
  rawData : List UInt8
  deriving DecidableEq, Repr

/-- What the callback leaves behind: whether devices have a time source, the bytes of an IMU point
and the packet it queues. -/
structure Received where
  timestampSync : Option Bool := none
  imu : Option (List UInt8) := none
  packet : Option RawPacket := none
  deriving DecidableEq, Repr

/-- `kLineNumberHAP`. -/
def kLineNumberHAP : UInt8 := 6

/-- `kLineNumberMid360`. -/
def kLineNumberMid360 : UInt8 := 4

/-- `kLineNumberDefault`. -/
def kLineNumberDefault : UInt8 := 1

/-- `kTimestampTypeNoSync`. -/
def kTimestampTypeNoSync : UInt8 := 0

/-- What the callback uses of its client. -/
structure Client where
  imuCallback : Bool
  deriving DecidableEq, Repr

section Callback

variable (sdk : LivoxSdk)

/-- `line_num` of a type of device. -/
def lineNum (devType : UInt8) : UInt8 :=
  if devType = sdk.industrialHAP then kLineNumberHAP
  else if devType = sdk.mid360 then kLineNumberMid360
  else kLineNumberDefault

/-- `point_interval`, which has no value when the packet announces no point. -/
def EthernetPacket.pointInterval {sdk : LivoxSdk} (data : EthernetPacket sdk) : Option UInt64 :=
  if data.dotNum = 0 then none
  else some (UInt64.ofNat (data.timeInterval.toNat * 100 / data.dotNum.toNat))

/-- `length`: a difference of `size_t` in 32 bits. -/
def EthernetPacket.copiedLength {sdk : LivoxSdk} (data : EthernetPacket sdk) : UInt32 :=
  (data.length.toUInt64 - UInt64.ofNat sdk.ethernetPacket + 1).toUInt32

/-- The packet that the callback queues. -/
def EthernetPacket.rawPacket {sdk : LivoxSdk} (data : EthernetPacket sdk) (handle : UInt32)
    (devType : UInt8) (timeStamp pointInterval : UInt64) (rawData : List UInt8) : RawPacket where
  lidarType := kLivoxLidarType
  handle := handle
  extrinsicEnable := false
  pointNum := data.dotNum.toUInt32
  dataType := data.dataType
  lineNum := lineNum sdk devType
  timeStamp := timeStamp
  pointInterval := pointInterval
  rawData := rawData

/-- `PubHandler::OnLivoxLidarPointCloudCallback`, with the time that `NormalizeTimestamp` returns.
`none` when it divides by zero or reads behind the packet. -/
def onLivoxLidarPointCloudCallback (handle : UInt32) (devType : UInt8) (data : EthernetPacket sdk)
    (clientData : Option Client) (timeStamp : UInt64) : Option Received :=
  match clientData with
  | none => some {}
  | some self =>
    let sync := decide (data.timeType ≠ kTimestampTypeNoSync)
    if data.dataType = sdk.imuData then
      if self.imuCallback then do
        let imu ← loadBytes data.data 0 sdk.rawImuPoint
        return { timestampSync := sync, imu := imu }
      else some { timestampSync := sync }
    else do
      let pointInterval ← data.pointInterval
      let rawData ← loadBytes data.data 0 data.copiedLength.toNat
      let packet := data.rawPacket handle devType timeStamp pointInterval rawData
      return { timestampSync := sync, packet := packet }

end Callback

/-! ## Points -/

/-- The arithmetic of the decoders: the coordinates, the intensity and the tag of the bytes of a
raw point, with or without extrinsic parameters. -/
structure PointDecoder where
  cartesianHigh : Bool → List UInt8 → PointXyzlt
  cartesianLow : Bool → List UInt8 → PointXyzlt
  spherical : Bool → List UInt8 → PointXyzlt

/-- `i % pkt.line_num`. -/
def RawPacket.line (pkt : RawPacket) (i : ℕ) : Option UInt8 :=
  if pkt.lineNum = 0 then none else some (UInt8.ofNat (i % pkt.lineNum.toNat))

/-- The loop of the decoders. `none` when it divides by zero or reads behind the raw data. -/
def RawPacket.points (pkt : RawPacket) (decode : Bool → List UInt8 → PointXyzlt) (size : ℕ) :
    Option (List PointXyzlt) :=
  (List.range pkt.pointNum.toNat).mapM fun i => do
    let raw ← loadBytes pkt.rawData (i * size) size
    let line ← pkt.line i
    return { decode pkt.extrinsicEnable raw with
      line := line
      offsetTime := pkt.timeStamp + UInt64.ofNat i * pkt.pointInterval }

section Process

variable (sdk : LivoxSdk) (decoder : PointDecoder)

/-- `LidarPubHandler::ProcessCartesianHighPoint`: the points it appends. -/
def processCartesianHighPoint (pkt : RawPacket) : Option (List PointXyzlt) :=
  pkt.points decoder.cartesianHigh sdk.cartesianHighRawPoint

/-- `LidarPubHandler::ProcessCartesianLowPoint`. -/
def processCartesianLowPoint (pkt : RawPacket) : Option (List PointXyzlt) :=
  pkt.points decoder.cartesianLow sdk.cartesianLowRawPoint

/-- `LidarPubHandler::ProcessSphericalPoint`. -/
def processSphericalPoint (pkt : RawPacket) : Option (List PointXyzlt) :=
  pkt.points decoder.spherical sdk.spherPoint

/-- `LidarPubHandler::LivoxLidarPointCloudProcess`. -/
def livoxLidarPointCloudProcess (pkt : RawPacket) : Option (List PointXyzlt) :=
  if pkt.dataType = sdk.cartesianCoordinateHighData then processCartesianHighPoint sdk decoder pkt
  else if pkt.dataType = sdk.cartesianCoordinateLowData then
    processCartesianLowPoint sdk decoder pkt
  else if pkt.dataType = sdk.sphericalCoordinateData then processSphericalPoint sdk decoder pkt
  else some []

/-- `LidarPubHandler::PointCloudProcess`. -/
def pointCloudProcess (pkt : RawPacket) : Option (List PointXyzlt) :=
  if pkt.lidarType = kLivoxLidarType then livoxLidarPointCloudProcess sdk decoder pkt else some []

/-- What becomes of a packet of the network: the callback, and the processing of what it queues. -/
def handlePacket (handle : UInt32) (devType : UInt8) (data : EthernetPacket sdk)
    (clientData : Option Client) (timeStamp : UInt64) : Option (List PointXyzlt) := do
  let received ← onLivoxLidarPointCloudCallback sdk handle devType data clientData timeStamp
  match received.packet with
  | none => some []
  | some pkt => pointCloudProcess sdk decoder pkt

end Process

/-! ## Reads -/

/-- The size of the raw points of a data type. -/
def LivoxSdk.rawPoint (sdk : LivoxSdk) (dataType : UInt8) : Option ℕ :=
  if dataType = sdk.cartesianCoordinateHighData then some sdk.cartesianHighRawPoint
  else if dataType = sdk.cartesianCoordinateLowData then some sdk.cartesianLowRawPoint
  else if dataType = sdk.sphericalCoordinateData then some sdk.spherPoint
  else none

/-- The bytes that the points of a packet take. -/
def EthernetPacket.announced {sdk : LivoxSdk} (data : EthernetPacket sdk) : ℕ :=
  data.dotNum.toNat * (sdk.rawPoint data.dataType).getD 0

/-- A packet whose stated length has room for what it announces. -/
structure EthernetPacket.Consistent {sdk : LivoxSdk} (data : EthernetPacket sdk)
    (imuCallback : Bool) : Prop where
  imu : data.dataType = sdk.imuData → imuCallback = true →
    sdk.ethernetPacket + sdk.rawImuPoint ≤ data.length.toNat + 1
  dots : data.dataType ≠ sdk.imuData → data.dotNum ≠ 0
  points : data.dataType ≠ sdk.imuData →
    sdk.ethernetPacket + data.announced ≤ data.length.toNat + 1

section Reads

variable {sdk : LivoxSdk} {data : EthernetPacket sdk}

theorem toNat_copiedLength (data : EthernetPacket sdk) : data.copiedLength.toNat =
    (18446744073709551616 - sdk.ethernetPacket + data.length.toNat + 1) % 4294967296 := by
  have hsize := sdk.ethernetPacket_lt
  have hlength := data.length.toNat_lt
  rw [EthernetPacket.copiedLength, UInt64.toNat_toUInt32, UInt64.toNat_add, UInt64.toNat_sub,
    UInt64.toNat_ofNat_of_lt' (by show _ < 18446744073709551616; omega), UInt16.toNat_toUInt64]
  have hone : (1 : UInt64).toNat = 1 := rfl
  omega

/-- The copy takes the bytes of the packet, unless the packet is shorter than its header. -/
theorem copy_fits_iff :
    data.copiedLength.toNat ≤ data.data.length ↔
      sdk.ethernetPacket ≤ data.length.toNat + 1 := by
  have hsize := sdk.ethernetPacket_lt
  have hlength := data.length.toNat_lt
  rw [toNat_copiedLength, data.length_data]
  omega

theorem length_copied (h : sdk.ethernetPacket ≤ data.length.toNat + 1) {raw : List UInt8}
    (hcopy : loadBytes data.data 0 data.copiedLength.toNat = some raw) :
    raw.length = data.length.toNat + 1 - sdk.ethernetPacket := by
  have hsize := sdk.ethernetPacket_lt
  have hlength := data.length.toNat_lt
  rw [length_of_loadBytes hcopy, toNat_copiedLength]
  omega

theorem lineNum_ne_zero (devType : UInt8) : lineNum sdk devType ≠ 0 := by
  rw [lineNum]
  split
  · decide
  split <;> decide

/-- The decoders read all of the points that a packet announces. -/
theorem isSome_points_iff {pkt : RawPacket} (hline : pkt.lineNum ≠ 0)
    (decode : Bool → List UInt8 → PointXyzlt) (size : ℕ) :
    (pkt.points decode size).isSome ↔
      pkt.pointNum.toNat = 0 ∨ pkt.pointNum.toNat * size ≤ pkt.rawData.length := by
  have hturn (i : ℕ) : ((do
      let raw ← loadBytes pkt.rawData (i * size) size
      let line ← pkt.line i
      return { decode pkt.extrinsicEnable raw with
        line := line
        offsetTime := pkt.timeStamp + UInt64.ofNat i * pkt.pointInterval } :
          Option PointXyzlt)).isSome ↔ i * size + size ≤ pkt.rawData.length := by
    have hline : pkt.line i = some (UInt8.ofNat (i % pkt.lineNum.toNat)) := if_neg hline
    rw [← isSome_loadBytes_iff, hline]
    cases loadBytes pkt.rawData (i * size) size <;> exact Iff.rfl
  rw [RawPacket.points, isSome_mapM_iff]
  simp only [List.mem_range, hturn]
  constructor
  · intro h
    rcases Nat.eq_zero_or_pos pkt.pointNum.toNat with hzero | hpos
    · exact .inl hzero
    · have hlast := h (pkt.pointNum.toNat - 1) (by omega)
      rw [← Nat.succ_mul, Nat.succ_eq_add_one, Nat.sub_add_cancel hpos] at hlast
      exact .inr hlast
  · rintro (hzero | hall) i hi
    · omega
    · have hle : (i + 1) * size ≤ pkt.pointNum.toNat * size := Nat.mul_le_mul_right _ hi
      rw [Nat.succ_mul] at hle
      omega

theorem isSome_pointCloudProcess_iff {decoder : PointDecoder} {pkt : RawPacket}
    (hlidar : pkt.lidarType = kLivoxLidarType) (hline : pkt.lineNum ≠ 0) :
    (pointCloudProcess sdk decoder pkt).isSome ↔ pkt.pointNum.toNat = 0 ∨
      pkt.pointNum.toNat * (sdk.rawPoint pkt.dataType).getD 0 ≤ pkt.rawData.length := by
  rw [pointCloudProcess, if_pos hlidar, livoxLidarPointCloudProcess, LivoxSdk.rawPoint]
  split
  · exact isSome_points_iff hline _ _
  split
  · exact isSome_points_iff hline _ _
  split
  · exact isSome_points_iff hline _ _
  · refine iff_of_true rfl (.inr ?_)
    rw [Option.getD_none, Nat.mul_zero]
    exact Nat.zero_le _

section Handle

variable {decoder : PointDecoder} {handle : UInt32} {devType : UInt8} {timeStamp : UInt64}
  {client : Client}

theorem isSome_handle_imu (htype : data.dataType = sdk.imuData) :
    (handlePacket sdk decoder handle devType data (some client) timeStamp).isSome ↔
      (client.imuCallback = true → sdk.ethernetPacket + sdk.rawImuPoint ≤ data.length.toNat + 1) := by
  have hpos := sdk.rawImuPoint_pos
  have hfits : (loadBytes data.data 0 sdk.rawImuPoint).isSome ↔
      sdk.ethernetPacket + sdk.rawImuPoint ≤ data.length.toNat + 1 := by
    rw [isSome_loadBytes_iff, data.length_data]
    omega
  rw [handlePacket, onLivoxLidarPointCloudCallback, if_pos htype, ← hfits]
  cases client.imuCallback with
  | false => exact iff_of_true rfl fun h => absurd h Bool.false_ne_true
  | true =>
    rw [if_pos rfl]
    cases loadBytes data.data 0 sdk.rawImuPoint with
    | none => exact iff_of_false Bool.false_ne_true fun h => Bool.false_ne_true (h rfl)
    | some imu => exact iff_of_true rfl fun _ => rfl

/-- The packet that the callback queues. -/
theorem isSome_handle_points (htype : data.dataType ≠ sdk.imuData) :
    (handlePacket sdk decoder handle devType data (some client) timeStamp).isSome ↔
      data.dotNum ≠ 0 ∧ sdk.ethernetPacket + data.announced ≤ data.length.toNat + 1 := by
  rw [handlePacket, onLivoxLidarPointCloudCallback, if_neg htype, EthernetPacket.pointInterval]
  by_cases hdots : data.dotNum = 0
  · rw [if_pos hdots]
    exact iff_of_false Bool.false_ne_true fun h => h.1 hdots
  rw [if_neg hdots]
  cases hcopy : loadBytes data.data 0 data.copiedLength.toNat with
  | none =>
    have hout := mt isSome_loadBytes_iff.mpr (by rw [hcopy]; exact Bool.false_ne_true)
    rw [Nat.zero_add, copy_fits_iff] at hout
    refine iff_of_false Bool.false_ne_true fun h => hout ?_
    omega
  | some raw =>
    have hfits := isSome_loadBytes_iff.mp (Option.isSome_of_eq_some hcopy)
    rw [Nat.zero_add, copy_fits_iff] at hfits
    have hraw := length_copied hfits hcopy
    have hnum : data.dotNum.toUInt32.toNat = data.dotNum.toNat := UInt16.toNat_toUInt32 _
    have hpos : data.dotNum.toNat ≠ 0 := fun h => hdots (UInt16.toNat_inj.mp h)
    let pkt := data.rawPacket handle devType timeStamp
      (UInt64.ofNat (data.timeInterval.toNat * 100 / data.dotNum.toNat)) raw
    show (pointCloudProcess sdk decoder pkt).isSome ↔ _
    rw [isSome_pointCloudProcess_iff rfl (lineNum_ne_zero devType)]
    show data.dotNum.toUInt32.toNat = 0 ∨ data.dotNum.toUInt32.toNat *
      (sdk.rawPoint data.dataType).getD 0 ≤ raw.length ↔ _
    rw [hnum, or_iff_right hpos, hraw, and_iff_right hdots, EthernetPacket.announced]
    omega

end Handle

end Reads

/-- A packet is handled without a division by zero and without a read behind its data if and only
if its length has room for what it announces. -/
theorem packet_safe_iff (sdk : LivoxSdk) (decoder : PointDecoder) (handle : UInt32)
    (devType : UInt8) (data : EthernetPacket sdk) (clientData : Option Client) (timeStamp : UInt64) :
    (handlePacket sdk decoder handle devType data clientData timeStamp).isSome ↔
      ∀ client, clientData = some client → data.Consistent client.imuCallback := by
  cases clientData with
  | none => exact iff_of_true rfl fun client h => nomatch h
  | some client =>
    have hself : (∀ found, some client = some found → data.Consistent found.imuCallback) ↔
        data.Consistent client.imuCallback :=
      ⟨fun h => h client rfl, fun h found hfound => Option.some.inj hfound ▸ h⟩
    rw [hself]
    by_cases htype : data.dataType = sdk.imuData
    · rw [isSome_handle_imu htype]
      exact ⟨fun h => ⟨fun _ => h, fun hne => absurd htype hne, fun hne => absurd htype hne⟩,
        fun h => h.imu htype⟩
    · rw [isSome_handle_points htype]
      exact ⟨fun h => ⟨fun heq => absurd heq htype, fun _ => h.1, fun _ => h.2⟩,
        fun h => ⟨h.dots htype, h.points htype⟩⟩

/-! ## A point of a Mid-360 -/

/-- The structures of the second version of the SDK. -/
def livoxSdk2 : LivoxSdk where
  ethernetPacket := 37
  rawImuPoint := 24
  cartesianHighRawPoint := 14
  cartesianLowRawPoint := 8
  spherPoint := 10
  imuData := 0
  cartesianCoordinateHighData := 1
  cartesianCoordinateLowData := 2
  sphericalCoordinateData := 3
  industrialHAP := 10
  mid360 := 9
  ethernetPacket_pos := by decide
  ethernetPacket_lt := by decide
  rawImuPoint_pos := by decide

/-- A packet with the data of one point in the high format. -/
def onePointPacket (dotNum : UInt16) : EthernetPacket livoxSdk2 where
  length := 50
  timeInterval := 5
  dotNum := dotNum
  dataType := 1
  timeType := 1
  data := List.replicate 14 0
  length_data := rfl

/-- A packet that is shorter than its header. -/
def shortPacket : EthernetPacket livoxSdk2 where
  length := 10
  timeInterval := 5
  dotNum := 1
  dataType := 4
  timeType := 1
  data := []
  length_data := rfl

/-- Any arithmetic. -/
def zeroDecoder : PointDecoder where
  cartesianHigh _ _ := ⟨0, 0, 0, 0, 0, 0, 0⟩
  cartesianLow _ _ := ⟨0, 0, 0, 0, 0, 0, 0⟩
  spherical _ _ := ⟨0, 0, 0, 0, 0, 0, 0⟩

/-- One announced point is decoded. No announced point is a division by zero, two are a read behind
the data, and a packet that is shorter than its header is copied from far behind its end. -/
theorem malformed_packets :
    (handlePacket livoxSdk2 zeroDecoder 1 9 (onePointPacket 1) (some ⟨true⟩) 1000).isSome ∧
      handlePacket livoxSdk2 zeroDecoder 1 9 (onePointPacket 0) (some ⟨true⟩) 1000 = none ∧
      handlePacket livoxSdk2 zeroDecoder 1 9 (onePointPacket 2) (some ⟨true⟩) 1000 = none ∧
      handlePacket livoxSdk2 zeroDecoder 1 9 shortPacket (some ⟨true⟩) 1000 = none :=
  ⟨rfl, rfl, rfl, rfl⟩

end FastLivo.Livox
