import FastLivo.Lib.Run
import FastLivo.Livox.DataQueue
import Mathlib.Logic.Function.Basic

/-!
# The threads around the packet queues

`PushLidarData` runs on the thread that receives points and `DistributePointCloudData` on the one
that publishes them. Their steps come in any order, one access to shared memory each. An access
outside of a vector ends the thread in `fault`.
-/

namespace FastLivo.Livox

open Lib

/-! ## The threads -/

/-- `transfer_format_`. -/
inductive TransferFormat
  | pointCloud2 | livoxCustom | pclPxyzi
  deriving DecidableEq, Repr

/-- Whether the publisher of a format pops packets: the one of `pcl` returns at once. -/
def TransferFormat.pops : TransferFormat → Bool
  | .pointCloud2 | .livoxCustom => true
  | .pclPxyzi => false

/-- What the driver is built and started with: the format, the size that
`CalculatePacketQueueSize` asks for, and what `new` leaves in a packet. -/
structure DriverConfig where
  format : TransferFormat
  queueSize : UInt32
  fresh : StoragePacket

/-- `kMaxSourceLidar`, which `lidar_count_` is set to. -/
def kMaxSourceLidar : ℕ := 32

/-- The members that `InitQueue` sets, in its order. -/
inductive InitStage
  | rdIdx | wrIdx | size | mask
  deriving DecidableEq, Repr

/-- The writes of `QueuePushAny` to a packet, in its order. -/
inductive WriteStage
  | baseTime | pointsNum | clear | resize | copy
  deriving DecidableEq, Repr

/-- Where the thread in `PushLidarData` is. -/
inductive ProducerPc
  | idle
  | enter (i : ℕ) (p : PointPacket)
  | alloc (i : ℕ) (p : PointPacket)
  | init (stage : InitStage) (i : ℕ) (p : PointPacket)
  | testFull (i : ℕ) (p : PointPacket)
  | write (stage : WriteStage) (i : ℕ) (p : PointPacket)
  | bump (i : ℕ) (p : PointPacket)
  | testEmpty (i : ℕ)
  | testCount (i : ℕ)
  | signal (i : ℕ)
  | fault

/-- Where the thread in `DistributePointCloudData` is, with the members of the packet it has read
so far. -/
inductive ConsumerPc
  | start
  | wait
  | visit (i : ℕ)
  | testNull (i : ℕ)
  | testExit (i : ℕ)
  | testEmpty (i : ℕ)
  | publish (i : ℕ)
  | prePop (i : ℕ)
  | readBase (i : ℕ)
  | readNum (i : ℕ) (baseTime : UInt64)
  | resize (i : ℕ) (baseTime : UInt64) (pointsNum : UInt32)
  | copy (i : ℕ) (baseTime : UInt64) (pointsNum size : UInt32)
  | popUpdate (i : ℕ) (pkg : StoragePacket)
  | fault

/-- `Lds` and its threads. `skipped` tells for each device whether it was not sampling when the
publishing thread came to it last. -/
structure Driver where
  device : ℕ → DeviceStorage
  sampling : ℕ → Bool
  count : ℤ
  exit : Bool
  producer : ProducerPc
  consumer : ConsumerPc
  skipped : ℕ → Bool

/-- The driver before the first packet. -/
def Driver.initial : Driver :=
  ⟨fun _ => .initial, fun _ => false, 0, false, .idle, .start, fun _ => false⟩

/-- Another queue for a device. -/
def Driver.setQueue (s : Driver) (i : ℕ) (q : LidarDataQueue) : Driver :=
  { s with device := Function.update s.device i { s.device i with queue := q } }

/-- What a stage writes. -/
def WriteStage.write (p : PointPacket) : WriteStage → StoragePacket → Option StoragePacket
  | .baseTime, slot => some { slot with baseTime := p.baseTime }
  | .pointsNum, slot => some { slot with pointsNum := p.pointsNum }
  | .clear, slot => some { slot with points := [] }
  | .resize, slot => some { slot with points := resizePoints slot.points p.pointsNum.toNat }
  | .copy, slot => (copyPoints slot.points p.points p.pointsNum.toNat).map fun points =>
      { slot with points := points }

/-- Where a stage leads to. -/
def WriteStage.next (i : ℕ) (p : PointPacket) : WriteStage → ProducerPc
  | .baseTime => .write .pointsNum i p
  | .pointsNum => .write .clear i p
  | .clear => .write .resize i p
  | .resize => .write .copy i p
  | .copy => .bump i p

/-- A step of `PushLidarData`. -/
def producerStep (c : DriverConfig) (s : Driver) : Option Driver :=
  match s.producer with
  | .idle | .fault => none
  | .enter i p => some { s with
      producer := if (s.device i).queue.storagePacket.isNone then .alloc i p else .testFull i p }
  | .alloc i p => some { s.setQueue i { (s.device i).queue with
      storagePacket := some (List.replicate (queueSize c.queueSize).toNat c.fresh) } with
        producer := .init .rdIdx i p }
  | .init .rdIdx i p => some { s.setQueue i { (s.device i).queue with rdIdx := 0 } with
      producer := .init .wrIdx i p }
  | .init .wrIdx i p => some { s.setQueue i { (s.device i).queue with wrIdx := 0 } with
      producer := .init .size i p }
  | .init .size i p => some { s.setQueue i { (s.device i).queue with
      size := queueSize c.queueSize } with producer := .init .mask i p }
  | .init .mask i p => some { s.setQueue i { (s.device i).queue with
      mask := queueSize c.queueSize - 1 } with producer := .testFull i p }
  | .testFull i p => some { s with
      producer := if (s.device i).queue.queueIsFull then .testCount i else .write .baseTime i p }
  | .write stage i p =>
    match (s.device i).queue.writeSlot (stage.write p) with
    | none => some { s with producer := .fault }
    | some q => some { s.setQueue i q with producer := stage.next i p }
  | .bump i p => some { s with
      device := Function.update s.device i { s.device i with
        queue := { (s.device i).queue with wrIdx := (s.device i).queue.wrIdx + 1 }
        pushed := (s.device i).pushed ++ [p.stored] }
      producer := .testEmpty i }
  | .testEmpty i => some { s with
      producer := if (s.device i).queue.queueIsEmpty then .idle else .testCount i }
  | .testCount i => some { s with producer := if s.count ≤ 0 then .signal i else .idle }
  | .signal _ => some { s with count := s.count + 1, producer := .idle }

/-- A step of `DistributePointCloudData`. After an exit request the thread does nothing more than
wait for its own signal to end, and without a count it sleeps. -/
def consumerStep (c : DriverConfig) (s : Driver) : Option Driver :=
  match s.consumer with
  | .fault => none
  | .start => if s.exit then none else some { s with consumer := .wait }
  | .wait => if 0 < s.count then some { s with count := s.count - 1, consumer := .visit 0 } else none
  | .visit i =>
    if i < kMaxSourceLidar then some { s with
      skipped := Function.update s.skipped i (!s.sampling i)
      consumer := if s.sampling i then .testNull i else .visit (i + 1) }
    else some { s with consumer := .start }
  | .testNull i => some { s with consumer :=
      if (s.device i).queue.storagePacket.isNone then .visit (i + 1) else .testExit i }
  | .testExit i => some { s with consumer := if s.exit then .visit (i + 1) else .testEmpty i }
  | .testEmpty i => some { s with consumer :=
      if (s.device i).queue.queueIsEmpty then .visit (i + 1)
      else if c.format.pops then .publish i else .testExit i }
  | .publish i => some { s with consumer :=
      if (s.device i).queue.queueIsEmpty then .testExit i else .prePop i }
  | .prePop i => some { s with consumer :=
      if (s.device i).queue.queueIsEmpty then .publish i else .readBase i }
  | .readBase i =>
    match (s.device i).queue.slot (s.device i).queue.rdIdx with
    | none => some { s with consumer := .fault }
    | some slot => some { s with consumer := .readNum i slot.baseTime }
  | .readNum i baseTime =>
    match (s.device i).queue.slot (s.device i).queue.rdIdx with
    | none => some { s with consumer := .fault }
    | some slot => some { s with consumer := .resize i baseTime slot.pointsNum }
  | .resize i baseTime pointsNum =>
    match (s.device i).queue.slot (s.device i).queue.rdIdx with
    | none => some { s with consumer := .fault }
    | some slot => some { s with consumer := .copy i baseTime pointsNum slot.pointsNum }
  | .copy i baseTime pointsNum size =>
    match (s.device i).queue.slot (s.device i).queue.rdIdx |>.bind fun slot =>
      copyPoints (resizePoints [] size.toNat) slot.points pointsNum.toNat with
    | none => some { s with consumer := .fault }
    | some points => some { s with consumer := .popUpdate i ⟨baseTime, pointsNum, points⟩ }
  | .popUpdate i pkg => some { s with
      device := Function.update s.device i { s.device i with
        queue := { (s.device i).queue with rdIdx := (s.device i).queue.rdIdx + 1 }
        popped := (s.device i).popped ++ [pkg]
        published := (s.device i).published ++ if pkg.points = [] then [] else [pkg] }
      consumer := .publish i }

/-- What happens in the driver: a packet comes for a device, a thread goes on, the state of a
device changes, and the node asks its threads to end. -/
inductive DriverEvent
  | push (i : ℕ) (p : PointPacket)
  | producer
  | consumer
  | connect (i : ℕ) (sampling : Bool)
  | requestExit

/-- A step of the driver. -/
def driverStep (c : DriverConfig) (s : Driver) : DriverEvent → Option Driver
  | .push i p =>
    match s.producer with
    | .idle => if i < kMaxSourceLidar then some { s with producer := .enter i p } else none
    | _ => none
  | .producer => producerStep c s
  | .consumer => consumerStep c s
  | .connect i sampling => some { s with sampling := Function.update s.sampling i sampling }
  | .requestExit => some { s with exit := true }

/-- The states of the driver, whatever order its steps come in. -/
abbrev DriverReach (c : DriverConfig) (s : Driver) : Prop :=
  Reach (driverStep c) (fun _ _ => True) Driver.initial s

end FastLivo.Livox
