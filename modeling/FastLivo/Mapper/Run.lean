import FastLivo.Mapper.Callbacks
import FastLivo.Mapper.SyncPackages
import FastLivo.Mapper.Estimation
import FastLivo.Lib.Run

/-!
# Runs of the mapper

Everything runs on the thread of `run()`: `spin_some` serves callbacks in any
order, and between two of them the loop body makes one call of `sync_packages`
with the work it asks for. An event is one callback or one such turn.

The history is ghost state: what was published, and one record for every call of
`sync_packages` that returned true.
-/

namespace FastLivo

open Lib

variable (C : Carrier)

/-- One callback, or one turn of the loop of `run()`. -/
inductive Event where
  | standardPcl (msg : LidarMsg)
  | livoxPcl (msg : LidarMsg)
  | imu (msg : ImuMsg C)
  | img (msg : ImageMsg C)
  | rtk (msg : GnssPVTSolnMsg C)
  | navSatFix (msg : NavSatFix C)
  | imuPropTimer
  | spin

/-- A call of `sync_packages` that returned true, as it left the measurement. -/
structure SyncRecord where
  flg : EkfState
  /-- `last_lio_update_time` the call worked with. -/
  lastLio : Double
  /-- The measurement handed to the estimator, `measures.back()`. -/
  group : MeasureGroup C
  /-- Header time of `meas.lidar`. -/
  scanTime : Double
  /-- `pcl_proc_next` before the call. -/
  carried : List PointType
  cur : List PointType
  next : List PointType
  /-- Frames the call popped from `lid_raw_data_buffer`. -/
  popped : List Scan
  /-- Samples accepted before the call. -/
  imuSeen : Nat
  /-- The IMU is initialised before the step. -/
  imuReady : Bool
  /-- A step was propagated before this one. -/
  propagated : Bool
  /-- `last_prop_end_time` before the step. -/
  propBeg : Double

/-- Ghost history of a run. -/
structure History where
  syncs : List (SyncRecord C) := []
  /-- Samples accepted into `imu_buffer`, in order. -/
  imuAccepted : List (Imu C) := []
  /-- Values of `last_lio_update_time` after the calls that found it negative. -/
  initTimes : List Double := []
  published : List (Output C) := []

/-- The mapper with its history. -/
structure World where
  mapper : LIVMapper C
  hist : History C := {}

variable {C}

/-- Record of a call that took `s` to `t`. -/
def SyncRecord.of (s t : LIVMapper C) : SyncRecord C where
  flg := t.meas.lioVioFlg
  lastLio := t.meas.lastLioUpdateTime
  group := t.meas.measures.getLastD {}
  scanTime := t.meas.lidar.headerTime
  carried := s.meas.pclProcNext
  cur := t.meas.pclProcCur
  next := t.meas.pclProcNext
  popped := s.buf.lidRawDataBuffer.take
    (s.buf.lidRawDataBuffer.length - t.buf.lidRawDataBuffer.length)
  imuSeen := s.buf.imuSeq
  imuReady := !s.imu.imuNeedInit
  propagated := s.imu.imuTimeInit
  propBeg := s.imu.lastPropEndTime

/-- The history after a call of `sync_packages`. -/
def History.recordSync (s : LIVMapper C) (ok : Bool) (t : LIVMapper C) (h : History C) :
    History C :=
  { h with
    syncs := if ok then h.syncs ++ [.of s t] else h.syncs
    initTimes :=
      if s.meas.lastLioUpdateTime < 0 then h.initTimes ++ [t.meas.lastLioUpdateTime]
      else h.initTimes }

/-- `handleFirstFrame`, `processImu` and `stateEstimationAndMapping`. -/
def processMeasures (cfg : Config C) (K : Kernel C) (s : LIVMapper C) :
    Option (LIVMapper C × List (Output C)) := do
  let s ← processImu cfg K (handleFirstFrame s)
  stateEstimationAndMapping cfg K s

/-- Loop body of `run()` after `spin_some`. -/
def spinOnce (cfg : Config C) (K : Kernel C) (w : World C) : Option (World C) := do
  let (ok, t) ← syncPackages cfg w.mapper
  let hist := w.hist.recordSync w.mapper ok t
  if ok then do
    let (t, out) ← processMeasures cfg K t
    some ⟨t, { hist with published := hist.published ++ out }⟩
  else some ⟨t, hist⟩

/-- `imu_cbk`, with the accepted sample written to the history. -/
def imuEvent (cfg : Config C) (msg : ImuMsg C) (w : World C) : World C :=
  ⟨imuCbk cfg msg w.mapper,
    { w.hist with imuAccepted :=
        w.hist.imuAccepted ++ ((acceptImu cfg msg w.mapper.buf).map (·.1)).toList }⟩

def World.setBuf (w : World C) (buf : SensorBuffers C) : World C :=
  { w with mapper := { w.mapper with buf := buf } }

def World.setRtk (w : World C) (r : RtkFrontend C × List (Output C)) : World C :=
  ⟨{ w.mapper with rtk := r.1 }, { w.hist with published := w.hist.published ++ r.2 }⟩

/-- The GPS topic is subscribed to. -/
def Config.gpsSubscribed (cfg : Config C) : Bool := cfg.rtkEn || cfg.debugMode

/-- One event; `none` when the program does not survive it. -/
def step (cfg : Config C) (K : Kernel C) (w : World C) : Event C → Option (World C)
  | .standardPcl msg => some (w.setBuf (standardPclCbk cfg msg w.mapper.buf))
  | .livoxPcl msg => some (w.setBuf (livoxPclCbk cfg msg w.mapper.buf))
  | .imu msg => some (imuEvent cfg msg w)
  | .img msg => some (w.setBuf (imgCbk cfg msg w.mapper.buf))
  | .rtk msg => some
      (if cfg.gpsSubscribed && !cfg.navsatfix then w.setRtk (rtkCbk cfg K msg w.mapper.rtk) else w)
  | .navSatFix msg => some
      (if cfg.gpsSubscribed && cfg.navsatfix then w.setRtk (navsatfixCbk cfg K msg w.mapper.rtk)
        else w)
  | .imuPropTimer =>
      let r := imuPropCallback cfg K w.mapper
      some ⟨r.1, { w.hist with published := w.hist.published ++ r.2 }⟩
  | .spin => spinOnce cfg K w

/-- Parameters of a mapper: configuration, numerical code and the initial values
of the estimator's objects. -/
structure Setup (C : Carrier) where
  cfg : Config C
  kernel : Kernel C
  voxelmapManager : C.VoxelMapManager
  vioManager : C.VIOManager
  pvList : C.PvList
  gpsTrans : C.LocalCartesian

def Setup.init (S : Setup C) : World C where
  mapper := .init S.cfg S.kernel S.voxelmapManager S.vioManager S.pvList S.gpsTrans

def Setup.step (S : Setup C) : World C → Event C → Option (World C) := FastLivo.step S.cfg S.kernel

/-- States of all runs. -/
def Setup.Reachable (S : Setup C) : World C → Prop := Reach S.step (fun _ _ => True) S.init

/-! ## A mapper without numerics -/

def Setup.trivial (cfg : Config Carrier.trivial) : Setup Carrier.trivial :=
  ⟨cfg, Kernel.trivial, (), (), (), ()⟩

/-- The mapper without numerics, with every parameter at its default. -/
def Setup.default : Setup Carrier.trivial := .trivial { uninit := .zero }

/-- The mapper without a camera. -/
def Setup.noCamera : Setup Carrier.trivial := .trivial { imgEn := false, uninit := .zero }

/-- The mapper with neither camera nor IMU. -/
def Setup.noImu : Setup Carrier.trivial :=
  .trivial { imgEn := false, imuEn := false, uninit := .zero }

/-- A point at the origin, `ms` milliseconds after its scan header. -/
def PointType.at (ms : Double) : PointType := { curvature := ms }

/-- A sample without readings. -/
def ImuMsg.at (sec : Int) (nanosec : Nat) : Event Carrier.trivial := .imu ⟨⟨sec, nanosec⟩, (), ()⟩

/-- An image without pixels. -/
def ImageMsg.at (sec : Int) (nanosec : Nat) : Event Carrier.trivial := .img ⟨⟨sec, nanosec⟩, ()⟩

/-- Scans of 100 ms, samples every 10 ms and two images 40 ms apart: two LIO and two
VIO steps. -/
def twoImages : List (Event Carrier.trivial) :=
  [.standardPcl ⟨⟨1, 0⟩, [.at 10, .at 95]⟩, .standardPcl ⟨⟨1, 100000000⟩, [.at 10, .at 95]⟩,
    ImuMsg.at 1 10000000, ImuMsg.at 1 20000000, ImuMsg.at 1 30000000, ImuMsg.at 1 40000000,
    ImuMsg.at 1 50000000, ImageMsg.at 1 40000000, .spin, .spin,
    ImuMsg.at 1 60000000, ImuMsg.at 1 70000000, ImuMsg.at 1 80000000, ImuMsg.at 1 90000000,
    ImageMsg.at 1 80000000, .spin, .spin]

end FastLivo
