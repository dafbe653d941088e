import FastLivo.Lib.Ghost
import FastLivo.Mapper.LidarBuffer

/-!
# Delivery of scans without images

In ONLY_LIO and ONLY_LO a step hands over one scan. ONLY_LIO latches the front scan in
one call (`lidar_pushed`) and pops it in a later one, once the samples are there. The
ghost `ScanLog` lists the scans accepted and what each successful call handed over, and
the latched scan stays the front one as long as no waiting scans are cleared.
-/

namespace FastLivo

open Lib

variable {C : Carrier}

/-- What a successful call hands over, and what it removes. -/
structure Delivery where
  /-- `meas.lidar`. -/
  cloud : Scan
  /-- `meas.pcl_proc_cur`. -/
  cur : List PointType
  /-- `meas.lidar_frame_beg_time`. -/
  begTime : Double
  /-- Clouds the call removed from `lid_raw_data_buffer`. -/
  removed : List Scan
  deriving DecidableEq

/-- Scans accepted and delivered so far, in order. -/
structure ScanLog where
  accepted : List Scan := []
  delivered : List Delivery := []

/-- The scan a lidar callback pushes. -/
def acceptedScan (cfg : Config C) (b : SensorBuffers C) : Event C → Option Scan
  | .standardPcl msg =>
      if cfg.lidarEn then some (makeScan (standardHeadTime cfg msg) b.lidSeq msg.cloud) else none
  | .livoxPcl msg =>
      if cfg.lidarEn && !msg.cloud.isEmpty then some (makeScan msg.stamp.toSec b.lidSeq msg.cloud)
      else none
  | _ => none

/-- The delivery of a call that took `s` to `t`. -/
def Delivery.of (s t : LIVMapper C) : Delivery where
  cloud := t.meas.lidar
  cur := t.meas.pclProcCur
  begTime := t.meas.lidarFrameBegTime
  removed := s.buf.lidRawDataBuffer.take
    (s.buf.lidRawDataBuffer.length - t.buf.lidRawDataBuffer.length)

/-- What the turn of the loop delivers. -/
def deliveryOf (cfg : Config C) (s : LIVMapper C) : Event C → Option Delivery
  | .spin =>
    match syncPackages cfg s with
    | some (true, t) => some (.of s t)
    | _ => none
  | _ => none

def ScanLog.record (cfg : Config C) (w : World C) (e : Event C) (_ : World C) (log : ScanLog) :
    ScanLog where
  accepted := log.accepted ++ (acceptedScan cfg w.mapper.buf e).toList
  delivered := log.delivered ++ (deliveryOf cfg w.mapper e).toList

/-- The delivered cloud is the one removed, under its own header time; in ONLY_LIO it is
the cloud to be undistorted. -/
structure Delivery.Own (mode : SlamMode) (d : Delivery) : Prop where
  removed : d.removed = [d.cloud]
  begTime : d.begTime = d.cloud.headerTime
  cur : mode = .onlyLio → d.cur = d.cloud.points

/-- Each step delivered the scan it removed, the k-th step the k-th scan accepted, and
what was accepted after these still waits. -/
structure ScanLog.InOrder (mode : SlamMode) (waiting : List Scan) (log : ScanLog) : Prop where
  own : ∀ d ∈ log.delivered, d.Own mode
  order : log.accepted = log.delivered.map Delivery.cloud ++ waiting
  once : log.accepted.Nodup

/-- A latched scan is the front one. -/
def Latched (s : LIVMapper C) : Prop :=
  ∃ scan ∈ s.buf.lidRawDataBuffer.head?, s.meas.lidar = scan ∧
    s.meas.lidarFrameBegTime = scan.headerTime ∧ s.meas.pclProcCur = scan.points

/-- Invariant of the runs that clear no waiting scans. -/
structure DeliveryInv (mode : SlamMode) (w : World C) (log : ScanLog) : Prop where
  lockstep : Lockstep w.mapper.buf
  latched : w.mapper.buf.lidarPushed = true → Latched w.mapper
  own : ∀ d ∈ log.delivered, d.Own mode
  order : log.accepted = log.delivered.map Delivery.cloud ++ w.mapper.buf.lidRawDataBuffer
  numbered : log.accepted.map Scan.seq = List.range w.mapper.buf.lidSeq

/-! ## Callbacks -/

/-- What the other events do to the lidar buffers and the measurement. -/
structure ScansKept (w w' : World C) (pushed : List Scan) : Prop where
  raw : w'.mapper.buf.lidRawDataBuffer = w.mapper.buf.lidRawDataBuffer ++ pushed
  headers : w'.mapper.buf.lidHeaderTimeBuffer =
    w.mapper.buf.lidHeaderTimeBuffer ++ pushed.map Scan.headerTime
  seq : pushed.map Scan.seq = List.range' w.mapper.buf.lidSeq pushed.length
  lidSeq : w'.mapper.buf.lidSeq = w.mapper.buf.lidSeq + pushed.length
  lidarPushed : w'.mapper.buf.lidarPushed = w.mapper.buf.lidarPushed
  meas : w'.mapper.meas = w.mapper.meas

theorem ScansKept.of_buf {w w' : World C}
    (hr : w'.mapper.buf.lidRawDataBuffer = w.mapper.buf.lidRawDataBuffer)
    (hh : w'.mapper.buf.lidHeaderTimeBuffer = w.mapper.buf.lidHeaderTimeBuffer)
    (hn : w'.mapper.buf.lidSeq = w.mapper.buf.lidSeq)
    (hp : w'.mapper.buf.lidarPushed = w.mapper.buf.lidarPushed)
    (hm : w'.mapper.meas = w.mapper.meas) : ScansKept w w' [] where
  raw := by simp [hr]
  headers := by simp [hh]
  seq := rfl
  lidSeq := by simp [hn]
  lidarPushed := hp
  meas := hm

theorem ScansKept.pushScan (w : World C) (t : Double) (cloud : List PointType) :
    ScansKept w (w.setBuf (pushScan t cloud w.mapper.buf))
      [makeScan t w.mapper.buf.lidSeq cloud] :=
  ⟨rfl, rfl, rfl, rfl, rfl, rfl⟩

theorem standardPcl_kept {cfg : Config C} {w : World C} {msg : LidarMsg}
    (hok : ¬ClearsScans cfg w.mapper.buf (.standardPcl msg)) :
    ScansKept w (w.setBuf (standardPclCbk cfg msg w.mapper.buf))
      (acceptedScan cfg w.mapper.buf (.standardPcl msg)).toList := by
  unfold standardPclCbk acceptedScan
  by_cases hen : cfg.lidarEn = true
  · have hback := lidarLoopBack_of_not (t := standardHeadTime cfg msg) (b := w.mapper.buf)
      fun hc => hok ⟨⟨hen, hc.1⟩, hc.2⟩
    simp only [hen, Bool.not_true, Bool.false_eq_true, if_false, if_true, hback,
      Option.toList_some]
    exact .pushScan w _ _
  · simp only [Bool.not_eq_true] at hen
    simp only [hen, Bool.not_false, if_true, Bool.false_eq_true, if_false, Option.toList_none]
    exact .of_buf rfl rfl rfl rfl rfl

theorem livoxPcl_kept {cfg : Config C} {w : World C} {msg : LidarMsg}
    (hok : ¬ClearsScans cfg w.mapper.buf (.livoxPcl msg)) :
    ScansKept w (w.setBuf (livoxPclCbk cfg msg w.mapper.buf))
      (acceptedScan cfg w.mapper.buf (.livoxPcl msg)).toList := by
  unfold livoxPclCbk acceptedScan
  by_cases hen : cfg.lidarEn = true
  · have hback := lidarLoopBack_of_not (t := msg.stamp.toSec) (b := w.mapper.buf)
      fun hc => hok ⟨⟨hen, hc.1⟩, hc.2⟩
    cases hcloud : msg.cloud.isEmpty with
    | true =>
      simp only [hen, hcloud, hback]
      exact .of_buf rfl rfl rfl rfl rfl
    | false =>
      simp only [hen, hcloud, hback]
      exact .pushScan w _ _
  · simp only [Bool.not_eq_true] at hen
    simp only [hen, Bool.not_false, if_true, Bool.false_and, Bool.false_eq_true, if_false,
      Option.toList_none]
    exact .of_buf rfl rfl rfl rfl rfl

/-- Every event but a turn of the loop appends the scan it accepts, if any. -/
theorem step_scans {cfg : Config C} {K : Kernel C} {w w' : World C} {e : Event C}
    (hst : step cfg K w e = some w') (hok : ¬ClearsScans cfg w.mapper.buf e) (he : e ≠ .spin) :
    ScansKept w w' (acceptedScan cfg w.mapper.buf e).toList := by
  cases e with
  | standardPcl msg =>
    cases hst
    exact standardPcl_kept hok
  | livoxPcl msg =>
    cases hst
    exact livoxPcl_kept hok
  | imu msg =>
    cases hst
    cases hacc : acceptImu cfg msg w.mapper.buf with
    | none =>
      have hw : imuEvent cfg msg w = w := by simp [imuEvent, imuCbk, hacc]
      rw [hw]
      exact .of_buf rfl rfl rfl rfl rfl
    | some r =>
      obtain ⟨m, b⟩ := r
      obtain ⟨_, _, _, _, _, _, rfl⟩ := acceptImu_cases hacc
      apply ScansKept.of_buf <;> simp [imuEvent, imuCbk, hacc]
  | img msg =>
    cases hst
    obtain ⟨n, imgs, times, last, seq, hb⟩ := (imgCbk_cases cfg msg w.mapper.buf).frame
    rw [hb]
    exact .of_buf rfl rfl rfl rfl rfl
  | rtk msg =>
    simp only [step, Option.some.injEq] at hst
    subst hst
    split <;> exact .of_buf rfl rfl rfl rfl rfl
  | navSatFix msg =>
    simp only [step, Option.some.injEq] at hst
    subst hst
    split <;> exact .of_buf rfl rfl rfl rfl rfl
  | imuPropTimer =>
    cases hst
    have hk := imuPropCallback_keeps cfg K w.mapper
    exact .of_buf (by rw [hk.buf]) (by rw [hk.buf]) (by rw [hk.buf]) (by rw [hk.buf]) hk.meas
  | spin => exact absurd rfl he

/-! ## Runs -/

section Runs

variable {mode : SlamMode} {w w' : World C} {log : ScanLog}

theorem DeliveryInv.callback {pushed : List Scan} (h : DeliveryInv mode w log)
    (hk : ScansKept w w' pushed) :
    DeliveryInv mode w' { log with accepted := log.accepted ++ pushed } where
  lockstep := by rw [Lockstep, hk.raw, hk.headers, h.lockstep, List.map_append]
  latched := by
    intro hp
    rw [hk.lidarPushed] at hp
    obtain ⟨scan, hscan, hrest⟩ := h.latched hp
    obtain ⟨raw, hraw⟩ := List.head?_eq_some_iff.mp (Option.mem_def.mp hscan)
    rw [Latched, hk.meas]
    exact ⟨scan, by simp [hk.raw, hraw], hrest⟩
  own := h.own
  order := by rw [h.order, hk.raw, List.append_assoc]
  numbered := by
    rw [List.map_append, h.numbered, hk.seq, hk.lidSeq, List.range_eq_range', List.range_eq_range',
      ← List.range'_append_1, Nat.zero_add]

/-- Once a scan is latched, ONLY_LIO holds the front scan. -/
theorem ScanPushed.latched {s m : LIVMapper C} (h : ScanPushed s m) (hlock : Lockstep s.buf)
    (hpushed : s.buf.lidarPushed = true → Latched s) : Latched m := by
  cases h with
  | before hp => exact hpushed hp
  | now _ _ hraw hhdr =>
    rw [Lockstep, hraw, hhdr, List.map_cons] at hlock
    obtain ⟨rfl, -⟩ := List.cons.inj hlock
    exact ⟨_, by rw [hraw]; rfl, rfl, rfl, rfl⟩

theorem DeliveryInv.idle {t : LIVMapper C} {hist : History C} (h : DeliveryInv mode w log)
    (hraw : t.buf.lidRawDataBuffer = w.mapper.buf.lidRawDataBuffer)
    (hhdr : t.buf.lidHeaderTimeBuffer = w.mapper.buf.lidHeaderTimeBuffer)
    (hseq : t.buf.lidSeq = w.mapper.buf.lidSeq) (hl : t.buf.lidarPushed = true → Latched t) :
    DeliveryInv mode ⟨t, hist⟩ log where
  lockstep := by rw [Lockstep, hraw, hhdr]; exact h.lockstep
  latched := hl
  own := h.own
  order := by rw [hraw]; exact h.order
  numbered := by rw [hseq]; exact h.numbered

/-- A call that returns false may latch the front scan. -/
theorem DeliveryInv.wait {cfg : Config C} {t : LIVMapper C} {hist : History C}
    (hm : cfg.slamMode = .onlyLio ∨ cfg.slamMode = .onlyLo) (h : DeliveryInv mode w log)
    (hs : syncPackages cfg w.mapper = some (false, t)) : DeliveryInv mode ⟨t, hist⟩ log := by
  rcases hm with hm | hm
  · cases syncPackages_onlyLio hm hs with
    | idle => exact h.idle rfl rfl rfl h.latched
    | refuse hpushed =>
      exact h.idle rfl rfl rfl fun hp => absurd (hpushed.symm.trans hp) Bool.false_ne_true
    | wait hscan =>
      refine h.idle ?_ ?_ ?_ fun _ => hscan.latched h.lockstep h.latched
      · rw [hscan.buffers]
      · rw [hscan.buffers]
      · rw [hscan.buffers]
  · cases syncPackages_onlyLo hm hs with
    | idle => exact h.idle rfl rfl rfl h.latched

/-- What a call that returned true delivered and left. -/
structure Delivered (mode : SlamMode) (s t : LIVMapper C) : Prop where
  own : (Delivery.of s t).Own mode
  front : s.buf.lidRawDataBuffer = (Delivery.of s t).cloud :: t.buf.lidRawDataBuffer
  lidarPushed : t.buf.lidarPushed = false
  lidSeq : t.buf.lidSeq = s.buf.lidSeq

theorem delivered_of_front {mode : SlamMode} {s t : LIVMapper C} {scan : Scan} {raw : List Scan}
    (hraw : s.buf.lidRawDataBuffer = scan :: raw) (ht : t.buf.lidRawDataBuffer = raw)
    (hp : t.buf.lidarPushed = false) (hn : t.buf.lidSeq = s.buf.lidSeq)
    (hlidar : t.meas.lidar = scan) (hbeg : t.meas.lidarFrameBegTime = scan.headerTime)
    (hcur : mode = .onlyLio → t.meas.pclProcCur = scan.points) : Delivered mode s t where
  own := by
    refine ⟨?_, ?_, ?_⟩
    · simp [Delivery.of, hraw, ht, hlidar]
    · simp [Delivery.of, hlidar, hbeg]
    · simpa [Delivery.of, hlidar] using hcur
  front := by simp [Delivery.of, hraw, ht, hlidar]
  lidarPushed := hp
  lidSeq := hn

theorem DeliveryInv.delivered {cfg : Config C} {t : LIVMapper C}
    (hm : cfg.slamMode = .onlyLio ∨ cfg.slamMode = .onlyLo) (h : DeliveryInv mode w log)
    (hs : syncPackages cfg w.mapper = some (true, t)) : Delivered cfg.slamMode w.mapper t := by
  have hlock := h.lockstep
  rcases hm with hm | hm
  · cases syncPackages_onlyLio hm hs with
    | @deliver m scan raw header headers hscan _ hraw hhdr =>
      obtain ⟨scan', hfront, hlidar, hbeg, hcur⟩ := hscan.latched hlock h.latched
      rw [hscan.buffers, hraw] at hfront
      obtain rfl : scan = scan' := Option.some.inj hfront
      exact delivered_of_front hraw rfl rfl (by simp [hscan.buffers]) hlidar hbeg fun _ => hcur
  · cases syncPackages_onlyLo hm hs with
    | @deliver meas scan raw header headers hmeas hraw hhdr =>
      have hother : cfg.slamMode = .onlyLio → meas.pclProcCur = scan.points := by simp [hm]
      cases hp : w.mapper.buf.lidarPushed with
      | true =>
        obtain ⟨scan', hfront, hlidar, hbeg, -⟩ := h.latched hp
        rw [hraw] at hfront
        obtain rfl : scan = scan' := Option.some.inj hfront
        obtain rfl : w.mapper.meas = meas := by simpa [frontScan, hp] using hmeas
        exact delivered_of_front hraw rfl rfl rfl hlidar hbeg hother
      | false =>
        rw [Lockstep, hraw, hhdr, List.map_cons] at hlock
        obtain ⟨back, -, rfl⟩ := frontScan_eq hp hraw hhdr hmeas
        exact delivered_of_front hraw rfl rfl rfl rfl (List.cons.inj hlock).1 hother

theorem DeliveryInv.sync {cfg : Config C} {t : LIVMapper C}
    (hm : cfg.slamMode = .onlyLio ∨ cfg.slamMode = .onlyLo) (h : DeliveryInv cfg.slamMode w log)
    (hs : syncPackages cfg w.mapper = some (true, t)) (hp : w'.mapper.buf = t.buf) :
    DeliveryInv cfg.slamMode w'
      { log with delivered := log.delivered ++ [.of w.mapper t] } := by
  have hd := h.delivered hm hs
  refine ⟨?_, fun hpushed => ?_, ?_, ?_, ?_⟩
  · rw [hp]
    exact h.lockstep.sync hs
  · rw [hp, hd.lidarPushed] at hpushed
    cases hpushed
  · intro d hmem
    rcases List.mem_append.mp hmem with hmem | hmem
    · exact h.own d hmem
    · rw [List.mem_singleton.mp hmem]
      exact hd.own
  · rw [hp, h.order, hd.front]
    simp
  · rw [hp, hd.lidSeq]
    exact h.numbered

theorem DeliveryInv.init (S : Setup C) : DeliveryInv mode S.init {} where
  lockstep := rfl
  latched := by simp [Setup.init, LIVMapper.init]
  own := by simp
  order := rfl
  numbered := rfl

/-- What one event adds to the log keeps the invariant. -/
theorem DeliveryInv.step {cfg : Config C} {K : Kernel C} {e : Event C}
    (hm : cfg.slamMode = .onlyLio ∨ cfg.slamMode = .onlyLo) (h : DeliveryInv cfg.slamMode w log)
    (hok : ¬ClearsScans cfg w.mapper.buf e) (hst : step cfg K w e = some w') :
    DeliveryInv cfg.slamMode w' (log.record cfg w e w') := by
  by_cases he : e = .spin
  · subst he
    cases spinOnce_cases hst with
    | wait hs =>
      simp only [ScanLog.record, acceptedScan, deliveryOf, hs, Option.toList_none, List.append_nil]
      exact h.wait hm hs
    | sync hs hwork =>
      simp only [ScanLog.record, acceptedScan, deliveryOf, hs, Option.toList_none,
        Option.toList_some, List.append_nil]
      apply h.sync hm hs
      exact (processMeasures_cases hwork).buf
  · have hnone : deliveryOf cfg w.mapper e = none := by cases e <;> first | rfl | exact absurd rfl he
    simpa [ScanLog.record, hnone] using h.callback (step_scans hst hok he)

end Runs

/-- The step of a mapper with the scan log beside it. -/
def Setup.stepScans (S : Setup C) : World C × ScanLog → Event C → Option (World C × ScanLog) :=
  withGhost S.step (ScanLog.record S.cfg)

/-- In ONLY_LIO and ONLY_LO, in every run in which no lidar message clears waiting
scans, the steps deliver the accepted scans in order, each one as it was accepted. -/
theorem scans_delivered_in_order (S : Setup C)
    (hm : S.cfg.slamMode = .onlyLio ∨ S.cfg.slamMode = .onlyLo) (w : World C) (log : ScanLog)
    (hw : Reach S.stepScans (fun p e => ¬ClearsScans S.cfg p.1.mapper.buf e) (S.init, {})
      (w, log)) :
    log.InOrder S.cfg.slamMode w.mapper.buf.lidRawDataBuffer := by
  have h : DeliveryInv S.cfg.slamMode w log := hw.invariant
    (I := fun p => DeliveryInv S.cfg.slamMode p.1 p.2)
    (DeliveryInv.init S) fun {p q} e _ hI hok hst => by
      obtain ⟨hstep, hlog⟩ := withGhost_cases hst
      rw [hlog]
      exact hI.step hm hok hstep
  refine ⟨h.own, h.order, ?_⟩
  apply List.Nodup.of_map Scan.seq
  rw [h.numbered]
  exact List.nodup_range

/-- Two scans without a camera, the first one latched before its samples are there. -/
theorem scans_delivered_in_order_run :
    ∃ w log, Reach Setup.noCamera.stepScans
        (fun p e => ¬ClearsScans Setup.noCamera.cfg p.1.mapper.buf e)
        (Setup.noCamera.init, {}) (w, log) ∧ log.delivered.length = 2 ∧
      log.InOrder .onlyLio w.mapper.buf.lidRawDataBuffer := by
  have hrun : (exec (fun p e => if ¬ClearsScans Setup.noCamera.cfg p.1.mapper.buf e then
      Setup.noCamera.stepScans p e else none) (Setup.noCamera.init, {})
      [.standardPcl ⟨⟨1, 0⟩, [.at 50, .at 100]⟩, ImuMsg.at 1 50000000, .spin,
        .standardPcl ⟨⟨2, 0⟩, [.at 50, .at 100]⟩, ImuMsg.at 2 100000000, .spin,
        ImuMsg.at 2 200000000, .spin]).any
      (fun p => p.2.delivered.length == 2) = true := by decide +kernel
  obtain ⟨⟨w, log⟩, hw, hlen⟩ := exists_exec_of_any _ hrun
  exact ⟨w, log, .of_guarded hw, by simpa using hlen,
    scans_delivered_in_order Setup.noCamera (.inl rfl) w log (.of_guarded hw)⟩

/-- A scan is latched at 10 s; before its samples arrive, a scan stamped 9 s clears the
buffer and takes its place. The step delivers the first one and removes the second. -/
theorem scans_misdelivered :
    ∃ w log, exec Setup.noCamera.stepScans (Setup.noCamera.init, {})
        [.standardPcl ⟨⟨10, 0⟩, [.at 50, .at 100]⟩, ImuMsg.at 10 50000000, .spin,
          .standardPcl ⟨⟨9, 0⟩, [.at 50, .at 100]⟩, ImuMsg.at 10 200000000, .spin] =
          some (w, log) ∧
      ¬log.InOrder .onlyLio w.mapper.buf.lidRawDataBuffer := by
  have hrun : (exec Setup.noCamera.stepScans (Setup.noCamera.init, {})
      [.standardPcl ⟨⟨10, 0⟩, [.at 50, .at 100]⟩, ImuMsg.at 10 50000000, .spin,
        .standardPcl ⟨⟨9, 0⟩, [.at 50, .at 100]⟩, ImuMsg.at 10 200000000, .spin]).any
      (fun p => decide (∃ d ∈ p.2.delivered, d.removed ≠ [d.cloud])) = true := by decide +kernel
  obtain ⟨⟨w, log⟩, hw, hbad⟩ := exists_exec_of_any _ hrun
  obtain ⟨d, hd, hne⟩ := of_decide_eq_true hbad
  exact ⟨w, log, hw, fun h => hne (h.own d hd).removed⟩

end FastLivo
