import FastLivo.Mapper.Effects

/-!
# Progress in ONLY_LIO mode

A call whose front scan is covered by the IMU returns true, unless the scan has at
most one point. Such a scan is refused and stays in front, and no later message
removes it: the mapper never hands over a measurement again. From every other state
some messages in time order lead to a call that returns true.
-/

namespace FastLivo

open Lib

variable {C : Carrier}

/-! ## One call -/

/-- Offset of the last point. -/
def Scan.duration (s : Scan) : Double := (s.points.getLast?.map PointType.offset).getD 0

/-- The scan that is pushed, or the front scan if none is, can be completed. -/
def FrontReady (s : LIVMapper C) (scan : Scan) (header : Double) : Prop :=
  (s.buf.lidarPushed = true ∧ s.meas.lidarFrameEndTime ≤ s.buf.lastTimestampImu) ∨
    (s.buf.lidarPushed = false ∧ 2 ≤ scan.points.length ∧
      header + scan.duration ≤ s.buf.lastTimestampImu)

/-- What a call returns, and whether it removed the front scan. -/
structure FrontCall (s : LIVMapper C) (raw : List Scan) (ready : Prop) (ok : Bool)
    (t : LIVMapper C) : Prop where
  ok_iff : ok = true ↔ ready
  popped : ok = true → t.buf.lidRawDataBuffer = raw
  kept : ok = false → t.buf.lidRawDataBuffer = s.buf.lidRawDataBuffer

section Call

variable {cfg : Config C} {s : LIVMapper C} {scan : Scan} {raw : List Scan} {header : Double}
  {headers : List Double}

theorem completeLio_front (himu : cfg.imuEn = true) (hraw : s.buf.lidRawDataBuffer = scan :: raw)
    (hhdr : s.buf.lidHeaderTimeBuffer = header :: headers) :
    ∃ ok t, completeLio cfg s = some (ok, t) ∧
      FrontCall s raw (s.meas.lidarFrameEndTime ≤ s.buf.lastTimestampImu) ok t := by
  unfold completeLio
  by_cases hwait : s.buf.lastTimestampImu < s.meas.lidarFrameEndTime
  · exact ⟨false, s, by simp [himu, hwait], by simpa using hwait, by simp, fun _ => rfl⟩
  · have hpop : s.buf.popLidar =
        some { s.buf with lidRawDataBuffer := raw, lidHeaderTimeBuffer := headers } := by
      simp [SensorBuffers.popLidar, hraw, hhdr]
    simp only [hwait, decide_false, Bool.and_false, Bool.false_eq_true, if_false, hpop]
    exact ⟨true, _, rfl, by simpa using hwait, fun _ => rfl, by simp⟩

/-- A call in a state with scans and samples. -/
theorem syncPackages_front (hm : cfg.slamMode = .onlyLio) (hen : cfg.lidarEn = true)
    (hraw : s.buf.lidRawDataBuffer = scan :: raw)
    (hhdr : s.buf.lidHeaderTimeBuffer = header :: headers) (himu : s.buf.imuBuffer ≠ []) :
    ∃ ok t, syncPackages cfg s = some (ok, t) ∧ FrontCall s raw (FrontReady s scan header) ok t := by
  obtain ⟨himuEn, himg⟩ := Config.slamMode_onlyLio hm
  have hsync : syncPackages cfg s = syncOnlyLio cfg s := by
    simp [syncPackages, hm, hraw, himu, himg hen]
  obtain ⟨lastLio, hinit⟩ : ∃ lastLio,
      initLastLio s.buf s.meas = some { s.meas with lastLioUpdateTime := lastLio } := by
    unfold initLastLio
    split
    · exact ⟨header, by simp [hhdr]⟩
    · exact ⟨_, rfl⟩
  rw [hsync, syncOnlyLio, hinit]
  cases hpushed : s.buf.lidarPushed with
  | true =>
    obtain ⟨ok, t, ht, hcall⟩ := completeLio_front
      (s := { s with meas := { s.meas with lastLioUpdateTime := lastLio } }) himuEn hraw hhdr
    refine ⟨ok, t, by simpa [hpushed] using ht, ?_, hcall.popped, hcall.kept⟩
    rw [hcall.ok_iff]
    simp [FrontReady, hpushed]
  | false =>
    by_cases hfew : scan.points.length ≤ 1
    · refine ⟨false, { s with meas := { s.meas with lastLioUpdateTime := lastLio, lidar := scan } },
        ?_, ?_, by simp, fun _ => rfl⟩
      · simp [hpushed, pushLidar, hraw, hfew]
      · have hno : ¬2 ≤ scan.points.length := by omega
        simp [FrontReady, hpushed, hno]
    · obtain ⟨back, hback⟩ : ∃ back, scan.points.getLast? = some back := by
        have hne : scan.points ≠ [] := by
          rintro hnil
          simp [hnil] at hfew
        exact ⟨_, List.getLast?_eq_some_getLast hne⟩
      obtain ⟨ok, t, ht, hcall⟩ := completeLio_front
        (s := { s with
          meas := { s.meas with
            lastLioUpdateTime := lastLio, lidar := scan, lidarFrameBegTime := header
            lidarFrameEndTime := header + back.curvature / 1000, pclProcCur := scan.points }
          buf := { s.buf with lidarPushed := true } }) himuEn hraw hhdr
      refine ⟨ok, t, ?_, ?_, hcall.popped, hcall.kept⟩
      · simpa [hpushed, pushLidar, hraw, hhdr, hfew, hback] using ht
      · have hmany : 2 ≤ scan.points.length := by omega
        rw [hcall.ok_iff]
        simp [FrontReady, hpushed, hmany, Scan.duration, hback, PointType.offset]

end Call

/-! ## Messages in time order -/

/-- A message on the lidar topic: one of the two callbacks is subscribed to it. -/
def lidarEvent (avia : Bool) (msg : LidarMsg) : Event C :=
  if avia then .livoxPcl msg else .standardPcl msg

/-- Header time of a message on the lidar topic. -/
def lidarHeadTime (cfg : Config C) (avia : Bool) (msg : LidarMsg) : Double :=
  if avia then msg.stamp.toSec else standardHeadTime cfg msg

/-- Lidar and IMU messages in time order, and turns of the loop. -/
inductive InOrder (cfg : Config C) (avia : Bool) (w : World C) : Event C → Prop
  | lidar (msg : LidarMsg) (h : w.mapper.buf.lastTimestampLidar ≤ lidarHeadTime cfg avia msg) :
      InOrder cfg avia w (lidarEvent avia msg)
  | imu (msg : ImuMsg C) (h : w.mapper.buf.lastTimestampImu ≤
        imuTimestamp cfg w.mapper.buf.lastTimestampLidar msg.stamp) : InOrder cfg avia w (.imu msg)
  | spin : InOrder cfg avia w .spin

theorem InOrder.not_clears {cfg : Config C} {avia : Bool} {w : World C} {e : Event C}
    (h : InOrder cfg avia w e) : ¬ClearsScans cfg w.mapper.buf e := by
  rintro ⟨hloop, -⟩
  cases h with
  | lidar msg h =>
    cases avia with
    | true => exact absurd hloop.2 (not_lt.mpr h)
    | false => exact absurd hloop.2 (not_lt.mpr h)
  | imu => exact hloop
  | spin => exact hloop

/-! ## A refused scan stays -/

/-- The front scan is not pushed and has at most one point. -/
def Stuck (s : LIVMapper C) : Prop :=
  s.buf.lidarPushed = false ∧ ∃ scan ∈ s.buf.lidRawDataBuffer.head?, scan.points.length ≤ 1

section Stuck

variable {cfg : Config C} {s m t : LIVMapper C}

theorem Stuck.not_pushed (h : Stuck s) : ¬ScanPushed s m := by
  obtain ⟨hpushed, scan, hscan, hfew⟩ := h
  intro hp
  cases hp with
  | before htrue => rw [hpushed] at htrue; cases htrue
  | now _ _ hraw _ hmany =>
    rw [hraw] at hscan
    obtain rfl := Option.some.inj hscan
    omega

theorem Stuck.not_sync (hm : cfg.slamMode = .onlyLio) (h : Stuck s) :
    syncPackages cfg s ≠ some (true, t) := by
  intro hs
  cases syncPackages_onlyLio hm hs with
  | deliver hscan => exact h.not_pushed hscan

/-- No message in time order removes the scan. -/
theorem Stuck.effect {avia : Bool} {w w' : World C} {e : Event C} (hm : cfg.slamMode = .onlyLio)
    (h : Stuck w.mapper) (hok : InOrder cfg avia w e) (he : StepEffect cfg w e w') :
    Stuck w'.mapper := by
  cases he with
  | aside ha => rwa [Stuck, ha.buf]
  | lidar _ hpush =>
    cases hpush hok.not_clears with
    | ignored => exact h
    | pushed t cloud =>
      obtain ⟨hpushed, scan, hscan, hfew⟩ := h
      obtain ⟨raw, hraw⟩ := List.head?_eq_some_iff.mp (Option.mem_def.mp hscan)
      exact ⟨hpushed, scan, by simp [World.setBuf, pushScan, hraw], hfew⟩
  | img ha => cases ha <;> exact h
  | imu hacc hw =>
    obtain ⟨_, _, _, _, _, _, rfl⟩ := acceptImu_cases hacc
    rw [Stuck, hw.buf]
    exact h
  | wait hs =>
    cases syncPackages_onlyLio hm hs with
    | idle => exact h
    | refuse => exact h
    | wait hscan => exact absurd hscan h.not_pushed
  | sync hs => exact absurd hs (h.not_sync hm)

end Stuck

/-! ## Every other state goes on -/

/-- A buffered cloud has a header, and there is none with the lidar off. -/
structure LidarBounds (cfg : Config C) (b : SensorBuffers C) : Prop where
  headers : b.lidRawDataBuffer.length ≤ b.lidHeaderTimeBuffer.length
  off : cfg.lidarEn = false → b.lidRawDataBuffer = []

theorem LidarBounds.effect {cfg : Config C} {w w' : World C} {e : Event C}
    (h : LidarBounds cfg w.mapper.buf) (he : StepEffect cfg w e w') :
    LidarBounds cfg w'.mapper.buf := by
  have hsync : ∀ {ok : Bool} {t : LIVMapper C}, syncPackages cfg w.mapper = some (ok, t) →
      LidarBounds cfg t.buf := by
    intro ok t hs
    obtain ⟨popped, hraw, hhdr⟩ := syncPackages_pop hs
    have hlen := h.headers
    rw [hraw, hhdr] at hlen
    simp only [List.length_append, List.length_map] at hlen
    refine ⟨by omega, fun hoff => ?_⟩
    have hnil := h.off hoff
    rw [hraw] at hnil
    exact (List.append_eq_nil_iff.mp hnil).2
  cases he with
  | aside ha => rwa [ha.buf]
  | lidar ha _ hoff =>
    refine ⟨?_, fun hen => by rw [hoff hen]; exact h.off hen⟩
    have hlen := h.headers
    cases ha with
    | ignored => exact hlen
    | dropped t =>
      unfold lidarLoopBack
      split
      · exact Nat.zero_le _
      · exact hlen
    | pushed t cloud =>
      unfold lidarLoopBack
      split
      · simp [World.setBuf, pushScan]
      · simpa [World.setBuf, pushScan] using hlen
  | img ha => cases ha <;> exact ⟨h.headers, h.off⟩
  | imu hacc hw =>
    obtain ⟨_, _, _, _, _, _, rfl⟩ := acceptImu_cases hacc
    rw [hw.buf]
    exact ⟨h.headers, h.off⟩
  | wait hs => exact hsync hs
  | sync hs hp =>
    rw [hp.buf]
    exact hsync hs

theorem Setup.Reachable.lidarBounds {S : Setup C} {w : World C} (hw : S.Reachable w) :
    LidarBounds S.cfg w.mapper.buf :=
  S.invariant (I := fun w => LidarBounds S.cfg w.mapper.buf)
    ⟨Nat.zero_le _, fun _ => rfl⟩ (fun h _ he => h.effect he) hw

section Continue

variable {cfg : Config C} {K : Kernel C} (avia : Bool) (w : World C)

/-- A lidar message as late as wanted is buffered behind what waits. -/
theorem lidar_arrives (hen : cfg.lidarEn = true) {b : Double}
    (hb : w.mapper.buf.lastTimestampLidar ≤ b) :
    ∃ e header, b ≤ header ∧ InOrder cfg avia w e ∧
      step cfg K w e = some (w.setBuf (pushScan header [{}, {}] w.mapper.buf)) := by
  have hback : ∀ {t : Double}, b ≤ t → lidarLoopBack t w.mapper.buf = w.mapper.buf := fun ht =>
    lidarLoopBack_of_not fun hc => absurd hc.1 (not_lt.mpr (hb.trans ht))
  cases avia with
  | true =>
    have hle : b ≤ (⟨⌈b⌉, 0⟩ : Stamp).toSec := by
      have hceil := Int.le_ceil b
      simpa [Stamp.toSec] using hceil
    refine ⟨lidarEvent true ⟨⟨⌈b⌉, 0⟩, [{}, {}]⟩, _, hle, .lidar _ (hb.trans hle), ?_⟩
    simp [lidarEvent, step, livoxPclCbk, hen, hback hle]
  | false =>
    have hle : b ≤ standardHeadTime cfg ⟨⟨⌈b - cfg.lidarTimeOffset⌉, 0⟩, [{}, {}]⟩ := by
      have hceil := Int.le_ceil (b - cfg.lidarTimeOffset)
      simp only [standardHeadTime, Stamp.toSec, Nat.cast_zero, zero_div, add_zero]
      linarith
    refine ⟨lidarEvent false _, _, hle, .lidar _ (hb.trans hle), ?_⟩
    simp [lidarEvent, step, standardPclCbk, hen, hback hle]

/-- Stamps of samples reach every time that the snap to the lidar time allows. -/
theorem exists_imuTimestamp_ge (cfg : Config C) {lastLidar b : Double} (hb : b + 1 / 2 ≤ lastLidar) :
    ∃ stamp, b ≤ imuTimestamp cfg lastLidar stamp := by
  obtain ⟨n, hn⟩ := exists_nat_ge b
  refine ⟨⟨⌈n + cfg.imuTimeOffset⌉, 0⟩, ?_⟩
  have hceil := Int.le_ceil ((n : Double) + cfg.imuTimeOffset)
  have hstamp : (n : Double) ≤ (⟨⌈n + cfg.imuTimeOffset⌉, 0⟩ : Stamp).toSec - cfg.imuTimeOffset := by
    simp only [Stamp.toSec, Nat.cast_zero, zero_div, add_zero]
    linarith
  have hgrid := natCast_le_toSec_rosTime hstamp
  unfold imuTimestamp
  simp only
  split
  · have hsnap := abs_le.mp (abs_llround_sub_le (lastLidar -
      (rosTime ((⟨⌈n + cfg.imuTimeOffset⌉, 0⟩ : Stamp).toSec - cfg.imuTimeOffset)).toSec))
    linarith [hsnap.1]
  · linarith

/-- A sample as late as wanted is buffered, once the lidar is ahead. -/
theorem imu_arrives (hen : cfg.imuEn = true) {b : Double} (hb : w.mapper.buf.lastTimestampImu ≤ b)
    (h0 : 0 ≤ w.mapper.buf.lastTimestampLidar)
    (hl : b + 1 / 2 ≤ w.mapper.buf.lastTimestampLidar) :
    ∃ e w' m timestamp, b ≤ timestamp ∧ InOrder cfg avia w e ∧ step cfg K w e = some w' ∧
      w'.mapper.meas = w.mapper.meas ∧ w'.mapper.buf = { w.mapper.buf with
        lastTimestampImu := timestamp, imuBuffer := w.mapper.buf.imuBuffer ++ [m]
        imuSeq := w.mapper.buf.imuSeq + 1 } := by
  obtain ⟨stamp, hstamp⟩ := exists_imuTimestamp_ge cfg hl
  obtain ⟨m, hacc⟩ : ∃ m, acceptImu cfg ⟨stamp, C.zero3d, C.zero3d⟩ w.mapper.buf =
      some (m, { w.mapper.buf with
        lastTimestampImu := imuTimestamp cfg w.mapper.buf.lastTimestampLidar stamp
        imuBuffer := w.mapper.buf.imuBuffer ++ [m], imuSeq := w.mapper.buf.imuSeq + 1 }) := by
    unfold acceptImu
    rw [if_neg (by simp [hen]), if_neg (not_lt.mpr h0)]
    exact ⟨_, if_neg fun hc => absurd hc.2 (not_lt.mpr (hb.trans hstamp))⟩
  refine ⟨.imu ⟨stamp, C.zero3d, C.zero3d⟩, _, m, _, hstamp, .imu _ (hb.trans hstamp), rfl, ?_, ?_⟩
  · simp [imuEvent, imuCbk, hacc]
  · simp only [imuEvent, imuCbk, hacc]

end Continue

/-- Some messages in time order lead to a call that returns true. -/
def Setup.CanSync (S : Setup C) (avia : Bool) (w : World C) : Prop :=
  ∃ w', Reach S.step (InOrder S.cfg avia) w w' ∧ ∃ t, syncPackages S.cfg w'.mapper = some (true, t)

/-- Once a scan of two points and no duration has arrived behind those that wait, the samples reach
past the front scan if they reach past every time that the mapper holds. -/
theorem frontReady_of_arrived {s t : LIVMapper C} {first scan : Scan} {h₁ header : Double}
    {later raw : List Scan} {times headers : List Double}
    (hlen : s.buf.lidRawDataBuffer.length ≤ s.buf.lidHeaderTimeBuffer.length)
    (hstuck : ¬Stuck s) (hpushed : t.buf.lidarPushed = s.buf.lidarPushed)
    (hend : t.meas.lidarFrameEndTime ≤ t.buf.lastTimestampImu)
    (hfront : s.buf.lidHeaderTimeBuffer.head?.getD 0 +
      (s.buf.lidRawDataBuffer.head?.map Scan.duration).getD 0 ≤ t.buf.lastTimestampImu)
    (hpoints : 2 ≤ first.points.length) (hdur : first.duration = 0)
    (hh₁ : h₁ ≤ t.buf.lastTimestampImu)
    (hraw : s.buf.lidRawDataBuffer ++ first :: later = scan :: raw)
    (hhdr : s.buf.lidHeaderTimeBuffer ++ h₁ :: times = header :: headers) :
    FrontReady t scan header := by
  unfold FrontReady
  rw [hpushed]
  cases hp : s.buf.lidarPushed with
  | true => exact .inl ⟨rfl, hend⟩
  | false =>
    refine .inr ⟨rfl, ?_⟩
    cases hold : s.buf.lidRawDataBuffer with
    | nil =>
      -- the first new scan is in front, behind a header that may be left from a cleared one
      rw [hold] at hraw hfront
      obtain ⟨rfl, -⟩ := List.cons.inj hraw
      refine ⟨hpoints, ?_⟩
      rw [hdur]
      cases hh : s.buf.lidHeaderTimeBuffer with
      | nil =>
        rw [hh] at hhdr
        obtain ⟨rfl, -⟩ := List.cons.inj hhdr
        rw [add_zero]
        exact hh₁
      | cons x xs =>
        rw [hh] at hhdr hfront
        obtain ⟨rfl, -⟩ := List.cons.inj hhdr
        exact hfront
    | cons front rest =>
      rw [hold] at hraw hfront hlen
      obtain ⟨rfl, -⟩ := List.cons.inj hraw
      have hmany : ¬front.points.length ≤ 1 := fun hfew =>
        hstuck ⟨hp, front, by rw [hold]; rfl, hfew⟩
      refine ⟨by omega, ?_⟩
      cases hh : s.buf.lidHeaderTimeBuffer with
      | nil => simp [hh] at hlen
      | cons x xs =>
        rw [hh] at hhdr hfront
        obtain ⟨rfl, -⟩ := List.cons.inj hhdr
        exact hfront

/-- Two lidar messages and a sample after everything that waits: the front scan, or
the first new one, is covered. -/
theorem Setup.canSync_of_not_stuck (S : Setup C) (hm : S.cfg.slamMode = .onlyLio)
    (hen : S.cfg.lidarEn = true) (avia : Bool) {w : World C}
    (hlen : w.mapper.buf.lidRawDataBuffer.length ≤ w.mapper.buf.lidHeaderTimeBuffer.length)
    (hstuck : ¬Stuck w.mapper) : S.CanSync avia w := by
  obtain ⟨b, hlidar, himu, h0, hend, hfront⟩ : ∃ b, w.mapper.buf.lastTimestampLidar ≤ b ∧
      w.mapper.buf.lastTimestampImu ≤ b ∧ 0 ≤ b ∧ w.mapper.meas.lidarFrameEndTime ≤ b ∧
      (w.mapper.buf.lidHeaderTimeBuffer.head?.getD 0) +
        (w.mapper.buf.lidRawDataBuffer.head?.map Scan.duration).getD 0 ≤ b := by
    refine ⟨max (max w.mapper.buf.lastTimestampLidar w.mapper.buf.lastTimestampImu)
      (max 0 (max w.mapper.meas.lidarFrameEndTime
        (w.mapper.buf.lidHeaderTimeBuffer.head?.getD 0 +
          (w.mapper.buf.lidRawDataBuffer.head?.map Scan.duration).getD 0))), ?_⟩
    simp only [le_max_iff, le_refl, true_or, or_true, and_self]
  obtain ⟨e₁, h₁, hh₁, hok₁, hst₁⟩ := lidar_arrives (K := S.kernel) avia w hen hlidar
  obtain ⟨e₂, h₂, hh₂, hok₂, hst₂⟩ := lidar_arrives (K := S.kernel) avia
    (w.setBuf (pushScan h₁ [{}, {}] w.mapper.buf)) hen (b := h₁ + 1) (by
      show h₁ ≤ h₁ + 1
      linarith)
  obtain ⟨e₃, w₃, m, ts, hts, hok₃, hst₃, hmeas, hbuf⟩ := imu_arrives (K := S.kernel) avia
    ((w.setBuf (pushScan h₁ [{}, {}] w.mapper.buf)).setBuf
      (pushScan h₂ [{}, {}] (pushScan h₁ [{}, {}] w.mapper.buf)))
    (Config.slamMode_onlyLio hm).1 (b := h₁)
    (himu.trans hh₁) (by show 0 ≤ h₂; linarith) (by show h₁ + 1 / 2 ≤ h₂; linarith)
  refine ⟨w₃, .next e₃ (.next e₂ (.next e₁ .start hok₁ hst₁) hok₂ hst₂) hok₃ hst₃, ?_⟩
  have hb : b ≤ ts := hh₁.trans hts
  have hpushed : w₃.mapper.buf.lidarPushed = w.mapper.buf.lidarPushed := by rw [hbuf]; rfl
  have htime : w₃.mapper.buf.lastTimestampImu = ts := by rw [hbuf]
  have hraw₃ : w₃.mapper.buf.lidRawDataBuffer = w.mapper.buf.lidRawDataBuffer ++
      [makeScan h₁ w.mapper.buf.lidSeq [{}, {}],
        makeScan h₂ (w.mapper.buf.lidSeq + 1) [{}, {}]] := by
    rw [hbuf]
    simp [World.setBuf, pushScan]
  have hhdr₃ : w₃.mapper.buf.lidHeaderTimeBuffer = w.mapper.buf.lidHeaderTimeBuffer ++ [h₁, h₂] := by
    rw [hbuf]
    simp [World.setBuf, pushScan]
  obtain ⟨scan, raw, hraw⟩ : ∃ scan raw, w₃.mapper.buf.lidRawDataBuffer = scan :: raw :=
    List.exists_cons_of_ne_nil (by simp [hraw₃])
  obtain ⟨header, headers, hhdr⟩ : ∃ header headers,
      w₃.mapper.buf.lidHeaderTimeBuffer = header :: headers :=
    List.exists_cons_of_ne_nil (by simp [hhdr₃])
  obtain ⟨ok, t, ht, hcall⟩ := syncPackages_front hm hen hraw hhdr (by rw [hbuf]; simp)
  have hdur : (makeScan h₁ w.mapper.buf.lidSeq [{}, {}]).duration = 0 := by
    simp [makeScan, Scan.duration, PointType.offset]
  have hready : FrontReady w₃.mapper scan header := by
    rw [hraw₃] at hraw
    rw [hhdr₃] at hhdr
    refine frontReady_of_arrived hlen hstuck hpushed ?_ (htime ▸ hfront.trans hb) le_rfl hdur
      (htime ▸ hts) hraw hhdr
    rw [hmeas, htime]
    exact hend.trans hb
  exact ⟨t, by rw [ht, hcall.ok_iff.mpr hready]⟩

/-- A call that finds scans and samples returns true or removes the front scan exactly
when that scan is ready; and messages in time order lead on exactly when the lidar is
on and no scan of at most one point waits in front. -/
theorem progress_iff (S : Setup C) (hm : S.cfg.slamMode = .onlyLio) (w : World C)
    (hw : S.Reachable w) :
    (∀ scan raw, w.mapper.buf.lidRawDataBuffer = scan :: raw → w.mapper.buf.imuBuffer ≠ [] →
      ∃ header ∈ w.mapper.buf.lidHeaderTimeBuffer.head?, ∃ ok t,
        syncPackages S.cfg w.mapper = some (ok, t) ∧
          ((ok = true ∨ t.buf.lidRawDataBuffer = raw) ↔ FrontReady w.mapper scan header)) ∧
      ∀ avia, S.CanSync avia w ↔ S.cfg.lidarEn = true ∧ ¬Stuck w.mapper := by
  have hbounds := hw.lidarBounds
  constructor
  · intro scan raw hraw himu
    have hen : S.cfg.lidarEn = true := by
      by_contra hoff
      simp [hbounds.off (by simpa using hoff)] at hraw
    obtain ⟨header, headers, hhdr⟩ : ∃ header headers,
        w.mapper.buf.lidHeaderTimeBuffer = header :: headers := by
      refine List.exists_cons_of_ne_nil fun hnil => ?_
      have hlen := hbounds.headers
      simp [hraw, hnil] at hlen
    obtain ⟨ok, t, ht, hcall⟩ := syncPackages_front hm hen hraw hhdr himu
    refine ⟨header, by rw [hhdr]; rfl, ok, t, ht, ?_⟩
    rw [← hcall.ok_iff]
    refine ⟨fun h => h.elim id fun hpop => ?_, .inl⟩
    by_contra hno
    have hkept := hcall.kept (by simpa using hno)
    simp [hpop, hraw] at hkept
  · intro avia
    constructor
    · rintro ⟨w', hreach, t, ht⟩
      have hw' : LidarBounds S.cfg w'.mapper.buf := hreach.invariant (I := fun w =>
        LidarBounds S.cfg w.mapper.buf) hbounds fun _ _ h _ hst => h.effect (step_cases hst)
      refine ⟨?_, fun hstuck => ?_⟩
      · by_contra hoff
        have hnil := hw'.off (by simpa using hoff)
        cases syncPackages_onlyLio hm ht with
        | deliver _ _ hraw => simp [hnil] at hraw
      · have hstuck' : Stuck w'.mapper := hreach.invariant (I := fun w => Stuck w.mapper) hstuck
          fun _ _ h hok hst => h.effect hm hok (step_cases hst)
        exact hstuck'.not_sync hm ht
    · rintro ⟨hen, hstuck⟩
      exact S.canSync_of_not_stuck hm hen avia hbounds.headers hstuck

/-- A scan of two points that waits for its samples. -/
theorem progress_iff_run :
    ∃ w, exec Setup.noCamera.step Setup.noCamera.init
        [.standardPcl ⟨⟨1, 0⟩, [.at 50, .at 100]⟩, ImuMsg.at 1 50000000, .spin] = some w ∧
      (Setup.noCamera.CanSync false w ↔ Setup.noCamera.cfg.lidarEn = true ∧ ¬Stuck w.mapper) := by
  have hrun : (exec Setup.noCamera.step Setup.noCamera.init
      [.standardPcl ⟨⟨1, 0⟩, [.at 50, .at 100]⟩, ImuMsg.at 1 50000000, .spin]).any
      (fun w => w.hist.syncs.isEmpty) = true := by decide +kernel
  obtain ⟨w, hw, -⟩ := exists_exec_of_any _ hrun
  exact ⟨w, hw, (progress_iff Setup.noCamera rfl w (.of_exec hw)).2 false⟩

/-- A scan of one point at 1.05 s and a sample at 1.1 s: the call refuses the scan and
leaves it in front. -/
theorem no_progress :
    ∃ w, exec Setup.noCamera.step Setup.noCamera.init
        [.standardPcl ⟨⟨1, 0⟩, [.at 50]⟩, ImuMsg.at 1 100000000] = some w ∧
      w.mapper.buf.lidRawDataBuffer ≠ [] ∧ w.mapper.buf.imuBuffer ≠ [] ∧
      (∀ scan ∈ w.mapper.buf.lidRawDataBuffer.head?,
        scan.headerTime + scan.duration ≤ w.mapper.buf.lastTimestampImu) ∧
      (∃ t, syncPackages Setup.noCamera.cfg w.mapper = some (false, t) ∧
        t.buf.lidRawDataBuffer = w.mapper.buf.lidRawDataBuffer) ∧
      ¬Setup.noCamera.CanSync false w := by
  have hrun : (exec Setup.noCamera.step Setup.noCamera.init
      [.standardPcl ⟨⟨1, 0⟩, [.at 50]⟩, ImuMsg.at 1 100000000]).any (fun w => decide
        (w.mapper.buf.lidarPushed = false ∧ 0 < w.mapper.buf.imuBuffer.length ∧
          w.mapper.buf.lidHeaderTimeBuffer.length = 1 ∧
          w.mapper.buf.lidRawDataBuffer.length = 1 ∧
          ∀ scan ∈ w.mapper.buf.lidRawDataBuffer, scan.points.length ≤ 1 ∧
            scan.headerTime + scan.duration ≤ w.mapper.buf.lastTimestampImu)) = true := by
    decide +kernel
  obtain ⟨w, hw, htest⟩ := exists_exec_of_any _ hrun
  obtain ⟨hpushed, himu, hheader, hscan, hall⟩ := of_decide_eq_true htest
  obtain ⟨header, hhdr⟩ := List.length_eq_one_iff.1 hheader
  obtain ⟨scan, hraw⟩ := List.length_eq_one_iff.1 hscan
  obtain ⟨hfew, hcovered⟩ := hall scan (by simp [hraw])
  have hne : w.mapper.buf.imuBuffer ≠ [] := List.ne_nil_of_length_pos himu
  have hstuck : Stuck w.mapper := ⟨hpushed, scan, by rw [hraw]; rfl, hfew⟩
  refine ⟨w, hw, by simp [hraw], hne, by simpa [hraw] using hcovered, ?_, ?_⟩
  · have hm : Setup.noCamera.cfg.slamMode = .onlyLio := rfl
    obtain ⟨ok, t, ht, hcall⟩ := syncPackages_front hm rfl hraw hhdr hne
    cases ok with
    | true => exact absurd ht (hstuck.not_sync rfl)
    | false => exact ⟨t, ht, hcall.kept rfl⟩
  · rintro ⟨w', hreach, t, ht⟩
    have hstuck' : Stuck w'.mapper := hreach.invariant (I := fun w => Stuck w.mapper) hstuck
      fun _ _ h hok hst => h.effect rfl hok (step_cases hst)
    exact hstuck'.not_sync rfl ht

end FastLivo
