import FastLivo.Mapper.ImuSlicing
import FastLivo.Mapper.Slicing

/-!
# The time base of the undistortion

The undistortion counts curvatures from `prop_beg_time`, the end of the step before.
In LIVO mode the slicing re-bases them to that time: to the last update for frames
popped by the step, and for points carried over to the step that carried them. In
ONLY_LIO mode they stay counted from the scan header, so the two agree only where a
scan starts at the end of the one before.
-/

namespace FastLivo

open Lib

variable {C : Carrier}

/-- The time the undistortion gives to a point is the time it was acquired. -/
def SyncRecord.OnTime (r : SyncRecord C) : Prop := ∀ p ∈ r.cur, r.propBeg + p.offset = p.acq

instance (r : SyncRecord C) : Decidable r.OnTime := inferInstanceAs (Decidable (∀ _ ∈ _, _))

/-- LIO steps so far. -/
def History.lios (h : History C) : List (SyncRecord C) := h.syncs.filter fun r => decide (r.flg = .lio)

theorem lios_append_lio {h h' : History C} {r : SyncRecord C} (hs : h'.syncs = h.syncs ++ [r])
    (hflg : r.flg = .lio) : h'.lios = h.lios ++ [r] := by
  simp [History.lios, hs, hflg]

theorem lios_append_other {h h' : History C} {r : SyncRecord C} (hs : h'.syncs = h.syncs ++ [r])
    (hflg : r.flg ≠ .lio) : h'.lios = h.lios := by
  simp [History.lios, hs, hflg]

/-! ## LIVO -/

/-- Between two pairs, all LIO steps came before the front image. -/
theorem CycleInv.lios_before {exposure : Double} {w : World C}
    {pairs : List (SyncRecord C × SyncRecord C)} (h : CycleInv exposure w pairs none)
    {time : Double} {times : List Double} (htime : w.mapper.buf.imgTimeBuffer = time :: times) :
    ∀ l ∈ w.hist.lios, l.group.lioTime < time + exposure := by
  intro l hl
  obtain ⟨hl, hflg⟩ := List.mem_filter.mp hl
  have hflg : l.flg = .lio := of_decide_eq_true hflg
  rw [h.cycle.syncs, Option.toList_none, List.append_nil] at hl
  obtain ⟨p, hp, hl⟩ := List.mem_flatMap.mp hl
  have hpair := h.cycle.pair p hp
  have hfront : w.mapper.buf.imgBuffer.map Image.time = time :: times := h.queue.times ▸ htime
  obtain ⟨im, ims, hims, rfl, -⟩ := List.map_eq_cons_iff.mp hfront
  have hused := h.used p hp im (hims ▸ List.mem_cons_self)
  simp only [List.mem_cons, List.not_mem_nil, or_false] at hl
  rcases hl with rfl | rfl
  · rw [← hpair.image]
    linarith [hused.1]
  · rw [hpair.vio] at hflg
    cases hflg

/-- The LIO step of an open pair is the last one. -/
theorem CycleInv.lios_last {exposure : Double} {w : World C}
    {pairs : List (SyncRecord C × SyncRecord C)} {l : SyncRecord C}
    (h : CycleInv exposure w pairs (some l)) : w.hist.lios.getLast? = some l := by
  have hflg := h.cycle.rest l rfl
  rw [History.lios, h.cycle.syncs, Option.toList_some, List.filter_append]
  simp [hflg]

theorem mem_sliceImu {lastLio lioTime : Double} {q : List (Imu C)} {m : Imu C}
    (h : m ∈ (sliceImu lastLio lioTime q).1) : m ∈ q ∧ m.sec ≤ lioTime := by
  have hm := (List.mem_filter.mp h).1
  refine ⟨List.takeWhile_subset _ hm, ?_⟩
  simpa using List.mem_takeWhile_imp hm

/-- Once a step was propagated, the lower end of the slicing, the start of the
propagation and the base of the points carried over are the time of the last LIO step. -/
structure TimeInv (cfg : Config C) (w : World C) : Prop where
  ready : w.mapper.imu.imuTimeInit = true → w.mapper.imu.imuNeedInit = false
  ended : cfg.imuEn = true → w.mapper.imu.imuNeedInit = false →
    ∃ l ∈ w.hist.lios.getLast?, 0 ≤ l.group.lioTime
  base : w.mapper.imu.imuTimeInit = true → ∃ l ∈ w.hist.lios.getLast?, 0 ≤ l.group.lioTime ∧
    w.mapper.imu.lastPropEndTime = l.group.lioTime ∧
    w.mapper.meas.lastLioUpdateTime = l.group.lioTime
  next : ∀ p ∈ w.mapper.meas.pclProcNext, ∃ l ∈ w.hist.lios.getLast?,
    p.acq = l.group.lioTime + p.offset
  onTime : ∀ r ∈ w.hist.syncs, r.flg = .lio → r.propagated = true → r.OnTime

section Livo

variable {cfg : Config C} {w w' : World C}

theorem TimeInv.congr (h : TimeInv cfg w) (hi : w'.mapper.imu = w.mapper.imu)
    (hl : w'.mapper.meas.lastLioUpdateTime = w.mapper.meas.lastLioUpdateTime)
    (hn : w'.mapper.meas.pclProcNext = w.mapper.meas.pclProcNext)
    (hs : w'.hist.syncs = w.hist.syncs) : TimeInv cfg w' := by
  have hlios : w'.hist.lios = w.hist.lios := by rw [History.lios, hs]; rfl
  exact
    { ready := by rw [hi]; exact h.ready
      ended := by rw [hi, hlios]; exact h.ended
      base := by rw [hi, hlios, hl]; exact h.base
      next := by rw [hn, hlios]; exact h.next
      onTime := by rw [hs]; exact h.onTime }

/-- After a propagation the guard on `last_lio_update_time` changes nothing. -/
theorem TimeInv.lastLio {lastLio : Double} (h : TimeInv cfg w) (hlast : LastLio w.mapper lastLio)
    (htime : w.mapper.imu.imuTimeInit = true) : lastLio = w.mapper.meas.lastLioUpdateTime := by
  obtain ⟨l, -, hpos, -, hl⟩ := h.base htime
  rcases hlast with ⟨hneg, -⟩ | ⟨-, rfl⟩
  · rw [hl] at hneg
    exact absurd hpos (not_le.mpr hneg)
  · rfl

theorem TimeInv.wait {t : LIVMapper C} (h : TimeInv cfg w) (hs : LivoSync cfg w.mapper false t) :
    TimeInv cfg ⟨t, w.hist.recordSync w.mapper false t⟩ := by
  have hmove : ∀ {lastLio : Double} {b : SensorBuffers C} {est : Estimation C},
      LastLio w.mapper lastLio →
      let t := { w.mapper with
        buf := b, meas := { w.mapper.meas with lastLioUpdateTime := lastLio }, est := est }
      TimeInv cfg ⟨t, w.hist.recordSync w.mapper false t⟩ := by
    intro lastLio b est hlast
    exact
      { ready := h.ready, ended := h.ended, next := h.next, onTime := h.onTime
        base := fun htime => by
          obtain ⟨l, hl, hpos, hend, hbase⟩ := h.base htime
          exact ⟨l, hl, hpos, hend, (h.lastLio hlast htime).trans hbase⟩ }
  cases hs with
  | idle => exact h.congr rfl rfl rfl rfl
  | hold _ hlast => exact hmove hlast
  | throwImage _ hlast => exact hmove hlast

/-- The points of a LIO step after a propagated one are on time: those carried over
are counted from the LIO step before, the others from the last update. -/
theorem TimeInv.record {t : LIVMapper C} (h : TimeInv cfg w)
    (hs : LivoSync cfg w.mapper true t) (hcut : (SyncRecord.of w.mapper t).CutFresh)
    (hflg : t.meas.lioVioFlg = .lio) (htime : w.mapper.imu.imuTimeInit = true) :
    (SyncRecord.of w.mapper t).OnTime := by
  obtain ⟨fresh, hcur, hfresh, -⟩ := hcut
  obtain ⟨l, hl, -, hend, hbase⟩ := h.base htime
  have hlast : (SyncRecord.of w.mapper t).lastLio = w.mapper.meas.lastLioUpdateTime := by
    cases hs with
    | vio => cases hflg
    | lio _ hlast => exact h.lastLio hlast htime
  intro p hp
  rcases List.mem_append.mp (hcur ▸ hp) with hp | hp
  · obtain ⟨l', hl', hacq⟩ := h.next p hp
    obtain rfl : l = l' := Option.mem_unique hl hl'
    rw [hacq]
    exact congrArg (· + p.offset) hend
  · rw [(hfresh p hp).1, hlast, hbase]
    exact congrArg (· + p.offset) hend

theorem TimeInv.lio {t : LIVMapper C} {pairs : List (SyncRecord C × SyncRecord C)}
    (hc : CycleInv cfg.exposureTimeInit w pairs none) (hi : ImuInv cfg w none) (hk : CutInv w)
    (h : TimeInv cfg w) (hs : LivoSync cfg w.mapper true t) (hflg : t.meas.lioVioFlg = .lio)
    (hp : Processed cfg t w'.mapper) (hsyncs : w'.hist.syncs = w.hist.syncs ++ [.of w.mapper t]) :
    TimeInv cfg w' := by
  have hcut := cutFresh_of hk.lockstep hk.stamped hs hflg
  have hrec := fun htime => h.record hs hcut hflg htime
  obtain ⟨_, _, _, hmeas⟩ := hp.meas
  cases hs with
  | vio => cases hflg
  | @lio time lastLio lioTime times _ _ _ _ hne hlast htime himu hlio hnew hslice =>
    obtain ⟨m, hm, hwork⟩ := hp.imu (hi.enabled himu)
    simp only [List.getLast?_append, List.getLast?_singleton, Option.some_or,
      Option.some.injEq] at hm
    have hmt : m.lioTime = lioTime := by rw [← hm]
    have hlios := lios_append_lio hsyncs hflg
    generalize hr : SyncRecord.of w.mapper _ = r at hcut hrec hsyncs hlios
    have hrt : r.group.lioTime = lioTime := by simp [← hr, SyncRecord.of]
    have hmem : r ∈ w'.hist.lios.getLast? := by simp [hlios]
    -- the time of the step is not negative once the IMU is initialised before it
    have hpos : w.mapper.imu.imuNeedInit = false → 0 ≤ lioTime := by
      intro hneed
      obtain ⟨l, hl, h0⟩ := h.ended (hi.enabled himu) hneed
      have hlt := hc.lios_before htime l (List.mem_of_getLast? hl)
      rw [hlio]
      exact h0.trans hlt.le
    refine ⟨?_, fun _ hneed => ⟨r, hmem, ?_⟩, fun hinit => ⟨r, hmem, ?_⟩, fun p hmp => ⟨r, hmem, ?_⟩, ?_⟩
    · exact hwork.initialised h.ready
    · rw [hrt]
      cases hwork with
      | init hneed0 hdone =>
        obtain ⟨s, hmem⟩ := List.exists_mem_of_ne_nil _ (hdone hneed)
        rw [← hm] at hmem
        obtain ⟨hin, hle⟩ := mem_sliceImu hmem
        obtain ⟨gone, hsplit, -⟩ := hi.valid.split
        have hacc : s ∈ w.hist.imuAccepted := by
          rw [show w.hist.imuAccepted = gone ++ w.mapper.buf.imuBuffer from hsplit]
          exact List.mem_append_right _ hin
        exact (hi.stamps s hacc).1.trans hle
      | propagate hneed0 => exact hpos hneed0
    · rw [hrt]
      cases hwork with
      | init hneed _ ht =>
        rw [h.ready (ht ▸ hinit)] at hneed
        cases hneed
      | propagate hneed0 _ _ hend hl =>
        refine ⟨hpos hneed0, ?_, ?_⟩
        · rw [hend, propEndTime, if_pos rfl, hmt]
        · rw [hl (.inl rfl), propEndTime, if_pos rfl, hmt]
    · obtain ⟨_, -, -, hnext⟩ := hcut
      refine (hnext p ?_).1
      rw [hmeas] at hmp
      rw [← hr]
      exact hmp
    · rw [hsyncs]
      intro d hd hdflg hprop
      rcases List.mem_append.mp hd with hd | hd
      · exact h.onTime d hd hdflg hprop
      · rw [List.mem_singleton.mp hd] at hprop ⊢
        exact hrec (by rw [← hprop, ← hr]; rfl)

theorem TimeInv.vio {t : LIVMapper C} {pairs : List (SyncRecord C × SyncRecord C)}
    {l : SyncRecord C} (hc : CycleInv cfg.exposureTimeInit w pairs (some l))
    (hi : ImuInv cfg w (some l)) (h : TimeInv cfg w) (hs : LivoSync cfg w.mapper true t)
    (hp : Processed cfg t w'.mapper) (hsyncs : w'.hist.syncs = w.hist.syncs ++ [.of w.mapper t]) :
    TimeInv cfg w' := by
  obtain ⟨_, _, _, hmeas⟩ := hp.meas
  cases hs with
  | lio hne => exact absurd (hc.flag.mp rfl) hne
  | @vio img imgs time times hflg himu hbuf htime =>
    obtain ⟨m, hm, hwork⟩ := hp.imu (hi.enabled himu)
    simp only [List.getLast?_singleton, Option.some.injEq] at hm
    -- the image of the pair is still in front
    have hmt : m.vioTime = l.group.lioTime := by
      obtain ⟨im, him, ht⟩ := hc.front l rfl
      rw [hbuf] at him
      cases him
      rw [← hm, (hc.queue.pop hbuf htime).1]
      exact ht
    have hlast : l ∈ w.hist.lios.getLast? := hc.lios_last
    have hlios := lios_append_other hsyncs (by simp [SyncRecord.of])
    refine ⟨?_, fun hen hneed => ?_, fun hinit => ?_, ?_, ?_⟩
    · exact hwork.initialised h.ready
    · rw [hlios]
      cases hwork with
      | init _ hdone => exact absurd (by rw [← hm]) (hdone hneed)
      | propagate hneed0 => exact h.ended hen hneed0
    · rw [hlios]
      cases hwork with
      | init hneed _ ht =>
        rw [h.ready (ht ▸ hinit)] at hneed
        cases hneed
      | propagate hneed0 _ _ hend hl =>
        obtain ⟨l', hl', hpos⟩ := h.ended (hi.enabled himu) hneed0
        obtain rfl : l = l' := Option.mem_unique hlast hl'
        refine ⟨l, hlast, hpos, ?_, ?_⟩
        · rw [hend, propEndTime, if_neg (by simp), hmt]
        · rw [hl (.inr rfl), propEndTime, if_neg (by simp), hmt]
    · rw [hlios, hmeas]
      exact h.next
    · rw [hsyncs]
      intro d hd hdflg
      rcases List.mem_append.mp hd with hd | hd
      · exact h.onTime d hd hdflg
      · rw [List.mem_singleton.mp hd] at hdflg
        cases hdflg

theorem LivoSync.flg {s t : LIVMapper C} (h : LivoSync cfg s true t)
    (hne : s.meas.lioVioFlg ≠ .lio) : t.meas.lioVioFlg = .lio := by
  cases h with
  | lio => rfl
  | vio hflg => exact absurd hflg hne

theorem TimeInv.effect {e : Event C} {pairs : List (SyncRecord C × SyncRecord C)}
    {rest : Option (SyncRecord C)} (hm : cfg.slamMode = .livo)
    (hc : CycleInv cfg.exposureTimeInit w pairs rest) (hi : ImuInv cfg w rest) (hk : CutInv w)
    (h : TimeInv cfg w) (he : StepEffect cfg w e w') : TimeInv cfg w' := by
  cases he with
  | aside ha => exact h.congr ha.imu (by rw [ha.meas]) (by rw [ha.meas]) ha.syncs
  | lidar => exact h.congr rfl rfl rfl rfl
  | img => exact h.congr rfl rfl rfl rfl
  | imu _ hw => exact h.congr hw.imu (by rw [hw.meas]) (by rw [hw.meas]) hw.syncs
  | wait hs => exact h.wait (syncPackages_livo hm hs)
  | sync hs hp hsyncs =>
    have hsync := syncPackages_livo hm hs
    by_cases hflg : w.mapper.meas.lioVioFlg = .lio
    · obtain ⟨l, rfl⟩ := Option.isSome_iff_exists.mp (hc.flag.mpr hflg)
      exact h.vio hc hi hsync hp hsyncs
    · obtain rfl : rest = none := by
        rw [← Option.not_isSome_iff_eq_none, hc.flag]
        exact hflg
      exact TimeInv.lio hc hi hk h hsync (hsync.flg hflg) hp hsyncs

end Livo

theorem TimeInv.init (S : Setup C) : TimeInv S.cfg S.init where
  ready := by simp [Setup.init, LIVMapper.init]
  ended := by
    intro hen hneed
    exact absurd (hen.symm.trans hneed) (by simp)
  base := by simp [Setup.init, LIVMapper.init]
  next := by simp [Setup.init, LIVMapper.init]
  onTime := by simp [Setup.init]

/-- In LIVO mode every LIO step after a propagated one is on time. -/
theorem Setup.Unbroken.onTime {S : Setup C} (hm : S.cfg.slamMode = .livo) {w : World C}
    (hw : S.Unbroken w) : ∀ r ∈ w.hist.syncs, r.flg = .lio → r.propagated = true → r.OnTime := by
  obtain ⟨-, -, -, -, -, h⟩ := S.invariant
    (I := fun w => ∃ pairs rest, CycleInv S.cfg.exposureTimeInit w pairs rest ∧
      ImuInv S.cfg w rest ∧ CutInv w ∧ TimeInv S.cfg w)
    ⟨_, _, CycleInv.init S, ImuInv.init S, CutInv.init S, TimeInv.init S⟩
    (fun ⟨_, _, hc, hi, hk, h⟩ hok he => by
      obtain ⟨pairs, rest, hc', hi'⟩ := hi.effect hm hc he
      exact ⟨pairs, rest, hc', hi', hk.effect hm hok he, h.effect hm hc hi hk he⟩) hw
  exact h.onTime

/-! ## ONLY_LIO -/

/-- The step undistorts one scan, whole and up to its last point. -/
structure SyncRecord.OfScan (r : SyncRecord C) : Prop where
  flg : r.flg = .lio
  stamped : ∀ p ∈ r.cur, p.acq = r.scanTime + p.offset
  last : ∃ back ∈ r.cur.getLast?, r.group.lioTime = r.scanTime + back.offset

/-- Only the front scan is pushed. -/
def FrontPushed (b : SensorBuffers C) (g : LidarMeasureGroup C) : Prop :=
  ∃ scan ∈ b.lidRawDataBuffer.head?, ∃ back ∈ scan.points.getLast?,
    g.lidar = scan ∧ g.pclProcCur = scan.points ∧
      g.lidarFrameEndTime = scan.headerTime + back.offset

/-- Invariant of ONLY_LIO: a pushed scan is still in front, the steps are scans, and
each propagation starts where the step before ended. -/
structure ScanInv (w : World C) : Prop where
  lockstep : Lockstep w.mapper.buf
  stamped : ∀ s ∈ w.mapper.buf.lidRawDataBuffer, s.Stamped
  pushed : w.mapper.buf.lidarPushed = true → FrontPushed w.mapper.buf w.mapper.meas
  ready : w.mapper.imu.imuTimeInit = true → w.mapper.imu.imuNeedInit = false
  base : w.mapper.imu.imuTimeInit = true →
    ∃ l ∈ w.hist.syncs.getLast?, w.mapper.imu.lastPropEndTime = l.group.lioTime
  scans : ∀ r ∈ w.hist.syncs, r.OfScan
  begs : ∀ rs r rs', w.hist.syncs = rs ++ r :: rs' → r.propagated = true →
    ∃ l ∈ rs.getLast?, r.propBeg = l.group.lioTime

section OnlyLio

variable {cfg : Config C} {w w' : World C}

/-- Once a scan is pushed, the measurement is the front scan. -/
theorem ScanPushed.front {s m : LIVMapper C} (h : ScanPushed s m) (hlock : Lockstep s.buf)
    (hpushed : s.buf.lidarPushed = true → FrontPushed s.buf s.meas) :
    FrontPushed s.buf m.meas := by
  cases h with
  | before hp => exact hpushed hp
  | now _ _ hraw hhdr _ hback =>
    rw [Lockstep, hraw, hhdr, List.map_cons] at hlock
    obtain ⟨rfl, -⟩ := List.cons.inj hlock
    exact ⟨_, by rw [hraw]; rfl, _, hback, rfl, rfl, rfl⟩

theorem ScanInv.congr (h : ScanInv w) (hr : w'.mapper.buf.lidRawDataBuffer = w.mapper.buf.lidRawDataBuffer)
    (hh : w'.mapper.buf.lidHeaderTimeBuffer = w.mapper.buf.lidHeaderTimeBuffer)
    (hp : w'.mapper.buf.lidarPushed = w.mapper.buf.lidarPushed)
    (hm : w'.mapper.meas = w.mapper.meas) (hi : w'.mapper.imu = w.mapper.imu)
    (hs : w'.hist.syncs = w.hist.syncs) : ScanInv w' where
  lockstep := by rw [Lockstep, hr, hh]; exact h.lockstep
  stamped := by rw [hr]; exact h.stamped
  pushed := by rw [FrontPushed, hr, hp, hm]; exact h.pushed
  ready := by rw [hi]; exact h.ready
  base := by rw [hi, hs]; exact h.base
  scans := by rw [hs]; exact h.scans
  begs := by rw [hs]; exact h.begs

theorem ScanInv.push {b : SensorBuffers C} (h : ScanInv w) (hp : LidarPush w.mapper.buf b) :
    ScanInv (w.setBuf b) := by
  refine ⟨h.lockstep.push hp, Scan.Stamped.push h.stamped hp, ?_, h.ready, h.base, h.scans, h.begs⟩
  cases hp with
  | ignored => exact h.pushed
  | pushed t cloud =>
    intro hpushed
    obtain ⟨scan, hscan, hrest⟩ := h.pushed hpushed
    obtain ⟨raw, hraw⟩ := List.head?_eq_some_iff.mp (Option.mem_def.mp hscan)
    exact ⟨scan, by simp [World.setBuf, pushScan, hraw], hrest⟩

theorem ScanInv.wait {t : LIVMapper C} (h : ScanInv w) (hs : OnlyLioSync cfg w.mapper false t) :
    ScanInv ⟨t, w.hist.recordSync w.mapper false t⟩ := by
  cases hs with
  | idle => exact h.congr rfl rfl rfl rfl rfl rfl
  | refuse hpushed =>
    exact ⟨h.lockstep, h.stamped, fun hp => absurd (hpushed.symm.trans hp) (by simp),
      h.ready, h.base, h.scans, h.begs⟩
  | wait hscan =>
    have hfront := hscan.front h.lockstep h.pushed
    have hraw : t.buf.lidRawDataBuffer = w.mapper.buf.lidRawDataBuffer := by rw [hscan.buffers]
    have hhdr : t.buf.lidHeaderTimeBuffer = w.mapper.buf.lidHeaderTimeBuffer := by
      rw [hscan.buffers]
    refine ⟨?_, ?_, fun _ => ?_, ?_, ?_, h.scans, h.begs⟩
    · rw [Lockstep, hraw, hhdr]
      exact h.lockstep
    · rw [hraw]
      exact h.stamped
    · rw [FrontPushed, hraw]
      exact hfront
    · rw [hscan.imu]
      exact h.ready
    · rw [hscan.imu]
      exact h.base

theorem ScanInv.deliver {t : LIVMapper C} {r : SyncRecord C} (hm : cfg.slamMode = .onlyLio)
    (h : ScanInv w) (hsync : syncPackages cfg w.mapper = some (true, t))
    (hp : Processed cfg t w'.mapper) (hsyncs : w'.hist.syncs = w.hist.syncs ++ [r])
    (hr : r = .of w.mapper t) : ScanInv w' := by
  have hlock := h.lockstep.sync hsync
  have hstamped := Scan.Stamped.sync h.stamped hsync
  cases syncPackages_onlyLio hm hsync with
  | @deliver m scan raw header headers hscan himu hraw hhdr =>
    obtain ⟨scan', hhead, back, hback, hlidar, hcur, hend⟩ := hscan.front h.lockstep h.pushed
    rw [hraw] at hhead
    obtain rfl : scan = scan' := Option.some.inj hhead
    have hof : r.OfScan := by
      have hst := h.stamped scan (hraw ▸ List.mem_cons_self)
      refine ⟨by rw [hr]; rfl, ?_, back, ?_, ?_⟩
      · simpa [hr, SyncRecord.of, hlidar, hcur, Scan.Stamped] using hst
      · simpa [hr, SyncRecord.of, hcur] using hback
      · simp [hr, SyncRecord.of, hlidar, hend]
    obtain ⟨g, hg, hwork⟩ := hp.imu (Config.slamMode_onlyLio hm).1
    simp only [List.getLast?_append, List.getLast?_singleton, Option.some_or,
      Option.some.injEq] at hg
    have hgt : g.lioTime = r.group.lioTime := by simp [← hg, hr, SyncRecord.of]
    refine ⟨by rw [hp.buf]; exact hlock, by rw [hp.buf]; exact hstamped,
      fun hpushed => ?_, ?_, ?_, ?_, ?_⟩
    · rw [hp.buf] at hpushed
      cases hpushed
    · cases hwork with
      | init hneed _ ht =>
        intro hinit
        rw [ht] at hinit
        simp only [hscan.imu] at hinit hneed
        rw [h.ready hinit] at hneed
        cases hneed
      | propagate _ hneed => exact fun _ => hneed
    · intro hinit
      refine ⟨r, by simp [hsyncs], ?_⟩
      cases hwork with
      | init hneed _ ht =>
        rw [ht] at hinit
        simp only [hscan.imu] at hinit hneed
        rw [h.ready hinit] at hneed
        cases hneed
      | propagate _ _ _ he => rw [he, propEndTime, if_pos rfl, hgt]
    · rw [hsyncs]
      intro d hd
      rcases List.mem_append.mp hd with hd | hd
      · exact h.scans d hd
      · rw [List.mem_singleton.mp hd]
        exact hof
    · rw [hsyncs]
      intro rs d rs' hsplit hprop
      rcases snoc_eq_append_cons hsplit with ⟨rfl, rfl⟩ | ⟨rs'', hold⟩
      · rw [hr] at hprop ⊢
        exact h.base hprop
      · exact h.begs rs d rs'' hold hprop

theorem ScanInv.effect {e : Event C} (hm : cfg.slamMode = .onlyLio) (h : ScanInv w)
    (hok : ¬ClearsScans cfg w.mapper.buf e) (he : StepEffect cfg w e w') : ScanInv w' := by
  cases he with
  | aside ha =>
    exact h.congr (by rw [ha.buf]) (by rw [ha.buf]) (by rw [ha.buf]) ha.meas ha.imu ha.syncs
  | lidar _ hpush => exact h.push (hpush hok)
  | img hi => cases hi <;> exact h.congr rfl rfl rfl rfl rfl rfl
  | imu hacc hw =>
    obtain ⟨_, _, _, _, _, _, rfl⟩ := acceptImu_cases hacc
    exact h.congr (by rw [hw.buf]) (by rw [hw.buf]) (by rw [hw.buf]) hw.meas hw.imu hw.syncs
  | wait hs => exact h.wait (syncPackages_onlyLio hm hs)
  | sync hs hp hsyncs => exact h.deliver hm hs hp hsyncs rfl

end OnlyLio

theorem ScanInv.init (S : Setup C) : ScanInv S.init where
  lockstep := rfl
  stamped := by simp [Setup.init, LIVMapper.init]
  pushed := by simp [Setup.init, LIVMapper.init]
  ready := by simp [Setup.init, LIVMapper.init]
  base := by simp [Setup.init, LIVMapper.init]
  scans := by simp [Setup.init]
  begs := by simp [Setup.init]

theorem Setup.Unbroken.scanInv {S : Setup C} (hm : S.cfg.slamMode = .onlyLio) {w : World C}
    (hw : S.Unbroken w) : ScanInv w :=
  S.invariant (I := ScanInv) (ScanInv.init S) (fun hI hok he => hI.effect hm hok he) hw

/-! ## Both modes -/

/-- Each scan undistorted after a propagated step starts where the scan of the step
before ends, at its last point. -/
def History.Contiguous (h : History C) : Prop :=
  ∀ rs r rs', h.syncs = rs ++ r :: rs' → r.propagated = true →
    ∃ l ∈ rs.getLast?, ∃ back ∈ l.cur.getLast?, r.scanTime = l.scanTime + back.offset

/-- In ONLY_LIO mode, with the scan before in view. -/
theorem ScanInv.onTime_iff {w : World C} (h : ScanInv w) {rs rs' : List (SyncRecord C)}
    {r : SyncRecord C} (hsplit : w.hist.syncs = rs ++ r :: rs') (hprop : r.propagated = true) :
    r.OnTime ↔ ∃ l ∈ rs.getLast?, ∃ back ∈ l.cur.getLast?, r.scanTime = l.scanTime + back.offset := by
  obtain ⟨l, hl, hbeg⟩ := h.begs rs r rs' hsplit hprop
  have hlmem : l ∈ w.hist.syncs :=
    hsplit ▸ List.mem_append_left _ (List.mem_of_getLast? (Option.mem_def.mp hl))
  obtain ⟨back, hback, hend⟩ := (h.scans l hlmem).last
  have hof := h.scans r (hsplit ▸ List.mem_append_right _ List.mem_cons_self)
  rw [hend] at hbeg
  constructor
  · intro hon
    refine ⟨l, hl, back, hback, ?_⟩
    obtain ⟨q, hq, -⟩ := hof.last
    have hqmem := List.mem_of_getLast? (Option.mem_def.mp hq)
    have hqon := hon q hqmem
    rw [hof.stamped q hqmem] at hqon
    exact (add_right_cancel hqon).symm.trans hbeg
  · rintro ⟨l', hl', back', hback', hscan⟩ p hp
    obtain rfl : l = l' := Option.mem_unique hl hl'
    obtain rfl : back = back' := Option.mem_unique hback hback'
    rw [hof.stamped p hp, hbeg, hscan]

/-- In a run that clears no waiting scans, the LIO steps after a propagated one are on
time exactly when the mode is LIVO or the scans join up. -/
theorem on_time_iff (S : Setup C) (hm : S.cfg.slamMode = .livo ∨ S.cfg.slamMode = .onlyLio)
    (w : World C) (hw : S.Unbroken w) :
    (∀ r ∈ w.hist.syncs, r.flg = .lio → r.propagated = true → r.OnTime) ↔
      S.cfg.slamMode = .livo ∨ w.hist.Contiguous := by
  rcases hm with hm | hm
  · exact ⟨fun _ => .inl hm, fun _ => hw.onTime hm⟩
  · have h := hw.scanInv hm
    constructor
    · intro hon
      refine .inr fun rs r rs' hsplit hprop => (h.onTime_iff hsplit hprop).mp ?_
      have hr : r ∈ w.hist.syncs := hsplit ▸ List.mem_append_right _ List.mem_cons_self
      exact hon r hr (h.scans r hr).flg hprop
    · intro hc r hr hflg hprop
      obtain ⟨rs, rs', hsplit⟩ := List.append_of_mem hr
      have hc := hc.resolve_left (by simp [hm])
      exact (h.onTime_iff hsplit hprop).mpr (hc rs r rs' hsplit hprop)

/-- Scans of 100 ms that start at the given tenths of a second, with samples every
50 ms and a turn of the loop after each. -/
def scansAt (tenths : List Nat) : List (Event Carrier.trivial) :=
  tenths.flatMap fun (n : Nat) =>
    [.standardPcl ⟨⟨0, n * 100000000⟩, [.at 50, .at 100]⟩, ImuMsg.at 0 (n * 100000000),
      ImuMsg.at 0 (n * 100000000 + 50000000), ImuMsg.at 0 (n * 100000000 + 100000000), .spin]

/-- Three scans without gaps. -/
theorem on_time_iff_run :
    ∃ w, Setup.noCamera.Unbroken w ∧ (∃ r ∈ w.hist.syncs, r.propagated = true) ∧
      ((∀ r ∈ w.hist.syncs, r.flg = .lio → r.propagated = true → r.OnTime) ↔
        Setup.noCamera.cfg.slamMode = .livo ∨ w.hist.Contiguous) := by
  have hrun : (exec (fun w e => if ¬ClearsScans Setup.noCamera.cfg w.mapper.buf e then
      Setup.noCamera.step w e else none) Setup.noCamera.init (scansAt [1, 2, 3])).any
      (fun w => decide (∃ r ∈ w.hist.syncs, r.propagated = true)) = true := by decide +kernel
  obtain ⟨w, hw, hprop⟩ := exists_exec_of_any _ hrun
  have hreach : Setup.noCamera.Unbroken w := .of_guarded hw
  exact ⟨w, hreach, of_decide_eq_true hprop, on_time_iff _ (.inr rfl) w hreach⟩

/-- The third scan starts 100 ms after the second one ended. -/
theorem not_on_time :
    ∃ w, exec Setup.noCamera.step Setup.noCamera.init (scansAt [1, 2, 4]) = some w ∧
      ∃ r ∈ w.hist.syncs, r.flg = .lio ∧ r.propagated = true ∧ ¬r.OnTime := by
  have hrun : (exec Setup.noCamera.step Setup.noCamera.init (scansAt [1, 2, 4])).any (fun w =>
      decide (∃ r ∈ w.hist.syncs, r.flg = .lio ∧ r.propagated = true ∧ ¬r.OnTime)) = true := by
    decide +kernel
  obtain ⟨w, hw, hlate⟩ := exists_exec_of_any _ hrun
  exact ⟨w, hw, of_decide_eq_true hlate⟩

end FastLivo
