import FastLivo.Mapper.Delivery
import FastLivo.Mapper.EmptyAccess
import FastLivo.Mapper.LivoCycle
import FastLivo.Mapper.Measures

/-!
# The time of the published odometry

`publish_frame_world` stamps the odometry with `keyframe_time`, which `sync_packages`
set when the measurement was cut: in LIVO to the capture time of the front image, at
which the VIO step publishes; in ONLY_LIO to the end of the scan. ONLY_LO never sets it.
The ghost lists the messages with `keyframe_time` and the time of the state they carry.
-/

namespace FastLivo

open Lib

variable {C : Carrier} {cfg : Config C} {K : Kernel C}

/-- Stamps of the odometry messages among the published ones. -/
def odometryStamps (out : List (Output C)) : List Stamp :=
  out.filterMap fun
    | .odometry stamp _ => some stamp
    | _ => none

@[simp] theorem odometryStamps_append (out out' : List (Output C)) :
    odometryStamps (out ++ out') = odometryStamps out ++ odometryStamps out' :=
  List.filterMap_append

theorem odometryStamps_eq_nil {out : List (Output C)}
    (h : ∀ stamp state, Output.odometry stamp state ∉ out) : odometryStamps out = [] := by
  rw [odometryStamps, List.filterMap_eq_nil_iff]
  intro o ho
  cases o with
  | odometry stamp state => exact absurd ho (h stamp state)
  | _ => rfl

/-! ## What one step publishes -/

/-- `publish_frame_world` publishes the odometry once if there are points to publish,
and leaves none of them. -/
structure FramePublished (s t : LIVMapper C) (stamps : List Stamp) : Prop where
  published : stamps = if s.est.pclWWaitPub.isEmpty then [] else [rosTime s.est.keyframeTime]
  points : t.est.pclWWaitPub = []
  feats : t.est.featsUndistort = s.est.featsUndistort
  keyframe : t.est.keyframeTime = s.est.keyframeTime

theorem pushLivoState_est (s : LIVMapper C) : (pushLivoState cfg K s).est = s.est := by
  unfold pushLivoState
  split <;> rfl

theorem publishFrameWorld_published (cfg : Config C) (K : Kernel C) (s : LIVMapper C) :
    FramePublished s (publishFrameWorld cfg K s).1
      (odometryStamps (publishFrameWorld cfg K s).2) := by
  unfold publishFrameWorld
  split
  · rename_i hnil
    exact ⟨by simp [odometryStamps, hnil], List.isEmpty_iff.mp hnil, rfl, rfl⟩
  · rename_i hne
    by_cases himg : cfg.imgEn = true
    · simp only [himg, if_true]
      refine ⟨?_, rfl, ?_, ?_⟩
      · simp [odometryStamps, hne, pushLivoState_est, publishCloudRGB]
      · simp [pushLivoState_est, publishCloudRGB]
      · simp [pushLivoState_est, publishCloudRGB]
    · simp only [himg]
      refine ⟨?_, rfl, ?_, ?_⟩
      · simp [odometryStamps, hne, pushLivoState_est, publishCloud]
      · simp [pushLivoState_est]
      · simp [pushLivoState_est]

theorem finishEkf_est (s : LIVMapper C) : (finishEkf cfg s).est = s.est := by
  obtain ⟨prop, h⟩ := finishEkf_eq cfg s
  rw [h]

/-- What `handleLIO` and `handleVIO` publish, and the points they leave. -/
structure Handled (cfg : Config C) (v u : LIVMapper C) (stamps : List Stamp) : Prop where
  published : stamps = [] ∨ stamps = [rosTime v.est.keyframeTime]
  keyframe : u.est.keyframeTime = v.est.keyframeTime
  feats : u.est.featsUndistort = v.est.featsUndistort
  vio : v.meas.lioVioFlg = .vio →
    u.est.pclWWaitPub = [] ∧ (stamps ≠ [] → v.est.pclWWaitPub ≠ [])
  lio : v.meas.lioVioFlg ≠ .vio → (stamps ≠ [] → cfg.imgEn = false) ∧
    (v.est.featsUndistort = [] → u.est.pclWWaitPub = v.est.pclWWaitPub ∧ stamps = [])

theorem updateLio_handled (rtk : RTK C) {v : LIVMapper C} (hflg : v.meas.lioVioFlg ≠ .vio)
    (hfeats : v.est.featsUndistort ≠ []) :
    Handled cfg v (updateLio cfg K rtk v).1 (odometryStamps (updateLio cfg K rtk v).2) := by
  unfold updateLio
  set down := K.downSizeFilterSurf v.est.featsUndistort
  set s := updateMap cfg K down (estimateLio cfg K rtk down v) with hs
  have hkey : s.est.keyframeTime = v.est.keyframeTime := by
    simp [hs, updateMap, estimateLio, finishEkf_est]
  have hft : s.est.featsUndistort = v.est.featsUndistort := by
    simp [hs, updateMap, estimateLio, finishEkf_est]
  by_cases himg : cfg.imgEn = true
  · simp only [himg, if_true]
    refine ⟨.inl ?_, hkey, hft, fun h => absurd h hflg, fun _ => ⟨?_, fun h => absurd h hfeats⟩⟩
    · simp [odometryStamps, publishOdometry, publishPath, publishMavros]
    · simp [odometryStamps, publishOdometry, publishPath, publishMavros]
  · simp only [himg]
    have hp := publishFrameWorld_published cfg K s
    have hout : ∀ r : LIVMapper C × List (Output C), odometryStamps
        (publishOdometry (estimateLio cfg K rtk down v) :: r.2 ++
          [(publishPath r.1).2, publishMavros (publishPath r.1).1]) = odometryStamps r.2 := by
      intro r
      rw [List.cons_append, ← List.singleton_append, odometryStamps_append, odometryStamps_append]
      simp [odometryStamps, publishOdometry, publishPath, publishMavros]
    simp only [Bool.false_eq_true, if_false, hout]
    refine ⟨?_, hp.keyframe.trans hkey, hp.feats.trans hft, fun h => absurd h hflg,
      fun _ => ⟨fun _ => by simpa using himg, fun h => absurd h hfeats⟩⟩
    rw [hp.published, hkey]
    split
    · exact .inl rfl
    · exact .inr rfl

theorem estimateVio_est (cfg : Config C) (K : Kernel C) (m : MeasureGroup C) (s : LIVMapper C) :
    (estimateVio cfg K m s).est.pclWWaitPub = s.est.pclWWaitPub ∧
      (estimateVio cfg K m s).est.featsUndistort = s.est.featsUndistort ∧
      (estimateVio cfg K m s).est.keyframeTime = s.est.keyframeTime := by
  refine ⟨?_, ?_, ?_⟩ <;> simp [estimateVio, finishEkf_est]

theorem updateVio_handled (m : MeasureGroup C) {v : LIVMapper C} (hflg : v.meas.lioVioFlg = .vio)
    (hpub : v.est.pclWWaitPub ≠ []) :
    Handled cfg v (updateVio cfg K m v).1 (odometryStamps (updateVio cfg K m v).2) := by
  have hp := publishFrameWorld_published cfg K (estimateVio cfg K m v)
  obtain ⟨hpoints, hfeats, hkey⟩ := estimateVio_est cfg K m v
  have hout : odometryStamps (updateVio cfg K m v).2 =
      odometryStamps (publishFrameWorld cfg K (estimateVio cfg K m v)).2 := by
    simp [updateVio, odometryStamps]
  refine ⟨?_, hp.keyframe.trans hkey, hp.feats.trans hfeats, fun _ => ⟨hp.points, fun _ => hpub⟩,
    fun h => absurd hflg h⟩
  rw [hout, hp.published, hkey]
  split
  · exact .inl rfl
  · exact .inr rfl

theorem Handled.nothing {v : LIVMapper C} (h : v.meas.lioVioFlg = .vio → v.est.pclWWaitPub = []) :
    Handled cfg v v [] where
  published := .inl rfl
  keyframe := rfl
  feats := rfl
  vio := fun hflg => ⟨h hflg, fun hne => absurd rfl hne⟩
  lio := fun _ => ⟨fun hne => absurd rfl hne, fun _ => ⟨rfl, rfl⟩⟩

theorem stateEstimationAndMapping_handled {v u : LIVMapper C} {out : List (Output C)}
    (h : stateEstimationAndMapping cfg K v = some (u, out)) :
    Handled cfg v u (odometryStamps out) := by
  have hlio : v.meas.lioVioFlg ≠ .vio → handleLio cfg K v = some (u, out) →
      Handled cfg v u (odometryStamps out) := by
    intro hflg h
    unfold handleLio at h
    split at h
    · cases h
      exact .nothing fun hvio => absurd hvio hflg
    · rename_i hfeats
      obtain ⟨m, -, hm⟩ := Option.map_eq_some_iff.mp h
      have hu := congrArg Prod.fst hm
      have ho := congrArg Prod.snd hm
      subst hu ho
      exact updateLio_handled m.rtk hflg (by simpa using hfeats)
  unfold stateEstimationAndMapping at h
  cases hflg : v.meas.lioVioFlg with
  | wait =>
    rw [hflg] at h
    cases h
    exact .nothing fun hvio => by simp [hflg] at hvio
  | lio =>
    rw [hflg] at h
    exact hlio (by simp [hflg]) h
  | lo =>
    rw [hflg] at h
    exact hlio (by simp [hflg]) h
  | vio =>
    rw [hflg] at h
    simp only [handleVio] at h
    split at h
    · rename_i hnil
      cases h
      exact .nothing fun _ => List.isEmpty_iff.mp hnil
    · rename_i hpub
      obtain ⟨m, -, hm⟩ := Option.map_eq_some_iff.mp h
      have hu := congrArg Prod.fst hm
      have ho := congrArg Prod.snd hm
      subst hu ho
      exact updateVio_handled m hflg (by simpa using hpub)

theorem process2_feats {icfg : ImuConfig} {K : ImuKernel C} {T : C.SE3}
    {g g' : LidarMeasureGroup C} {state state' : StatesGroup C} {cur out : List PointType}
    {p p' : ImuProcess C} (hen : icfg.imuEn = true) (hneed : p.imuNeedInit = true)
    (h : process2 icfg K T g state cur p = some (p', g', state', out)) : out = cur := by
  unfold process2 at h
  simp only [hen, Bool.not_true, Bool.false_eq_true, if_false, hneed, if_true] at h
  split at h
  · cases h
  · split at h
    · cases h
      rfl
    · split at h
      · cases h
      · cases h
        rfl

/-- `processImu` on the members the publication depends on. -/
structure Prepared (cfg : Config C) (t v : LIVMapper C) : Prop where
  keyframe : v.est.keyframeTime = t.est.keyframeTime
  points : v.est.pclWWaitPub = t.est.pclWWaitPub
  flg : v.meas.lioVioFlg = t.meas.lioVioFlg
  feats : cfg.imuEn = true → t.imu.imuNeedInit = true →
    v.est.featsUndistort = t.est.featsUndistort

theorem gravityAlignment_frame (K : Kernel C) (s : LIVMapper C) :
    (gravityAlignment K s).est.keyframeTime = s.est.keyframeTime ∧
      (gravityAlignment K s).est.pclWWaitPub = s.est.pclWWaitPub ∧
      (gravityAlignment K s).est.featsUndistort = s.est.featsUndistort := by
  unfold gravityAlignment
  split <;> exact ⟨rfl, rfl, rfl⟩

theorem processImu_prepared {t v : LIVMapper C}
    (h : processImu cfg K (handleFirstFrame t) = some v) : Prepared cfg t v := by
  obtain ⟨hkey, hpts, hft, hneed⟩ : (handleFirstFrame t).est.keyframeTime = t.est.keyframeTime ∧
      (handleFirstFrame t).est.pclWWaitPub = t.est.pclWWaitPub ∧
      (handleFirstFrame t).est.featsUndistort = t.est.featsUndistort ∧
      (handleFirstFrame t).imu.imuNeedInit = t.imu.imuNeedInit := by
    unfold handleFirstFrame
    split <;> exact ⟨rfl, rfl, rfl, rfl⟩
  unfold processImu at h
  obtain ⟨⟨imu, meas, state, feats⟩, hp, hv⟩ := Option.bind_eq_some_iff.mp h
  obtain ⟨⟨ms, last, idx, hmeas⟩, -⟩ := process2_cases hp
  have hfeats : cfg.imuEn = true → t.imu.imuNeedInit = true → feats = t.est.featsUndistort :=
    fun hen hn => (process2_feats hen (hneed.trans hn) hp).trans hft
  have hflg : meas.lioVioFlg = t.meas.lioVioFlg := by
    rw [hmeas, handleFirstFrame_keeps_meas]
  have he := Option.some.inj hv
  subst he
  by_cases hgrav : cfg.gravityAlignEn = true
  · obtain ⟨hkey', hpts', hft'⟩ := gravityAlignment_frame K
      { handleFirstFrame t with
        imu := imu, meas := meas
        est := { (handleFirstFrame t).est with state := state, featsUndistort := feats } }
    have hk := gravityAlignment_keeps (K := K)
      { handleFirstFrame t with
        imu := imu, meas := meas
        est := { (handleFirstFrame t).est with state := state, featsUndistort := feats } }
    simp only [hgrav, if_true]
    exact ⟨hkey'.trans hkey, hpts'.trans hpts, (congrArg _ hk.meas).trans hflg,
      fun hen hn => hft'.trans (hfeats hen hn)⟩
  · simp only [hgrav]
    exact ⟨hkey, hpts, hflg, hfeats⟩

/-- The work on a measurement: what it publishes, and the points it leaves. -/
structure Worked (cfg : Config C) (t u : LIVMapper C) (stamps : List Stamp) : Prop where
  published : stamps = [] ∨ stamps = [rosTime t.est.keyframeTime]
  keyframe : u.est.keyframeTime = t.est.keyframeTime
  feats : cfg.imuEn = true → t.imu.imuNeedInit = true →
    u.est.featsUndistort = t.est.featsUndistort
  vio : t.meas.lioVioFlg = .vio →
    u.est.pclWWaitPub = [] ∧ (stamps ≠ [] → t.est.pclWWaitPub ≠ [])
  lio : t.meas.lioVioFlg ≠ .vio → (stamps ≠ [] → cfg.imgEn = false) ∧
    (u.est.featsUndistort = [] → u.est.pclWWaitPub = t.est.pclWWaitPub ∧ stamps = [])

theorem processMeasures_worked {t u : LIVMapper C} {out : List (Output C)}
    (h : processMeasures cfg K t = some (u, out)) : Worked cfg t u (odometryStamps out) := by
  unfold processMeasures at h
  obtain ⟨v, himu, hest⟩ := Option.bind_eq_some_iff.mp h
  have hp := processImu_prepared himu
  have hh := stateEstimationAndMapping_handled hest
  refine ⟨?_, hh.keyframe.trans hp.keyframe,
    fun hen hneed => hh.feats.trans (hp.feats hen hneed), fun hflg => ?_, fun hflg => ?_⟩
  · rw [← hp.keyframe]
    exact hh.published
  · rw [← hp.points]
    exact hh.vio (hp.flg.trans hflg)
  · rw [← hp.points, hh.feats]
    exact hh.lio (fun hvio => hflg (hp.flg.symm.trans hvio))

/-! ## The log -/

/-- A published odometry message. -/
structure Odometry where
  stamp : Stamp
  /-- `keyframe_time`, which the stamp is made of. -/
  keyframeTime : Double
  /-- Time the published state is propagated to, `last_lio_update_time`. -/
  stateTime : Double

/-- Scans accepted and delivered, and odometry published so far. -/
structure OdometryLog where
  scans : ScanLog := {}
  published : List Odometry := []

def OdometryLog.record (cfg : Config C) (w : World C) (e : Event C) (w' : World C)
    (log : OdometryLog) : OdometryLog where
  scans := log.scans.record cfg w e w'
  published := log.published ++
    (odometryStamps (w'.hist.published.drop w.hist.published.length)).map
      fun stamp => ⟨stamp, w'.mapper.est.keyframeTime, w'.mapper.meas.lastLioUpdateTime⟩

/-- The message carries the time of its state. -/
def Odometry.OnTime (o : Odometry) : Prop :=
  o.keyframeTime = o.stateTime ∧ o.stamp = rosTime o.keyframeTime

theorem Worked.stamp {t u : LIVMapper C} {stamps : List Stamp} (h : Worked cfg t u stamps)
    {stamp : Stamp} (hmem : stamp ∈ stamps) : stamp = rosTime u.est.keyframeTime := by
  rw [h.keyframe]
  rcases h.published with hnil | hone
  · simp [hnil] at hmem
  · rw [hone] at hmem
    exact List.mem_singleton.mp hmem

/-- The messages of a step are on time when the state it publishes is. -/
theorem Worked.onTime {t u : LIVMapper C} {stamps : List Stamp} {time : Double}
    (h : Worked cfg t u stamps) (hkey : u.est.keyframeTime = time)
    (hstate : stamps ≠ [] → u.meas.lastLioUpdateTime = time) {o : Odometry}
    (ho : o ∈ stamps.map fun stamp => ⟨stamp, u.est.keyframeTime, u.meas.lastLioUpdateTime⟩) :
    o.OnTime ∧ o.keyframeTime = time := by
  obtain ⟨stamp, hstamp, rfl⟩ := List.mem_map.mp ho
  exact ⟨⟨hkey.trans (hstate (List.ne_nil_of_mem hstamp)).symm, h.stamp hstamp⟩, hkey⟩

/-- Every message carries the time of its state, and the times increase. -/
structure OdometryLog.OnTime (log : OdometryLog) : Prop where
  each : ∀ o ∈ log.published, o.OnTime
  later : log.published.Pairwise fun a b => a.keyframeTime < b.keyframeTime

/-- End of a scan: its header time and the offset of its last point. -/
def Scan.endTime (s : Scan) : Double := s.headerTime + (s.points.getLastD {}).offset

/-- The step of a mapper with the odometry log beside it. -/
def Setup.stepOdometry (S : Setup C) :
    World C × OdometryLog → Event C → Option (World C × OdometryLog) :=
  withGhost S.step (OdometryLog.record S.cfg)

theorem OdometryLog.record_callback {w w' : World C} {e : Event C} (log : OdometryLog)
    (hst : step cfg K w e = some w') (he : e ≠ .spin) :
    (log.record cfg w e w').published = log.published := by
  obtain ⟨out, hout, hno⟩ := (step_callback hst he).published
  simp [OdometryLog.record, hout, odometryStamps_eq_nil hno]

theorem OdometryLog.record_wait {w : World C} {t : LIVMapper C} (log : OdometryLog) :
    (log.record cfg w .spin ⟨t, w.hist.recordSync w.mapper false t⟩).published =
      log.published := by
  simp [OdometryLog.record, History.recordSync, odometryStamps]

/-- What a step that worked on a measurement adds to the log. -/
theorem OdometryLog.record_sync {w : World C} {u : LIVMapper C} {out : List (Output C)}
    {h : History C} (log : OdometryLog) (hpub : h.published = w.hist.published ++ out) :
    (log.record cfg w .spin ⟨u, h⟩).published = log.published ++
      (odometryStamps out).map fun stamp =>
        ⟨stamp, u.est.keyframeTime, u.meas.lastLioUpdateTime⟩ := by
  simp [OdometryLog.record, hpub]

/-! ## LIVO -/

/-- Invariant of LIVO mode: an image stays in front of its pair's LIO step with
`keyframe_time` set to it, and only that step leaves points to publish. -/
structure LivoOdometry (exposure : Double) (s : LIVMapper C) (published : List Odometry) : Prop where
  each : ∀ o ∈ published, o.OnTime
  later : published.Pairwise fun a b => a.keyframeTime < b.keyframeTime
  queue : ImageQueue s.buf
  waiting : ∀ o ∈ published, ∀ im ∈ s.buf.imgBuffer, o.keyframeTime < im.time + exposure
  past : ∀ o ∈ published, o.keyframeTime ≤ s.buf.lastTimestampImg + exposure
  keyframe : s.meas.lioVioFlg = .lio → ∃ im ∈ s.buf.imgBuffer.head?,
    s.est.keyframeTime = im.time + exposure
  points : s.est.pclWWaitPub ≠ [] → s.meas.lioVioFlg = .lio
  init : s.imu.imuNeedInit = true →
    s.est.featsUndistort = [] ∧ s.est.pclWWaitPub = []

/-- Image members after an event that is no turn of the loop. -/
theorem step_images {w w' : World C} {e : Event C} (hst : step cfg K w e = some w')
    (he : e ≠ .spin) :
    ImageArrival w.mapper.buf w'.mapper.buf ∨
      w'.mapper.buf.imgBuffer = w.mapper.buf.imgBuffer ∧
        w'.mapper.buf.imgTimeBuffer = w.mapper.buf.imgTimeBuffer ∧
        w'.mapper.buf.lastTimestampImg = w.mapper.buf.lastTimestampImg ∧
        w'.mapper.buf.imgSeq = w.mapper.buf.imgSeq := by
  cases e with
  | standardPcl msg =>
    cases hst
    obtain ⟨_, _, _, _, hb⟩ := (standardPclCbk_cases cfg msg w.mapper.buf).frame
    rw [hb]
    exact .inr ⟨rfl, rfl, rfl, rfl⟩
  | livoxPcl msg =>
    cases hst
    obtain ⟨_, _, _, _, hb⟩ := (livoxPclCbk_cases cfg msg w.mapper.buf).frame
    rw [hb]
    exact .inr ⟨rfl, rfl, rfl, rfl⟩
  | imu msg =>
    cases hst
    cases hacc : acceptImu cfg msg w.mapper.buf with
    | none => simp [imuEvent, imuCbk, hacc]
    | some r =>
      obtain ⟨m, b⟩ := r
      obtain ⟨_, _, _, _, _, _, rfl⟩ := acceptImu_cases hacc
      simp [imuEvent, imuCbk, hacc]
  | img msg =>
    cases hst
    exact .inl (imgCbk_cases cfg msg w.mapper.buf)
  | rtk msg =>
    simp only [step, Option.some.injEq] at hst
    subst hst
    split <;> exact .inr ⟨rfl, rfl, rfl, rfl⟩
  | navSatFix msg =>
    simp only [step, Option.some.injEq] at hst
    subst hst
    split <;> exact .inr ⟨rfl, rfl, rfl, rfl⟩
  | imuPropTimer =>
    cases hst
    rw [(imuPropCallback_keeps cfg K w.mapper).buf]
    exact .inr ⟨rfl, rfl, rfl, rfl⟩
  | spin => exact absurd rfl he

section Livo

variable {exposure : Double} {s s' : LIVMapper C} {published : List Odometry}

theorem LivoOdometry.congr (h : LivoOdometry exposure s published)
    (hq : s'.buf.imgBuffer = s.buf.imgBuffer)
    (ht : s'.buf.imgTimeBuffer = s.buf.imgTimeBuffer)
    (hl : s'.buf.lastTimestampImg = s.buf.lastTimestampImg)
    (hn : s'.buf.imgSeq = s.buf.imgSeq)
    (hm : s'.meas = s.meas) (hi : s'.imu = s.imu)
    (he : s'.est = s.est) : LivoOdometry exposure s' published where
  each := h.each
  later := h.later
  queue := ⟨by rw [ht, hq]; exact h.queue.times, by rw [hq]; exact h.queue.sorted,
    by rw [hq, hl, hn]; exact h.queue.newest⟩
  waiting := by rw [hq]; exact h.waiting
  past := by rw [hl]; exact h.past
  keyframe := by rw [hm, hq, he]; exact h.keyframe
  points := by rw [hm, he]; exact h.points
  init := by rw [hi, he]; exact h.init

/-- The image callback appends images later than all before. -/
theorem ImageArrival.append {b b' : SensorBuffers C} (h : ImageArrival b b') :
    ∃ new, b'.imgBuffer = b.imgBuffer ++ new ∧ (∀ im ∈ new, b.lastTimestampImg < im.time) ∧
      b.lastTimestampImg ≤ b'.lastTimestampImg := by
  cases h with
  | ignored => exact ⟨[], by simp, by simp, le_rfl⟩
  | pushed n time mat hlidar hlater =>
    have hlt : b.lastTimestampImg < time := by linarith
    exact ⟨[⟨mat, time, b.imgSeq⟩], rfl, by simpa using hlt, hlt.le⟩

theorem LivoOdometry.image (h : LivoOdometry exposure s published)
    (ha : ImageArrival s.buf s'.buf) (hm : s'.meas = s.meas)
    (hi : s'.imu = s.imu) (he : s'.est = s.est) :
    LivoOdometry exposure s' published := by
  obtain ⟨new, hnew, hlater, hlast⟩ := ha.append
  refine ⟨h.each, h.later, h.queue.arrival ha, ?_, ?_, ?_, ?_, ?_⟩
  · intro o ho im him
    rw [hnew] at him
    rcases List.mem_append.mp him with him | him
    · exact h.waiting o ho im him
    · linarith [h.past o ho, hlater im him]
  · intro o ho
    linarith [h.past o ho]
  · rw [hm, he]
    intro hflg
    obtain ⟨im, him, ht⟩ := h.keyframe hflg
    obtain ⟨ims, hims⟩ := List.head?_eq_some_iff.mp (Option.mem_def.mp him)
    exact ⟨im, by simp [hnew, hims], ht⟩
  · rw [hm, he]
    exact h.points
  · rw [hi, he]
    exact h.init

theorem atImage_frame (cfg : Config C) (time : Double) (est : Estimation C) :
    (atImage cfg time est).pclWWaitPub = est.pclWWaitPub ∧
      (atImage cfg time est).featsUndistort = est.featsUndistort := by
  unfold atImage
  split <;> exact ⟨rfl, rfl⟩

theorem LivoOdometry.wait {t : LIVMapper C}
    (h : LivoOdometry cfg.exposureTimeInit s published) (hs : LivoSync cfg s false t) :
    LivoOdometry cfg.exposureTimeInit t published := by
  cases hs with
  | idle => exact h.congr rfl rfl rfl rfl rfl rfl rfl
  | @hold time lastLio hflg hlast =>
    obtain ⟨hpts, hfeats⟩ := atImage_frame cfg time s.est
    refine ⟨h.each, h.later, h.queue, h.waiting, h.past, fun hf => absurd hf hflg, ?_, ?_⟩
    · simpa [hpts] using h.points
    · simpa [hpts, hfeats] using h.init
  | @throwImage img imgs time lastLio times hflg hlast hbuf htime =>
    obtain ⟨hpts, hfeats⟩ := atImage_frame cfg (time + cfg.exposureTimeInit) s.est
    obtain ⟨-, -, hq⟩ := h.queue.pop hbuf htime
    refine ⟨h.each, h.later, hq s.buf.lidarPushed, ?_, h.past,
      fun hf => absurd hf hflg, ?_, ?_⟩
    · intro o ho im him
      exact h.waiting o ho im (hbuf ▸ List.mem_cons_of_mem _ him)
    · simpa [hpts] using h.points
    · simpa [hpts, hfeats] using h.init

/-- A LIO step publishes no odometry and sets `keyframe_time` to the front image. -/
theorem LivoOdometry.lio {t : LIVMapper C} {stamps : List Stamp} (hm : cfg.slamMode = .livo)
    (hen : cfg.imuEn = true) (h : LivoOdometry cfg.exposureTimeInit s published)
    (hs : LivoSync cfg s true t) (hflg : t.meas.lioVioFlg = .lio)
    (hp : Processed cfg t s') (hw : Worked cfg t s' stamps) :
    stamps = [] ∧ LivoOdometry cfg.exposureTimeInit s' published := by
  obtain ⟨himgEn, -⟩ := Config.slamMode_livo hm
  obtain ⟨hquiet, hpoints⟩ := hw.lio (by simp [hflg])
  have hnil : stamps = [] := by
    by_contra hne
    simp [hquiet hne] at himgEn
  obtain ⟨g, -, hwork⟩ := hp.imu hen
  obtain ⟨_, _, _, hmeas⟩ := hp.meas
  cases hs with
  | vio => simp at hflg
  | @lio time lastLio lioTime times headers raw cur next hbefore hlast htime himu hlio =>
    obtain ⟨hpts, hfeats⟩ := atImage_frame cfg lioTime s.est
    refine ⟨hnil, h.each, h.later, ?_, ?_, ?_, ?_, ?_, ?_⟩
    · rw [hp.buf]
      exact ⟨h.queue.times, h.queue.sorted, h.queue.newest⟩
    · rw [hp.buf]
      exact h.waiting
    · rw [hp.buf]
      exact h.past
    · intro _
      have hfront : s.buf.imgBuffer.map Image.time = time :: times :=
        h.queue.times.symm.trans htime
      obtain ⟨im, ims, hims, him, -⟩ := List.map_eq_cons_iff.mp hfront
      refine ⟨im, by rw [hp.buf]; simp [hims], ?_⟩
      rw [hw.keyframe, him, ← hlio]
      simp [atImage, himgEn]
    · intro _
      rw [hmeas]
    · intro hneed
      have hbefore : s.imu.imuNeedInit = true := hwork.needInit hneed
      obtain ⟨hf, hpt⟩ := h.init hbefore
      have hfu : s'.est.featsUndistort = [] := (hw.feats hen hbefore).trans (hfeats.trans hf)
      exact ⟨hfu, (hpoints hfu).1.trans (hpts.trans hpt)⟩

/-- A VIO step publishes at the capture time of its image. -/
theorem LivoOdometry.vio {t : LIVMapper C} {stamps : List Stamp}
    (hen : cfg.imuEn = true) (h : LivoOdometry cfg.exposureTimeInit s published)
    (hs : LivoSync cfg s true t) (hflg : t.meas.lioVioFlg = .vio)
    (hp : Processed cfg t s') (hw : Worked cfg t s' stamps) :
    LivoOdometry cfg.exposureTimeInit s' (published ++ stamps.map fun stamp =>
      ⟨stamp, s'.est.keyframeTime, s'.meas.lastLioUpdateTime⟩) := by
  obtain ⟨hpoints, hpub⟩ := hw.vio hflg
  obtain ⟨g, hg, hwork⟩ := hp.imu hen
  obtain ⟨_, _, _, hmeas⟩ := hp.meas
  cases hs with
  | lio => simp at hflg
  | @vio img imgs time times hbefore himu hbuf htime =>
    obtain ⟨hfront, hafter, hq⟩ := h.queue.pop hbuf htime
    have hmem : img ∈ s.buf.imgBuffer := hbuf ▸ List.mem_cons_self
    have hkey : s'.est.keyframeTime = img.time + cfg.exposureTimeInit := by
      obtain ⟨im, him, hk⟩ := h.keyframe hbefore
      rw [hbuf] at him
      cases him
      exact hw.keyframe.trans hk
    -- Points wait only after an initialised step, so the state was propagated here.
    have hstate : stamps ≠ [] →
        s'.meas.lastLioUpdateTime = img.time + cfg.exposureTimeInit := by
      intro hne
      cases hwork with
      | init hneed => exact absurd (h.init hneed).2 (hpub hne)
      | propagate _ _ _ _ hlast =>
        simp only [List.getLast?_singleton, Option.some.injEq] at hg
        rw [hlast (.inr rfl), ← hg]
        simp [propEndTime, hfront]
    refine ⟨?_, ?_, ?_, ?_, ?_, ?_, ?_, ?_⟩
    · intro o ho
      rcases List.mem_append.mp ho with ho | ho
      · exact h.each o ho
      · exact (hw.onTime hkey hstate ho).1
    · refine List.pairwise_append.mpr ⟨h.later, ?_, ?_⟩
      · rcases hw.published with hnil | hone
        · simp [hnil]
        · simp [hone]
      · intro o ho o' ho'
        rw [(hw.onTime hkey hstate ho').2]
        exact h.waiting o ho img hmem
    · rw [hp.buf]
      exact hq false
    · rw [hp.buf]
      intro o ho im him
      rcases List.mem_append.mp ho with ho | ho
      · exact h.waiting o ho im (hbuf ▸ List.mem_cons_of_mem _ him)
      · rw [(hw.onTime hkey hstate ho).2]
        linarith [(hafter im him).1]
    · rw [hp.buf]
      intro o ho
      rcases List.mem_append.mp ho with ho | ho
      · exact h.past o ho
      · rw [(hw.onTime hkey hstate ho).2]
        have hle : img.time ≤ s.buf.lastTimestampImg := (h.queue.newest img hmem).1
        linarith
    · rw [hmeas]
      simp
    · intro hne
      exact absurd hpoints hne
    · intro hneed
      have hbefore : s.imu.imuNeedInit = true := hwork.needInit hneed
      exact ⟨(hw.feats hen hbefore).trans (h.init hbefore).1, hpoints⟩

end Livo

theorem LivoSync.lio_or_vio {s t : LIVMapper C} (h : LivoSync cfg s true t) :
    t.meas.lioVioFlg = .lio ∨ t.meas.lioVioFlg = .vio := by
  cases h with
  | lio => exact .inl rfl
  | vio => exact .inr rfl

theorem LivoOdometry.step {w w' : World C} {e : Event C} {log : OdometryLog}
    (hm : cfg.slamMode = .livo) (ha : AccessInv cfg w.mapper)
    (h : LivoOdometry cfg.exposureTimeInit w.mapper log.published)
    (hst : step cfg K w e = some w') :
    LivoOdometry cfg.exposureTimeInit w'.mapper (log.record cfg w e w').published := by
  by_cases he : e = .spin
  · subst he
    cases spinOnce_cases hst with
    | wait hs =>
      rw [OdometryLog.record_wait]
      exact h.wait (syncPackages_livo hm hs)
    | sync hs hwork =>
      have hsync := syncPackages_livo hm hs
      have hen : cfg.imuEn = true := by
        cases hsync with
        | lio _ _ _ himu => exact (ha.imu himu).1
        | vio _ himu => exact (ha.imu himu).1
      rw [OdometryLog.record_sync log rfl]
      have hp := processMeasures_cases hwork
      have hw := processMeasures_worked hwork
      rcases hsync.lio_or_vio with hflg | hflg
      · obtain ⟨hnil, h'⟩ := h.lio hm hen hsync hflg hp hw
        rw [hnil, List.map_nil, List.append_nil]
        exact h'
      · exact h.vio hen hsync hflg hp hw
  · have hf := step_callback hst he
    rw [log.record_callback hst he]
    rcases step_images hst he with himg | ⟨hq, ht, hl, hn⟩
    · exact h.image himg hf.meas hf.imu hf.est
    · exact h.congr hq ht hl hn hf.meas hf.imu hf.est

/-! ## ONLY_LIO -/

/-- Invariant of ONLY_LIO mode: the messages carry the ends of delivered scans, in order. -/
structure ScanOdometry (w : World C) (log : OdometryLog) : Prop where
  scans : DeliveryInv .onlyLio w log.scans
  latchedEnd : w.mapper.buf.lidarPushed = true →
    ∀ scan ∈ w.mapper.buf.lidRawDataBuffer.head?, w.mapper.meas.lidarFrameEndTime = scan.endTime
  each : ∀ o ∈ log.published, o.OnTime
  ends : (log.published.map Odometry.keyframeTime).Sublist
    (log.scans.delivered.map fun d => d.cloud.endTime)
  init : w.mapper.imu.imuNeedInit = true → w.mapper.est.featsUndistort = []

section OnlyLio

variable {w w' : World C} {log : OdometryLog}

theorem ScanPushed.latchedEnd {s m : LIVMapper C} (h : ScanPushed s m) (hlock : Lockstep s.buf)
    (hl : s.buf.lidarPushed = true →
      ∀ scan ∈ s.buf.lidRawDataBuffer.head?, s.meas.lidarFrameEndTime = scan.endTime) :
    ∀ scan ∈ s.buf.lidRawDataBuffer.head?, m.meas.lidarFrameEndTime = scan.endTime := by
  cases h with
  | before hp => exact hl hp
  | now _ _ hraw hhdr _ hback =>
    intro scan hscan
    rw [hraw] at hscan
    obtain rfl := Option.some.inj hscan
    rw [Lockstep, hraw, hhdr, List.map_cons] at hlock
    obtain ⟨rfl, -⟩ := List.cons.inj hlock
    simp [Scan.endTime, List.getLastD_eq_getLast?, hback, PointType.offset]

theorem ScanOdometry.callback {e : Event C} (h : ScanOdometry w log) (hok : ¬ClearsScans cfg w.mapper.buf e)
    (hst : step cfg K w e = some w') (he : e ≠ .spin) :
    ScanOdometry w' (log.record cfg w e w') := by
  have hf := step_callback hst he
  have hk := step_scans hst hok he
  have hd := h.scans.callback hk
  have hnone : deliveryOf cfg w.mapper e = none := by
    cases e <;> first | rfl | exact absurd rfl he
  refine ⟨?_, ?_, ?_, ?_, ?_⟩
  · simpa [OdometryLog.record, ScanLog.record, hnone] using hd
  · intro hp scan hscan
    rw [hk.lidarPushed] at hp
    obtain ⟨front, hfront, -⟩ := h.scans.latched hp
    obtain ⟨raw, hraw⟩ := List.head?_eq_some_iff.mp (Option.mem_def.mp hfront)
    rw [hk.raw, hraw] at hscan
    rw [hk.meas]
    exact h.latchedEnd hp scan (by rw [hraw]; exact hscan)
  · rw [log.record_callback hst he]
    exact h.each
  · rw [log.record_callback hst he]
    simpa [OdometryLog.record, ScanLog.record, hnone] using h.ends
  · rw [hf.imu, hf.est]
    exact h.init

theorem ScanOdometry.wait {t : LIVMapper C} (hm : cfg.slamMode = .onlyLio)
    (h : ScanOdometry w log) (hs : syncPackages cfg w.mapper = some (false, t)) :
    ScanOdometry ⟨t, w.hist.recordSync w.mapper false t⟩
      (log.record cfg w .spin ⟨t, w.hist.recordSync w.mapper false t⟩) := by
  have hd : DeliveryInv .onlyLio ⟨t, w.hist.recordSync w.mapper false t⟩ log.scans :=
    h.scans.wait (.inl hm) hs
  have hscans : log.scans.record cfg w .spin ⟨t, w.hist.recordSync w.mapper false t⟩ =
      log.scans := by
    simp [ScanLog.record, acceptedScan, deliveryOf, hs]
  have hrest : t.est = w.mapper.est ∧ t.imu = w.mapper.imu ∧ (t.buf.lidarPushed = true →
      ∀ scan ∈ t.buf.lidRawDataBuffer.head?, t.meas.lidarFrameEndTime = scan.endTime) := by
    cases syncPackages_onlyLio hm hs with
    | idle => exact ⟨rfl, rfl, h.latchedEnd⟩
    | refuse hpushed =>
      exact ⟨rfl, rfl, fun hp => absurd (hpushed.symm.trans hp) Bool.false_ne_true⟩
    | wait hscan =>
      have hlast := hscan.latchedEnd h.scans.lockstep h.latchedEnd
      refine ⟨by cases hscan <;> rfl, by cases hscan <;> rfl, fun _ scan hmem => ?_⟩
      rw [hscan.buffers] at hmem
      exact hlast scan hmem
  obtain ⟨hest, himu, hlast⟩ := hrest
  refine ⟨?_, hlast, ?_, ?_, ?_⟩
  · simpa [OdometryLog.record, hscans] using hd
  · rw [OdometryLog.record_wait]
    exact h.each
  · rw [OdometryLog.record_wait]
    simpa [OdometryLog.record, hscans] using h.ends
  · rw [himu, hest]
    exact h.init

/-- A delivered scan as the estimator gets it: `keyframe_time` and the measurement are at
its end. -/
structure ScanCut (s t : LIVMapper C) (endTime : Double) : Prop where
  imu : t.imu = s.imu
  feats : t.est.featsUndistort = s.est.featsUndistort
  keyframe : t.est.keyframeTime = endTime
  flg : t.meas.lioVioFlg = .lio
  group : ∀ g ∈ t.meas.measures.getLast?, g.lioTime = endTime

theorem ScanOdometry.cut {t : LIVMapper C} (hm : cfg.slamMode = .onlyLio)
    (hcam : cfg.imgEn = false) (h : ScanOdometry w log)
    (hs : syncPackages cfg w.mapper = some (true, t)) :
    ScanCut w.mapper t (Delivery.of w.mapper t).cloud.endTime := by
  have hfront := (h.scans.delivered (.inl hm) hs).front
  generalize (Delivery.of w.mapper t).cloud = cloud at hfront ⊢
  cases syncPackages_onlyLio hm hs with
  | @deliver m scan raw header headers hscan himu hraw hhdr =>
    rw [hraw] at hfront
    obtain ⟨rfl, -⟩ := List.cons.inj hfront
    have hlast := hscan.latchedEnd h.scans.lockstep h.latchedEnd scan (by rw [hraw]; rfl)
    refine ⟨hscan.imu, ?_, ?_, rfl, ?_⟩
    · simp only [hcam]
      cases hscan <;> rfl
    · simpa [hcam] using hlast
    · simpa using hlast

/-- A step publishes at most once, at the end of the scan it delivered. -/
theorem ScanOdometry.sync {t u : LIVMapper C} {out : List (Output C)} {hist : History C}
    (hm : cfg.slamMode = .onlyLio) (hcam : cfg.imgEn = false) (h : ScanOdometry w log)
    (hs : syncPackages cfg w.mapper = some (true, t))
    (hwork : processMeasures cfg K t = some (u, out))
    (hpub : hist.published = w.hist.published ++ out) :
    ScanOdometry ⟨u, hist⟩ (log.record cfg w .spin ⟨u, hist⟩) := by
  have hp := processMeasures_cases hwork
  have hw := processMeasures_worked hwork
  have hen := (Config.slamMode_onlyLio hm).1
  have hcut := h.cut hm hcam hs
  have hown := h.scans.delivered (.inl hm) hs
  have hd : DeliveryInv .onlyLio ⟨u, hist⟩
      { log.scans with delivered := log.scans.delivered ++ [.of w.mapper t] } := by
    rw [← hm]
    apply DeliveryInv.sync (.inl hm) (hm ▸ h.scans) hs
    exact hp.buf
  have hscans : (log.record cfg w .spin ⟨u, hist⟩).scans =
      { log.scans with delivered := log.scans.delivered ++ [.of w.mapper t] } := by
    simp [OdometryLog.record, ScanLog.record, acceptedScan, deliveryOf, hs]
  obtain ⟨g, hg, hwk⟩ := hp.imu hen
  have hkey := hw.keyframe.trans hcut.keyframe
  have hidle : t.imu.imuNeedInit = true → u.est.featsUndistort = [] := by
    intro hneed
    rw [hw.feats hen hneed, hcut.feats]
    exact h.init (hcut.imu ▸ hneed)
  -- A message needs undistorted points, so the IMU was initialised before the step.
  have hstate : odometryStamps out ≠ [] →
      u.meas.lastLioUpdateTime = (Delivery.of w.mapper t).cloud.endTime := by
    intro hne
    cases hwk with
    | init hneed => exact absurd ((hw.lio (by simp [hcut.flg])).2 (hidle hneed)).2 hne
    | propagate _ _ _ _ hlast =>
      rw [hlast (.inl hcut.flg), hcut.flg, propEndTime, if_pos rfl]
      exact hcut.group g hg
  refine ⟨hscans ▸ hd, ?_, ?_, ?_, ?_⟩
  · intro hpushed
    simp only [hp.buf, hown.lidarPushed] at hpushed
    cases hpushed
  · rw [OdometryLog.record_sync log hpub]
    intro o ho
    rcases List.mem_append.mp ho with ho | ho
    · exact h.each o ho
    · exact (hw.onTime hkey hstate ho).1
  · rw [OdometryLog.record_sync log hpub, hscans, List.map_append, List.map_append]
    apply h.ends.append
    rcases hw.published with hnil | hone
    · simp [hnil]
    · simp [hone, hkey]
  · intro hneed
    exact hidle (hwk.needInit hneed)

theorem ScanOdometry.step {e : Event C} (hm : cfg.slamMode = .onlyLio)
    (ha : AccessInv cfg w.mapper) (h : ScanOdometry w log)
    (hok : ¬ClearsScans cfg w.mapper.buf e) (hst : step cfg K w e = some w') :
    ScanOdometry w' (log.record cfg w e w') := by
  by_cases he : e = .spin
  · subst he
    cases spinOnce_cases hst with
    | wait hs => exact h.wait hm hs
    | sync hs hwork =>
      have hfront := (h.scans.delivered (.inl hm) hs).front
      have hcam : cfg.imgEn = false := by
        apply (Config.slamMode_onlyLio hm).2
        by_contra hoff
        simp [ha.lidar.off (by simpa using hoff)] at hfront
      exact h.sync hm hcam hs hwork rfl
  · exact h.callback hok hst he

end OnlyLio

/-! ## ONLY_LO -/

/-- Invariant of ONLY_LO mode: `keyframe_time` is what the constructor left. -/
structure LoOdometry (s : LIVMapper C) (published : List Odometry) : Prop where
  keyframe : s.est.keyframeTime = 0
  each : ∀ o ∈ published, o.keyframeTime = 0 ∧ o.stamp = rosTime o.keyframeTime

theorem OnlyLoSync.est {s t : LIVMapper C} {ok : Bool} (h : OnlyLoSync s ok t) :
    t.est = s.est := by
  cases h <;> rfl

theorem LoOdometry.step {w w' : World C} {e : Event C} {log : OdometryLog}
    (hm : cfg.slamMode = .onlyLo) (h : LoOdometry w.mapper log.published)
    (hst : step cfg K w e = some w') :
    LoOdometry w'.mapper (log.record cfg w e w').published := by
  by_cases he : e = .spin
  · subst he
    cases spinOnce_cases hst with
    | wait hs =>
      rw [OdometryLog.record_wait]
      exact ⟨(congrArg _ (syncPackages_onlyLo hm hs).est).trans h.keyframe, h.each⟩
    | sync hs hwork =>
      have hw := processMeasures_worked hwork
      have hkey := (congrArg Estimation.keyframeTime (syncPackages_onlyLo hm hs).est).trans h.keyframe
      rw [OdometryLog.record_sync log rfl]
      refine ⟨hw.keyframe.trans hkey, fun o ho => ?_⟩
      rcases List.mem_append.mp ho with ho | ho
      · exact h.each o ho
      · obtain ⟨stamp, hstamp, rfl⟩ := List.mem_map.mp ho
        exact ⟨hw.keyframe.trans hkey, hw.stamp hstamp⟩
  · rw [log.record_callback hst he]
    exact ⟨(congrArg _ (step_callback hst he).est).trans h.keyframe, h.each⟩

/-- Messages that all carry time zero are on time when there is at most one. -/
theorem LoOdometry.onTime_iff {s : LIVMapper C} {log : OdometryLog}
    (h : LoOdometry s log.published) :
    log.OnTime ↔ log.published = [] ∨ ∃ o, log.published = [o] ∧ o.stateTime = 0 := by
  constructor
  · intro hon
    match hp : log.published with
    | [] => exact .inl rfl
    | [o] =>
      have ho : o ∈ log.published := by simp [hp]
      exact .inr ⟨o, rfl, (hon.each o ho).1.symm.trans (h.each o ho).1⟩
    | o :: o' :: rest =>
      have hlater := hon.later
      rw [hp] at hlater
      have hlt := (List.pairwise_cons.mp hlater).1 o' List.mem_cons_self
      rw [(h.each o (by simp [hp])).1, (h.each o' (by simp [hp])).1] at hlt
      exact absurd hlt (lt_irrefl _)
  · rintro (hnil | ⟨o, hone, hzero⟩)
    · exact ⟨by simp [hnil], by simp [hnil]⟩
    · have ho := h.each o (by simp [hone])
      refine ⟨fun o' ho' => ?_, by simp [hone]⟩
      rw [hone] at ho'
      rw [List.mem_singleton.mp ho']
      exact ⟨ho.1.trans hzero.symm, ho.2⟩

/-! ## All modes -/

theorem LivoOdometry.start (S : Setup C) (exposure : Double) :
    LivoOdometry exposure S.init.mapper [] where
  each := by simp
  later := .nil
  queue := ⟨rfl, .nil, by simp [Setup.init, LIVMapper.init]⟩
  waiting := by simp
  past := by simp
  keyframe := by simp [Setup.init, LIVMapper.init]
  points := by simp [Setup.init, LIVMapper.init]
  init := fun _ => ⟨rfl, rfl⟩

theorem ScanOdometry.start (S : Setup C) : ScanOdometry S.init {} where
  scans := DeliveryInv.init S
  latchedEnd := by simp [Setup.init, LIVMapper.init]
  each := by simp
  ends := List.Sublist.refl _
  init := fun _ => rfl

/-- The run that publishes: in ONLY_LIO no lidar message clears waiting scans. -/
def Setup.PublishingRun (S : Setup C) : World C × OdometryLog → Prop :=
  Reach S.stepOdometry
    (fun p e => S.cfg.slamMode = .onlyLio → ¬ClearsScans S.cfg p.1.mapper.buf e) (S.init, {})

theorem OdometryLog.onTime_of_scans {w : World C} {log : OdometryLog} (h : ScanOdometry w log)
    (hends : log.scans.accepted.Pairwise fun a b => a.endTime < b.endTime) : log.OnTime := by
  refine ⟨h.each, ?_⟩
  have hdel : (log.scans.delivered.map fun d => d.cloud.endTime).Pairwise (· < ·) := by
    rw [h.scans.order] at hends
    have hpre := (List.pairwise_append.mp hends).1
    rw [List.pairwise_map] at hpre
    rw [List.pairwise_map]
    exact hpre
  exact List.pairwise_map.mp (hdel.sublist h.ends)

/-- With scans that end later and later, the odometry carries the time of its state and
its times increase; in ONLY_LO only until a message is published. -/
theorem odometry_on_time_iff (S : Setup C) (w : World C) (log : OdometryLog)
    (hw : S.PublishingRun (w, log))
    (hends : log.scans.accepted.Pairwise fun a b => a.endTime < b.endTime) :
    log.OnTime ↔ (S.cfg.slamMode = .onlyLo →
      log.published = [] ∨ ∃ o, log.published = [o] ∧ o.stateTime = 0) := by
  have hacc : ∀ {p : World C × OdometryLog}, S.PublishingRun p → AccessInv S.cfg p.1.mapper := by
    intro p hp
    have hall : Reach S.stepOdometry (fun _ _ => True) (S.init, {}) p :=
      hp.mono fun _ _ _ => trivial
    exact Setup.Reachable.accessInv (@Reach.erase _ _ _ _ _ (fun _ _ => True) _ _ hall)
  cases hm : S.cfg.slamMode with
  | livo =>
    have h : LivoOdometry S.cfg.exposureTimeInit w.mapper log.published := hw.invariant
      (I := fun p => LivoOdometry S.cfg.exposureTimeInit p.1.mapper p.2.published)
      (LivoOdometry.start S _) fun {p q} e hr hI _ hst => by
        obtain ⟨hstep, hlog⟩ := withGhost_cases hst
        rw [hlog]
        exact hI.step hm (hacc hr) hstep
    exact iff_of_true ⟨h.each, h.later⟩ (by simp)
  | onlyLio =>
    have h : ScanOdometry w log := hw.invariant (I := fun p => ScanOdometry p.1 p.2)
      (ScanOdometry.start S) fun {p q} e hr hI hok hst => by
        obtain ⟨hstep, hlog⟩ := withGhost_cases hst
        rw [hlog]
        exact hI.step hm (hacc hr) (hok hm) hstep
    exact iff_of_true (log.onTime_of_scans h hends) (by simp)
  | onlyLo =>
    have h : LoOdometry w.mapper log.published := hw.invariant
      (I := fun p => LoOdometry p.1.mapper p.2.published)
      ⟨rfl, by simp⟩ fun {p q} e _ hI _ hst => by
        obtain ⟨hstep, hlog⟩ := withGhost_cases hst
        rw [hlog]
        exact hI.step hm hstep
    simpa using h.onTime_iff

/-- Three scans of 100 ms without a camera; the first one initialises the IMU. -/
theorem odometry_on_time_iff_run :
    ∃ w log, Setup.noCamera.PublishingRun (w, log) ∧ log.published.length = 2 ∧
      (log.OnTime ↔ (Setup.noCamera.cfg.slamMode = .onlyLo →
        log.published = [] ∨ ∃ o, log.published = [o] ∧ o.stateTime = 0)) := by
  have hrun : (exec (fun p e => if Setup.noCamera.cfg.slamMode = .onlyLio →
      ¬ClearsScans Setup.noCamera.cfg p.1.mapper.buf e then Setup.noCamera.stepOdometry p e
      else none) (Setup.noCamera.init, {})
      [.standardPcl ⟨⟨1, 0⟩, [.at 50, .at 100]⟩, ImuMsg.at 1 0, ImuMsg.at 1 40000000,
        ImuMsg.at 1 80000000, ImuMsg.at 1 100000000, .spin,
        .standardPcl ⟨⟨2, 0⟩, [.at 50, .at 100]⟩, ImuMsg.at 2 100000000, .spin,
        .standardPcl ⟨⟨3, 0⟩, [.at 50, .at 100]⟩, ImuMsg.at 3 100000000, .spin]).any
      (fun p => decide (p.2.published.length = 2 ∧
        p.2.scans.accepted.Pairwise fun a b => a.endTime < b.endTime)) = true := by decide +kernel
  obtain ⟨⟨w, log⟩, hw, htest⟩ := exists_exec_of_any _ hrun
  obtain ⟨hlen, hends⟩ := of_decide_eq_true htest
  exact ⟨w, log, .of_guarded hw, hlen,
    odometry_on_time_iff Setup.noCamera w log (.of_guarded hw) hends⟩

/-- A scan that ends at 1.1 s, published by the mapper without IMU at time zero. -/
theorem odometry_unstamped :
    ∃ w log, exec Setup.noImu.stepOdometry (Setup.noImu.init, {})
        [.standardPcl ⟨⟨1, 0⟩, [.at 100]⟩, .spin] = some (w, log) ∧
      (log.scans.accepted.Pairwise fun a b => a.endTime < b.endTime) ∧ ¬log.OnTime := by
  have hrun : (exec Setup.noImu.stepOdometry (Setup.noImu.init, {})
      [.standardPcl ⟨⟨1, 0⟩, [.at 100]⟩, .spin]).any (fun p => decide
        (p.2.scans.accepted.length = 1 ∧
          ∃ o ∈ p.2.published, o.keyframeTime ≠ o.stateTime)) = true := by decide +kernel
  obtain ⟨⟨w, log⟩, hw, htest⟩ := exists_exec_of_any _ hrun
  obtain ⟨hlen, o, ho, hne⟩ := of_decide_eq_true htest
  obtain ⟨scan, hscan⟩ := List.length_eq_one_iff.mp hlen
  refine ⟨w, log, hw, ?_, fun h => hne (h.each o ho).1⟩
  rw [show log.scans.accepted = [scan] from hscan]
  exact List.pairwise_singleton _ _

end FastLivo
