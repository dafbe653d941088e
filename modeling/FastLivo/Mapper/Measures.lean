import FastLivo.Mapper.Effects

/-!
# The measurement history

Every successful call of `sync_packages` pushes its measurement to `measures`, and the
functions that work on it read the last entry. The VIO half of a pair clears the deque
before its push, so LIVO keeps two entries at most; ONLY_LIO and ONLY_LO never clear it.
-/

namespace FastLivo

open Lib

variable {C : Carrier} {cfg : Config C} {K : Kernel C}

/-- The measurement is what the call that took `s` to `t` took from the buffers: its
samples are among those removed, its time and its image are those of the step. -/
structure MadeBy (cfg : Config C) (s t : LIVMapper C) (m : MeasureGroup C) : Prop where
  imu : ∃ removed, s.buf.imuBuffer = removed ++ t.buf.imuBuffer ∧ m.imu.Sublist removed
  lio : t.meas.lioVioFlg = .lio → cfg.slamMode = .livo →
    ∃ time ∈ s.buf.imgTimeBuffer.head?, m.lioTime = time + cfg.exposureTimeInit
  vio : t.meas.lioVioFlg = .vio → m.img ∈ s.buf.imgBuffer.head? ∧
    ∃ time ∈ s.buf.imgTimeBuffer.head?, m.vioTime = time + cfg.exposureTimeInit
  scan : cfg.slamMode ≠ .livo → m.lioTime = t.meas.lidarFrameEndTime

/-- What a successful call does to `measures`. -/
structure Pushed (cfg : Config C) (s t : LIVMapper C) (kept : List (MeasureGroup C))
    (m : MeasureGroup C) : Prop where
  measures : t.meas.measures = kept ++ [m]
  kept : kept = if t.meas.lioVioFlg = .vio then [] else s.meas.measures
  vio : t.meas.lioVioFlg = .vio → cfg.slamMode = .livo
  pair : cfg.slamMode = .livo → t.meas.lioVioFlg ≠ .vio →
    t.meas.lioVioFlg = .lio ∧ s.meas.lioVioFlg ≠ .lio
  made : MadeBy cfg s t m

theorem takeImu_append (endTime : Double) (buffer : List (Imu C)) :
    buffer = (takeImu endTime buffer).1 ++ (takeImu endTime buffer).2 :=
  List.takeWhile_append_dropWhile.symm

theorem LivoSync.pushed {s t : LIVMapper C} (hm : cfg.slamMode = .livo)
    (h : LivoSync cfg s true t) : ∃ kept m, Pushed cfg s t kept m := by
  cases h with
  | @lio time lastLio lioTime times headers raw cur next hflg hlast htime himu hlio =>
    refine ⟨s.meas.measures, _, rfl, by simp, by simp, fun _ _ => ⟨rfl, hflg⟩,
      ⟨_, takeImu_append lioTime _, ?_⟩, ?_, ?_, ?_⟩
    · exact List.filter_sublist
    · intro _ _
      exact ⟨time, by simp [htime], hlio⟩
    · simp
    · exact fun hne => absurd hm hne
  | @vio img imgs time times hflg himu hbuf htime =>
    refine ⟨[], _, rfl, by simp, fun _ => hm, fun _ h => absurd rfl h,
      ⟨[], rfl, List.nil_sublist _⟩, by simp, ?_, ?_⟩
    · intro _
      exact ⟨by simp [hbuf], time, by simp [htime], rfl⟩
    · exact fun hne => absurd hm hne

theorem OnlyLioSync.pushed {s t : LIVMapper C} (hm : cfg.slamMode = .onlyLio)
    (h : OnlyLioSync cfg s true t) : ∃ kept m, Pushed cfg s t kept m := by
  cases h with
  | @deliver m scan raw header headers hscan =>
    have himu : m.buf.imuBuffer = s.buf.imuBuffer := by rw [hscan.buffers]
    have hmeas : m.meas.measures = s.meas.measures := by cases hscan <;> rfl
    refine ⟨m.meas.measures, _, rfl, by simp [hmeas], by simp, by simp [hm],
      ⟨_, ?_, List.Sublist.refl _⟩, ?_, ?_, ?_⟩
    · rw [← himu]
      exact takeImu_append _ _
    · intro _ hlivo
      simp [hm] at hlivo
    · simp
    · exact fun _ => rfl

theorem OnlyLoSync.pushed {s t : LIVMapper C} (hm : cfg.slamMode = .onlyLo)
    (h : OnlyLoSync s true t) : ∃ kept m, Pushed cfg s t kept m := by
  cases h with
  | @deliver meas scan raw header headers hmeas =>
    have hkept : meas.measures = s.meas.measures := by
      unfold frontScan at hmeas
      split at hmeas
      · cases hmeas
        rfl
      · simp only [Option.bind_eq_bind, Option.bind_eq_some_iff] at hmeas
        obtain ⟨_, -, _, -, _, -, hmeas⟩ := hmeas
        cases hmeas
        rfl
    refine ⟨meas.measures, _, rfl, by simp [hkept], by simp, by simp [hm],
      ⟨[], rfl, List.nil_sublist _⟩, by simp, by simp, ?_⟩
    exact fun _ => rfl

/-- In every mode a successful call appends its measurement; only a VIO step drops the
older ones first. -/
theorem syncPackages_pushed {s t : LIVMapper C} (h : syncPackages cfg s = some (true, t)) :
    ∃ kept m, Pushed cfg s t kept m := by
  cases hm : cfg.slamMode with
  | livo => exact (syncPackages_livo hm h).pushed hm
  | onlyLio => exact (syncPackages_onlyLio hm h).pushed hm
  | onlyLo => exact (syncPackages_onlyLo hm h).pushed hm

/-! ## The work on the measurement -/

/-- `GetRTKCorrectedState` gets past its guard. -/
def RTK.convertible (rtk : RTK C) : Bool := rtk.valid && decide (1 / 1000 < rtk.timestamp)

/-- What the observation of a measurement may become in `Process2`, which converts it
when `ready`. -/
structure RtkWorked (ready : Bool) (given rtk : RTK C) : Prop where
  seq : rtk.seq = given.seq
  valid : rtk.valid = true → given.valid = true
  kept : (ready && given.convertible) = false → rtk = given

theorem RtkWorked.refl (ready : Bool) (rtk : RTK C) : RtkWorked ready rtk rtk :=
  ⟨rfl, id, fun _ => rfl⟩

theorem getRTKCorrectedState_worked (K : ImuKernel C) (propEnd : Double) (T : C.SE3) (rtk : RTK C) :
    RtkWorked true rtk (getRTKCorrectedState K propEnd T rtk) := by
  unfold getRTKCorrectedState
  split
  · exact .refl true rtk
  · rename_i hguard
    have hconv : rtk.convertible = true := by
      simpa [RTK.convertible] using hguard
    have hvalid : rtk.valid = true := ((Bool.and_eq_true _ _).mp hconv).1
    simp only
    split
    · exact ⟨rfl, fun _ => hvalid, by simp [hconv]⟩
    · exact ⟨rfl, fun _ => hvalid, by simp [hconv]⟩

/-- `Process2` reads the last entry and rewrites nothing of it but its observation. -/
theorem process2_back {icfg : ImuConfig} {K : ImuKernel C} {T : C.SE3} {g g' : LidarMeasureGroup C}
    {state state' : StatesGroup C} {cur out : List PointType} {p p' : ImuProcess C}
    {kept : List (MeasureGroup C)} {m : MeasureGroup C} (hg : g.measures = kept ++ [m])
    (h : process2 icfg K T g state cur p = some (p', g', state', out)) :
    ∃ rtk, RtkWorked (icfg.imuEn && !p.imuNeedInit) m.rtk rtk ∧
      g'.measures = kept ++ [{ m with rtk := rtk }] := by
  have hback : g.measures.getLast? = some m := by simp [hg]
  unfold process2 at h
  split at h
  · obtain ⟨lastLio, rfl⟩ := forwardWithoutImu_meas h
    exact ⟨m.rtk, .refl _ _, hg⟩
  · rename_i himu
    simp only [hback] at h
    split at h
    · split at h
      · cases h
        exact ⟨m.rtk, .refl _ _, hg⟩
      · split at h
        · cases h
        · cases h
          exact ⟨m.rtk, .refl _ _, hg⟩
    · rename_i hready
      have hf := undistortPcl_frame K
        (g.setBack { m with
          rtk := getRTKCorrectedState K (propEndTime g.lioVioFlg m) T m.rtk })
        { m with rtk := getRTKCorrectedState K (propEndTime g.lioVioFlg m) T m.rtk } state p
      have hsnd := congrArg (fun r => r.2.1) (Option.some.inj h)
      simp only at hf hsnd
      rw [hsnd] at hf
      obtain ⟨-, -, -, idx, rfl⟩ := hf
      have hon : (icfg.imuEn && !p.imuNeedInit) = true := by simp_all
      refine ⟨getRTKCorrectedState K (propEndTime g.lioVioFlg m) T m.rtk, ?_, ?_⟩
      · rw [hon]
        exact getRTKCorrectedState_worked K _ T m.rtk
      · simp [LidarMeasureGroup.setBack, hg]

theorem handleFirstFrame_keeps_meas (s : LIVMapper C) : (handleFirstFrame s).meas = s.meas := by
  unfold handleFirstFrame
  split <;> rfl

theorem processImu_back {s v : LIVMapper C} {kept : List (MeasureGroup C)} {m : MeasureGroup C}
    (hs : s.meas.measures = kept ++ [m]) (h : processImu cfg K s = some v) :
    ∃ rtk, RtkWorked (cfg.imuEn && !s.imu.imuNeedInit) m.rtk rtk ∧
      v.meas.measures = kept ++ [{ m with rtk := rtk }] := by
  unfold processImu at h
  obtain ⟨⟨imu, meas, state, feats⟩, hp, hv⟩ := Option.bind_eq_some_iff.mp h
  obtain ⟨rtk, hworked, hback⟩ := process2_back hs hp
  refine ⟨rtk, hworked, ?_⟩
  have he := Option.some.inj hv
  subst he
  by_cases hgrav : cfg.gravityAlignEn = true
  · simp only [hgrav, if_true, beginScan, (gravityAlignment_keeps _).meas]
    exact hback
  · simp only [hgrav, beginScan]
    exact hback

theorem estimateVio_back {s : LIVMapper C} {kept : List (MeasureGroup C)} {m : MeasureGroup C}
    (hs : s.meas.measures = kept ++ [m]) :
    ∃ mat, (estimateVio cfg K m s).meas.measures =
      kept ++ [{ m with img := { m.img with mat := mat } }] := by
  unfold estimateVio
  simp only
  obtain ⟨prop, hprop⟩ := finishEkf_eq cfg _
  rw [hprop]
  simp only [LidarMeasureGroup.setBack, hs, List.dropLast_concat]
  exact ⟨_, rfl⟩

/-- `handleVIO` rewrites the image of the last entry in place; `handleLIO` reads it. -/
theorem stateEstimationAndMapping_back {s u : LIVMapper C} {out : List (Output C)}
    {kept : List (MeasureGroup C)} {m : MeasureGroup C} (hs : s.meas.measures = kept ++ [m])
    (h : stateEstimationAndMapping cfg K s = some (u, out)) :
    ∃ mat, u.meas.measures = kept ++ [{ m with img := { m.img with mat := mat } }] := by
  have hback : s.meas.measures.getLast? = some m := by simp [hs]
  have hlio : handleLio cfg K s = some (u, out) → u.meas.measures = kept ++ [m] := by
    intro h
    unfold handleLio at h
    split at h
    · cases h
      exact hs
    · rw [hback, Option.map_some] at h
      have hu := congrArg Prod.fst (Option.some.inj h)
      subst hu
      rw [(updateLio_keeps cfg K m.rtk s).meas, hs]
  unfold stateEstimationAndMapping at h
  cases hflg : s.meas.lioVioFlg with
  | wait =>
    rw [hflg] at h
    cases h
    exact ⟨m.img.mat, hs⟩
  | lio =>
    rw [hflg] at h
    exact ⟨m.img.mat, hlio h⟩
  | lo =>
    rw [hflg] at h
    exact ⟨m.img.mat, hlio h⟩
  | vio =>
    rw [hflg] at h
    simp only [handleVio] at h
    split at h
    · cases h
      exact ⟨m.img.mat, hs⟩
    · rw [hback, Option.map_some] at h
      have hu := congrArg Prod.fst (Option.some.inj h)
      subst hu
      rw [updateVio, (publishFrameWorld_keeps cfg K _).meas]
      exact estimateVio_back hs

/-- The work on a measurement reads and rewrites the entry its call pushed. -/
structure WorksOn (cfg : Config C) (K : Kernel C) (t : LIVMapper C)
    (kept : List (MeasureGroup C)) (m : MeasureGroup C) : Prop where
  imu : ∀ v, processImu cfg K (handleFirstFrame t) = some v →
    ∃ rtk, v.meas.measures = kept ++ [{ m with rtk := rtk }]
  done : ∀ u out, processMeasures cfg K t = some (u, out) →
    ∃ rtk mat, u.meas.measures = kept ++ [{ m with rtk := rtk, img := { m.img with mat := mat } }]

theorem Pushed.worksOn {s t : LIVMapper C} {kept : List (MeasureGroup C)} {m : MeasureGroup C}
    (h : Pushed cfg s t kept m) : WorksOn cfg K t kept m := by
  have himu : ∀ v, processImu cfg K (handleFirstFrame t) = some v →
      ∃ rtk, v.meas.measures = kept ++ [{ m with rtk := rtk }] := by
    intro v hv
    obtain ⟨rtk, -, hback⟩ :=
      processImu_back (by rw [handleFirstFrame_keeps_meas, h.measures]) hv
    exact ⟨rtk, hback⟩
  refine ⟨himu, fun u out hu => ?_⟩
  unfold processMeasures at hu
  obtain ⟨v, hv, hest⟩ := Option.bind_eq_some_iff.mp hu
  obtain ⟨rtk, hrtk⟩ := himu v hv
  obtain ⟨mat, hmat⟩ := stateEstimationAndMapping_back hrtk hest
  exact ⟨rtk, mat, hmat⟩

/-! ## Length of the history -/

theorem syncPackages_false {s t : LIVMapper C} (h : syncPackages cfg s = some (false, t)) :
    t.meas.measures = s.meas.measures ∧ t.meas.lioVioFlg = s.meas.lioVioFlg := by
  cases hm : cfg.slamMode with
  | livo => cases syncPackages_livo hm h <;> exact ⟨rfl, rfl⟩
  | onlyLio =>
    cases syncPackages_onlyLio hm h with
    | idle => exact ⟨rfl, rfl⟩
    | refuse => exact ⟨rfl, rfl⟩
    | wait hscan => cases hscan <;> exact ⟨rfl, rfl⟩
  | onlyLo => cases syncPackages_onlyLo hm h with | idle => exact ⟨rfl, rfl⟩

/-- LIVO holds the entries of one pair and the VIO entry of the pair before; the other
modes hold one entry for each step so far. -/
structure HistoryLength (cfg : Config C) (w : World C) : Prop where
  livo : cfg.slamMode = .livo → w.mapper.meas.measures.length ≤ 2 ∧
    (w.mapper.meas.lioVioFlg ≠ .lio → w.mapper.meas.measures.length ≤ 1)
  others : cfg.slamMode ≠ .livo → w.mapper.meas.measures.length = w.hist.syncs.length

theorem HistoryLength.congr {w w' : World C} (h : HistoryLength cfg w)
    (hm : w'.mapper.meas.measures = w.mapper.meas.measures)
    (hf : w'.mapper.meas.lioVioFlg = w.mapper.meas.lioVioFlg)
    (hs : w'.hist.syncs = w.hist.syncs) : HistoryLength cfg w' where
  livo := by rw [hm, hf]; exact h.livo
  others := by rw [hm, hs]; exact h.others

theorem HistoryLength.sync {w w' : World C} {t : LIVMapper C} {kept : List (MeasureGroup C)}
    {m m' : MeasureGroup C} (h : HistoryLength cfg w) (hp : Pushed cfg w.mapper t kept m)
    (hmeas : w'.mapper.meas.measures = kept ++ [m'])
    (hflg : w'.mapper.meas.lioVioFlg = t.meas.lioVioFlg)
    (hsyncs : w'.hist.syncs.length = w.hist.syncs.length + 1) : HistoryLength cfg w' where
  livo := by
    intro hm
    rw [hmeas, hflg, List.length_append, List.length_singleton, hp.kept]
    by_cases hvio : t.meas.lioVioFlg = .vio
    · simp [hvio]
    · obtain ⟨hlio, hbefore⟩ := hp.pair hm hvio
      have hone := (h.livo hm).2 hbefore
      rw [if_neg hvio]
      exact ⟨by omega, fun hne => absurd hlio hne⟩
  others := by
    intro hm
    have hvio : t.meas.lioVioFlg ≠ .vio := fun hv => hm (hp.vio hv)
    rw [hmeas, List.length_append, List.length_singleton, hp.kept, if_neg hvio, h.others hm, hsyncs]

theorem HistoryLength.step {w w' : World C} {e : Event C} (h : HistoryLength cfg w)
    (hst : step cfg K w e = some w') : HistoryLength cfg w' := by
  by_cases he : e = .spin
  · subst he
    cases spinOnce_cases hst with
    | wait hs =>
      obtain ⟨hmeas, hflg⟩ := syncPackages_false hs
      exact h.congr hmeas hflg rfl
    | sync hs hwork =>
      obtain ⟨kept, m, hp⟩ := syncPackages_pushed hs
      obtain ⟨rtk, mat, hmeas⟩ := (hp.worksOn (K := K)).done _ _ hwork
      obtain ⟨_, _, _, hrest⟩ := (processMeasures_cases hwork).meas
      apply h.sync hp hmeas
      · rw [hrest]
      · simp [History.recordSync]
  · have hf := step_callback hst he
    exact h.congr (by rw [hf.meas]) (by rw [hf.meas]) hf.syncs

theorem Setup.Reachable.historyLength {S : Setup C} {w : World C} (hw : S.Reachable w) :
    HistoryLength S.cfg w :=
  hw.invariant (I := HistoryLength S.cfg)
    ⟨fun _ => ⟨Nat.zero_le _, fun _ => Nat.zero_le _⟩, fun _ => rfl⟩ fun _ _ h _ hst => h.step hst

/-- The measurement history as it should be: two entries at most, the last one made by
the current call and read and rewritten by the work on it. -/
structure HistoryBounded (S : Setup C) (w : World C) : Prop where
  length : w.mapper.meas.measures.length ≤ 2
  current : ∀ t, syncPackages S.cfg w.mapper = some (true, t) →
    ∃ kept m, t.meas.measures = kept ++ [m] ∧ MadeBy S.cfg w.mapper t m ∧
      WorksOn S.cfg S.kernel t kept m

/-- The history is bounded in LIVO mode and, in the other two, exactly until the third
step. -/
theorem history_bounded_iff (S : Setup C) (w : World C) (hw : S.Reachable w) :
    HistoryBounded S w ↔ S.cfg.slamMode = .livo ∨ w.hist.syncs.length ≤ 2 := by
  have h := hw.historyLength
  have hcur : ∀ t, syncPackages S.cfg w.mapper = some (true, t) →
      ∃ kept m, t.meas.measures = kept ++ [m] ∧ MadeBy S.cfg w.mapper t m ∧
        WorksOn S.cfg S.kernel t kept m := by
    intro t ht
    obtain ⟨kept, m, hp⟩ := syncPackages_pushed ht
    exact ⟨kept, m, hp.measures, hp.made, hp.worksOn⟩
  by_cases hm : S.cfg.slamMode = .livo
  · exact iff_of_true ⟨(h.livo hm).1, hcur⟩ (.inl hm)
  · constructor
    · intro hb
      exact .inr (h.others hm ▸ hb.length)
    · intro hfew
      exact ⟨(h.others hm).symm ▸ hfew.resolve_left hm, hcur⟩

/-- Two LIO–VIO pairs: four steps and still two entries. -/
theorem history_bounded_iff_run :
    ∃ w, exec Setup.default.step Setup.default.init twoImages = some w ∧
      w.hist.syncs.length = 4 ∧
      (HistoryBounded Setup.default w ↔
        Setup.default.cfg.slamMode = .livo ∨ w.hist.syncs.length ≤ 2) := by
  have hrun : (exec Setup.default.step Setup.default.init twoImages).any
      (fun w => w.hist.syncs.length == 4) = true := by decide +kernel
  obtain ⟨w, hw, hlen⟩ := exists_exec_of_any _ hrun
  exact ⟨w, hw, by simpa using hlen, history_bounded_iff Setup.default w (.of_exec hw)⟩

/-- Three scans without a camera leave three entries. -/
theorem history_grows :
    ∃ w, exec Setup.noCamera.step Setup.noCamera.init
        [.standardPcl ⟨⟨1, 0⟩, [.at 50, .at 100]⟩, .standardPcl ⟨⟨2, 0⟩, [.at 50, .at 100]⟩,
          .standardPcl ⟨⟨3, 0⟩, [.at 50, .at 100]⟩, ImuMsg.at 1 100000000, ImuMsg.at 3 50000000,
          ImuMsg.at 3 100000000, ImuMsg.at 3 200000000, .spin, .spin, .spin] = some w ∧
      ¬HistoryBounded Setup.noCamera w := by
  have hrun : (exec Setup.noCamera.step Setup.noCamera.init
      [.standardPcl ⟨⟨1, 0⟩, [.at 50, .at 100]⟩, .standardPcl ⟨⟨2, 0⟩, [.at 50, .at 100]⟩,
        .standardPcl ⟨⟨3, 0⟩, [.at 50, .at 100]⟩, ImuMsg.at 1 100000000, ImuMsg.at 3 50000000,
        ImuMsg.at 3 100000000, ImuMsg.at 3 200000000, .spin, .spin, .spin]).any
      (fun w => decide (2 < w.mapper.meas.measures.length)) = true := by decide +kernel
  obtain ⟨w, hw, hlen⟩ := exists_exec_of_any _ hrun
  exact ⟨w, hw, fun h => absurd h.length (not_le.mpr (of_decide_eq_true hlen))⟩

end FastLivo
