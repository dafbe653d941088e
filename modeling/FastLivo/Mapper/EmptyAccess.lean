import FastLivo.Mapper.Progress

/-!
# Reads of empty containers

`sync_packages` guards the buffers by the enable flags, and its branches read them by
the derived mode. The two agree except in two places: LIVO is chosen without looking at
`imu_en`, and `points.back()` needs a cloud with points, which `livox_pcl_cbk` sees to
and `standard_pcl_cbk` does not.
-/

namespace FastLivo

open Lib

variable {C : Carrier}

/-- The call reads an empty container: with images, when the IMU is switched off, or in
the LIO half when the newest cloud is empty; without IMU, when the front cloud is. -/
def ReadsEmpty (cfg : Config C) (s : LIVMapper C) : Prop :=
  match cfg.slamMode with
  | .livo => s.buf.lidRawDataBuffer ≠ [] ∧ s.buf.imgBuffer ≠ [] ∧
      (cfg.imuEn = false ∨ s.buf.imuBuffer ≠ [] ∧ s.meas.lioVioFlg ≠ .lio ∧
        ∃ scan ∈ s.buf.lidRawDataBuffer.getLast?, scan.points = [])
  | .onlyLio => False
  | .onlyLo => ∃ scan ∈ s.buf.lidRawDataBuffer.head?, scan.points = []

/-- What the buffers have in common in all modes. -/
structure AccessInv (cfg : Config C) (s : LIVMapper C) : Prop where
  lidar : LidarBounds cfg s.buf
  lidarOff : cfg.lidarEn = false → s.buf.lastTimestampLidar < 0
  images : s.buf.imgTimeBuffer.length = s.buf.imgBuffer.length
  imu : s.buf.imuBuffer ≠ [] → cfg.imuEn = true ∧ cfg.lidarEn = true
  flag : cfg.slamMode = .livo → s.meas.lioVioFlg ≠ .lo
  pushed : cfg.slamMode = .onlyLo → s.buf.lidarPushed = false

section Effects

variable {cfg : Config C} {s t : LIVMapper C}

/-- What a call leaves of the buffers outside the lidar. -/
structure CallFrame (cfg : Config C) (s t : LIVMapper C) : Prop where
  lastTimestampLidar : t.buf.lastTimestampLidar = s.buf.lastTimestampLidar
  images : s.buf.imgTimeBuffer.length = s.buf.imgBuffer.length →
    t.buf.imgTimeBuffer.length = t.buf.imgBuffer.length
  imu : t.buf.imuBuffer ≠ [] → s.buf.imuBuffer ≠ []
  flag : cfg.slamMode = .livo → s.meas.lioVioFlg ≠ .lo → t.meas.lioVioFlg ≠ .lo
  pushed : cfg.slamMode = .onlyLo → s.buf.lidarPushed = false → t.buf.lidarPushed = false

theorem dropWhile_ne_nil {α : Type*} {p : α → Bool} {l : List α} (h : l.dropWhile p ≠ []) :
    l ≠ [] := by
  rintro rfl
  exact h rfl

theorem LivoSync.callFrame {ok : Bool} (hm : cfg.slamMode = .livo) (h : LivoSync cfg s ok t) :
    CallFrame cfg s t := by
  cases h with
  | idle => exact ⟨rfl, id, id, fun _ hf => hf, fun hlo => by simp [hm] at hlo⟩
  | hold => exact ⟨rfl, id, id, fun _ hf => hf, fun hlo => by simp [hm] at hlo⟩
  | throwImage _ _ hbuf htime =>
    refine ⟨rfl, fun hlen => ?_, id, fun _ hf => hf, fun hlo => by simp [hm] at hlo⟩
    simpa [hbuf, htime] using hlen
  | lio =>
    exact ⟨rfl, id, dropWhile_ne_nil, fun _ _ => by simp, fun hlo => by simp [hm] at hlo⟩
  | vio _ _ hbuf htime =>
    refine ⟨rfl, fun hlen => ?_, id, fun _ _ => by simp, fun hlo => by simp [hm] at hlo⟩
    simpa [hbuf, htime] using hlen

theorem OnlyLioSync.callFrame {ok : Bool} (hm : cfg.slamMode = .onlyLio)
    (h : OnlyLioSync cfg s ok t) : CallFrame cfg s t := by
  have hlivo : cfg.slamMode ≠ .livo := by simp [hm]
  have hlo : cfg.slamMode ≠ .onlyLo := by simp [hm]
  cases h with
  | idle => exact ⟨rfl, id, id, fun h => absurd h hlivo, fun h => absurd h hlo⟩
  | refuse => exact ⟨rfl, id, id, fun h => absurd h hlivo, fun h => absurd h hlo⟩
  | wait hscan =>
    refine ⟨?_, ?_, ?_, fun h => absurd h hlivo, fun h => absurd h hlo⟩
    · rw [hscan.buffers]
    · rw [hscan.buffers]
      exact id
    · rw [hscan.buffers]
      exact id
  | deliver hscan =>
    refine ⟨?_, ?_, ?_, fun h => absurd h hlivo, fun h => absurd h hlo⟩
    · simp only [hscan.buffers]
    · simp only [hscan.buffers]
      exact id
    · simp only [hscan.buffers]
      exact dropWhile_ne_nil

theorem syncPackages_callFrame {ok : Bool} (h : syncPackages cfg s = some (ok, t)) :
    CallFrame cfg s t := by
  cases hm : cfg.slamMode with
  | livo => exact (syncPackages_livo hm h).callFrame hm
  | onlyLio => exact (syncPackages_onlyLio hm h).callFrame hm
  | onlyLo =>
    have hlivo : cfg.slamMode ≠ .livo := by simp [hm]
    cases syncPackages_onlyLo hm h with
    | idle => exact ⟨rfl, id, id, fun _ hf => hf, fun _ hp => hp⟩
    | deliver => exact ⟨rfl, id, id, fun h => absurd h hlivo, fun _ _ => rfl⟩

theorem AccessInv.sync {ok : Bool} (h : AccessInv cfg s) (hb : LidarBounds cfg t.buf)
    (hs : syncPackages cfg s = some (ok, t)) : AccessInv cfg t := by
  have hf := syncPackages_callFrame hs
  exact ⟨hb, fun hoff => hf.lastTimestampLidar ▸ h.lidarOff hoff, hf.images h.images,
    fun hne => h.imu (hf.imu hne), fun hm => hf.flag hm (h.flag hm),
    fun hm => hf.pushed hm (h.pushed hm)⟩

/-- The invariant reads the buffers and the flag only. -/
theorem AccessInv.congr (h : AccessInv cfg s) (hb : t.buf = s.buf)
    (hf : t.meas.lioVioFlg = s.meas.lioVioFlg) : AccessInv cfg t := by
  refine ⟨?_, ?_, ?_, ?_, ?_, ?_⟩ <;> simp only [hb, hf]
  · exact h.lidar
  · exact h.lidarOff
  · exact h.images
  · exact h.imu
  · exact h.flag
  · exact h.pushed

theorem AccessInv.lidarArrival {b : SensorBuffers C} (h : AccessInv cfg s)
    (ha : LidarArrival s.buf b) (hoff : cfg.lidarEn = false → b = s.buf)
    (hb : LidarBounds cfg b) : AccessInv cfg { s with buf := b } := by
  obtain ⟨raw, headers, last, seq, rfl⟩ := ha.frame
  refine ⟨hb, fun hen => ?_, h.images, h.imu, h.flag, h.pushed⟩
  have hlast := congrArg SensorBuffers.lastTimestampLidar (hoff hen)
  exact hlast ▸ h.lidarOff hen

theorem AccessInv.imageArrival {b : SensorBuffers C} (h : AccessInv cfg s)
    (ha : ImageArrival s.buf b) : AccessInv cfg { s with buf := b } := by
  cases ha with
  | ignored => exact ⟨⟨h.lidar.headers, h.lidar.off⟩, h.lidarOff, h.images, h.imu, h.flag, h.pushed⟩
  | pushed =>
    refine ⟨⟨h.lidar.headers, h.lidar.off⟩, h.lidarOff, ?_, h.imu, h.flag, h.pushed⟩
    simp [h.images]

/-- An accepted sample proves that the IMU and the lidar are switched on. -/
theorem AccessInv.imuArrival {msg : ImuMsg C} {m : Imu C} {b : SensorBuffers C}
    (h : AccessInv cfg s) (ha : acceptImu cfg msg s.buf = some (m, b)) :
    AccessInv cfg { s with buf := b } := by
  obtain ⟨_, hen, hlidar, _, _, _, rfl⟩ := acceptImu_cases ha
  refine ⟨⟨h.lidar.headers, h.lidar.off⟩, h.lidarOff, h.images, fun _ => ⟨hen, ?_⟩, h.flag, h.pushed⟩
  by_contra hoff
  have hneg := h.lidarOff (by simpa using hoff)
  linarith

end Effects

theorem AccessInv.effect {cfg : Config C} {w w' : World C} {e : Event C}
    (h : AccessInv cfg w.mapper) (he : StepEffect cfg w e w') : AccessInv cfg w'.mapper := by
  have hb := h.lidar.effect he
  cases he with
  | aside ha => exact h.congr ha.buf (by rw [ha.meas])
  | lidar ha _ hoff => exact h.lidarArrival ha hoff hb
  | img ha => exact h.imageArrival ha
  | imu hacc hw => exact (h.imuArrival hacc).congr hw.buf (by rw [hw.meas])
  | wait hs => exact h.sync hb hs
  | sync hs hp =>
    obtain ⟨_, _, _, hmeas⟩ := hp.meas
    rw [hp.buf] at hb
    exact (h.sync hb hs).congr hp.buf (by rw [hmeas])

theorem Setup.Reachable.accessInv {S : Setup C} {w : World C} (hw : S.Reachable w) :
    AccessInv S.cfg w.mapper :=
  S.invariant (I := fun w => AccessInv S.cfg w.mapper)
    ⟨⟨Nat.zero_le _, fun _ => rfl⟩, by simp [Setup.init, LIVMapper.init], rfl,
      by simp [Setup.init, LIVMapper.init], by simp [Setup.init, LIVMapper.init],
      by simp [Setup.init, LIVMapper.init]⟩ (fun h _ he => h.effect he) hw

/-! ## The calls -/

/-- With a header for every cloud the slicing loop reads no empty buffer. -/
theorem exists_sliceLidar (lastLio lioTime : Double) (raw : List Scan) (headers : List Double)
    (acc : List PointType × List PointType) (hlen : raw.length ≤ headers.length) :
    ∃ r, sliceLidar lastLio lioTime raw headers acc = some r := by
  induction raw generalizing headers acc with
  | nil => exact ⟨_, rfl⟩
  | cons scan raw ih =>
    cases headers with
    | nil => simp at hlen
    | cons header headers =>
      rw [sliceLidar]
      split
      · exact ⟨_, rfl⟩
      · exact ih headers _ (by simpa using hlen)

section Calls

variable {cfg : Config C} {s : LIVMapper C}

theorem exists_initLastLio (h : s.buf.lidHeaderTimeBuffer ≠ []) :
    ∃ meas, initLastLio s.buf s.meas = some meas := by
  obtain ⟨header, headers, hhdr⟩ := List.exists_cons_of_ne_nil h
  unfold initLastLio
  split
  · exact ⟨_, by rw [hhdr]; rfl⟩
  · exact ⟨_, rfl⟩

theorem exists_popImage (hlen : s.buf.imgTimeBuffer.length = s.buf.imgBuffer.length)
    (himg : s.buf.imgBuffer ≠ []) : ∃ b, s.buf.popImage = some b := by
  obtain ⟨img, imgs, hbuf⟩ := List.exists_cons_of_ne_nil himg
  obtain ⟨time, times, htime⟩ := List.exists_cons_of_length_eq_add_one
    (hlen.trans (by rw [hbuf]; rfl) : s.buf.imgTimeBuffer.length = imgs.length + 1)
  unfold SensorBuffers.popImage
  rw [hbuf, htime]
  exact ⟨_, rfl⟩

theorem header_ne_nil (hlen : s.buf.lidRawDataBuffer.length ≤ s.buf.lidHeaderTimeBuffer.length)
    (hraw : s.buf.lidRawDataBuffer ≠ []) : s.buf.lidHeaderTimeBuffer ≠ [] := by
  intro hnil
  rw [hnil, List.length_nil, Nat.le_zero, List.length_eq_zero_iff] at hlen
  exact hraw hlen

/-- The newest point exists exactly when the newest cloud has points. -/
theorem lidNewestTime_eq_none
    (hlen : s.buf.lidRawDataBuffer.length ≤ s.buf.lidHeaderTimeBuffer.length)
    (hraw : s.buf.lidRawDataBuffer ≠ []) :
    lidNewestTime s.buf = none ↔ ∃ scan ∈ s.buf.lidRawDataBuffer.getLast?, scan.points = [] := by
  have hhdr := header_ne_nil hlen hraw
  rw [lidNewestTime, List.getLast?_eq_some_getLast hhdr, List.getLast?_eq_some_getLast hraw]
  cases hback : (s.buf.lidRawDataBuffer.getLast hraw).points.getLast? with
  | none => simp [List.getLast?_eq_none_iff.mp hback]
  | some back =>
    have hne := List.ne_nil_of_mem (List.mem_of_getLast? hback)
    simp [hback, hne]

theorem syncLivoLio_eq_none (h : AccessInv cfg s) (hraw : s.buf.lidRawDataBuffer ≠ [])
    (himg : s.buf.imgBuffer ≠ []) :
    syncLivoLio cfg s = none ↔
      s.buf.imuBuffer = [] ∨ ∃ scan ∈ s.buf.lidRawDataBuffer.getLast?, scan.points = [] := by
  obtain ⟨b, hpop⟩ := exists_popImage h.images himg
  obtain ⟨_, _, time, times, _, htime, rfl⟩ := popImage_eq hpop
  have hhdr := header_ne_nil h.lidar.headers hraw
  obtain ⟨meas, hmeas⟩ := exists_initLastLio hhdr
  rw [← lidNewestTime_eq_none h.lidar.headers hraw, ← List.getLast?_eq_none_iff]
  unfold syncLivoLio
  simp only [htime, List.head?_cons, hmeas, Option.bind_eq_bind, Option.bind_some]
  cases hnewest : lidNewestTime s.buf with
  | none => simp
  | some lidNewest =>
    cases hback : s.buf.imuBuffer.getLast? with
    | none => simp
    | some imuNewest =>
      simp only [Option.bind_some, reduceCtorEq, or_self, iff_false]
      split
      · simp only [hpop]
        simp
      · split
        · simp
        · obtain ⟨r, hr⟩ := exists_sliceLidar meas.lastLioUpdateTime
            (time + cfg.exposureTimeInit) s.buf.lidRawDataBuffer s.buf.lidHeaderTimeBuffer
            (meas.pclProcNext, []) h.lidar.headers
          simp [sliceLivo, hr]

theorem syncLivoVio_eq_none (h : AccessInv cfg s) (himg : s.buf.imgBuffer ≠ []) :
    syncLivoVio cfg s = none ↔ s.buf.imuBuffer = [] := by
  obtain ⟨b, hpop⟩ := exists_popImage h.images himg
  obtain ⟨img, imgs, time, times, hbuf, htime, rfl⟩ := popImage_eq hpop
  unfold syncLivoVio
  simp only [htime, hbuf, List.head?_cons, Option.bind_eq_bind, Option.bind_some]
  cases s.buf.imuBuffer with
  | nil => simp
  | cons m ms => simp [hpop]

theorem syncLivo_eq_none (hm : cfg.slamMode = .livo) (h : AccessInv cfg s) :
    syncPackages cfg s = none ↔ ReadsEmpty cfg s := by
  obtain ⟨himgEn, hlidarEn⟩ := Config.slamMode_livo hm
  unfold syncPackages ReadsEmpty
  simp only [hm, himgEn, hlidarEn, Bool.and_true]
  split
  · rename_i hraw
    simp [List.isEmpty_iff.mp hraw]
  split
  · rename_i himg
    simp [List.isEmpty_iff.mp himg]
  rename_i hraw himg
  have hraw : s.buf.lidRawDataBuffer ≠ [] := by simpa using hraw
  have himg : s.buf.imgBuffer ≠ [] := by simpa using himg
  have hoff : cfg.imuEn = false → s.buf.imuBuffer = [] := by
    intro hen
    by_contra hne
    have hon := (h.imu hne).1
    simp [hen] at hon
  split
  · rename_i himu
    obtain ⟨hnil, hen⟩ := (Bool.and_eq_true _ _).mp himu
    simp [List.isEmpty_iff.mp hnil, hen]
  · rename_i hguard
    -- The guard lets an empty buffer pass only with the IMU off.
    have himu : s.buf.imuBuffer = [] ↔ cfg.imuEn = false := by
      refine ⟨fun hnil => ?_, hoff⟩
      simpa [hnil] using hguard
    have hlio : s.meas.lioVioFlg ≠ .lio → (syncLivoLio cfg s = none ↔
        s.buf.lidRawDataBuffer ≠ [] ∧ s.buf.imgBuffer ≠ [] ∧ (cfg.imuEn = false ∨
          s.buf.imuBuffer ≠ [] ∧ s.meas.lioVioFlg ≠ .lio ∧
            ∃ scan ∈ s.buf.lidRawDataBuffer.getLast?, scan.points = [])) := by
      intro hflg
      rw [syncLivoLio_eq_none h hraw himg, ne_eq s.buf.imuBuffer, himu]
      by_cases hen : cfg.imuEn = false
      · simp [hen, hraw, himg]
      · simp [hen, hraw, himg, hflg]
    cases hflg : s.meas.lioVioFlg with
    | wait => simpa [hflg] using hlio (by simp [hflg])
    | vio => simpa [hflg] using hlio (by simp [hflg])
    | lio =>
      simp only [syncLivoVio_eq_none h himg, himu]
      simp [hraw, himg]
    | lo => exact absurd hflg (h.flag hm)

theorem syncOnlyLio_ne_none (hm : cfg.slamMode = .onlyLio) (h : AccessInv cfg s) :
    syncPackages cfg s ≠ none := by
  obtain ⟨himuEn, hcam⟩ := Config.slamMode_onlyLio hm
  unfold syncPackages
  simp only [hm, himuEn, Bool.and_true]
  split
  · simp
  split
  · simp
  split
  · simp
  rename_i hraw _ himu
  have himu : s.buf.imuBuffer ≠ [] := by simpa using himu
  have hlidarEn := (h.imu himu).2
  have hraw : s.buf.lidRawDataBuffer ≠ [] := by simpa [hlidarEn] using hraw
  have hhdr := header_ne_nil h.lidar.headers hraw
  obtain ⟨meas, hmeas⟩ := exists_initLastLio hhdr
  obtain ⟨scan, raw, hscan⟩ := List.exists_cons_of_ne_nil hraw
  obtain ⟨header, headers, hheader⟩ := List.exists_cons_of_ne_nil hhdr
  -- Popping the front pair is all that may fail once a scan is pushed.
  have hcomplete : ∀ m : LIVMapper C, m.buf.lidRawDataBuffer = scan :: raw →
      m.buf.lidHeaderTimeBuffer = header :: headers → completeLio cfg m ≠ none := by
    intro m hmraw hmhdr
    unfold completeLio
    simp only
    split
    · simp
    · simp [SensorBuffers.popLidar, hmraw, hmhdr]
  unfold syncOnlyLio
  simp only [hmeas, Option.bind_eq_bind, Option.bind_some]
  split
  · exact hcomplete _ hscan hheader
  · unfold pushLidar
    simp only [hscan, hheader, List.head?_cons, Option.bind_eq_bind, Option.bind_some]
    split
    · simp
    · rename_i hmany
      have hne : scan.points ≠ [] := by
        intro hnil
        simp [hnil] at hmany
      rw [List.getLast?_eq_some_getLast hne, Option.bind_some, Option.bind_some]
      exact hcomplete _ rfl rfl

theorem syncOnlyLo_eq_none (hm : cfg.slamMode = .onlyLo) (h : AccessInv cfg s) :
    syncPackages cfg s = none ↔ ReadsEmpty cfg s := by
  obtain ⟨himuEn, hcam⟩ := Config.slamMode_onlyLo hm
  unfold syncPackages ReadsEmpty
  simp only [hm, himuEn, Bool.and_false]
  cases hraw : s.buf.lidRawDataBuffer with
  | nil =>
    simp only [List.isEmpty_nil, Bool.true_and, List.head?_nil]
    split
    · simp
    split
    · simp
    simp [syncOnlyLo, hraw, h.pushed hm]
  | cons scan raw =>
    have hlidarEn : cfg.lidarEn = true := by
      by_contra hoff
      have hnil := h.lidar.off (by simpa using hoff)
      simp [hnil] at hraw
    obtain ⟨header, headers, hhdr⟩ :=
      List.exists_cons_of_ne_nil (header_ne_nil h.lidar.headers (by simp [hraw]))
    simp only [List.isEmpty_cons, Bool.false_and, hcam hlidarEn, Bool.and_false,
      Bool.false_eq_true, if_false, List.head?_cons, Option.mem_def, Option.some.injEq,
      exists_eq_left']
    unfold syncOnlyLo frontScan
    cases hback : scan.points.getLast? with
    | none =>
      simp [hraw, hhdr, h.pushed hm, List.getLast?_eq_none_iff.mp hback]
    | some back =>
      have hne := List.ne_nil_of_mem (List.mem_of_getLast? hback)
      simp [hraw, hhdr, h.pushed hm, hback, SensorBuffers.popLidar, hne]

end Calls

/-- In every configuration and every run, a call of `sync_packages` reads no empty
container exactly when it meets none of the conditions of `ReadsEmpty`. -/
theorem reads_nonempty_iff (S : Setup C) (w : World C) (hw : S.Reachable w) :
    (∃ r, syncPackages S.cfg w.mapper = some r) ↔ ¬ReadsEmpty S.cfg w.mapper := by
  have h := hw.accessInv
  rw [← Option.isSome_iff_exists, Option.isSome_iff_ne_none]
  cases hm : S.cfg.slamMode with
  | livo => exact not_congr (syncLivo_eq_none hm h)
  | onlyLio => exact iff_of_true (syncOnlyLio_ne_none hm h) (by simp [ReadsEmpty, hm])
  | onlyLo => exact not_congr (syncOnlyLo_eq_none hm h)

/-- An empty cloud that is not the newest one does no harm. -/
theorem reads_nonempty_iff_run :
    ∃ w, exec Setup.default.step Setup.default.init
        [.standardPcl ⟨⟨1, 0⟩, []⟩, .standardPcl ⟨⟨1, 1⟩, [.at 10, .at 95]⟩,
          ImuMsg.at 1 10000000, ImageMsg.at 1 10000000] = some w ∧
      ((∃ r, syncPackages Setup.default.cfg w.mapper = some r) ↔
        ¬ReadsEmpty Setup.default.cfg w.mapper) := by
  have hrun : (exec Setup.default.step Setup.default.init
      [.standardPcl ⟨⟨1, 0⟩, []⟩, .standardPcl ⟨⟨1, 1⟩, [.at 10, .at 95]⟩,
        ImuMsg.at 1 10000000, ImageMsg.at 1 10000000]).any
      (fun w => w.mapper.buf.imgBuffer.length == 1) = true := by decide +kernel
  obtain ⟨w, hw, -⟩ := exists_exec_of_any _ hrun
  exact ⟨w, hw, reads_nonempty_iff Setup.default w (.of_exec hw)⟩

/-- The only cloud is empty when an image and a sample are there. -/
theorem reads_empty :
    ∃ w, exec Setup.default.step Setup.default.init
        [.standardPcl ⟨⟨1, 0⟩, []⟩, ImuMsg.at 1 10000000, ImageMsg.at 1 10000000] = some w ∧
      ¬∃ r, syncPackages Setup.default.cfg w.mapper = some r := by
  have hrun : (exec Setup.default.step Setup.default.init
      [.standardPcl ⟨⟨1, 0⟩, []⟩, ImuMsg.at 1 10000000, ImageMsg.at 1 10000000]).any
      (fun w => (syncPackages Setup.default.cfg w.mapper).isNone) = true := by decide +kernel
  obtain ⟨w, hw, hnone⟩ := exists_exec_of_any _ hrun
  refine ⟨w, hw, ?_⟩
  rw [Option.isNone_iff_eq_none.mp hnone]
  simp

end FastLivo
