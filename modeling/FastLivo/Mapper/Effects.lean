import FastLivo.Mapper.Run

/-!
# What an event can change

One inversion lemma for each callback and for the work on a measurement, and
`step_cases`, which puts them together. Later modules reason from these and do
not unfold the functions again. The estimator's members (`est`, `prop`, `rtk`)
are left out: no buffer, interval or flag depends on them.
-/

namespace FastLivo

variable {C : Carrier} {cfg : Config C} {K : Kernel C}

/-! ## Callbacks -/

/-- Outcomes of a lidar callback. -/
inductive LidarArrival (b : SensorBuffers C) : SensorBuffers C → Prop
  | ignored : LidarArrival b b
  /-- An empty livox cloud: only the loop-back check runs. -/
  | dropped (curHeadTime : Double) : LidarArrival b (lidarLoopBack curHeadTime b)
  | pushed (curHeadTime : Double) (cloud : List PointType) :
      LidarArrival b (pushScan curHeadTime cloud (lidarLoopBack curHeadTime b))

theorem standardPclCbk_cases (cfg : Config C) (msg : LidarMsg) (b : SensorBuffers C) :
    LidarArrival b (standardPclCbk cfg msg b) := by
  unfold standardPclCbk
  split
  · exact .ignored
  · exact .pushed _ _

theorem livoxPclCbk_cases (cfg : Config C) (msg : LidarMsg) (b : SensorBuffers C) :
    LidarArrival b (livoxPclCbk cfg msg b) := by
  unfold livoxPclCbk
  split
  · exact .ignored
  · simp only
    split
    · exact .dropped _
    · exact .pushed _ _

theorem lidarLoopBack_eq (t : Double) (b : SensorBuffers C) :
    ∃ raw, lidarLoopBack t b = { b with lidRawDataBuffer := raw } := by
  unfold lidarLoopBack
  split
  · exact ⟨[], rfl⟩
  · exact ⟨b.lidRawDataBuffer, rfl⟩

/-- The event is a lidar message whose header time goes back. -/
def LoopsBack (cfg : Config C) (b : SensorBuffers C) : Event C → Prop
  | .standardPcl msg => cfg.lidarEn = true ∧ standardHeadTime cfg msg < b.lastTimestampLidar
  | .livoxPcl msg => cfg.lidarEn = true ∧ msg.stamp.toSec < b.lastTimestampLidar
  | _ => False

instance (cfg : Config C) (b : SensorBuffers C) : (e : Event C) → Decidable (LoopsBack cfg b e)
  | .standardPcl _ | .livoxPcl _ => inferInstanceAs (Decidable (_ ∧ _))
  | .imu _ | .img _ | .rtk _ | .navSatFix _ | .imuPropTimer | .spin =>
      inferInstanceAs (Decidable False)

/-- The event clears scans that wait in `lid_raw_data_buffer`. -/
def ClearsScans (cfg : Config C) (b : SensorBuffers C) (e : Event C) : Prop :=
  LoopsBack cfg b e ∧ b.lidRawDataBuffer ≠ []

instance (cfg : Config C) (b : SensorBuffers C) (e : Event C) : Decidable (ClearsScans cfg b e) :=
  decidable_of_iff (LoopsBack cfg b e ∧ ¬b.lidRawDataBuffer.isEmpty)
    (by simp [ClearsScans])

/-- Outcomes of a lidar callback that clears nothing. -/
inductive LidarPush (b : SensorBuffers C) : SensorBuffers C → Prop
  | ignored : LidarPush b b
  | pushed (curHeadTime : Double) (cloud : List PointType) :
      LidarPush b (pushScan curHeadTime cloud b)

theorem lidarLoopBack_of_not {t : Double} {b : SensorBuffers C}
    (h : ¬(t < b.lastTimestampLidar ∧ b.lidRawDataBuffer ≠ [])) : lidarLoopBack t b = b := by
  unfold lidarLoopBack
  split
  · rename_i hlt
    have hnil : b.lidRawDataBuffer = [] := by
      by_contra hne
      exact h ⟨hlt, hne⟩
    rw [← hnil]
  · rfl

theorem standardPclCbk_push {msg : LidarMsg} {b : SensorBuffers C}
    (h : ¬ClearsScans cfg b (.standardPcl msg)) : LidarPush b (standardPclCbk cfg msg b) := by
  unfold standardPclCbk
  split
  · exact .ignored
  · rename_i hen
    simp only
    rw [lidarLoopBack_of_not fun hc => h ⟨⟨by simpa using hen, hc.1⟩, hc.2⟩]
    exact .pushed _ _

theorem livoxPclCbk_push {msg : LidarMsg} {b : SensorBuffers C}
    (h : ¬ClearsScans cfg b (.livoxPcl msg)) : LidarPush b (livoxPclCbk cfg msg b) := by
  unfold livoxPclCbk
  split
  · exact .ignored
  · rename_i hen
    simp only
    rw [lidarLoopBack_of_not fun hc => h ⟨⟨by simpa using hen, hc.1⟩, hc.2⟩]
    split
    · exact .ignored
    · exact .pushed _ _

/-- A lidar callback writes lidar members only. -/
theorem LidarArrival.frame {b b' : SensorBuffers C} (h : LidarArrival b b') :
    ∃ raw headers last seq, b' = { b with
      lidRawDataBuffer := raw, lidHeaderTimeBuffer := headers
      lastTimestampLidar := last, lidSeq := seq } := by
  cases h with
  | ignored => exact ⟨_, _, _, _, rfl⟩
  | dropped t =>
    obtain ⟨raw, hb⟩ := lidarLoopBack_eq t b
    exact ⟨_, _, _, _, hb⟩
  | pushed t cloud =>
    obtain ⟨raw, hb⟩ := lidarLoopBack_eq t b
    rw [hb]
    exact ⟨_, _, _, _, rfl⟩

/-- Outcomes of the image callback. -/
inductive ImageArrival (b : SensorBuffers C) : SensorBuffers C → Prop
  | ignored (frameCounter : Nat) : ImageArrival b { b with frameCounter := frameCounter }
  | pushed (frameCounter : Nat) (time : Double) (mat : C.Mat)
      (hlidar : 0 ≤ b.lastTimestampLidar) (hlater : b.lastTimestampImg + 1 / 50 ≤ time) :
      ImageArrival b
        { b with
          frameCounter := frameCounter
          imgBuffer := b.imgBuffer ++ [⟨mat, time, b.imgSeq⟩]
          imgTimeBuffer := b.imgTimeBuffer ++ [time]
          lastTimestampImg := time, imgSeq := b.imgSeq + 1 }

theorem pushImage_cases (time : Double) (mat : C.Mat) (b : SensorBuffers C) (n : Nat) :
    ImageArrival b (pushImage time mat { b with frameCounter := n }) := by
  unfold pushImage
  split
  · exact .ignored n
  split
  · exact .ignored n
  split
  · exact .ignored n
  split
  · exact .ignored n
  · rename_i hlidar _ hlater
    exact .pushed n time mat (not_lt.mp hlidar) (by linarith [not_lt.mp hlater])

theorem imgCbk_cases (cfg : Config C) (msg : ImageMsg C) (b : SensorBuffers C) :
    ImageArrival b (imgCbk cfg msg b) := by
  unfold imgCbk
  split
  · exact .ignored b.frameCounter
  split
  · simp only
    split
    · exact .ignored _
    · exact pushImage_cases _ _ b _
  · exact pushImage_cases _ _ b b.frameCounter

/-- The image callback writes image members only. -/
theorem ImageArrival.frame {b b' : SensorBuffers C} (h : ImageArrival b b') :
    ∃ n imgs times last seq, b' = { b with
      frameCounter := n, imgBuffer := imgs, imgTimeBuffer := times
      lastTimestampImg := last, imgSeq := seq } := by
  cases h with
  | ignored n => exact ⟨n, _, _, _, _, rfl⟩
  | pushed n => exact ⟨n, _, _, _, _, rfl⟩

/-- An accepted sample: stamped on the nanosecond grid, not earlier than the last. -/
theorem acceptImu_cases {msg : ImuMsg C} {b b' : SensorBuffers C} {m : Imu C}
    (h : acceptImu cfg msg b = some (m, b')) :
    ∃ timestamp, cfg.imuEn = true ∧ 0 ≤ b.lastTimestampLidar ∧ m.sec = (rosTime timestamp).toSec ∧
      m.seq = b.imuSeq ∧ (0 < b.lastTimestampImu → b.lastTimestampImu ≤ timestamp) ∧
      b' = { b with
        lastTimestampImu := timestamp, imuBuffer := b.imuBuffer ++ [m], imuSeq := b.imuSeq + 1 } := by
  unfold acceptImu at h
  split at h
  · cases h
  split at h
  · cases h
  simp only at h
  split at h
  · cases h
  · rename_i hen hlidar hlate
    cases h
    refine ⟨_, by simpa using hen, not_lt.mp hlidar, rfl, rfl, fun hpos => ?_, rfl⟩
    by_contra hlt
    exact hlate ⟨hpos, not_le.mp hlt⟩

/-- An accepted sample is not earlier than the last accepted time on the nanosecond grid. -/
theorem acceptImu_not_earlier {msg : ImuMsg C} {b b' : SensorBuffers C} {m : Imu C}
    (h : acceptImu cfg msg b = some (m, b')) : (rosTime b.lastTimestampImu).toSec ≤ m.sec := by
  obtain ⟨timestamp, -, -, hsec, -, hlate, -⟩ := acceptImu_cases h
  rw [hsec]
  by_cases hpos : 0 < b.lastTimestampImu
  · exact toSec_rosTime_mono (hlate hpos)
  · rw [toSec_rosTime_of_nonpos (not_lt.mp hpos)]
    exact toSec_rosTime_nonneg timestamp

/-! ## IMU processing -/

/-- Members of the processor and the measurement that decide the intervals. -/
theorem undistortForward_frame (K : ImuKernel C) (g : LidarMeasureGroup C) (m : MeasureGroup C)
    (state : StatesGroup C) (p : ImuProcess C) :
    let r := undistortForward K g m state p
    r.1.imuNeedInit = p.imuNeedInit ∧ r.1.imuTimeInit = true ∧
      r.1.lastPropEndTime = propEndTime g.lioVioFlg m ∧
      ∃ idx, r.2.1 = { g with
        lidarScanIndexNow := idx
        lastLioUpdateTime :=
          if g.lioVioFlg = .lio ∨ g.lioVioFlg = .vio then propEndTime g.lioVioFlg m
          else g.lastLioUpdateTime } := by
  unfold undistortForward
  by_cases hlio : g.lioVioFlg = .lio
  · simp only [hlio, true_or, if_true]
    exact ⟨trivial, trivial, trivial, 0, by rw [← hlio]⟩
  · by_cases hvio : g.lioVioFlg = .vio
    · simp only [hvio, reduceCtorEq, false_or, if_true, if_false]
      exact ⟨trivial, trivial, trivial, g.lidarScanIndexNow, by rw [← hvio]⟩
    · simp only [hlio, hvio, false_or, if_false]
      exact ⟨trivial, trivial, trivial, g.lidarScanIndexNow, rfl⟩

theorem undistortPcl_frame (K : ImuKernel C) (g : LidarMeasureGroup C) (m : MeasureGroup C)
    (state : StatesGroup C) (p : ImuProcess C) :
    let r := undistortPcl K g m state p
    r.1.imuNeedInit = p.imuNeedInit ∧ r.1.imuTimeInit = true ∧
      r.1.lastPropEndTime = propEndTime g.lioVioFlg m ∧
      ∃ idx, r.2.1 = { g with
        lidarScanIndexNow := idx
        lastLioUpdateTime :=
          if g.lioVioFlg = .lio ∨ g.lioVioFlg = .vio then propEndTime g.lioVioFlg m
          else g.lastLioUpdateTime } := by
  have h := undistortForward_frame K g m state p
  unfold undistortPcl
  rcases hf : undistortForward K g m state p with ⟨p', g', state'⟩
  rw [hf] at h
  simp only at h ⊢
  split
  · exact h
  · split
    · exact h
    · exact h

/-- What the work on a measurement does to the intervals: `t` is the state
`sync_packages` left and `u` the state before the next event. -/
inductive ImuWork (t u : LIVMapper C) (m : MeasureGroup C) : Prop
  /-- The IMU is still initialising. -/
  | init (hneed : t.imu.imuNeedInit = true) (hdone : u.imu.imuNeedInit = false → m.imu ≠ [])
      (htime : u.imu.imuTimeInit = t.imu.imuTimeInit)
      (hend : u.imu.lastPropEndTime = t.imu.lastPropEndTime)
      (hlast : u.meas.lastLioUpdateTime = t.meas.lastLioUpdateTime)
  | propagate (hneed : t.imu.imuNeedInit = false) (hneed' : u.imu.imuNeedInit = false)
      (htime : u.imu.imuTimeInit = true)
      (hend : u.imu.lastPropEndTime = propEndTime t.meas.lioVioFlg m)
      (hlast : t.meas.lioVioFlg = .lio ∨ t.meas.lioVioFlg = .vio →
        u.meas.lastLioUpdateTime = propEndTime t.meas.lioVioFlg m)

/-- The IMU initialises once. -/
theorem ImuWork.needInit {t u : LIVMapper C} {m : MeasureGroup C} (h : ImuWork t u m)
    (hneed : u.imu.imuNeedInit = true) : t.imu.imuNeedInit = true := by
  cases h with
  | init hneed' => exact hneed'
  | propagate _ hneed' => simp [hneed] at hneed'

/-- After the work, as before it, a set IMU time means an initialised IMU. -/
theorem ImuWork.initialised {t u : LIVMapper C} {m : MeasureGroup C} (h : ImuWork t u m)
    (hready : t.imu.imuTimeInit = true → t.imu.imuNeedInit = false)
    (hinit : u.imu.imuTimeInit = true) : u.imu.imuNeedInit = false := by
  cases h with
  | init hneed _ ht =>
    rw [hready (ht ▸ hinit)] at hneed
    cases hneed
  | propagate _ hneed' => exact hneed'

/-- The work on a measurement leaves the buffers and the clouds alone. -/
structure Processed (cfg : Config C) (t u : LIVMapper C) : Prop where
  buf : u.buf = t.buf
  meas : ∃ measures lastLio idx, u.meas = { t.meas with
    measures := measures, lastLioUpdateTime := lastLio, lidarScanIndexNow := idx }
  imu : cfg.imuEn = true → ∃ m, t.meas.measures.getLast? = some m ∧ ImuWork t u m

/-- Steps that leave the buffers, the measurement and the IMU processing alone. -/
structure Keeps (s t : LIVMapper C) : Prop where
  buf : t.buf = s.buf
  meas : t.meas = s.meas
  imu : t.imu = s.imu

theorem Keeps.refl (s : LIVMapper C) : Keeps s s := ⟨rfl, rfl, rfl⟩

theorem Keeps.trans {s t u : LIVMapper C} (h : Keeps s t) (h' : Keeps t u) : Keeps s u :=
  ⟨h'.buf.trans h.buf, h'.meas.trans h.meas, h'.imu.trans h.imu⟩

section Keeps

variable (cfg : Config C) (K : Kernel C)

theorem finishEkf_eq (s : LIVMapper C) : ∃ prop, finishEkf cfg s = { s with prop := prop } := by
  unfold finishEkf
  split
  · exact ⟨_, rfl⟩
  · exact ⟨s.prop, rfl⟩

theorem pushLivoState_keeps (s : LIVMapper C) : Keeps s (pushLivoState cfg K s) := by
  unfold pushLivoState
  split <;> exact ⟨rfl, rfl, rfl⟩

theorem publishCloudRGB_keeps (s : LIVMapper C) : Keeps s (publishCloudRGB cfg K s).1 :=
  ⟨rfl, rfl, rfl⟩

theorem publishFrameWorld_keeps (s : LIVMapper C) : Keeps s (publishFrameWorld cfg K s).1 := by
  unfold publishFrameWorld
  split
  · exact .refl s
  · by_cases himg : cfg.imgEn = true
    · simp only [himg, if_true]
      have h := (publishCloudRGB_keeps cfg K s).trans (pushLivoState_keeps cfg K
        (publishCloudRGB cfg K s).1)
      exact ⟨h.buf, h.meas, h.imu⟩
    · simp only [himg]
      have h := pushLivoState_keeps cfg K s
      exact ⟨h.buf, h.meas, h.imu⟩

theorem estimateLio_keeps (rtk : RTK C) (down : List PointType) (s : LIVMapper C) :
    Keeps s (estimateLio cfg K rtk down s) := by
  unfold estimateLio
  simp only
  obtain ⟨prop, h⟩ := finishEkf_eq cfg _
  rw [h]
  exact ⟨rfl, rfl, rfl⟩

theorem updateLio_keeps (rtk : RTK C) (s : LIVMapper C) : Keeps s (updateLio cfg K rtk s).1 := by
  have hest := estimateLio_keeps cfg K rtk (K.downSizeFilterSurf s.est.featsUndistort) s
  have hmap : Keeps s (updateMap cfg K (K.downSizeFilterSurf s.est.featsUndistort)
      (estimateLio cfg K rtk (K.downSizeFilterSurf s.est.featsUndistort) s)) :=
    hest.trans ⟨rfl, rfl, rfl⟩
  unfold updateLio
  by_cases himg : cfg.imgEn = true
  · simp only [himg, if_true]
    exact hmap.trans ⟨rfl, rfl, rfl⟩
  · simp only [himg]
    exact (hmap.trans (publishFrameWorld_keeps cfg K _)).trans ⟨rfl, rfl, rfl⟩

/-- Steps that may also rewrite the measurements handed over. -/
structure KeepsIntervals (s t : LIVMapper C) : Prop where
  buf : t.buf = s.buf
  meas : ∃ measures, t.meas = { s.meas with measures := measures }
  imu : t.imu = s.imu

theorem Keeps.intervals {s t : LIVMapper C} (h : Keeps s t) : KeepsIntervals s t :=
  ⟨h.buf, ⟨s.meas.measures, h.meas⟩, h.imu⟩

theorem estimateVio_keeps (m : MeasureGroup C) (s : LIVMapper C) :
    KeepsIntervals s (estimateVio cfg K m s) := by
  unfold estimateVio
  simp only
  obtain ⟨prop, h⟩ := finishEkf_eq cfg _
  rw [h]
  exact ⟨rfl, ⟨_, rfl⟩, rfl⟩

theorem updateVio_keeps (m : MeasureGroup C) (s : LIVMapper C) :
    KeepsIntervals s (updateVio cfg K m s).1 := by
  have h := estimateVio_keeps cfg K m s
  have h' := publishFrameWorld_keeps cfg K (estimateVio cfg K m s)
  obtain ⟨measures, hm⟩ := h.meas
  exact ⟨h'.buf.trans h.buf, ⟨measures, h'.meas.trans hm⟩, h'.imu.trans h.imu⟩

end Keeps

theorem stateEstimationAndMapping_keeps {s t : LIVMapper C} {out : List (Output C)}
    (h : stateEstimationAndMapping cfg K s = some (t, out)) : KeepsIntervals s t := by
  have hlio : handleLio cfg K s = some (t, out) → KeepsIntervals s t := by
    intro h
    unfold handleLio at h
    split at h
    · cases h
      exact (Keeps.refl s).intervals
    · obtain ⟨m, -, hm⟩ := Option.map_eq_some_iff.mp h
      have ht := congrArg Prod.fst hm
      subst ht
      exact (updateLio_keeps cfg K m.rtk s).intervals
  unfold stateEstimationAndMapping at h
  cases hflg : s.meas.lioVioFlg with
  | wait =>
    rw [hflg] at h
    cases h
    exact (Keeps.refl s).intervals
  | lio =>
    rw [hflg] at h
    exact hlio h
  | lo =>
    rw [hflg] at h
    exact hlio h
  | vio =>
    rw [hflg] at h
    simp only [handleVio] at h
    split at h
    · cases h
      exact (Keeps.refl s).intervals
    · obtain ⟨m, -, hm⟩ := Option.map_eq_some_iff.mp h
      have ht := congrArg Prod.fst hm
      subst ht
      exact updateVio_keeps cfg K m s

theorem forwardWithoutImu_meas {icfg : ImuConfig} {K : ImuKernel C} {g g' : LidarMeasureGroup C}
    {state state' : StatesGroup C} {p p' : ImuProcess C} {out : List PointType}
    (h : forwardWithoutImu icfg K g state p = some (p', g', state', out)) :
    ∃ lastLio, g' = { g with lastLioUpdateTime := lastLio } := by
  unfold forwardWithoutImu at h
  simp only at h
  split at h
  · cases h
  · cases h
    exact ⟨_, rfl⟩

theorem imuInit_frame {K : ImuKernel C} {m : MeasureGroup C} {state state' : StatesGroup C}
    {p p' : ImuProcess C} (h : imuInit K m state p = some (p', state')) :
    p'.imuTimeInit = p.imuTimeInit ∧ p'.lastPropEndTime = p.lastPropEndTime := by
  unfold imuInit at h
  split at h
  · simp only at h
    split at h
    · cases h
      exact ⟨rfl, rfl⟩
    · cases h
      exact ⟨rfl, rfl⟩
  · cases h

/-- `Process2` on the intervals. -/
theorem process2_cases {icfg : ImuConfig} {K : ImuKernel C} {T : C.SE3} {g g' : LidarMeasureGroup C}
    {state state' : StatesGroup C} {cur out : List PointType} {p p' : ImuProcess C}
    (h : process2 icfg K T g state cur p = some (p', g', state', out)) :
    (∃ measures lastLio idx, g' = { g with
        measures := measures, lastLioUpdateTime := lastLio, lidarScanIndexNow := idx }) ∧
      (icfg.imuEn = true → ∃ m, g.measures.getLast? = some m ∧
        ((p.imuNeedInit = true ∧ (p'.imuNeedInit = false → m.imu ≠ []) ∧
            p'.imuTimeInit = p.imuTimeInit ∧ p'.lastPropEndTime = p.lastPropEndTime ∧
            g'.lastLioUpdateTime = g.lastLioUpdateTime) ∨
          (p.imuNeedInit = false ∧ p'.imuNeedInit = false ∧ p'.imuTimeInit = true ∧
            p'.lastPropEndTime = propEndTime g.lioVioFlg m ∧
            (g.lioVioFlg = .lio ∨ g.lioVioFlg = .vio →
              g'.lastLioUpdateTime = propEndTime g.lioVioFlg m)))) := by
  unfold process2 at h
  split at h
  · rename_i hen
    obtain ⟨lastLio, rfl⟩ := forwardWithoutImu_meas h
    refine ⟨⟨_, _, _, rfl⟩, fun htrue => ?_⟩
    rw [htrue] at hen
    cases hen
  · cases hback : g.measures.getLast? with
    | none => rw [hback] at h; cases h
    | some m =>
      rw [hback] at h
      simp only at h
      split at h
      · rename_i hneed
        split at h
        · cases h
          exact ⟨⟨_, _, _, rfl⟩, fun _ => ⟨m, rfl, .inl ⟨hneed, fun hf => by simp [hneed] at hf,
            rfl, rfl, rfl⟩⟩⟩
        · rename_i hne
          split at h
          · cases h
          · rename_i q st hinit
            cases h
            obtain ⟨ht, he⟩ := imuInit_frame hinit
            exact ⟨⟨_, _, _, rfl⟩, fun _ => ⟨m, rfl, .inl ⟨hneed,
              fun _ hnil => hne (by simp [hnil]), ht, he, rfl⟩⟩⟩
      · rename_i hneed
        have hf := undistortPcl_frame K
          (g.setBack { m with
            rtk := getRTKCorrectedState K (propEndTime g.lioVioFlg m) T m.rtk })
          { m with rtk := getRTKCorrectedState K (propEndTime g.lioVioFlg m) T m.rtk } state p
        have hfst := congrArg Prod.fst (Option.some.inj h)
        have hsnd := congrArg (fun r => r.2.1) (Option.some.inj h)
        simp only at hf hfst hsnd
        rw [hfst, hsnd] at hf
        obtain ⟨h1, h2, h3, idx, rfl⟩ := hf
        refine ⟨⟨_, _, _, rfl⟩, fun _ => ⟨m, rfl, .inr ⟨by simpa using hneed,
          h1.trans (by simpa using hneed), h2, h3, fun hflg => ?_⟩⟩⟩
        exact if_pos hflg

theorem gravityAlignment_keeps (s : LIVMapper C) : Keeps s (gravityAlignment K s) := by
  unfold gravityAlignment
  split
  · exact ⟨rfl, rfl, rfl⟩
  · exact .refl s

/-- The work of `run()` on a measurement. -/
theorem processMeasures_cases {t u : LIVMapper C} {out : List (Output C)}
    (h : processMeasures cfg K t = some (u, out)) : Processed cfg t u := by
  unfold processMeasures at h
  obtain ⟨v, himu, hest⟩ := Option.bind_eq_some_iff.mp h
  have hkeep := stateEstimationAndMapping_keeps hest
  unfold processImu at himu
  obtain ⟨⟨imu, meas, state, feats⟩, hp, hv⟩ := Option.bind_eq_some_iff.mp himu
  obtain ⟨hfirst, hneed, htime, hend⟩ : (handleFirstFrame t).meas = t.meas ∧
      (handleFirstFrame t).imu.imuNeedInit = t.imu.imuNeedInit ∧
      (handleFirstFrame t).imu.imuTimeInit = t.imu.imuTimeInit ∧
      (handleFirstFrame t).imu.lastPropEndTime = t.imu.lastPropEndTime := by
    unfold handleFirstFrame
    split <;> exact ⟨rfl, rfl, rfl, rfl⟩
  have hbuf : (handleFirstFrame t).buf = t.buf := by
    unfold handleFirstFrame
    split <;> rfl
  obtain ⟨⟨ms, last, idx, hg⟩, hcases⟩ := process2_cases hp
  have hvk : v.buf = t.buf ∧ v.meas = meas ∧ v.imu = imu := by
    have he := Option.some.inj hv
    subst he
    by_cases hgrav : cfg.gravityAlignEn = true
    · have hk := gravityAlignment_keeps (K := K)
        { handleFirstFrame t with
          imu := imu, meas := meas
          est := { (handleFirstFrame t).est with state := state, featsUndistort := feats } }
      simp only [hgrav, if_true]
      exact ⟨hk.buf.trans hbuf, hk.meas, hk.imu⟩
    · simp only [hgrav]
      exact ⟨hbuf, rfl, rfl⟩
  obtain ⟨vbuf, rfl, rfl⟩ := hvk
  obtain ⟨measures, hm⟩ := hkeep.meas
  rw [hfirst] at hg hcases
  rw [hneed, htime, hend] at hcases
  refine ⟨hkeep.buf.trans vbuf, ⟨measures, last, idx, by rw [hm, hg]⟩, fun hen => ?_⟩
  obtain ⟨m, hback, hc⟩ := hcases hen
  refine ⟨m, hback, ?_⟩
  rcases hc with ⟨h1, h2, h3, h4, h5⟩ | ⟨h1, h2, h3, h4, h5⟩
  · exact .init h1 (by rwa [hkeep.imu]) (by rw [hkeep.imu, h3]) (by rw [hkeep.imu, h4])
      (by rw [hm, ← h5])
  · exact .propagate h1 (by rw [hkeep.imu, h2]) (by rw [hkeep.imu, h3]) (by rw [hkeep.imu, h4])
      (fun hflg => by rw [hm, ← h5 hflg])

/-! ## Events -/

/-- Steps that concern neither buffers nor intervals. -/
structure Aside (w w' : World C) : Prop where
  buf : w'.mapper.buf = w.mapper.buf
  meas : w'.mapper.meas = w.mapper.meas
  imu : w'.mapper.imu = w.mapper.imu
  syncs : w'.hist.syncs = w.hist.syncs
  imuAccepted : w'.hist.imuAccepted = w.hist.imuAccepted
  initTimes : w'.hist.initTimes = w.hist.initTimes

/-- Effect of one event on the buffers, the intervals and their history. -/
inductive StepEffect (cfg : Config C) (w : World C) (e : Event C) : World C → Prop
  | aside {w' : World C} (h : Aside w w') : StepEffect cfg w e w'
  | lidar {b : SensorBuffers C} (h : LidarArrival w.mapper.buf b)
      (hpush : ¬ClearsScans cfg w.mapper.buf e → LidarPush w.mapper.buf b)
      (hoff : cfg.lidarEn = false → b = w.mapper.buf) :
      StepEffect cfg w e (w.setBuf b)
  | img {b : SensorBuffers C} (h : ImageArrival w.mapper.buf b) : StepEffect cfg w e (w.setBuf b)
  | imu {msg : ImuMsg C} {m : Imu C} {b : SensorBuffers C} {w' : World C}
      (h : acceptImu cfg msg w.mapper.buf = some (m, b))
      (hw : Aside ⟨{ w.mapper with buf := b },
        { w.hist with imuAccepted := w.hist.imuAccepted ++ [m] }⟩ w') : StepEffect cfg w e w'
  /-- `sync_packages` returned false. -/
  | wait {t : LIVMapper C} (h : syncPackages cfg w.mapper = some (false, t)) :
      StepEffect cfg w e ⟨t, w.hist.recordSync w.mapper false t⟩
  /-- `sync_packages` returned true and its measurement was worked on. -/
  | sync {t : LIVMapper C} {w' : World C} (h : syncPackages cfg w.mapper = some (true, t))
      (hp : Processed cfg t w'.mapper)
      (hsyncs : w'.hist.syncs = w.hist.syncs ++ [.of w.mapper t])
      (haccepted : w'.hist.imuAccepted = w.hist.imuAccepted)
      (hinit : w'.hist.initTimes = (w.hist.recordSync w.mapper true t).initTimes) :
      StepEffect cfg w e w'

theorem Aside.refl (w : World C) : Aside w w := ⟨rfl, rfl, rfl, rfl, rfl, rfl⟩

theorem imuPropCallback_keeps (cfg : Config C) (K : Kernel C) (s : LIVMapper C) : Keeps s (imuPropCallback cfg K s).1 := by
  unfold imuPropCallback
  split
  · exact .refl s
  · simp only
    split <;> exact ⟨rfl, rfl, rfl⟩

theorem imuEvent_cases (cfg : Config C) (msg : ImuMsg C) (w : World C) (e : Event C) :
    StepEffect cfg w e (imuEvent cfg msg w) := by
  cases h : acceptImu cfg msg w.mapper.buf with
  | none =>
    have hw : imuEvent cfg msg w = w := by
      simp [imuEvent, imuCbk, h]
    rw [hw]
    exact .aside (.refl w)
  | some r =>
    obtain ⟨m, b⟩ := r
    refine .imu h ⟨?_, ?_, ?_, rfl, ?_, rfl⟩ <;> simp [imuEvent, imuCbk, h]

/-- What every event but a turn of the loop leaves alone. -/
structure CallbackFrame (w w' : World C) : Prop where
  meas : w'.mapper.meas = w.mapper.meas
  imu : w'.mapper.imu = w.mapper.imu
  est : w'.mapper.est = w.mapper.est
  syncs : w'.hist.syncs = w.hist.syncs
  published : ∃ out, w'.hist.published = w.hist.published ++ out ∧
    ∀ stamp state, Output.odometry stamp state ∉ out

theorem rtkCbk_published (msg : GnssPVTSolnMsg C) (r : RtkFrontend C) (stamp : Stamp)
    (state : StatesGroup C) : Output.odometry stamp state ∉ (rtkCbk cfg K msg r).2 := by
  simp [rtkCbk]

theorem navsatfixCbk_published (msg : NavSatFix C) (r : RtkFrontend C) (stamp : Stamp)
    (state : StatesGroup C) : Output.odometry stamp state ∉ (navsatfixCbk cfg K msg r).2 := by
  unfold navsatfixCbk
  split <;> simp

theorem imuPropCallback_frame (cfg : Config C) (K : Kernel C) (s : LIVMapper C) :
    (imuPropCallback cfg K s).1.est = s.est ∧
      ∀ stamp state, Output.odometry stamp state ∉ (imuPropCallback cfg K s).2 := by
  unfold imuPropCallback
  split
  · simp
  · simp only
    split <;> simp

theorem step_callback {w w' : World C} {e : Event C} (h : step cfg K w e = some w')
    (he : e ≠ .spin) : CallbackFrame w w' := by
  cases e with
  | standardPcl => cases h; exact ⟨rfl, rfl, rfl, rfl, [], by simp [World.setBuf], by simp⟩
  | livoxPcl => cases h; exact ⟨rfl, rfl, rfl, rfl, [], by simp [World.setBuf], by simp⟩
  | img => cases h; exact ⟨rfl, rfl, rfl, rfl, [], by simp [World.setBuf], by simp⟩
  | imu msg =>
    cases h
    unfold imuEvent imuCbk
    split <;> exact ⟨rfl, rfl, rfl, rfl, [], by simp, by simp⟩
  | rtk msg =>
    simp only [step, Option.some.injEq] at h
    subst h
    split
    · exact ⟨rfl, rfl, rfl, rfl, _, rfl, rtkCbk_published msg _⟩
    · exact ⟨rfl, rfl, rfl, rfl, [], by simp, by simp⟩
  | navSatFix msg =>
    simp only [step, Option.some.injEq] at h
    subst h
    split
    · exact ⟨rfl, rfl, rfl, rfl, _, rfl, navsatfixCbk_published msg _⟩
    · exact ⟨rfl, rfl, rfl, rfl, [], by simp, by simp⟩
  | imuPropTimer =>
    cases h
    have hk := imuPropCallback_keeps cfg K w.mapper
    obtain ⟨hest, hout⟩ := imuPropCallback_frame cfg K w.mapper
    exact ⟨hk.meas, hk.imu, hest, rfl, _, rfl, hout⟩
  | spin => exact absurd rfl he

/-- Outcomes of one turn of the loop. -/
inductive SpinEffect (cfg : Config C) (K : Kernel C) (w : World C) : World C → Prop
  | wait {t : LIVMapper C} (h : syncPackages cfg w.mapper = some (false, t)) :
      SpinEffect cfg K w ⟨t, w.hist.recordSync w.mapper false t⟩
  | sync {t u : LIVMapper C} {out : List (Output C)}
      (h : syncPackages cfg w.mapper = some (true, t))
      (hwork : processMeasures cfg K t = some (u, out)) :
      SpinEffect cfg K w ⟨u, { w.hist.recordSync w.mapper true t with
        published := w.hist.published ++ out }⟩

theorem spinOnce_cases {w w' : World C} (h : spinOnce cfg K w = some w') :
    SpinEffect cfg K w w' := by
  unfold spinOnce at h
  obtain ⟨⟨ok, t⟩, hsync, h⟩ := Option.bind_eq_some_iff.mp h
  simp only at h
  cases ok with
  | false =>
    cases h
    exact .wait hsync
  | true =>
    obtain ⟨⟨u, out⟩, hwork, h⟩ := Option.bind_eq_some_iff.mp h
    cases h
    exact .sync hsync hwork

/-- Everything an event can do to the buffers and the intervals. -/
theorem step_cases {w w' : World C} {e : Event C} (h : step cfg K w e = some w') :
    StepEffect cfg w e w' := by
  cases e with
  | standardPcl msg =>
    cases h
    exact .lidar (standardPclCbk_cases cfg msg _) standardPclCbk_push
      fun hoff => by simp [standardPclCbk, hoff]
  | livoxPcl msg =>
    cases h
    exact .lidar (livoxPclCbk_cases cfg msg _) livoxPclCbk_push
      fun hoff => by simp [livoxPclCbk, hoff]
  | imu msg =>
    cases h
    exact imuEvent_cases cfg msg w _
  | img msg =>
    cases h
    exact .img (imgCbk_cases cfg msg _)
  | rtk msg =>
    simp only [step, Option.some.injEq] at h
    subst h
    split <;> exact .aside ⟨rfl, rfl, rfl, rfl, rfl, rfl⟩
  | navSatFix msg =>
    simp only [step, Option.some.injEq] at h
    subst h
    split <;> exact .aside ⟨rfl, rfl, rfl, rfl, rfl, rfl⟩
  | imuPropTimer =>
    cases h
    have hk := imuPropCallback_keeps cfg K w.mapper
    exact .aside ⟨hk.buf, hk.meas, hk.imu, rfl, rfl, rfl⟩
  | spin =>
    cases spinOnce_cases h with
    | wait hsync => exact .wait hsync
    | sync hsync hwork => exact .sync hsync (processMeasures_cases hwork) rfl rfl rfl

/-- What holds of the mapper at the start and is kept by every admitted effect holds
in every state of the admitted runs. -/
theorem Setup.invariant (S : Setup C) {ok : World C → Event C → Prop} {I : World C → Prop}
    (h0 : I S.init)
    (hs : ∀ {w w' : World C} {e : Event C}, I w → ok w e → StepEffect S.cfg w e w' → I w')
    {w : World C} (h : Lib.Reach S.step ok S.init w) : I w :=
  h.invariant h0 fun _ _ hI hok hst => hs hI hok (step_cases hst)

end FastLivo
