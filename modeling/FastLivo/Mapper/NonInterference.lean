import FastLivo.Mapper.Effects

/-!
# The local frontend without RTK

With `rtk_en` off no observation reaches a measurement: `sync_packages` fills its RTK
member with the default, which is not valid, and everything after it reads the RTK
members only for a valid one. So the callbacks of the GPS topic, and whether it is
subscribed to, are invisible in the rest of the mapper and in what it publishes.
-/

namespace FastLivo

open Lib

variable {C : Carrier}

/-! ## The RTK members set aside -/

/-- The mapper with other RTK members. -/
def LIVMapper.withRtk (s : LIVMapper C) (r : RtkFrontend C) : LIVMapper C := { s with rtk := r }

@[simp] theorem withRtk_buf (s : LIVMapper C) (r : RtkFrontend C) : (s.withRtk r).buf = s.buf := rfl
@[simp] theorem withRtk_meas (s : LIVMapper C) (r : RtkFrontend C) : (s.withRtk r).meas = s.meas := rfl
@[simp] theorem withRtk_imu (s : LIVMapper C) (r : RtkFrontend C) : (s.withRtk r).imu = s.imu := rfl
@[simp] theorem withRtk_est (s : LIVMapper C) (r : RtkFrontend C) : (s.withRtk r).est = s.est := rfl
@[simp] theorem withRtk_prop (s : LIVMapper C) (r : RtkFrontend C) : (s.withRtk r).prop = s.prop := rfl

/-- The measurements carry no observation. -/
def NoRtk (g : LidarMeasureGroup C) : Prop := ∀ m ∈ g.measures, m.rtk.valid = false

/-! ## `sync_packages` -/

section Sync

variable (cfg : Config C)

theorem pushLidar_withRtk (s : LIVMapper C) (r : RtkFrontend C) :
    pushLidar (s.withRtk r) = (pushLidar s).map fun x => (x.1, x.2.withRtk r) := by
  unfold pushLidar
  simp only [withRtk_buf, withRtk_meas]
  cases s.buf.lidRawDataBuffer.head? with
  | none => rfl
  | some lidar =>
    simp only [Option.bind_eq_bind, Option.bind_some]
    split
    · rfl
    · simp only [Option.map_bind, Function.comp_def, Option.map_some]
      rfl

theorem completeLio_withRtk (s : LIVMapper C) (r : RtkFrontend C) :
    completeLio cfg (s.withRtk r) = (completeLio cfg s).map fun x => (x.1, x.2.withRtk r) := by
  obtain ⟨buf, meas, imu, est, prop, rtk⟩ := s
  unfold completeLio LIVMapper.withRtk
  dsimp only
  split
  · rfl
  · simp only [Option.bind_eq_bind, Option.map_bind, Function.comp_def, Option.map_some]

theorem syncOnlyLio_withRtk (s : LIVMapper C) (r : RtkFrontend C) :
    syncOnlyLio cfg (s.withRtk r) = (syncOnlyLio cfg s).map fun x => (x.1, x.2.withRtk r) := by
  unfold syncOnlyLio
  cases hinit : initLastLio s.buf s.meas with
  | none => simp [hinit]
  | some meas =>
    have hpush := pushLidar_withRtk { s with meas := meas } r
    have hdone := completeLio_withRtk cfg { s with meas := meas } r
    obtain ⟨buf, meas', imu, est, prop, rtk⟩ := s
    unfold LIVMapper.withRtk at hpush hdone ⊢
    dsimp only at hpush hdone hinit ⊢
    simp only [hinit, Option.bind_eq_bind, Option.bind_some]
    split
    · exact hdone
    · rw [hpush]
      cases pushLidar ⟨buf, meas, imu, est, prop, rtk⟩ with
      | none => rfl
      | some x =>
        obtain ⟨pushed, m⟩ := x
        cases pushed with
        | true => exact completeLio_withRtk cfg m r
        | false => rfl

/-- With `rtk_en` off the slicing reads no RTK member. -/
theorem sliceLivo_withRtk (hrtk : cfg.rtkEn = false) (lioTime : Double) (s : LIVMapper C)
    (r : RtkFrontend C) :
    sliceLivo cfg lioTime (s.withRtk r) =
      (sliceLivo cfg lioTime s).map fun x => (x.1, x.2.withRtk r) := by
  obtain ⟨buf, meas, imu, est, prop, rtk⟩ := s
  unfold sliceLivo sliceLivoRtk LIVMapper.withRtk
  simp only [hrtk, Bool.false_and, Bool.false_eq_true, if_false, Option.bind_eq_bind,
    Option.map_bind, Function.comp_def, Option.map_some]

theorem syncLivoLio_withRtk (hrtk : cfg.rtkEn = false) (s : LIVMapper C) (r : RtkFrontend C) :
    syncLivoLio cfg (s.withRtk r) = (syncLivoLio cfg s).map fun x => (x.1, x.2.withRtk r) := by
  obtain ⟨buf, meas, imu, est, prop, rtk⟩ := s
  unfold syncLivoLio LIVMapper.withRtk
  simp only [Option.bind_eq_bind, Option.map_bind, Function.comp_def]
  congr 1
  funext imgTime
  congr 1
  funext meas
  congr 1
  funext lidNewest
  congr 1
  funext imuNewest
  split
  · simp only [Option.map_bind, Function.comp_def, Option.map_some]
  · split
    · rfl
    · exact sliceLivo_withRtk cfg hrtk _
        ⟨buf, meas, imu, atImage cfg (imgTime + cfg.exposureTimeInit) est, prop, rtk⟩ r

theorem syncLivoVio_withRtk (s : LIVMapper C) (r : RtkFrontend C) :
    syncLivoVio cfg (s.withRtk r) = (syncLivoVio cfg s).map fun x => (x.1, x.2.withRtk r) := by
  obtain ⟨buf, meas, imu, est, prop, rtk⟩ := s
  unfold syncLivoVio LIVMapper.withRtk
  simp only [Option.bind_eq_bind, Option.map_bind, Function.comp_def, Option.map_some]

theorem syncOnlyLo_withRtk (s : LIVMapper C) (r : RtkFrontend C) :
    syncOnlyLo (s.withRtk r) = (syncOnlyLo s).map fun x => (x.1, x.2.withRtk r) := by
  have hfront : frontScan (s.withRtk r) = frontScan s := rfl
  unfold syncOnlyLo
  rw [hfront]
  obtain ⟨buf, meas, imu, est, prop, rtk⟩ := s
  unfold LIVMapper.withRtk
  dsimp only
  split
  · rfl
  · simp only [Option.bind_eq_bind, Option.map_bind, Function.comp_def, Option.map_some]

/-- With `rtk_en` off a call neither reads nor writes the RTK members. -/
theorem syncPackages_withRtk (hrtk : cfg.rtkEn = false) (s : LIVMapper C) (r : RtkFrontend C) :
    syncPackages cfg (s.withRtk r) = (syncPackages cfg s).map fun x => (x.1, x.2.withRtk r) := by
  have hlio := syncOnlyLio_withRtk cfg s r
  have hlo := syncOnlyLo_withRtk s r
  have hlivo := syncLivoLio_withRtk cfg hrtk s r
  have hvio := syncLivoVio_withRtk cfg s r
  obtain ⟨buf, meas, imu, est, prop, rtk⟩ := s
  unfold syncPackages
  unfold LIVMapper.withRtk at *
  dsimp only at *
  split
  · rfl
  split
  · rfl
  split
  · rfl
  cases cfg.slamMode with
  | onlyLio => exact hlio
  | onlyLo => exact hlo
  | livo =>
    cases meas.lioVioFlg with
    | wait => exact hlivo
    | vio => exact hlivo
    | lio => exact hvio
    | lo => rfl

end Sync

/-! ## Estimation -/

/-- The work neither reads the RTK members nor writes more of them than `rtk_good`. -/
def Blind {α : Type} (f : LIVMapper C → Option (LIVMapper C × α)) (s : LIVMapper C) : Prop :=
  ∀ r, ∃ r', f (s.withRtk r) = (f s).map fun x => (x.1.withRtk r', x.2)

theorem getRTKCorrectedState_of_invalid (K : ImuKernel C) (propEnd : Double) (T : C.SE3) {rtk : RTK C}
    (h : rtk.valid = false) : getRTKCorrectedState K propEnd T rtk = rtk := by
  simp [getRTKCorrectedState, h]

theorem NoRtk.setBack {g : LidarMeasureGroup C} {m : MeasureGroup C} (h : NoRtk g)
    (hm : m.rtk.valid = false) : NoRtk (g.setBack m) := by
  intro m' hm'
  rcases List.mem_append.mp hm' with hm' | hm'
  · exact h m' (List.dropLast_subset _ hm')
  · rw [List.mem_singleton.mp hm']
    exact hm

/-- Without observations `T_G_to_W` is not read. -/
theorem process2_tGToW (icfg : ImuConfig) (K : ImuKernel C) (T T' : C.SE3) {g : LidarMeasureGroup C}
    (h : NoRtk g) (state : StatesGroup C) (cur : List PointType) (p : ImuProcess C) :
    process2 icfg K T g state cur p = process2 icfg K T' g state cur p := by
  unfold process2
  cases hback : g.measures.getLast? with
  | none => rfl
  | some m =>
    have hm := h m (List.mem_of_getLast? hback)
    simp only [getRTKCorrectedState_of_invalid K _ _ hm]

theorem NoRtk.process2 {icfg : ImuConfig} {K : ImuKernel C} {T : C.SE3} {g g' : LidarMeasureGroup C}
    {state state' : StatesGroup C} {cur out : List PointType} {p p' : ImuProcess C} (h : NoRtk g)
    (hp : process2 icfg K T g state cur p = some (p', g', state', out)) : NoRtk g' := by
  unfold FastLivo.process2 at hp
  split at hp
  · obtain ⟨lastLio, rfl⟩ := forwardWithoutImu_meas hp
    exact h
  · cases hback : g.measures.getLast? with
    | none => rw [hback] at hp; cases hp
    | some m =>
      have hm := h m (List.mem_of_getLast? hback)
      rw [hback] at hp
      simp only at hp
      split at hp
      · split at hp
        · cases hp
          exact h
        · split at hp
          · cases hp
          · cases hp
            exact h
      · rw [getRTKCorrectedState_of_invalid K _ _ hm] at hp
        obtain ⟨-, -, -, idx, hg⟩ := undistortPcl_frame K (g.setBack m) m state p
        have hsnd := congrArg (fun r => r.2.1) (Option.some.inj hp)
        simp only at hsnd
        rw [← hsnd, hg]
        exact h.setBack hm

section Estimation

variable (cfg : Config C) (K : Kernel C)

theorem handleFirstFrame_withRtk (s : LIVMapper C) (r : RtkFrontend C) :
    handleFirstFrame (s.withRtk r) = (handleFirstFrame s).withRtk r := by
  obtain ⟨buf, meas, imu, est, prop, rtk⟩ := s
  unfold handleFirstFrame LIVMapper.withRtk
  dsimp only
  split <;> rfl

theorem handleFirstFrame_meas (s : LIVMapper C) : (handleFirstFrame s).meas = s.meas := by
  unfold handleFirstFrame
  split <;> rfl

theorem gravityAlignment_withRtk (s : LIVMapper C) (r : RtkFrontend C) :
    gravityAlignment K (s.withRtk r) = (gravityAlignment K s).withRtk r := by
  obtain ⟨buf, meas, imu, est, prop, rtk⟩ := s
  unfold gravityAlignment LIVMapper.withRtk
  dsimp only
  split <;> rfl

theorem processImu_withRtk {s : LIVMapper C} (h : NoRtk s.meas) (r : RtkFrontend C) :
    processImu cfg K (s.withRtk r) = (processImu cfg K s).map fun t => t.withRtk r := by
  have hp := process2_tGToW cfg.imu K.toImuKernel r.tGToW s.rtk.tGToW h s.est.state
    s.est.featsUndistort s.imu
  unfold processImu
  cases hs : process2 cfg.imu K.toImuKernel s.rtk.tGToW s.meas s.est.state s.est.featsUndistort
      s.imu with
  | none =>
    rw [hs] at hp
    simp [LIVMapper.withRtk, hp]
  | some x =>
    obtain ⟨imu, meas, state, feats⟩ := x
    rw [hs] at hp
    simp only [LIVMapper.withRtk, hp, Option.bind_eq_bind, Option.bind_some, Option.map_some]
    by_cases hg : cfg.gravityAlignEn = true
    · simp only [hg, if_true]
      exact congrArg (fun t => some (beginScan K t)) (gravityAlignment_withRtk K
        { s with imu := imu, meas := meas, est := { s.est with state := state, featsUndistort := feats } } r)
    · simp only [hg]
      rfl

theorem NoRtk.processImu {s t : LIVMapper C} (h : NoRtk s.meas)
    (hp : processImu cfg K s = some t) : NoRtk t.meas := by
  unfold FastLivo.processImu at hp
  obtain ⟨⟨imu, meas, state, feats⟩, hp, ht⟩ := Option.bind_eq_some_iff.mp hp
  have hmeas := h.process2 hp
  have he := Option.some.inj ht
  subst he
  by_cases hg : cfg.gravityAlignEn = true
  · simp only [hg, if_true]
    exact (gravityAlignment_keeps (K := K)
      { s with imu := imu, meas := meas, est := { s.est with state := state, featsUndistort := feats } }).meas ▸ hmeas
  · simp only [hg]
    exact hmeas

theorem finishEkf_withRtk (s : LIVMapper C) (r : RtkFrontend C) :
    finishEkf cfg (s.withRtk r) = (finishEkf cfg s).withRtk r := by
  unfold finishEkf
  split <;> rfl

theorem finishEkf_meas (s : LIVMapper C) : (finishEkf cfg s).meas = s.meas := by
  unfold finishEkf
  split <;> rfl

/-- The VIO update replaces the pixels of the image of the measurement. -/
theorem estimateVio_meas (m : MeasureGroup C) (s : LIVMapper C) :
    ∃ mat, (estimateVio cfg K m s).meas =
      s.meas.setBack { m with img := { m.img with mat := mat } } :=
  ⟨_, finishEkf_meas cfg _⟩

theorem publishFrameWorld_withRtk (hrtk : cfg.rtkEn = false) (s : LIVMapper C) (r : RtkFrontend C) :
    publishFrameWorld cfg K (s.withRtk r) =
      ((publishFrameWorld cfg K s).1.withRtk r, (publishFrameWorld cfg K s).2) := by
  obtain ⟨buf, meas, imu, est, prop, rtk⟩ := s
  unfold publishFrameWorld pushLivoState LIVMapper.withRtk
  simp only [hrtk, Bool.false_and, Bool.false_eq_true, if_false]
  split
  · rfl
  · by_cases himg : cfg.imgEn = true
    · simp only [himg, if_true]
      rfl
    · simp only [himg]
      rfl

/-- Without a valid observation the update sets `rtk_good` and nothing else of the RTK. -/
theorem estimateLio_withRtk {rtk : RTK C} (h : rtk.valid = false) (down : List PointType)
    (s : LIVMapper C) (r : RtkFrontend C) :
    estimateLio cfg K rtk down (s.withRtk r) =
      (estimateLio cfg K rtk down s).withRtk { r with rtkGood := false } := by
  have hgood : ∀ r : RtkFrontend C, rtkUsable r rtk = false := fun r => by simp [rtkUsable, h]
  unfold estimateLio
  rw [hgood, hgood]
  simp only
  rw [← finishEkf_withRtk]
  rfl

theorem updateLio_withRtk (hrtk : cfg.rtkEn = false) {rtk : RTK C} (h : rtk.valid = false)
    (s : LIVMapper C) (r : RtkFrontend C) :
    updateLio cfg K rtk (s.withRtk r) =
      ((updateLio cfg K rtk s).1.withRtk { r with rtkGood := false }, (updateLio cfg K rtk s).2) := by
  unfold updateLio
  simp only [withRtk_est, estimateLio_withRtk cfg K h]
  by_cases himg : cfg.imgEn = true
  · simp only [himg, if_true]
    rfl
  · simp only [himg]
    have hpub := publishFrameWorld_withRtk cfg K hrtk
      (updateMap cfg K (K.downSizeFilterSurf s.est.featsUndistort)
        (estimateLio cfg K rtk (K.downSizeFilterSurf s.est.featsUndistort) s))
      { r with rtkGood := false }
    refine Prod.ext ?_ ?_
    · exact congrArg (fun x => (publishPath x.1).1) hpub
    · exact congrArg (fun x => publishOdometry _ :: x.2 ++ [(publishPath x.1).2, publishMavros (publishPath x.1).1]) hpub

theorem updateVio_withRtk (hrtk : cfg.rtkEn = false) (m : MeasureGroup C) (s : LIVMapper C)
    (r : RtkFrontend C) :
    updateVio cfg K m (s.withRtk r) =
      ((updateVio cfg K m s).1.withRtk r, (updateVio cfg K m s).2) := by
  have hest : estimateVio cfg K m (s.withRtk r) = (estimateVio cfg K m s).withRtk r := by
    unfold estimateVio
    simp only
    rw [← finishEkf_withRtk]
    rfl
  unfold updateVio
  rw [hest, publishFrameWorld_withRtk cfg K hrtk]
  rfl

theorem handleLio_blind (hrtk : cfg.rtkEn = false) {s : LIVMapper C} (h : NoRtk s.meas) :
    Blind (handleLio cfg K) s := by
  intro r
  by_cases hfeats : s.est.featsUndistort.isEmpty = true
  · have hs : ∀ r, handleLio cfg K (s.withRtk r) = some (s.withRtk r, []) := fun r => if_pos hfeats
    refine ⟨r, ?_⟩
    rw [hs r, show handleLio cfg K s = some (s, []) from hs s.rtk]
    rfl
  · have hs : ∀ r, handleLio cfg K (s.withRtk r) =
        s.meas.measures.getLast?.map fun m => updateLio cfg K m.rtk (s.withRtk r) :=
      fun r => if_neg hfeats
    refine ⟨{ r with rtkGood := false }, ?_⟩
    rw [hs r, show handleLio cfg K s = _ from hs s.rtk]
    cases hback : s.meas.measures.getLast? with
    | none => rfl
    | some m =>
      exact congrArg some (updateLio_withRtk cfg K hrtk (h m (List.mem_of_getLast? hback)) s r)

theorem handleVio_blind (hrtk : cfg.rtkEn = false) (s : LIVMapper C) :
    Blind (handleVio cfg K) s := by
  intro r
  refine ⟨r, ?_⟩
  by_cases hpub : s.est.pclWWaitPub.isEmpty = true
  · have hs : ∀ r, handleVio cfg K (s.withRtk r) = some (s.withRtk r, []) := fun r => if_pos hpub
    rw [hs r, show handleVio cfg K s = some (s, []) from hs s.rtk]
    rfl
  · have hs : ∀ r, handleVio cfg K (s.withRtk r) =
        s.meas.measures.getLast?.map fun m => updateVio cfg K m (s.withRtk r) :=
      fun r => if_neg hpub
    rw [hs r, show handleVio cfg K s = _ from hs s.rtk]
    cases s.meas.measures.getLast? with
    | none => rfl
    | some m => exact congrArg some (updateVio_withRtk cfg K hrtk m s r)

theorem stateEstimationAndMapping_blind (hrtk : cfg.rtkEn = false) {s : LIVMapper C}
    (h : NoRtk s.meas) : Blind (stateEstimationAndMapping cfg K) s := by
  unfold Blind stateEstimationAndMapping
  simp only [withRtk_meas]
  cases s.meas.lioVioFlg with
  | wait => exact fun r => ⟨r, rfl⟩
  | vio => exact handleVio_blind cfg K hrtk s
  | lio => exact handleLio_blind cfg K hrtk h
  | lo => exact handleLio_blind cfg K hrtk h

theorem NoRtk.estimation {s t : LIVMapper C} {out : List (Output C)} (h : NoRtk s.meas)
    (hs : stateEstimationAndMapping cfg K s = some (t, out)) : NoRtk t.meas := by
  have hlio : handleLio cfg K s = some (t, out) → NoRtk t.meas := by
    intro hs
    unfold handleLio at hs
    split at hs
    · cases hs
      exact h
    · obtain ⟨m, -, hm⟩ := Option.map_eq_some_iff.mp hs
      obtain rfl := congrArg Prod.fst hm
      exact (updateLio_keeps cfg K m.rtk s).meas ▸ h
  unfold stateEstimationAndMapping at hs
  cases hflg : s.meas.lioVioFlg with
  | wait =>
    rw [hflg] at hs
    cases hs
    exact h
  | lio =>
    rw [hflg] at hs
    exact hlio hs
  | lo =>
    rw [hflg] at hs
    exact hlio hs
  | vio =>
    rw [hflg] at hs
    simp only [handleVio] at hs
    split at hs
    · cases hs
      exact h
    · obtain ⟨m, hback, hm⟩ := Option.map_eq_some_iff.mp hs
      obtain rfl := congrArg Prod.fst hm
      obtain ⟨mat, hmeas⟩ := estimateVio_meas cfg K m s
      have hkeep := (publishFrameWorld_keeps cfg K (estimateVio cfg K m s)).meas
      have hback := h m (List.mem_of_getLast? hback)
      have hset : NoRtk (s.meas.setBack { m with img := { m.img with mat := mat } }) :=
        h.setBack hback
      rw [← hmeas, ← hkeep] at hset
      exact hset

/-- The work on a measurement is blind to the RTK members. -/
theorem processMeasures_blind (hrtk : cfg.rtkEn = false) {s : LIVMapper C} (h : NoRtk s.meas) :
    Blind (processMeasures cfg K) s := by
  intro r
  have hfirst : NoRtk (handleFirstFrame s).meas := by rwa [handleFirstFrame_meas]
  unfold processMeasures
  rw [handleFirstFrame_withRtk, processImu_withRtk cfg K hfirst]
  cases hp : processImu cfg K (handleFirstFrame s) with
  | none => exact ⟨r, rfl⟩
  | some t => exact stateEstimationAndMapping_blind cfg K hrtk (hfirst.processImu cfg K hp) r

theorem NoRtk.processMeasures {s t : LIVMapper C} {out : List (Output C)} (h : NoRtk s.meas)
    (hp : processMeasures cfg K s = some (t, out)) : NoRtk t.meas := by
  have hfirst : NoRtk (handleFirstFrame s).meas := by rwa [handleFirstFrame_meas]
  obtain ⟨u, hu, hs⟩ := Option.bind_eq_some_iff.mp hp
  exact (hfirst.processImu cfg K hu).estimation cfg K hs

end Estimation

/-- With `rtk_en` off no call puts an observation into a measurement. -/
theorem NoRtk.sync {cfg : Config C} (hrtk : cfg.rtkEn = false) {s t : LIVMapper C} {ok : Bool}
    (h : NoRtk s.meas) (hs : syncPackages cfg s = some (ok, t)) : NoRtk t.meas := by
  have happend : ∀ {g : LidarMeasureGroup C} {m : MeasureGroup C},
      g.measures = s.meas.measures ++ [m] → m.rtk.valid = false → NoRtk g := by
    intro g m hg hm m' hm'
    rcases List.mem_append.mp (hg ▸ hm') with hm' | hm'
    · exact h m' hm'
    · rw [List.mem_singleton.mp hm']
      exact hm
  have hpush : ∀ {m : LIVMapper C}, ScanPushed s m → m.meas.measures = s.meas.measures := by
    intro m hscan
    cases hscan <;> rfl
  cases hm : cfg.slamMode with
  | livo =>
    cases syncPackages_livo hm hs with
    | idle => exact h
    | hold => exact h
    | throwImage => exact h
    | lio => exact happend rfl (by simp [sliceLivoRtk, hrtk])
    | vio =>
      intro m' hm'
      rw [List.mem_singleton.mp hm']
  | onlyLio =>
    cases syncPackages_onlyLio hm hs with
    | idle => exact h
    | refuse => exact h
    | wait hscan => exact fun m' hm' => h m' (hpush hscan ▸ hm')
    | deliver hscan => exact happend (by rw [hpush hscan]) rfl
  | onlyLo =>
    unfold syncPackages at hs
    split at hs
    · cases hs; exact h
    split at hs
    · cases hs; exact h
    split at hs
    · cases hs; exact h
    simp only [hm] at hs
    unfold syncOnlyLo at hs
    split at hs
    · cases hs; exact h
    · obtain ⟨meas, hfront, hs⟩ := Option.bind_eq_some_iff.mp hs
      obtain ⟨buf, -, hs⟩ := Option.bind_eq_some_iff.mp hs
      have hmeas : meas.measures = s.meas.measures := by
        unfold frontScan at hfront
        split at hfront
        · cases hfront; rfl
        · simp only [Option.bind_eq_bind, Option.bind_eq_some_iff] at hfront
          obtain ⟨_, -, _, -, _, -, hfront⟩ := hfront
          cases hfront
          rfl
      cases hs
      exact happend (by rw [hmeas]) rfl

/-! ## Runs -/

/-- A message of the GPS topic. -/
def Event.isRtk : Event C → Bool
  | .rtk _ | .navSatFix _ => true
  | _ => false

/-- Published by the callbacks of the GPS topic. -/
def Output.isGps : Output C → Bool
  | .gps _ _ => true
  | _ => false

/-- Publications of the local frontend. -/
def localOutputs (published : List (Output C)) : List (Output C) :=
  published.filter fun o => !o.isGps

/-- The local frontend: buffers, measurement, IMU processing, state and maps, and what
became of them so far. -/
structure LocalView (C : Carrier) where
  buf : SensorBuffers C
  meas : LidarMeasureGroup C
  imu : ImuProcess C
  est : Estimation C
  prop : ImuPropagation C
  syncs : List (SyncRecord C)
  imuAccepted : List (Imu C)
  initTimes : List Double
  published : List (Output C)

def World.localView (w : World C) : LocalView C :=
  ⟨w.mapper.buf, w.mapper.meas, w.mapper.imu, w.mapper.est, w.mapper.prop, w.hist.syncs,
    w.hist.imuAccepted, w.hist.initTimes, localOutputs w.hist.published⟩

/-- The state with other RTK members and publications. -/
def World.withRtk (w : World C) (r : RtkFrontend C) (published : List (Output C)) : World C :=
  ⟨w.mapper.withRtk r, { w.hist with published := published }⟩

theorem localView_withRtk (w : World C) (r : RtkFrontend C) {published : List (Output C)}
    (h : localOutputs published = localOutputs w.hist.published) :
    (w.withRtk r published).localView = w.localView := by
  simp [World.localView, World.withRtk, h]

/-- States with the same local frontend differ in the RTK members and publications only. -/
theorem exists_withRtk {w w' : World C} (h : w.localView = w'.localView) :
    ∃ r published, localOutputs published = localOutputs w.hist.published ∧
      w' = w.withRtk r published := by
  obtain ⟨⟨buf, meas, imu, est, prop, rtk⟩, syncs, imuAccepted, initTimes, published⟩ := w
  obtain ⟨⟨buf', meas', imu', est', prop', rtk'⟩, syncs', imuAccepted', initTimes', published'⟩ := w'
  simp only [World.localView, LocalView.mk.injEq] at h
  obtain ⟨rfl, rfl, rfl, rfl, rfl, rfl, rfl, rfl, hpub⟩ := h
  exact ⟨rtk', published', hpub.symm, rfl⟩

section Step

variable {cfg : Config C} {K : Kernel C}

theorem spinOnce_withRtk (hrtk : cfg.rtkEn = false) {w : World C} (h : NoRtk w.mapper.meas)
    (r : RtkFrontend C) {published : List (Output C)}
    (hpub : localOutputs published = localOutputs w.hist.published) :
    (spinOnce cfg K (w.withRtk r published)).map World.localView =
      (spinOnce cfg K w).map World.localView := by
  have hsync : syncPackages cfg (w.withRtk r published).mapper = _ :=
    syncPackages_withRtk cfg hrtk w.mapper r
  unfold spinOnce
  rw [hsync]
  cases hs : syncPackages cfg w.mapper with
  | none => rfl
  | some x =>
    obtain ⟨ok, t⟩ := x
    cases ok with
    | false =>
      exact congrArg some (localView_withRtk ⟨t, w.hist.recordSync w.mapper false t⟩ r hpub)
    | true =>
      obtain ⟨r', hr'⟩ := processMeasures_blind cfg K hrtk (h.sync hrtk hs) r
      simp only [Option.map_some, Option.bind_eq_bind, Option.bind_some, if_true]
      rw [hr']
      cases hp : processMeasures cfg K t with
      | none => rfl
      | some y =>
        obtain ⟨u, out⟩ := y
        refine congrArg some (localView_withRtk ⟨u, { w.hist.recordSync w.mapper true t with
          published := w.hist.published ++ out }⟩ r' ?_)
        show localOutputs (published ++ out) = localOutputs (w.hist.published ++ out)
        unfold localOutputs at hpub ⊢
        rw [List.filter_append, List.filter_append, hpub]

theorem imuCbk_withRtk (msg : ImuMsg C) (s : LIVMapper C) (r : RtkFrontend C) :
    imuCbk cfg msg (s.withRtk r) = (imuCbk cfg msg s).withRtk r := by
  unfold imuCbk
  simp only [withRtk_buf]
  cases acceptImu cfg msg s.buf <;> rfl

theorem imuPropCallback_withRtk (cfg : Config C) (K : Kernel C) (s : LIVMapper C) (r : RtkFrontend C) :
    imuPropCallback cfg K (s.withRtk r) =
      ((imuPropCallback cfg K s).1.withRtk r, (imuPropCallback cfg K s).2) := by
  obtain ⟨buf, meas, imu, est, prop, rtk⟩ := s
  unfold imuPropCallback LIVMapper.withRtk
  dsimp only
  split
  · rfl
  · split <;> rfl

/-- Every other event acts on the local frontend alone. -/
theorem step_withRtk (hrtk : cfg.rtkEn = false) {w : World C} (h : NoRtk w.mapper.meas)
    (r : RtkFrontend C) {published : List (Output C)}
    (hpub : localOutputs published = localOutputs w.hist.published) {e : Event C}
    (he : e.isRtk = false) :
    (step cfg K (w.withRtk r published) e).map World.localView =
      (step cfg K w e).map World.localView := by
  cases e with
  | standardPcl msg =>
    exact congrArg some (localView_withRtk (w.setBuf (standardPclCbk cfg msg w.mapper.buf)) r hpub)
  | livoxPcl msg =>
    exact congrArg some (localView_withRtk (w.setBuf (livoxPclCbk cfg msg w.mapper.buf)) r hpub)
  | img msg =>
    exact congrArg some (localView_withRtk (w.setBuf (imgCbk cfg msg w.mapper.buf)) r hpub)
  | imu msg =>
    have himu : imuEvent cfg msg (w.withRtk r published) =
        (imuEvent cfg msg w).withRtk r published := by
      unfold imuEvent World.withRtk
      simp only [imuCbk_withRtk]
      rfl
    simp only [step, himu, Option.map_some, localView_withRtk (imuEvent cfg msg w) r hpub]
  | imuPropTimer =>
    have hprop := imuPropCallback_withRtk cfg K w.mapper r
    simp only [step, Option.map_some, World.withRtk, hprop]
    refine congrArg some (localView_withRtk ⟨(imuPropCallback cfg K w.mapper).1, { w.hist with
      published := w.hist.published ++ (imuPropCallback cfg K w.mapper).2 }⟩ r ?_)
    show localOutputs (published ++ _) = localOutputs (w.hist.published ++ _)
    unfold localOutputs at hpub ⊢
    rw [List.filter_append, List.filter_append, hpub]
  | spin => exact spinOnce_withRtk hrtk h r hpub
  | rtk => cases he
  | navSatFix => cases he

/-- The callbacks of the GPS topic leave the local frontend as it is. -/
theorem step_rtk (w : World C) {e : Event C} (he : e.isRtk = true) :
    (step cfg K w e).map World.localView = some w.localView := by
  have hset : ∀ x : RtkFrontend C × List (Output C), localOutputs x.2 = [] →
      (w.setRtk x).localView = w.localView := by
    intro x hx
    unfold localOutputs at hx
    simp [World.localView, World.setRtk, localOutputs, hx]
  cases e with
  | rtk msg =>
    simp only [step, Option.map_some]
    split
    · exact congrArg some (hset _ rfl)
    · rfl
  | navSatFix msg =>
    simp only [step, Option.map_some]
    split
    · refine congrArg some (hset _ ?_)
      unfold navsatfixCbk
      split <;> rfl
    · rfl
  | standardPcl => cases he
  | livoxPcl => cases he
  | img => cases he
  | imu => cases he
  | imuPropTimer => cases he
  | spin => cases he

theorem NoRtk.step (hrtk : cfg.rtkEn = false) {w w' : World C} {e : Event C}
    (h : NoRtk w.mapper.meas) (hst : step cfg K w e = some w') : NoRtk w'.mapper.meas := by
  cases e with
  | spin =>
    unfold FastLivo.step spinOnce at hst
    obtain ⟨⟨ok, t⟩, hs, hst⟩ := Option.bind_eq_some_iff.mp hst
    have ht := h.sync hrtk hs
    cases ok with
    | false =>
      cases hst
      exact ht
    | true =>
      obtain ⟨⟨u, out⟩, hp, hst⟩ := Option.bind_eq_some_iff.mp hst
      cases hst
      exact ht.processMeasures cfg K hp
  | imu msg =>
    cases hst
    unfold imuEvent imuCbk
    cases acceptImu cfg msg w.mapper.buf <;> exact h
  | imuPropTimer =>
    cases hst
    exact (imuPropCallback_keeps cfg K w.mapper).meas ▸ h
  | rtk msg =>
    simp only [FastLivo.step, Option.some.injEq] at hst
    subst hst
    split <;> exact h
  | navSatFix msg =>
    simp only [FastLivo.step, Option.some.injEq] at hst
    subst hst
    split <;> exact h
  | standardPcl =>
    cases hst
    exact h
  | livoxPcl =>
    cases hst
    exact h
  | img =>
    cases hst
    exact h

/-- The debug switch only decides whether the GPS topic is subscribed to. -/
theorem step_debug (cfg : Config C) (K : Kernel C) (d : Bool) (w : World C) {e : Event C} (he : e.isRtk = false) :
    FastLivo.step { cfg with debugMode := d } K w e = FastLivo.step cfg K w e := by
  cases e with
  | rtk => cases he
  | navSatFix => cases he
  | standardPcl => rfl
  | livoxPcl => rfl
  | img => rfl
  | imu => rfl
  | imuPropTimer => rfl
  | spin => rfl

end Step

/-- The same mapper with the debug output switched. -/
def Setup.withDebug (S : Setup C) (d : Bool) : Setup C :=
  { S with cfg := { S.cfg with debugMode := d } }

/-- With `rtk_en` off, two runs with the same lidar, IMU and image messages and turns of
the loop have the same local frontend, whatever arrives on the GPS topic. -/
theorem rtk_noninterference (S : Setup C) (hrtk : S.cfg.rtkEn = false) (d : Bool)
    (es fs : List (Event C)) (hes : (es.filter fun e => !e.isRtk) = fs.filter fun e => !e.isRtk) :
    (exec S.step S.init es).map World.localView =
      (exec (S.withDebug d).step (S.withDebug d).init fs).map World.localView := by
  have hvis : ∀ {w w' : World C} {e : Event C}, NoRtk w.mapper.meas → e.isRtk = false →
      w.localView = w'.localView →
      (step S.cfg S.kernel w e).map World.localView =
        (step S.cfg S.kernel w' e).map World.localView := by
    intro w w' e h he hv
    obtain ⟨r, published, hpub, rfl⟩ := exists_withRtk hv
    exact (step_withRtk hrtk h r hpub he).symm
  have hdebug : ∀ (w : World C) {e : Event C}, e.isRtk = false →
      ((S.withDebug d).step w e).map World.localView = (S.step w e).map World.localView :=
    fun w _ he => congrArg (Option.map World.localView) (step_debug S.cfg S.kernel d w he)
  have hrtk' : (S.withDebug d).cfg.rtkEn = false := hrtk
  refine @unwinding _ _ _ S.step (S.withDebug d).step World.localView Event.isRtk
    (fun w => NoRtk w.mapper.meas) (fun w => NoRtk w.mapper.meas)
    (fun _ _ _ h hst => h.step hrtk hst) (fun _ _ _ h hst => h.step hrtk' hst)
    (fun w _ _ he => step_rtk w he) (fun w _ _ he => step_rtk w he) ?_ ?_ es fs hes _ _ ?_ ?_ rfl
  · intro w w' e h _ he hv
    exact (hvis h he hv).trans (hdebug w' he).symm
  · intro w w' e h _ he hv
    exact (hdebug w he).trans ((hvis h he hv).trans (hdebug w' he).symm)
  · simp [NoRtk, Setup.init, LIVMapper.init]
  · simp [NoRtk, Setup.init, LIVMapper.init]

/-- Two LIO–VIO pairs, with and without a valid observation between the messages. -/
theorem rtk_noninterference_run :
    (exec Setup.default.step Setup.default.init twoImages).isSome = true ∧
      (exec Setup.default.step Setup.default.init twoImages).map World.localView =
        (exec (Setup.default.withDebug true).step (Setup.default.withDebug true).init
          (.rtk ⟨0, 0, (), (), (), (), some 0, some 0, true, true, 2⟩ :: twoImages)).map
          World.localView :=
  ⟨by decide +kernel, rtk_noninterference Setup.default rfl true _ _ rfl⟩

end FastLivo
