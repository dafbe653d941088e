import FastLivo.Mapper.OdometryTime

/-!
# The fate of the published clouds

`handleLIO` leaves the world points of its scan in `pcl_w_wait_pub`. With images the next
`handleVIO` collects them in `pcl_wait_pub` and colours what was collected on every
`pub_scan_num`-th message; a colouring that gives no point keeps the collection. Without
images `handleLIO` publishes its points itself. The ghost lists the clouds the LIO steps left.
-/

namespace FastLivo

open Lib

variable {C : Carrier} {cfg : Config C} {K : Kernel C}

/-- Clouds of `/cloud_registered` that were coloured. -/
def colouredClouds (out : List (Output C)) : List (List C.PointRGB) :=
  out.filterMap fun
    | .cloudRegisteredRGB cloud => some cloud
    | _ => none

/-- Clouds of `/cloud_registered` without colours. -/
def plainClouds (out : List (Output C)) : List (List PointType) :=
  out.filterMap fun
    | .cloudRegistered cloud => some cloud
    | _ => none

@[simp] theorem colouredClouds_append (out out' : List (Output C)) :
    colouredClouds (out ++ out') = colouredClouds out ++ colouredClouds out' :=
  List.filterMap_append

@[simp] theorem plainClouds_append (out out' : List (Output C)) :
    plainClouds (out ++ out') = plainClouds out ++ plainClouds out' :=
  List.filterMap_append

/-- World points of a LIO step: of its scan, dense or down-sampled, at the state it ends with. -/
def worldCloud (cfg : Config C) (K : Kernel C) (u : LIVMapper C) : List PointType :=
  if u.est.featsUndistort.isEmpty then []
  else
    (if cfg.denseMapEn then u.est.featsUndistort
      else K.downSizeFilterSurf u.est.featsUndistort).map (K.rgbPointBodyToWorld u.est.state)

/-- The clouds that the LIO steps of a run left. -/
def recordClouds (cfg : Config C) (K : Kernel C) (w : World C) (_ : Event C) (w' : World C)
    (prepared : List (List PointType)) : List (List PointType) :=
  prepared ++ (w'.hist.syncs.drop w.hist.syncs.length).flatMap fun r =>
    if r.flg = .vio then [] else [worldCloud cfg K w'.mapper]

/-- The step of a mapper with the clouds beside it. -/
def Setup.stepClouds (S : Setup C) : World C × List (List PointType) → Event C →
    Option (World C × List (List PointType)) :=
  withGhost S.step (recordClouds S.cfg S.kernel)

/-! ## What one step does to the clouds -/

/-- `publish_frame_world` with images and points to publish. -/
structure Coloured (cfg : Config C) (K : Kernel C) (s u : LIVMapper C) (out : List (Output C))
    (rgb : List C.PointRGB) : Prop where
  colours : rgb = if s.est.pubNum = cfg.pubScanNum then
    K.colorize u.est.vioManager (s.est.pclWaitPub ++ s.est.pclWWaitPub) else []
  coloured : colouredClouds out = [rgb]
  plain : plainClouds out = []
  points : u.est.pclWWaitPub = []
  collected : u.est.pclWaitPub =
    if rgb.isEmpty then s.est.pclWaitPub ++ s.est.pclWWaitPub else []
  pubNum : u.est.pubNum = if s.est.pubNum = cfg.pubScanNum then 1 else s.est.pubNum + 1

theorem publishFrameWorld_coloured (himg : cfg.imgEn = true) {s : LIVMapper C}
    (hne : s.est.pclWWaitPub ≠ []) :
    ∃ rgb, Coloured cfg K s (publishFrameWorld cfg K s).1 (publishFrameWorld cfg K s).2 rgb := by
  have hfull : s.est.pclWWaitPub.isEmpty = false := by simpa using hne
  refine ⟨if s.est.pubNum = cfg.pubScanNum then
    K.colorize s.est.vioManager (s.est.pclWaitPub ++ s.est.pclWWaitPub) else [], ?_⟩
  simp only [publishFrameWorld, hfull, himg, publishCloudRGB, Bool.false_eq_true, if_false, if_true,
    decide_eq_true_eq]
  refine ⟨?_, ?_, ?_, rfl, ?_, ?_⟩
  · simp only [pushLivoState_est]
  · simp [colouredClouds]
  · simp [plainClouds]
  · simp only [pushLivoState_est]
  · simp only [pushLivoState_est]

/-- `publish_frame_world` without images. -/
theorem publishFrameWorld_plain (himg : cfg.imgEn = false) (s : LIVMapper C) :
    (publishFrameWorld cfg K s).1.est.pclWWaitPub = [] ∧
      (publishFrameWorld cfg K s).1.est.featsUndistort = s.est.featsUndistort ∧
      (publishFrameWorld cfg K s).1.est.state = s.est.state ∧
      colouredClouds (publishFrameWorld cfg K s).2 = [] ∧
      plainClouds (publishFrameWorld cfg K s).2 =
        if s.est.pclWWaitPub = [] then [] else [s.est.pclWWaitPub] := by
  unfold publishFrameWorld
  split
  · rename_i hnil
    have hnil' := List.isEmpty_iff.mp hnil
    exact ⟨hnil', rfl, rfl, rfl, by simp [plainClouds, hnil']⟩
  · rename_i hne
    have hne' : s.est.pclWWaitPub ≠ [] := by simpa using hne
    simp only [himg, Bool.false_eq_true, if_false, publishCloud, pushLivoState_est]
    refine ⟨trivial, trivial, trivial, ?_, ?_⟩
    · simp [colouredClouds]
    · simp [plainClouds, hne']

/-- What the work on a measurement does to the clouds. -/
inductive CloudWork (cfg : Config C) (K : Kernel C) (t u : LIVMapper C) (out : List (Output C)) :
    Prop
  /-- A LIO step with images leaves its cloud. -/
  | left (hflg : t.meas.lioVioFlg ≠ .vio) (himg : cfg.imgEn = true)
      (hpoints : u.est.pclWWaitPub =
        if u.est.featsUndistort = [] then t.est.pclWWaitPub else worldCloud cfg K u)
      (hcollected : u.est.pclWaitPub = t.est.pclWaitPub) (hnum : u.est.pubNum = t.est.pubNum)
      (hcoloured : colouredClouds out = []) (hplain : plainClouds out = [])
  /-- A LIO step without images publishes its cloud. -/
  | plain (hflg : t.meas.lioVioFlg ≠ .vio) (himg : cfg.imgEn = false)
      (hpoints : t.est.pclWWaitPub = [] → u.est.pclWWaitPub = [])
      (hcoloured : colouredClouds out = [])
      (hplain : plainClouds out = if worldCloud cfg K u = [] then [] else [worldCloud cfg K u])
  /-- A VIO step finds no points. -/
  | nothing (hflg : t.meas.lioVioFlg = .vio) (hbefore : t.est.pclWWaitPub = [])
      (hpoints : u.est.pclWWaitPub = []) (hcollected : u.est.pclWaitPub = t.est.pclWaitPub)
      (hnum : u.est.pubNum = t.est.pubNum)
      (hcoloured : colouredClouds out = []) (hplain : plainClouds out = [])
  /-- A VIO step publishes. -/
  | coloured (hflg : t.meas.lioVioFlg = .vio) {rgb : List C.PointRGB}
      (hrgb : Coloured cfg K t u out rgb)

theorem updateLio_clouds (rtk : RTK C) {v : LIVMapper C} (hflg : v.meas.lioVioFlg ≠ .vio)
    (hfeats : v.est.featsUndistort ≠ []) :
    CloudWork cfg K v (updateLio cfg K rtk v).1 (updateLio cfg K rtk v).2 := by
  unfold updateLio
  set down := K.downSizeFilterSurf v.est.featsUndistort with hdown
  set s := updateMap cfg K down (estimateLio cfg K rtk down v) with hs
  have hft : s.est.featsUndistort = v.est.featsUndistort := by
    simp [hs, updateMap, estimateLio, finishEkf_est]
  have hwait : s.est.pclWaitPub = v.est.pclWaitPub ∧ s.est.pubNum = v.est.pubNum := by
    simp [hs, updateMap, estimateLio, finishEkf_est]
  have hpoints : s.est.pclWWaitPub = worldCloud cfg K s := by
    have hfull : v.est.featsUndistort.isEmpty = false := by simpa using hfeats
    rw [worldCloud, hft, ← hdown, hfull]
    simp [hs, updateMap, estimateLio, finishEkf_est]
  cases himg : cfg.imgEn with
  | true =>
    simp only [if_true]
    refine .left hflg himg ?_ hwait.1 hwait.2 ?_ ?_
    · change s.est.pclWWaitPub =
        if s.est.featsUndistort = [] then v.est.pclWWaitPub else worldCloud cfg K s
      rw [if_neg (hft ▸ hfeats)]
      exact hpoints
    · simp [colouredClouds, publishOdometry, publishPath, publishMavros]
    · simp [plainClouds, publishOdometry, publishPath, publishMavros]
  | false =>
    obtain ⟨hnone, hfeats', hstate, hcoloured, hplain⟩ :=
      publishFrameWorld_plain (K := K) himg s
    have hcloud : worldCloud cfg K (publishFrameWorld cfg K s).1 = s.est.pclWWaitPub := by
      rw [hpoints, worldCloud, worldCloud, hfeats', hstate]
    simp only [Bool.false_eq_true, if_false]
    refine .plain hflg himg (fun _ => hnone) ?_ ?_
    · rw [List.cons_append, ← List.singleton_append, colouredClouds_append, colouredClouds_append,
        hcoloured]
      simp [colouredClouds, publishOdometry, publishPath, publishMavros]
    · rw [List.cons_append, ← List.singleton_append, plainClouds_append, plainClouds_append, hplain]
      have hpath : worldCloud cfg K (publishPath (publishFrameWorld cfg K s).1).1 =
          s.est.pclWWaitPub := hcloud
      rw [hpath]
      simp [plainClouds, publishOdometry, publishPath, publishMavros]

theorem updateVio_clouds (himg : cfg.imgEn = true) (m : MeasureGroup C) {v : LIVMapper C}
    (hflg : v.meas.lioVioFlg = .vio) (hne : v.est.pclWWaitPub ≠ []) :
    CloudWork cfg K v (updateVio cfg K m v).1 (updateVio cfg K m v).2 := by
  obtain ⟨hpoints, -, -⟩ := estimateVio_est cfg K m v
  have hframe : (estimateVio cfg K m v).est.pclWaitPub = v.est.pclWaitPub ∧
      (estimateVio cfg K m v).est.pubNum = v.est.pubNum := by
    simp [estimateVio, finishEkf_est]
  obtain ⟨rgb, h⟩ := publishFrameWorld_coloured (K := K) himg
    (s := estimateVio cfg K m v) (hpoints ▸ hne)
  refine .coloured hflg (⟨?_, ?_, ?_, h.points, ?_, ?_⟩ : Coloured cfg K _ _ _ rgb)
  · rw [← hpoints, ← hframe.1, ← hframe.2]
    exact h.colours
  · simpa [updateVio, colouredClouds] using h.coloured
  · simpa [updateVio, plainClouds] using h.plain
  · rw [← hpoints, ← hframe.1]
    exact h.collected
  · rw [← hframe.2]
    exact h.pubNum

theorem stateEstimationAndMapping_clouds {v u : LIVMapper C} {out : List (Output C)}
    (hvio : v.meas.lioVioFlg = .vio → cfg.imgEn = true) (hwait : v.meas.lioVioFlg ≠ .wait)
    (h : stateEstimationAndMapping cfg K v = some (u, out)) : CloudWork cfg K v u out := by
  have hlio : v.meas.lioVioFlg ≠ .vio → handleLio cfg K v = some (u, out) →
      CloudWork cfg K v u out := by
    intro hflg h
    unfold handleLio at h
    split at h
    · rename_i hnil
      obtain ⟨rfl, rfl⟩ := Prod.mk.inj (Option.some.inj h)
      have hfeats := List.isEmpty_iff.mp hnil
      cases himg : cfg.imgEn with
      | true => exact .left hflg himg (by simp [hfeats]) rfl rfl rfl rfl
      | false => exact .plain hflg himg id rfl (by simp [worldCloud, hfeats, plainClouds])
    · rename_i hfeats
      obtain ⟨m, -, hm⟩ := Option.map_eq_some_iff.mp h
      obtain ⟨rfl, rfl⟩ := Prod.mk.inj hm
      exact updateLio_clouds m.rtk hflg (by simpa using hfeats)
  unfold stateEstimationAndMapping at h
  cases hflg : v.meas.lioVioFlg with
  | wait => exact absurd hflg hwait
  | lio =>
    rw [hflg] at h
    exact hlio (by simp [hflg]) h
  | lo =>
    rw [hflg] at h
    exact hlio (by simp [hflg]) h
  | vio =>
    rw [hflg] at h
    simp only [handleVio] at h
    split at h
    · rename_i hnil
      obtain ⟨rfl, rfl⟩ := Prod.mk.inj (Option.some.inj h)
      have hpoints := List.isEmpty_iff.mp hnil
      exact .nothing hflg hpoints hpoints rfl rfl rfl rfl
    · rename_i hpub
      obtain ⟨m, -, hm⟩ := Option.map_eq_some_iff.mp h
      obtain ⟨rfl, rfl⟩ := Prod.mk.inj hm
      exact updateVio_clouds (hvio hflg) m hflg (by simpa using hpub)

theorem gravityAlignment_clouds (K : Kernel C) (s : LIVMapper C) :
    (gravityAlignment K s).est.pclWaitPub = s.est.pclWaitPub ∧
      (gravityAlignment K s).est.pubNum = s.est.pubNum := by
  unfold gravityAlignment
  split <;> exact ⟨rfl, rfl⟩

theorem processImu_clouds {t v : LIVMapper C}
    (h : processImu cfg K (handleFirstFrame t) = some v) :
    v.est.pclWaitPub = t.est.pclWaitPub ∧ v.est.pubNum = t.est.pubNum := by
  obtain ⟨hcollected, hnum⟩ : (handleFirstFrame t).est.pclWaitPub = t.est.pclWaitPub ∧
      (handleFirstFrame t).est.pubNum = t.est.pubNum := by
    unfold handleFirstFrame
    split <;> exact ⟨rfl, rfl⟩
  unfold processImu at h
  obtain ⟨⟨imu, meas, state, feats⟩, -, hv⟩ := Option.bind_eq_some_iff.mp h
  obtain rfl := Option.some.inj hv
  by_cases hgrav : cfg.gravityAlignEn = true
  · simp only [hgrav, if_true]
    obtain ⟨hcollected', hnum'⟩ := gravityAlignment_clouds K
      { handleFirstFrame t with
        imu := imu, meas := meas
        est := { (handleFirstFrame t).est with state := state, featsUndistort := feats } }
    exact ⟨hcollected'.trans hcollected, hnum'.trans hnum⟩
  · simp only [hgrav]
    exact ⟨hcollected, hnum⟩

theorem processMeasures_clouds {t u : LIVMapper C} {out : List (Output C)}
    (hvio : t.meas.lioVioFlg = .vio → cfg.imgEn = true) (hwait : t.meas.lioVioFlg ≠ .wait)
    (h : processMeasures cfg K t = some (u, out)) : CloudWork cfg K t u out := by
  obtain ⟨v, himu, hest⟩ := Option.bind_eq_some_iff.mp h
  have hp := processImu_prepared himu
  obtain ⟨hcollected, hnum⟩ := processImu_clouds himu
  have hflg := hp.flg
  rw [← hflg] at hvio hwait
  cases stateEstimationAndMapping_clouds hvio hwait hest with
  | left hf himg hpoints hc hn hcol hpl =>
    rw [hp.points] at hpoints
    exact .left (hflg ▸ hf) himg hpoints (hc.trans hcollected) (hn.trans hnum) hcol hpl
  | plain hf himg hpoints hcol hpl =>
    rw [hp.points] at hpoints
    exact .plain (hflg ▸ hf) himg hpoints hcol hpl
  | nothing hf hbefore hpoints hc hn hcol hpl =>
    rw [hp.points] at hbefore
    exact .nothing (hflg ▸ hf) hbefore hpoints (hc.trans hcollected) (hn.trans hnum) hcol hpl
  | coloured hf hrgb =>
    refine .coloured (hflg ▸ hf) ⟨?_, hrgb.coloured, hrgb.plain, hrgb.points, ?_, ?_⟩
    · rw [← hp.points, ← hcollected, ← hnum]
      exact hrgb.colours
    · rw [← hp.points, ← hcollected]
      exact hrgb.collected
    · rw [← hnum]
      exact hrgb.pubNum

theorem step_callback_clouds {w w' : World C} {e : Event C} (h : step cfg K w e = some w')
    (he : e ≠ .spin) : ∃ out, w'.hist.published = w.hist.published ++ out ∧
      colouredClouds out = [] ∧ plainClouds out = [] := by
  cases e with
  | standardPcl | livoxPcl | img =>
    obtain rfl := Option.some.inj h
    exact ⟨[], by simp [World.setBuf], rfl, rfl⟩
  | imu msg =>
    obtain rfl := Option.some.inj h
    exact ⟨[], by simp [imuEvent], rfl, rfl⟩
  | rtk msg =>
    simp only [step, Option.some.injEq] at h
    subst h
    split
    · exact ⟨_, rfl, by simp [rtkCbk, colouredClouds], by simp [rtkCbk, plainClouds]⟩
    · exact ⟨[], by simp, rfl, rfl⟩
  | navSatFix msg =>
    simp only [step, Option.some.injEq] at h
    subst h
    split
    · refine ⟨_, rfl, ?_, ?_⟩
      · unfold navsatfixCbk
        split <;> simp [colouredClouds]
      · unfold navsatfixCbk
        split <;> simp [plainClouds]
    · exact ⟨[], by simp, rfl, rfl⟩
  | imuPropTimer =>
    obtain rfl := Option.some.inj h
    refine ⟨_, rfl, ?_, ?_⟩
    · unfold imuPropCallback
      split
      · rfl
      · simp only
        split <;> simp [colouredClouds]
    · unfold imuPropCallback
      split
      · rfl
      · simp only
        split <;> simp [plainClouds]
  | spin => exact absurd rfl he

/-! ## Runs -/

/-- `pub_num` counts the messages since the last one that was coloured. -/
def Turn (pubScanNum : ℤ) (count : ℕ) (pubNum : ℤ) : Prop :=
  1 ≤ pubNum ∧
    if 0 < pubScanNum then pubNum ≤ pubScanNum ∧ pubScanNum ∣ count + 1 - pubNum
    else pubNum = count + 1

theorem Turn.next {n num : ℤ} {count : ℕ} (h : Turn n count num) :
    Turn n (count + 1) (if num = n then 1 else num + 1) := by
  obtain ⟨hpos, hturn⟩ := h
  by_cases hn : 0 < n
  · rw [if_pos hn] at hturn
    obtain ⟨hle, hdvd⟩ := hturn
    by_cases hlast : num = n
    · subst hlast
      refine ⟨by rw [if_pos rfl], ?_⟩
      rw [if_pos hn, if_pos rfl]
      have hcount := dvd_add hdvd (dvd_refl num)
      push_cast
      exact ⟨by omega, by simpa using hcount⟩
    · refine ⟨by rw [if_neg hlast]; omega, ?_⟩
      rw [if_pos hn, if_neg hlast]
      push_cast
      refine ⟨by omega, ?_⟩
      have heq : (count : ℤ) + 1 + 1 - (num + 1) = count + 1 - num := by omega
      rw [heq]
      exact hdvd
  · rw [if_neg hn] at hturn
    have hne : num ≠ n := by omega
    refine ⟨by rw [if_neg hne]; omega, ?_⟩
    rw [if_neg hn, if_neg hne]
    push_cast
    omega

/-- The message is coloured in its turn only. -/
theorem Turn.dvd {n num : ℤ} {count : ℕ} (h : Turn n count num) (hlast : num = n) :
    0 < n ∧ n ∣ (count + 1 : ℕ) := by
  obtain ⟨hpos, hturn⟩ := h
  have hn : 0 < n := by omega
  rw [if_pos hn, hlast] at hturn
  have hcount := dvd_add hturn.2 (dvd_refl n)
  refine ⟨hn, ?_⟩
  push_cast
  simpa using hcount

/-- The clouds of a mapper with camera and lidar: the coloured ones come from batches of whole
clouds, each cloud is in one batch or still waits, and the order is kept. -/
structure ColouredOf (cfg : Config C) (K : Kernel C) (w : World C)
    (prepared : List (List PointType)) : Prop where
  batches : ∃ (batches : List (C.VIOManager × List (List PointType)))
      (waiting : List (List PointType)),
    (colouredClouds w.hist.published).filter (!·.isEmpty) =
        batches.map (fun b => K.colorize b.1 b.2.flatten) ∧
      batches.flatMap (·.2) ++ waiting = prepared ∧
      waiting.flatten = w.mapper.est.pclWaitPub ++ w.mapper.est.pclWWaitPub
  turn : ∀ k cloud, (colouredClouds w.hist.published)[k]? = some cloud → cloud ≠ [] →
    0 < cfg.pubScanNum ∧ cfg.pubScanNum ∣ (k + 1 : ℕ)
  plain : plainClouds w.hist.published = []

/-- Points are left for the next VIO step only, and `pub_num` is in step with the messages. -/
structure ColouredInv (cfg : Config C) (K : Kernel C) (w : World C)
    (prepared : List (List PointType)) : Prop extends ColouredOf cfg K w prepared where
  points : w.mapper.est.pclWWaitPub ≠ [] → w.mapper.meas.lioVioFlg = .lio
  count : Turn cfg.pubScanNum (colouredClouds w.hist.published).length w.mapper.est.pubNum

section Coloured

variable {w w' : World C} {prepared : List (List PointType)} {t : LIVMapper C}
  {out : List (Output C)}

theorem ColouredInv.quiet (h : ColouredInv cfg K w prepared)
    (hpub : w'.hist.published = w.hist.published ++ out) (hcoloured : colouredClouds out = [])
    (hplain : plainClouds out = []) (hest : w'.mapper.est.pclWWaitPub = w.mapper.est.pclWWaitPub)
    (hcollected : w'.mapper.est.pclWaitPub = w.mapper.est.pclWaitPub)
    (hnum : w'.mapper.est.pubNum = w.mapper.est.pubNum)
    (hflg : w.mapper.est.pclWWaitPub ≠ [] →
      w'.mapper.meas.lioVioFlg = w.mapper.meas.lioVioFlg) :
    ColouredInv cfg K w' prepared := by
  have hclouds : colouredClouds w'.hist.published = colouredClouds w.hist.published := by
    rw [hpub, colouredClouds_append, hcoloured, List.append_nil]
  refine ⟨⟨?_, ?_, ?_⟩, ?_, ?_⟩
  · rw [hclouds, hest, hcollected]
    exact h.batches
  · rw [hclouds]
    exact h.turn
  · rw [hpub, plainClouds_append, hplain, List.append_nil]
    exact h.plain
  · rw [hest]
    intro hne
    exact (hflg hne).trans (h.points hne)
  · rw [hclouds, hnum]
    exact h.count

/-- A LIO step adds its cloud to those that wait. -/
theorem ColouredInv.left (h : ColouredInv cfg K w prepared) (hbefore : w.mapper.est.pclWWaitPub = [])
    {cloud : List PointType} (hpub : w'.hist.published = w.hist.published ++ out)
    (hcoloured : colouredClouds out = []) (hplain : plainClouds out = [])
    (hpoints : w'.mapper.est.pclWWaitPub = cloud)
    (hcollected : w'.mapper.est.pclWaitPub = w.mapper.est.pclWaitPub)
    (hnum : w'.mapper.est.pubNum = w.mapper.est.pubNum)
    (hflg : w'.mapper.meas.lioVioFlg = .lio) : ColouredInv cfg K w' (prepared ++ [cloud]) := by
  have hclouds : colouredClouds w'.hist.published = colouredClouds w.hist.published := by
    rw [hpub, colouredClouds_append, hcoloured, List.append_nil]
  obtain ⟨batches, waiting, hbatches, hall, hwaiting⟩ := h.batches
  refine ⟨⟨⟨batches, waiting ++ [cloud], ?_, ?_, ?_⟩, ?_, ?_⟩, fun _ => hflg, ?_⟩
  · rw [hclouds]
    exact hbatches
  · rw [← List.append_assoc, hall]
  · rw [List.flatten_append, hwaiting, hbefore, hpoints, hcollected]
    simp
  · rw [hclouds]
    exact h.turn
  · rw [hpub, plainClouds_append, hplain, List.append_nil]
    exact h.plain
  · rw [hclouds, hnum]
    exact h.count

/-- A VIO step colours all that wait, or keeps all. -/
theorem ColouredInv.coloured (h : ColouredInv cfg K w prepared) {u : LIVMapper C}
    {rgb : List C.PointRGB} (hrgb : Coloured cfg K w.mapper u out rgb)
    (hmapper : w'.mapper = u) (hpub : w'.hist.published = w.hist.published ++ out) :
    ColouredInv cfg K w' prepared := by
  subst hmapper
  have hclouds : colouredClouds w'.hist.published = colouredClouds w.hist.published ++ [rgb] := by
    rw [hpub, colouredClouds_append, hrgb.coloured]
  obtain ⟨batches, waiting, hbatches, hall, hwaiting⟩ := h.batches
  have hturn : rgb ≠ [] → w.mapper.est.pubNum = cfg.pubScanNum ∧
      rgb = K.colorize w'.mapper.est.vioManager waiting.flatten := by
    intro hne
    have hcolours := hrgb.colours
    split at hcolours
    · rename_i hlast
      exact ⟨hlast, hwaiting ▸ hcolours⟩
    · exact absurd hcolours hne
  refine ⟨⟨?_, ?_, ?_⟩, fun hne => absurd hrgb.points hne, ?_⟩
  · by_cases hnil : rgb = []
    · refine ⟨batches, waiting, ?_, hall, ?_⟩
      · rw [hclouds, List.filter_append, hbatches, hnil]
        simp
      · rw [hrgb.collected, hrgb.points, hnil, hwaiting]
        simp
    · refine ⟨batches ++ [(w'.mapper.est.vioManager, waiting)], [], ?_, ?_, ?_⟩
      · rw [hclouds, List.filter_append, hbatches, List.map_append, List.map_singleton,
          ← (hturn hnil).2]
        simp [hnil]
      · rw [List.flatMap_append, List.flatMap_singleton, List.append_nil]
        exact hall
      · rw [hrgb.collected, hrgb.points]
        simp [hnil]
  · intro k cloud hk hne
    rw [hclouds] at hk
    rcases Nat.lt_or_ge k (colouredClouds w.hist.published).length with hlt | hge
    · rw [List.getElem?_append_left hlt] at hk
      exact h.turn k cloud hk hne
    · rw [List.getElem?_append_right hge] at hk
      obtain ⟨hlt, hcloud⟩ := List.getElem?_eq_some_iff.mp hk
      rw [List.length_singleton] at hlt
      obtain rfl : k = (colouredClouds w.hist.published).length := by omega
      obtain rfl : rgb = cloud := by simpa using hcloud
      exact h.count.dvd (hturn hne).1
  · rw [hpub, plainClouds_append, hrgb.plain, List.append_nil]
    exact h.plain
  · rw [hclouds, hrgb.pubNum, List.length_append, List.length_singleton]
    exact h.count.next

theorem LivoSync.clouds {s t : LIVMapper C} {ok : Bool} (h : LivoSync cfg s ok t) :
    t.est.pclWWaitPub = s.est.pclWWaitPub ∧ t.est.pclWaitPub = s.est.pclWaitPub ∧
      t.est.pubNum = s.est.pubNum ∧ (ok = false → t.meas.lioVioFlg = s.meas.lioVioFlg) := by
  have himage (time : Double) (est : Estimation C) :
      (atImage cfg time est).pclWWaitPub = est.pclWWaitPub ∧
        (atImage cfg time est).pclWaitPub = est.pclWaitPub ∧
        (atImage cfg time est).pubNum = est.pubNum := by
    unfold atImage
    split <;> exact ⟨rfl, rfl, rfl⟩
  cases h with
  | idle => exact ⟨rfl, rfl, rfl, fun _ => rfl⟩
  | hold | throwImage =>
    obtain ⟨hpoints, hcollected, hnum⟩ := himage _ s.est
    exact ⟨hpoints, hcollected, hnum, fun _ => rfl⟩
  | lio =>
    obtain ⟨hpoints, hcollected, hnum⟩ := himage _ s.est
    exact ⟨hpoints, hcollected, hnum, nofun⟩
  | vio => exact ⟨rfl, rfl, rfl, nofun⟩

theorem recordClouds_quiet (e : Event C) (h : w'.hist.syncs = w.hist.syncs) :
    recordClouds cfg K w e w' prepared = prepared := by
  rw [recordClouds, h, List.drop_length, List.flatMap_nil, List.append_nil]

theorem recordClouds_wait :
    recordClouds cfg K w .spin ⟨t, w.hist.recordSync w.mapper false t⟩ prepared = prepared :=
  recordClouds_quiet .spin rfl

theorem recordClouds_sync {u : LIVMapper C} {hist : History C} (e : Event C)
    (h : hist.syncs = w.hist.syncs ++ [.of w.mapper t]) :
    recordClouds cfg K w e ⟨u, hist⟩ prepared =
      prepared ++ if t.meas.lioVioFlg = .vio then [] else [worldCloud cfg K u] := by
  rw [recordClouds, h, List.drop_left, List.flatMap_singleton]
  rfl

theorem ColouredInv.step {e : Event C} (hm : cfg.slamMode = .livo)
    (h : ColouredInv cfg K w prepared) (hst : step cfg K w e = some w') :
    ColouredInv cfg K w' (recordClouds cfg K w e w' prepared) := by
  obtain ⟨himg, -⟩ := Config.slamMode_livo hm
  by_cases he : e = .spin
  · subst he
    cases spinOnce_cases hst with
    | @wait t hs =>
      obtain ⟨hpoints, hcollected, hnum, hflg⟩ := (syncPackages_livo hm hs).clouds
      rw [recordClouds_wait]
      have hpub : (w.hist.recordSync w.mapper false t).published = w.hist.published ++ [] := by
        simp [History.recordSync]
      exact h.quiet hpub rfl rfl hpoints hcollected hnum fun _ => hflg rfl
    | @sync t u out hs hwork =>
      have hsync := syncPackages_livo hm hs
      obtain ⟨hpoints, hcollected, hnum, -⟩ := hsync.clouds
      obtain ⟨_, _, _, hmeas⟩ := (processMeasures_cases hwork).meas
      have hflg : u.meas.lioVioFlg = t.meas.lioVioFlg := by rw [hmeas]
      have hkind := hsync.lio_or_vio
      rw [recordClouds_sync (t := t) _ (by simp [History.recordSync])]
      cases processMeasures_clouds (fun _ => himg)
        (by rcases hkind with hk | hk <;> simp [hk]) hwork with
      | left hf _ hp hc hn hcol hpl =>
        have hlio : t.meas.lioVioFlg = .lio := hkind.resolve_right hf
        have hbefore : w.mapper.est.pclWWaitPub = [] := by
          by_contra hne
          cases hsync with
          | lio hbefore => exact hbefore (h.points hne)
          | vio => cases hlio
        have hcloud : u.est.pclWWaitPub = worldCloud cfg K u := by
          rw [hp]
          split
          · rename_i hfeats
            rw [hpoints, hbefore, worldCloud, hfeats]
            rfl
          · rfl
        rw [if_neg hf]
        exact h.left hbefore rfl hcol hpl hcloud (hc.trans hcollected) (hn.trans hnum)
          (hflg.trans hlio)
      | plain _ hoff => simp [himg] at hoff
      | nothing hf hbefore hp hc hn hcol hpl =>
        rw [if_pos hf, List.append_nil]
        rw [hpoints] at hbefore
        exact h.quiet rfl hcol hpl (hp.trans hbefore.symm) (hc.trans hcollected) (hn.trans hnum)
          fun hne => absurd hbefore hne
      | coloured hf hrgb =>
        rw [if_pos hf, List.append_nil]
        refine h.coloured (u := u) ⟨?_, hrgb.coloured, hrgb.plain, hrgb.points, ?_, ?_⟩ rfl rfl
        · rw [← hpoints, ← hcollected, ← hnum]
          exact hrgb.colours
        · rw [← hpoints, ← hcollected]
          exact hrgb.collected
        · rw [← hnum]
          exact hrgb.pubNum
  · have hf := step_callback hst he
    obtain ⟨out, hpub, hcol, hpl⟩ := step_callback_clouds hst he
    rw [recordClouds_quiet _ hf.syncs]
    exact h.quiet hpub hcol hpl (by rw [hf.est]) (by rw [hf.est]) (by rw [hf.est])
      fun _ => by rw [hf.meas]

end Coloured

section Uncoloured

variable {w w' : World C} {prepared : List (List PointType)}

theorem syncPackages_uncoloured {s t : LIVMapper C} {ok : Bool} (hm : cfg.slamMode ≠ .livo)
    (h : syncPackages cfg s = some (ok, t)) :
    t.est.pclWWaitPub = s.est.pclWWaitPub ∧
      (ok = true → t.meas.lioVioFlg = .lio ∨ t.meas.lioVioFlg = .lo) := by
  have hscan {m : LIVMapper C} (hscan : ScanPushed s m) : m.est = s.est := by
    cases hscan <;> rfl
  cases hmode : cfg.slamMode with
  | livo => exact absurd hmode hm
  | onlyLio =>
    cases syncPackages_onlyLio hmode h with
    | idle | refuse => exact ⟨rfl, nofun⟩
    | wait hs => exact ⟨by rw [hscan hs], nofun⟩
    | deliver hs =>
      refine ⟨?_, fun _ => .inl rfl⟩
      rw [← hscan hs]
      split <;> rfl
  | onlyLo =>
    cases syncPackages_onlyLo hmode h with
    | idle => exact ⟨rfl, nofun⟩
    | deliver => exact ⟨rfl, fun _ => .inr rfl⟩

/-- The clouds of a mapper without VIO steps: published as they are without images, and never
with images but no lidar. -/
structure UncolouredInv (cfg : Config C) (w : World C) (prepared : List (List PointType)) :
    Prop where
  points : cfg.imgEn = false → w.mapper.est.pclWWaitPub = []
  coloured : colouredClouds w.hist.published = []
  plain : plainClouds w.hist.published =
    if cfg.imgEn then [] else prepared.filter (!·.isEmpty)

theorem UncolouredInv.quiet {out : List (Output C)} (h : UncolouredInv cfg w prepared)
    (hpub : w'.hist.published = w.hist.published ++ out) (hcoloured : colouredClouds out = [])
    (hplain : plainClouds out = [])
    (hpoints : w'.mapper.est.pclWWaitPub = w.mapper.est.pclWWaitPub) :
    UncolouredInv cfg w' prepared := by
  refine ⟨fun himg => hpoints.trans (h.points himg), ?_, ?_⟩
  · rw [hpub, colouredClouds_append, h.coloured, hcoloured, List.append_nil]
  · rw [hpub, plainClouds_append, hplain, List.append_nil, h.plain]

theorem UncolouredInv.step {e : Event C} (hm : cfg.slamMode ≠ .livo)
    (h : UncolouredInv cfg w prepared) (hst : step cfg K w e = some w') :
    UncolouredInv cfg w' (recordClouds cfg K w e w' prepared) := by
  by_cases he : e = .spin
  · subst he
    cases spinOnce_cases hst with
    | @wait t hs =>
      rw [recordClouds_wait]
      have hpub : (w.hist.recordSync w.mapper false t).published = w.hist.published ++ [] := by
        simp [History.recordSync]
      exact h.quiet hpub rfl rfl (syncPackages_uncoloured hm hs).1
    | @sync t u out hs hwork =>
      obtain ⟨hpoints, hflg⟩ := syncPackages_uncoloured hm hs
      have hnovio : t.meas.lioVioFlg ≠ .vio := by
        rcases hflg rfl with hf | hf <;> simp [hf]
      rw [recordClouds_sync (t := t) _ (by simp [History.recordSync]), if_neg hnovio]
      cases processMeasures_clouds (fun hvio => absurd hvio hnovio)
        (by rcases hflg rfl with hf | hf <;> simp [hf]) hwork with
      | left _ himg _ _ _ hcol hpl =>
        refine ⟨fun hoff => by simp [himg] at hoff, ?_, ?_⟩
        · rw [colouredClouds_append, h.coloured, hcol, List.append_nil]
        · rw [plainClouds_append, h.plain, hpl, if_pos himg, if_pos himg, List.append_nil]
      | plain _ himg hp hcol hpl =>
        refine ⟨fun _ => hp (hpoints.trans (h.points himg)), ?_, ?_⟩
        · rw [colouredClouds_append, h.coloured, hcol, List.append_nil]
        · rw [plainClouds_append, h.plain, hpl, himg]
          simp only [Bool.false_eq_true, if_false, List.filter_append]
          congr 1
          split
          · rename_i hnil
            simp [hnil]
          · rename_i hne
            simp [hne]
      | nothing hf => exact absurd hf hnovio
      | coloured hf => exact absurd hf hnovio
  · have hf := step_callback hst he
    obtain ⟨out, hpub, hcol, hpl⟩ := step_callback_clouds hst he
    rw [recordClouds_quiet _ hf.syncs]
    exact h.quiet hpub hcol hpl (by rw [hf.est])

end Uncoloured

theorem uncolouredInv_of_reach (S : Setup C) (hm : S.cfg.slamMode ≠ .livo) {w : World C}
    {prepared : List (List PointType)}
    (h : Reach S.stepClouds (fun _ _ => True) (S.init, []) (w, prepared)) :
    UncolouredInv S.cfg w prepared := by
  refine h.invariant (I := fun p => UncolouredInv S.cfg p.1 p.2) ?_ ?_
  · exact ⟨fun _ => rfl, rfl, by simp [Setup.init, plainClouds]⟩
  · intro p q e _ hinv _ hst
    obtain ⟨hstep, hlog⟩ := withGhost_cases hst
    rw [hlog]
    exact hinv.step hm hstep

theorem colouredInv_of_reach (S : Setup C) (hm : S.cfg.slamMode = .livo) {w : World C}
    {prepared : List (List PointType)}
    (h : Reach S.stepClouds (fun _ _ => True) (S.init, []) (w, prepared)) :
    ColouredInv S.cfg S.kernel w prepared := by
  refine h.invariant (I := fun p => ColouredInv S.cfg S.kernel p.1 p.2) ?_ ?_
  · refine ⟨⟨⟨[], [], rfl, rfl, rfl⟩, fun k cloud hk => ?_, rfl⟩, fun hne => absurd rfl hne, ?_⟩
    · simp [Setup.init, colouredClouds] at hk
    · refine ⟨le_refl _, ?_⟩
      split
      · rename_i hpos
        exact ⟨hpos, by simp [Setup.init, colouredClouds, LIVMapper.init]⟩
      · simp [Setup.init, colouredClouds, LIVMapper.init]
  · intro p q e _ hinv _ hst
    obtain ⟨hstep, hlog⟩ := withGhost_cases hst
    rw [hlog]
    exact hinv.step hm hstep

/-- With camera and lidar every cloud of a LIO step waits or went, whole and in order, into one
batch that was coloured, and only every `pub_scan_num`-th message can carry points. Without
images the clouds that have points are published as they are. With images but without lidar none
is published. -/
theorem clouds_published (S : Setup C) (w : World C) (prepared : List (List PointType))
    (h : Reach S.stepClouds (fun _ _ => True) (S.init, []) (w, prepared)) :
    (S.cfg.imgEn = true → S.cfg.lidarEn = true → ColouredOf S.cfg S.kernel w prepared) ∧
      (S.cfg.imgEn = false → w.mapper.est.pclWWaitPub = [] ∧
        plainClouds w.hist.published = prepared.filter (!·.isEmpty)) ∧
      (S.cfg.imgEn = true → S.cfg.lidarEn = false →
        colouredClouds w.hist.published = [] ∧ plainClouds w.hist.published = []) := by
  refine ⟨fun himg hlidar => (colouredInv_of_reach S ?_ h).toColouredOf, fun himg => ?_,
    fun himg hlidar => ?_⟩
  · simp [Config.slamMode, himg, hlidar]
  · have hm : S.cfg.slamMode ≠ .livo := fun hm => by simp [(Config.slamMode_livo hm).1] at himg
    have hinv := uncolouredInv_of_reach S hm h
    exact ⟨hinv.points himg, by simpa [himg] using hinv.plain⟩
  · have hm : S.cfg.slamMode ≠ .livo := fun hm => by simp [(Config.slamMode_livo hm).2] at hlidar
    have hinv := uncolouredInv_of_reach S hm h
    exact ⟨hinv.coloured, by simpa [himg] using hinv.plain⟩

/-- Two pairs of a LIO and a VIO step; the second one has points. -/
theorem clouds_published_twoImages : ∃ w prepared,
    exec Setup.default.stepClouds (Setup.default.init, []) twoImages = some (w, prepared) ∧
      prepared.flatten ≠ [] ∧ ColouredOf Setup.default.cfg Setup.default.kernel w prepared := by
  have hrun : (exec Setup.default.stepClouds (Setup.default.init, []) twoImages).any
      (fun p => !p.2.flatten.isEmpty) = true := by decide +kernel
  obtain ⟨⟨w, prepared⟩, hexec, hpoints⟩ := exists_exec_of_any _ hrun
  exact ⟨w, prepared, hexec, by simpa using hpoints,
    (clouds_published Setup.default w prepared (.of_exec hexec)).1 rfl rfl⟩

end FastLivo
