import FastLivo.Mapper.Publication

/-!
# The saved clouds

With `pcd_save_en` every cloud that `publish_frame_world` publishes is appended to a cloud that
waits. With a positive `pcd_save_interval` that cloud is written to a file after so many
publications, with a negative one `savePCD` writes it once `run` ends, with images also
down-sampled.
-/

namespace FastLivo

open Lib

variable {C : Carrier}

/-- Parameters of the saving. -/
structure PcdConfig (C : Carrier) where
  pcdSaveEn : Bool := false
  pcdSaveInterval : ℤ := -1
  /-- `voxel_filter` of `savePCD`, with its leaf size. -/
  voxelFilter : List C.PointRGB → List C.PointRGB

/-- The points of a file. -/
inductive PcdCloud (C : Carrier)
  | rgb (cloud : List C.PointRGB)
  | intensity (cloud : List PointType)

/-- A file in `Log/PCD`. -/
inductive PcdFile (C : Carrier)
  /-- The number `pcd_index` and `.pcd`. -/
  | scans (pcdIndex : ℕ) (cloud : PcdCloud C)
  | allRawPoints (cloud : PcdCloud C)
  | allDownsampledPoints (cloud : PcdCloud C)

/-- The clouds that wait, what counts them, and the files. -/
structure PcdSave (C : Carrier) where
  pclWaitSave : List C.PointRGB := []
  pclWaitSaveIntensity : List PointType := []
  scanWaitNum : ℕ := 0
  pcdIndex : ℕ := 0
  files : List (PcdFile C) := []

/-- Whether there are points to save. -/
def PcdSave.hasPoints (s : PcdSave C) : Bool :=
  !s.pclWaitSave.isEmpty || !s.pclWaitSaveIntensity.isEmpty

/-- Whether `publish_frame_world` writes a file. -/
def PcdSave.due (pcd : PcdConfig C) (s : PcdSave C) : Bool :=
  s.hasPoints && decide (0 < pcd.pcdSaveInterval) && decide (pcd.pcdSaveInterval ≤ s.scanWaitNum)

/-- The last part of `publish_frame_world`. `img_en` decides which cloud it published before, and
which one it saves. -/
def saveCloud (pcd : PcdConfig C) (s : PcdSave C) : Output C → PcdSave C
  | .cloudRegisteredRGB laserCloudWorldRGB =>
    if pcd.pcdSaveEn then
      let s := { s with
        pclWaitSave := s.pclWaitSave ++ laserCloudWorldRGB, scanWaitNum := s.scanWaitNum + 1 }
      if s.due pcd then
        { s with
          pclWaitSave := [], scanWaitNum := 0, pcdIndex := s.pcdIndex + 1
          files := s.files ++ [.scans (s.pcdIndex + 1) (.rgb s.pclWaitSave)] }
      else s
    else s
  | .cloudRegistered pclWWaitPub =>
    if pcd.pcdSaveEn then
      let s := { s with
        pclWaitSaveIntensity := s.pclWaitSaveIntensity ++ pclWWaitPub
        scanWaitNum := s.scanWaitNum + 1 }
      if s.due pcd then
        { s with
          pclWaitSaveIntensity := [], scanWaitNum := 0, pcdIndex := s.pcdIndex + 1
          files := s.files ++ [.scans (s.pcdIndex + 1) (.intensity s.pclWaitSaveIntensity)] }
      else s
    else s
  | _ => s

/-- `savePCD`: the files there are in the end. -/
def savePCD (pcd : PcdConfig C) (imgEn : Bool) (s : PcdSave C) : List (PcdFile C) :=
  if pcd.pcdSaveEn && s.hasPoints && decide (pcd.pcdSaveInterval < 0) then
    if imgEn then
      s.files ++ [.allRawPoints (.rgb s.pclWaitSave),
        .allDownsampledPoints (.rgb (pcd.voxelFilter s.pclWaitSave))]
    else s.files ++ [.allRawPoints (.intensity s.pclWaitSaveIntensity)]
  else s.files

/-- What a step of the mapper saves. -/
def recordSaves (pcd : PcdConfig C) (p : World C × List (List PointType)) (_ : Event C)
    (q : World C × List (List PointType)) (s : PcdSave C) : PcdSave C :=
  (q.1.hist.published.drop p.1.hist.published.length).foldl (saveCloud pcd) s

/-- The step of a mapper with the clouds and what is saved beside it. -/
def Setup.stepSaves (S : Setup C) (pcd : PcdConfig C) :
    (World C × List (List PointType)) × PcdSave C → Event C →
      Option ((World C × List (List PointType)) × PcdSave C) :=
  withGhost S.stepClouds (recordSaves pcd)

/-! ## Batches of clouds -/

variable {α : Type*}

/-- A cloud that waits, the clouds it was made of, and the clouds that left. -/
structure SaveBuffer (α : Type*) where
  wait : List α := []
  scanWaitNum : ℕ := 0
  files : List (List α) := []
  deriving DecidableEq, Repr

/-- A cloud more. -/
def SaveBuffer.add (pcdSaveInterval : ℤ) (s : SaveBuffer α) (cloud : List α) : SaveBuffer α :=
  let wait := s.wait ++ cloud
  let scanWaitNum := s.scanWaitNum + 1
  if !wait.isEmpty ∧ 0 < pcdSaveInterval ∧ pcdSaveInterval ≤ scanWaitNum then
    ⟨[], 0, s.files ++ [wait]⟩
  else ⟨wait, scanWaitNum, s.files⟩

/-- A batch that gets a file: the first of its ends with enough publications and a point. -/
structure FileBatch (pcdSaveInterval : ℤ) (batch : List (List α)) : Prop where
  enough : pcdSaveInterval ≤ batch.length
  points : batch.flatten ≠ []
  first : ∀ kept last, batch = kept ++ [last] →
    kept.length < pcdSaveInterval ∨ kept.flatten = []

/-- The clouds cut into the batches of the files and the clouds that wait. -/
structure Batches (pcdSaveInterval : ℤ) (clouds : List (List α)) (s : SaveBuffer α)
    (batches : List (List (List α))) (rest : List (List α)) : Prop where
  split : clouds = batches.flatten ++ rest
  files : s.files = batches.map List.flatten
  wait : s.wait = rest.flatten
  scanWaitNum : s.scanWaitNum = rest.length
  full : ∀ batch ∈ batches, FileBatch pcdSaveInterval batch
  short : rest.length < pcdSaveInterval ∨ rest.flatten = []

section Interval

variable {pcdSaveInterval : ℤ} {clouds : List (List α)} {s : SaveBuffer α}

theorem Batches.save {batches : List (List (List α))} {rest : List (List α)}
    (hpos : 0 < pcdSaveInterval) (h : Batches pcdSaveInterval clouds s batches rest)
    (cloud : List α) : ∃ batches' rest',
      Batches pcdSaveInterval (clouds ++ [cloud]) (s.add pcdSaveInterval cloud) batches'
        rest' := by
  have hwait : s.wait ++ cloud = (rest ++ [cloud]).flatten := by
    rw [h.wait, List.flatten_append, List.flatten_singleton]
  have hnum : s.scanWaitNum + 1 = (rest ++ [cloud]).length := by
    rw [h.scanWaitNum, List.length_append, List.length_singleton]
  simp only [SaveBuffer.add, hwait, hnum]
  split
  · rename_i hfull
    obtain ⟨hpoints, -, henough⟩ := hfull
    refine ⟨batches ++ [rest ++ [cloud]], [], ?_, ?_, rfl, rfl, ?_, .inr rfl⟩
    · rw [h.split, List.flatten_append, List.flatten_singleton, List.append_nil, List.append_assoc]
    · rw [h.files, List.map_append, List.map_singleton]
    · intro batch hbatch
      rcases List.mem_append.mp hbatch with hold | hlast
      · exact h.full batch hold
      · obtain rfl := List.mem_singleton.mp hlast
        refine ⟨henough, by simpa using hpoints, fun kept last hsplit => ?_⟩
        obtain ⟨rfl, -⟩ := List.append_inj' hsplit rfl
        exact h.short
  · rename_i hwaits
    refine ⟨batches, rest ++ [cloud], ?_, h.files, rfl, rfl, h.full, ?_⟩
    · rw [h.split, List.append_assoc]
    · by_cases hnil : (rest ++ [cloud]).flatten = []
      · exact .inr hnil
      · refine .inl (Int.not_le.mp fun henough => hwaits ⟨?_, hpos, henough⟩)
        simpa using hnil

/-- With an interval every file is a batch of clouds, in order, and what was published after the
last of them waits. -/
theorem exists_batches (hpos : 0 < pcdSaveInterval) (clouds : List (List α)) :
    ∃ batches rest,
      Batches pcdSaveInterval clouds (clouds.foldl (SaveBuffer.add pcdSaveInterval) {}) batches rest := by
  induction clouds using List.reverseRecOn with
  | nil => exact ⟨[], [], rfl, rfl, rfl, rfl, nofun, .inr rfl⟩
  | append_singleton clouds cloud ih =>
    obtain ⟨batches, rest, h⟩ := ih
    rw [List.foldl_append, List.foldl_cons, List.foldl_nil]
    exact h.save hpos cloud

/-- Without one everything waits. -/
theorem foldl_add_of_not_pos (hneg : ¬0 < pcdSaveInterval) (clouds : List (List α)) :
    (clouds.foldl (SaveBuffer.add pcdSaveInterval) {}).files = [] ∧
      (clouds.foldl (SaveBuffer.add pcdSaveInterval) {}).wait = clouds.flatten := by
  induction clouds using List.reverseRecOn with
  | nil => exact ⟨rfl, rfl⟩
  | append_singleton clouds cloud ih =>
    obtain ⟨hfiles, hwait⟩ := ih
    rw [List.foldl_append, List.foldl_cons, List.foldl_nil]
    unfold SaveBuffer.add
    rw [if_neg (fun h => hneg h.2.1)]
    refine ⟨hfiles, ?_⟩
    show (clouds.foldl (SaveBuffer.add pcdSaveInterval) {}).wait ++ cloud = _
    rw [hwait, List.flatten_append, List.flatten_singleton]

end Interval

/-! ## The two clouds that wait -/

/-- With images only coloured clouds wait. -/
def PcdSave.ofRgb (b : SaveBuffer C.PointRGB) : PcdSave C where
  pclWaitSave := b.wait
  scanWaitNum := b.scanWaitNum
  pcdIndex := b.files.length
  files := b.files.mapIdx fun i cloud => .scans (i + 1) (.rgb cloud)

/-- Without images only plain ones do. -/
def PcdSave.ofIntensity (b : SaveBuffer PointType) : PcdSave C where
  pclWaitSaveIntensity := b.wait
  scanWaitNum := b.scanWaitNum
  pcdIndex := b.files.length
  files := b.files.mapIdx fun i cloud => .scans (i + 1) (.intensity cloud)

variable {pcd : PcdConfig C}

theorem due_ofRgb (pcd : PcdConfig C) (b : SaveBuffer C.PointRGB) :
    (PcdSave.ofRgb b).due pcd = true ↔
      !b.wait.isEmpty ∧ 0 < pcd.pcdSaveInterval ∧ pcd.pcdSaveInterval ≤ b.scanWaitNum := by
  rw [PcdSave.due, Bool.and_eq_true, Bool.and_eq_true, decide_eq_true_eq, decide_eq_true_eq,
    and_assoc]
  simp [PcdSave.hasPoints, PcdSave.ofRgb]

theorem due_ofIntensity (pcd : PcdConfig C) (b : SaveBuffer PointType) :
    (PcdSave.ofIntensity b).due pcd = true ↔
      !b.wait.isEmpty ∧ 0 < pcd.pcdSaveInterval ∧ pcd.pcdSaveInterval ≤ b.scanWaitNum := by
  rw [PcdSave.due, Bool.and_eq_true, Bool.and_eq_true, decide_eq_true_eq, decide_eq_true_eq,
    and_assoc]
  simp [PcdSave.hasPoints, PcdSave.ofIntensity]

theorem saveCloud_rgb (hen : pcd.pcdSaveEn = true) (b : SaveBuffer C.PointRGB)
    (cloud : List C.PointRGB) : saveCloud pcd (.ofRgb b) (.cloudRegisteredRGB cloud) =
      .ofRgb (b.add pcd.pcdSaveInterval cloud) := by
  have hdue := due_ofRgb pcd ⟨b.wait ++ cloud, b.scanWaitNum + 1, b.files⟩
  simp only [saveCloud, if_pos hen]
  by_cases hfull : (PcdSave.ofRgb (C := C) ⟨b.wait ++ cloud, b.scanWaitNum + 1, b.files⟩).due pcd = true
  · refine (if_pos hfull).trans ?_
    rw [SaveBuffer.add, if_pos (hdue.mp hfull)]
    simp [PcdSave.ofRgb]
  · refine (if_neg hfull).trans ?_
    rw [SaveBuffer.add, if_neg fun h => hfull (hdue.mpr h)]
    rfl

theorem saveCloud_intensity (hen : pcd.pcdSaveEn = true) (b : SaveBuffer PointType)
    (cloud : List PointType) : saveCloud pcd (.ofIntensity b) (.cloudRegistered cloud) =
      .ofIntensity (b.add pcd.pcdSaveInterval cloud) := by
  have hdue := due_ofIntensity pcd ⟨b.wait ++ cloud, b.scanWaitNum + 1, b.files⟩
  simp only [saveCloud, if_pos hen]
  by_cases hfull :
      (PcdSave.ofIntensity (C := C) ⟨b.wait ++ cloud, b.scanWaitNum + 1, b.files⟩).due pcd = true
  · refine (if_pos hfull).trans ?_
    rw [SaveBuffer.add, if_pos (hdue.mp hfull)]
    simp [PcdSave.ofIntensity]
  · refine (if_neg hfull).trans ?_
    rw [SaveBuffer.add, if_neg fun h => hfull (hdue.mpr h)]
    rfl

theorem savePCD_ofRgb (hen : pcd.pcdSaveEn = true) (b : SaveBuffer C.PointRGB) :
    savePCD pcd true (.ofRgb b) = b.files.mapIdx (fun i cloud => .scans (i + 1) (.rgb cloud)) ++
      if !b.wait.isEmpty ∧ pcd.pcdSaveInterval < 0 then
        [.allRawPoints (.rgb b.wait), .allDownsampledPoints (.rgb (pcd.voxelFilter b.wait))]
      else [] := by
  by_cases hend : !b.wait.isEmpty ∧ pcd.pcdSaveInterval < 0
  · rw [if_pos hend, savePCD, hen]
    refine if_pos ?_
    simpa [PcdSave.hasPoints, PcdSave.ofRgb] using hend
  · rw [if_neg hend, List.append_nil, savePCD, hen]
    refine if_neg fun h => hend ?_
    simpa [PcdSave.hasPoints, PcdSave.ofRgb] using h

theorem savePCD_ofIntensity (hen : pcd.pcdSaveEn = true) (b : SaveBuffer PointType) :
    savePCD pcd false (.ofIntensity b) =
      b.files.mapIdx (fun i cloud => .scans (i + 1) (.intensity cloud)) ++
        if !b.wait.isEmpty ∧ pcd.pcdSaveInterval < 0 then [.allRawPoints (.intensity b.wait)]
        else [] := by
  by_cases hend : !b.wait.isEmpty ∧ pcd.pcdSaveInterval < 0
  · rw [if_pos hend, savePCD, hen]
    refine if_pos ?_
    simpa [PcdSave.hasPoints, PcdSave.ofIntensity] using hend
  · rw [if_neg hend, List.append_nil, savePCD, hen]
    refine if_neg fun h => hend ?_
    simpa [PcdSave.hasPoints, PcdSave.ofIntensity] using h

/-- Of a run with images only the coloured clouds are saved. -/
theorem foldl_saveCloud_rgb (hen : pcd.pcdSaveEn = true) {out : List (Output C)}
    (hplain : plainClouds out = []) : out.foldl (saveCloud pcd) {} =
      .ofRgb ((colouredClouds out).foldl (SaveBuffer.add pcd.pcdSaveInterval) {}) := by
  induction out using List.reverseRecOn with
  | nil => rfl
  | append_singleton out o ih =>
    rw [plainClouds_append, List.append_eq_nil_iff] at hplain
    rw [List.foldl_append, List.foldl_cons, List.foldl_nil, ih hplain.1, colouredClouds_append,
      List.foldl_append]
    cases o with
    | cloudRegisteredRGB cloud => exact saveCloud_rgb hen _ cloud
    | cloudRegistered cloud => cases hplain.2
    | _ => rfl

/-- Of a run without images only the plain ones are. -/
theorem foldl_saveCloud_intensity (hen : pcd.pcdSaveEn = true) {out : List (Output C)}
    (hcoloured : colouredClouds out = []) : out.foldl (saveCloud pcd) {} =
      .ofIntensity ((plainClouds out).foldl (SaveBuffer.add pcd.pcdSaveInterval) {}) := by
  induction out using List.reverseRecOn with
  | nil => rfl
  | append_singleton out o ih =>
    rw [colouredClouds_append, List.append_eq_nil_iff] at hcoloured
    rw [List.foldl_append, List.foldl_cons, List.foldl_nil, ih hcoloured.1, plainClouds_append,
      List.foldl_append]
    cases o with
    | cloudRegistered cloud => exact saveCloud_intensity hen _ cloud
    | cloudRegisteredRGB cloud => cases hcoloured.2
    | _ => rfl

/-- Without the switch nothing is saved. -/
theorem foldl_saveCloud_off (hoff : pcd.pcdSaveEn = false) (out : List (Output C)) :
    out.foldl (saveCloud pcd) {} = {} := by
  induction out using List.reverseRecOn with
  | nil => rfl
  | append_singleton out o ih =>
    rw [List.foldl_append, List.foldl_cons, List.foldl_nil, ih]
    cases o with
    | cloudRegistered | cloudRegisteredRGB => simp [saveCloud, hoff]
    | _ => rfl

/-! ## Runs -/

/-- Every step publishes after what is published. -/
theorem step_published {cfg : Config C} {K : Kernel C} {w w' : World C} {e : Event C}
    (h : step cfg K w e = some w') : ∃ out, w'.hist.published = w.hist.published ++ out := by
  by_cases he : e = .spin
  · subst he
    cases spinOnce_cases h with
    | wait => exact ⟨[], by simp [History.recordSync]⟩
    | sync => exact ⟨_, rfl⟩
  · obtain ⟨out, hout, -⟩ := (step_callback h he).published
    exact ⟨out, hout⟩

/-- What is saved is what was published. -/
theorem saves_of_reach {S : Setup C} {w : World C}
    {prepared : List (List PointType)} {saves : PcdSave C}
    (h : Reach (S.stepSaves pcd) (fun _ _ => True) ((S.init, []), {}) ((w, prepared), saves)) :
    saves = w.hist.published.foldl (saveCloud pcd) {} := by
  refine h.invariant (I := fun p => p.2 = p.1.1.hist.published.foldl (saveCloud pcd) {}) rfl ?_
  intro p q e _ hinv _ hst
  obtain ⟨hclouds, hsaves⟩ := withGhost_cases hst
  obtain ⟨out, hout⟩ := step_published (withGhost_cases hclouds).1
  rw [hsaves, recordSaves, hinv, hout, List.drop_left, List.foldl_append]

/-- What is saved of the clouds, given what a file of them is and what `savePCD` writes. -/
structure Saved (pcdSaveInterval : ℤ) (clouds : List (List α)) (scans : ℕ → List α → PcdFile C)
    (atEnd : List α → List (PcdFile C)) (files : List (PcdFile C)) : Prop where
  /-- In the end, everything at once. -/
  atEnd : pcdSaveInterval < 0 →
    files = if clouds.flatten = [] then [] else atEnd clouds.flatten
  /-- With an interval of zero nothing. -/
  never : pcdSaveInterval = 0 → files = []
  /-- By batches: the clouds after the last of them are in no file. -/
  batches : 0 < pcdSaveInterval → ∃ (batches : List (List (List α))) (rest : List (List α)),
    clouds = batches.flatten ++ rest ∧
    files = batches.mapIdx (fun i batch => scans (i + 1) batch.flatten) ∧
    (∀ batch ∈ batches, FileBatch pcdSaveInterval batch) ∧
    (rest.length < pcdSaveInterval ∨ rest.flatten = [])

theorem saved_of_buffer {pcdSaveInterval : ℤ} {clouds : List (List α)} {b : SaveBuffer α}
    {scans : ℕ → List α → PcdFile C} {atEnd : List α → List (PcdFile C)} {files : List (PcdFile C)}
    (hb : clouds.foldl (SaveBuffer.add pcdSaveInterval) {} = b)
    (hfiles : files = b.files.mapIdx (fun i cloud => scans (i + 1) cloud) ++
      if !b.wait.isEmpty ∧ pcdSaveInterval < 0 then atEnd b.wait else []) :
    Saved pcdSaveInterval clouds scans atEnd files where
  atEnd hneg := by
    obtain ⟨hnone, hwait⟩ := foldl_add_of_not_pos (show ¬0 < pcdSaveInterval by omega) clouds
    rw [hfiles, ← hb, hnone, hwait]
    by_cases hnil : clouds.flatten = []
    · rw [if_pos hnil, hnil]
      rfl
    · rw [if_neg hnil, if_pos ⟨by simpa using hnil, hneg⟩]
      rfl
  never hzero := by
    obtain ⟨hnone, -⟩ := foldl_add_of_not_pos (show ¬0 < pcdSaveInterval by omega) clouds
    rw [hfiles, ← hb, hnone, if_neg (by omega)]
    rfl
  batches hpos := by
    obtain ⟨batches, rest, h⟩ := exists_batches hpos clouds
    refine ⟨batches, rest, h.split, ?_, h.full, h.short⟩
    rw [hfiles, ← hb, if_neg (by omega), h.files, List.append_nil]
    exact List.ext_getElem? fun i => by simp [Function.comp_def]

/-- The files of a run of the mapper. Without the switch there are none. With images they hold the
coloured clouds, in the end also down-sampled; without, the clouds that the LIO steps left. -/
theorem pcd_saved {S : Setup C} {w : World C} {prepared : List (List PointType)}
    {saves : PcdSave C}
    (h : Reach (S.stepSaves pcd) (fun _ _ => True) ((S.init, []), {}) ((w, prepared), saves)) :
    (pcd.pcdSaveEn = false → savePCD pcd S.cfg.imgEn saves = []) ∧
    (pcd.pcdSaveEn = true → S.cfg.imgEn = true →
      Saved pcd.pcdSaveInterval (colouredClouds w.hist.published)
        (fun pcdIndex cloud => .scans pcdIndex (.rgb cloud))
        (fun cloud => [.allRawPoints (.rgb cloud), .allDownsampledPoints (.rgb (pcd.voxelFilter cloud))])
        (savePCD pcd true saves)) ∧
    (pcd.pcdSaveEn = true → S.cfg.imgEn = false →
      Saved pcd.pcdSaveInterval (prepared.filter (!·.isEmpty))
        (fun pcdIndex cloud => .scans pcdIndex (.intensity cloud))
        (fun cloud => [.allRawPoints (.intensity cloud)]) (savePCD pcd false saves)) := by
  have hsaves := saves_of_reach h
  have hclouds : Reach S.stepClouds (fun _ _ => True) (S.init, []) (w, prepared) :=
    @Reach.erase _ _ _ _ _ (fun _ _ => True) _ _ h
  refine ⟨fun hoff => ?_, fun hen himg => ?_, fun hen himg => ?_⟩
  · rw [hsaves, foldl_saveCloud_off hoff, savePCD, hoff]
    rfl
  · have hplain : plainClouds w.hist.published = [] := by
      by_cases hm : S.cfg.slamMode = .livo
      · exact (colouredInv_of_reach S hm hclouds).plain
      · simpa [himg] using (uncolouredInv_of_reach S hm hclouds).plain
    refine saved_of_buffer rfl ?_
    rw [hsaves, foldl_saveCloud_rgb hen hplain, savePCD_ofRgb hen]
  · have hm : S.cfg.slamMode ≠ .livo := fun hm => by simp [(Config.slamMode_livo hm).1] at himg
    have hinv := uncolouredInv_of_reach S hm hclouds
    have hplain : plainClouds w.hist.published = prepared.filter (!·.isEmpty) := by
      simpa [himg] using hinv.plain
    refine saved_of_buffer rfl ?_
    rw [hsaves, foldl_saveCloud_intensity hen hinv.coloured, savePCD_ofIntensity hen, hplain]

/-- Two images, whose points are saved one by one. -/
theorem pcd_saved_twoImages : ∃ w prepared saves,
    exec (Setup.default.stepSaves ⟨true, 1, id⟩) ((Setup.default.init, []), {}) twoImages =
      some ((w, prepared), saves) ∧ (savePCD ⟨true, 1, id⟩ true saves).length = 1 ∧
      ∃ (batches : List (List (List Carrier.trivial.PointRGB)))
        (rest : List (List Carrier.trivial.PointRGB)), colouredClouds w.hist.published = batches.flatten ++ rest ∧
        savePCD ⟨true, 1, id⟩ true saves =
          batches.mapIdx (fun i batch => .scans (i + 1) (.rgb batch.flatten)) := by
  have hrun : (exec (Setup.default.stepSaves ⟨true, 1, id⟩) ((Setup.default.init, []), {})
      twoImages).any (fun p => decide ((savePCD ⟨true, 1, id⟩ true p.2).length = 1)) = true := by
    decide +kernel
  obtain ⟨⟨⟨w, prepared⟩, saves⟩, hexec, hfiles⟩ := exists_exec_of_any _ hrun
  obtain ⟨batches, rest, hclouds, hsaved, -⟩ :=
    ((pcd_saved (.of_exec hexec)).2.1 rfl rfl).batches Int.one_pos
  exact ⟨w, prepared, saves, hexec, of_decide_eq_true hfiles, batches, rest, hclouds, hsaved⟩

end FastLivo
