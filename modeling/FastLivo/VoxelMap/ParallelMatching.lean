import FastLivo.Lib.GuardedLoop
import FastLivo.VoxelMap.Neighbour

/-!
# The points matched in parallel

The loop of `BuildResidualListOMP` runs on several threads. An iteration searches the map for its
point and writes the normal of the point; whether it succeeded and the match itself it stores under
`mylock`, since `useful_ptpl` keeps 64 flags in a word.
-/

namespace FastLivo.VoxelMap

open Lib

noncomputable section

/-- An iteration of `BuildResidualListOMP`: what it stores under `mylock`, and its point after it.
A point without a voxel stores nothing. -/
def matchTask (r : Rounding ℝ) (voxelSize : ℝ) (cfg : MatchConfig) (m : Voxels ℝ)
    (pv : Frontend.PointWithVar) : Option (LoopResult PointToPlane × Frontend.PointWithVar) :=
  (planeKey r voxelSize pv.pointW).bind fun position =>
    (matchPoint r voxelSize cfg m pv).map fun f =>
      (match m position with
        | .null => .skip
        | .node .. => if f.residual.isSucess then .hit f.residual.singlePtpl else .fail,
       { pv with normal := f.residual.normal })

/-- A step of `BuildResidualListOMP`, on a list of `n` points. -/
def matchingStep (r : Rounding ℝ) (voxelSize : ℝ) (cfg : MatchConfig) (m : Voxels ℝ) (n : ℕ) :
    LoopState PointToPlane Frontend.PointWithVar → ℕ →
      Option (LoopState PointToPlane Frontend.PointWithVar) :=
  loopStep n (matchTask r voxelSize cfg m)

/-- `BuildResidualListOMP` with its lists made, before the first iteration. -/
def matchingStart (pvList : List Frontend.PointWithVar) :
    LoopState PointToPlane Frontend.PointWithVar :=
  .initial {} fun i => pvList.getD i {}

variable {r : Rounding ℝ} {voxelSize : ℝ} {cfg : MatchConfig} {m : Voxels ℝ}
  {pvList pvList' : List Frontend.PointWithVar} {ptplList : List PointToPlane}

/-- An iteration stores what the search found. -/
theorem matchTask_of_matchPoint {pv : Frontend.PointWithVar} {f : Matched}
    (h : matchPoint r voxelSize cfg m pv = some f) :
    ∃ task, matchTask r voxelSize cfg m pv = some (task, { pv with normal := f.residual.normal }) ∧
      task.stored = if f.residual.isSucess then some f.residual.singlePtpl else none := by
  obtain ⟨position, hkey, hf⟩ := Option.map_eq_some_iff.mp h
  refine ⟨_, by rw [matchTask, hkey, Option.bind_some, h, Option.map_some], ?_⟩
  cases hvoxel : m position with
  | null =>
    rw [hvoxel] at hf
    obtain rfl := hf
    rfl
  | node n leaves =>
    dsimp only
    split <;> rfl

/-- What the iterations do, if the list gives no iteration cause for what is undefined. -/
theorem tasks_of_buildResidualListOMP
    (h : buildResidualListOMP r voxelSize cfg m pvList = some (pvList', ptplList)) :
    ∃ tasks : ℕ → LoopResult PointToPlane × Frontend.PointWithVar,
      (∀ i < pvList.length, matchTask r voxelSize cfg m (pvList.getD i {}) = some (tasks i)) ∧
      ((List.range pvList.length).map fun i => (tasks i).2) = pvList' ∧
      ((List.range pvList.length).filterMap fun i => (tasks i).1.stored) = ptplList := by
  obtain ⟨found, hfound, hlists⟩ := Option.map_eq_some_iff.mp h
  obtain ⟨rfl, rfl⟩ := Prod.mk.inj hlists
  have hlength := length_of_mapM hfound
  have hmatch : ∀ i (hi : i < pvList.length) (hi' : i < found.length),
      matchPoint r voxelSize cfg m pvList[i] = some found[i] := fun i hi hi' =>
    (List.forall₂_iff_get.mp (forall₂_of_mapM hfound)).2 i hi hi'
  have htask : ∀ i, ∃ task : LoopResult PointToPlane × Frontend.PointWithVar,
      ∀ (hi : i < pvList.length) (hi' : i < found.length),
        matchTask r voxelSize cfg m pvList[i] = some task ∧
        task.2 = { pvList[i] with normal := found[i].residual.normal } ∧
        task.1.stored =
          if found[i].residual.isSucess then some found[i].residual.singlePtpl else none := by
    intro i
    by_cases hi : i < pvList.length
    · obtain ⟨task, hwork, hstored⟩ := matchTask_of_matchPoint (hmatch i hi (by omega))
      exact ⟨_, fun _ _ => ⟨hwork, rfl, hstored⟩⟩
    · exact ⟨(.skip, {}), fun hi' => absurd hi' hi⟩
  choose tasks htasks using htask
  refine ⟨tasks, fun i hi => ?_, ?_, ?_⟩
  · rw [List.getD_eq_getElem _ _ hi]
    exact (htasks i hi (by omega)).1
  · apply List.ext_getElem
    · simp [hlength]
    · intro i hi hi'
      have hlt : i < pvList.length := by simpa using hi
      simp only [List.getElem_map, List.getElem_range, List.getElem_zipWith]
      exact (htasks i hlt (by omega)).2.1
  · rw [← hlength, ← List.filterMap_eq_filter, List.map_filterMap,
      ← filterMap_range_getElem? found]
    apply List.filterMap_congr
    intro i hi
    have hlt : i < found.length := List.mem_range.mp hi
    rw [List.getElem?_eq_getElem hlt, (htasks i (by omega) hlt).2.2, Option.bind_some]
    cases hsucess : found[i].residual.isSucess with
    | false | true => simp [Option.guard, hsucess]

/-- However the threads take turns, no run is longer than six steps a point, none stops before all
iterations are done, and then the lists are those of the loop without threads. -/
theorem matching_any_schedule
    (h : buildResidualListOMP r voxelSize cfg m pvList = some (pvList', ptplList)) {is : List ℕ}
    {s : LoopState PointToPlane Frontend.PointWithVar}
    (hrun : exec (matchingStep r voxelSize cfg m pvList.length) (matchingStart pvList) is = some s) :
    is.length ≤ pvList.length * 6 ∧
    (∀ i < pvList.length, s.pc i ≠ .done → ∃ j t, (j = i ∨ (s.pc j).Critical) ∧
      matchingStep r voxelSize cfg m pvList.length s j = some t) ∧
    ((∀ i < pvList.length, s.pc i = .done) →
      (List.range pvList.length).map s.elements = pvList' ∧
      s.collect pvList.length = ptplList) := by
  obtain ⟨tasks, htasks, hpoints, hmatches⟩ := tasks_of_buildResidualListOMP h
  have hinv := loopInv_of_exec hrun
  refine ⟨?_, fun i hi hrest => ?_, fun hdone => ?_⟩
  · have hsteps := length_add_rank_le hrun
    rw [matchingStart, rank_initial] at hsteps
    omega
  · exact hinv.progress (fun j hj => by rw [htasks j hj]; rfl) hi hrest
  · obtain ⟨helements, hcollect⟩ := hinv.finished hdone htasks
    refine ⟨?_, hcollect.trans hmatches⟩
    rw [← hpoints]
    exact List.map_congr_left fun i hi => helements i (List.mem_range.mp hi)

/-! ## Two points of one word -/

/-- A run of two iterations: one succeeds and waits for the other, which fails. -/
theorem two_iterations {α β : Type*} (blank : α) (elements : ℕ → β) {a : α} {b b' : β}
    {work : β → Option (LoopResult α × β)} (hfirst : work (elements 0) = some (.hit a, b))
    (hsecond : work (elements 1) = some (.fail, b')) :
    ∃ s, exec (loopStep 2 work) (.initial blank elements) [0, 1, 1, 1, 1, 1, 0, 0, 0, 0, 0] = some s ∧
      ∀ i < 2, s.pc i = .done := by
  have hstart : loopStep 2 work (.initial blank elements) 0 =
      some { (LoopState.initial blank elements).goto 0 (.lock (.hit a)) with
        elements := assign elements 0 b } := by
    show ((work (elements 0)).map fun _ => _) = _
    rw [hfirst]
    rfl
  have hnext : loopStep 2 work { (LoopState.initial blank elements).goto 0 (.lock (.hit a)) with
      elements := assign elements 0 b } 1 =
        some { ((LoopState.initial blank elements).goto 0 (.lock (.hit a))).goto 1 (.lock .fail) with
          elements := assign (assign elements 0 b) 1 b' } := by
    show ((work (elements 1)).map fun _ => _) = _
    rw [hsecond]
    rfl
  rw [exec_cons, hstart, Option.bind_some, exec_cons, hnext]
  refine ⟨_, rfl, fun i hi => ?_⟩
  interval_cases i <;> rfl

/-- A voxel with a floor. -/
def floorVoxel : OctoNode ℝ :=
  { newVoxel MatchConfig.sample.toTreeConfig fun _ => 0 with plane := .level 0, initOcto := true }

def floorMap : Voxels ℝ := fun position => if position = fun _ => 0 then .node floorVoxel noLeaves else .null

/-- What is found at the origin. -/
def floorFound : Residual where
  isSucess := true
  prob := thisProb pointAtOrigin (.level 0)
  singlePtpl := planeMatch pointAtOrigin (.level 0) 0
  normal := (VoxelPlane.level 0).normal

theorem matchPoint_origin : matchPoint .exact 0.5 .sample floorMap pointAtOrigin =
    some ⟨[fun _ => 0], floorFound⟩ := by
  have hdistance : disToPlane pointAtOrigin (.level 0) = 0 := by
    rw [disToPlane, signedDistance_level, neg_zero, abs_zero]
  have hrange : InRange pointAtOrigin (.level 0) := by
    have hcenter : disToCenter pointAtOrigin (.level 0) = 0 := by
      simp [disToCenter, pointAtOrigin, VoxelPlane.level, dotProduct, Fin.sum_univ_three]
    unfold InRange
    rw [hdistance, hcenter]
    norm_num [VoxelPlane.level]
  have hsigma : InSigma .sample pointAtOrigin (.level 0) := by
    unfold InSigma
    rw [hdistance, sigmaL_level]
    norm_num [MatchConfig.sample]
  have hprob : 0 < thisProb pointAtOrigin (.level 0) := by
    rw [thisProb, sigmaL_level]
    positivity
  have hfound : buildSingleResidual .sample pointAtOrigin (.node floorVoxel noLeaves) 0
      { normal := pointAtOrigin.normal } = floorFound := by
    rw [buildSingleResidual, buildSingleResidualIn, if_pos (show floorVoxel.plane.isPlane = true from rfl)]
    show offerPlane .sample pointAtOrigin (.level 0) 0 { normal := pointAtOrigin.normal } = floorFound
    rw [offerPlane, if_pos hrange, if_pos hsigma]
    exact if_pos hprob
  have hkey : planeKey .exact (0.5 : ℝ) pointAtOrigin.pointW = some fun _ => 0 :=
    key_zero le_rfl (by norm_num : (0 : ℝ) < 0.5)
  rw [matchPoint, hkey, Option.map_some, show floorMap (fun _ => 0) = .node floorVoxel noLeaves from rfl]
  dsimp only
  rw [hfound]
  rfl

theorem matchPoint_corner : ∃ probed, matchPoint .exact 0.5 .sample floorMap pointNearCorner =
    some ⟨probed, { normal := pointNearCorner.normal }⟩ := by
  have hsigma : ¬InSigma .sample pointNearCorner (.level 0) := by
    have hzero : sigmaL pointNearCorner (.level 0) = 0 := by
      simp [sigmaL, pointNearCorner, VoxelPlane.level]
    unfold InSigma
    rw [hzero, Real.sqrt_zero, mul_zero]
    exact fun h => absurd h.2 (not_lt.mpr (abs_nonneg _))
  have hnone : ∀ position, buildSingleResidual .sample pointNearCorner (floorMap position) 0
      { normal := pointNearCorner.normal } = { normal := pointNearCorner.normal } := by
    intro position
    unfold floorMap
    split
    · rw [buildSingleResidual, buildSingleResidualIn, if_pos (show floorVoxel.plane.isPlane = true from rfl)]
      show offerPlane .sample pointNearCorner (.level 0) 0 _ = _
      rw [offerPlane, if_neg hsigma, ite_self]
    · rfl
  have hvoxel : floorMap (fun _ => 0) = .node floorVoxel noLeaves := rfl
  rw [matchPoint, key_near_corner (by norm_num), Option.map_some, hvoxel]
  dsimp only
  rw [← hvoxel, hnone, if_neg Bool.false_ne_true, hnone]
  exact ⟨_, rfl⟩

theorem matching_any_schedule_two : ∃ s : LoopState PointToPlane Frontend.PointWithVar,
    exec (matchingStep .exact 0.5 .sample floorMap 2)
      (matchingStart [pointAtOrigin, pointNearCorner]) [0, 1, 1, 1, 1, 1, 0, 0, 0, 0, 0] = some s ∧
    s.elements 1 = pointNearCorner ∧ s.collect 2 = [planeMatch pointAtOrigin (.level 0) 0] := by
  obtain ⟨probed, hcorner⟩ := matchPoint_corner
  have hlists : buildResidualListOMP .exact 0.5 .sample floorMap [pointAtOrigin, pointNearCorner] =
      some ([{ pointAtOrigin with normal := floorFound.normal }, pointNearCorner],
        [planeMatch pointAtOrigin (.level 0) 0]) := by
    rw [buildResidualListOMP, List.mapM_cons, List.mapM_cons, matchPoint_origin, hcorner]
    rfl
  have hkey : ∀ c : ℝ, 0 ≤ c → c < 0.5 → planeKey .exact (0.5 : ℝ) (fun _ => c) = some fun _ => 0 :=
    fun c hc hsize => key_zero hc hsize
  have hfirst : matchTask .exact 0.5 .sample floorMap pointAtOrigin =
      some (.hit (planeMatch pointAtOrigin (.level 0) 0),
        { pointAtOrigin with normal := floorFound.normal }) := by
    rw [matchTask, show pointAtOrigin.pointW = fun _ => (0 : ℝ) from rfl,
      hkey 0 le_rfl (by norm_num), Option.bind_some, matchPoint_origin]
    rfl
  have hsecond : matchTask .exact 0.5 .sample floorMap pointNearCorner = some (.fail, pointNearCorner) := by
    rw [matchTask, show pointNearCorner.pointW = fun _ => (0.1 : ℝ) from rfl,
      hkey 0.1 (by norm_num) (by norm_num), Option.bind_some, hcorner]
    rfl
  obtain ⟨s, hexec, hdone⟩ := two_iterations ({} : PointToPlane)
    (fun i => [pointAtOrigin, pointNearCorner].getD i {}) hfirst hsecond
  obtain ⟨hpoints, hmatches⟩ := (matching_any_schedule hlists hexec).2.2 hdone
  refine ⟨s, hexec, ?_, hmatches⟩
  exact congrArg (fun points => points.getD 1 {}) hpoints

end

end FastLivo.VoxelMap
