import FastLivo.Lib.Assign
import FastLivo.Lib.Run
import FastLivo.VisualMap.Point

/-!
# Frames over the visual map

The operations of `VIOManager::processFrame` on the map points, one step each. A point is named
by its index in the map. What the images and the geometry decide comes from the `View` of the
step: where a point projects to, which tests it passes, its scores.
-/

namespace FastLivo.VisualMap

open Lib

/-! ## State -/

/-- The parameters of `VIOManager` that these operations use. -/
structure Config where
  normalEn : Bool
  inverseCompositionEn : Bool
  patchPyrimidLevel : ℕ
  maxIterations : ℕ
  length : ℕ
  deriving DecidableEq, Repr

/-- The operation of `processFrame` that comes next. -/
inductive Phase where
  | retrieve
  | compute
  | generate
  | project
  | update
  | reference
  deriving DecidableEq, Repr

/-- The visual map, the submap of the frame and the frame. -/
structure VioMap where
  points : List VisualPoint := []
  frameCounter : ℕ := 0
  frameId : ℕ := 0
  voxelPoints : List ℕ := []
  totalPoints : ℕ := 0
  updateFlag : ℕ → Bool := fun _ => false
  phase : Phase := .retrieve

/-- A point that `generateVisualMapPoints` makes. Its `ref_patch` is not initialised. -/
structure NewPoint where
  address : ℕ
  patch : Patch
  refPatch : Option ℕ

/-- What a frame shows. -/
structure View where
  /-- The points in the voxels that the scan and the rays meet, in the order they are met. -/
  visits : List ℕ
  /-- The grid cell and the distance of a point in the image. -/
  cell : ℕ → Option (ℕ × ℚ)
  depthContinous : ℕ → Bool
  /-- Whether `getCloseViewObs` finds an observation. -/
  closeView : ℕ → Bool
  /-- Whether the patch passes the correlation and the error threshold. -/
  accepted : ℕ → Bool
  newPoints : List NewPoint
  plotFlag : Bool
  /-- Whether the last observation is far enough for a new one. -/
  addFlag : ℕ → Feature → Bool
  /-- The address and the patch of a new observation. -/
  observation : ℕ → ℕ × Patch
  /-- Whether the plane left the normal nearly as it was. -/
  settled : ℕ → Bool
  score : ℕ → ℕ → Option ℚ

/-! ## `retrieveFromVisualSparseMap` -/

/-- A cell of `grid_num`, `map_dist` and `retrieve_voxel_points`. -/
structure Cell where
  isMap : Bool := false
  mapDist : ℚ := 10000
  point : Option ℕ := none

/-- A point that is met is put into its cell when it is the nearest there. -/
def visit (points : List VisualPoint) (v : View) (grid : ℕ → Cell) (k : ℕ) : ℕ → Cell :=
  match points[k]? with
  | none => grid
  | some p =>
    if p.obs.isEmpty then grid
    else
      match v.cell k with
      | none => grid
      | some (index, dist) =>
        assign grid index
          (if dist ≤ (grid index).mapDist then { isMap := true, mapDist := dist, point := some k }
          else { grid index with isMap := true })

def fillGrid (points : List VisualPoint) (v : View) : ℕ → Cell :=
  v.visits.foldl (visit points v) fun _ => {}

/-- A turn of the loop over the cells. -/
def retrieveCell (cfg : Config) (v : View) (grid : ℕ → Cell) (s : List VisualPoint × List ℕ)
    (i : ℕ) : Except Fault (List VisualPoint × List ℕ) :=
  if (grid i).isMap = false then .ok s
  else
    match (grid i).point with
    | none => .error .nullPoint
    | some k =>
      match s.1[k]? with
      | none => .error .nullPoint
      | some p =>
        if v.depthContinous k = true then .ok s
        else if p.isNormalInitialized = false then .ok s
        else if cfg.normalEn = true then do
          let q ← p.chooseReference
          return (s.1.set k q, if v.accepted k = true then s.2 ++ [k] else s.2)
        else if p.obs.isEmpty = true ∨ v.closeView k = false then .ok s
        else .ok (s.1, if v.accepted k = true then s.2 ++ [k] else s.2)

/-- `VIOManager::retrieveFromVisualSparseMap`. -/
def retrieveFromVisualSparseMap (cfg : Config) (v : View) (s : VioMap) : Except Fault VioMap :=
  if s.points.isEmpty then .ok s
  else do
    let (points, voxelPoints) ←
      (List.range cfg.length).foldlM (retrieveCell cfg v (fillGrid s.points v)) (s.points, [])
    return { s with
      points := points
      voxelPoints := voxelPoints
      totalPoints := voxelPoints.length }

/-! ## The other operations -/

/-- `pt->ref_patch` can be read through for every point of the submap with `test`. -/
def VioMap.referencesValid (s : VioMap) (test : VisualPoint → Bool) : Bool :=
  s.voxelPoints.all fun k => (s.points[k]?).all fun p => !test p || decide p.RefValid

/-- `precomputeReferencePatches` is called. -/
def Config.Precomputes (cfg : Config) : Prop :=
  cfg.inverseCompositionEn = true ∧ 0 < cfg.patchPyrimidLevel ∧ 0 < cfg.maxIterations

instance (cfg : Config) : Decidable cfg.Precomputes := inferInstanceAs (Decidable (_ ∧ _))

/-- What `VIOManager::computeJacobianAndUpdateEKF` reads of the map points. -/
def computeJacobianAndUpdateEKF (cfg : Config) (s : VioMap) : Except Fault VioMap :=
  if s.totalPoints = 0 then .ok s
  else if cfg.Precomputes ∧ s.referencesValid (fun _ => true) = false then .error .danglingRef
  else .ok s

/-- `VIOManager::generateVisualMapPoints`. -/
def generateVisualMapPoints (v : View) (s : VioMap) : VioMap :=
  { s with points := s.points ++ v.newPoints.map fun n =>
      { obs := [{ address := n.address, id := s.frameId, patch := n.patch }]
        isNormalInitialized := true
        refPatch := n.refPatch } }

/-- What `VIOManager::projectPatchFromRefToCur` reads of the map points. -/
def projectPatchFromRefToCur (s : VioMap) : Except Fault VioMap :=
  if s.totalPoints = 0 then .ok s
  else if s.referencesValid VisualPoint.isNormalInitialized = false then .error .danglingRef
  else .ok s

/-- The size of the list of observations is maintained. -/
def VisualPoint.maintainSize (p : VisualPoint) : Except Fault VisualPoint :=
  if 30 ≤ p.obs.length then
    match p.findMinScoreFeature with
    | none => .error .emptyObs
    | some f => .ok (p.deleteFeatureRef f.address)
  else .ok p

/-- What `updateVisualMapPoints` does with a point, and whether it adds an observation. -/
def updatePoint (v : View) (frameId k : ℕ) (p : VisualPoint) : Except Fault (VisualPoint × Bool) :=
  if p.isConverged = true then .ok (p.deleteNonRefPatchFeatures, false)
  else
    match p.obs.getLast? with
    | none => .error .emptyObs
    | some last => do
      let q ← p.maintainSize
      if v.addFlag k last = true then
        return (q.addFrameRef
          { address := (v.observation k).1, id := frameId, patch := (v.observation k).2 }, true)
      else return (q, false)

/-- A turn of the loop of `updateVisualMapPoints`. -/
def updateTurn (v : View) (frameId : ℕ) (s : List VisualPoint × (ℕ → Bool)) (turn : ℕ × ℕ) :
    Except Fault (List VisualPoint × (ℕ → Bool)) :=
  match s.1[turn.1]? with
  | none => .ok s
  | some p => do
    let (q, added) ← updatePoint v frameId turn.1 p
    return (s.1.set turn.1 q, if added = true then assign s.2 turn.2 true else s.2)

/-- `VIOManager::updateVisualMapPoints`. -/
def updateVisualMapPoints (v : View) (s : VioMap) : Except Fault VioMap :=
  if s.totalPoints = 0 then .ok s
  else do
    let (points, updateFlag) ←
      s.voxelPoints.zipIdx.foldlM (updateTurn v s.frameId) (s.points, s.updateFlag)
    return { s with points := points, updateFlag := updateFlag }

/-- A turn of the loop of `updateReferencePatch`. -/
def referenceTurn (v : View) (updateFlag : ℕ → Bool) (points : List VisualPoint)
    (turn : ℕ × ℕ) : List VisualPoint :=
  match points[turn.1]? with
  | none => points
  | some p =>
    if p.isNormalInitialized = false ∨ p.isConverged = true ∨ p.obs.length ≤ 5 ∨
        updateFlag turn.2 = false then points
    else points.set turn.1 (p.updateReference (v.settled turn.1) (v.score turn.1))

/-- `VIOManager::updateReferencePatch`. -/
def updateReferencePatch (v : View) (s : VioMap) : VioMap :=
  if s.totalPoints = 0 then s
  else { s with points := s.voxelPoints.zipIdx.foldl (referenceTurn v s.updateFlag) s.points }

/-! ## `processFrame` -/

/-- The frame is made and the grid is reset. -/
def beginFrame (s : VioMap) : Except Fault VioMap :=
  if s.frameCounter < 2147483647 then
    .ok { s with
      frameId := s.frameCounter
      frameCounter := s.frameCounter + 1
      totalPoints := 0
      updateFlag := fun _ => false }
  else .error .overflow

/-- The next operation of `VIOManager::processFrame`. -/
def step (cfg : Config) (v : View) (s : VioMap) : Except Fault VioMap :=
  match s.phase with
  | .retrieve => do
    let s ← beginFrame s
    let s ← retrieveFromVisualSparseMap cfg v s
    return { s with phase := .compute }
  | .compute => do
    let s ← computeJacobianAndUpdateEKF cfg s
    return { s with phase := .generate }
  | .generate => return { generateVisualMapPoints v s with phase := .project }
  | .project => do
    let s ← if v.plotFlag = true then projectPatchFromRefToCur s else .ok s
    return { s with phase := .update }
  | .update => do
    let s ← updateVisualMapPoints v s
    return { s with phase := .reference }
  | .reference => return { updateReferencePatch v s with phase := .retrieve }

end FastLivo.VisualMap
