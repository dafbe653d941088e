import FastLivo.VoxelMap.Key
import FastLivo.VoxelMap.Plane
import FastLivo.Lib.Run

/-!
# The voxel map

A voxel is an octree that grows where its points do not fit a plane. `BuildVoxelMap` fills it
with the first scan, `UpdateVoxelMap` with the points of every later one.
-/

namespace FastLivo.VoxelMap

open Lib

/-- Parameters of the map. A threshold is the number that a size is compared with. -/
structure TreeConfig (K : Type*) [Field K] [LinearOrder K] where
  /-- The `float` that `max_voxel_size_` becomes in `BuildVoxelMap` and `UpdateVoxelMap`. -/
  maxVoxelSize : K
  plannerThreshold : K
  maxLayer : ℕ
  /-- `layer_init_num_`, or what is read behind its end. -/
  layerInitNum : ℕ → ℕ
  maxPointsNum : ℕ
  solver : EigenSolver K
  maxVoxelSize_pos : 0 < maxVoxelSize

/-- `xyz` of a point below a node; `leafnum` is `4 * xyz[0] + 2 * xyz[1] + xyz[2]`. -/
abbrev Octant := Fin 3 → Bool

/-- `update_size_threshold_`. -/
def updateSizeThreshold : ℕ := 5

/-- `VoxelOctoTree` without its leaves. -/
structure OctoNode (K : Type*) [Field K] where
  layer : ℕ
  voxelCenter : Fin 3 → K
  quaterLength : K
  pointsSizeThreshold : ℕ
  tempPoints : List (PointWithVar K) := []
  plane : VoxelPlane K := {}
  /-- 0 is end of tree, 1 is not. -/
  octoState : ℕ := 0
  newPoints : ℕ := 0
  initOcto : Bool := false
  updateEnable : Bool := true
  /-- Ghost: the points that came to the node, in order. -/
  arrived : List (PointWithVar K) := []

/-- `VoxelOctoTree`, or a null pointer. -/
inductive VoxelOctoTree (K : Type*) [Field K]
  | null
  | node (n : OctoNode K) (leaves : Octant → VoxelOctoTree K)

variable {K : Type*} [Field K] [LinearOrder K]

/-- The leaves of a new node. -/
def noLeaves : Octant → VoxelOctoTree K := fun _ => .null

namespace OctoNode

/-- The octant of a point. -/
def octant (n : OctoNode K) (x : Fin 3 → K) : Octant := fun j => decide (n.voxelCenter j < x j)

/-- A new leaf. -/
def newLeaf (cfg : TreeConfig K) (n : OctoNode K) (o : Octant) : OctoNode K where
  layer := n.layer + 1
  voxelCenter := fun j => n.voxelCenter j + (if o j then 1 else -1) * n.quaterLength
  quaterLength := n.quaterLength / (2 : ℕ)
  pointsSizeThreshold := cfg.layerInitNum (n.layer + 1)

/-- A point is kept. -/
def push (n : OctoNode K) (pv : PointWithVar K) : OctoNode K :=
  { n with
    tempPoints := n.tempPoints ++ [pv]
    newPoints := n.newPoints + 1
    arrived := n.arrived ++ [pv] }

/-- A point comes by. -/
def pass (n : OctoNode K) (pv : PointWithVar K) : OctoNode K := { n with arrived := n.arrived ++ [pv] }

/-- The points are fitted. -/
def fit (cfg : TreeConfig K) (n : OctoNode K) : OctoNode K :=
  { n with plane := initPlane cfg.solver cfg.plannerThreshold n.tempPoints n.plane }

/-- The node takes no more points, and its own are freed. -/
def freeze (n : OctoNode K) : OctoNode K :=
  { n with updateEnable := false, tempPoints := [], newPoints := 0 }

/-- A point for a plane that was fitted, or for the last layer: every few points the plane is
fitted again, and a node that is full takes no more. -/
def refit (cfg : TreeConfig K) (full : ℕ → Bool) (n : OctoNode K) (pv : PointWithVar K) :
    OctoNode K :=
  if n.updateEnable then
    let n := n.push pv
    let n := if updateSizeThreshold < n.newPoints then { n.fit cfg with newPoints := 0 } else n
    if full n.tempPoints.length then n.freeze else n
  else n.pass pv

end OctoNode

/-! ## Splitting -/

/-- The first loop of `cut_octo_tree`: a point goes to its leaf. -/
def distribute (cfg : TreeConfig K) (n : OctoNode K) (leaves : Octant → VoxelOctoTree K)
    (pv : PointWithVar K) : Octant → VoxelOctoTree K :=
  let o := n.octant pv.pointW
  assign leaves o <|
    match leaves o with
    | .null => .node ((n.newLeaf cfg o).push pv) noLeaves
    | .node m below => .node (m.push pv) below

/-- The second loop of `cut_octo_tree`: a leaf with enough points is fitted, and cut if they
are not planar. -/
def fitLeaf (cfg : TreeConfig K)
    (cut : OctoNode K → (Octant → VoxelOctoTree K) → VoxelOctoTree K) :
    VoxelOctoTree K → VoxelOctoTree K
  | .null => .null
  | .node m below =>
    if m.pointsSizeThreshold < m.tempPoints.length then
      let m := m.fit cfg
      let m := { m with initOcto := true, newPoints := 0 }
      if m.plane.isPlane then
        let m := { m with octoState := 0 }
        .node (if cfg.maxPointsNum < m.tempPoints.length then m.freeze else m) below
      else cut { m with octoState := 1 } below
    else .node m below

/-- A leaf that `cut_octo_tree` freezes resets the counter of its parent. -/
def freezes (cfg : TreeConfig K) : VoxelOctoTree K → Bool
  | .null => false
  | .node m _ =>
    m.pointsSizeThreshold < m.tempPoints.length && (m.fit cfg).plane.isPlane &&
      decide (cfg.maxPointsNum < m.tempPoints.length)

/-- `cut_octo_tree`, with the number of layers below. What the callers do to the node after it
is done before. -/
def cutOctoTree (cfg : TreeConfig K) :
    ℕ → OctoNode K → (Octant → VoxelOctoTree K) → VoxelOctoTree K
  | 0, n, leaves => .node (if cfg.maxLayer ≤ n.layer then { n with octoState := 0 } else n) leaves
  | depth + 1, n, leaves =>
    if cfg.maxLayer ≤ n.layer then .node { n with octoState := 0 } leaves
    else
      let leaves := n.tempPoints.foldl (distribute cfg n) leaves
      .node { n with newPoints := if ∃ o, freezes cfg (leaves o) then 0 else n.newPoints }
        fun o => fitLeaf cfg (cutOctoTree cfg depth) (leaves o)

/-- `init_octo_tree`. -/
def initOctoTree (cfg : TreeConfig K) (n : OctoNode K) (leaves : Octant → VoxelOctoTree K) :
    VoxelOctoTree K :=
  if n.pointsSizeThreshold < n.tempPoints.length then
    let n := n.fit cfg
    let n := { n with initOcto := true, newPoints := 0 }
    if n.plane.isPlane then
      let n := { n with octoState := 0 }
      .node (if cfg.maxPointsNum < n.tempPoints.length then n.freeze else n) leaves
    else cutOctoTree cfg (cfg.maxLayer - n.layer) { n with octoState := 1 } leaves
  else .node n leaves

/-! ## Insertion -/

/-- `UpdateOctoTree` on a node that was not fitted yet. -/
def updateFresh (cfg : TreeConfig K) (n : OctoNode K) (leaves : Octant → VoxelOctoTree K)
    (pv : PointWithVar K) : VoxelOctoTree K :=
  let n := n.push pv
  if n.pointsSizeThreshold < n.tempPoints.length then initOctoTree cfg n leaves else .node n leaves

/-- The leaf that a point is passed to, once it took the point: a new one, which was not fitted
yet, if there is none. -/
def leafAfter (cfg : TreeConfig K) (n : OctoNode K) (pv : PointWithVar K)
    (updated : VoxelOctoTree K) : VoxelOctoTree K → VoxelOctoTree K
  | .null => updateFresh cfg (n.newLeaf cfg (n.octant pv.pointW)) noLeaves pv
  | .node .. => updated

/-- `UpdateOctoTree`. -/
def updateOctoTree (cfg : TreeConfig K) (pv : PointWithVar K) : VoxelOctoTree K → VoxelOctoTree K
  | .null => .null
  | .node n leaves =>
    if !n.initOcto then updateFresh cfg n leaves pv
    else if n.plane.isPlane then
      .node (n.refit cfg (fun size => cfg.maxPointsNum ≤ size) pv) leaves
    else if n.layer < cfg.maxLayer then
      let o := n.octant pv.pointW
      .node (n.pass pv) <| assign leaves o <|
        leafAfter cfg n pv (updateOctoTree cfg pv (leaves o)) (leaves o)
    else .node (n.refit cfg (fun size => cfg.maxPointsNum < size) pv) leaves

/-! ## The map -/

variable [FloorRing K]

/-- `voxel_map_`. -/
abbrev Voxels (K : Type*) [Field K] := VoxelLocation → VoxelOctoTree K

/-- A new voxel. -/
def newVoxel (cfg : TreeConfig K) (position : VoxelLocation) : OctoNode K where
  layer := 0
  voxelCenter := fun j => (1 / (2 : ℕ) + position j) * cfg.maxVoxelSize
  quaterLength := cfg.maxVoxelSize / (4 : ℕ)
  pointsSizeThreshold := cfg.layerInitNum 0

/-- The first loop of `BuildVoxelMap` over its points. -/
def buildPoint (r : Rounding K) (cfg : TreeConfig K) (m : Voxels K) (pv : PointWithVar K) :
    Option (Voxels K) :=
  (planeKey r cfg.maxVoxelSize pv.pointW).map fun position =>
    assign m position <|
      match m position with
      | .node n leaves => .node (n.push pv) leaves
      | .null => .node ((newVoxel cfg position).push pv) noLeaves

/-- `BuildVoxelMap`, from its `input_points`. -/
def buildVoxelMap (r : Rounding K) (cfg : TreeConfig K) (inputPoints : List (PointWithVar K)) :
    Option (Voxels K) :=
  (exec (buildPoint r cfg) (fun _ => .null) inputPoints).map fun m position =>
    match m position with
    | .node n leaves => initOctoTree cfg n leaves
    | .null => .null

/-- `UpdateVoxelMap` of one point. -/
def updatePoint (r : Rounding K) (cfg : TreeConfig K) (m : Voxels K) (pv : PointWithVar K) :
    Option (Voxels K) :=
  (planeKey r cfg.maxVoxelSize pv.pointW).map fun position =>
    assign m position <|
      match m position with
      | .node n leaves => updateOctoTree cfg pv (.node n leaves)
      | .null => updateOctoTree cfg pv (.node (newVoxel cfg position) noLeaves)

/-- `UpdateVoxelMap`. -/
def updateVoxelMap (r : Rounding K) (cfg : TreeConfig K) (m : Voxels K)
    (inputPoints : List (PointWithVar K)) : Option (Voxels K) :=
  exec (updatePoint r cfg) m inputPoints

end FastLivo.VoxelMap
