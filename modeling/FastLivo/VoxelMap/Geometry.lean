import FastLivo.VoxelMap.Growth

/-!
# Cubes of the octree

In exact arithmetic every point lies in the closed cube of each node that it came to, from the
voxel that its key names down to the last layer.
-/

namespace FastLivo.VoxelMap

open Lib

variable {K : Type*} [Field K] [LinearOrder K]

/-- The closed cube of a node. -/
def InCube (n : OctoNode K) (x : Fin 3 → K) : Prop :=
  ∀ j, |x j - n.voxelCenter j| ≤ n.quaterLength + n.quaterLength

/-- Layers, places and stored points of all nodes. -/
def Geometry (cfg : TreeConfig K) : VoxelOctoTree K → Prop
  | .null => True
  | .node n leaves =>
    n.layer ≤ cfg.maxLayer ∧ (∀ o m below, leaves o = .node m below → LeafOf n m o) ∧
      (∀ pv ∈ n.tempPoints, InCube n pv.pointW) ∧ ∀ o, Geometry cfg (leaves o)

/-- `UpdateOctoTree` is called on the voxel whose key the point has. -/
def CalledByKey [FloorRing K] (r : Rounding K) (cfg : TreeConfig K) (_ : Voxels K) :
    MapCall K → Prop
  | .updateVoxelMap _ => True
  | .updateOctoTree position pv => planeKey r cfg.maxVoxelSize pv.pointW = some position

variable {cfg : TreeConfig K} {stuckOk : Prop} {n m : OctoNode K} {o : Octant}
  {leaves : Octant → VoxelOctoTree K} {pv : PointWithVar K} {x : Fin 3 → K}
  {position : VoxelLocation}

/-- What a node stores came to it. -/
theorem Phase.stored (h : Phase cfg stuckOk n leaves) : n.tempPoints.Sublist n.arrived := by
  cases h with
  | fresh _ _ _ hkept => exact hkept ▸ List.Sublist.refl _
  | closed _ _ _ _ hkept => exact hkept
  | split _ _ _ _ _ hkept => exact hkept.sublist
  | stuck _ _ _ _ before after harrived hkept =>
    rw [harrived]
    exact hkept.trans (List.sublist_append_left _ _)

/-- What came to a leaf came to the node before, and lies in the octant. -/
theorem Phase.within (h : Phase cfg stuckOk n leaves) (hpv : pv ∈ (leaves o).arrived) :
    pv ∈ n.arrived ∧ n.octant pv.pointW = o := by
  have hfilter : ∀ points : List (PointWithVar K), (leaves o).arrived = n.within o points →
      (∀ q ∈ points, q ∈ n.arrived) → pv ∈ n.arrived ∧ n.octant pv.pointW = o := by
    intro points heq hsub
    rw [heq] at hpv
    obtain ⟨hmem, hoctant⟩ := List.mem_filter.mp hpv
    exact ⟨hsub pv hmem, of_decide_eq_true hoctant⟩
  cases h with
  | fresh _ _ hnone =>
    rw [hnone] at hpv
    cases hpv
  | closed _ _ _ hnone =>
    rw [hnone] at hpv
    cases hpv
  | split _ _ _ _ _ _ hpassed => exact hfilter _ (hpassed o) fun _ hq => hq
  | stuck _ _ _ _ before after harrived _ hpassed =>
    refine hfilter _ (hpassed o) fun q hq => ?_
    rw [harrived]
    exact List.mem_append_right _ hq

variable [IsStrictOrderedRing K]

/-- The octants of a cube are the cubes of the leaves. -/
theorem InCube.leaf (h : InCube n x) (hleaf : LeafOf n m (n.octant x)) : InCube m x := by
  intro j
  have hj := abs_le.mp (h j)
  have hcenter := hleaf.voxelCenter j
  rw [hleaf.quaterLength, abs_le]
  unfold OctoNode.octant at hcenter
  by_cases hside : n.voxelCenter j < x j
  · rw [if_pos (decide_eq_true hside)] at hcenter
    rw [hcenter]
    constructor <;> linarith
  · rw [if_neg (by simpa using hside)] at hcenter
    rw [hcenter]
    constructor <;> linarith

/-- The cubes follow from that of the root. -/
theorem geometry_of_inv (t : VoxelOctoTree K) (hinv : Inv cfg stuckOk t)
    (hroot : ∀ n leaves, t = .node n leaves → ∀ pv ∈ n.arrived, InCube n pv.pointW) :
    Geometry cfg t := by
  induction t with
  | null => trivial
  | node n leaves ih =>
    obtain ⟨hnode, hleaves⟩ := hinv
    have hcube := hroot n leaves rfl
    refine ⟨hnode.layer, hnode.leaf, fun pv hpv => hcube pv (hnode.phase.stored.mem hpv), ?_⟩
    intro o
    refine ih o (hleaves o) fun m below hm pv hpv => ?_
    have harrived : pv ∈ (leaves o).arrived := by rwa [hm]
    obtain ⟨hmem, hoctant⟩ := hnode.phase.within harrived
    have hleaf := hnode.leaf o m below hm
    rw [← hoctant] at hleaf
    exact (hcube pv hmem).leaf hleaf

variable [FloorRing K]

/-- A key names the cube that its points lie in. -/
theorem inCube_of_key (hkey : planeKey .exact cfg.maxVoxelSize x = some position)
    (hroot : RootOf cfg position n) : InCube n x := by
  intro j
  have hpos := cfg.maxVoxelSize_pos
  have hj := (toInt64_eq_some.mp (keyOf_eq_some.mp hkey j)).1
  have hbounds : (position j : K) ≤ x j / cfg.maxVoxelSize ∧
      x j / cfg.maxVoxelSize ≤ position j + 1 := by
    unfold locXyz Rounding.exact at hj
    dsimp only [id] at hj
    split at hj
    · rename_i hneg
      rw [if_neg (by linarith)] at hj
      have hceil := Int.ceil_eq_iff.mp hj
      constructor <;> linarith
    · rename_i hnonneg
      rw [if_pos (not_lt.mp hnonneg)] at hj
      have hfloor := Int.floor_eq_iff.mp hj
      exact ⟨hfloor.1, hfloor.2.le⟩
  rw [hroot.voxelCenter, hroot.quaterLength, abs_le]
  rw [le_div_iff₀ hpos, div_le_iff₀ hpos] at hbounds
  constructor <;> linarith

/-- In every map that is reached, all nodes have their layers, places and points, and a voxel
contains every point whose key is its own. -/
theorem octree_geometry {m : Voxels K} (h : MapRun .exact cfg (CalledByKey .exact cfg) m)
    (position : VoxelLocation) :
    Geometry cfg (m position) ∧ ∀ n leaves, m position = .node n leaves →
      (∀ pv ∈ n.arrived, planeKey .exact cfg.maxVoxelSize pv.pointW = some position) ∧
      ∀ x, planeKey .exact cfg.maxVoxelSize x = some position → InCube n x := by
  have hvoxel : VoxelInv cfg True
      (fun position pv => planeKey .exact cfg.maxVoxelSize pv.pointW = some position)
      position (m position) := by
    refine h.voxelInv (fun _ _ h => h) ?_ (fun _ _ _ _ _ _ hno => absurd trivial hno) position
    intro m call position pv hok hinserts
    cases call with
    | updateVoxelMap => exact hinserts.2
    | updateOctoTree =>
      obtain ⟨rfl, rfl⟩ := hinserts
      exact hok
  have hfiled : ∀ n leaves, m position = .node n leaves →
      ∀ pv ∈ n.arrived, planeKey .exact cfg.maxVoxelSize pv.pointW = some position := by
    intro n leaves hn pv hpv
    exact hvoxel.filed pv (by rwa [hn])
  constructor
  · refine geometry_of_inv _ hvoxel.inv fun n leaves hn pv hpv => ?_
    exact inCube_of_key (hfiled n leaves hn pv hpv) (hvoxel.root n leaves hn)
  · intro n leaves hn
    exact ⟨hfiled n leaves hn, fun x hx => inCube_of_key hx (hvoxel.root n leaves hn)⟩

/-- Eigenvalues and eigenvectors of a diagonal matrix, and roots of squares. -/
def EigenSolver.diagonal : EigenSolver ℚ where
  eigenvectors := fun _ i j => if i = j.val then 1 else 0
  eigenvalues := fun m i => ((List.finRange 3).filter fun j => i = (j.val : ℤ)).map (fun j => m j j) |>.sum
  sqrt := fun x => x.num.natAbs.sqrt / x.den.sqrt

/-- The parameters that the code falls back to, with a layer more. -/
def TreeConfig.sample : TreeConfig ℚ where
  maxVoxelSize := 1 / 2
  plannerThreshold := 1 / 100
  maxLayer := 2
  layerInitNum := fun _ => 5
  maxPointsNum := 50
  solver := .diagonal
  maxVoxelSize_pos := by norm_num

/-- A point on a corner below the origin. -/
def PointWithVar.corner : PointWithVar ℚ := ⟨fun _ => -1 / 2, 0⟩

/-- A point from the middle of the voxel at the origin. -/
def PointWithVar.offset (x y z : ℚ) : PointWithVar ℚ :=
  ⟨fun j => 1 / 4 + (if j.val = 0 then x else if j.val = 1 then y else z), 0⟩

/-- Two points on each corner of a square. -/
def PointWithVar.square : List (PointWithVar ℚ) :=
  [.offset (1 / 5) (1 / 5) 0, .offset (1 / 5) (-1 / 5) 0, .offset (-1 / 5) (1 / 5) 0,
    .offset (-1 / 5) (-1 / 5) 0, .offset (1 / 5) (1 / 5) 0, .offset (1 / 5) (-1 / 5) 0,
    .offset (-1 / 5) (1 / 5) 0, .offset (-1 / 5) (-1 / 5) 0]

/-- Points above and below its middle. -/
def PointWithVar.poles : List (PointWithVar ℚ) :=
  [.offset 0 0 (1 / 5), .offset 0 0 (-1 / 5), .offset 0 0 (1 / 5), .offset 0 0 (-1 / 5),
    .offset 0 0 (1 / 5), .offset 0 0 (-1 / 5)]

/-- Points that come to the voxel at the origin later. -/
def laterCalls : List (MapCall ℚ) :=
  [.updateVoxelMap (.offset (-1 / 5) (-1 / 5) (-1 / 5)),
    .updateOctoTree (fun _ => 0) (.offset 0 0 (-1 / 5))]

instance decidableCalledByKey (r : Rounding K) (cfg : TreeConfig K) (m : Voxels K) :
    ∀ call, Decidable (CalledByKey r cfg m call)
  | .updateVoxelMap _ => .isTrue trivial
  | .updateOctoTree position pv =>
    inferInstanceAs (Decidable (planeKey r cfg.maxVoxelSize pv.pointW = some position))

/-- A voxel that was cut, and another one on a corner below the origin. -/
theorem octree_geometry_cut : ∃ (m : Voxels ℚ) (n : OctoNode ℚ)
    (leaves : Octant → VoxelOctoTree ℚ) (corner : OctoNode ℚ) (below : Octant → VoxelOctoTree ℚ),
      m (fun _ => 0) = .node n leaves ∧ n.octoState = 1 ∧ n.arrived.length = 16 ∧
        Geometry .sample (.node n leaves) ∧ m (fun _ => -2) = .node corner below ∧
          InCube corner PointWithVar.corner.pointW := by
  have hkey : planeKey .exact TreeConfig.sample.maxVoxelSize PointWithVar.corner.pointW =
      some fun _ => -2 := by
    decide +kernel
  have htest : ((buildVoxelMap .exact .sample (PointWithVar.square ++ PointWithVar.poles)).bind
      fun built => exec (fun m call => if CalledByKey .exact .sample m call then
        mapStep .exact .sample m call else none) built
          (laterCalls ++ [.updateVoxelMap .corner, .updateOctoTree (fun _ => -2) .corner])).any
        (fun m => (m fun _ => 0).rootIs (fun n => n.octoState = 1 ∧ n.arrived.length = 16) &&
          (m fun _ => -2).rootIs fun n => n.arrived.length = 2) = true := by
    decide +kernel
  obtain ⟨m, hrun, hroots⟩ := MapRun.of_any _ _ htest
  rw [Bool.and_eq_true] at hroots
  obtain ⟨n, leaves, hn, hstate, harrived⟩ := exists_of_rootIs hroots.1
  obtain ⟨corner, below, hcorner, -⟩ := exists_of_rootIs hroots.2
  have hcut := (octree_geometry hrun fun _ => 0).1
  rw [hn] at hcut
  exact ⟨m, n, leaves, corner, below, hn, hstate, harrived, hcut, hcorner,
    ((octree_geometry hrun fun _ => -2).2 corner below hcorner).2 _ hkey⟩

end FastLivo.VoxelMap
