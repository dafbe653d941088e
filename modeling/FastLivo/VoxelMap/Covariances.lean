import FastLivo.Frontend.PointCovariance
import FastLivo.Frontend.Posterior
import FastLivo.VoxelMap.Neighbour
import FastLivo.VoxelMap.PlaneFit

/-!
# Covariances of the matches

The update weighs a match by the covariance of its plane and by that of its point. Both are
positive semidefinite: a plane has its own from the points it was fitted to, and those have theirs
from the sensor and from the state.
-/

namespace FastLivo.VoxelMap

open Lib Esikf Matrix

noncomputable section

/-! ## The tree -/

/-- The points of a node are waiting to be fitted, and its plane was. -/
structure OctoNode.Weighed (n : OctoNode ℝ) : Prop where
  points : ∀ pv ∈ n.tempPoints, pv.var.PosSemidef
  plane : n.plane.isPlane = true → n.plane.planeVar.PosSemidef

/-- So it is in every node. -/
def VoxelOctoTree.Weighed : VoxelOctoTree ℝ → Prop
  | .null => True
  | .node n leaves => n.Weighed ∧ ∀ o, (leaves o).Weighed

variable {cfg : TreeConfig ℝ} {n : OctoNode ℝ} {leaves : Octant → VoxelOctoTree ℝ}
  {pv : PointWithVar ℝ} {t : VoxelOctoTree ℝ}

namespace OctoNode.Weighed

theorem newLeaf (n : OctoNode ℝ) (o : Octant) : (n.newLeaf cfg o).Weighed :=
  ⟨List.forall_mem_nil _, nofun⟩

theorem newVoxel (position : VoxelLocation) : (newVoxel cfg position).Weighed :=
  ⟨List.forall_mem_nil _, nofun⟩

theorem push (h : n.Weighed) (hpv : pv.var.PosSemidef) : (n.push pv).Weighed := by
  refine ⟨fun pv' hpv' => ?_, h.plane⟩
  rcases List.mem_append.mp hpv' with hold | hnew
  · exact h.points pv' hold
  · rw [List.mem_singleton.mp hnew]
    exact hpv

theorem pass (h : n.Weighed) : (n.pass pv).Weighed := ⟨h.points, h.plane⟩

theorem freeze (h : n.Weighed) : n.freeze.Weighed := ⟨List.forall_mem_nil _, h.plane⟩

/-- A fit takes the covariance of the plane from the points. -/
theorem fit (h : n.Weighed) : (n.fit cfg).Weighed := ⟨h.points, initPlane_posSemidef h.points⟩

theorem refit (h : n.Weighed) (hpv : pv.var.PosSemidef) (full : ℕ → Bool) :
    (n.refit cfg full pv).Weighed := by
  unfold OctoNode.refit
  dsimp only
  have hpush := h.push hpv
  have hfit : ((n.push pv).fit cfg).Weighed := hpush.fit
  split
  · split
    · split
      · exact ⟨List.forall_mem_nil _, hfit.plane⟩
      · exact ⟨hfit.points, hfit.plane⟩
    · split
      · exact hpush.freeze
      · exact hpush
  · exact h.pass

end OctoNode.Weighed

theorem weighed_noLeaves (o : Octant) : (noLeaves (K := ℝ) o).Weighed := trivial

theorem weighed_assign (hleaves : ∀ o, (leaves o).Weighed) (ht : t.Weighed) (o o' : Octant) :
    (assign leaves o t o').Weighed := by
  by_cases ho : o' = o
  · rw [ho, assign_self]
    exact ht
  · rw [assign_of_ne ho]
    exact hleaves o'

theorem weighed_distribute (hleaves : ∀ o, (leaves o).Weighed) (hpv : pv.var.PosSemidef)
    (o : Octant) : (distribute cfg n leaves pv o).Weighed := by
  refine weighed_assign hleaves ?_ _ o
  have hleaf := hleaves (n.octant pv.pointW)
  cases hcase : leaves (n.octant pv.pointW) with
  | null => exact ⟨(OctoNode.Weighed.newLeaf n _).push hpv, weighed_noLeaves⟩
  | node m below =>
    rw [hcase] at hleaf
    exact ⟨hleaf.1.push hpv, hleaf.2⟩

theorem weighed_fitLeaf {cut : OctoNode ℝ → (Octant → VoxelOctoTree ℝ) → VoxelOctoTree ℝ}
    (hcut : ∀ (m : OctoNode ℝ) below, m.Weighed → (∀ o, (below o).Weighed) → (cut m below).Weighed)
    (h : t.Weighed) : (fitLeaf cfg cut t).Weighed := by
  cases t with
  | null => exact trivial
  | node m below =>
    obtain ⟨hm, hbelow⟩ := h
    have hfit : (m.fit cfg).Weighed := hm.fit
    rw [fitLeaf]
    split
    · dsimp only
      split
      · refine ⟨?_, hbelow⟩
        split
        · exact ⟨List.forall_mem_nil _, hfit.plane⟩
        · exact ⟨hfit.points, hfit.plane⟩
      · exact hcut _ _ ⟨hfit.points, hfit.plane⟩ hbelow
    · exact ⟨hm, hbelow⟩

theorem weighed_cut (depth : ℕ) (h : n.Weighed) (hleaves : ∀ o, (leaves o).Weighed) :
    (cutOctoTree cfg depth n leaves).Weighed := by
  induction depth generalizing n leaves with
  | zero =>
    refine ⟨?_, hleaves⟩
    split
    · exact ⟨h.points, h.plane⟩
    · exact h
  | succ depth ih =>
    rw [cutOctoTree]
    split
    · exact ⟨⟨h.points, h.plane⟩, hleaves⟩
    · have hfilled (points : List (PointWithVar ℝ)) (hpoints : ∀ pv ∈ points, pv.var.PosSemidef)
          (below : Octant → VoxelOctoTree ℝ) (hbelow : ∀ o, (below o).Weighed) (o : Octant) :
          (points.foldl (distribute cfg n) below o).Weighed := by
        induction points generalizing below with
        | nil => exact hbelow o
        | cons pv points ihpoints =>
          obtain ⟨hpv, hpoints⟩ := List.forall_mem_cons.mp hpoints
          exact ihpoints hpoints _ fun o => weighed_distribute hbelow hpv o
      exact ⟨⟨h.points, h.plane⟩, fun o =>
        weighed_fitLeaf (fun _ _ => ih) (hfilled _ h.points leaves hleaves o)⟩

theorem weighed_initOctoTree (h : n.Weighed) (hleaves : ∀ o, (leaves o).Weighed) :
    (initOctoTree cfg n leaves).Weighed := by
  have hfit : (n.fit cfg).Weighed := h.fit
  rw [initOctoTree]
  split
  · dsimp only
    split
    · refine ⟨?_, hleaves⟩
      split
      · exact ⟨List.forall_mem_nil _, hfit.plane⟩
      · exact ⟨hfit.points, hfit.plane⟩
    · exact weighed_cut _ ⟨hfit.points, hfit.plane⟩ hleaves
  · exact ⟨h, hleaves⟩

theorem weighed_updateFresh (h : n.Weighed) (hleaves : ∀ o, (leaves o).Weighed)
    (hpv : pv.var.PosSemidef) : (updateFresh cfg n leaves pv).Weighed := by
  rw [updateFresh]
  split
  · exact weighed_initOctoTree (h.push hpv) hleaves
  · exact ⟨h.push hpv, hleaves⟩

/-- A point that comes to a tree is kept, passed on or fitted. -/
theorem weighed_update (h : t.Weighed) (hpv : pv.var.PosSemidef) :
    (updateOctoTree cfg pv t).Weighed := by
  induction t with
  | null => exact trivial
  | node n leaves ih =>
    obtain ⟨hn, hleaves⟩ := h
    rw [updateOctoTree]
    split
    · exact weighed_updateFresh hn hleaves hpv
    · split
      · exact ⟨hn.refit hpv _, hleaves⟩
      · split
        · refine ⟨hn.pass, weighed_assign hleaves ?_ _⟩
          have hleaf := ih (n.octant pv.pointW) (hleaves _)
          cases hcase : leaves (n.octant pv.pointW) with
          | null =>
            exact weighed_updateFresh (OctoNode.Weighed.newLeaf n _) weighed_noLeaves hpv
          | node m below =>
            rw [hcase] at hleaf
            exact hleaf
        · exact ⟨hn.refit hpv _, hleaves⟩

/-! ## The map -/

/-- The point that a call inserts. -/
def MapCall.point : MapCall ℝ → PointWithVar ℝ
  | .updateVoxelMap pv => pv
  | .updateOctoTree _ pv => pv

variable {r : Rounding ℝ} {m m' built : Voxels ℝ}

theorem weighed_buildPoint (h : ∀ position, (m position).Weighed) (hpv : pv.var.PosSemidef)
    (hst : buildPoint r cfg m pv = some m') (position : VoxelLocation) :
    (m' position).Weighed := by
  obtain ⟨key, -, rfl⟩ := Option.map_eq_some_iff.mp hst
  by_cases hp : position = key
  · subst hp
    rw [assign_self]
    have hold := h position
    cases hcase : m position with
    | null => exact ⟨(OctoNode.Weighed.newVoxel position).push hpv, weighed_noLeaves⟩
    | node n leaves =>
      rw [hcase] at hold
      exact ⟨hold.1.push hpv, hold.2⟩
  · rw [assign_of_ne hp]
    exact h position

theorem weighed_buildVoxelMap {inputPoints : List (PointWithVar ℝ)}
    (hinput : ∀ pv ∈ inputPoints, pv.var.PosSemidef)
    (h : buildVoxelMap r cfg inputPoints = some m) (position : VoxelLocation) :
    (m position).Weighed := by
  obtain ⟨filled, hfilled, rfl⟩ := Option.map_eq_some_iff.mp h
  have hweighed (start : Voxels ℝ) (hstart : ∀ position, (start position).Weighed)
      (hexec : exec (buildPoint r cfg) start inputPoints = some filled) :
      ∀ position, (filled position).Weighed := by
    clear hfilled h
    induction inputPoints generalizing start with
    | nil =>
      obtain rfl := Option.some.inj hexec
      exact hstart
    | cons pv inputPoints ih =>
      obtain ⟨hpv, hinput⟩ := List.forall_mem_cons.mp hinput
      obtain ⟨next, hnext, hrest⟩ := Option.bind_eq_some_iff.mp hexec
      exact ih hinput next (weighed_buildPoint hstart hpv hnext) hrest
  have hold := hweighed (fun _ => .null) (fun _ => trivial) hfilled position
  beta_reduce
  cases hcase : filled position with
  | null => exact trivial
  | node n leaves =>
    rw [hcase] at hold
    exact weighed_initOctoTree hold.1 hold.2

/-- Maps of points with covariances. -/
theorem weighed_map {inputPoints : List (PointWithVar ℝ)}
    (hinput : ∀ pv ∈ inputPoints, pv.var.PosSemidef)
    (hbuilt : buildVoxelMap r cfg inputPoints = some built)
    (h : Reach (mapStep r cfg) (fun _ call => call.point.var.PosSemidef) built m)
    (position : VoxelLocation) : (m position).Weighed := by
  refine Reach.invariant (I := fun m => ∀ position, (m position).Weighed) ?_ ?_ h position
  · exact weighed_buildVoxelMap hinput hbuilt
  · intro m m' call _ hinv hvar hst position'
    obtain ⟨key, pv, hinserts, rfl⟩ := mapStep_cases hst
    have hpv : pv.var.PosSemidef := by
      cases call with
      | updateVoxelMap pv' =>
        obtain ⟨rfl, -⟩ := hinserts
        exact hvar
      | updateOctoTree key' pv' =>
        obtain ⟨-, rfl⟩ := hinserts
        exact hvar
    have hvoxel : (voxelAt cfg m key).Weighed := by
      have hold := hinv key
      unfold voxelAt
      cases hcase : m key with
      | null => exact ⟨OctoNode.Weighed.newVoxel key, weighed_noLeaves⟩
      | node n leaves =>
        rw [hcase] at hold
        exact hold
    by_cases hp : position' = key
    · rw [hp, assign_self]
      exact weighed_update hvoxel hpv
    · rw [assign_of_ne hp]
      exact hinv position'

/-! ## The points -/

section Points

open Frontend

variable {C : Carrier} {lio : LioConfig} {state : ExactState C}

theorem diagBlock_posSemidef (h : (covOf state).PosSemidef) (b : StateBlock) :
    (diagBlock (covOf state) b).PosSemidef := h.submatrix fun i => some (b, i)

theorem mul_mul_transpose_posSemidef {M : Mat3} (h : M.PosSemidef) (A : Mat3) :
    (A * M * Aᵀ).PosSemidef := by
  have hpos := h.mul_mul_conjTranspose_same A
  rwa [conjTranspose_eq_transpose_of_trivial] at hpos

/-- The points of the first map have covariances. -/
theorem buildVar_posSemidef (h : (covOf state).PosSemidef) (q : PointType) :
    (buildVar lio state q).PosSemidef :=
  ((mul_mul_transpose_posSemidef (calcBodyCov_posSemidef _ _ _) _).add
    (mul_mul_transpose_posSemidef (diagBlock_posSemidef h .rot) _)).add
      (diagBlock_posSemidef h .pos)

/-- And so have those that the map is updated with. -/
theorem updateVar_posSemidef (h : (covOf state).PosSemidef) (q : PointType) :
    (updateVar lio state q).PosSemidef :=
  ((mul_mul_transpose_posSemidef (calcBodyCov_posSemidef _ _ _) _).add
    (mul_mul_transpose_posSemidef (diagBlock_posSemidef h .rot) _)).add
      (diagBlock_posSemidef h .pos)

end Points

/-! ## The matches -/

theorem Offered.weighed {maxLayer layer : ℕ} {e : ℕ × VoxelPlane ℝ}
    (h : Offered maxLayer t layer e) (ht : t.Weighed) : e.2.planeVar.PosSemidef := by
  induction h with
  | here isPlane => exact ht.1.plane isPlane
  | descend isPlane deeper o leaf ih => exact ih (ht.2 o)

/-- An entry of `ptpl_list`, as the update reads it. -/
structure PointToPlane.ReadAs (ptpl : PointToPlane) (row : Frontend.PointToPlane) : Prop where
  pointB : row.pointB = ptpl.pointB
  normal : row.normal = ptpl.normal
  center : row.center = ptpl.center
  planeVar : row.planeVar = ptpl.planeVar
  bodyCov : row.bodyCov = ptpl.bodyCov
  disToPlane : row.disToPlane = ptpl.disToPlane

theorem exists_readAs {ptplList : List PointToPlane}
    (h : ∀ ptpl ∈ ptplList, ptpl.planeVar.PosSemidef ∧ ptpl.bodyCov.PosSemidef) :
    ∃ rows, List.Forall₂ PointToPlane.ReadAs ptplList rows := by
  induction ptplList with
  | nil => exact ⟨[], .nil⟩
  | cons ptpl ptplList ih =>
    obtain ⟨⟨hplane, hbody⟩, hrest⟩ := List.forall_mem_cons.mp h
    obtain ⟨rows, hrows⟩ := ih hrest
    exact ⟨⟨ptpl.pointB, ptpl.normal, ptpl.center, ptpl.planeVar, ptpl.bodyCov, ptpl.disToPlane,
      hplane, hbody⟩ :: rows, .cons ⟨rfl, rfl, rfl, rfl, rfl, rfl⟩ hrows⟩

/-- What the map answers has the covariances of its planes and of the points asked for. -/
theorem ptplList_posSemidef {search : MatchConfig} {voxelSize : ℝ}
    {pvList pvList' : List Frontend.PointWithVar} {ptplList : List PointToPlane}
    (hmap : ∀ position, (m position).Weighed) (hbody : ∀ pv ∈ pvList, pv.bodyVar.PosSemidef)
    (h : buildResidualListOMP r voxelSize search m pvList = some (pvList', ptplList)) :
    ∀ ptpl ∈ ptplList, ptpl.planeVar.PosSemidef ∧ ptpl.bodyCov.PosSemidef := by
  intro ptpl hptpl
  obtain ⟨pv, hpv, position, e, hbest, rfl⟩ := mem_buildResidualListOMP h hptpl
  exact ⟨hbest.offered.weighed (hmap position), hbody pv hpv⟩

/-- In every iteration of the update, what a map of points with covariances answers is a list of
matches that the update can weigh. -/
theorem exists_matches {C : Carrier} {c : Frontend.LioCall C} {manager : Frontend.VoxelMapManager C}
    {p : Frontend.LioPass C} {search : MatchConfig} {voxelSize : ℝ}
    (hmap : ∀ position, (m position).Weighed)
    (hp : p ∈ (Frontend.stateEstimation c manager).2) :
    ∃ iter pvList, p.ptplList = (c.kernel.buildResidualList iter pvList).2 ∧
      ∀ pvList' ptplList,
        buildResidualListOMP r voxelSize search m pvList = some (pvList', ptplList) →
          ∃ rows, List.Forall₂ PointToPlane.ReadAs ptplList rows := by
  obtain ⟨iter, pvList, hprepared, hptpl⟩ := Frontend.exists_pvList rfl hp
  refine ⟨iter, pvList, hptpl, fun pvList' ptplList h => exists_readAs ?_⟩
  refine ptplList_posSemidef hmap (fun pv hpv => ?_) h
  obtain ⟨q, hq⟩ := hprepared pv hpv
  rw [hq]
  exact Frontend.calcBodyCov_posSemidef _ _ _

end

end FastLivo.VoxelMap
