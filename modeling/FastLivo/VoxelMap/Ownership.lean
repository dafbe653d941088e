import FastLivo.VoxelMap.Split
import Mathlib.Algebra.BigOperators.Group.Finset.Basic
import Mathlib.Algebra.Order.BigOperators.Group.Finset
import Mathlib.Algebra.Order.Group.Multiset

/-!
# How often a point is stored

`cut_octo_tree` copies the points of a node to its leaves and keeps its own. A point is stored
in one node that is not split, and once more in every split node above it.
-/

namespace FastLivo.VoxelMap

open Lib

variable {K : Type*} [Field K] [LinearOrder K]

/-- The points in `temp_points_` of the nodes of a tree. -/
def VoxelOctoTree.stored : VoxelOctoTree K → Multiset (PointWithVar K)
  | .null => 0
  | .node n leaves => n.tempPoints + ∑ o, (leaves o).stored

/-- The points in `temp_points_` of the nodes that are not split. -/
def VoxelOctoTree.storedUnsplit : VoxelOctoTree K → Multiset (PointWithVar K)
  | .null => 0
  | .node n leaves =>
    (if n.octoState = 0 then (n.tempPoints : Multiset (PointWithVar K)) else 0) +
      ∑ o, (leaves o).storedUnsplit

/-- The points in `temp_points_` of the nodes of one layer. -/
def VoxelOctoTree.storedIn (layer : ℕ) : VoxelOctoTree K → Multiset (PointWithVar K)
  | .null => 0
  | .node n leaves =>
    (if n.layer = layer then (n.tempPoints : Multiset (PointWithVar K)) else 0) +
      ∑ o, (leaves o).storedIn layer

/-- A split node keeps the points that it distributed, which are the first of its leaves. -/
def SplitKeeps : VoxelOctoTree K → Prop
  | .null => True
  | .node n leaves =>
    (n.octoState = 1 → n.pointsSizeThreshold < n.tempPoints.length ∧
      ∀ o, n.within o n.tempPoints <+: (leaves o).arrived) ∧ ∀ o, SplitKeeps (leaves o)

variable {cfg : TreeConfig K} {stuckOk : Prop} {n : OctoNode K}
  {leaves : Octant → VoxelOctoTree K} {position : VoxelLocation}

/-- The octants share points out. -/
theorem sum_within (n : OctoNode K) (points : List (PointWithVar K)) :
    ∑ o, (n.within o points : Multiset (PointWithVar K)) = points := by
  induction points with
  | nil => exact Finset.sum_const_zero
  | cons pv points ih =>
    have hcons : ∀ o, (n.within o (pv :: points) : Multiset (PointWithVar K)) =
        (if n.octant pv.pointW = o then {pv} else 0) + n.within o points := by
      intro o
      unfold OctoNode.within
      by_cases h : n.octant pv.pointW = o <;> simp [h]
    simp only [hcons, Finset.sum_add_distrib, Finset.sum_ite_eq, Finset.mem_univ, if_true, ih]
    rfl

/-- What is stored in a node that is not split, with what came to its leaves, came to it. -/
theorem Phase.unsplit_le (h : Phase cfg stuckOk n leaves) :
    (if n.octoState = 0 then (n.tempPoints : Multiset (PointWithVar K)) else 0) +
      ∑ o, ((leaves o).arrived : Multiset (PointWithVar K)) ≤ n.arrived := by
  have hnone : leaves = noLeaves → ∑ o, ((leaves o).arrived : Multiset (PointWithVar K)) = 0 := by
    rintro rfl
    exact Finset.sum_const_zero
  cases h with
  | fresh _ hstate hleaves hkept =>
    rw [hnone hleaves, add_zero, if_pos hstate, hkept]
  | closed _ _ hstate hleaves hkept =>
    rw [hnone hleaves, add_zero, if_pos hstate]
    exact Multiset.coe_le.mpr hkept.subperm
  | split _ _ _ hstate _ _ hpassed =>
    rw [if_neg (by omega), zero_add, Finset.sum_congr rfl fun o _ => by rw [hpassed o], sum_within]
  | stuck _ _ _ hstate before after harrived hkept hpassed =>
    rw [if_pos hstate, Finset.sum_congr rfl fun o _ => by rw [hpassed o], sum_within, harrived,
      ← Multiset.coe_add]
    exact add_le_add_left (Multiset.coe_le.mpr hkept.subperm) _

/-- Every point is stored in at most one node that is not split. -/
theorem storedUnsplit_le (t : VoxelOctoTree K) (h : Inv cfg stuckOk t) :
    t.storedUnsplit ≤ t.arrived := by
  induction t with
  | null => exact le_refl _
  | node n leaves ih =>
    refine le_trans ?_ h.1.phase.unsplit_le
    exact add_le_add_right (Finset.sum_le_sum fun o _ => ih o (h.2 o)) _

/-- Every node below is in a later layer. -/
theorem storedIn_eq_zero (t : VoxelOctoTree K) (h : Inv cfg stuckOk t) {layer : ℕ}
    (hlayer : ∀ n leaves, t = .node n leaves → layer < n.layer) : t.storedIn layer = 0 := by
  induction t with
  | null => rfl
  | node n leaves ih =>
    have hlt := hlayer n leaves rfl
    have hbelow : ∀ o, (leaves o).storedIn layer = 0 := by
      intro o
      refine ih o (h.2 o) fun m below hm => ?_
      rw [(h.1.leaf o m below hm).layer]
      omega
    simp only [VoxelOctoTree.storedIn, hbelow, Finset.sum_const_zero, add_zero]
    exact if_neg (by omega)

/-- A point is stored at most once in each layer. -/
theorem storedIn_le (t : VoxelOctoTree K) (h : Inv cfg stuckOk t) (layer : ℕ) :
    t.storedIn layer ≤ t.arrived := by
  induction t with
  | null => exact le_refl _
  | node n leaves ih =>
    obtain ⟨hnode, hleaves⟩ := h
    rw [VoxelOctoTree.storedIn]
    by_cases hlayer : n.layer = layer
    · have hbelow : ∀ o, (leaves o).storedIn layer = 0 := by
        intro o
        refine storedIn_eq_zero _ (hleaves o) fun m below hm => ?_
        rw [(hnode.leaf o m below hm).layer]
        omega
      rw [if_pos hlayer, Finset.sum_congr rfl fun o _ => hbelow o, Finset.sum_const_zero, add_zero]
      exact Multiset.coe_le.mpr hnode.phase.stored.subperm
    · rw [if_neg hlayer, zero_add]
      calc ∑ o, (leaves o).storedIn layer
          ≤ ∑ o, ((leaves o).arrived : Multiset (PointWithVar K)) :=
            Finset.sum_le_sum fun o _ => ih o (hleaves o)
        _ ≤ n.arrived := le_trans (Multiset.le_add_left _ _) hnode.phase.unsplit_le

theorem splitKeeps_of_inv (t : VoxelOctoTree K) (h : Inv cfg stuckOk t) : SplitKeeps t := by
  induction t with
  | null => trivial
  | node n leaves ih =>
    refine ⟨fun hstate => ?_, fun o => ih o (h.2 o)⟩
    cases h.1.phase with
    | split _ _ _ _ hfull hkept hpassed =>
      refine ⟨hfull, fun o => ?_⟩
      rw [hpassed o]
      exact hkept.filter _
    | fresh _ hzero | closed _ _ hzero | stuck _ _ _ hzero => omega

/-- Below a node in some layer, a point is stored at most once in each layer from there on. -/
theorem stored_le (t : VoxelOctoTree K) (h : Inv cfg stuckOk t) (depth : ℕ)
    (hdepth : ∀ n leaves, t = .node n leaves → cfg.maxLayer < n.layer + depth) :
    t.stored ≤ depth • (t.arrived : Multiset (PointWithVar K)) := by
  induction t generalizing depth with
  | null => exact Multiset.zero_le _
  | node n leaves ih =>
    obtain ⟨hnode, hleaves⟩ := h
    have hlast := hdepth n leaves rfl
    have hlayer := hnode.layer
    obtain ⟨d, rfl⟩ : ∃ d, depth = d + 1 := ⟨depth - 1, by omega⟩
    have hbelow : ∀ o, (leaves o).stored ≤ d • ((leaves o).arrived : Multiset (PointWithVar K)) := by
      intro o
      refine ih o (hleaves o) d fun m below hm => ?_
      rw [(hnode.leaf o m below hm).layer]
      omega
    have hsum : ∑ o, ((leaves o).arrived : Multiset (PointWithVar K)) ≤ n.arrived :=
      le_trans (Multiset.le_add_left _ _) hnode.phase.unsplit_le
    calc (n.tempPoints : Multiset (PointWithVar K)) + ∑ o, (leaves o).stored
        ≤ n.arrived + ∑ o, d • ((leaves o).arrived : Multiset (PointWithVar K)) :=
          add_le_add (Multiset.coe_le.mpr hnode.phase.stored.subperm)
            (Finset.sum_le_sum fun o _ => hbelow o)
      _ = n.arrived + d • ∑ o, ((leaves o).arrived : Multiset (PointWithVar K)) := by
          rw [Finset.smul_sum]
      _ ≤ n.arrived + d • (n.arrived : Multiset (PointWithVar K)) :=
          add_le_add_right (nsmul_le_nsmul_right hsum d) _
      _ = (d + 1) • (n.arrived : Multiset (PointWithVar K)) := by rw [succ_nsmul, add_comm]

variable [FloorRing K]

/-- In every map that is reached, a point is stored in at most one node that is not split, and in
at most one of each layer; a split node keeps what it distributed. -/
theorem points_stored {r : Rounding K} {m : Voxels K} (h : MapRun r cfg (fun _ _ => True) m)
    (position : VoxelLocation) :
    (m position).storedUnsplit ≤ (m position).arrived ∧
      (∀ layer, (m position).storedIn layer ≤ (m position).arrived) ∧
      (m position).stored ≤ (cfg.maxLayer + 1) • ((m position).arrived : Multiset (PointWithVar K)) ∧
      (m position).stored.card ≤ (cfg.maxLayer + 1) * (m position).arrived.length ∧
      SplitKeeps (m position) := by
  have hvoxel : VoxelInv cfg True (fun _ _ => True) position (m position) :=
    h.voxelInv (fun _ _ _ => trivial) (fun _ _ _ _ _ _ => trivial)
      (fun _ _ _ _ _ _ hno => absurd trivial hno) position
  have hstored : (m position).stored ≤
      (cfg.maxLayer + 1) • ((m position).arrived : Multiset (PointWithVar K)) := by
    refine stored_le _ hvoxel.inv _ fun n leaves hn => ?_
    rw [(hvoxel.root n leaves hn).layer]
    omega
  refine ⟨storedUnsplit_le _ hvoxel.inv, storedIn_le _ hvoxel.inv, hstored, ?_,
    splitKeeps_of_inv _ hvoxel.inv⟩
  have hcard := Multiset.card_le_card hstored
  rwa [Multiset.card_nsmul, Multiset.coe_card] at hcard

/-- A square of points with its poles is no plane. -/
theorem cut_built : ∃ m, buildVoxelMap .exact .sample (PointWithVar.square ++ PointWithVar.poles) =
    some m ∧ (m fun _ => 0).arrived.length = 14 ∧ (m fun _ => 0).stored.card = 28 := by
  have htest : (buildVoxelMap .exact .sample (PointWithVar.square ++ PointWithVar.poles)).any
      (fun m => (m fun _ => 0).arrived.length = 14 ∧ (m fun _ => 0).stored.card = 28) = true := by
    decide +kernel
  cases hbuilt : buildVoxelMap .exact .sample (PointWithVar.square ++ PointWithVar.poles) with
  | none =>
    rw [hbuilt] at htest
    cases htest
  | some m =>
    rw [hbuilt, Option.any_some, decide_eq_true_iff] at htest
    exact ⟨m, rfl, htest⟩

theorem points_stored_cut : ∃ t : VoxelOctoTree ℚ, t.arrived.length = 14 ∧ t.stored.card = 28 ∧
    t.storedUnsplit ≤ t.arrived := by
  obtain ⟨m, hbuilt, harrived, hstored⟩ := cut_built
  exact ⟨m fun _ => 0, harrived, hstored, (points_stored ⟨_, _, hbuilt, .start⟩ fun _ => 0).1⟩

/-- A cut leaves every point stored twice. -/
theorem stored_twice : ∃ m, MapRun .exact .sample (fun _ _ => True) m ∧
    (m fun _ => 0).arrived.length < (m fun _ => 0).stored.card := by
  obtain ⟨m, hbuilt, harrived, hstored⟩ := cut_built
  refine ⟨m, ⟨_, _, hbuilt, .start⟩, ?_⟩
  rw [harrived, hstored]
  decide

end FastLivo.VoxelMap
