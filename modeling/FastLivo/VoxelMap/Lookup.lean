import FastLivo.VoxelMap.Ownership

/-!
# Lookup

`find_correspond` descends on its own. It ends at the node that took the last point, also when
that point made the tree grow.
-/

namespace FastLivo.VoxelMap

open Lib

variable {K : Type*} [Field K] [LinearOrder K]

/-- The node at the end of a path. -/
def VoxelOctoTree.at : List Octant → VoxelOctoTree K → VoxelOctoTree K
  | [], t => t
  | _ :: _, .null => .null
  | o :: path, .node _ leaves => (leaves o).at path

/-- `find_correspond`: the path to the node that it returns. -/
def findCorrespond (cfg : TreeConfig K) (pw : Fin 3 → K) : VoxelOctoTree K → List Octant
  | .null => []
  | .node n leaves =>
    if !n.initOcto || n.plane.isPlane || decide (cfg.maxLayer ≤ n.layer) then []
    else
      match leaves (n.octant pw) with
      | .null => []
      | .node .. => n.octant pw :: findCorrespond cfg pw (leaves (n.octant pw))

/-- A node took a point last: the point came to it, went no further, and was kept unless the
node takes no more. -/
structure TookLast (pv : PointWithVar K) (n : OctoNode K) (leaves : Octant → VoxelOctoTree K) :
    Prop where
  came : n.arrived.getLast? = some pv
  stayed : leaves (n.octant pv.pointW) = .null
  kept : pv ∈ n.tempPoints ∨ n.updateEnable = false

/-- `find_correspond` of a point returns the node that took it last. -/
def Found (cfg : TreeConfig K) (pv : PointWithVar K) (t : VoxelOctoTree K) : Prop :=
  ∃ n leaves, t.at (findCorrespond cfg pv.pointW t) = .node n leaves ∧ TookLast pv n leaves

variable {cfg : TreeConfig K} {stuckOk : Prop} {n m : OctoNode K} {o : Octant}
  {leaves below : Octant → VoxelOctoTree K} {pv : PointWithVar K}

theorem findCorrespond_stayed (pw : Fin 3 → K) (hnone : leaves (n.octant pw) = .null) :
    findCorrespond cfg pw (.node n leaves) = [] := by
  rw [findCorrespond, hnone]
  split <;> rfl

theorem findCorrespond_passed (pw : Fin 3 → K) (hinit : n.initOcto = true)
    (hplane : n.plane.isPlane = false) (hlt : n.layer < cfg.maxLayer)
    (hleaf : leaves (n.octant pw) = .node m below) :
    findCorrespond cfg pw (.node n leaves) =
      n.octant pw :: findCorrespond cfg pw (leaves (n.octant pw)) := by
  rw [findCorrespond, if_neg (by simp [hinit, hplane, hlt])]
  simp only [hleaf]

/-- A node without a leaf for the point is the one that is found. -/
theorem TookLast.found (h : TookLast pv n leaves) : Found cfg pv (.node n leaves) := by
  refine ⟨n, leaves, ?_, h⟩
  rw [findCorrespond_stayed _ h.stayed]
  rfl

/-- A node that is split has what is found in the leaf. -/
theorem Found.passed (hinit : n.initOcto = true) (hplane : n.plane.isPlane = false)
    (hlt : n.layer < cfg.maxLayer) (h : Found cfg pv (leaves (n.octant pv.pointW))) :
    Found cfg pv (.node n leaves) := by
  obtain ⟨m, below, hat, htook⟩ := h
  cases hleaf : leaves (n.octant pv.pointW) with
  | null =>
    rw [hleaf] at hat
    cases hat
  | node m' below' =>
    refine ⟨m, below, ?_, htook⟩
    rw [findCorrespond_passed _ hinit hplane hlt hleaf]
    exact hat

/-! ## Growth -/

theorem within_getLast? {points : List (PointWithVar K)} (h : points.getLast? = some pv) :
    (n.within (n.octant pv.pointW) points).getLast? = some pv := by
  obtain ⟨before, rfl⟩ := List.getLast?_eq_some_iff.mp h
  rw [within_append, if_pos rfl, List.getLast?_append, List.getLast?_singleton, Option.some_or]

/-- A plane that is new keeps its points, unless they are too many. -/
theorem found_plane (hkept : n.tempPoints.getLast? = some pv) (hcame : n.arrived.getLast? = some pv)
    (p : Prop) [Decidable p] :
    Found cfg pv (.node (if p then { n with octoState := 0 }.freeze else { n with octoState := 0 })
      noLeaves) := by
  apply TookLast.found
  split
  · exact ⟨hcame, rfl, .inr rfl⟩
  · exact ⟨hcame, rfl, .inl (List.mem_of_getLast? hkept)⟩

/-- The second loop of `cut_octo_tree` on a leaf that took the point. -/
theorem found_fitLeaf {cut : OctoNode K → (Octant → VoxelOctoTree K) → VoxelOctoTree K}
    (hcut : ∀ m : OctoNode K, m.layer = n.layer → m.initOcto = true → m.plane.isPlane = false →
      m.tempPoints.getLast? = some pv → m.arrived.getLast? = some pv →
      Found cfg pv (cut m noLeaves))
    (hkept : n.tempPoints.getLast? = some pv) (hcame : n.arrived.getLast? = some pv) :
    Found cfg pv (fitLeaf cfg cut (.node n noLeaves)) := by
  rw [fitLeaf]
  split
  · dsimp only
    split
    · exact found_plane (n := { n.fit cfg with initOcto := true, newPoints := 0 }) hkept hcame _
    · rename_i hplane
      exact hcut { n.fit cfg with initOcto := true, newPoints := 0, octoState := 1 } rfl rfl
        (Bool.eq_false_iff.mpr hplane) hkept hcame
  · exact TookLast.found ⟨hcame, rfl, .inl (List.mem_of_getLast? hkept)⟩

/-- `cut_octo_tree` sends the point where a lookup goes. -/
theorem found_cut (depth : ℕ) (hdepth : cfg.maxLayer ≤ n.layer + depth)
    (hinit : n.initOcto = true) (hplane : n.plane.isPlane = false)
    (hkept : n.tempPoints.getLast? = some pv) (hcame : n.arrived.getLast? = some pv) :
    Found cfg pv (cutOctoTree cfg depth n noLeaves) := by
  have hlast : ∀ m : OctoNode K, m.tempPoints.getLast? = some pv → m.arrived.getLast? = some pv →
      Found cfg pv (.node { m with octoState := 0 } noLeaves) := fun m hmkept hmcame =>
    TookLast.found ⟨hmcame, rfl, .inl (List.mem_of_getLast? hmkept)⟩
  induction depth generalizing n with
  | zero =>
    rw [cutOctoTree, if_pos (by omega)]
    exact hlast n hkept hcame
  | succ depth ih =>
    rw [cutOctoTree]
    split
    · exact hlast n hkept hcame
    · rename_i hlt
      dsimp only
      simp only [distribute_eq]
      have hwithin := within_getLast? (n := n) hkept
      have hne : n.within (n.octant pv.pointW) n.tempPoints ≠ [] := by
        intro hnil
        rw [hnil] at hwithin
        cases hwithin
      refine Found.passed ?_ ?_ ?_ ?_
      · exact hinit
      · exact hplane
      · exact not_le.mp hlt
      show Found cfg pv (fitLeaf cfg (cutOctoTree cfg depth)
        (leafWith cfg n (n.octant pv.pointW) (n.within (n.octant pv.pointW) n.tempPoints)))
      rw [leafWith, if_neg hne]
      refine found_fitLeaf (fun m hm hminit hmplane hmkept hmcame => ?_) hwithin hwithin
      have hlayer : m.layer = n.layer + 1 := hm
      exact ih (by omega) hminit hmplane hmkept hmcame

/-! ## Insertion -/

/-- `UpdateOctoTree` on a node that was not fitted yet. -/
theorem found_updateFresh (n : OctoNode K) (pv : PointWithVar K) :
    Found cfg pv (updateFresh cfg n noLeaves pv) := by
  have hkept : (n.push pv).tempPoints.getLast? = some pv := List.getLast?_concat
  have hcame : (n.push pv).arrived.getLast? = some pv := List.getLast?_concat
  rw [updateFresh]
  split
  · have hsame : initOctoTree cfg (n.push pv) noLeaves =
        fitLeaf cfg (cutOctoTree cfg (cfg.maxLayer - n.layer)) (.node (n.push pv) noLeaves) := by
      rw [initOctoTree, fitLeaf]
      rfl
    rw [hsame]
    refine found_fitLeaf (fun m hm hinit hplane hmkept hmcame => ?_) hkept hcame
    have hlayer : m.layer = n.layer := hm
    exact found_cut _ (by omega) hinit hplane hmkept hmcame
  · exact TookLast.found ⟨hcame, rfl, .inl (List.mem_of_getLast? hkept)⟩

/-- A node that takes the point itself, also when the fit then refutes its plane. -/
theorem found_refit (full : ℕ → Bool) (n : OctoNode K) (pv : PointWithVar K) :
    Found cfg pv (.node (n.refit cfg full pv) noLeaves) := by
  have hcame : (n.arrived ++ [pv]).getLast? = some pv := List.getLast?_concat
  have hkept : pv ∈ n.tempPoints ++ [pv] := List.mem_append_right _ (List.mem_singleton_self _)
  apply TookLast.found
  unfold OctoNode.refit
  split
  · dsimp only
    split <;> split <;>
      first
      | exact ⟨hcame, rfl, .inr rfl⟩
      | exact ⟨hcame, rfl, .inl hkept⟩
  · rename_i hfrozen
    exact ⟨hcame, rfl, .inr (Bool.eq_false_iff.mpr hfrozen)⟩

/-- A node that is a plane or in the last layer, or was not fitted yet, has no leaves. -/
theorem Phase.noLeaves_of_ends (h : Phase cfg stuckOk n leaves)
    (hends : n.initOcto = false ∨ n.plane.isPlane = true ∨ n.layer = cfg.maxLayer) :
    leaves = noLeaves := by
  cases h with
  | fresh _ _ hleaves => exact hleaves
  | closed _ _ _ hleaves => exact hleaves
  | split hinit hplane hlt =>
    rw [hinit, hplane] at hends
    have : n.layer = cfg.maxLayer := by simpa using hends
    omega
  | stuck hinit hplane hlt =>
    rw [hinit, hplane] at hends
    have : n.layer = cfg.maxLayer := by simpa using hends
    omega

/-- An insertion and a lookup end at one node. -/
theorem found_update (t : VoxelOctoTree K) (ht : t = .node n leaves) (hinv : Inv cfg stuckOk t) :
    Found cfg pv (updateOctoTree cfg pv t) := by
  induction t generalizing n leaves with
  | null => cases ht
  | node n' leaves' ih =>
    obtain ⟨hnode, hleaves⟩ := hinv
    rw [updateOctoTree]
    by_cases hinit : n'.initOcto = true
    · rw [hinit, if_neg (by decide)]
      by_cases hplane : n'.plane.isPlane = true
      · rw [if_pos hplane, hnode.phase.noLeaves_of_ends (.inr (.inl hplane))]
        exact found_refit _ n' pv
      · rw [if_neg hplane]
        by_cases hlt : n'.layer < cfg.maxLayer
        · rw [if_pos hlt]
          apply Found.passed (n := n'.pass pv) hinit (Bool.eq_false_iff.mpr hplane) hlt
          show Found cfg pv (assign leaves' (n'.octant pv.pointW) _ (n'.octant pv.pointW))
          rw [assign_self]
          cases hleaf : leaves' (n'.octant pv.pointW) with
          | null => exact found_updateFresh _ pv
          | node m below =>
            show Found cfg pv (updateOctoTree cfg pv (.node m below))
            have hbelow := ih (n'.octant pv.pointW) hleaf (hleaves _)
            rwa [hleaf] at hbelow
        · have hlast : n'.layer = cfg.maxLayer := hnode.layer.antisymm (not_lt.mp hlt)
          rw [if_neg hlt, hnode.phase.noLeaves_of_ends (.inr (.inr hlast))]
          exact found_refit _ n' pv
    · rw [Bool.eq_false_iff.mpr hinit, Bool.not_false, if_pos rfl,
        hnode.phase.noLeaves_of_ends (.inl (Bool.eq_false_iff.mpr hinit))]
      exact found_updateFresh n' pv

variable [FloorRing K]

/-- In every map that is reached, `UpdateOctoTree` of any point on any voxel, or on a new one,
leads to a tree in which `find_correspond` returns the node that took the point. -/
theorem lookup_agrees {r : Rounding K} {m : Voxels K} (h : MapRun r cfg (fun _ _ => True) m)
    (position : VoxelLocation) (pv : PointWithVar K) :
    Found cfg pv (updateOctoTree cfg pv (voxelAt cfg m position)) := by
  have hvoxel : VoxelInv cfg True (fun _ _ => True) position (m position) :=
    h.voxelInv (fun _ _ _ => trivial) (fun _ _ _ _ _ _ => trivial)
      (fun _ _ _ _ _ _ hno => absurd trivial hno) position
  unfold voxelAt
  cases hold : m position with
  | null =>
    have hnew : Inv cfg True (.node (newVoxel cfg position) noLeaves) :=
      inv_noLeaves (Nat.zero_le _) (.fresh rfl rfl rfl rfl)
    exact found_update _ rfl hnew
  | node n leaves =>
    rw [hold] at hvoxel
    exact found_update _ rfl hvoxel.inv

theorem lookup_agrees_cut : ∃ m : Voxels ℚ, (m fun _ => 0).arrived.length = 14 ∧
    Found .sample .corner (updateOctoTree .sample .corner (voxelAt .sample m fun _ => 0)) := by
  obtain ⟨m, hbuilt, harrived, -⟩ := cut_built
  exact ⟨m, harrived, lookup_agrees ⟨_, _, hbuilt, .start⟩ (fun _ => 0) .corner⟩

end FastLivo.VoxelMap
