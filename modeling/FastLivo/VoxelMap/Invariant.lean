import FastLivo.VoxelMap.Octree

/-!
# What every node keeps

A node is new, closed, split, or stuck: a plane that a later fit refuted keeps its points and
passes on only what comes after them. `Inv` follows each operation down the tree.
-/

namespace FastLivo.VoxelMap

open Lib

variable {K : Type*} [Field K] [LinearOrder K]

/-- The points that came to a tree. -/
def VoxelOctoTree.arrived : VoxelOctoTree K → List (PointWithVar K)
  | .null => []
  | .node n _ => n.arrived

/-- A test of the root of a tree. -/
def VoxelOctoTree.rootIs {F : Type*} [Field F] (p : OctoNode F → Prop) [DecidablePred p] :
    VoxelOctoTree F → Bool
  | .null => false
  | .node n _ => p n

theorem exists_of_rootIs {F : Type*} [Field F] {p : OctoNode F → Prop} [DecidablePred p]
    {t : VoxelOctoTree F} (h : t.rootIs p = true) : ∃ n leaves, t = .node n leaves ∧ p n := by
  cases t with
  | null => cases h
  | node n leaves => exact ⟨n, leaves, rfl, of_decide_eq_true h⟩

/-- The points of an octant. -/
def OctoNode.within (n : OctoNode K) (o : Octant) (points : List (PointWithVar K)) :
    List (PointWithVar K) :=
  points.filter fun pv => n.octant pv.pointW = o

/-- A leaf has its place below the node. -/
structure LeafOf (n m : OctoNode K) (o : Octant) : Prop where
  layer : m.layer = n.layer + 1
  voxelCenter : ∀ j, m.voxelCenter j = n.voxelCenter j + (if o j then 1 else -1) * n.quaterLength
  quaterLength : m.quaterLength = n.quaterLength / 2

/-- Where a node is in its life. `stuckOk` says whether it can be stuck. -/
inductive Phase (cfg : TreeConfig K) (stuckOk : Prop) (n : OctoNode K)
    (leaves : Octant → VoxelOctoTree K) : Prop
  /-- Not fitted yet. -/
  | fresh (initOcto : n.initOcto = false) (octoState : n.octoState = 0)
      (leaves : leaves = noLeaves) (kept : n.tempPoints = n.arrived)
  /-- A plane, or in the last layer. -/
  | closed (initOcto : n.initOcto = true) (last : n.plane.isPlane = true ∨ n.layer = cfg.maxLayer)
      (octoState : n.octoState = 0) (leaves : leaves = noLeaves)
      (kept : n.tempPoints.Sublist n.arrived)
  /-- No plane: all points were passed to the leaves. -/
  | split (initOcto : n.initOcto = true) (isPlane : n.plane.isPlane = false)
      (layer : n.layer < cfg.maxLayer) (octoState : n.octoState = 1)
      (full : n.pointsSizeThreshold < n.tempPoints.length) (kept : n.tempPoints <+: n.arrived)
      (passed : ∀ o, (leaves o).arrived = n.within o n.arrived)
  /-- No plane any more: only the later points were passed to the leaves. -/
  | stuck (initOcto : n.initOcto = true) (isPlane : n.plane.isPlane = false)
      (layer : n.layer < cfg.maxLayer) (octoState : n.octoState = 0) (before after : List (PointWithVar K))
      (arrived : n.arrived = before ++ after) (kept : n.tempPoints.Sublist before)
      (passed : ∀ o, (leaves o).arrived = n.within o after) (ok : stuckOk)

/-- A node in its place, with its leaves. -/
structure NodeInv (cfg : TreeConfig K) (stuckOk : Prop) (n : OctoNode K)
    (leaves : Octant → VoxelOctoTree K) : Prop where
  layer : n.layer ≤ cfg.maxLayer
  leaf : ∀ o m below, leaves o = .node m below → LeafOf n m o
  phase : Phase cfg stuckOk n leaves

/-- Every node of a tree is in order. -/
def Inv (cfg : TreeConfig K) (stuckOk : Prop) : VoxelOctoTree K → Prop
  | .null => True
  | .node n leaves => NodeInv cfg stuckOk n leaves ∧ ∀ o, Inv cfg stuckOk (leaves o)

variable {cfg : TreeConfig K} {stuckOk : Prop} {n m : OctoNode K} {o : Octant}
  {leaves below : Octant → VoxelOctoTree K} {pv : PointWithVar K} {points : List (PointWithVar K)}

/-- A node without leaves is in order when its phase is. -/
theorem inv_noLeaves (hlayer : n.layer ≤ cfg.maxLayer) (hphase : Phase cfg stuckOk n noLeaves) :
    Inv cfg stuckOk (.node n noLeaves) :=
  ⟨⟨hlayer, nofun, hphase⟩, fun _ => trivial⟩

/-! ## Splitting -/

/-- The leaf that points of one octant are put into. -/
def leafWith (cfg : TreeConfig K) (n : OctoNode K) (o : Octant) (points : List (PointWithVar K)) :
    VoxelOctoTree K :=
  if points = [] then .null
  else .node { n.newLeaf cfg o with
    tempPoints := points
    newPoints := points.length
    arrived := points } noLeaves

theorem within_append (n : OctoNode K) (o : Octant) (points : List (PointWithVar K))
    (pv : PointWithVar K) : n.within o (points ++ [pv]) =
      n.within o points ++ if n.octant pv.pointW = o then [pv] else [] := by
  unfold OctoNode.within
  by_cases h : n.octant pv.pointW = o <;> simp [h]

theorem leafWith_append (n : OctoNode K) (o : Octant) (points : List (PointWithVar K))
    (pv : PointWithVar K) : leafWith cfg n o (points ++ [pv]) =
      match leafWith cfg n o points with
      | .null => .node ((n.newLeaf cfg o).push pv) noLeaves
      | .node m below => .node (m.push pv) below := by
  unfold leafWith
  rw [if_neg (List.append_ne_nil_of_right_ne_nil _ (List.cons_ne_nil _ _))]
  by_cases h : points = []
  · rw [if_pos h, h]
    rfl
  · rw [if_neg h]
    simp [OctoNode.push]

/-- The first loop of `cut_octo_tree` sorts the points by octant. -/
theorem distribute_eq (n : OctoNode K) (points : List (PointWithVar K)) (o : Octant) :
    points.foldl (distribute cfg n) noLeaves o = leafWith cfg n o (n.within o points) := by
  induction points using List.reverseRecOn generalizing o with
  | nil => rfl
  | append_singleton points pv ih =>
    rw [List.foldl_append, List.foldl_cons, List.foldl_nil, distribute, within_append, ih]
    by_cases h : n.octant pv.pointW = o
    · rw [h, assign_self, if_pos rfl]
      exact (leafWith_append n o _ pv).symm
    · rw [assign_of_ne (Ne.symm h), if_neg h, List.append_nil, ih]

/-- What a fit and a cut do to a node that was not fitted yet. -/
structure Settled (cfg : TreeConfig K) (stuckOk : Prop) (n : OctoNode K) (t : VoxelOctoTree K) :
    Prop where
  inv : Inv cfg stuckOk t
  root : ∃ m below, t = .node m below ∧ m.layer = n.layer ∧ m.voxelCenter = n.voxelCenter ∧
    m.quaterLength = n.quaterLength ∧ m.arrived = n.arrived

theorem Settled.arrived {t : VoxelOctoTree K} (h : Settled cfg stuckOk n t) :
    t.arrived = n.arrived := by
  obtain ⟨m, below, rfl, -, -, -, harrived⟩ := h.root
  exact harrived

theorem Settled.leafOf {t : VoxelOctoTree K} {parent : OctoNode K}
    (h : Settled cfg stuckOk n t) (hn : LeafOf parent n o) :
    ∀ m below, t = .node m below → LeafOf parent m o := by
  intro m below ht
  obtain ⟨m', below', rfl, hlayer, hcenter, hquater, -⟩ := h.root
  obtain ⟨rfl, rfl⟩ := VoxelOctoTree.node.inj ht
  exact ⟨hlayer.trans hn.layer, fun j => (congrFun hcenter j).trans (hn.voxelCenter j),
    hquater.trans hn.quaterLength⟩

/-- A node that is fitted and whose points are planar. -/
theorem settled_plane (hlayer : n.layer ≤ cfg.maxLayer) (hinit : n.initOcto = true)
    (hplane : n.plane.isPlane = true) (hkept : n.tempPoints = n.arrived) :
    Settled cfg stuckOk n (.node
      (if cfg.maxPointsNum < { n with octoState := 0 }.tempPoints.length then
        { n with octoState := 0 }.freeze
      else { n with octoState := 0 }) noLeaves) := by
  split
  · exact ⟨inv_noLeaves hlayer (.closed hinit (.inl hplane) rfl rfl (List.nil_sublist _)),
      _, _, rfl, rfl, rfl, rfl, rfl⟩
  · exact ⟨inv_noLeaves hlayer (.closed hinit (.inl hplane) rfl rfl (hkept ▸ List.Sublist.refl _)),
      _, _, rfl, rfl, rfl, rfl, rfl⟩

/-- The second loop of `cut_octo_tree` on a leaf that was not fitted yet. -/
theorem settled_fitLeaf {cut : OctoNode K → (Octant → VoxelOctoTree K) → VoxelOctoTree K}
    (hcut : ∀ m : OctoNode K, m.layer = n.layer → m.initOcto = true → m.plane.isPlane = false →
      m.octoState = 1 → m.pointsSizeThreshold < m.tempPoints.length → m.tempPoints = m.arrived →
      Settled cfg stuckOk m (cut m noLeaves))
    (hlayer : n.layer ≤ cfg.maxLayer) (hinit : n.initOcto = false) (hstate : n.octoState = 0)
    (hkept : n.tempPoints = n.arrived) :
    Settled cfg stuckOk n (fitLeaf cfg cut (.node n noLeaves)) := by
  rw [fitLeaf]
  split
  · rename_i hfull
    dsimp only
    split
    · rename_i hplane
      have hsettled : Settled cfg stuckOk { n.fit cfg with initOcto := true, newPoints := 0 } _ :=
        settled_plane hlayer rfl hplane hkept
      exact ⟨hsettled.inv, hsettled.root⟩
    · rename_i hplane
      have hsettled := hcut { n.fit cfg with initOcto := true, newPoints := 0, octoState := 1 }
        rfl rfl (Bool.eq_false_iff.mpr hplane) rfl hfull hkept
      exact ⟨hsettled.inv, hsettled.root⟩
  · exact ⟨inv_noLeaves hlayer (.fresh hinit hstate rfl hkept), n, noLeaves, rfl, rfl, rfl, rfl, rfl⟩

/-- `cut_octo_tree` in the last layer. -/
theorem settled_last (hle : cfg.maxLayer ≤ n.layer) (hlayer : n.layer ≤ cfg.maxLayer)
    (hinit : n.initOcto = true) (hkept : n.tempPoints = n.arrived) :
    Settled cfg stuckOk n (.node { n with octoState := 0 } noLeaves) :=
  ⟨inv_noLeaves hlayer
    (.closed hinit (.inr (hlayer.antisymm hle)) rfl rfl (hkept ▸ List.Sublist.refl _)),
    _, _, rfl, rfl, rfl, rfl, rfl⟩

/-- A leaf with the points of its octant. -/
theorem settled_leaf {depth : ℕ} (hlt : n.layer < cfg.maxLayer)
    (ih : ∀ m : OctoNode K, m.layer = n.layer + 1 → m.initOcto = true → m.plane.isPlane = false →
      m.octoState = 1 → m.pointsSizeThreshold < m.tempPoints.length → m.tempPoints = m.arrived →
      Settled cfg stuckOk m (cutOctoTree cfg depth m noLeaves)) (o : Octant)
    (points : List (PointWithVar K)) (hne : points ≠ []) :
    Settled cfg stuckOk
      { n.newLeaf cfg o with tempPoints := points, newPoints := points.length, arrived := points }
      (fitLeaf cfg (cutOctoTree cfg depth) (leafWith cfg n o points)) := by
  rw [leafWith, if_neg hne]
  exact settled_fitLeaf ih hlt rfl rfl rfl

/-- `cut_octo_tree` on a node that was just found not to be planar. -/
theorem settled_cut (depth : ℕ) (hdepth : cfg.maxLayer ≤ n.layer + depth)
    (hlayer : n.layer ≤ cfg.maxLayer) (hinit : n.initOcto = true)
    (hplane : n.plane.isPlane = false) (hstate : n.octoState = 1)
    (hfull : n.pointsSizeThreshold < n.tempPoints.length) (hkept : n.tempPoints = n.arrived) :
    Settled cfg stuckOk n (cutOctoTree cfg depth n noLeaves) := by
  induction depth generalizing n with
  | zero =>
    rw [cutOctoTree, if_pos (by omega)]
    exact settled_last hdepth hlayer hinit hkept
  | succ depth ih =>
    rw [cutOctoTree]
    split
    · rename_i hle
      exact settled_last hle hlayer hinit hkept
    · rename_i hlt
      have hleaf := settled_leaf (not_le.mp hlt) fun m hm hminit hmplane hmstate hmfull hmkept =>
        ih (by omega) (by omega) hminit hmplane hmstate hmfull hmkept
      dsimp only
      simp only [distribute_eq]
      refine ⟨⟨⟨hlayer, ?_, .split hinit hplane (not_le.mp hlt) hstate hfull ?_ ?_⟩, ?_⟩,
        _, _, rfl, rfl, rfl, rfl, rfl⟩
      · intro o m below hm
        by_cases hne : n.within o n.tempPoints = []
        · rw [leafWith, if_pos hne] at hm
          cases hm
        · have hplace := (hleaf o _ hne).leafOf ⟨rfl, fun _ => rfl, rfl⟩ m below hm
          exact ⟨hplace.layer, hplace.voxelCenter, hplace.quaterLength⟩
      · exact hkept ▸ List.prefix_rfl
      · intro o
        show _ = n.within o n.arrived
        rw [← hkept]
        by_cases hne : n.within o n.tempPoints = []
        · rw [leafWith, if_pos hne, hne]
          rfl
        · exact (hleaf o _ hne).arrived
      · intro o
        beta_reduce
        by_cases hne : n.within o n.tempPoints = []
        · rw [leafWith, if_pos hne]
          trivial
        · exact (hleaf o _ hne).inv

/-- `init_octo_tree` on a node that was not fitted yet. -/
theorem settled_initOctoTree (hlayer : n.layer ≤ cfg.maxLayer) (hinit : n.initOcto = false)
    (hstate : n.octoState = 0) (hkept : n.tempPoints = n.arrived) :
    Settled cfg stuckOk n (initOctoTree cfg n noLeaves) := by
  have hsame : initOctoTree cfg n noLeaves =
      fitLeaf cfg (cutOctoTree cfg (cfg.maxLayer - n.layer)) (.node n noLeaves) := by
    rw [initOctoTree, fitLeaf]
    rfl
  rw [hsame]
  refine settled_fitLeaf (fun m hm hminit hmplane hmstate hmfull hmkept => ?_) hlayer
    hinit hstate hkept
  exact settled_cut _ (by omega) (by omega) hminit hmplane hmstate hmfull hmkept

/-! ## Insertion -/

/-- `UpdateOctoTree` on a node that was not fitted yet. -/
theorem settled_updateFresh (hlayer : n.layer ≤ cfg.maxLayer) (hinit : n.initOcto = false)
    (hstate : n.octoState = 0) (hkept : n.tempPoints = n.arrived) (pv : PointWithVar K) :
    Settled cfg stuckOk (n.push pv) (updateFresh cfg n noLeaves pv) := by
  have hpush : (n.push pv).tempPoints = (n.push pv).arrived := congrArg (· ++ [pv]) hkept
  rw [updateFresh]
  split
  · exact settled_initOctoTree hlayer hinit hstate hpush
  · exact ⟨inv_noLeaves hlayer (.fresh hinit hstate rfl hpush), _, _, rfl, rfl, rfl, rfl, rfl⟩

/-- A node that takes a point without a fit, or whose fit comes out as before. -/
theorem refit_cases (cfg : TreeConfig K) (full : ℕ → Bool) (n : OctoNode K) (pv : PointWithVar K)
    (hkept : n.tempPoints.Sublist n.arrived) :
    (n.refit cfg full pv).layer = n.layer ∧ (n.refit cfg full pv).voxelCenter = n.voxelCenter ∧
      (n.refit cfg full pv).quaterLength = n.quaterLength ∧
      (n.refit cfg full pv).arrived = n.arrived ++ [pv] ∧
      (n.refit cfg full pv).initOcto = n.initOcto ∧ (n.refit cfg full pv).octoState = n.octoState ∧
      (n.refit cfg full pv).tempPoints.Sublist (n.arrived ++ [pv]) := by
  have hpush : (n.tempPoints ++ [pv]).Sublist (n.arrived ++ [pv]) := hkept.append (List.Sublist.refl _)
  unfold OctoNode.refit
  split
  · dsimp only
    split <;> split <;>
      first
      | exact ⟨rfl, rfl, rfl, rfl, rfl, rfl, List.nil_sublist _⟩
      | exact ⟨rfl, rfl, rfl, rfl, rfl, rfl, hpush⟩
  · exact ⟨rfl, rfl, rfl, rfl, rfl, rfl, hkept.trans (List.sublist_append_left _ _)⟩

/-- Whether a plane is fitted again with a point, and the points refute it. -/
def OctoNode.refuted (cfg : TreeConfig K) (n : OctoNode K) (pv : PointWithVar K) : Prop :=
  n.updateEnable = true ∧ updateSizeThreshold < n.newPoints + 1 ∧
    ((n.push pv).fit cfg).plane.isPlane = false

instance decidableRefuted (cfg : TreeConfig K) (n : OctoNode K) (pv : PointWithVar K) :
    Decidable (n.refuted cfg pv) :=
  inferInstanceAs (Decidable (n.updateEnable = true ∧ updateSizeThreshold < n.newPoints + 1 ∧
    ((n.push pv).fit cfg).plane.isPlane = false))

theorem refit_isPlane (full : ℕ → Bool) (hplane : n.plane.isPlane = true)
    (hrefuted : ¬n.refuted cfg pv) : (n.refit cfg full pv).plane.isPlane = true := by
  unfold OctoNode.refuted at hrefuted
  unfold OctoNode.refit
  split
  · rename_i henable
    dsimp only
    by_cases hcount : updateSizeThreshold < (n.push pv).newPoints
    · have hfit : ((n.push pv).fit cfg).plane.isPlane = true := by
        by_contra hne
        exact hrefuted ⟨henable, hcount, Bool.eq_false_iff.mpr hne⟩
      rw [if_pos hcount]
      split <;> exact hfit
    · rw [if_neg hcount]
      split <;> exact hplane
  · exact hplane

/-- Whether a point makes a plane above the last layer be fitted again, and refutes it. -/
def refutes (cfg : TreeConfig K) (pv : PointWithVar K) : VoxelOctoTree K → Prop
  | .null => False
  | .node n leaves =>
    n.initOcto = true ∧ n.layer < cfg.maxLayer ∧
      if n.plane.isPlane then n.refuted cfg pv else refutes cfg pv (leaves (n.octant pv.pointW))

/-- A node that was fitted takes a point itself. -/
theorem settled_refit (full : ℕ → Bool) (hlayer : n.layer ≤ cfg.maxLayer)
    (hphase : Phase cfg stuckOk n leaves)
    (hinit : n.initOcto = true) (hlast : n.plane.isPlane = true ∨ n.layer = cfg.maxLayer)
    (hstuck : ¬stuckOk → n.layer < cfg.maxLayer → ¬n.refuted cfg pv) :
    Settled cfg stuckOk (n.pass pv) (.node (n.refit cfg full pv) leaves) := by
  obtain ⟨hstate, rfl, hkept⟩ : n.octoState = 0 ∧ leaves = noLeaves ∧ n.tempPoints.Sublist n.arrived := by
    cases hphase with
    | fresh hnew => rw [hinit] at hnew; cases hnew
    | closed _ _ hstate hleaves hkept => exact ⟨hstate, hleaves, hkept⟩
    | split _ hplane hlt =>
      rcases hlast with h | h
      · rw [h] at hplane; cases hplane
      · omega
    | stuck _ hplane hlt =>
      rcases hlast with h | h
      · rw [h] at hplane; cases hplane
      · omega
  obtain ⟨hl, hcenter, hquater, harrived, hinit', hstate', hkept'⟩ := refit_cases cfg full n pv hkept
  refine ⟨inv_noLeaves (hl ▸ hlayer) ?_, _, _, rfl, hl, hcenter, hquater, harrived⟩
  by_cases hplane : (n.refit cfg full pv).plane.isPlane = true ∨ n.layer = cfg.maxLayer
  · exact .closed (hinit'.trans hinit) (hplane.imp_right hl.trans) (hstate'.trans hstate) rfl
      (harrived ▸ hkept')
  · -- The fit refuted the plane, and its points stay where they are.
    obtain ⟨hrefuted, hne⟩ := not_or.mp hplane
    have hlt : n.layer < cfg.maxLayer := by omega
    have hok : stuckOk := by
      by_contra hno
      exact hrefuted (refit_isPlane full (hlast.resolve_right hne) (hstuck hno hlt))
    exact .stuck (hinit'.trans hinit) (Bool.eq_false_iff.mpr hrefuted) (hl ▸ hlt)
      (hstate'.trans hstate) (n.arrived ++ [pv]) [] (by rw [harrived, List.append_nil]) hkept'
      (fun _ => rfl) hok

theorem pass_within (n : OctoNode K) (o : Octant) (pv : PointWithVar K)
    (points : List (PointWithVar K)) : (n.pass pv).within o (points ++ [pv]) =
      n.within o points ++ if n.octant pv.pointW = o then [pv] else [] :=
  within_append n o points pv

/-- A node that is no plane passes a point on. -/
theorem Phase.passOn (h : Phase cfg stuckOk n leaves) (hinit : n.initOcto = true)
    (hplane : n.plane.isPlane = false) (hlt : n.layer < cfg.maxLayer) {leaf : VoxelOctoTree K}
    (hleaf : leaf.arrived = (leaves (n.octant pv.pointW)).arrived ++ [pv]) :
    Phase cfg stuckOk (n.pass pv) (assign leaves (n.octant pv.pointW) leaf) := by
  have hpassed : ∀ points : List (PointWithVar K), (∀ o, (leaves o).arrived = n.within o points) →
      ∀ o, (assign leaves (n.octant pv.pointW) leaf o).arrived =
        (n.pass pv).within o (points ++ [pv]) := by
    intro points hpoints o
    rw [pass_within]
    by_cases ho : n.octant pv.pointW = o
    · subst ho
      rw [assign_self, if_pos rfl, hleaf, hpoints]
    · rw [assign_of_ne (Ne.symm ho), if_neg ho, List.append_nil, hpoints]
  cases h with
  | fresh hnew => rw [hinit] at hnew; cases hnew
  | closed _ hlast =>
    rcases hlast with h | h
    · rw [hplane] at h; cases h
    · omega
  | split _ _ _ hstate hfull hkept hold =>
    exact .split hinit hplane hlt hstate hfull (hkept.trans (List.prefix_append _ _))
      (hpassed n.arrived hold)
  | stuck _ _ _ hstate before after harrived hkept hold hok =>
    refine .stuck hinit hplane hlt hstate before (after ++ [pv]) ?_ hkept (hpassed after hold) hok
    show n.arrived ++ [pv] = before ++ (after ++ [pv])
    rw [harrived, List.append_assoc]

/-- The leaf that took a point. -/
theorem leafAfter_spec {updated : VoxelOctoTree K} (hnode : NodeInv cfg stuckOk n leaves)
    (hlt : n.layer < cfg.maxLayer)
    (hupdated : ∀ m below, leaves (n.octant pv.pointW) = .node m below →
      Settled cfg stuckOk (m.pass pv) updated) :
    Inv cfg stuckOk (leafAfter cfg n pv updated (leaves (n.octant pv.pointW))) ∧
      (leafAfter cfg n pv updated (leaves (n.octant pv.pointW))).arrived =
        (leaves (n.octant pv.pointW)).arrived ++ [pv] ∧
      ∀ m below, leafAfter cfg n pv updated (leaves (n.octant pv.pointW)) = .node m below →
        LeafOf n m (n.octant pv.pointW) := by
  cases hold : leaves (n.octant pv.pointW) with
  | null =>
    have hsettled : Settled cfg stuckOk ((n.newLeaf cfg (n.octant pv.pointW)).push pv) _ :=
      settled_updateFresh (n := n.newLeaf cfg _) hlt rfl rfl rfl pv
    exact ⟨hsettled.inv, hsettled.arrived, hsettled.leafOf ⟨rfl, fun _ => rfl, rfl⟩⟩
  | node m below =>
    have hsettled := hupdated m below hold
    have hm := hnode.leaf _ m below hold
    exact ⟨hsettled.inv, hsettled.arrived,
      hsettled.leafOf ⟨hm.layer, hm.voxelCenter, hm.quaterLength⟩⟩

/-- A node whose point was passed on to a leaf that took it. -/
theorem settled_passOn {leaf : VoxelOctoTree K} (hnode : NodeInv cfg stuckOk n leaves)
    (hleaves : ∀ o, Inv cfg stuckOk (leaves o))
    (hphase : Phase cfg stuckOk (n.pass pv) (assign leaves o leaf)) (hinv : Inv cfg stuckOk leaf)
    (hplace : ∀ m below, leaf = .node m below → LeafOf n m o) :
    Settled cfg stuckOk (n.pass pv) (.node (n.pass pv) (assign leaves o leaf)) := by
  refine ⟨⟨⟨hnode.layer, ?_, hphase⟩, ?_⟩, _, _, rfl, rfl, rfl, rfl, rfl⟩
  · intro o' m below hm
    by_cases ho : o' = o
    · subst ho
      rw [assign_self] at hm
      have hold := hplace m below hm
      exact ⟨hold.layer, hold.voxelCenter, hold.quaterLength⟩
    · rw [assign_of_ne ho] at hm
      have hold := hnode.leaf o' m below hm
      exact ⟨hold.layer, hold.voxelCenter, hold.quaterLength⟩
  · intro o'
    by_cases ho : o' = o
    · subst ho
      rw [assign_self]
      exact hinv
    · rw [assign_of_ne ho]
      exact hleaves o'

/-- `UpdateOctoTree` keeps every node in order, unless it refutes a plane. -/
theorem settled_update (t : VoxelOctoTree K) (ht : t = .node n leaves) (hinv : Inv cfg stuckOk t)
    (hstuck : ¬stuckOk → ¬refutes cfg pv t) :
    Settled cfg stuckOk (n.pass pv) (updateOctoTree cfg pv t) := by
  induction t generalizing n leaves with
  | null => cases ht
  | node n' leaves' ih =>
    obtain ⟨rfl, rfl⟩ := VoxelOctoTree.node.inj ht
    obtain ⟨hnode, hleaves⟩ := hinv
    rw [updateOctoTree]
    by_cases hinit : n'.initOcto = true
    · rw [hinit, if_neg (by decide)]
      by_cases hplane : n'.plane.isPlane = true
      · rw [if_pos hplane]
        refine settled_refit _ hnode.layer hnode.phase hinit (.inl hplane) fun hno hlt hrefuted => ?_
        exact hstuck hno ⟨hinit, hlt, by rwa [if_pos hplane]⟩
      · rw [if_neg hplane]
        by_cases hlt : n'.layer < cfg.maxLayer
        · rw [if_pos hlt]
          dsimp only
          set o := n'.octant pv.pointW
          obtain ⟨hinv, harrived, hplace⟩ :=
            leafAfter_spec hnode hlt fun m below hold =>
              ih o hold (hleaves o) fun hno hdeep => hstuck hno ⟨hinit, hlt, by rwa [if_neg hplane]⟩
          have hphase := hnode.phase.passOn hinit (Bool.eq_false_iff.mpr hplane) hlt harrived
          exact settled_passOn hnode hleaves hphase hinv hplace
        · rw [if_neg hlt]
          have hlast : n'.layer = cfg.maxLayer := by
            have := hnode.layer
            omega
          exact settled_refit _ hnode.layer hnode.phase hinit (.inr hlast)
            fun _ hlt' => absurd hlt' hlt
    · have hnew := Bool.eq_false_iff.mpr hinit
      rw [hnew, if_pos (by decide)]
      cases hnode.phase with
      | fresh _ hstate hnone hkept =>
        rw [hnone]
        have hsettled : Settled cfg stuckOk (n'.push pv) (updateFresh cfg n' noLeaves pv) :=
          settled_updateFresh hnode.layer hnew hstate hkept pv
        exact ⟨hsettled.inv, hsettled.root⟩
      | closed h => exact absurd h hinit
      | split h => exact absurd h hinit
      | stuck h => exact absurd h hinit

end FastLivo.VoxelMap
