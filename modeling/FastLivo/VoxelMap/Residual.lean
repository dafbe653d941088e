import FastLivo.Frontend.StateEstimation
import FastLivo.Lib.Selection
import FastLivo.VoxelMap.Octree
import FastLivo.VoxelMap.Spectral
import Mathlib.Analysis.SpecialFunctions.Exp

/-!
# `build_single_residual`

A point is offered to every plane that the descent comes to. Of the planes that pass both gates
the most probable one is kept. The arithmetic is exact; the square root of a negative number
compares false.
-/

namespace FastLivo.VoxelMap

open Lib Esikf Matrix

noncomputable section

/-- `PointToPlane`, without the fields that are never written. -/
structure PointToPlane where
  pointB : Vec3 := 0
  pointW : Vec3 := 0
  normal : Vec3 := 0
  center : Vec3 := 0
  planeVar : Matrix (Fin 3 ⊕ Fin 3) (Fin 3 ⊕ Fin 3) ℝ := 0
  bodyCov : Mat3 := 0
  layer : ℕ := 0
  d : ℝ := 0
  disToPlane : ℝ := 0

/-- `config_setting_`, as the search for residuals reads it. -/
structure MatchConfig extends TreeConfig ℝ where
  sigmaNum : ℝ

/-- What `build_single_residual` writes: its three results, and `pv.normal`. -/
structure Residual where
  isSucess : Bool := false
  prob : ℝ := 0
  singlePtpl : PointToPlane := {}
  normal : Vec3 := 0

section Gates

variable (cfg : MatchConfig) (pv : Frontend.PointWithVar) (plane : VoxelPlane ℝ)

/-- The distance to the plane, with its sign. -/
def signedDistance : ℝ := plane.normal ⬝ᵥ pv.pointW + plane.d

/-- `dis_to_plane`. -/
def disToPlane : ℝ := |signedDistance pv plane|

/-- `dis_to_center`. -/
def disToCenter : ℝ := (plane.center - pv.pointW) ⬝ᵥ (plane.center - pv.pointW)

/-- `range_dis <= radius_k * plane.radius_`. -/
def InRange : Prop :=
  let square := disToCenter pv plane - disToPlane pv plane * disToPlane pv plane
  0 ≤ square ∧ √square ≤ 3 * plane.radius

/-- `sigma_l`. -/
def sigmaL : ℝ :=
  let jNq : Fin 3 ⊕ Fin 3 → ℝ := Sum.elim (pv.pointW - plane.center) (-plane.normal)
  jNq ⬝ᵥ (plane.planeVar *ᵥ jNq) + plane.normal ⬝ᵥ (pv.var *ᵥ plane.normal)

/-- `dis_to_plane < sigma_num * sqrt(sigma_l)`. -/
def InSigma : Prop :=
  0 ≤ sigmaL pv plane ∧ disToPlane pv plane < cfg.sigmaNum * √(sigmaL pv plane)

instance : Decidable (InRange pv plane) := inferInstanceAs (Decidable (_ ∧ _))

instance : Decidable (InSigma cfg pv plane) := inferInstanceAs (Decidable (_ ∧ _))

/-- `this_prob`. -/
def thisProb : ℝ :=
  1 / √(sigmaL pv plane) *
    Real.exp (-0.5 * disToPlane pv plane * disToPlane pv plane / sigmaL pv plane)

/-- `single_ptpl` for a plane in a layer. -/
def planeMatch (currentLayer : ℕ) : PointToPlane where
  bodyCov := pv.bodyVar
  pointB := pv.pointB
  pointW := pv.pointW
  planeVar := plane.planeVar
  normal := plane.normal
  center := plane.center
  d := plane.d
  layer := currentLayer
  disToPlane := signedDistance pv plane

/-- `build_single_residual` at a node with a plane. -/
def offerPlane (currentLayer : ℕ) (s : Residual) : Residual :=
  if InRange pv plane then
    if InSigma cfg pv plane then
      let s := { s with isSucess := true }
      if s.prob < thisProb pv plane then
        { s with
          prob := thisProb pv plane
          normal := plane.normal
          singlePtpl := planeMatch pv plane currentLayer }
      else s
    else s
  else s

end Gates

/-- `leafnum` from 0 to 7. -/
def leafnums : List Octant := (List.range 8).map fun leafnum j => leafnum.testBit (2 - j.val)

/-- `build_single_residual`, with the order in which the leaves of each node are visited, which
is given by the path to the node. -/
def buildSingleResidualIn (cfg : MatchConfig) (pv : Frontend.PointWithVar) :
    VoxelOctoTree ℝ → (List Octant → List Octant) → ℕ → Residual → Residual
  | .null, _, _, s => s
  | .node n leaves, order, currentLayer, s =>
    if n.plane.isPlane then offerPlane cfg pv n.plane currentLayer s
    else if currentLayer < cfg.maxLayer then
      (order []).foldl (fun s o =>
        buildSingleResidualIn cfg pv (leaves o) (fun path => order (o :: path)) (currentLayer + 1) s) s
    else s

/-- `build_single_residual`. -/
def buildSingleResidual (cfg : MatchConfig) (pv : Frontend.PointWithVar) (t : VoxelOctoTree ℝ)
    (currentLayer : ℕ) (s : Residual) : Residual :=
  buildSingleResidualIn cfg pv t (fun _ => leafnums) currentLayer s

/-! ## What is offered -/

/-- A plane that the descent comes to, with the layer it is found in. -/
inductive Offered (maxLayer : ℕ) : VoxelOctoTree ℝ → ℕ → ℕ × VoxelPlane ℝ → Prop
  | here {n : OctoNode ℝ} {leaves : Octant → VoxelOctoTree ℝ} {layer : ℕ}
      (isPlane : n.plane.isPlane = true) : Offered maxLayer (.node n leaves) layer (layer, n.plane)
  | descend {n : OctoNode ℝ} {leaves : Octant → VoxelOctoTree ℝ} {layer : ℕ}
      {e : ℕ × VoxelPlane ℝ} (isPlane : n.plane.isPlane = false) (deeper : layer < maxLayer)
      (o : Octant) (leaf : Offered maxLayer (leaves o) (layer + 1) e) :
      Offered maxLayer (.node n leaves) layer e

/-- Both gates. -/
def Passes (cfg : MatchConfig) (pv : Frontend.PointWithVar) (plane : VoxelPlane ℝ) : Prop :=
  InRange pv plane ∧ InSigma cfg pv plane

instance (cfg : MatchConfig) (pv : Frontend.PointWithVar) (plane : VoxelPlane ℝ) :
    Decidable (Passes cfg pv plane) := inferInstanceAs (Decidable (_ ∧ _))

/-- The probability of a plane that passes. -/
def score (cfg : MatchConfig) (pv : Frontend.PointWithVar) (e : ℕ × VoxelPlane ℝ) : Option ℝ :=
  if Passes cfg pv e.2 then some (thisProb pv e.2) else none

/-- The planes in the order in which they are offered. -/
def planesIn (maxLayer : ℕ) :
    VoxelOctoTree ℝ → (List Octant → List Octant) → ℕ → List (ℕ × VoxelPlane ℝ)
  | .null, _, _ => []
  | .node n leaves, order, layer =>
    if n.plane.isPlane then [(layer, n.plane)]
    else if layer < maxLayer then
      (order []).flatMap fun o => planesIn maxLayer (leaves o) (fun path => order (o :: path)) (layer + 1)
    else []

/-- What the search holds, of what a selection keeps. -/
def residualOf (pv : Frontend.PointWithVar) (s : Residual) (b : Best (ℕ × VoxelPlane ℝ) ℝ) :
    Residual where
  isSucess := b.found
  prob := b.score
  singlePtpl := (b.pick.map fun e => planeMatch pv e.2 e.1).getD s.singlePtpl
  normal := (b.pick.map fun e => e.2.normal).getD s.normal

variable {cfg : MatchConfig} {pv : Frontend.PointWithVar} {plane : VoxelPlane ℝ}
  {order : List Octant → List Octant} {s : Residual}

theorem mem_leafnums (o : Octant) : o ∈ leafnums := by
  revert o
  decide

/-- The descent offers a list of planes. -/
theorem buildSingleResidualIn_eq_foldl (t : VoxelOctoTree ℝ) (order : List Octant → List Octant)
    (layer : ℕ) (s : Residual) :
    buildSingleResidualIn cfg pv t order layer s =
      (planesIn cfg.maxLayer t order layer).foldl (fun s e => offerPlane cfg pv e.2 e.1 s) s := by
  induction t generalizing order layer s with
  | null => rfl
  | node n leaves ih =>
    rw [buildSingleResidualIn, planesIn]
    split
    · rfl
    · split
      · rw [List.foldl_flatMap]
        congr 1
        funext s o
        exact ih o _ _ s
      · rfl

/-- The planes of the list are those of the descent, in whatever order the leaves come. -/
theorem mem_planesIn (maxLayer : ℕ) (t : VoxelOctoTree ℝ) (order : List Octant → List Octant)
    (horder : ∀ path o, o ∈ order path) (layer : ℕ) (e : ℕ × VoxelPlane ℝ) :
    e ∈ planesIn maxLayer t order layer ↔ Offered maxLayer t layer e := by
  induction t generalizing order layer with
  | null =>
    refine iff_of_false (by simp [planesIn]) ?_
    rintro ⟨⟩
  | node n leaves ih =>
    rw [planesIn]
    by_cases hplane : n.plane.isPlane = true
    · rw [if_pos hplane, List.mem_singleton]
      constructor
      · rintro rfl
        exact .here hplane
      · intro h
        cases h with
        | here => rfl
        | descend hnot => rw [hplane] at hnot; cases hnot
    · rw [if_neg hplane]
      by_cases hlt : layer < maxLayer
      · rw [if_pos hlt, List.mem_flatMap]
        constructor
        · rintro ⟨o, -, he⟩
          exact .descend (Bool.eq_false_iff.mpr hplane) hlt o
            ((ih o _ (fun path o' => horder (o :: path) o') _).mp he)
        · intro h
          cases h with
          | here hpos => exact absurd hpos hplane
          | descend _ _ o hleaf =>
            exact ⟨o, horder [] o, (ih o _ (fun path o' => horder (o :: path) o') _).mpr hleaf⟩
      · rw [if_neg hlt]
        refine iff_of_false List.not_mem_nil fun h => ?_
        cases h with
        | here hpos => exact hplane hpos
        | descend _ hdeeper => exact hlt hdeeper

theorem score_isSome {e : ℕ × VoxelPlane ℝ} :
    (score cfg pv e).isSome = true ↔ Passes cfg pv e.2 := by
  unfold score
  split <;> simp [*]

theorem score_eq_some {e : ℕ × VoxelPlane ℝ} {r : ℝ} :
    score cfg pv e = some r ↔ Passes cfg pv e.2 ∧ thisProb pv e.2 = r := by
  unfold score
  split <;> simp [*]

theorem score_eq_none {e : ℕ × VoxelPlane ℝ} : score cfg pv e = none ↔ ¬Passes cfg pv e.2 := by
  unfold score
  split <;> simp [*]

/-- A node offers its plane as a selection does. -/
theorem offerPlane_residualOf (e : ℕ × VoxelPlane ℝ) (b : Best (ℕ × VoxelPlane ℝ) ℝ) :
    offerPlane cfg pv e.2 e.1 (residualOf pv s b) = residualOf pv s (b.offer (score cfg pv) e) := by
  unfold offerPlane Best.offer
  by_cases hpasses : Passes cfg pv e.2
  · rw [score_eq_some.mpr ⟨hpasses, rfl⟩, if_pos hpasses.1, if_pos hpasses.2]
    dsimp only [residualOf]
    split <;> rfl
  · rw [score_eq_none.mpr hpasses]
    split
    · rename_i hrange
      rw [if_neg fun hsigma => hpasses ⟨hrange, hsigma⟩]
    · rfl

/-- The search is a selection among the planes that are offered. -/
theorem buildSingleResidualIn_eq (t : VoxelOctoTree ℝ) (layer : ℕ) (hsucess : s.isSucess = false)
    (hprob : s.prob = 0) :
    buildSingleResidualIn cfg pv t order layer s =
      residualOf pv s (bestOf (score cfg pv) 0 (planesIn cfg.maxLayer t order layer)) := by
  have hstart : s = residualOf pv s { score := 0 } := by
    unfold residualOf
    rw [← hsucess, ← hprob]
    rfl
  rw [buildSingleResidualIn_eq_foldl]
  nth_rewrite 1 [hstart]
  exact List.foldl_hom _ fun b e => offerPlane_residualOf e b

/-- A plane that passes has a probability above zero. -/
theorem Passes.thisProb_pos (h : Passes cfg pv plane) : 0 < thisProb pv plane := by
  obtain ⟨-, hnonneg, hlt⟩ := h
  have hroot : √(sigmaL pv plane) ≠ 0 := by
    intro hzero
    rw [hzero, mul_zero] at hlt
    exact absurd hlt (not_lt.mpr (abs_nonneg _))
  have hpos : 0 < √(sigmaL pv plane) := lt_of_le_of_ne (Real.sqrt_nonneg _) (Ne.symm hroot)
  unfold thisProb
  positivity

/-! ## The most probable plane -/

/-- A plane that is offered and passes, and that no such plane is more probable than. -/
structure MostProbable (cfg : MatchConfig) (pv : Frontend.PointWithVar) (t : VoxelOctoTree ℝ)
    (layer : ℕ) (e : ℕ × VoxelPlane ℝ) : Prop where
  offered : Offered cfg.maxLayer t layer e
  passes : Passes cfg pv e.2
  greatest : ∀ e', Offered cfg.maxLayer t layer e' → Passes cfg pv e'.2 →
    thisProb pv e'.2 ≤ thisProb pv e.2

/-- What a search finds that visits the leaves of a node in some order. -/
theorem buildSingleResidualIn_spec (cfg : MatchConfig) (pv : Frontend.PointWithVar)
    (t : VoxelOctoTree ℝ) (order : List Octant → List Octant) (layer : ℕ) (s : Residual)
    (horder : ∀ path o, o ∈ order path) (hsucess : s.isSucess = false) (hprob : s.prob = 0) :
    ((buildSingleResidualIn cfg pv t order layer s).isSucess = true ↔
      ∃ e, Offered cfg.maxLayer t layer e ∧ Passes cfg pv e.2) ∧
    ((buildSingleResidualIn cfg pv t order layer s).isSucess = true →
      ∃ e, MostProbable cfg pv t layer e ∧
        (buildSingleResidualIn cfg pv t order layer s).singlePtpl = planeMatch pv e.2 e.1 ∧
        (buildSingleResidualIn cfg pv t order layer s).prob = thisProb pv e.2) := by
  have hmem : ∀ e, e ∈ planesIn cfg.maxLayer t order layer ↔ Offered cfg.maxLayer t layer e :=
    mem_planesIn cfg.maxLayer t order horder layer
  have hchosen := bestOf_chosen (score cfg pv) 0 (planesIn cfg.maxLayer t order layer)
  rw [buildSingleResidualIn_eq t layer hsucess hprob]
  constructor
  · show (bestOf _ _ _).found = true ↔ _
    rw [hchosen.found]
    simp only [hmem, score_isSome]
  · intro hfound
    have hfloor : ∀ e ∈ planesIn cfg.maxLayer t order layer, ∀ r, score cfg pv e = some r → 0 < r := by
      intro e _ r hr
      obtain ⟨hpasses, rfl⟩ := score_eq_some.mp hr
      exact hpasses.thisProb_pos
    obtain ⟨e, he, hpick, hscore, hgreatest⟩ := hchosen.greatest hfloor hfound
    obtain ⟨hpasses, hbest⟩ := score_eq_some.mp hscore
    refine ⟨e, ⟨(hmem e).mp he, hpasses, fun e' he' hpasses' => ?_⟩, ?_, hbest.symm⟩
    · rw [hbest]
      exact hgreatest e' ((hmem e').mpr he') _ (score_eq_some.mpr ⟨hpasses', rfl⟩)
    · show (Option.map _ (bestOf _ _ _).pick).getD _ = _
      rw [hpick]
      rfl

/-- The search succeeds exactly when a plane that is offered passes both gates, and then keeps
the match of a most probable one. The probability is the same in whatever order the leaves of
each node are visited, and so is the match, unless different matches tie. -/
theorem residual_selected (cfg : MatchConfig) (pv : Frontend.PointWithVar) (t : VoxelOctoTree ℝ)
    (layer : ℕ) (singlePtpl : PointToPlane) (normal : Vec3) (order : List Octant → List Octant)
    (horder : ∀ path, (order path).Perm leafnums) :
    let start : Residual := ⟨false, 0, singlePtpl, normal⟩
    let s := buildSingleResidual cfg pv t layer start
    let s' := buildSingleResidualIn cfg pv t order layer start
    (s.isSucess = true ↔ ∃ e, Offered cfg.maxLayer t layer e ∧ Passes cfg pv e.2) ∧
      (s.isSucess = true → ∃ e, MostProbable cfg pv t layer e ∧
        s.singlePtpl = planeMatch pv e.2 e.1 ∧ s.prob = thisProb pv e.2) ∧
      s'.isSucess = s.isSucess ∧ s'.prob = s.prob ∧
      ((∀ e e', MostProbable cfg pv t layer e → MostProbable cfg pv t layer e' →
        planeMatch pv e.2 e.1 = planeMatch pv e'.2 e'.1) → s'.singlePtpl = s.singlePtpl) := by
  intro start s s'
  have hmem : ∀ path o, o ∈ order path := fun path o => (horder path).mem_iff.mpr (mem_leafnums o)
  have hspec := buildSingleResidualIn_spec cfg pv t (fun _ => leafnums) layer start
    (fun _ => mem_leafnums) rfl rfl
  have hspec' := buildSingleResidualIn_spec cfg pv t order layer start hmem rfl rfl
  have hs : s = residualOf pv start _ := buildSingleResidualIn_eq t layer rfl rfl
  have hs' : s' = residualOf pv start _ := buildSingleResidualIn_eq t layer rfl rfl
  have hcongr := bestOf_congr (score cfg pv) 0 fun e =>
    (mem_planesIn cfg.maxLayer t order hmem layer e).trans
      (mem_planesIn cfg.maxLayer t (fun _ => leafnums) (fun _ => mem_leafnums) layer e).symm
  have hsucess : s'.isSucess = s.isSucess := by
    rw [hs, hs']
    exact hcongr.1
  refine ⟨hspec.1, hspec.2, hsucess, ?_, fun htied => ?_⟩
  · rw [hs, hs']
    exact hcongr.2
  · by_cases hfound : s.isSucess = true
    · obtain ⟨e, hbest, hptpl, -⟩ := hspec.2 hfound
      obtain ⟨e', hbest', hptpl', -⟩ := hspec'.2 (hsucess.trans hfound)
      calc s'.singlePtpl = planeMatch pv e'.2 e'.1 := hptpl'
        _ = planeMatch pv e.2 e.1 := htied e' e hbest' hbest
        _ = s.singlePtpl := hptpl.symm
    · -- Nothing passed, and both searches leave what they were given.
      have hkept : ∀ order', (∀ path o, o ∈ order' path) →
          ¬(bestOf (score cfg pv) 0 (planesIn cfg.maxLayer t order' layer)).found = true →
          (residualOf pv start (bestOf (score cfg pv) 0
            (planesIn cfg.maxLayer t order' layer))).singlePtpl = singlePtpl := by
        intro order' _ hnone
        have hchosen := bestOf_chosen (score cfg pv) 0 (planesIn cfg.maxLayer t order' layer)
        rcases hchosen.pick with ⟨hpick, -⟩ | ⟨e, he, -, hscore⟩
        · show (Option.map _ (bestOf _ _ _).pick).getD _ = _
          rw [hpick]
          rfl
        · exact absurd (hchosen.found.mpr ⟨e, he, by rw [hscore]; rfl⟩) hnone
      have hnone' : ¬s'.isSucess = true := by rwa [hsucess]
      rw [hs] at hfound
      rw [hs'] at hnone'
      rw [hs, hs', hkept _ hmem hnone', hkept _ (fun _ => mem_leafnums) hfound]

/-! ## Ties -/

/-- The parameters that the code falls back to. -/
def MatchConfig.sample : MatchConfig where
  maxVoxelSize := 0.5
  plannerThreshold := 0.01
  maxLayer := 1
  layerInitNum := fun _ => 5
  maxPointsNum := 50
  solver := .spectral
  maxVoxelSize_pos := by norm_num
  sigmaNum := 3

/-- A level plane at a height. -/
def VoxelPlane.level (height : ℝ) : VoxelPlane ℝ where
  center := ![0, 0, height]
  normal := ![0, 0, 1]
  d := -height
  radius := 1
  isPlane := true

/-- A point at the origin. -/
def pointAtOrigin : Frontend.PointWithVar where
  var := 1

/-- A floor and a ceiling of a voxel, at one distance from its centre. -/
def floorAndCeiling : VoxelOctoTree ℝ :=
  let root : OctoNode ℝ :=
    { layer := 0
      voxelCenter := 0
      quaterLength := 1
      pointsSizeThreshold := 5
      octoState := 1
      initOcto := true }
  let leaf (o : Octant) (height : ℝ) : VoxelOctoTree ℝ :=
    .node { root.newLeaf MatchConfig.sample.toTreeConfig o with
      plane := .level height
      initOcto := true } noLeaves
  .node root fun o =>
    if o = fun _ => false then leaf o (-1) else if o = fun _ => true then leaf o 1 else .null

theorem signedDistance_level (height : ℝ) :
    signedDistance pointAtOrigin (.level height) = -height := by
  simp [signedDistance, pointAtOrigin, VoxelPlane.level]

theorem sigmaL_level (height : ℝ) : sigmaL pointAtOrigin (.level height) = 1 := by
  simp [sigmaL, pointAtOrigin, VoxelPlane.level]

theorem score_level {height : ℝ} (hheight : |height| = 1) (layer : ℕ) :
    score .sample pointAtOrigin (layer, .level height) =
      some (1 / √1 * Real.exp (-0.5 * 1 * 1 / 1)) := by
  have hdistance : disToPlane pointAtOrigin (.level height) = 1 := by
    rw [disToPlane, signedDistance_level, abs_neg, hheight]
  have hcenter : disToCenter pointAtOrigin (.level height) = 1 := by
    have hsquare : height * height = 1 := by
      rw [← abs_mul_abs_self, hheight, one_mul]
    simp [disToCenter, pointAtOrigin, VoxelPlane.level, dotProduct, Fin.sum_univ_three, hsquare]
  rw [score_eq_some]
  refine ⟨⟨?_, ?_⟩, ?_⟩
  · unfold InRange
    rw [hcenter, hdistance]
    norm_num [VoxelPlane.level]
  · unfold InSigma
    rw [sigmaL_level, hdistance]
    norm_num [MatchConfig.sample]
  · rw [thisProb, sigmaL_level, hdistance]

/-- The first of two planes that tie is kept. -/
theorem bestOf_level :
    bestOf (score .sample pointAtOrigin) 0 [(1, .level (-1)), (1, .level 1)] =
        ⟨true, 1 / √1 * Real.exp (-0.5 * 1 * 1 / 1), some (1, .level (-1))⟩ ∧
      bestOf (score .sample pointAtOrigin) 0 [(1, .level 1), (1, .level (-1))] =
        ⟨true, 1 / √1 * Real.exp (-0.5 * 1 * 1 / 1), some (1, .level 1)⟩ := by
  have hpos : (0 : ℝ) < 1 / √1 * Real.exp (-0.5 * 1 * 1 / 1) := by positivity
  have hfloor := score_level (by norm_num : |(-1 : ℝ)| = 1) 1
  have hceiling := score_level (by norm_num : |(1 : ℝ)| = 1) 1
  generalize 1 / √1 * Real.exp (-0.5 * 1 * 1 / 1) = prob at hpos hfloor hceiling ⊢
  simp [bestOf, Best.offer, hfloor, hceiling, hpos]

/-- Of a floor and a ceiling that tie, the match is the one that is visited first. -/
theorem ties_depend_on_order : ¬∀ (cfg : MatchConfig) (pv : Frontend.PointWithVar)
    (t : VoxelOctoTree ℝ) (order : List Octant → List Octant),
    (∀ path, (order path).Perm leafnums) →
      (buildSingleResidualIn cfg pv t order 0 {}).singlePtpl =
        (buildSingleResidual cfg pv t 0 {}).singlePtpl := by
  intro h
  have hsame := h .sample pointAtOrigin floorAndCeiling (fun _ => leafnums.reverse)
    fun _ => List.reverse_perm _
  have hplanes : planesIn 1 floorAndCeiling (fun _ => leafnums) 0 =
      [(1, .level (-1)), (1, .level 1)] := rfl
  have hreversed : planesIn 1 floorAndCeiling (fun _ => leafnums.reverse) 0 =
      [(1, .level 1), (1, .level (-1))] := rfl
  rw [buildSingleResidual, buildSingleResidualIn_eq _ _ rfl rfl,
    buildSingleResidualIn_eq _ _ rfl rfl] at hsame
  have hlayer : MatchConfig.sample.maxLayer = 1 := rfl
  rw [hlayer, hplanes, hreversed, bestOf_level.1, bestOf_level.2] at hsame
  have hdistance : signedDistance pointAtOrigin (.level 1) = signedDistance pointAtOrigin (.level (-1)) :=
    congrArg PointToPlane.disToPlane hsame
  rw [signedDistance_level, signedDistance_level] at hdistance
  norm_num at hdistance

theorem residual_selected_reversed :
    (buildSingleResidualIn .sample pointAtOrigin floorAndCeiling (fun _ => leafnums.reverse) 0 {}).prob =
      (buildSingleResidual .sample pointAtOrigin floorAndCeiling 0 {}).prob :=
  (residual_selected .sample pointAtOrigin floorAndCeiling 0 {} 0 (fun _ => leafnums.reverse)
    fun _ => List.reverse_perm _).2.2.2.1

end

end FastLivo.VoxelMap
