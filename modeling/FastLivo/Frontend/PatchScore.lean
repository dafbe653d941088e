import FastLivo.Frontend.WarpCache
import FastLivo.Lib.RunningSum
import Mathlib.Data.Fin.Tuple.Sort

/-!
# The score of a reference patch

`updateReferencePatch` scores the observations of a point by the correlation of their patches with
those of the others and by the angle of view. The mean of a patch is kept in the feature, and the
local variable beside it is assigned only where the mean is computed. The three sums of a
correlation are shared by all the patches an observation is compared with.
-/

namespace FastLivo.Frontend

open Lib Esikf Matrix

noncomputable section

variable {m n : ℕ}

/-! ## The loops -/

/-- An observation: the members of `Feature` that the score depends on, beside `mean_`. -/
structure Observation (n : ℕ) where
  id : ℤ
  patch : Fin n → ℝ
  tFW : Pose3

/-- `VisualPoint`, with its observations in the order of `obs_`. -/
structure ScoredPoint (m n : ℕ) where
  pos : Vec3
  normal : Vec3
  obs : Fin m → Observation n

/-- `std::accumulate` over a patch, divided by `patch_size_total`. -/
def patchMean (patch : Fin n → ℝ) : ℝ := (∑ ind, patch ind) / n

/-- `NCC_up`, `NCC_down1`, `NCC_down2`, `NCC` and `count`. -/
structure Sums where
  up : ℝ := 0
  down1 : ℝ := 0
  down2 : ℝ := 0
  ncc : ℝ := 0
  count : ℕ := 0

/-- The sums after another patch. -/
def Sums.add (patch : Fin n → ℝ) (refMean : ℝ) (s : Sums) (other : (Fin n → ℝ) × ℝ) : Sums :=
  let up := s.up + ∑ ind, (patch ind - refMean) * (other.1 ind - other.2)
  let down1 := s.down1 + ∑ ind, (patch ind - refMean) * (patch ind - refMean)
  let down2 := s.down2 + ∑ ind, (other.1 ind - other.2) * (other.1 ind - other.2)
  { up, down1, down2, ncc := s.ncc + |up / √(down1 * down2)|, count := s.count + 1 }

namespace ScoredPoint

/-- `abs(mean_) < 1e-6`: the mean counts as not computed. -/
def Unset (means : Fin m → ℝ) (i : Fin m) : Prop := |means i| < 1e-6

/-- `cos_angle`. -/
def cosAngle (pt : ScoredPoint m n) (i : Fin m) : ℝ :=
  normalized (transformPoint (pt.obs i).tFW pt.pos) ⬝ᵥ
    ((pt.obs i).tFW.rotation.matrix *ᵥ pt.normal)

open Classical in
/-- `ref_mean` or `other_mean`, if it is assigned, and the means after that. -/
def localMean (pt : ScoredPoint m n) (means : Fin m → ℝ) (i : Fin m) : Option ℝ × (Fin m → ℝ) :=
  if Unset means i then
    (some (patchMean (pt.obs i).patch), assign means i (patchMean (pt.obs i).patch))
  else (none, means)

/-- The inner loop, unless it reads a variable that is not assigned. -/
def correlate (pt : ScoredPoint m n) (i : Fin m) (refMean : Option ℝ) :
    List (Fin m) → (Fin m → ℝ) → Sums → Option (Sums × (Fin m → ℝ))
  | [], means, s => some (s, means)
  | j :: l, means, s =>
    if (pt.obs j).id = (pt.obs i).id then pt.correlate i refMean l means s
    else
      let other := pt.localMean means j
      match refMean, other.1 with
      | some refMean, some otherMean =>
        pt.correlate i (some refMean) l other.2
          (s.add (pt.obs i).patch refMean ((pt.obs j).patch, otherMean))
      | _, _ => none

/-- `score` of an observation, and the means after it. -/
def score (pt : ScoredPoint m n) (means : Fin m → ℝ) (i : Fin m) : Option (ℝ × (Fin m → ℝ)) := do
  let ref := pt.localMean means i
  let (s, means) ← pt.correlate i ref.1 (List.finRange m) ref.2 {}
  some (s.ncc / s.count + pt.cosAngle i, means)

/-- The outer loop. -/
def scoreFrom (pt : ScoredPoint m n) : (Fin m → ℝ) → List (Fin m) → Option (List ℝ)
  | _, [] => some []
  | means, i :: l => do
    let (score, means) ← pt.score means i
    let scores ← pt.scoreFrom means l
    some (score :: scores)

/-- The scores that `updateReferencePatch` gives the observations. -/
def scores (pt : ScoredPoint m n) (means : Fin m → ℝ) : Option (List ℝ) :=
  pt.scoreFrom means (List.finRange m)

end ScoredPoint

/-! ## What the score is meant to be -/

/-- The sum of the products of the deviations from the means. -/
def covariation (a b : Fin n → ℝ) : ℝ := ∑ ind, (a ind - patchMean a) * (b ind - patchMean b)

/-- The absolute correlation of two patches. -/
def correlation (a b : Fin n → ℝ) : ℝ := |covariation a b / √(covariation a a * covariation b b)|

namespace ScoredPoint

/-- The observations from other frames. -/
def others (pt : ScoredPoint m n) (i : Fin m) : List (Fin m) :=
  (List.finRange m).filter fun j => (pt.obs j).id ≠ (pt.obs i).id

/-- The mean correlation with the other patches, and the cosine of the angle of view. -/
def patchScore (pt : ScoredPoint m n) (i : Fin m) : ℝ :=
  ((pt.others i).map fun j => correlation (pt.obs i).patch (pt.obs j).patch).sum /
    (pt.others i).length + pt.cosAngle i

/-- The observations in another order. -/
def reorder (pt : ScoredPoint m n) (σ : Equiv.Perm (Fin m)) : ScoredPoint m n :=
  { pt with obs := fun i => pt.obs (σ i) }

/-! ## The means -/

variable {pt : ScoredPoint m n} {means : Fin m → ℝ} {i : Fin m}

/-- The means of the patches. -/
def trueMeans (pt : ScoredPoint m n) (i : Fin m) : ℝ := patchMean (pt.obs i).patch

theorem localMean_of_unset (h : Unset means i) :
    pt.localMean means i = (some (pt.trueMeans i), assign means i (pt.trueMeans i)) := if_pos h

theorem localMean_of_set (h : ¬Unset means i) : pt.localMean means i = (none, means) := if_neg h

theorem localMean_of_ne {j : Fin m} (h : j ≠ i) : (pt.localMean means i).2 j = means j := by
  unfold localMean
  split
  · exact assign_of_ne h
  · rfl

/-- The sums after the patches of a list. -/
def sumsAfter (pt : ScoredPoint m n) (i : Fin m) (l : List (Fin m)) (s : Sums) : Sums :=
  l.foldl (fun s j => s.add (pt.obs i).patch (pt.trueMeans i) ((pt.obs j).patch, pt.trueMeans j)) s

theorem correlate_of_unset {l : List (Fin m)} (hnodup : l.Nodup) (s : Sums)
    (h : ∀ j ∈ l, (pt.obs j).id ≠ (pt.obs i).id → Unset means j) :
    pt.correlate i (some (pt.trueMeans i)) l means s =
      some (pt.sumsAfter i (l.filter fun j => (pt.obs j).id ≠ (pt.obs i).id) s,
        fun j => if j ∈ l ∧ (pt.obs j).id ≠ (pt.obs i).id then pt.trueMeans j else means j) := by
  induction l generalizing means s with
  | nil =>
    unfold correlate
    simp only [List.not_mem_nil, false_and, if_false]
    rfl
  | cons j l ih =>
    obtain ⟨hj, hl⟩ := List.nodup_cons.mp hnodup
    unfold correlate
    by_cases hid : (pt.obs j).id = (pt.obs i).id
    · rw [if_pos hid, ih hl s fun j' hj' => h j' (List.mem_cons_of_mem j hj'),
        List.filter_cons_of_neg (by simpa using hid)]
      congr 2
      funext j'
      by_cases heq : j' = j
      · subst heq
        simp only [hid, ne_eq, not_true_eq_false, and_false, if_false]
      · simp only [List.mem_cons, heq, false_or]
    · have hunset := h j List.mem_cons_self hid
      have hrest : ∀ j' ∈ l, (pt.obs j').id ≠ (pt.obs i).id →
          Unset (assign means j (pt.trueMeans j)) j' := by
        intro j' hj' hid'
        have hne : j' ≠ j := fun heq => hj (heq ▸ hj')
        unfold Unset
        rw [assign_of_ne hne]
        exact h j' (List.mem_cons_of_mem j hj') hid'
      rw [if_neg hid, localMean_of_unset hunset]
      dsimp only
      rw [ih hl _ hrest, List.filter_cons_of_pos (by simpa using hid)]
      congr 2
      funext j'
      by_cases heq : j' = j
      · subst heq
        simp only [hj, List.mem_cons, true_or, hid, ne_eq, not_false_eq_true, and_true, if_true,
          if_false, assign_self]
      · simp only [List.mem_cons, heq, false_or, assign_of_ne heq]

/-- A variable that is not assigned is read. -/
theorem correlate_of_set {l : List (Fin m)} (hnodup : l.Nodup) {refMean : Option ℝ} (s : Sums)
    {j : Fin m} (hj : j ∈ l) (hid : (pt.obs j).id ≠ (pt.obs i).id)
    (h : refMean = none ∨ ¬Unset means j) : pt.correlate i refMean l means s = none := by
  induction l generalizing means s with
  | nil => exact absurd hj List.not_mem_nil
  | cons first l ih =>
    obtain ⟨hfirst, hl⟩ := List.nodup_cons.mp hnodup
    unfold correlate
    by_cases hsame : (pt.obs first).id = (pt.obs i).id
    · rw [if_pos hsame]
      rcases List.mem_cons.mp hj with rfl | hj
      · exact absurd hsame hid
      · exact ih hl s hj h
    · rw [if_neg hsame]
      cases refMean with
      | none => rfl
      | some ref =>
        have hset := h.resolve_left (Option.some_ne_none ref)
        by_cases hunset : Unset means first
        · rw [localMean_of_unset hunset]
          have hne : j ≠ first := fun heq => hset (heq ▸ hunset)
          apply ih hl _ ((List.mem_cons.mp hj).resolve_left hne)
          right
          unfold Unset
          dsimp only
          rw [assign_of_ne hne]
          exact hset
        · rw [localMean_of_set hunset]

/-- Observations of different frames, at least two. -/
structure Distinct (pt : ScoredPoint m n) : Prop where
  two : 2 ≤ m
  id : ∀ i j, (pt.obs i).id = (pt.obs j).id → i = j

theorem Distinct.other (h : pt.Distinct) (i : Fin m) :
    ∃ j, j ≠ i ∧ (pt.obs j).id ≠ (pt.obs i).id := by
  have := Fin.nontrivial_iff_two_le.mpr h.two
  obtain ⟨j, hj⟩ := exists_ne i
  exact ⟨j, hj, fun hid => hj (h.id j i hid)⟩

/-- The score that the shared sums give. -/
def runningScore (pt : ScoredPoint m n) (i : Fin m) : ℝ :=
  (pt.sumsAfter i (pt.others i) {}).ncc / (pt.sumsAfter i (pt.others i) {}).count + pt.cosAngle i

theorem score_of_unset (hd : pt.Distinct) (h : ∀ j, Unset means j) :
    pt.score means i = some (pt.runningScore i, pt.trueMeans) := by
  have hrest : ∀ j ∈ List.finRange m, (pt.obs j).id ≠ (pt.obs i).id →
      Unset (assign means i (pt.trueMeans i)) j := by
    intro j _ hid
    unfold Unset
    rw [assign_of_ne fun heq : j = i => hid (congrArg (fun k => (pt.obs k).id) heq)]
    exact h j
  unfold score
  rw [localMean_of_unset (h i)]
  dsimp only
  rw [correlate_of_unset (List.nodup_finRange m) _ hrest]
  have hmeans : (fun j => if j ∈ List.finRange m ∧ (pt.obs j).id ≠ (pt.obs i).id then
      pt.trueMeans j else assign means i (pt.trueMeans i) j) = pt.trueMeans := by
    funext j
    by_cases heq : j = i
    · subst heq
      rw [if_neg fun hid => hid.2 rfl, assign_self]
    · rw [if_pos ⟨List.mem_finRange j, fun hid => heq (hd.id j i hid)⟩]
  rw [hmeans]
  rfl

theorem score_of_set (hd : pt.Distinct) {j : Fin m} (h : ¬Unset means j) :
    pt.score means i = none := by
  have hnone : ∀ k, (pt.obs k).id ≠ (pt.obs i).id →
      ((pt.localMean means i).1 = none ∨ ¬Unset (pt.localMean means i).2 k) →
      pt.score means i = none := by
    intro k hid hk
    unfold score
    dsimp only
    rw [correlate_of_set (List.nodup_finRange m) _ (List.mem_finRange k) hid hk]
    rfl
  by_cases heq : j = i
  · subst heq
    obtain ⟨k, -, hid⟩ := hd.other j
    rw [localMean_of_set h] at hnone
    exact hnone k hid (Or.inl rfl)
  · apply hnone j fun hid => heq (hd.id j i hid)
    right
    unfold Unset
    rw [localMean_of_ne heq]
    exact h

theorem scoreFrom_of_unset (hd : pt.Distinct) (h : ∀ j, Unset means j)
    (htrue : ∀ j, Unset pt.trueMeans j) (l : List (Fin m)) :
    pt.scoreFrom means l = some (l.map pt.runningScore) := by
  induction l generalizing means with
  | nil => rfl
  | cons i l ih =>
    unfold scoreFrom
    rw [score_of_unset hd h]
    show (pt.scoreFrom pt.trueMeans l).bind (fun scores => some (pt.runningScore i :: scores)) = _
    rw [ih htrue]
    rfl

/-- The scores exist if and only if no mean ever counts as computed. -/
theorem scores_eq (hd : pt.Distinct) (means : Fin m → ℝ) :
    ((∀ j, Unset means j) ∧ ∀ j, Unset pt.trueMeans j) ∧
        pt.scores means = some ((List.finRange m).map pt.runningScore) ∨
      ¬((∀ j, Unset means j) ∧ ∀ j, Unset pt.trueMeans j) ∧ pt.scores means = none := by
  obtain ⟨first, second, l, hl⟩ : ∃ first second l, List.finRange m = first :: second :: l := by
    obtain ⟨k, rfl⟩ : ∃ k, m = k + 1 + 1 := ⟨m - 2, by have := hd.two; omega⟩
    rw [List.finRange_succ, List.finRange_succ]
    exact ⟨_, _, _, rfl⟩
  unfold scores
  by_cases h : ∀ j, Unset means j
  · by_cases htrue : ∀ j, Unset pt.trueMeans j
    · exact Or.inl ⟨⟨h, htrue⟩, scoreFrom_of_unset hd h htrue _⟩
    · refine Or.inr ⟨fun hboth => htrue hboth.2, ?_⟩
      obtain ⟨j, hj⟩ := not_forall.mp htrue
      -- the second observation finds the means that the first one left
      rw [hl]
      unfold scoreFrom
      rw [score_of_unset hd h]
      show (pt.scoreFrom pt.trueMeans (second :: l)).bind _ = none
      unfold scoreFrom
      rw [score_of_set hd hj]
      rfl
  · refine Or.inr ⟨fun hboth => h hboth.1, ?_⟩
    obtain ⟨j, hj⟩ := not_forall.mp h
    rw [hl]
    unfold scoreFrom
    rw [score_of_set hd hj]
    rfl

/-! ## The sums -/

/-- `covariation` of the patch of an observation with that of another. -/
def between (pt : ScoredPoint m n) (i j : Fin m) : ℝ :=
  covariation (pt.obs i).patch (pt.obs j).patch

/-- `covariation` of the patch of an observation with itself. -/
def spread (pt : ScoredPoint m n) (j : Fin m) : ℝ := pt.between j j

theorem spread_eq (j : Fin m) : pt.spread j =
    ∑ ind, ((pt.obs j).patch ind - pt.trueMeans j) * ((pt.obs j).patch ind - pt.trueMeans j) := rfl

theorem spread_nonneg (j : Fin m) : 0 ≤ pt.spread j := by
  rw [spread_eq]
  exact Finset.sum_nonneg fun _ _ => mul_self_nonneg _

/-- A patch that is not constant deviates from its mean. -/
theorem spread_pos {j : Fin m} (h : ∃ a b, (pt.obs j).patch a ≠ (pt.obs j).patch b) :
    0 < pt.spread j := by
  apply (pt.spread_nonneg j).lt_of_ne'
  intro hzero
  rw [spread_eq] at hzero
  have hterms := (Finset.sum_eq_zero_iff_of_nonneg fun _ _ => mul_self_nonneg _).mp hzero
  obtain ⟨a, b, hab⟩ := h
  have ha := mul_self_eq_zero.mp (hterms a (Finset.mem_univ a))
  have hb := mul_self_eq_zero.mp (hterms b (Finset.mem_univ b))
  exact hab ((sub_eq_zero.mp ha).trans (sub_eq_zero.mp hb).symm)

/-- The sums after a list of patches: none of them starts again. -/
theorem sumsAfter_eq (pt : ScoredPoint m n) (i : Fin m) (l : List (Fin m)) :
    pt.sumsAfter i l {} =
      { up := (l.map (pt.between i)).sum
        down1 := l.length * pt.spread i
        down2 := (l.map pt.spread).sum
        ncc := (√(pt.spread i))⁻¹ * runningSum (pt.between i) pt.spread l
        count := l.length } := by
  induction l using List.reverseRecOn with
  | nil =>
    have hzero : runningSum (pt.between i) pt.spread [] = 0 := Finset.sum_range_zero _
    rw [hzero, mul_zero, List.length_nil, Nat.cast_zero, zero_mul]
    rfl
  | append_singleton l j ih =>
    have hstep : pt.sumsAfter i (l ++ [j]) {} = (pt.sumsAfter i l {}).add (pt.obs i).patch
        (pt.trueMeans i) ((pt.obs j).patch, pt.trueMeans j) := List.foldl_append
    have hroot : √(((l.length + 1 : ℕ) * pt.spread i) * ((l ++ [j]).map pt.spread).sum) =
        √(pt.spread i) * √((l.length + 1 : ℕ) * ((l ++ [j]).map pt.spread).sum) := by
      rw [← Real.sqrt_mul (pt.spread_nonneg i)]
      congr 1
      ring
    have hup : ((l ++ [j]).map (pt.between i)).sum =
        (l.map (pt.between i)).sum + pt.between i j := by
      rw [List.map_append, List.sum_append, List.map_singleton, List.sum_singleton]
    have hdown2 : ((l ++ [j]).map pt.spread).sum = (l.map pt.spread).sum + pt.spread j := by
      rw [List.map_append, List.sum_append, List.map_singleton, List.sum_singleton]
    have hdown1 : ((l.length + 1 : ℕ) : ℝ) * pt.spread i =
        l.length * pt.spread i + pt.spread i := by
      rw [Nat.cast_add, Nat.cast_one, add_mul, one_mul]
    rw [hstep, ih, runningSum_append, List.length_append, List.length_singleton, mul_add]
    have hterm : (√(pt.spread i))⁻¹ * (|((l ++ [j]).map (pt.between i)).sum| /
        √((l.length + 1 : ℕ) * ((l ++ [j]).map pt.spread).sum)) =
        |((l ++ [j]).map (pt.between i)).sum /
          √(((l.length + 1 : ℕ) * pt.spread i) * ((l ++ [j]).map pt.spread).sum)| := by
      rw [hroot, abs_div, abs_of_nonneg (mul_nonneg (Real.sqrt_nonneg _) (Real.sqrt_nonneg _)),
        div_mul_eq_div_div, inv_mul_eq_div, div_right_comm]
    rw [hterm, hup, hdown1, hdown2]
    rfl

/-- The shared sums come to what separate ones would. -/
def SumsAgree (pt : ScoredPoint m n) (i : Fin m) : Prop :=
  runningSum (pt.between i) pt.spread (pt.others i) =
    ((pt.others i).map (ownRatio (pt.between i) pt.spread)).sum

theorem patchScore_eq (pt : ScoredPoint m n) (i : Fin m) :
    pt.patchScore i = (√(pt.spread i))⁻¹ *
      ((pt.others i).map (ownRatio (pt.between i) pt.spread)).sum / (pt.others i).length +
        pt.cosAngle i := by
  have hterm : (fun j => correlation (pt.obs i).patch (pt.obs j).patch) =
      fun j => (√(pt.spread i))⁻¹ * ownRatio (pt.between i) pt.spread j := by
    funext j
    show |pt.between i j / √(pt.spread i * pt.spread j)| = _
    rw [ownRatio, Real.sqrt_mul (pt.spread_nonneg i), abs_div,
      abs_of_nonneg (mul_nonneg (Real.sqrt_nonneg _) (Real.sqrt_nonneg _)), div_mul_eq_div_div,
      inv_mul_eq_div, div_right_comm]
  unfold patchScore
  rw [hterm, List.sum_map_mul_left]

theorem others_length_pos (hd : pt.Distinct) (i : Fin m) : 0 < (pt.others i).length := by
  obtain ⟨j, -, hid⟩ := hd.other i
  apply List.length_pos_of_mem (a := j)
  exact List.mem_filter.mpr ⟨List.mem_finRange j, by simpa using hid⟩

theorem runningScore_eq_iff (hd : pt.Distinct) (hpos : 0 < pt.spread i) :
    pt.runningScore i = pt.patchScore i ↔ pt.SumsAgree i := by
  have hlength : ((pt.others i).length : ℝ) ≠ 0 :=
    Nat.cast_ne_zero.mpr (pt.others_length_pos hd i).ne'
  have hroot : (√(pt.spread i))⁻¹ ≠ 0 := inv_ne_zero (Real.sqrt_pos.mpr hpos).ne'
  unfold runningScore SumsAgree
  rw [sumsAfter_eq, patchScore_eq, add_left_inj, div_left_inj' hlength, mul_right_inj' hroot]

/-! ## Other orders -/

theorem others_reorder_perm (pt : ScoredPoint m n) (σ : Equiv.Perm (Fin m)) (i : Fin m) :
    (((pt.reorder σ).others i).map σ).Perm (pt.others (σ i)) := by
  have hfilter : ((pt.reorder σ).others i).map σ =
      ((List.finRange m).map σ).filter fun j => (pt.obs j).id ≠ (pt.obs (σ i)).id := by
    rw [List.filter_map]
    rfl
  rw [hfilter]
  exact σ.map_finRange_perm.filter _

/-- The score that is meant does not depend on the order. -/
theorem patchScore_reorder (pt : ScoredPoint m n) (σ : Equiv.Perm (Fin m)) (i : Fin m) :
    (pt.reorder σ).patchScore i = pt.patchScore (σ i) := by
  have hperm := pt.others_reorder_perm σ i
  have hlength := hperm.length_eq
  have hsum := (hperm.map fun j => correlation (pt.obs (σ i)).patch (pt.obs j).patch).sum_eq
  rw [List.length_map] at hlength
  rw [List.map_map] at hsum
  unfold patchScore
  rw [hlength]
  exact congrArg (· / _ + _) hsum

theorem Distinct.reorder (hd : pt.Distinct) (σ : Equiv.Perm (Fin m)) : (pt.reorder σ).Distinct :=
  ⟨hd.two, fun i j hid => σ.injective (hd.id (σ i) (σ j) hid)⟩

theorem mem_others_iff (hd : pt.Distinct) {j : Fin m} : j ∈ pt.others i ↔ j ≠ i := by
  rw [others, List.mem_filter, and_iff_right (List.mem_finRange j), decide_eq_true_iff]
  exact not_congr ⟨fun hid => hd.id j i hid, fun heq => congrArg (fun k => (pt.obs k).id) heq⟩

/-- The patch of an observation is correlated with none of the others, or all the others have the
same product with it and the same spread. -/
def SameOthers (pt : ScoredPoint m n) (i : Fin m) : Prop :=
  (∀ j, j ≠ i → pt.between i j = 0) ∨
    ∃ a b, ∀ j, j ≠ i → pt.between i j = a ∧ pt.spread j = b

theorem SameOthers.sumsAgree (hd : pt.Distinct) (h : pt.SameOthers i) : pt.SumsAgree i := by
  rcases h with hzero | ⟨a, b, hsame⟩
  · have hnil (j : Fin m) (hj : j ∈ pt.others i) : pt.between i j = 0 :=
      hzero j ((mem_others_iff hd).mp hj)
    have hratio : ((pt.others i).map (ownRatio (pt.between i) pt.spread)).sum = 0 := by
      refine List.sum_eq_zero ?_
      simp only [List.forall_mem_map]
      intro j hj
      rw [ownRatio, hnil j hj, abs_zero, zero_div]
    have hrun : runningSum (pt.between i) pt.spread (pt.others i) = 0 := by
      refine Finset.sum_eq_zero fun k _ => ?_
      have hsum : (((pt.others i).take (k + 1)).map (pt.between i)).sum = 0 := by
        refine List.sum_eq_zero ?_
        simp only [List.forall_mem_map]
        exact fun j hj => hnil j (List.mem_of_mem_take hj)
      rw [hsum, abs_zero, zero_div]
    exact hrun.trans hratio.symm
  · exact runningSum_of_const (fun j hj => (hsame j ((mem_others_iff hd).mp hj)).1)
      fun j hj => (hsame j ((mem_others_iff hd).mp hj)).2

/-- The shared sums come to what separate ones would in every order, if and only if the others
cannot be told apart. -/
theorem sumsAgree_reorder_iff (hd : pt.Distinct) (hpos : ∀ j, 0 < pt.spread j) :
    (∀ σ, ∀ i, (pt.reorder σ).SumsAgree i) ↔ ∀ i, pt.SameOthers i := by
  constructor
  · intro h i
    -- In the order of the quotients, each term of the running sum is at most its own.
    let σ := Tuple.sort (ownRatio (pt.between i) pt.spread)
    have hsorted : Monotone (ownRatio (pt.between i) pt.spread ∘ σ) := Tuple.monotone_sort _
    have hagree := h σ (σ.symm i)
    have hbetween : (pt.reorder σ).between (σ.symm i) = pt.between i ∘ σ := by
      funext j
      show covariation (pt.obs (σ (σ.symm i))).patch _ = _
      rw [σ.apply_symm_apply]
      rfl
    rw [SumsAgree, hbetween] at hagree
    have hpairwise : ((pt.reorder σ).others (σ.symm i)).Pairwise fun j k =>
        ownRatio (pt.between i ∘ σ) (pt.reorder σ).spread j ≤
          ownRatio (pt.between i ∘ σ) (pt.reorder σ).spread k := by
      refine List.Pairwise.filter _ ((List.pairwise_le_finRange m).imp fun hjk => ?_)
      exact hsorted hjk
    have hother (j : Fin m) (hj : j ≠ i) : σ.symm j ∈ (pt.reorder σ).others (σ.symm i) :=
      (mem_others_iff (hd.reorder σ)).mpr (σ.symm.injective.ne hj)
    rcases const_of_runningSum_eq (fun j _ => hpos (σ j)) hpairwise hagree with
      hzero | ⟨a, b, hsame⟩
    · left
      intro j hj
      have hvalue := hzero (σ.symm j) (hother j hj)
      rwa [Function.comp_apply, σ.apply_symm_apply] at hvalue
    · right
      refine ⟨a, b, fun j hj => ?_⟩
      obtain ⟨hproduct, hspread⟩ := hsame (σ.symm j) (hother j hj)
      rw [Function.comp_apply, σ.apply_symm_apply] at hproduct
      have hvalue : pt.spread (σ (σ.symm j)) = b := hspread
      rw [σ.apply_symm_apply] at hvalue
      exact ⟨hproduct, hvalue⟩
  · intro h σ i
    refine SameOthers.sumsAgree (hd.reorder σ) ?_
    rcases h (σ i) with hzero | ⟨a, b, hsame⟩
    · exact .inl fun j hj => hzero (σ j) (σ.injective.ne hj)
    · exact .inr ⟨a, b, fun j hj => hsame (σ j) (σ.injective.ne hj)⟩

end ScoredPoint

/-- For more than five observations of different frames with patches that are not constant, the
scores are the mean correlations, with the cosines of the angles of view, in every order, if and
only if no mean ever counts as computed and no patch tells the others apart. -/
theorem scores_iff (pt : ScoredPoint m n) (means : Fin m → ℝ) (hobs : 5 < m)
    (hid : ∀ i j, (pt.obs i).id = (pt.obs j).id → i = j)
    (hpatch : ∀ i, ∃ a b, (pt.obs i).patch a ≠ (pt.obs i).patch b) :
    (∀ σ : Equiv.Perm (Fin m), (pt.reorder σ).scores (means ∘ σ) =
        some ((List.finRange m).map fun i => pt.patchScore (σ i))) ↔
      (∀ i, |means i| < 1e-6 ∧ |patchMean (pt.obs i).patch| < 1e-6) ∧
        ∀ i, pt.SameOthers i := by
  have hd : pt.Distinct := ⟨by omega, hid⟩
  have hpos (j : Fin m) : 0 < pt.spread j := pt.spread_pos (hpatch j)
  rw [← pt.sumsAgree_reorder_iff hd hpos]
  have hscore (σ : Equiv.Perm (Fin m)) : (pt.reorder σ).scores (means ∘ σ) =
      some ((List.finRange m).map fun i => pt.patchScore (σ i)) ↔
        ((∀ i, |means i| < 1e-6) ∧ ∀ i, |patchMean (pt.obs i).patch| < 1e-6) ∧
          ∀ i, (pt.reorder σ).SumsAgree i := by
    have hmeant : ((List.finRange m).map fun i => pt.patchScore (σ i)) =
        (List.finRange m).map (pt.reorder σ).patchScore :=
      List.map_congr_left fun i _ => (pt.patchScore_reorder σ i).symm
    have hall {p : Fin m → Prop} : (∀ i, p (σ i)) ↔ ∀ i, p i := σ.surjective.forall.symm
    rw [hmeant]
    rcases (pt.reorder σ).scores_eq (hd.reorder σ) (means ∘ σ) with
      ⟨⟨hunset, htrue⟩, hscores⟩ | ⟨hset, hscores⟩
    · rw [hscores, Option.some_inj, List.map_inj_left]
      have hmeans : (∀ i, |means i| < 1e-6) ∧ ∀ i, |patchMean (pt.obs i).patch| < 1e-6 :=
        ⟨hall.mp hunset, hall.mp htrue⟩
      rw [and_iff_right hmeans]
      refine forall_congr' fun i => ?_
      rw [imp_iff_right (List.mem_finRange i)]
      exact ScoredPoint.runningScore_eq_iff (hd.reorder σ) (hpos (σ i))
    · rw [hscores]
      refine iff_of_false (fun heq => absurd heq.symm (Option.some_ne_none _)) fun hmeans => ?_
      exact hset ⟨fun i => hmeans.1.1 (σ i), fun i => hmeans.1.2 (σ i)⟩
  rw [forall_and]
  constructor
  · intro h
    exact ⟨((hscore 1).mp (h 1)).1, fun σ => ((hscore σ).mp (h σ)).2⟩
  · rintro ⟨hmeans, hsums⟩ σ
    exact (hscore σ).mpr ⟨hmeans, hsums σ⟩

/-! ## Six observations -/

/-- Six observations from different frames with one pose. -/
def sixObservations (patch : Fin 6 → Fin 4 → ℝ) : ScoredPoint 6 4 where
  pos := ![0, 0, 1]
  normal := ![0, 0, 1]
  obs i := ⟨(i : ℕ), patch i, 1⟩

theorem sixObservations_id (patch : Fin 6 → Fin 4 → ℝ) (i j : Fin 6)
    (h : ((sixObservations patch).obs i).id = ((sixObservations patch).obs j).id) : i = j :=
  Fin.ext (Int.natCast_inj.mp h)

/-- One patch at the edge of something dark, six times. -/
def darkPatches : Fin 6 → Fin 4 → ℝ := fun _ => ![0, 1e-6, 0, 1e-6]

/-- Six patches with means 1, 11 and so on, of which every second one from the third on is turned
over. -/
def brightPatches : Fin 6 → Fin 4 → ℝ :=
  ![![0.0, 2.0, 0.0, 2.0], ![10.0, 12.0, 10.0, 12.0], ![22.0, 20.0, 22.0, 20.0],
    ![30.0, 32.0, 30.0, 32.0], ![42.0, 40.0, 42.0, 40.0], ![50.0, 52.0, 50.0, 52.0]]

theorem bright_not_const (i : Fin 6) : ∃ a b, brightPatches i a ≠ brightPatches i b := by
  refine ⟨0, 1, ?_⟩
  fin_cases i <;> norm_num [brightPatches]

/-- The dark patches have the scores that are meant in every order. The bright ones do not once
their means are cached. -/
theorem scores_iff_six :
    (∀ σ : Equiv.Perm (Fin 6), ((sixObservations darkPatches).reorder σ).scores (fun _ => 0) =
        some ((List.finRange 6).map fun i => (sixObservations darkPatches).patchScore (σ i))) ∧
      ∃ σ : Equiv.Perm (Fin 6), ((sixObservations brightPatches).reorder σ).scores
          ((fun i => patchMean (brightPatches i)) ∘ σ) ≠
        some ((List.finRange 6).map fun i => (sixObservations brightPatches).patchScore (σ i)) := by
  constructor
  · have hmean : |patchMean (darkPatches 0)| < 1e-6 := by
      show |(∑ ind : Fin 4, ![(0 : ℝ), 1e-6, 0, 1e-6] ind) / (4 : ℕ)| < 1e-6
      simp only [Fin.sum_univ_four, cons_val]
      norm_num [abs_of_pos]
    have hpatch : ∃ a b : Fin 4, darkPatches 0 a ≠ darkPatches 0 b := by
      refine ⟨0, 1, ?_⟩
      show (0 : ℝ) ≠ 1e-6
      norm_num
    refine (scores_iff (sixObservations darkPatches) (fun _ => 0) (by decide)
      (sixObservations_id darkPatches) fun _ => hpatch).mpr ⟨fun _ => ⟨?_, hmean⟩, fun _ => ?_⟩
    · norm_num
    · exact .inr ⟨(sixObservations darkPatches).between 0 0,
        (sixObservations darkPatches).spread 0, fun _ _ => ⟨rfl, rfl⟩⟩
  · by_contra! hall
    have hmean : |patchMean (brightPatches 0)| < 1e-6 :=
      ((scores_iff (sixObservations brightPatches) (fun i => patchMean (brightPatches i)) (by decide)
        (sixObservations_id brightPatches) bright_not_const).mp hall).1 0 |>.2
    simp only [patchMean, brightPatches, Fin.sum_univ_four, cons_val] at hmean
    norm_num [abs_of_pos] at hmean

theorem covariation_bright (j : Fin 6) :
    (sixObservations brightPatches).between 0 j = ![4, 4, -4, 4, -4, 4] j ∧
      (sixObservations brightPatches).spread j = 4 := by
  constructor
  · show covariation (brightPatches 0) (brightPatches j) = _
    fin_cases j <;> simp [covariation, patchMean, brightPatches, Fin.sum_univ_four] <;> norm_num
  · show covariation (brightPatches j) (brightPatches j) = _
    fin_cases j <;> simp [covariation, patchMean, brightPatches, Fin.sum_univ_four] <;> norm_num

theorem bright_not_sumsAgree : ¬(sixObservations brightPatches).SumsAgree 0 := by
  have hothers : (sixObservations brightPatches).others 0 = [1, 2, 3, 4, 5] := by decide
  have hspread (l : List (Fin 6)) :
      (l.map (sixObservations brightPatches).spread).sum = l.length * 4 := by
    rw [List.map_congr_left fun j _ => (covariation_bright j).2, List.map_const', List.sum_replicate,
      nsmul_eq_mul]
  have hbetween : (sixObservations brightPatches).between 0 = ![4, 4, -4, 4, -4, 4] :=
    funext fun j => (covariation_bright j).1
  -- 4, 0, 4, 0, 4 over 2, 4, 6, 8, 10
  have hrun : runningSum ((sixObservations brightPatches).between 0)
      (sixObservations brightPatches).spread [1, 2, 3, 4, 5] = 46 / 15 := by
    simp only [runningSum, hspread, hbetween]
    simp only [List.length_cons, List.length_nil, Finset.sum_range_succ, Finset.sum_range_zero,
      List.take_succ_cons, List.take_zero, List.map_cons, List.map_nil, List.sum_cons, List.sum_nil,
      cons_val]
    norm_num
  have hmeant : ([1, 2, 3, 4, 5].map (ownRatio ((sixObservations brightPatches).between 0)
      (sixObservations brightPatches).spread)).sum = 10 := by
    simp only [List.map_cons, List.map_nil, ownRatio, (covariation_bright _).2, hbetween, cons_val]
    norm_num
  rw [ScoredPoint.SumsAgree, hothers, hrun, hmeant]
  norm_num

/-- At the first call nothing unassigned is read for the first observation. Its products with the
other patches cancel out in the sum that runs on, and its score is not the one that is meant. -/
theorem shared_sums_not_reset :
    (∀ i, ∃ a b, brightPatches i a ≠ brightPatches i b) ∧
      (sixObservations brightPatches).scores (fun _ => 0) ≠
        some ((List.finRange 6).map (sixObservations brightPatches).patchScore) ∧
      ∃ score means, (sixObservations brightPatches).score (fun _ => 0) 0 = some (score, means) ∧
        score ≠ (sixObservations brightPatches).patchScore 0 := by
  have hd : (sixObservations brightPatches).Distinct := ⟨by decide, sixObservations_id _⟩
  have hunset : ∀ j : Fin 6, ScoredPoint.Unset (fun _ => 0) j := fun _ => by
    rw [ScoredPoint.Unset, abs_zero]
    norm_num
  have hpos : 0 < (sixObservations brightPatches).spread 0 := by
    rw [(covariation_bright 0).2]
    norm_num
  refine ⟨bright_not_const, ?_, _, _, ScoredPoint.score_of_unset hd hunset, ?_⟩
  · rcases ScoredPoint.scores_eq hd fun _ => 0 with ⟨-, hscores⟩ | ⟨-, hscores⟩
    · rw [hscores]
      intro heq
      have hfirst := List.map_inj_left.mp (Option.some.inj heq) 0 (List.mem_finRange 0)
      exact bright_not_sumsAgree ((ScoredPoint.runningScore_eq_iff hd hpos).mp hfirst)
    · rw [hscores]
      exact (Option.some_ne_none _).symm
  · exact fun heq => bright_not_sumsAgree ((ScoredPoint.runningScore_eq_iff hd hpos).mp heq)

end

end FastLivo.Frontend
