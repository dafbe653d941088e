import FastLivo.Frontend.ErrorConvention
import FastLivo.Lib.EntryOrder
import Mathlib.Analysis.Calculus.ContDiff.Operations

/-!
# Turns by short rotation vectors

How a turned vector depends on the rotation vector, and the logarithm near the identity, where the
code reads half the skew part.
-/

namespace FastLivo.Frontend

open Lib Esikf Matrix NormedSpace Asymptotics Filter Topology

noncomputable section

open scoped Matrix.Norms.Operator in
/-- Vectors turn smoothly. -/
theorem contDiff_expSkew (q : Vec3) :
    ContDiff ℝ 2 (fun u : Vec3 => (expSkew u).matrix *ᵥ q) := by
  have hexp : ContDiff ℝ 2 (exp : Mat3 → Mat3) :=
    contDiff_iff_contDiffAt.mpr fun A => (exp_analytic (𝕂 := ℝ) A).contDiffAt
  let applied : Mat3 →L[ℝ] Vec3 := LinearMap.toContinuousLinearMap ((mulVecBilin ℝ ℝ).flip q)
  exact applied.contDiff.comp
    (hexp.comp (LinearMap.toContinuousLinearMap skewLinear).contDiff)

/-- The jacobian of a turned vector in the rotation vector. -/
def turnJacobian (q u : Vec3) : Mat3 :=
  LinearMap.toMatrix' (fderiv ℝ (fun u : Vec3 => (expSkew u).matrix *ᵥ q) u).toLinearMap

theorem hasJacobianAt_turn (q u : Vec3) :
    HasJacobianAt (fun u => (expSkew u).matrix *ᵥ q) (turnJacobian q u) u := by
  have hmap : matrixMap (turnJacobian q u) =
      fderiv ℝ (fun u : Vec3 => (expSkew u).matrix *ᵥ q) u := by
    ext v i
    rw [matrixMap_apply, turnJacobian, LinearMap.toMatrix'_mulVec]
    rfl
  show HasFDerivAt _ _ _
  rw [hmap]
  exact ((contDiff_expSkew q).differentiable two_ne_zero u).hasFDerivAt

/-- For short times it is the cross product, up to the first order. -/
theorem turnJacobian_order (q w : Vec3) :
    EntriesO (fun t => turnJacobian q (t • w) + skew q) 1 := by
  have hzero : turnJacobian q 0 = -skew q :=
    (hasJacobianAt_turn q 0).unique (hasJacobianAt_expSkew q)
  have hdiff : DifferentiableAt ℝ
      (fderiv ℝ fun u : Vec3 => (expSkew u).matrix *ᵥ q) 0 :=
    ((contDiff_expSkew q).fderiv_right (m := 1) le_rfl).differentiable one_ne_zero 0
  have hscaled : Tendsto (fun t : ℝ => t • w) (𝓝 0) (𝓝 0) := by
    have h : Continuous fun t : ℝ => t • w := by fun_prop
    simpa using h.tendsto 0
  have htime : (fun t : ℝ => t • w - 0) =O[𝓝 0] fun t : ℝ => t ^ 1 := by
    refine IsBigO.of_bound ‖w‖ (Eventually.of_forall fun t => ?_)
    rw [sub_zero, norm_smul, pow_one, mul_comm]
  have horder := (hdiff.isBigO_sub.comp_tendsto hscaled).trans htime
  intro i j
  let entry : (Vec3 →L[ℝ] Vec3) →L[ℝ] ℝ :=
    (ContinuousLinearMap.proj i).comp (ContinuousLinearMap.apply ℝ Vec3 (Pi.single j 1))
  refine ((entry.isBigO_comp _ _).trans horder).congr_left fun t => ?_
  have hentry (u : Vec3) : entry (fderiv ℝ (fun u : Vec3 => (expSkew u).matrix *ᵥ q) u) =
      turnJacobian q u i j := (LinearMap.toMatrix'_apply _ _ _).symm
  show entry (_ - _) = _
  rw [map_sub, hentry, hentry, hzero, Matrix.neg_apply, sub_neg_eq_add]
  rfl

/-- The derivative of the entries of a short turn. -/
theorem hasDerivAt_expSkew (w : Vec3) (i j : Fin 3) :
    HasDerivAt (fun t : ℝ => (expSkew (t • w)).matrix i j) (skew w i j) 0 := by
  have hcol (M : Mat3) : (M *ᵥ Pi.single j 1) i = M i j := by
    rw [mulVec_single_one, col_apply]
  have hline : HasDerivAt (fun t : ℝ => t • w) w 0 := by
    simpa using (hasDerivAt_id (0 : ℝ)).smul_const w
  have hturn : HasFDerivAt (fun u => (expSkew u).matrix *ᵥ Pi.single j 1)
      (matrixMap (-skew (Pi.single j 1))) ((0 : ℝ) • w) := by
    rw [zero_smul]
    exact hasJacobianAt_expSkew _
  have h := hasDerivAt_pi.mp (hturn.comp_hasDerivAt (0 : ℝ) hline) i
  rw [matrixMap_apply, ← skew_mulVec_swap, hcol] at h
  simpa only [Function.comp_def, hcol] using h

theorem expSkew_order (w : Vec3) :
    EntriesO (fun t => (expSkew (t • w)).matrix - 1) 1 := by
  intro i j
  have h := (hasDerivAt_expSkew w i j).isBigO_sub
  simpa [expSkew_zero] using h

/-! ## The logarithm near the identity -/

/-- Half the skew part of a matrix, from its columns or from the jacobians of its columns. -/
def veeRows {n : Type*} (B : Fin 3 → Matrix (Fin 3) n ℝ) : Matrix (Fin 3) n ℝ :=
  (0.5 : ℝ) • ∑ k, skew (Pi.single k 1) * B k

section Vee

variable {n k : Type*} (A B : Fin 3 → Matrix (Fin 3) n ℝ)

theorem veeRows_add : veeRows (fun k => A k + B k) = veeRows A + veeRows B := by
  simp only [veeRows, Matrix.mul_add, Finset.sum_add_distrib, smul_add]

theorem veeRows_mul [Fintype n] (M : Matrix n k ℝ) :
    veeRows (fun k => B k * M) = veeRows B * M := by
  simp only [veeRows, Matrix.smul_mul, Matrix.sum_mul, Matrix.mul_assoc]

theorem veeRows_neg_smul (c : ℝ) : veeRows (fun k => -(c • B k)) = -(c • veeRows B) := by
  simp only [veeRows, Matrix.mul_neg, Matrix.mul_smul, Finset.sum_neg_distrib, ← Finset.smul_sum,
    smul_neg, smul_comm c]

theorem veeRows_sub : veeRows (fun k => A k - B k) = veeRows A - veeRows B := by
  simp only [veeRows, Matrix.mul_sub, Finset.sum_sub_distrib, smul_sub]

/-- A skew matrix gives its vector. -/
theorem veeRows_skew : veeRows (fun k => -skew (Pi.single k 1)) = 1 := by
  have hx : (Pi.single 0 1 : Vec3) = ![1, 0, 0] := by ext i; fin_cases i <;> rfl
  have hy : (Pi.single 1 1 : Vec3) = ![0, 1, 0] := by ext i; fin_cases i <;> rfl
  have hz : (Pi.single 2 1 : Vec3) = ![0, 0, 1] := by ext i; fin_cases i <;> rfl
  have hsquares : skew ![1, 0, 0] * -skew ![1, 0, 0] + skew ![0, 1, 0] * -skew ![0, 1, 0] +
      skew ![0, 0, 1] * -skew ![0, 0, 1] = (2 : ℝ) • (1 : Mat3) := by
    ext i j
    fin_cases i <;> fin_cases j <;> simp [skew] <;> norm_num
  rw [veeRows, Fin.sum_univ_three, hx, hy, hz, hsquares, smul_smul]
  norm_num

theorem skewPart_eq (M : Mat3) :
    (0.5 : ℝ) • skewPart M = (0.5 : ℝ) • (skew (Pi.single 0 1) *ᵥ (M *ᵥ Pi.single 0 1) +
      skew (Pi.single 1 1) *ᵥ (M *ᵥ Pi.single 1 1) +
      skew (Pi.single 2 1) *ᵥ (M *ᵥ Pi.single 2 1)) := by
  congr 1
  ext i
  fin_cases i <;> simp [skewPart, skew, dotProduct, Fin.sum_univ_three] <;> ring

theorem veeRows_order {B : Fin 3 → ℝ → Matrix (Fin 3) n ℝ} {d : ℕ}
    (hB : ∀ k, EntriesO (B k) d) : EntriesO (fun t => veeRows fun k => B k t) d := by
  have hsum := (((hB 0).const_mul (skew (Pi.single 0 1))).add
    ((hB 1).const_mul (skew (Pi.single 1 1)))).add ((hB 2).const_mul (skew (Pi.single 2 1)))
  simp only [veeRows, Fin.sum_univ_three]
  exact fun i j => (hsum i j).const_mul_left _

end Vee

/-- Near the identity the code reads half the skew part. -/
theorem logRot_eq {M : Mat3} (h : 3.0 - 1e-6 < M.trace) : logRot M = (0.5 : ℝ) • skewPart M := by
  unfold logRot
  dsimp only
  rw [if_pos h, abs_zero, if_pos (by norm_num)]

theorem logRot_one : logRot 1 = 0 := by
  have htrace : (3.0 - 1e-6 : ℝ) < (1 : Mat3).trace := by
    norm_num [trace_fin_three]
  rw [logRot_eq htrace]
  ext i
  fin_cases i <;> simp [skewPart]

/-- The logarithm of a matrix that is the identity at zero. -/
theorem hasJacobianAt_logRot {n : Type*} [Fintype n] {M : (n → ℝ) → Mat3}
    {B : Fin 3 → Matrix (Fin 3) n ℝ}
    (hM : ∀ k, HasJacobianAt (fun x => M x *ᵥ Pi.single k 1) (B k) 0) (hone : M 0 = 1) :
    HasJacobianAt (fun x => logRot (M x)) (veeRows B) 0 := by
  have hhalf : HasJacobianAt (fun x => (0.5 : ℝ) • skewPart (M x)) (veeRows B) 0 := by
    simp only [skewPart_eq, veeRows, Fin.sum_univ_three]
    exact ((((hM 0).mulVec _).add ((hM 1).mulVec _)).add ((hM 2).mulVec _)).const_smul _
  have htrace : ContinuousAt (fun x => (M x).trace) 0 := by
    have hentry (k : Fin 3) : ContinuousAt (fun x => M x k k) 0 := by
      have h := continuousAt_pi.mp (HasFDerivAt.continuousAt (hM k)) k
      simpa only [mulVec_single_one, col_apply] using h
    simp only [trace_fin_three]
    exact ((hentry 0).add (hentry 1)).add (hentry 2)
  have hnear : 3.0 - 1e-6 < (M 0).trace := by
    rw [hone]
    norm_num [trace_fin_three]
  refine HasFDerivAt.congr_of_eventuallyEq hhalf ?_
  filter_upwards [htrace.eventually_const_lt hnear] with x hx
  exact logRot_eq hx

end

end FastLivo.Frontend
