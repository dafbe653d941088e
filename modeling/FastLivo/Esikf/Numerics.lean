import FastLivo.Esikf.Filter
import Mathlib.Analysis.Normed.Algebra.MatrixExponential
import Mathlib.Analysis.SpecialFunctions.Exponential
import Mathlib.Topology.Algebra.Module.FiniteDimension

/-!
# The library functions in exact arithmetic

The exponential map of SO(3) is the matrix exponential of the skew matrix, the logarithm
is read off the skew part, and a positive definite system is solved by its inverse.
-/

namespace FastLivo.Esikf

open Matrix NormedSpace Asymptotics Filter Topology

noncomputable section

theorem skew_transpose (v : Vec3) : (skew v)ᵀ = -skew v := by
  ext i j
  fin_cases i <;> fin_cases j <;> simp [skew]

theorem exp_skew_mul_transpose (v : Vec3) : exp (skew v) * (exp (skew v))ᵀ = 1 := by
  rw [← exp_transpose, skew_transpose, Matrix.exp_neg]
  exact mul_nonsing_inv _ ((isUnit_iff_isUnit_det _).mp (isUnit_exp _))

/-- The rotation is the square of the one by half the angle. -/
theorem det_exp_skew (v : Vec3) : (exp (skew v)).det = 1 := by
  have hhalf : skew v = skew ((1 / 2 : ℝ) • v) + skew ((1 / 2 : ℝ) • v) := by
    ext i j
    fin_cases i <;> fin_cases j <;> simp [skew] <;> ring
  have hdet := congrArg det (exp_skew_mul_transpose ((1 / 2 : ℝ) • v))
  rw [det_mul, det_transpose, det_one] at hdet
  rw [hhalf, exp_add_of_commute _ _ (Commute.refl _), det_mul]
  exact hdet

/-- `Expmap`. -/
def expSkew (v : Vec3) : Rot3 := ⟨exp (skew v), mem_rot3 (exp_skew_mul_transpose v) (det_exp_skew v)⟩

theorem expSkew_zero : expSkew 0 = 1 := by
  have hzero : skew 0 = 0 := by
    ext i j
    fin_cases i <;> fin_cases j <;> simp [skew]
  apply Rot3.ext
  show exp (skew 0) = 1
  rw [hzero, exp_zero]

theorem expSkew_conj (R : Rot3) (v : Vec3) :
    expSkew (R.matrixᵀ *ᵥ v) = R⁻¹ * expSkew v * R := by
  have hinv : R.matrix⁻¹ = R.matrixᵀ := inv_eq_left_inv R.transpose_mul_matrix
  have hunit : IsUnit R.matrix := by
    rw [isUnit_iff_isUnit_det, R.det_matrix]
    exact isUnit_one
  apply Rot3.ext
  show exp (skew (R.matrixᵀ *ᵥ v)) = R⁻¹.matrix * exp (skew v) * R.matrix
  rw [skew_transpose_mulVec, ← hinv, exp_conj' _ _ hunit, R.matrix_inv, hinv]

/-- `skew` as a linear map. -/
def skewLinear : Vec3 →ₗ[ℝ] Mat3 where
  toFun := skew
  map_add' v w := by
    ext i j
    fin_cases i <;> fin_cases j <;> simp [skew] <;> ring
  map_smul' a v := by
    ext i j
    fin_cases i <;> fin_cases j <;> simp [skew]

open scoped Matrix.Norms.Operator in
/-- A small rotation moves a vector by the cross product, up to second order. -/
theorem expSkew_deriv (w : Vec3) :
    (fun v => (expSkew v).matrix *ᵥ w - w - v ⨯₃ w) =o[𝓝 0] fun v : Vec3 => v := by
  have hexp : (fun A : Mat3 => exp A - 1 - A) =o[𝓝 0] fun A => A := by
    have h := (@hasFDerivAt_exp_zero ℝ Mat3 _ _ _ _).isLittleO
    simp only [exp_zero, sub_zero, one_apply_eq_self] at h
    exact h
  have hskew : Tendsto skewLinear (𝓝 0) (𝓝 0) := by
    have hcont : Continuous skewLinear := LinearMap.continuous_of_finiteDimensional skewLinear
    simpa using hcont.tendsto 0
  have hbound : (fun v => skewLinear v) =O[𝓝 0] fun v : Vec3 => v :=
    (LinearMap.toContinuousLinearMap skewLinear).isBigO_id _
  let applied : Mat3 →L[ℝ] Vec3 := LinearMap.toContinuousLinearMap ((mulVecBilin ℝ ℝ).flip w)
  have hsmall := (applied.isBigO_comp _ _).trans_isLittleO
    ((hexp.comp_tendsto hskew).trans_isBigO hbound)
  refine hsmall.congr_left fun v => ?_
  show (exp (skew v) - 1 - skew v) *ᵥ w = _
  rw [sub_mulVec, sub_mulVec, one_mulVec, skew_mulVec]
  rfl

/-- `Logmap` of a rotation by less than a half turn. -/
def logSkew (R : Rot3) : Vec3 :=
  let angle := Real.arccos (0.5 * (R.matrix.trace - 1))
  (0.5 * angle / Real.sin angle) • skewPart R.matrix

theorem posDef_mulVec_inv {n : ℕ} {S : Matrix (Fin n) (Fin n) ℝ} (h : S.PosDef) (b : Fin n → ℝ) :
    S *ᵥ (S⁻¹ *ᵥ b) = b := by
  rw [mulVec_mulVec, mul_nonsing_inv _ ((isUnit_iff_isUnit_det S).mp h.isUnit), one_mulVec]

def Numerics.exact : Numerics where
  expmap := expSkew
  logmap := logSkew
  ldlt S := some fun b => S⁻¹ *ᵥ b
  expmap_zero := expSkew_zero
  ldlt_solve h hsolve b := by
    rw [← Option.some.inj hsolve]
    exact posDef_mulVec_inv h b

end

end FastLivo.Esikf
