import FastLivo.Lib.LeastSquares
import FastLivo.Frontend.Posterior
import FastLivo.Frontend.VioPosterior

/-!
# The steps of the two updates

Both updates compute the step of a linear least squares problem with a prior, from the columns of
the jacobian that are not zero. The LiDAR update is given the negated residual, the photometric
update the residual itself.
-/

namespace FastLivo.Frontend

open Lib Esikf Matrix

noncomputable section

section Columns

variable {ι k n : Type} [Fintype ι] [Fintype k] [DecidableEq n]

/-- The columns of a gain applied to a vector of their size. -/
theorem submatrix_mulVec [Fintype n] (e : k → n) (K : Matrix n n ℝ) (w : k → ℝ) :
    K.submatrix id e *ᵥ w = K *ᵥ (((1 : Matrix n n ℝ).submatrix e id)ᵀ *ᵥ w) := by
  have hcols : K.submatrix id e = K * ((1 : Matrix n n ℝ).submatrix e id)ᵀ := by
    ext i c
    simp [mul_apply, one_apply]
  rw [hcols, mulVec_mulVec]

/-- The measured part in the columns is the one of the padded jacobian. -/
theorem padCols_transpose_mulVec (e : k → n) (H : Matrix ι k ℝ) (z : ι → ℝ) :
    ((1 : Matrix n n ℝ).submatrix e id)ᵀ *ᵥ (Hᵀ *ᵥ z) = (padCols e H)ᵀ *ᵥ z := by
  rw [padCols, transpose_mul, mulVec_mulVec]

end Columns

section Steps

variable {ι k : Type} [Fintype ι] [Fintype k] {e : k → StateIndex}

/-- The step of the photometric update. -/
theorem vioSolution_eq (he : e.Injective) (imgPointCov : ℝ) (P : StateMatrix)
    (H : Matrix ι k ℝ) (z : ι → ℝ) (vec : StateVector) :
    vioSolution e imgPointCov P H z vec =
      mapStep (imgPointCov⁻¹ • P) ((padCols e H)ᵀ * padCols e H) ((padCols e H)ᵀ *ᵥ (-z)) vec := by
  have hgram : pad e (Hᵀ * H) = (padCols e H)ᵀ * padCols e H := by
    classical
    have h := pad_normal e H 1
    rwa [Matrix.mul_one, Matrix.mul_one] at h
  have hgain : (vioGain e imgPointCov P H).submatrix id e *ᵥ (vec ∘ e) =
      (vioK1 e imgPointCov P H * pad e (Hᵀ * H)) *ᵥ vec := by
    rw [vioGain, padCols_submatrix_mulVec he, padCols_submatrix_mul]
  have hmeasured : -((vioK1 e imgPointCov P H).submatrix id e *ᵥ (Hᵀ *ᵥ z)) =
      vioK1 e imgPointCov P H *ᵥ ((padCols e H)ᵀ *ᵥ (-z)) := by
    rw [submatrix_mulVec, padCols_transpose_mulVec, mulVec_neg, mulVec_neg]
  unfold vioSolution mapStep
  rw [hgain, hmeasured, ← hgram]
  rfl

/-- The step of the LiDAR update. -/
theorem solution_eq (rows : List Row) (P : StateMatrix) (vec : StateVector) :
    solution rows P vec =
      mapStep P ((jacobian rows)ᵀ * diagonal (rInv rows) * jacobian rows)
        ((jacobian rows)ᵀ *ᵥ (diagonal (rInv rows) *ᵥ measVec rows)) vec := by
  have hcols : hsubTRInv rows = (hsub rows)ᵀ * diagonal (rInv rows) := by
    ext c i
    rw [mul_diagonal]
    rfl
  have hinfo : pad poseIndex (hTH rows) =
      (jacobian rows)ᵀ * diagonal (rInv rows) * jacobian rows := by
    rw [hTH_eq, pad_normal]
    rfl
  have hgain : (gain rows P).submatrix id poseIndex *ᵥ (vec ∘ poseIndex) =
      (k1 rows P * pad poseIndex (hTH rows)) *ᵥ vec := by
    rw [gain, padCols_submatrix_mulVec poseIndex_injective, padCols_submatrix_mul]
  have hmeasured : (k1 rows P).submatrix id poseIndex *ᵥ (hsubTRInv rows *ᵥ measVec rows) =
      k1 rows P *ᵥ ((jacobian rows)ᵀ *ᵥ (diagonal (rInv rows) *ᵥ measVec rows)) := by
    rw [hcols, ← mulVec_mulVec, submatrix_mulVec, padCols_transpose_mulVec]
    rfl
  unfold solution mapStep
  rw [hgain, hmeasured, ← hinfo]
  rfl

theorem expoIndex_injective : expoIndex.Injective := by
  intro c d h
  cases c with
  | none =>
    cases d with
    | none => rfl
    | some d => cases d <;> cases h
  | some c =>
    cases d with
    | none => cases c <;> cases h
    | some d => exact congrArg some (poseIndex_injective h)

end Steps

end

end FastLivo.Frontend
