import Mathlib.LinearAlgebra.Matrix.NonsingularInverse
import Mathlib.LinearAlgebra.Matrix.Trace
import Mathlib.Data.Real.Basic
import Mathlib.Tactic.FinCases
import Mathlib.Tactic.Linarith
import Mathlib.Tactic.LinearCombination

/-!
# Weighted traces of orthogonal matrices

The diagonal of an orthogonal matrix of three rows, weighted by numbers that do not increase: how
large the sum gets for each sign of the determinant, and which matrix reaches it.
-/

namespace FastLivo.Lib

open Matrix

/-- The sum of the diagonal with weights. -/
def weightedTrace (σ : Fin 3 → ℝ) (Q : Matrix (Fin 3) (Fin 3) ℝ) : ℝ := ∑ i, σ i * Q i i

/-- Weights that do not increase and are not negative. -/
structure Weights (σ : Fin 3 → ℝ) : Prop where
  first : σ 1 ≤ σ 0
  second : σ 2 ≤ σ 1
  last : 0 ≤ σ 2

section Orthogonal

variable {Q : Matrix (Fin 3) (Fin 3) ℝ} (hQ : Q * Qᵀ = 1)

include hQ

theorem transpose_mul_of_mul_transpose : Qᵀ * Q = 1 := mul_eq_one_comm.mp hQ

theorem row_sq (i : Fin 3) : Q i 0 * Q i 0 + Q i 1 * Q i 1 + Q i 2 * Q i 2 = 1 := by
  have h := congrArg (fun M : Matrix (Fin 3) (Fin 3) ℝ => M i i) hQ
  simpa [mul_apply, Fin.sum_univ_three] using h

theorem col_sq (j : Fin 3) : Q 0 j * Q 0 j + Q 1 j * Q 1 j + Q 2 j * Q 2 j = 1 := by
  have h := congrArg (fun M : Matrix (Fin 3) (Fin 3) ℝ => M j j) (transpose_mul_of_mul_transpose hQ)
  simpa [mul_apply, Fin.sum_univ_three] using h

theorem diag_le_one (i : Fin 3) : Q i i ≤ 1 := by
  have hrow := row_sq hQ i
  have hsq : Q i i * Q i i ≤ 1 := by
    fin_cases i <;> simp at hrow ⊢ <;>
      nlinarith [mul_self_nonneg (Q 0 1), mul_self_nonneg (Q 0 2), mul_self_nonneg (Q 1 0),
        mul_self_nonneg (Q 1 2), mul_self_nonneg (Q 2 0), mul_self_nonneg (Q 2 1)]
  nlinarith

theorem det_orthogonal : Q.det = 1 ∨ Q.det = -1 := by
  have h := congrArg det hQ
  rw [det_mul, det_transpose, det_one] at h
  exact mul_self_eq_one_iff.mp h

theorem adjugate_orthogonal : Q.adjugate = Q.det • Qᵀ :=
  calc Q.adjugate
      = Q.adjugate * (Q * Qᵀ) := by rw [hQ, Matrix.mul_one]
    _ = Q.det • Qᵀ := by rw [← Matrix.mul_assoc, adjugate_mul, smul_mul, Matrix.one_mul]

/-- The squared entries add up to three, so a trace of a square cannot be larger. -/
theorem trace_sq_le : (Q * Q).trace ≤ 3 := by
  have h0 := row_sq hQ 0
  have h1 := row_sq hQ 1
  have h2 := row_sq hQ 2
  simp only [trace_fin_three, mul_apply, Fin.sum_univ_three]
  nlinarith [mul_self_nonneg (Q 0 1 - Q 1 0), mul_self_nonneg (Q 0 2 - Q 2 0),
    mul_self_nonneg (Q 1 2 - Q 2 1)]

/-- A reflection has a trace of at most one. -/
theorem trace_le_one (hdet : Q.det = -1) : Q.trace ≤ 1 := by
  have hadj : Q.adjugate.trace = -Q.trace := by
    rw [adjugate_orthogonal hQ, hdet, neg_one_smul, trace_neg, trace_transpose]
  -- the second coefficient of the characteristic polynomial
  have hsecond : Q.trace * Q.trace - (Q * Q).trace = 2 * Q.adjugate.trace := by
    simp only [trace_fin_three, mul_apply, Fin.sum_univ_three, adjugate_fin_three]
    simp
    ring
  have hsq := trace_sq_le hQ
  nlinarith

/-! ## The largest sum -/

theorem weightedTrace_le {σ : Fin 3 → ℝ} (hσ : Weights σ) :
    weightedTrace σ Q ≤ σ 0 + σ 1 + Q.det * σ 2 := by
  have h0 := diag_le_one hQ 0
  have h1 := diag_le_one hQ 1
  have h2 := diag_le_one hQ 2
  obtain ⟨h01, h12, hlast⟩ := hσ
  unfold weightedTrace
  rw [Fin.sum_univ_three]
  rcases det_orthogonal hQ with hdet | hdet
  · rw [hdet]
    nlinarith
  · -- summed by parts, each part is bounded by a trace
    have htrace := trace_le_one hQ hdet
    rw [trace_fin_three] at htrace
    rw [hdet]
    nlinarith

/-- Two ones on the diagonal leave no choice. -/
theorem eq_diagonal_of_diag (h0 : Q 0 0 = 1) (h1 : Q 1 1 = 1) : Q = diagonal ![1, 1, Q.det] := by
  have hrow0 := row_sq hQ 0
  have hrow1 := row_sq hQ 1
  have hcol0 := col_sq hQ 0
  have hcol1 := col_sq hQ 1
  rw [h0] at hrow0 hcol0
  rw [h1] at hrow1 hcol1
  have hzero {x y : ℝ} (h : x * x + y * y = 0) : x = 0 ∧ y = 0 :=
    mul_self_add_mul_self_eq_zero.mp h
  obtain ⟨h01, h02⟩ := hzero (by linarith : Q 0 1 * Q 0 1 + Q 0 2 * Q 0 2 = 0)
  obtain ⟨h10, h20⟩ := hzero (by linarith : Q 1 0 * Q 1 0 + Q 2 0 * Q 2 0 = 0)
  obtain ⟨-, h12⟩ := hzero (by linarith : Q 1 0 * Q 1 0 + Q 1 2 * Q 1 2 = 0)
  obtain ⟨-, h21⟩ := hzero (by linarith : Q 0 1 * Q 0 1 + Q 2 1 * Q 2 1 = 0)
  have h22 : Q 2 2 = Q.det := by
    rw [det_fin_three, h0, h1, h01, h02, h10, h12, h20, h21]
    ring
  ext i j
  fin_cases i <;> fin_cases j <;> simp [h0, h1, h01, h02, h10, h12, h20, h21, h22]

/-- Where the last two weights do not cancel, one matrix reaches the largest sum. -/
theorem eq_of_weightedTrace {σ : Fin 3 → ℝ} (hσ : Weights σ) (hgap : 0 < σ 1 + Q.det * σ 2)
    (hmax : weightedTrace σ Q = σ 0 + σ 1 + Q.det * σ 2) : Q = diagonal ![1, 1, Q.det] := by
  have h0 := diag_le_one hQ 0
  have h1 := diag_le_one hQ 1
  have h2 := diag_le_one hQ 2
  obtain ⟨h01, h12, hlast⟩ := hσ
  unfold weightedTrace at hmax
  rw [Fin.sum_univ_three] at hmax
  have hones : Q 0 0 = 1 ∧ Q 1 1 = 1 := by
    rcases det_orthogonal hQ with hdet | hdet
    · rw [hdet] at hgap hmax
      have hpos : 0 < σ 1 := by linarith
      constructor <;> nlinarith
    · rw [hdet] at hgap hmax
      have htrace := trace_le_one hQ hdet
      rw [trace_fin_three] at htrace
      have hpos : 0 < σ 1 - σ 2 := by linarith
      have hsum : Q 0 0 + Q 1 1 = 2 := by nlinarith
      constructor <;> linarith
  exact eq_diagonal_of_diag hQ hones.1 hones.2

end Orthogonal

/-! ## Matrices that reach it -/

section Reached

variable {σ : Fin 3 → ℝ} {d : ℝ}

theorem weightedTrace_diagonal (v : Fin 3 → ℝ) :
    weightedTrace σ (diagonal v) = σ 0 * v 0 + σ 1 * v 1 + σ 2 * v 2 := by
  rw [weightedTrace, Fin.sum_univ_three, diagonal_apply_eq, diagonal_apply_eq, diagonal_apply_eq]

theorem diagonal_orthogonal {v : Fin 3 → ℝ} (hv : ∀ i, v i * v i = 1) :
    diagonal v * (diagonal v)ᵀ = 1 := by
  rw [diagonal_transpose, diagonal_mul_diagonal, ← diagonal_one]
  exact congrArg diagonal (funext hv)

/-- Where the last two weights cancel, there are two. -/
theorem weightedTrace_other (hgap : σ 1 + d * σ 2 = 0) :
    weightedTrace σ (diagonal ![1, -1, -d]) = σ 0 + σ 1 + d * σ 2 := by
  rw [weightedTrace_diagonal]
  simp
  linarith

end Reached

end FastLivo.Lib
