import Mathlib.LinearAlgebra.Matrix.PosDef
import Mathlib.Analysis.RCLike.Basic

/-!
# Covariances of a Kalman filter

Prediction and update of a real covariance matrix. A prediction and an update in Joseph
form keep a positive semidefinite matrix so, whatever the gain; with the gain of the
innovation covariance the update also stays below the prior in the Loewner order.
-/

namespace FastLivo.Lib

open Matrix

variable {n m : Type*}

/-- `0.5 * (A + A.transpose())`. -/
noncomputable def symmetrize (A : Matrix n n ℝ) : Matrix n n ℝ := (0.5 : ℝ) • (A + Aᵀ)

theorem isSymm_of_posSemidef {A : Matrix n n ℝ} (h : A.PosSemidef) : Aᵀ = A := by
  rw [← conjTranspose_eq_transpose_of_trivial]
  exact h.isHermitian

theorem symmetrize_of_posSemidef {A : Matrix n n ℝ} (h : A.PosSemidef) : symmetrize A = A := by
  rw [symmetrize, isSymm_of_posSemidef h, ← two_smul ℝ A, smul_smul]
  norm_num

variable [Fintype n] [Fintype m]

/-- Prediction. -/
theorem posSemidef_predict {P : Matrix n n ℝ} {Q : Matrix m m ℝ} (hP : P.PosSemidef)
    (hQ : Q.PosSemidef) (F : Matrix m n ℝ) : (F * P * Fᵀ + Q).PosSemidef := by
  have hFP := hP.mul_mul_conjTranspose_same F
  rw [conjTranspose_eq_transpose_of_trivial] at hFP
  exact hFP.add hQ

/-- Covariance of the innovation. -/
def innovationCov (P : Matrix n n ℝ) (H : Matrix m n ℝ) (R : Matrix m m ℝ) : Matrix m m ℝ :=
  H * P * Hᵀ + R

theorem innovationCov_posDef {P : Matrix n n ℝ} {R : Matrix m m ℝ} (hP : P.PosSemidef)
    (hR : R.PosDef) (H : Matrix m n ℝ) : (innovationCov P H R).PosDef := by
  have hHP := hP.mul_mul_conjTranspose_same H
  rw [conjTranspose_eq_transpose_of_trivial] at hHP
  exact hR.posSemidef_add hHP

variable [DecidableEq n]

/-- The update in Joseph form. -/
def joseph (P : Matrix n n ℝ) (H : Matrix m n ℝ) (R : Matrix m m ℝ) (K : Matrix n m ℝ) :
    Matrix n n ℝ :=
  (1 - K * H) * P * (1 - K * H)ᵀ + K * R * Kᵀ

theorem joseph_posSemidef {P : Matrix n n ℝ} {R : Matrix m m ℝ} (hP : P.PosSemidef)
    (hR : R.PosSemidef) (H : Matrix m n ℝ) (K : Matrix n m ℝ) : (joseph P H R K).PosSemidef := by
  have hKR := hR.mul_mul_conjTranspose_same K
  rw [conjTranspose_eq_transpose_of_trivial] at hKR
  exact posSemidef_predict hP hKR (1 - K * H)

/-- The Joseph form multiplied out. -/
theorem joseph_eq (P : Matrix n n ℝ) (H : Matrix m n ℝ) (R : Matrix m m ℝ) (K : Matrix n m ℝ) :
    joseph P H R K =
      P - K * (H * P) - P * Hᵀ * Kᵀ + K * innovationCov P H R * Kᵀ := by
  simp only [joseph, innovationCov, transpose_sub, transpose_one, transpose_mul, Matrix.sub_mul,
    Matrix.mul_sub, Matrix.one_mul, Matrix.mul_one, Matrix.mul_add, Matrix.add_mul,
    Matrix.mul_assoc]
  abel

/-- With the gain of the innovation covariance the update takes away a positive
semidefinite matrix. -/
theorem sub_joseph_posSemidef {P : Matrix n n ℝ} {R : Matrix m m ℝ} (hP : P.PosSemidef)
    (hR : R.PosDef) {H : Matrix m n ℝ} {K : Matrix n m ℝ}
    (hgain : K * innovationCov P H R = P * Hᵀ) : (P - joseph P H R K).PosSemidef := by
  have hS := innovationCov_posDef hP hR H
  have hSt : (innovationCov P H R)ᵀ = innovationCov P H R := isSymm_of_posSemidef hS.posSemidef
  have hHP : H * P = innovationCov P H R * Kᵀ := by
    have ht := congrArg transpose hgain
    rw [transpose_mul, transpose_mul, transpose_transpose, hSt, isSymm_of_posSemidef hP] at ht
    exact ht.symm
  have hdiff : P - joseph P H R K = K * innovationCov P H R * Kᵀ := by
    rw [joseph_eq, hHP, ← hgain, ← Matrix.mul_assoc]
    abel
  rw [hdiff]
  have hK := hS.posSemidef.mul_mul_conjTranspose_same K
  rwa [conjTranspose_eq_transpose_of_trivial] at hK

end FastLivo.Lib
