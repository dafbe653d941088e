import Mathlib.LinearAlgebra.Matrix.PosDef
import Mathlib.LinearAlgebra.Matrix.NonsingularInverse
import Mathlib.Analysis.RCLike.Basic
import Mathlib.Algebra.Order.Star.Real

/-!
# Information form of an update

A measurement with jacobian `H` and noise `R` adds `Hᵀ * R⁻¹ * H` to the inverse of a
covariance. Where `H` has few columns that are not zero, a filter works on these columns
alone; placed back among the others they give the same update.
-/

namespace FastLivo.Lib

open Matrix

variable {n k m : Type*}

section Columns

variable [Fintype k] [DecidableEq n]

/-- The columns `B` at the places `e` of a matrix that is zero elsewhere. -/
def padCols (e : k → n) (B : Matrix m k ℝ) : Matrix m n ℝ :=
  B * (1 : Matrix n n ℝ).submatrix e id

/-- The block `A` at the places `e` of a matrix that is zero elsewhere. -/
def pad (e : k → n) (A : Matrix k k ℝ) : Matrix n n ℝ :=
  ((1 : Matrix n n ℝ).submatrix e id)ᵀ * A * (1 : Matrix n n ℝ).submatrix e id

theorem padCols_apply {e : k → n} (he : e.Injective) (B : Matrix m k ℝ) (i : m) (c : k) :
    padCols e B i (e c) = B i c := by
  classical
  simp [padCols, mul_apply, one_apply, he.eq_iff]

theorem pad_apply {e : k → n} (he : e.Injective) (A : Matrix k k ℝ) (i j : k) :
    pad e A (e i) (e j) = A i j := by
  classical
  simp [pad, mul_apply, one_apply, he.eq_iff]

theorem pad_of_notMem_left {e : k → n} (A : Matrix k k ℝ) {i : n} (hi : ∀ c, e c ≠ i) (j : n) :
    pad e A i j = 0 := by
  simp [pad, mul_apply, one_apply, fun c => (hi c).symm]

theorem pad_of_notMem_right {e : k → n} (A : Matrix k k ℝ) {i j : n} (hj : ∀ c, e c ≠ j) :
    pad e A i j = 0 := by
  simp [pad, mul_apply, one_apply, hj]

theorem pad_posSemidef [Fintype n] (e : k → n) {A : Matrix k k ℝ} (hA : A.PosSemidef) :
    (pad e A).PosSemidef := by
  have h := hA.conjTranspose_mul_mul_same ((1 : Matrix n n ℝ).submatrix e id)
  rwa [conjTranspose_eq_transpose_of_trivial] at h

/-- A normal matrix on the columns is the block of the normal matrix. -/
theorem pad_normal [Fintype m] (e : k → n) (H : Matrix m k ℝ) (W : Matrix m m ℝ) :
    pad e (Hᵀ * W * H) = (padCols e H)ᵀ * W * padCols e H := by
  simp only [pad, padCols, transpose_mul, Matrix.mul_assoc]

/-- The columns of a gain times a block are the gain times the padded block. -/
theorem padCols_submatrix_mul [Fintype n] (e : k → n) (K : Matrix m n ℝ) (A : Matrix k k ℝ) :
    padCols e (K.submatrix id e * A) = K * pad e A := by
  have hcols : K.submatrix id e = K * ((1 : Matrix n n ℝ).submatrix e id)ᵀ := by
    ext i c
    simp [mul_apply, one_apply]
  simp only [padCols, pad, hcols, Matrix.mul_assoc]

theorem padCols_mulVec [Fintype n] (e : k → n) (B : Matrix m k ℝ) (v : n → ℝ) :
    padCols e B *ᵥ v = B *ᵥ (v ∘ e) := by
  have hpick : (1 : Matrix n n ℝ).submatrix e id *ᵥ v = v ∘ e := by
    ext c
    simp [mulVec, dotProduct, one_apply]
  rw [padCols, ← mulVec_mulVec, hpick]

/-- The columns of a gain applied to the components there are the gain applied to the vector. -/
theorem padCols_submatrix_mulVec [Fintype n] {e : k → n} (he : e.Injective) (B : Matrix m k ℝ)
    (v : n → ℝ) : (padCols e B).submatrix id e *ᵥ (v ∘ e) = padCols e B *ᵥ v := by
  have hcols : (padCols e B).submatrix id e = B := by
    ext i c
    exact padCols_apply he B i c
  rw [hcols, padCols_mulVec]

end Columns

variable [Fintype n] [DecidableEq n]

/-- The posterior covariance of a prior `P` and information `A`. -/
noncomputable def posterior (P A : Matrix n n ℝ) : Matrix n n ℝ := (A + P⁻¹)⁻¹

section Posterior

variable {P A : Matrix n n ℝ}

theorem information_posDef (hP : P.PosDef) (hA : A.PosSemidef) : (A + P⁻¹).PosDef :=
  hP.inv.posSemidef_add hA

theorem posterior_posDef (hP : P.PosDef) (hA : A.PosSemidef) : (posterior P A).PosDef :=
  (information_posDef hP hA).inv

theorem posDef_isUnit_det {M : Matrix n n ℝ} (h : M.PosDef) : IsUnit M.det :=
  (isUnit_iff_isUnit_det M).mp h.isUnit

/-- What the gain of the information form leaves of the prior. -/
theorem sub_gain_mul (hP : P.PosDef) (hA : A.PosSemidef) :
    (1 - posterior P A * A) * P = posterior P A := by
  have hM := posDef_isUnit_det (information_posDef hP hA)
  have hone : (1 : Matrix n n ℝ) - posterior P A * A = posterior P A * P⁻¹ := by
    rw [sub_eq_iff_eq_add, ← Matrix.mul_add, add_comm]
    exact (nonsing_inv_mul _ hM).symm
  rw [hone, Matrix.mul_assoc, nonsing_inv_mul _ (posDef_isUnit_det hP), Matrix.mul_one]

/-- The same with the prior and the noise divided by the variance of the measurement. -/
theorem sub_gain_mul_scaled (hP : P.PosDef) (hA : A.PosSemidef) {v : ℝ} (hv : 0 < v) :
    P - posterior (v⁻¹ • P) A * A * P = posterior P (v⁻¹ • A) := by
  have hvP : (v⁻¹ • P).PosDef := hP.smul (inv_pos.mpr hv)
  have hgain := congrArg (v • ·) (sub_gain_mul hvP hA)
  have hscaled : v • posterior (v⁻¹ • P) A = posterior P (v⁻¹ • A) := by
    have hsum : v⁻¹ • A + P⁻¹ = v⁻¹ • (A + (v⁻¹ • P)⁻¹) := by
      have hinv : (v⁻¹ • P)⁻¹ = v • P⁻¹ := by
        apply inv_eq_left_inv
        rw [smul_mul_smul_comm, nonsing_inv_mul _ (posDef_isUnit_det hP),
          mul_inv_cancel₀ hv.ne', one_smul]
      rw [hinv, smul_add, smul_smul, inv_mul_cancel₀ hv.ne', one_smul]
    symm
    apply inv_eq_left_inv
    rw [hsum, smul_mul_smul_comm, mul_inv_cancel₀ hv.ne', one_smul]
    exact nonsing_inv_mul _ (posDef_isUnit_det (information_posDef hvP hA))
  simp only [mul_smul_comm, smul_smul, mul_inv_cancel₀ hv.ne', one_smul] at hgain
  rw [← hscaled, ← hgain, Matrix.sub_mul, Matrix.one_mul]

end Posterior

omit [DecidableEq n] in
/-- Elimination by blocks: where every block reaches only blocks of higher rank beside
itself, and no block loses anything of its own, nothing is lost. -/
theorem vecMul_injective_of_rank {β : Type*} {F : Matrix n n ℝ} (key : n → β) (rank : β → ℕ)
    (hzero : ∀ i j, key i ≠ key j → rank (key j) ≤ rank (key i) → F i j = 0)
    (hdiag : ∀ b (z : n → ℝ), (∀ i, key i ≠ b → z i = 0) →
      (∀ j, key j = b → (z ᵥ* F) j = 0) → z = 0) :
    Function.Injective F.vecMul := by
  classical
  refine (injective_iff_map_eq_zero F.vecMulLinear).mpr fun z hz => ?_
  suffices h : ∀ r i, rank (key i) = r → z i = 0 from funext fun i => h _ i rfl
  intro r
  induction r using Nat.strong_induction_on with
  | _ r ih =>
    intro i hi
    -- The block of `i` alone already vanishes: the other rows do not reach its columns.
    have hblock : (fun k => if key k = key i then z k else 0) = 0 := by
      refine hdiag (key i) _ (fun k hk => if_neg hk) fun j hj => ?_
      have hzj : (z ᵥ* F) j = 0 := congrFun hz j
      refine Eq.trans ?_ hzj
      refine Finset.sum_congr rfl fun k _ => ?_
      by_cases hk : key k = key i
      · simp only [if_pos hk]
      · simp only [if_neg hk, zero_mul]
        by_cases hlt : rank (key k) < r
        · rw [ih _ hlt k rfl, zero_mul]
        · rw [hzero k j (by rwa [hj]) (by rw [hj, hi]; exact not_lt.mp hlt), mul_zero]
    simpa using congrFun hblock i

omit [DecidableEq n] in
/-- A prediction through an invertible matrix. -/
theorem posDef_predict {P Q F : Matrix n n ℝ} (hP : P.PosDef) (hQ : Q.PosSemidef)
    (hF : Function.Injective F.vecMul) : (F * P * Fᵀ + Q).PosDef := by
  have hFP := hP.mul_mul_conjTranspose_same hF
  rw [conjTranspose_eq_transpose_of_trivial] at hFP
  exact hFP.add_posSemidef hQ

omit [DecidableEq n] in
/-- Information of a measurement. -/
theorem information_posSemidef [Fintype m] [DecidableEq m] (H : Matrix m n ℝ) {w : m → ℝ}
    (hw : ∀ i, 0 ≤ w i) : (Hᵀ * diagonal w * H).PosSemidef := by
  have h := (PosSemidef.diagonal (n := m) (R := ℝ) (d := w) hw).conjTranspose_mul_mul_same H
  rwa [conjTranspose_eq_transpose_of_trivial] at h

end FastLivo.Lib
