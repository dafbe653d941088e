import FastLivo.Lib.Information

/-!
# Least squares with a prior

The step of an update in information form solves the normal equations of a linearised residual
and a prior, so that no other step has a smaller cost.
-/

namespace FastLivo.Lib

open Matrix

variable {n m : Type*} [Fintype n] [Fintype m]

theorem posSemidef_isSymm {k : Type*} [Fintype k] {M : Matrix k k ℝ} (h : M.PosSemidef) : M.IsSymm := by
  have hherm := h.isHermitian
  rwa [IsHermitian, conjTranspose_eq_transpose_of_trivial] at hherm

theorem quadratic_nonneg {k : Type*} [Fintype k] {M : Matrix k k ℝ} (h : M.PosSemidef)
    (x : k → ℝ) : 0 ≤ x ⬝ᵥ (M *ᵥ x) := by
  simpa using h.dotProduct_mulVec_nonneg x

/-- The information of the residuals. -/
theorem information_congr {W : Matrix m m ℝ} (H : Matrix m n ℝ) (hW : W.PosSemidef) : (Hᵀ * W * H).PosSemidef := by
  have h := hW.conjTranspose_mul_mul_same H
  rwa [conjTranspose_eq_transpose_of_trivial] at h

/-- A quadratic form about another point. -/
theorem quadratic_add {k : Type*} [Fintype k] {M : Matrix k k ℝ} (hM : M.IsSymm) (x d : k → ℝ) :
    (x + d) ⬝ᵥ (M *ᵥ (x + d)) =
      x ⬝ᵥ (M *ᵥ x) + 2 * (d ⬝ᵥ (M *ᵥ x)) + d ⬝ᵥ (M *ᵥ d) := by
  have hswap : x ⬝ᵥ (M *ᵥ d) = d ⬝ᵥ (M *ᵥ x) := by
    rw [dotProduct_mulVec, ← mulVec_transpose, hM.eq, dotProduct_comm]
  rw [mulVec_add, dotProduct_add, add_dotProduct, add_dotProduct, hswap]
  ring

variable [DecidableEq n]

/-- The step that an update computes from the information `A`, the measured part `b` and the
distance `v` to the prior. -/
noncomputable def mapStep (P A : Matrix n n ℝ) (b v : n → ℝ) : n → ℝ :=
  posterior P A *ᵥ b + v - (posterior P A * A) *ᵥ v

section Step

variable {P A : Matrix n n ℝ}

/-- The step solves the normal equations. -/
theorem mapStep_normal (hP : P.PosDef) (hA : A.PosSemidef) (b v : n → ℝ) :
    (A + P⁻¹) *ᵥ mapStep P A b v = b + P⁻¹ *ᵥ v := by
  have hM := posDef_isUnit_det (information_posDef hP hA)
  have hone : (A + P⁻¹) * posterior P A = 1 := mul_nonsing_inv _ hM
  have hb : (A + P⁻¹) *ᵥ (posterior P A *ᵥ b) = b := by
    rw [mulVec_mulVec, hone, one_mulVec]
  have hv : (A + P⁻¹) *ᵥ ((posterior P A * A) *ᵥ v) = A *ᵥ v := by
    rw [mulVec_mulVec, ← Matrix.mul_assoc, hone, Matrix.one_mul]
  unfold mapStep
  rw [mulVec_sub, mulVec_add, hb, hv, add_mulVec]
  abel

/-- Residuals `H x - y` weighed by `W`, and the distance from `v` weighed by the prior. -/
noncomputable def mapCost (P : Matrix n n ℝ) (W : Matrix m m ℝ) (H : Matrix m n ℝ) (y : m → ℝ)
    (v x : n → ℝ) : ℝ :=
  (H *ᵥ x - y) ⬝ᵥ (W *ᵥ (H *ᵥ x - y)) + (x - v) ⬝ᵥ (P⁻¹ *ᵥ (x - v))

variable {W : Matrix m m ℝ} (H : Matrix m n ℝ) (y : m → ℝ) (v : n → ℝ)

/-- The cost about the step: nothing is linear in the distance from it. -/
theorem mapCost_add (hP : P.PosDef) (hW : W.PosSemidef) (d : n → ℝ) :
    mapCost P W H y v (mapStep P (Hᵀ * W * H) (Hᵀ *ᵥ (W *ᵥ y)) v + d) =
      mapCost P W H y v (mapStep P (Hᵀ * W * H) (Hᵀ *ᵥ (W *ᵥ y)) v) +
        ((H *ᵥ d) ⬝ᵥ (W *ᵥ (H *ᵥ d)) + d ⬝ᵥ (P⁻¹ *ᵥ d)) := by
  have hnormal := mapStep_normal hP (information_congr H hW) (Hᵀ *ᵥ (W *ᵥ y)) v
  generalize mapStep P (Hᵀ * W * H) (Hᵀ *ᵥ (W *ᵥ y)) v = s at hnormal ⊢
  have hresidual : H *ᵥ (s + d) - y = (H *ᵥ s - y) + H *ᵥ d := by
    rw [mulVec_add]
    abel
  have hprior : s + d - v = (s - v) + d := by abel
  have hlinear : (H *ᵥ d) ⬝ᵥ (W *ᵥ (H *ᵥ s - y)) + d ⬝ᵥ (P⁻¹ *ᵥ (s - v)) = 0 := by
    have hpull : (H *ᵥ d) ⬝ᵥ (W *ᵥ (H *ᵥ s - y)) = d ⬝ᵥ (Hᵀ *ᵥ (W *ᵥ (H *ᵥ s - y))) := by
      rw [dotProduct_mulVec d, vecMul_transpose]
    have hzero : Hᵀ *ᵥ (W *ᵥ (H *ᵥ s - y)) + P⁻¹ *ᵥ (s - v) = 0 := by
      have hexpand : Hᵀ *ᵥ (W *ᵥ (H *ᵥ s - y)) + P⁻¹ *ᵥ (s - v) =
          (Hᵀ * W * H + P⁻¹) *ᵥ s - (Hᵀ *ᵥ (W *ᵥ y) + P⁻¹ *ᵥ v) := by
        rw [mulVec_sub, mulVec_sub, mulVec_sub, add_mulVec, mulVec_mulVec, mulVec_mulVec]
        abel
      rw [hexpand, hnormal, sub_self]
    rw [hpull, ← dotProduct_add, hzero, dotProduct_zero]
  unfold mapCost
  rw [hresidual, hprior, quadratic_add (posSemidef_isSymm hW),
    quadratic_add (posSemidef_isSymm hP.inv.posSemidef)]
  linarith

/-- No step has a smaller cost. -/
theorem mapCost_mapStep_le (hP : P.PosDef) (hW : W.PosSemidef) (x : n → ℝ) :
    mapCost P W H y v (mapStep P (Hᵀ * W * H) (Hᵀ *ᵥ (W *ᵥ y)) v) ≤ mapCost P W H y v x := by
  have hadd := mapCost_add H y v hP hW (x - mapStep P (Hᵀ * W * H) (Hᵀ *ᵥ (W *ᵥ y)) v)
  rw [add_sub_cancel] at hadd
  rw [hadd, le_add_iff_nonneg_right]
  exact add_nonneg (quadratic_nonneg hW _) (quadratic_nonneg hP.inv.posSemidef _)

/-- Without a gradient there is no step at the prior, and only then. -/
theorem mapStep_eq_zero_iff (hP : P.PosDef) (hA : A.PosSemidef) (b : n → ℝ) :
    mapStep P A b 0 = 0 ↔ b = 0 := by
  have hnormal := mapStep_normal hP hA b 0
  rw [mulVec_zero, add_zero] at hnormal
  constructor
  · intro hstep
    rw [← hnormal, hstep, mulVec_zero]
  · intro hb
    unfold mapStep
    rw [hb, mulVec_zero, mulVec_zero, add_zero, sub_zero]

/-- At the prior the step decreases the residuals where they have a gradient. -/
theorem residual_mapStep_lt (hP : P.PosDef) (hW : W.PosSemidef) (hgradient : Hᵀ *ᵥ (W *ᵥ y) ≠ 0) :
    (H *ᵥ mapStep P (Hᵀ * W * H) (Hᵀ *ᵥ (W *ᵥ y)) 0 - y) ⬝ᵥ
        (W *ᵥ (H *ᵥ mapStep P (Hᵀ * W * H) (Hᵀ *ᵥ (W *ᵥ y)) 0 - y)) < y ⬝ᵥ (W *ᵥ y) := by
  have hle := mapCost_mapStep_le H y 0 hP hW 0
  have hstep : mapStep P (Hᵀ * W * H) (Hᵀ *ᵥ (W *ᵥ y)) 0 ≠ 0 :=
    mt (mapStep_eq_zero_iff hP (information_congr H hW) _).mp hgradient
  generalize mapStep P (Hᵀ * W * H) (Hᵀ *ᵥ (W *ᵥ y)) 0 = s at hle hstep ⊢
  have hprior : 0 < s ⬝ᵥ (P⁻¹ *ᵥ s) := by
    simpa using hP.inv.dotProduct_mulVec_pos hstep
  unfold mapCost at hle
  rw [mulVec_zero, zero_sub, mulVec_neg, neg_dotProduct_neg, sub_self, zero_dotProduct, add_zero,
    sub_zero] at hle
  linarith

end Step

end FastLivo.Lib
