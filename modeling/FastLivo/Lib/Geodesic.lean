import Mathlib.Algebra.Module.Basic
import Mathlib.Data.Real.Basic
import Mathlib.Tactic.Abel
import Mathlib.Tactic.Linarith
import Mathlib.Tactic.Ring

/-!
# Interpolation along one-parameter subgroups

An exponential and a logarithm of a group. From an element on a one-parameter subgroup the rest of
the way to its end lies on the same subgroup, so that going a fraction of the way shortens the
logarithm of what is left by that fraction.
-/

namespace FastLivo.Lib

/-- An exponential map and a logarithm. -/
structure ExpLog (G V : Type*) where
  exp : V → G
  log : G → V

namespace ExpLog

variable {G V : Type*} [Group G] [AddCommGroup V] [Module ℝ V] (M : ExpLog G V)

/-- The multiples of the logarithm of `g` form a one-parameter subgroup through `g`, and up to `g`
the logarithm gives them back. -/
structure OneParameter (g : G) : Prop where
  exp_log : M.exp (M.log g) = g
  exp_add : ∀ s t : ℝ, M.exp ((s + t) • M.log g) = M.exp (s • M.log g) * M.exp (t • M.log g)
  log_exp : ∀ t : ℝ, 0 ≤ t → t ≤ 1 → M.log (M.exp (t • M.log g)) = t • M.log g

/-- The given fraction of the way from `x` to `y`. -/
def toward (α : ℝ) (x y : G) : G := x * M.exp (α • M.log (x⁻¹ * y))

variable {M}

section OneParameter

variable {g : G} (h : M.OneParameter g)
include h

theorem OneParameter.exp_zero : M.exp (0 : V) = 1 := by
  have hzero := h.exp_add 0 0
  rw [zero_smul, add_zero, zero_smul] at hzero
  exact left_eq_mul.mp hzero

theorem OneParameter.exp_neg (t : ℝ) : M.exp ((-t) • M.log g) = (M.exp (t • M.log g))⁻¹ := by
  have hsum := h.exp_add (-t) t
  rw [neg_add_cancel, zero_smul, h.exp_zero] at hsum
  exact eq_inv_of_mul_eq_one_left hsum.symm

/-- What is left of the way to `g` after a part of it. -/
theorem OneParameter.exp_rest (t : ℝ) :
    (M.exp (t • M.log g))⁻¹ * g = M.exp ((1 - t) • M.log g) := by
  calc (M.exp (t • M.log g))⁻¹ * g
      = M.exp ((-t) • M.log g) * M.exp ((1 : ℝ) • M.log g) := by
        rw [h.exp_neg, one_smul, h.exp_log]
    _ = M.exp ((1 - t) • M.log g) := by
        rw [← h.exp_add, neg_add_eq_sub]

/-- A part of the way lies on the same subgroup. -/
theorem OneParameter.part {t : ℝ} (h0 : 0 ≤ t) (h1 : t ≤ 1) :
    M.OneParameter (M.exp (t • M.log g)) where
  exp_log := by rw [h.log_exp t h0 h1]
  exp_add a b := by
    rw [h.log_exp t h0 h1, smul_smul, smul_smul, smul_smul, add_mul, h.exp_add]
  log_exp a ha0 ha1 := by
    rw [h.log_exp t h0 h1, smul_smul,
      h.log_exp _ (mul_nonneg ha0 h0) (mul_le_one₀ ha1 h0 h1)]

end OneParameter

section Toward

variable {x y : G} (h : M.OneParameter (x⁻¹ * y)) {α : ℝ}
include h

/-- What is left after a step. -/
theorem toward_rest (α : ℝ) :
    (M.toward α x y)⁻¹ * y = M.exp ((1 - α) • M.log (x⁻¹ * y)) := by
  rw [toward, mul_inv_rev, mul_assoc, h.exp_rest]

/-- A step shortens the logarithm of what is left. -/
theorem log_toward (h0 : 0 ≤ α) (h1 : α ≤ 1) :
    M.log ((M.toward α x y)⁻¹ * y) = (1 - α) • M.log (x⁻¹ * y) := by
  rw [toward_rest h, h.log_exp _ (sub_nonneg.mpr h1) (sub_le_self 1 h0)]

/-- And it stays on the subgroup. -/
theorem oneParameter_toward (h0 : 0 ≤ α) (h1 : α ≤ 1) :
    M.OneParameter ((M.toward α x y)⁻¹ * y) := by
  rw [toward_rest h]
  exact h.part (sub_nonneg.mpr h1) (sub_le_self 1 h0)

end Toward

/-- Where nothing is left a step stays. -/
theorem toward_self {x : G} (h : M.OneParameter (1 : G)) (α : ℝ) : M.toward α x x = x := by
  have hlog : M.log (1 : G) = 0 := by
    have hzero := h.log_exp 0 le_rfl zero_le_one
    rwa [zero_smul, h.exp_zero] at hzero
  rw [toward, inv_mul_cancel, hlog, smul_zero, h.exp_zero, mul_one]

end ExpLog

end FastLivo.Lib
