import Mathlib.Analysis.Asymptotics.Lemmas
import Mathlib.Analysis.Calculus.Deriv.Add
import Mathlib.Analysis.Calculus.Deriv.Mul
import Mathlib.Analysis.RCLike.Basic
import Mathlib.Data.Matrix.Mul

/-!
# Orders of the entries of a matrix

Matrices that depend on a small time, compared entry by entry up to a power of it.
-/

namespace FastLivo.Lib

open Matrix Asymptotics Filter Topology

variable {k m n : Type*}

/-- The entries are of the order `t ^ d` at time zero. -/
def EntriesO (A : ℝ → Matrix m n ℝ) (d : ℕ) : Prop :=
  ∀ i j, (fun t => A t i j) =O[𝓝 0] fun t => t ^ d

variable {A B : ℝ → Matrix m n ℝ} {d e : ℕ}

theorem EntriesO.add (hA : EntriesO A d) (hB : EntriesO B d) : EntriesO (fun t => A t + B t) d :=
  fun i j => (hA i j).add (hB i j)

theorem EntriesO.sub (hA : EntriesO A d) (hB : EntriesO B d) : EntriesO (fun t => A t - B t) d :=
  fun i j => (hA i j).sub (hB i j)

theorem EntriesO.transpose (hA : EntriesO A d) : EntriesO (fun t => (A t)ᵀ) d := fun i j => hA j i

/-- A lower order is weaker. -/
theorem EntriesO.mono (hde : e ≤ d) (hA : EntriesO A d) : EntriesO A e := by
  intro i j
  refine (hA i j).trans ?_
  obtain ⟨c, rfl⟩ := Nat.exists_eq_add_of_le hde
  have hbounded : (fun t : ℝ => t ^ c) =O[𝓝 0] fun _ => (1 : ℝ) :=
    (continuous_pow c).continuousAt.isBigO_one ℝ
  have hproduct := (isBigO_refl (fun t : ℝ => t ^ e) (𝓝 0)).mul hbounded
  simpa only [pow_add, mul_one] using hproduct

theorem EntriesO.const (M : Matrix m n ℝ) : EntriesO (fun _ => M) 0 := by
  intro i j
  simp only [pow_zero]
  exact isBigO_const_const _ one_ne_zero _

theorem EntriesO.zero : EntriesO (fun _ => (0 : Matrix m n ℝ)) d := fun _ _ => isBigO_zero _ _

/-- A factor of the time raises the order. -/
theorem EntriesO.smul (hA : EntriesO A d) : EntriesO (fun t => t • A t) (d + 1) := by
  intro i j
  have h := (isBigO_refl (fun t : ℝ => t) (𝓝 0)).mul (hA i j)
  simpa only [Matrix.smul_apply, smul_eq_mul, pow_succ'] using h

theorem EntriesO.mul [Fintype m] {L : ℝ → Matrix k m ℝ} (hL : EntriesO L d) (hA : EntriesO A e) :
    EntriesO (fun t => L t * A t) (d + e) := by
  intro i j
  simp only [mul_apply, pow_add]
  exact IsBigO.fun_sum fun l _ => (hL i l).mul (hA l j)

theorem EntriesO.const_mul [Fintype m] (M : Matrix k m ℝ) (hA : EntriesO A d) :
    EntriesO (fun t => M * A t) d := by
  have h := (EntriesO.const M).mul hA
  rwa [zero_add] at h

theorem EntriesO.mul_const [Fintype n] (hA : EntriesO A d) (M : Matrix n k ℝ) :
    EntriesO (fun t => A t * M) d :=
  hA.mul (EntriesO.const M)

/-- What is of a positive order vanishes at time zero. -/
theorem EntriesO.apply_zero (hA : EntriesO A (d + 1)) : A 0 = 0 := by
  ext i j
  obtain ⟨c, hc⟩ := (hA i j).bound
  have hzero := hc.self_of_nhds
  rw [pow_succ, mul_zero, norm_zero, mul_zero] at hzero
  exact norm_le_zero_iff.mp hzero

/-- The entries have the derivatives `A'` at time zero. -/
def EntriesDeriv (A : ℝ → Matrix m n ℝ) (A' : Matrix m n ℝ) : Prop :=
  ∀ i j, HasDerivAt (fun t => A t i j) (A' i j) 0

variable {A' B' : Matrix m n ℝ}

theorem EntriesDeriv.add (hA : EntriesDeriv A A') (hB : EntriesDeriv B B') :
    EntriesDeriv (fun t => A t + B t) (A' + B') :=
  fun i j => HasDerivAt.add (hA i j) (hB i j)

theorem EntriesDeriv.sub (hA : EntriesDeriv A A') (hB : EntriesDeriv B B') :
    EntriesDeriv (fun t => A t - B t) (A' - B') :=
  fun i j => HasDerivAt.sub (hA i j) (hB i j)

theorem EntriesDeriv.const (M : Matrix m n ℝ) : EntriesDeriv (fun _ => M) 0 :=
  fun i j => hasDerivAt_const _ (M i j)

theorem EntriesDeriv.smul (M : Matrix m n ℝ) : EntriesDeriv (fun t => t • M) M := by
  intro i j
  have h := HasDerivAt.mul_const (hasDerivAt_id (0 : ℝ)) (M i j)
  rwa [one_mul] at h

theorem EntriesDeriv.mul_const [Fintype n] (hA : EntriesDeriv A A') (M : Matrix n k ℝ) :
    EntriesDeriv (fun t => A t * M) (A' * M) :=
  fun i j => HasDerivAt.fun_sum fun l _ => (hA i l).mul_const (M l j)

/-- Entries that agree to the second order have the same derivatives at time zero. -/
theorem EntriesO.entriesDeriv (h : EntriesO (fun t => A t - B t) 2) (hA : EntriesDeriv A A') :
    EntriesDeriv B A' := by
  intro i j
  have hzero : HasDerivAt (fun t => A t i j - B t i j) 0 0 := by
    have hsame := h.apply_zero
    have hentry : A 0 i j - B 0 i j = 0 := congrFun (congrFun hsame i) j
    rw [hasDerivAt_iff_isLittleO_nhds_zero]
    simp only [zero_add, hentry, sub_zero, smul_zero]
    exact (h i j).trans_isLittleO (isLittleO_pow_id one_lt_two)
  have hsub := HasDerivAt.sub (hA i j) hzero
  rw [sub_zero] at hsub
  exact hsub.congr_of_eventuallyEq (Eventually.of_forall fun t => (sub_sub_cancel _ _).symm)

end FastLivo.Lib
