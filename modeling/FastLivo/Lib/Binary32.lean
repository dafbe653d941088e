import FastLivo.Lib.Binary
import Mathlib.Algebra.Order.Ring.Rat
import Mathlib.Tactic.NormNum

/-!
# The numbers of a format

The finite numbers of the format `float`, with operations that round what the exact operation gives.
-/

namespace FastLivo.Lib

/-- A finite `float`. -/
@[ext] structure Binary32 where
  val : ℚ
  rounded : binary32 val = val
  deriving DecidableEq

namespace Binary32

/-- The nearest one. -/
def ofRat (x : ℚ) : Binary32 := ⟨binary32 x, binary32_idem x⟩

@[simp] theorem val_ofRat (x : ℚ) : (ofRat x).val = binary32 x := rfl

instance : LinearOrder Binary32 := .lift' val fun _ _ h => Binary32.ext h

instance : Zero Binary32 := ⟨ofRat 0⟩
instance : Add Binary32 := ⟨fun a b => ofRat (a.val + b.val)⟩
instance : Sub Binary32 := ⟨fun a b => ofRat (a.val - b.val)⟩
instance : Mul Binary32 := ⟨fun a b => ofRat (a.val * b.val)⟩
instance : Div Binary32 := ⟨fun a b => ofRat (a.val / b.val)⟩
instance : Neg Binary32 := ⟨fun a => ofRat (-a.val)⟩
instance : NatCast Binary32 := ⟨fun n => ofRat n⟩
instance : OfScientific Binary32 := ⟨fun m s e => ofRat (OfScientific.ofScientific m s e)⟩

theorem le_def {a b : Binary32} : a ≤ b ↔ a.val ≤ b.val := Iff.rfl

theorem ofRat_mono : Monotone ofRat := fun _ _ h => binary32_mono h

/-- Rounding to a number of the format does not pass another one. -/
theorem le_ofRat {a : Binary32} {x : ℚ} (h : a.val ≤ x) : a ≤ ofRat x := by
  have hround := binary32_mono h
  rwa [a.rounded] at hround

theorem zero_val : (0 : Binary32).val = 0 := roundTo_zero 24 (-149)

theorem sub_mono {a b c d : Binary32} (hab : a ≤ b) (hcd : c ≤ d) : a - d ≤ b - c :=
  ofRat_mono (sub_le_sub hab hcd)

theorem zero_le_sub {a b : Binary32} (h : a ≤ b) : 0 ≤ b - a := by
  apply ofRat_mono
  exact sub_nonneg.mpr h

theorem add_mono_left {a b : Binary32} (h : a ≤ b) (c : Binary32) : a + c ≤ b + c :=
  ofRat_mono (by linarith [le_def.mp h])

/-- A sum is at most twice the summand away from the other one. -/
theorem add_sub_le (a : Binary32) {b : Binary32} : a + b - a ≤ ofRat (2 * |b.val|) := by
  apply ofRat_mono
  have hnearest := roundTo_nearest (show 0 < 24 by decide) (-149) (a.val + b.val) a.val
  have hself : roundTo 24 (-149) a.val = a.val := a.rounded
  rw [hself, show a.val - (a.val + b.val) = -b.val by ring, abs_neg] at hnearest
  have hsum : (a + b).val = roundTo 24 (-149) (a.val + b.val) := rfl
  have herror := (le_abs_self _).trans hnearest
  have hb := le_abs_self b.val
  rw [hsum]
  linarith

theorem mul_mono {a b c : Binary32} (h : a ≤ b) (hc : 0 ≤ c) : a * c ≤ b * c := by
  apply ofRat_mono
  rw [le_def, zero_val] at hc
  exact mul_le_mul_of_nonneg_right h hc

theorem natCast_mono {m n : ℕ} (h : m ≤ n) : (m : Binary32) ≤ n := by
  apply ofRat_mono
  exact_mod_cast h

theorem div_mono {a b c : Binary32} (h : a ≤ b) (hc : 0 ≤ c) : a / c ≤ b / c := by
  apply ofRat_mono
  rw [le_def, zero_val] at hc
  exact div_le_div_of_nonneg_right h hc

protected theorem zero_add (a : Binary32) : 0 + a = a := by
  show ofRat ((0 : Binary32).val + a.val) = a
  rw [zero_val, zero_add]
  exact Binary32.ext a.rounded

theorem natCast_val {n : ℕ} (hn : n < 2 ^ 24) : (n : Binary32).val = n := by
  have hsmall : |(n : ℤ)| < 2 ^ 24 := by
    rw [Nat.abs_cast]
    exact_mod_cast hn
  have hcast : binary32 ((n : ℤ) : ℚ) = (n : ℤ) := binary32_intCast hsmall
  exact_mod_cast hcast

protected theorem div_one (a : Binary32) : a / (1 : ℕ) = a := by
  show ofRat (a.val / ((1 : ℕ) : Binary32).val) = a
  rw [natCast_val (by norm_num), Nat.cast_one, div_one]
  exact Binary32.ext a.rounded

example : ((17000001 : ℕ) : Binary32) / 1e6 = 17.0 := by decide +kernel

end Binary32

end FastLivo.Lib
