import Mathlib.Data.Int.Order.Basic

/-!
# 64-bit integers

A number is wrapped where a program converts it, or computes with it, in 64 bits. A signed
sum that does not fit is undefined; `signedSum` has no value then.
-/

namespace FastLivo.Lib

/-- The signed 64-bit integer that a value becomes. -/
def int64 (x : ℤ) : ℤ := (x + 9223372036854775808) % 18446744073709551616 - 9223372036854775808

/-- The unsigned 64-bit integer that a value becomes. -/
def uint64 (x : ℤ) : ℤ := x % 18446744073709551616

theorem int64_eq {x : ℤ} (hlow : -9223372036854775808 ≤ x) (hhigh : x < 9223372036854775808) :
    int64 x = x := by
  unfold int64
  omega

theorem int64_bounds (x : ℤ) : -9223372036854775808 ≤ int64 x ∧ int64 x < 9223372036854775808 := by
  unfold int64
  omega

theorem uint64_eq {x : ℤ} (hlow : 0 ≤ x) (hhigh : x < 18446744073709551616) : uint64 x = x := by
  unfold uint64
  omega

theorem uint64_bounds (x : ℤ) : 0 ≤ uint64 x ∧ uint64 x < 18446744073709551616 := by
  unfold uint64
  omega

/-- A difference that wrapped is made good by the sum. -/
theorem int64_add_sub (x : ℤ) {y : ℤ} (hlow : -9223372036854775808 ≤ y)
    (hhigh : y < 9223372036854775808) : int64 (int64 x + int64 (y - int64 x)) = y := by
  unfold int64
  omega

theorem uint64_succ (x : ℤ) : uint64 (uint64 x + 1) = uint64 (x + 1) := by
  unfold uint64
  omega

attribute [irreducible] int64 uint64

/-- A signed 64-bit integer. -/
def FitsInt64 (x : ℤ) : Prop := -9223372036854775808 ≤ x ∧ x < 9223372036854775808

instance (x : ℤ) : Decidable (FitsInt64 x) := inferInstanceAs (Decidable (_ ∧ _))

/-- A signed sum, unless it overflows. -/
def signedSum (x y : ℤ) : Option ℤ := if FitsInt64 (x + y) then some (x + y) else none

theorem signedSum_eq_some {x y z : ℤ} (h : signedSum x y = some z) : z = x + y := by
  unfold signedSum at h
  split at h
  · exact (Option.some.inj h).symm
  · cases h

end FastLivo.Lib
