import Mathlib.Order.WithBot

/-!
# Special values

A value of a floating-point format is a number, an infinity or not a number. What is not a number
is unordered: every comparison with it is false.
-/

namespace FastLivo.Lib

inductive Special (K : Type)
  | value (x : WithBot (WithTop K))
  | nan

namespace Special

variable {K : Type}

/-- A number as a value of the format. -/
def number (x : K) : Special K := .value (WithBot.some (WithTop.some x))

theorem number_ne_nan (x : K) : number x ≠ nan := nofun

variable [LinearOrder K]

instance : LT (Special K) where
  lt
    | .value x, .value y => x < y
    | _, _ => False

instance : LE (Special K) where
  le
    | .value x, .value y => x ≤ y
    | _, _ => False

instance : DecidableLT (Special K)
  | .value x, .value y => inferInstanceAs (Decidable (x < y))
  | .value _, .nan | .nan, _ => inferInstanceAs (Decidable False)

instance : DecidableLE (Special K)
  | .value x, .value y => inferInstanceAs (Decidable (x ≤ y))
  | .value _, .nan | .nan, _ => inferInstanceAs (Decidable False)

theorem number_le {x y : K} : number x ≤ number y ↔ x ≤ y :=
  WithBot.coe_le_coe.trans WithTop.coe_le_coe

theorem ne_nan_of_lt {a b : Special K} (h : a < b) : a ≠ nan ∧ b ≠ nan := by
  cases a with
  | nan => exact absurd h not_false
  | value x =>
    cases b with
    | nan => exact absurd h not_false
    | value y => exact ⟨nofun, nofun⟩

theorem not_lt_of_le {a b : Special K} (h : b ≤ a) : ¬a < b := by
  cases a with
  | nan => exact not_false
  | value x =>
    cases b with
    | nan => exact not_false
    | value y => exact not_lt.mpr (show y ≤ x from h)

/-- One comparison decides the other when neither value is unordered. -/
theorem lt_of_not_le {a b : Special K} (ha : a ≠ nan) (hb : b ≠ nan) (h : ¬b ≤ a) : a < b := by
  cases a with
  | nan => exact absurd rfl ha
  | value x =>
    cases b with
    | nan => exact absurd rfl hb
    | value y => exact not_le.mp (show ¬y ≤ x from h)

end Special

end FastLivo.Lib
