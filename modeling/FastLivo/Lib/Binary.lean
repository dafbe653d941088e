import Mathlib.Algebra.Order.Field.Basic
import Mathlib.Algebra.Order.Floor.Ring
import Mathlib.Data.Int.Log
import Mathlib.Data.Rat.Floor
import Mathlib.Tactic.Linarith
import Mathlib.Tactic.Ring

/-!
# Rounding to binary floating point

A number is rounded to the nearest multiple of a power of two, to an even one between two,
where the power leaves the precision of the format. Overflow to infinity is not modelled.
-/

namespace FastLivo.Lib

section Rounding

variable {K : Type} [Field K] [LinearOrder K] [IsStrictOrderedRing K] [FloorRing K]

/-- The nearest integer, and the even one between two. -/
def roundEven (x : K) : ℤ :=
  if x - ⌊x⌋ < ⌊x⌋ + 1 - x then ⌊x⌋
  else if ⌊x⌋ + 1 - x < x - ⌊x⌋ then ⌊x⌋ + 1
  else if ⌊x⌋ % 2 = 0 then ⌊x⌋ else ⌊x⌋ + 1

/-- The exponent of a number: two to it is at most its absolute value. -/
def exponent (x : K) : ℤ := Int.log 2 |x|

/-- Round to a format with so many bits and this least exponent. -/
def roundTo (precision : ℕ) (least : ℤ) (x : K) : K :=
  let e := max (exponent x + 1 - precision) least
  roundEven (x / (2 : ℕ) ^ e) * (2 : ℕ) ^ e

/-- Conversion to `float`. -/
def binary32 (x : K) : K := roundTo 24 (-149) x

/-- What a `double` makes of an exact result. -/
def binary64 (x : K) : K := roundTo 53 (-1074) x

end Rounding

/-- The value of the bits of a `float`, unless they are an infinity or not a number. -/
def decode32 (bits : UInt32) : Option ℚ :=
  let sign : ℚ := if bits.toNat < 2147483648 then 1 else -1
  let biased := bits.toNat / 8388608 % 256
  let fraction := bits.toNat % 8388608
  if biased = 255 then none
  else if biased = 0 then some (sign * fraction * 2 ^ (-149 : ℤ))
  else some (sign * (8388608 + fraction : ℕ) * 2 ^ ((biased : ℤ) - 150))

/-- The integer part. -/
def truncate (x : ℚ) : ℤ := if 0 ≤ x then ⌊x⌋ else ⌈x⌉

/-- The nearest integer, away from zero between two. -/
def roundAway (x : ℚ) : ℤ := if 0 ≤ x then ⌊x + 1 / 2⌋ else ⌈x - 1 / 2⌉

/-- The middle between two numbers is not above a number that is nearer to the upper one. -/
theorem middle_le_of_nearer {K : Type} [Field K] [LinearOrder K] [IsStrictOrderedRing K]
    {a b x : K} (hlt : b < a) (hnear : |a - x| ≤ |b - x|) : a + b ≤ 2 * x := by
  by_contra hbelow
  have hsquares := sq_le_sq.mpr hnear
  have hproduct := mul_pos (sub_pos.mpr hlt) (sub_pos.mpr (not_le.mp hbelow))
  linarith

section Nearest

variable {K : Type} [Field K] [LinearOrder K] [IsStrictOrderedRing K] [FloorRing K]

omit [IsStrictOrderedRing K] in
theorem roundEven_nonneg {x : K} (h : 0 ≤ x) : 0 ≤ roundEven x := by
  have hfloor := Int.floor_nonneg.mpr h
  unfold roundEven
  split
  · exact hfloor
  · split
    · omega
    · split <;> omega

omit [IsStrictOrderedRing K] in
theorem roundTo_eq (precision : ℕ) (least : ℤ) (x : K) : roundTo precision least x =
    roundEven (x / 2 ^ max (exponent x + 1 - precision) least) *
      2 ^ max (exponent x + 1 - precision) least := by
  rw [roundTo, Nat.cast_ofNat]

/-- Rounding does not make a number negative. -/
theorem roundTo_nonneg (precision : ℕ) (least : ℤ) {x : K} (h : 0 ≤ x) :
    0 ≤ roundTo precision least x := by
  rw [roundTo_eq]
  have hpow : (0 : K) < 2 ^ max (exponent x + 1 - precision) least := zpow_pos two_pos _
  apply mul_nonneg
  · exact Int.cast_nonneg (roundEven_nonneg (div_nonneg h hpow.le))
  · exact hpow.le

/-! ## The nearest number of the format -/

theorem abs_roundEven_sub_le_half (x : K) : |roundEven x - x| ≤ 1 / 2 := by
  have hfloor := Int.floor_le x
  have hnext := Int.lt_floor_add_one x
  rw [abs_le, roundEven]
  split
  · constructor <;> linarith
  · split
    · push_cast
      constructor <;> linarith
    · split
      · constructor <;> linarith
      · push_cast
        constructor <;> linarith

/-- No integer is nearer. -/
theorem abs_roundEven_sub_le (x : K) (n : ℤ) : |roundEven x - x| ≤ |n - x| := by
  by_cases hn : roundEven x = n
  · rw [hn]
  · have hhalf := abs_roundEven_sub_le_half x
    have hapart : (1 : K) ≤ |(roundEven x : K) - n| := by
      have hint : 1 ≤ |roundEven x - n| := Int.one_le_abs (sub_ne_zero.mpr hn)
      exact_mod_cast hint
    have htriangle := abs_sub_le (roundEven x : K) x n
    rw [abs_sub_comm x] at htriangle
    linarith

/-- Rounding does not leave an interval of integers. -/
theorem abs_roundEven_le {x : K} {n : ℕ} (h : |x| ≤ n) : |(roundEven x : K)| ≤ n := by
  have hhalf := abs_le.mp (abs_roundEven_sub_le_half x)
  have hx := abs_le.mp h
  have hupper : roundEven x < n + 1 := by
    have hcast : (roundEven x : K) < ((n + 1 : ℤ) : K) := by
      push_cast
      linarith
    exact_mod_cast hcast
  have hlower : -(n : ℤ) - 1 < roundEven x := by
    have hcast : ((-(n : ℤ) - 1 : ℤ) : K) < roundEven x := by
      push_cast
      linarith
    exact_mod_cast hcast
  have hint : |roundEven x| ≤ n := abs_le.mpr ⟨by omega, by omega⟩
  exact_mod_cast hint

/-- The exponent is the one of the leading bit. -/
theorem exponent_spec {x : K} (hx : x ≠ 0) :
    (2 : K) ^ exponent x ≤ |x| ∧ |x| < 2 ^ (exponent x + 1) := by
  have hlower := Int.zpow_log_le_self one_lt_two (abs_pos.mpr hx)
  have hupper := Int.lt_zpow_succ_log_self one_lt_two |x|
  rw [Nat.cast_ofNat] at hlower hupper
  exact ⟨hlower, hupper⟩

theorem roundTo_zero (precision : ℕ) (least : ℤ) : roundTo precision least (0 : K) = 0 := by
  have hround : roundEven (0 : K) = 0 := by
    rw [roundEven, Int.floor_zero, Int.cast_zero, sub_self, sub_zero, zero_add, if_pos one_pos]
  rw [roundTo_eq, zero_div, hround, Int.cast_zero, zero_mul]

/-- A multiple of the last place of a number is no nearer to it than its rounding. -/
theorem abs_roundTo_sub_le_multiple (precision : ℕ) (least : ℤ) (x : K) (n : ℤ) :
    |roundTo precision least x - x| ≤
      |n * 2 ^ max (exponent x + 1 - precision) least - x| := by
  rw [roundTo_eq]
  set place : K := 2 ^ max (exponent x + 1 - precision) least with hplace
  have hpos : 0 < place := zpow_pos two_pos _
  have hscale (k : ℤ) : |k * place - x| = |k - x / place| * place := by
    rw [← abs_of_pos hpos, ← abs_mul, sub_mul, abs_of_pos hpos, div_mul_cancel₀ x hpos.ne']
  rw [hscale, hscale]
  exact mul_le_mul_of_nonneg_right (abs_roundEven_sub_le _ _) hpos.le

/-- A multiple of a power of two with few enough bits is a number of the format. -/
theorem roundTo_multiple {precision : ℕ} {least : ℤ} {m e : ℤ} (hm : |m| < 2 ^ precision)
    (he : least ≤ e) : roundTo precision least (m * 2 ^ e : K) = m * 2 ^ e := by
  by_cases hzero : (m * 2 ^ e : K) = 0
  · rw [hzero, roundTo_zero]
  have htwo : (2 : K) ≠ 0 := two_ne_zero
  have hpow : (0 : K) < 2 ^ e := zpow_pos two_pos e
  have hbits : |(m * 2 ^ e : K)| < 2 ^ (precision + e) := by
    rw [abs_mul, abs_of_pos hpow, zpow_add₀ htwo, zpow_natCast, ← Int.cast_abs]
    exact mul_lt_mul_of_pos_right (by exact_mod_cast hm) hpow
  have hexponent : exponent (m * 2 ^ e : K) < precision + e :=
    (zpow_lt_zpow_iff_right₀ one_lt_two).mp ((exponent_spec hzero).1.trans_lt hbits)
  obtain ⟨k, hk⟩ := Int.le.dest
    (show max (exponent (m * 2 ^ e : K) + 1 - precision) least ≤ e by omega)
  have hmultiple : (m * 2 ^ e : K) =
      ((m * 2 ^ k : ℤ) : K) * 2 ^ max (exponent (m * 2 ^ e : K) + 1 - precision) least := by
    conv_lhs => rw [← hk, zpow_add₀ htwo, zpow_natCast]
    push_cast
    ring
  have hnear := abs_roundTo_sub_le_multiple precision least (m * 2 ^ e : K) (m * 2 ^ k)
  rw [← hmultiple, sub_self, abs_zero] at hnear
  exact sub_eq_zero.mp (abs_eq_zero.mp (le_antisymm hnear (abs_nonneg _)))

/-- No number of the format is nearer. -/
theorem roundTo_nearest {precision : ℕ} (hprecision : 0 < precision) (least : ℤ) (x y : K) :
    |roundTo precision least x - x| ≤ |roundTo precision least y - x| := by
  by_cases hx : x = 0
  · rw [hx, roundTo_zero, sub_zero, abs_zero]
    exact abs_nonneg _
  by_cases hy : y = 0
  · have hzero := abs_roundTo_sub_le_multiple precision least x 0
    rwa [Int.cast_zero, zero_mul, ← roundTo_zero precision least, ← hy] at hzero
  obtain ⟨hx_le, -⟩ := exponent_spec hx
  obtain ⟨-, hy_lt⟩ := exponent_spec hy
  have htwo : (2 : K) ≠ 0 := two_ne_zero
  set e := max (exponent x + 1 - precision) least with he
  set f := max (exponent y + 1 - precision) least with hf
  rcases le_or_gt e f with hef | hfe
  · -- The other number is a multiple of the last place of this one.
    obtain ⟨k, hk⟩ := Int.le.dest hef
    have hmultiple : roundTo precision least y =
        ((roundEven (y / 2 ^ f) * 2 ^ k : ℤ) : K) * 2 ^ e := by
      rw [roundTo_eq, ← hf, ← hk, zpow_add₀ htwo, zpow_natCast]
      push_cast
      ring
    rw [hmultiple]
    exact abs_roundTo_sub_le_multiple precision least x _
  · -- The other number does not exceed the leading bit of this one.
    have hexponent : e = exponent x + 1 - precision := by omega
    have hless : exponent y + 1 ≤ exponent x := by omega
    obtain ⟨k, hk⟩ := Int.le.dest (show f ≤ exponent x by omega)
    have hleading : (2 : K) ^ exponent x = ((2 ^ k : ℕ) : K) * 2 ^ f := by
      rw [← hk, zpow_add₀ htwo, zpow_natCast]
      push_cast
      ring
    have hbound : |roundTo precision least y| ≤ 2 ^ exponent x := by
      have hpos : (0 : K) < 2 ^ f := zpow_pos two_pos f
      have hquotient : |y / 2 ^ f| ≤ ((2 ^ k : ℕ) : K) := by
        rw [abs_div, abs_of_pos hpos, div_le_iff₀ hpos, ← hleading]
        exact hy_lt.le.trans (zpow_le_zpow_right₀ one_le_two hless)
      rw [roundTo_eq, ← hf, abs_mul, abs_of_pos hpos, hleading]
      exact mul_le_mul_of_nonneg_right (abs_roundEven_le hquotient) hpos.le
    have hpower : (2 : K) ^ exponent x = ((2 ^ (precision - 1) : ℤ) : K) * 2 ^ e := by
      rw [hexponent, show exponent x = ((precision - 1 : ℕ) : ℤ) + (exponent x + 1 - precision) by
        omega, zpow_add₀ htwo, zpow_natCast, show ((precision - 1 : ℕ) : ℤ) +
        (exponent x + 1 - precision) = exponent x by omega]
      push_cast
      rfl
    obtain ⟨hlower, hupper⟩ := abs_le.mp hbound
    rcases le_or_gt 0 x with hsign | hsign
    · rw [abs_of_nonneg hsign] at hx_le
      have hnear := abs_roundTo_sub_le_multiple precision least x (2 ^ (precision - 1))
      rw [← he, ← hpower, abs_of_nonpos (sub_nonpos.mpr hx_le)] at hnear
      refine hnear.trans ?_
      rw [abs_of_nonpos (sub_nonpos.mpr (hupper.trans hx_le))]
      linarith
    · rw [abs_of_neg hsign] at hx_le
      have hnear := abs_roundTo_sub_le_multiple precision least x (-2 ^ (precision - 1))
      rw [← he, Int.cast_neg, neg_mul, ← hpower,
        abs_of_nonneg (show 0 ≤ -2 ^ exponent x - x by linarith)] at hnear
      refine hnear.trans ?_
      rw [abs_of_nonneg (show 0 ≤ roundTo precision least y - x by linarith)]
      linarith

/-- A number that was rounded stays as it is. -/
theorem roundTo_roundTo {precision : ℕ} (hprecision : 0 < precision) (least : ℤ) (x : K) :
    roundTo precision least (roundTo precision least x) = roundTo precision least x := by
  have hnearest := roundTo_nearest hprecision least (roundTo precision least x) x
  rw [sub_self, abs_zero] at hnearest
  exact sub_eq_zero.mp (abs_eq_zero.mp (le_antisymm hnearest (abs_nonneg _)))

theorem roundTo_mono {precision : ℕ} (hprecision : 0 < precision) (least : ℤ) :
    Monotone (roundTo precision least : K → K) := by
  intro x y hxy
  by_contra hgt
  rw [not_le] at hgt
  have hx := middle_le_of_nearer hgt (roundTo_nearest hprecision least x y)
  have hy := middle_le_of_nearer (x := -y) (neg_lt_neg hgt) (by
    have hnear := roundTo_nearest hprecision least y x
    rwa [← abs_neg, ← abs_neg (_ - y), neg_sub', neg_sub'] at hnear)
  obtain rfl : x = y := by linarith
  exact lt_irrefl _ hgt

/-! ## Ties and last places -/

theorem exponent_eq {x : K} {e : ℤ} (hlow : 2 ^ e ≤ |x|) (hhigh : |x| < 2 ^ (e + 1)) :
    exponent x = e := by
  have hx : x ≠ 0 := abs_pos.mp ((zpow_pos two_pos e).trans_le hlow)
  obtain ⟨hlower, hupper⟩ := exponent_spec hx
  have hle := (zpow_lt_zpow_iff_right₀ (one_lt_two (α := K))).mp (hlow.trans_lt hupper)
  have hge := (zpow_lt_zpow_iff_right₀ (one_lt_two (α := K))).mp (hlower.trans_lt hhigh)
  omega

/-- Between two integers the even one is taken. -/
theorem roundEven_middle {n : ℤ} (heven : n % 2 = 0) : roundEven (n + 1 / 2 : K) = n := by
  have hfloor : ⌊(n + 1 / 2 : K)⌋ = n := by
    refine Int.floor_eq_iff.mpr ⟨?_, ?_⟩
    · linarith
    · linarith
  rw [roundEven, hfloor, if_neg (by linarith), if_neg (by linarith), if_pos heven]

/-- Between two numbers of the format the one with the even last place is taken. -/
theorem roundTo_middle {precision : ℕ} {least e m : ℤ} (heven : m % 2 = 0)
    (hlow : (2 : K) ^ (precision - 1 : ℤ) ≤ |(m + 1 / 2 : K)|)
    (hhigh : |(m + 1 / 2 : K)| < 2 ^ (precision : ℤ)) (he : least ≤ e) :
    roundTo precision least ((m + 1 / 2) * 2 ^ e : K) = m * 2 ^ e := by
  have htwo : (2 : K) ≠ 0 := two_ne_zero
  have hpow : (0 : K) < 2 ^ e := zpow_pos two_pos e
  have hexponent : exponent ((m + 1 / 2) * 2 ^ e : K) = e + precision - 1 := by
    refine exponent_eq ?_ ?_
    · rw [abs_mul, abs_of_pos hpow, show e + precision - 1 = (precision - 1 : ℤ) + e by ring,
        zpow_add₀ htwo]
      exact mul_le_mul_of_nonneg_right hlow hpow.le
    · rw [abs_mul, abs_of_pos hpow, show e + precision - 1 + 1 = (precision : ℤ) + e by ring,
        zpow_add₀ htwo]
      exact mul_lt_mul_of_pos_right hhigh hpow
  rw [roundTo_eq, hexponent, show max (e + precision - 1 + 1 - precision) least = e by omega,
    mul_div_assoc, div_self hpow.ne', mul_one, roundEven_middle heven]

/-- A number of the format is a multiple of its last place. -/
theorem exists_multiple {precision : ℕ} {least e : ℤ} {x : K}
    (hfixed : roundTo precision least x = x) (hlow : 2 ^ e ≤ |x|) :
    ∃ z : ℤ, x = z * 2 ^ (e + 1 - precision) := by
  have hx : x ≠ 0 := abs_pos.mp ((zpow_pos two_pos e).trans_le hlow)
  have hle : e < exponent x + 1 :=
    (zpow_lt_zpow_iff_right₀ (one_lt_two (α := K))).mp (hlow.trans_lt (exponent_spec hx).2)
  obtain ⟨k, hk⟩ := Int.le.dest
    (show e + 1 - precision ≤ max (exponent x + 1 - precision) least by omega)
  refine ⟨roundEven (x / 2 ^ max (exponent x + 1 - precision) least) * 2 ^ k, ?_⟩
  have hplace : (2 : K) ^ max (exponent x + 1 - precision) least =
      2 ^ k * 2 ^ (e + 1 - precision) := by
    rw [← hk, zpow_add₀ two_ne_zero, zpow_natCast, mul_comm]
  rw [Int.cast_mul, Int.cast_pow, Int.cast_ofNat, mul_assoc, ← hplace, ← roundTo_eq, hfixed]

theorem binary32_mono : Monotone (binary32 : K → K) := roundTo_mono (by decide) _

theorem binary32_idem (x : K) : binary32 (binary32 x) = binary32 x := roundTo_roundTo (by decide) _ x

/-- A dyadic number with few enough bits is a `float`. -/
theorem binary32_div_two_pow {m : ℤ} {n : ℕ} (hm : |m| < 2 ^ 24) (hn : n ≤ 149) :
    binary32 (m / 2 ^ n : K) = m / 2 ^ n := by
  rw [div_eq_mul_inv, ← zpow_natCast, ← zpow_neg]
  exact roundTo_multiple hm (by omega)

theorem binary32_intCast {m : ℤ} (hm : |m| < 2 ^ 24) : binary32 (m : K) = m := by
  have hwhole := binary32_div_two_pow (K := K) hm (Nat.zero_le 149)
  rwa [pow_zero, div_one] at hwhole

theorem binary64_mono : Monotone (binary64 : K → K) := roundTo_mono (by decide) _

theorem binary64_intCast {m : ℤ} (hm : |m| < 2 ^ 53) : binary64 (m : K) = m := by
  have hwhole : binary64 (m * 2 ^ (0 : ℤ) : K) = m * 2 ^ (0 : ℤ) := roundTo_multiple hm (by omega)
  rwa [zpow_zero, mul_one] at hwhole

end Nearest

example : decode32 0x42200000 = some 40 := by decide +kernel
example : binary32 (999999999 / 1000000000 : ℚ) = 1 := by decide +kernel

end FastLivo.Lib
