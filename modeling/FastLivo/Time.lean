import Mathlib

/-!
# Stamps and seconds

`double` and `float` values are exact rationals: rounding of their arithmetic is
not modelled. The one rounding that is, because the program does it on purpose,
is the conversion of `ros::Time` (seconds) to the message stamp (whole seconds
and nanoseconds), which also clamps negative times to zero.
-/

namespace FastLivo

/-- A `double` or `float` of the source, without rounding. -/
abbrev Double := ℚ

/-- `builtin_interfaces::msg::Time`. -/
structure Stamp where
  sec : Int
  nanosec : Nat
  deriving DecidableEq, Repr

instance : Inhabited Stamp := ⟨⟨0, 0⟩⟩

def Stamp.toSec (t : Stamp) : Double := t.sec + t.nanosec / 1000000000

/-- `std::llround` and `std::round`: to the nearest integer, halves away from zero. -/
def llround (x : Double) : Int := if x < 0 then -⌊-x + 1 / 2⌋ else ⌊x + 1 / 2⌋

/-- `ros::Time` converted to a message stamp. -/
def rosTime (sec_ : Double) : Stamp :=
  let s := if sec_ < 0 then 0 else sec_
  let sec := ⌊s⌋
  let nanosec := (llround ((s - sec) * 1000000000)).toNat
  if 1000000000 ≤ nanosec then ⟨sec + 1, nanosec - 1000000000⟩ else ⟨sec, nanosec⟩

/-- Nearest nanosecond of a time, in nanoseconds. -/
def nanos (s : Double) : Int := ⌊max 0 s * 1000000000 + 1 / 2⌋

theorem clamp_eq_max (s : Double) : (if s < 0 then 0 else s) = max 0 s := by
  split
  · rename_i h; rw [max_eq_left h.le]
  · rename_i h; rw [max_eq_right (not_lt.mp h)]

/-- A stamp made from a time reads back as that time on the nanosecond grid. -/
theorem toSec_rosTime (s : Double) : (rosTime s).toSec = nanos s / 1000000000 := by
  unfold rosTime nanos
  rw [clamp_eq_max]
  generalize hm : max 0 s = m
  have hm0 : 0 ≤ m := hm ▸ le_max_left 0 s
  have hfrac : 0 ≤ (m - ⌊m⌋) * 1000000000 :=
    mul_nonneg (sub_nonneg.mpr (Int.floor_le m)) (by norm_num)
  have hll : llround ((m - ⌊m⌋) * 1000000000) = ⌊m * 1000000000 + 1 / 2⌋ - ⌊m⌋ * 1000000000 := by
    rw [llround, if_neg (not_lt.mpr hfrac)]
    have he : (m - ⌊m⌋) * 1000000000 + 1 / 2
        = (m * 1000000000 + 1 / 2) - ((⌊m⌋ * 1000000000 : Int) : Double) := by
      push_cast; ring
    rw [he, Int.floor_sub_intCast]
  have hnn : 0 ≤ llround ((m - ⌊m⌋) * 1000000000) := by
    rw [llround, if_neg (not_lt.mpr hfrac)]
    exact Int.floor_nonneg.mpr (by linarith)
  set n := llround ((m - ⌊m⌋) * 1000000000) with hn
  have hcast : ((n.toNat : Int) : Double) = ((⌊m * 1000000000 + 1 / 2⌋ : Int) : Double)
      - ((⌊m⌋ : Int) : Double) * 1000000000 := by
    rw [Int.toNat_of_nonneg hnn, hll]; push_cast; ring
  have hcast' : (n.toNat : Double) = ((⌊m * 1000000000 + 1 / 2⌋ : Int) : Double)
      - ((⌊m⌋ : Int) : Double) * 1000000000 := by
    rw [← hcast]; norm_cast
  simp only
  split
  · rename_i hle
    simp only [Stamp.toSec]
    push_cast [Nat.cast_sub hle]
    rw [hcast']
    ring
  · simp only [Stamp.toSec]
    rw [hcast']
    ring

theorem nanos_mono {a b : Double} (h : a ≤ b) : nanos a ≤ nanos b := by
  unfold nanos
  apply Int.floor_le_floor
  have := max_le_max_left 0 h
  linarith

theorem toSec_rosTime_mono {a b : Double} (h : a ≤ b) :
    (rosTime a).toSec ≤ (rosTime b).toSec := by
  rw [toSec_rosTime, toSec_rosTime]
  have := nanos_mono h
  have hc : ((nanos a : Int) : Double) ≤ ((nanos b : Int) : Double) := by exact_mod_cast this
  linarith

theorem toSec_rosTime_nonneg (s : Double) : 0 ≤ (rosTime s).toSec := by
  rw [toSec_rosTime]
  have h : 0 ≤ nanos s := Int.floor_nonneg.mpr (by have := le_max_left 0 s; linarith)
  have hc : (0 : Double) ≤ ((nanos s : Int) : Double) := by exact_mod_cast h
  linarith

/-- Negative times are stamped as time zero. -/
theorem toSec_rosTime_of_nonpos {s : Double} (h : s ≤ 0) : (rosTime s).toSec = 0 := by
  rw [toSec_rosTime, nanos, max_eq_left h]
  norm_num

/-- Whole seconds survive the conversion. -/
theorem toSec_rosTime_natCast (n : Nat) : (rosTime n).toSec = n := by
  rw [toSec_rosTime, nanos, max_eq_right (Nat.cast_nonneg n)]
  have h : ⌊(n : Double) * 1000000000 + 1 / 2⌋ = (n * 1000000000 : Nat) := by
    rw [Int.floor_eq_iff]; push_cast; constructor <;> linarith
  rw [h]
  push_cast
  ring

theorem natCast_le_toSec_rosTime {n : Nat} {s : Double} (h : (n : Double) ≤ s) :
    (n : Double) ≤ (rosTime s).toSec := by
  have := toSec_rosTime_mono h
  rwa [toSec_rosTime_natCast] at this

/-- Rounding moves a time by at most half a second. -/
theorem abs_llround_sub_le (x : Double) : |(llround x : Double) - x| ≤ 1 / 2 := by
  unfold llround
  split
  · have h1 := Int.floor_le (-x + 1 / 2)
    have h2 := Int.lt_floor_add_one (-x + 1 / 2)
    rw [abs_le]; push_cast; constructor <;> linarith
  · have h1 := Int.floor_le (x + 1 / 2)
    have h2 := Int.lt_floor_add_one (x + 1 / 2)
    rw [abs_le]; constructor <;> linarith

example : rosTime (3 / 2) = ⟨1, 500000000⟩ := by decide +kernel

end FastLivo
