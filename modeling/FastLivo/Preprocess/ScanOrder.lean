import FastLivo.Preprocess.AviaTimes
import FastLivo.Preprocess.SurfaceOrder
import Mathlib.Analysis.SpecialFunctions.Complex.Arg
import Mathlib.Data.Rat.Floor

/-!
# The order of a scan

Some handlers sort their cloud, others keep the order of the message, and the features come ring by
ring. The times that are computed from azimuths are counted from the first point of each ring, so
that they need not be in the order of the message.
-/

set_option linter.unusedSectionVars false

namespace FastLivo.Preprocess

open Lib

variable {K : Type} {cfg : Config K}

/-! ## What a loop keeps of a list -/

/-- The points of a ring, from points with their rings. -/
def ofRing (points : List (ℕ × PointType K)) (ring : ℕ) : List (PointType K) :=
  (points.filter fun p => p.1 = ring).map Prod.snd

theorem ofRing_sublist {points points' : List (ℕ × PointType K)} (h : points.Sublist points')
    (ring : ℕ) : (ofRing points ring).Sublist (ofRing points' ring) := (h.filter _).map _

/-- Each buffer holds points of its ring, in their order. -/
def BuffersWithin (points : List (ℕ × PointType K)) (buffers : List (List (PointType K))) : Prop :=
  ∀ (ring : ℕ) (pl : List (PointType K)), buffers[ring]? = some pl → pl.Sublist (ofRing points ring)

theorem BuffersWithin.keep {points : List (ℕ × PointType K)} {buffers : List (List (PointType K))}
    {i : ℕ} (h : BuffersWithin (points.take i) buffers) :
    BuffersWithin (points.take (i + 1)) buffers := fun ring pl hpl =>
  (h ring pl hpl).trans (ofRing_sublist (List.take_sublist_take_left (Nat.le_succ i)) ring)

theorem BuffersWithin.push {points : List (ℕ × PointType K)}
    {buffers buffers' : List (List (PointType K))} {i ring : ℕ} {p : PointType K}
    (h : BuffersWithin (points.take i) buffers) (hp : points[i]? = some (ring, p))
    (hpush : pushBuffer buffers ring p = some buffers') :
    BuffersWithin (points.take (i + 1)) buffers' := by
  obtain ⟨pl, hpl, hpush⟩ := Option.bind_eq_some_iff.mp hpush
  obtain rfl := Option.some.inj hpush
  intro ring' pl' hpl'
  by_cases hring : ring = ring'
  · subst hring
    obtain ⟨hlength, -⟩ := List.getElem?_eq_some_iff.mp hpl
    rw [List.getElem?_set_self hlength] at hpl'
    obtain rfl := Option.some.inj hpl'
    have hadded : ofRing (points.take (i + 1)) ring = ofRing (points.take i) ring ++ [p] := by
      rw [ofRing, List.take_add_one, hp, Option.toList_some, List.filter_append, List.map_append]
      simp [ofRing]
    rw [hadded]
    exact (h ring pl hpl).append_right [p]
  · rw [List.getElem?_set_ne hring] at hpl'
    exact h.keep ring' pl' hpl'

section Order

variable [LinearOrder K]

theorem ScanOrder.sublist {l l' : List (PointType K)} (h : ScanOrder l') (hsub : l.Sublist l') :
    ScanOrder l := List.Pairwise.sublist hsub h

end Order

/-! ## Arithmetic -/

section Arithmetic

variable [Zero K] [Add K] [Sub K] [Mul K] [Div K] [Neg K] [OfScientific K] [NatCast K] [LinearOrder K]

variable (K) in
/-- What the times of a scan need of their arithmetic: the operations keep the order, also where they
round. -/
class TimeArithmetic : Prop where
  repair : RepairLaws (nearTime : K → K → Prop) nextTime
  offset_mono {m n : ℕ} (h : m ≤ n) : (m : K) / 1e6 ≤ n / 1e6
  offset_nonneg (n : ℕ) : (0 : K) ≤ n / 1e6
  million_mono {a b : K} (h : a ≤ b) : a / 1e6 ≤ b / 1e6
  thousand_mono {a b : K} (h : a ≤ b) : a / 1000.0 ≤ b / 1000.0
  since_mono {a b : K} (start : K) (h : a ≤ b) : (a - start) * 1000.0 ≤ (b - start) * 1000.0

end Arithmetic

section Exact

variable [Field K] [LinearOrder K] [IsStrictOrderedRing K]

/-- What the repair compares and adds, in exact arithmetic. -/
theorem repairLaws_exact : RepairLaws (nearTime : K → K → Prop) nextTime where
  advance_mono _ _ h := add_le_add_left h timeStep
  le_advance c := by
    rw [nextTime, timeStep]
    exact le_add_of_nonneg_right (by norm_num)
  near_advance c := by
    have hstep : (0 : K) ≤ 0.004166667 := by norm_num
    rw [nearTime, nextTime, timeStep, add_sub_cancel_left, fabs_of_nonneg hstep]
    norm_num
  near_of_le {c c' t' t} hc hle ht hnear := by
    rw [nearTime, fabs_of_nonneg (sub_nonneg.mpr (hc.trans (hle.trans ht)))] at hnear
    rw [nearTime, fabs_of_nonneg (sub_nonneg.mpr hle)]
    exact (sub_le_sub ht hc).trans_lt hnear

instance timeArithmeticExact : TimeArithmetic K where
  repair := repairLaws_exact
  offset_mono h := div_le_div_of_nonneg_right (Nat.cast_le.mpr h) (by norm_num)
  offset_nonneg n := div_nonneg (Nat.cast_nonneg n) (by norm_num)
  million_mono h := div_le_div_of_nonneg_right h (by norm_num)
  thousand_mono h := div_le_div_of_nonneg_right h (by norm_num)
  since_mono start h := mul_le_mul_of_nonneg_right (sub_le_sub_right h start) (by norm_num)

end Exact

instance timeArithmeticBinary32 : TimeArithmetic Binary32 where
  repair := repairLaws_binary32
  offset_mono h := Binary32.div_mono (Binary32.natCast_mono h) (by decide +kernel)
  offset_nonneg n := by
    have hfirst : (0 : Binary32) = (0 : ℕ) / 1e6 := by decide +kernel
    rw [hfirst]
    exact Binary32.div_mono (Binary32.natCast_mono (Nat.zero_le n)) (by decide +kernel)
  million_mono h := Binary32.div_mono h (by decide +kernel)
  thousand_mono h := Binary32.div_mono h (by decide +kernel)
  since_mono start h := Binary32.mul_mono (Binary32.sub_mono h le_rfl) (by decide +kernel)

section Scans

variable [Zero K] [Add K] [Sub K] [Mul K] [Div K] [Neg K] [OfScientific K] [NatCast K] [LinearOrder K]
  {ops : FloatOps K}

/-! ## Handlers -/

section Livox

variable [TimeArithmetic K]

end Livox

/-! ## Scans -/

end Scans

/-! ## Walls -/

section Azimuth

variable [Field K] [LinearOrder K] [IsStrictOrderedRing K] {ops : FloatOps K}

variable {cloud : List (SensorPoint K)} {clocks clocks' : List (RingClock K)} {i : ℕ}
  {p : SensorPoint K} {yaw : K}

end Azimuth

end FastLivo.Preprocess
