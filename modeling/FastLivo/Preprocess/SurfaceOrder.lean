import FastLivo.Preprocess.Handlers
import FastLivo.Lib.Binary32
import Mathlib.Algebra.BigOperators.Group.List.Basic
import Mathlib.Algebra.Order.BigOperators.Group.List
import Mathlib.Algebra.Order.Field.Basic
import Mathlib.Tactic.Linarith
import Mathlib.Tactic.Ring

/-!
# The order of what a ring gives to the surface cloud

`give_feature` walks along the ring once. A point of the surface cloud is one point of the ring or
the average of a group of consecutive ones, and the groups follow one another, so that the times of
a ring stay in order where an average is between the times that it is of. In type `float` that is so
for the average of two, not for every average of three.
-/

namespace FastLivo.Preprocess

open Lib

variable {K : Type} [LinearOrder K]

/-- Non-decreasing times, the last point the newest. -/
def ScanOrder (l : List (PointType K)) : Prop := l.Pairwise fun a b => a.curvature ≤ b.curvature

instance decidableScanOrder : DecidablePred (ScanOrder : List (PointType K) → Prop) := fun l =>
  inferInstanceAs (Decidable (l.Pairwise fun a b => a.curvature ≤ b.curvature))

variable {cfg : Config K} {pl before : List (PointType K)} {j : ℕ} {s t : OutputState K}

section Averages

variable [Zero K] [Add K] [Div K] [NatCast K]

/-- The average of no more times than a group can hold that is not full is between them. -/
def Config.AveragesBetween (cfg : Config K) : Prop :=
  ∀ (times : List K) (low high : K), times ≠ [] →
    (0 < cfg.pointFilterNum → times.length < cfg.pointFilterNum) →
      (∀ time ∈ times, low ≤ time ∧ time ≤ high) →
        low ≤ times.foldl (· + ·) 0 / times.length ∧ times.foldl (· + ·) 0 / times.length ≤ high

/-- The times of the points from an index on, up to before another. -/
def TimesWithin (pl : List (PointType K)) (first last : ℕ) (low high : K) : Prop :=
  ∀ k p, first ≤ k → k < last → pl[k]? = some p → low ≤ p.curvature ∧ p.curvature ≤ high

omit [Zero K] [Div K] [NatCast K] in
/-- The sum of the times. -/
theorem sum_eq_foldl {pl : List (PointType K)} {first n : ℕ} {low high : K} {start sum : PointType K}
    (hwithin : TimesWithin pl first (first + n) low high)
    (h : (List.range' first n).foldlM (fun ap k => do
      let p ← pl[k]?
      return { ap with
        x := ap.x + p.x
        y := ap.y + p.y
        z := ap.z + p.z
        curvature := ap.curvature + p.curvature }) start = some sum) :
    ∃ times : List K, times.length = n ∧ (∀ time ∈ times, low ≤ time ∧ time ≤ high) ∧
      sum.curvature = times.foldl (· + ·) start.curvature := by
  induction n generalizing first start with
  | zero =>
    obtain rfl := Option.some.inj h
    exact ⟨[], rfl, fun time hnone => absurd hnone List.not_mem_nil, rfl⟩
  | succ n ih =>
    rw [List.range'_succ, List.foldlM_cons] at h
    obtain ⟨next, hnext, h⟩ := Option.bind_eq_some_iff.mp h
    obtain ⟨p, hp, hnext⟩ := Option.bind_eq_some_iff.mp hnext
    obtain rfl := Option.some.inj hnext
    obtain ⟨times, hlength, hall, hsum⟩ :=
      ih (fun k q hk hlast => hwithin k q (by omega) (by omega)) h
    refine ⟨p.curvature :: times, congrArg (· + 1) hlength, fun time htime => ?_, hsum⟩
    rcases List.mem_cons.mp htime with rfl | htime
    · exact hwithin first p le_rfl (by omega) hp
    · exact hall time htime

end Averages

/-- In exact arithmetic every average is between. -/
theorem averagesBetween_exact [Field K] [IsStrictOrderedRing K] (cfg : Config K) :
    cfg.AveragesBetween := by
  intro times low high hsome _ hall
  have hpos : (0 : K) < times.length := Nat.cast_pos.mpr (List.length_pos_of_ne_nil hsome)
  rw [← List.sum_eq_foldl, le_div_iff₀ hpos, div_le_iff₀ hpos, mul_comm low, mul_comm high,
    ← nsmul_eq_mul, ← nsmul_eq_mul]
  exact ⟨times.card_nsmul_le_sum low fun time htime => (hall time htime).1,
    times.sum_le_card_nsmul high fun time htime => (hall time htime).2⟩

variable [Zero K] [Add K] [Div K] [NatCast K]

variable [Sub K] [Mul K] [Neg K] [OfScientific K]

end FastLivo.Preprocess
