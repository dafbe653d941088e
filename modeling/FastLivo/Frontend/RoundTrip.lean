import FastLivo.Frontend.Turns
import Mathlib.Analysis.SpecialFunctions.Trigonometric.Sinc
import Mathlib.Analysis.Real.Pi.Bounds

/-!
# Adding an increment and subtracting the state

`Exp` drops rotations below 1e-5 and `Log` reads half the skew part where the trace is above
3 - 1e-6. The increment comes back exactly from the angle on where `Log` leaves that branch; below
it the rotation comes back shortened.
-/

namespace FastLivo.Frontend

open Esikf Matrix

noncomputable section

variable {C : Carrier}

/-- `operator+`. -/
def plus (s : ExactState C) (stateAdd : StateVector) : ExactState C :=
  let rotEnd : Mat3 := s.rotEnd
  let posEnd : Vec3 := s.posEnd
  let invExpoTime : ℝ := s.invExpoTime
  let velEnd : Vec3 := s.velEnd
  let biasG : Vec3 := s.biasG
  let biasA : Vec3 := s.biasA
  let gravity : Vec3 := s.gravity
  { rotEnd := rotEnd * expVec (stateAdd.block .rot)
    posEnd := posEnd + stateAdd.block .pos
    invExpoTime := invExpoTime + stateAdd none
    velEnd := velEnd + stateAdd.block .vel
    biasG := biasG + stateAdd.block .biasG
    biasA := biasA + stateAdd.block .biasA
    gravity := gravity + stateAdd.block .gravity
    cov := s.cov }

theorem plus_eq_boxplus (s : ExactState C) (stateAdd : StateVector) :
    plus s stateAdd = boxplus s stateAdd := rfl

/-! ## Rotations -/

section Rodrigues

variable {v : Vec3} (h : v ⬝ᵥ v = 1) (a : ℝ)

include h in
theorem trace_rodrigues : (rodrigues v a).trace = 1 + 2 * Real.cos a := by
  have hsq : (skew v * skew v).trace = -2 := by
    rw [dotProduct, Fin.sum_univ_three] at h
    simp [trace_fin_three, skew]
    linarith
  have hskew : (skew v).trace = 0 := by simp [trace_fin_three, skew]
  rw [rodrigues, trace_add, trace_add, trace_smul, trace_smul, trace_one, Fintype.card_fin, hsq,
    hskew, smul_eq_mul, smul_eq_mul]
  push_cast
  ring

theorem skewPart_rodrigues (v : Vec3) : skewPart (rodrigues v a) = (2 * Real.sin a) • v := by
  ext i
  fin_cases i <;> simp [skewPart, rodrigues, skew] <;> ring

end Rodrigues

theorem norm3_nonneg (v : Vec3) : 0 ≤ norm3 v := Real.sqrt_nonneg _

theorem norm3_eq_zero {v : Vec3} : norm3 v = 0 ↔ v = 0 := by
  rw [norm3, Real.sqrt_eq_zero', ← dotProduct_self_eq_zero]
  exact ⟨fun h => le_antisymm h (Finset.sum_nonneg fun i _ => mul_self_nonneg (v i)), fun h => h.le⟩

theorem norm3_smul (c : ℝ) (v : Vec3) : norm3 (c • v) = |c| * norm3 v := by
  rw [norm3, smul_dotProduct, dotProduct_smul, smul_eq_mul, smul_eq_mul, ← mul_assoc,
    Real.sqrt_mul (mul_self_nonneg c), Real.sqrt_mul_self_eq_abs, norm3]

/-- `Exp` at its threshold and below. -/
theorem expVec_small {v : Vec3} (h : norm3 v ≤ 0.00001) : expVec v = 1 := if_neg (not_lt.mpr h)

section Log

variable {v : Vec3} (h : 0.00001 < norm3 v)

include h

theorem norm3_pos : 0 < norm3 v := lt_trans (by norm_num) h

theorem trace_expVec : (expVec v).trace = 1 + 2 * Real.cos (norm3 v) := by
  rw [expVec, if_pos h]
  exact trace_rodrigues (unit_axis (norm3_pos h)) _

theorem skewPart_expVec : skewPart (expVec v) = (2 * Real.sinc (norm3 v)) • v := by
  have hpos := norm3_pos h
  rw [expVec, if_pos h, skewPart_rodrigues, smul_smul, Real.sinc_of_ne_zero hpos.ne', div_eq_mul_inv,
    mul_assoc]

/-- Where `Log` finds the trace of the identity, the rotation is shortened. -/
theorem logRot_expVec_near (hnear : 2 * (1 - Real.cos (norm3 v)) < 1e-6) :
    logRot (expVec v) = Real.sinc (norm3 v) • v := by
  have htrace : 3.0 - 1e-6 < (expVec v).trace := by
    rw [trace_expVec h]
    norm_num at hnear ⊢
    linarith
  rw [logRot_eq htrace, skewPart_expVec h, smul_smul]
  congr 1
  ring

/-- Elsewhere below a half turn it comes back. -/
theorem logRot_expVec_far (hπ : norm3 v < Real.pi) (hfar : 1e-6 ≤ 2 * (1 - Real.cos (norm3 v))) :
    logRot (expVec v) = v := by
  have hpos := norm3_pos h
  have hsin := Real.sin_pos_of_pos_of_lt_pi hpos hπ
  have htrace : ¬3.0 - 1e-6 < (expVec v).trace := by
    rw [trace_expVec h, not_lt]
    norm_num at hfar ⊢
    linarith
  have htheta : Real.arccos (0.5 * ((expVec v).trace - 1)) = norm3 v := by
    have hcos : 0.5 * (1 + 2 * Real.cos (norm3 v) - 1) = Real.cos (norm3 v) := by ring
    rw [trace_expVec h, hcos, Real.arccos_cos hpos.le hπ.le]
  -- The second threshold of `Log` is not reached: the cosine bounds the angle from below.
  have hlarge : 0.001 ≤ norm3 v := by
    have hquad := Real.one_sub_sq_div_two_le_cos (x := norm3 v)
    norm_num at hfar ⊢
    nlinarith
  unfold logRot
  dsimp only
  rw [if_neg htrace, htheta, abs_of_pos hpos, if_neg (not_lt.mpr hlarge), skewPart_expVec h,
    smul_smul, Real.sinc_of_ne_zero hpos.ne']
  have hone : 0.5 * norm3 v / Real.sin (norm3 v) * (2 * (Real.sin (norm3 v) / norm3 v)) = 1 := by
    field_simp
    norm_num
  rw [hone, one_smul]

end Log

/-- The angle below which `Log` reads half the skew part is small. -/
theorem angle_lt_of_near {θ : ℝ} (hpos : 0 < θ) (hπ : θ < Real.pi)
    (hnear : 2 * (1 - Real.cos θ) < 1e-6) : θ < 0.002 := by
  have hquad := Real.cos_le_one_sub_mul_cos_sq (x := θ) (by rw [abs_of_pos hpos]; exact hπ.le)
  have hpi : Real.pi ^ 2 < 10 := by nlinarith [Real.pi_lt_d2, Real.pi_pos]
  have hsq : θ ^ 2 * (2 / 10) ≤ 2 / Real.pi ^ 2 * θ ^ 2 := by
    rw [mul_comm]
    have hle : (2 : ℝ) / 10 ≤ 2 / Real.pi ^ 2 :=
      div_le_div_of_nonneg_left (by norm_num) (by positivity) hpi.le
    exact mul_le_mul_of_nonneg_right hle (sq_nonneg θ)
  norm_num at hnear ⊢
  nlinarith

/-- The rotation comes back exactly when it is zero or large enough. -/
theorem logRot_expVec_iff {v : Vec3} (hπ : norm3 v < Real.pi) :
    logRot (expVec v) = v ↔ v = 0 ∨ 1e-6 ≤ 2 * (1 - Real.cos (norm3 v)) := by
  constructor
  · intro heq
    by_contra hno
    obtain ⟨hzero, hnear⟩ := not_or.mp hno
    rw [not_le] at hnear
    rcases le_or_gt (norm3 v) 0.00001 with hsmall | hlarge
    · rw [expVec_small hsmall, logRot_one] at heq
      exact hzero heq.symm
    · rw [logRot_expVec_near hlarge hnear] at heq
      have hlength := congrArg norm3 heq
      have hpos := norm3_pos hlarge
      have hsinc : Real.sinc (norm3 v) < 1 := by
        rw [Real.sinc_of_ne_zero hpos.ne', div_lt_one hpos]
        exact Real.sin_lt hpos
      have hsincpos : 0 ≤ Real.sinc (norm3 v) := by
        rw [Real.sinc_of_ne_zero hpos.ne']
        exact div_nonneg (Real.sin_pos_of_pos_of_lt_pi hpos hπ).le hpos.le
      rw [norm3_smul, abs_of_nonneg hsincpos] at hlength
      nlinarith
  · rintro (rfl | hfar)
    · rw [expVec_small, logRot_one]
      rw [norm3_eq_zero.mpr rfl]
      norm_num
    · rcases le_or_gt (norm3 v) 0.00001 with hsmall | hlarge
      · have hquad := Real.one_sub_sq_div_two_le_cos (x := norm3 v)
        have hnonneg := norm3_nonneg v
        norm_num at hfar hsmall
        nlinarith
      · exact logRot_expVec_far hlarge hπ hfar

/-- What is lost is never more than the threshold of `Exp`. -/
theorem norm3_logRot_expVec_sub_le {v : Vec3} (hπ : norm3 v < Real.pi) :
    norm3 (logRot (expVec v) - v) ≤ 0.00001 := by
  rcases le_or_gt (norm3 v) 0.00001 with hsmall | hlarge
  · have hneg : (0 : Vec3) - v = (-1 : ℝ) • v := by rw [zero_sub, neg_one_smul]
    rw [expVec_small hsmall, logRot_one, hneg, norm3_smul, abs_neg, abs_one, one_mul]
    exact hsmall
  rcases lt_or_ge (2 * (1 - Real.cos (norm3 v))) 1e-6 with hnear | hfar
  · have hpos := norm3_pos hlarge
    have hangle := angle_lt_of_near hpos hπ hnear
    have hcube := Real.sin_gt_sub_cube hpos
    have hsin := Real.sin_lt hpos
    have hdiff : Real.sinc (norm3 v) • v - v = (Real.sinc (norm3 v) - 1) • v := by
      rw [sub_smul, one_smul]
    have hshort : |Real.sinc (norm3 v) - 1| * norm3 v = norm3 v - Real.sin (norm3 v) := by
      rw [Real.sinc_of_ne_zero hpos.ne', abs_of_neg (by rw [sub_neg, div_lt_one hpos]; exact hsin)]
      field_simp
      ring
    rw [logRot_expVec_near hlarge hnear, hdiff, norm3_smul, hshort]
    have hcubic : norm3 v ^ 3 ≤ 0.002 ^ 3 := pow_le_pow_left₀ hpos.le hangle.le 3
    norm_num at hcubic ⊢
    linarith
  · rw [logRot_expVec_far hlarge hπ hfar, sub_self, norm3_eq_zero.mpr rfl]
    norm_num

/-! ## States -/

section States

variable {s : ExactState C} (hs : (rotOf s)ᵀ * rotOf s = 1) (d : StateVector)

include hs in
theorem boxminus_plus_rot :
    (boxminus (plus s d) s).block .rot = logRot (expVec (d.block .rot)) := by
  have hcancel : (rotOf s)ᵀ * (rotOf s * expVec (d.block .rot)) = expVec (d.block .rot) := by
    rw [← Matrix.mul_assoc, hs, Matrix.one_mul]
  exact congrArg logRot hcancel

theorem boxminus_plus_expo : boxminus (plus s d) s none = d none := add_sub_cancel_left _ _

theorem boxminus_plus_block {b : StateBlock} (hb : b ≠ .rot) :
    (boxminus (plus s d) s).block b = d.block b := by
  ext i
  cases b with
  | rot => exact absurd rfl hb
  | pos => exact add_sub_cancel_left _ _
  | vel => exact add_sub_cancel_left _ _
  | biasG => exact add_sub_cancel_left _ _
  | biasA => exact add_sub_cancel_left _ _
  | gravity => exact add_sub_cancel_left _ _

end States

/-- Adding an increment to a state with a rotation and subtracting the state gives back every
component but a small rotation, which is dropped or shortened. -/
theorem boxminus_plus (s : ExactState C) (d : StateVector) (hs : (rotOf s)ᵀ * rotOf s = 1)
    (hπ : norm3 (d.block .rot) < Real.pi) :
    boxminus (plus s d) s none = d none ∧
      (∀ b ≠ .rot, (boxminus (plus s d) s).block b = d.block b) ∧
      (boxminus (plus s d) s = d ↔
        d.block .rot = 0 ∨ 1e-6 ≤ 2 * (1 - Real.cos (norm3 (d.block .rot)))) ∧
      (norm3 (d.block .rot) ≤ 0.00001 → (boxminus (plus s d) s).block .rot = 0) ∧
      (0.00001 < norm3 (d.block .rot) → 2 * (1 - Real.cos (norm3 (d.block .rot))) < 1e-6 →
        (boxminus (plus s d) s).block .rot = Real.sinc (norm3 (d.block .rot)) • d.block .rot) ∧
      norm3 ((boxminus (plus s d) s).block .rot - d.block .rot) ≤ 0.00001 := by
  have hrot := boxminus_plus_rot hs d
  refine ⟨boxminus_plus_expo d, fun b hb => boxminus_plus_block d hb, ?_, ?_, ?_, ?_⟩
  · rw [← logRot_expVec_iff hπ, ← hrot]
    constructor
    · intro heq
      rw [heq]
    · intro heq
      funext k
      obtain _ | ⟨b, i⟩ := k
      · exact boxminus_plus_expo d
      · by_cases hb : b = .rot
        · subst hb
          exact congrFun heq i
        · exact congrFun (boxminus_plus_block d hb) i
  · intro hsmall
    rw [hrot, expVec_small hsmall, logRot_one]
  · intro hlarge hnear
    rw [hrot, logRot_expVec_near hlarge hnear]
  · rw [hrot]
    exact norm3_logRot_expVec_sub_le hπ

/-- A turn by the same angle about all three axes. -/
def turnBy (a : ℝ) : StateVector
  | some (.rot, _) => a
  | _ => 0

theorem norm3_turnBy {a : ℝ} (ha : 0 ≤ a) : norm3 ((turnBy a).block .rot) = √3 * a := by
  have hsq : (turnBy a).block .rot ⬝ᵥ (turnBy a).block .rot = 3 * (a * a) := by
    simp [dotProduct, StateVector.block, turnBy]
  rw [norm3, hsq, Real.sqrt_mul (by norm_num), Real.sqrt_mul_self ha]

theorem norm3_turnBy_micro : norm3 ((turnBy 0.000001).block .rot) ≤ 0.00001 := by
  have hthree : √3 ≤ 2 := Real.sqrt_le_iff.mpr ⟨by norm_num, by norm_num⟩
  rw [norm3_turnBy (by norm_num)]
  norm_num
  linarith

theorem norm3_turnBy_lt_pi : norm3 ((turnBy 0.000001).block .rot) < Real.pi :=
  norm3_turnBy_micro.trans_lt (lt_trans (by norm_num) Real.pi_gt_three)

theorem rotOf_default : (rotOf ({} : ExactState C))ᵀ * rotOf ({} : ExactState C) = 1 := by
  change (1 : Mat3)ᵀ * 1 = 1
  rw [transpose_one, Matrix.one_mul]

theorem boxminus_plus_micro :
    norm3 ((boxminus (plus ({} : ExactState Carrier.trivial) (turnBy 0.000001)) {}).block .rot -
      (turnBy 0.000001).block .rot) ≤ 0.00001 :=
  (boxminus_plus {} (turnBy 0.000001) rotOf_default norm3_turnBy_lt_pi).2.2.2.2.2

/-- A turn by some microradians is lost. -/
theorem boxminus_plus_lost :
    norm3 ((turnBy 0.000001).block .rot) < Real.pi ∧
      boxminus (plus ({} : ExactState Carrier.trivial) (turnBy 0.000001)) {} ≠ turnBy 0.000001 := by
  refine ⟨norm3_turnBy_lt_pi, fun heq => ?_⟩
  have hrot := boxminus_plus_rot (C := Carrier.trivial) rotOf_default (turnBy 0.000001)
  rw [heq, expVec_small norm3_turnBy_micro, logRot_one] at hrot
  have hentry : (0.000001 : ℝ) = 0 := congrFun hrot 0
  norm_num at hentry

end

end FastLivo.Frontend
