import FastLivo.Lib.Jacobian
import FastLivo.Esikf.Numerics
import FastLivo.Frontend.StatesGroup
import Mathlib.Analysis.Calculus.MeanValue

/-!
# The error of a state

`operator+=` turns the attitude by the exponential of its error. Rodrigues' formula is that
exponential, and the code leaves the attitude as it is where the error is below its cut-off, so
that only the exponential itself has a derivative there.
-/

namespace FastLivo.Frontend

open Lib Esikf Matrix NormedSpace

noncomputable section

/-! ## Rodrigues' formula -/

section Rodrigues

theorem rodrigues_zero (v : Vec3) : rodrigues v 0 = 1 := by
  simp [rodrigues]

/-- The formula solves the differential equation of the exponential. -/
theorem skew_mul_rodrigues {v : Vec3} (h : v ⬝ᵥ v = 1) (a : ℝ) :
    skew v * rodrigues v a = Real.cos a • skew v + Real.sin a • (skew v * skew v) := by
  have hcube : skew v * (skew v * skew v) = -skew v := by rw [← Matrix.mul_assoc, skew_cube h]
  unfold rodrigues
  rw [Matrix.mul_add, Matrix.mul_add, Matrix.mul_one, mul_smul_comm, mul_smul_comm, hcube]
  module

open scoped Matrix.Norms.Operator in
theorem hasDerivAt_rodrigues (v : Vec3) (a : ℝ) :
    HasDerivAt (rodrigues v) (Real.cos a • skew v + Real.sin a • (skew v * skew v)) a := by
  have hsin := (Real.hasDerivAt_sin a).smul_const (skew v)
  have hcos := ((Real.hasDerivAt_cos a).const_sub 1).smul_const (skew v * skew v)
  rw [neg_neg] at hcos
  exact (hsin.const_add 1).add hcos

open scoped Matrix.Norms.Operator in
/-- Rodrigues' formula is the exponential: against the exponential of the opposite angle it is
constant. -/
theorem rodrigues_eq_exp {v : Vec3} (h : v ⬝ᵥ v = 1) (a : ℝ) : rodrigues v a = exp (a • skew v) := by
  have hderiv (t : ℝ) : HasDerivAt (fun t : ℝ => exp (t • -skew v) * rodrigues v t) 0 t := by
    have hmul := (hasDerivAt_exp_smul_const (-skew v) t).mul (hasDerivAt_rodrigues v t)
    have hzero : exp (t • -skew v) * -skew v * rodrigues v t + exp (t • -skew v) *
        (Real.cos t • skew v + Real.sin t • (skew v * skew v)) = 0 := by
      rw [← skew_mul_rodrigues h, Matrix.mul_assoc, ← Matrix.mul_add, neg_mul, neg_add_cancel,
        Matrix.mul_zero]
    exact hmul.congr_deriv hzero
  have hconst : exp (a • -skew v) * rodrigues v a = 1 := by
    have heq := is_const_of_deriv_eq_zero (fun t => (hderiv t).differentiableAt)
      (fun t => (hderiv t).deriv) a 0
    rwa [zero_smul, exp_zero, rodrigues_zero, one_mul] at heq
  have hinv : exp (a • skew v) * exp (a • -skew v) = 1 := by
    rw [smul_neg, Matrix.exp_neg]
    exact mul_nonsing_inv _ ((isUnit_iff_isUnit_det _).mp (Matrix.isUnit_exp _))
  calc rodrigues v a = exp (a • skew v) * exp (a • -skew v) * rodrigues v a := by
        rw [hinv, Matrix.one_mul]
    _ = exp (a • skew v) := by rw [Matrix.mul_assoc, hconst, Matrix.mul_one]

theorem skew_smul (a : ℝ) (v : Vec3) : skew (a • v) = a • skew v := skewLinear.map_smul a v

/-- `Exp(v1, v2, v3)` above its cut-off. -/
theorem expVec_eq_expSkew {v : Vec3} (h : v = 0 ∨ 0.00001 < norm3 v) :
    expVec v = (expSkew v).matrix := by
  rcases h with rfl | h
  · have hsmall : ¬ 0.00001 < norm3 0 := by norm_num [norm3]
    rw [expVec, if_neg hsmall, expSkew_zero, Rot3.matrix_one]
  · have hpos : 0 < norm3 v := lt_trans (by norm_num) h
    rw [expVec, if_pos h, rodrigues_eq_exp (unit_axis hpos), ← skew_smul, smul_smul,
      mul_inv_cancel₀ hpos.ne', one_smul]
    rfl

/-- `Exp(ang_vel, dt)` above its cut-off. -/
theorem expVel_eq_expSkew {w : Vec3} (h : w = 0 ∨ 0.0000001 < norm3 w) (dt : ℝ) :
    expVel w dt = (expSkew (dt • w)).matrix := by
  rcases h with rfl | h
  · have hsmall : ¬ 0.0000001 < norm3 0 := by norm_num [norm3]
    rw [expVel, if_neg hsmall, smul_zero, expSkew_zero, Rot3.matrix_one]
  · have hpos : 0 < norm3 w := lt_trans (by norm_num) h
    have hangle : (norm3 w * dt) • (norm3 w)⁻¹ • w = dt • w := by
      rw [smul_smul, mul_right_comm, mul_inv_cancel₀ hpos.ne', one_mul]
    rw [expVel, if_pos h, rodrigues_eq_exp (unit_axis hpos), ← skew_smul, hangle]
    rfl

end Rodrigues

/-! ## Small rotations -/

section Rotations

theorem skew_mulVec_swap (v w : Vec3) : skew v *ᵥ w = -skew w *ᵥ v := by
  rw [skew_mulVec, neg_mulVec, skew_mulVec, cross_anticomm]

/-- The exponential turns a vector by the cross product. -/
theorem hasJacobianAt_expSkew (w : Vec3) :
    HasJacobianAt (fun v => (expSkew v).matrix *ᵥ w) (-skew w) 0 := by
  refine hasFDerivAt_iff_isLittleO_nhds_zero.mpr ((expSkew_deriv w).congr_left fun v => ?_)
  rw [zero_add, expSkew_zero, Rot3.matrix_one, one_mulVec, matrixMap_apply, ← skew_mulVec_swap,
    skew_mulVec]

theorem expSkew_transpose (v : Vec3) : (expSkew v).matrixᵀ = (expSkew (-v)).matrix := by
  have hneg : skew (-v) = -skew v := skewLinear.map_neg v
  show (exp (skew v))ᵀ = exp (skew (-v))
  rw [hneg, ← exp_transpose, skew_transpose]

theorem hasJacobianAt_expSkew_transpose (w : Vec3) :
    HasJacobianAt (fun v => (expSkew v).matrixᵀ *ᵥ w) (skew w) 0 := by
  have hneg : HasJacobianAt (fun v : Vec3 => -v) (-1) 0 := by
    have h := HasJacobianAt.mulVec_id (-1 : Mat3) 0
    simpa only [neg_mulVec, one_mulVec] using h
  have houter : HasJacobianAt (fun v => (expSkew v).matrix *ᵥ w) (-skew w) (-0) := by
    rw [neg_zero]
    exact hasJacobianAt_expSkew w
  have hcomp := houter.comp hneg
  simp only [← expSkew_transpose] at hcomp
  rwa [neg_mul_neg, Matrix.mul_one] at hcomp

end Rotations

/-! ## The error of a state -/

section Error

variable {C : Carrier}

/-- `operator+=` with the exponential itself. -/
def retract (s : ExactState C) (stateAdd : StateVector) : ExactState C :=
  let rotEnd : Mat3 := s.rotEnd
  { boxplus s stateAdd with rotEnd := rotEnd * (expSkew (stateAdd.block .rot)).matrix }

@[simp] theorem rotOf_retract (s : ExactState C) (x : StateVector) :
    rotOf (retract s x) = rotOf s * (expSkew (x.block .rot)).matrix := rfl

@[simp] theorem posOf_retract (s : ExactState C) (x : StateVector) :
    posOf (retract s x) = posOf s + x.block .pos := rfl

/-- The code injects an error by the exponential, up to its cut-off. -/
theorem boxplus_eq_retract (s : ExactState C) {x : StateVector}
    (h : x.block .rot = 0 ∨ 0.00001 < norm3 (x.block .rot)) : boxplus s x = retract s x := by
  unfold retract boxplus
  rw [expVec_eq_expSkew h]

/-- The columns of a block of the error. -/
def blockCols (b : StateBlock) : Matrix (Fin 3) StateIndex ℝ :=
  (1 : StateMatrix).submatrix (fun i => some (b, i)) id

theorem blockCols_mulVec (b : StateBlock) (x : StateVector) : blockCols b *ᵥ x = x.block b := by
  ext i
  simp [blockCols, StateVector.block, mulVec, dotProduct, one_apply]

theorem padCols_fromCols {m : Type*} (A B : Matrix m (Fin 3) ℝ) :
    padCols poseIndex (fromCols A B) = A * blockCols .rot + B * blockCols .pos := by
  have hrows : (1 : StateMatrix).submatrix poseIndex id =
      fromRows (blockCols .rot) (blockCols .pos) := by
    ext c j
    cases c <;> rfl
  rw [padCols, hrows, fromCols_mul_fromRows]

open Filter Topology in
/-- Near zero the code leaves the attitude as it is. -/
theorem expVec_eventually_one : ∀ᶠ x : StateVector in 𝓝 0, expVec (x.block .rot) = 1 := by
  have hcont : Continuous fun x : StateVector => norm3 (x.block .rot) := by
    unfold norm3 StateVector.block dotProduct
    fun_prop
  have hzero : norm3 (StateVector.block 0 .rot) < 0.00001 := by
    have h : StateVector.block 0 .rot = 0 := rfl
    norm_num [h, norm3]
  filter_upwards [hcont.continuousAt.eventually_lt_const hzero] with x hx
  rw [expVec, if_neg hx.not_gt]

theorem hasJacobianAt_block (b : StateBlock) (x : StateVector) :
    HasJacobianAt (fun x => StateVector.block x b) (blockCols b) x := by
  have h := HasJacobianAt.mulVec_id (blockCols b) x
  simpa only [blockCols_mulVec] using h

section Motion

variable (s : ExactState C)

/-- A vector of the body, in the world. -/
theorem hasJacobianAt_rotOf (q : Vec3) :
    HasJacobianAt (fun x => rotOf (retract s x) *ᵥ q) (-(rotOf s * skew q) * blockCols .rot) 0 := by
  have hturn : HasJacobianAt (fun v => (expSkew v).matrix *ᵥ q) (-skew q)
      (StateVector.block 0 .rot) := hasJacobianAt_expSkew q
  have h := (hturn.comp (hasJacobianAt_block .rot 0)).mulVec (rotOf s)
  simp only [mulVec_mulVec] at h
  rwa [← Matrix.mul_assoc, Matrix.mul_neg] at h

/-- A vector of the world, in the body. -/
theorem hasJacobianAt_rotOf_transpose (w : Vec3) :
    HasJacobianAt (fun x => (rotOf (retract s x))ᵀ *ᵥ w)
      (skew ((rotOf s)ᵀ *ᵥ w) * blockCols .rot) 0 := by
  have hturn : HasJacobianAt (fun v => (expSkew v).matrixᵀ *ᵥ ((rotOf s)ᵀ *ᵥ w))
      (skew ((rotOf s)ᵀ *ᵥ w)) (StateVector.block 0 .rot) := hasJacobianAt_expSkew_transpose _
  have h := hturn.comp (hasJacobianAt_block .rot 0)
  simp only [mulVec_mulVec, ← transpose_mul] at h
  exact h

theorem hasJacobianAt_posOf : HasJacobianAt (fun x => posOf (retract s x)) (blockCols .pos) 0 := by
  have h := (hasJacobianAt_block .pos 0).add_const (posOf s)
  simp only [add_comm _ (posOf s)] at h
  exact h

/-- A point fixed to the body. -/
theorem hasJacobianAt_point (q : Vec3) :
    HasJacobianAt (fun x => rotOf (retract s x) *ᵥ q + posOf (retract s x))
      (padCols poseIndex (fromCols (-(rotOf s * skew q)) 1)) 0 := by
  have h := (hasJacobianAt_rotOf s q).add (hasJacobianAt_posOf s)
  rwa [← Matrix.one_mul (blockCols .pos), ← padCols_fromCols] at h

end Motion

end Error

end

end FastLivo.Frontend
