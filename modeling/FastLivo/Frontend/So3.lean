import FastLivo.Esikf.Pose

/-!
# `so3_math.h`

Exponential and logarithm of rotations as the front end computes them: the formula of
Rodrigues, with cut-offs at small angles. `SKEW_SYM_MATRX` is `skew`.
-/

namespace FastLivo.Frontend

open Esikf Matrix

noncomputable section

/-- `norm()` of a vector. -/
def norm3 (v : Vec3) : ℝ := √(v ⬝ᵥ v)

/-- Rotation about a unit axis. -/
def rodrigues (rAxis : Vec3) (rAng : ℝ) : Mat3 :=
  1 + Real.sin rAng • skew rAxis + (1 - Real.cos rAng) • (skew rAxis * skew rAxis)

/-- `Exp(ang_vel, dt)`. -/
def expVel (angVel : Vec3) (dt : ℝ) : Mat3 :=
  if 0.0000001 < norm3 angVel then rodrigues ((norm3 angVel)⁻¹ • angVel) (norm3 angVel * dt)
  else 1

/-- `Exp(v1, v2, v3)`. -/
def expVec (v : Vec3) : Mat3 :=
  if 0.00001 < norm3 v then rodrigues ((norm3 v)⁻¹ • v) (norm3 v) else 1

/-- `Log`. -/
def logRot (R : Mat3) : Vec3 :=
  let theta := if 3.0 - 1e-6 < R.trace then 0 else Real.arccos (0.5 * (R.trace - 1))
  if |theta| < 0.001 then (0.5 : ℝ) • skewPart R
  else (0.5 * theta / Real.sin theta) • skewPart R

theorem norm3_sq (v : Vec3) : norm3 v * norm3 v = v ⬝ᵥ v := by
  apply Real.mul_self_sqrt
  simp only [dotProduct]
  exact Finset.sum_nonneg fun i _ => mul_self_nonneg (v i)

theorem unit_axis {v : Vec3} (h : 0 < norm3 v) :
    ((norm3 v)⁻¹ • v) ⬝ᵥ ((norm3 v)⁻¹ • v) = 1 := by
  rw [smul_dotProduct, dotProduct_smul, ← norm3_sq, smul_eq_mul, smul_eq_mul]
  field_simp

theorem skew_cube {v : Vec3} (h : v ⬝ᵥ v = 1) : skew v * skew v * skew v = -skew v := by
  rw [dotProduct, Fin.sum_univ_three] at h
  ext i j
  fin_cases i <;> fin_cases j <;>
    simp only [skew, mul_apply, Fin.sum_univ_three] <;> simp <;> grind

theorem rodrigues_transpose (v : Vec3) (a : ℝ) :
    (rodrigues v a)ᵀ = 1 - Real.sin a • skew v + (1 - Real.cos a) • (skew v * skew v) := by
  have ht : (skew v)ᵀ = -skew v := by
    ext i j
    fin_cases i <;> fin_cases j <;> simp [skew]
  rw [rodrigues, transpose_add, transpose_add, transpose_smul, transpose_smul, transpose_mul,
    transpose_one, ht, neg_mul_neg, smul_neg, ← sub_eq_add_neg]

/-- A rotation about a unit axis is orthogonal. -/
theorem rodrigues_mul_transpose {v : Vec3} (h : v ⬝ᵥ v = 1) (a : ℝ) :
    rodrigues v a * (rodrigues v a)ᵀ = 1 := by
  rw [rodrigues_transpose, rodrigues]
  generalize hK : skew v = K
  have hcube : K * K * K = -K := by rw [← hK, skew_cube h]
  have hfourth : K * K * (K * K) = -(K * K) := by rw [← Matrix.mul_assoc, hcube, neg_mul]
  have hcube' : K * (K * K) = -K := by rw [← Matrix.mul_assoc, hcube]
  have hcs := Real.cos_sq_add_sin_sq a
  generalize Real.sin a = s at hcs ⊢
  generalize Real.cos a = c at hcs ⊢
  simp only [Matrix.add_mul, Matrix.mul_add, Matrix.mul_sub, smul_mul_assoc, mul_smul_comm,
    Matrix.one_mul, Matrix.mul_one, hcube, hcube', hfourth, smul_neg]
  have hzero : (1 - c) + (1 - c) - s * s - (1 - c) * (1 - c) = 0 := by linarith
  calc _ = 1 + ((1 - c) + (1 - c) - s * s - (1 - c) * (1 - c)) • (K * K) := by module
    _ = 1 := by rw [hzero, zero_smul, add_zero]

theorem expVel_mul_transpose (angVel : Vec3) (dt : ℝ) :
    expVel angVel dt * (expVel angVel dt)ᵀ = 1 := by
  unfold expVel
  split
  · rename_i h
    exact rodrigues_mul_transpose (unit_axis (lt_trans (by norm_num) h)) _
  · rw [transpose_one, Matrix.one_mul]

end

end FastLivo.Frontend
