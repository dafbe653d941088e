import Mathlib.LinearAlgebra.UnitaryGroup
import Mathlib.LinearAlgebra.CrossProduct
import Mathlib.Analysis.SpecialFunctions.Complex.Arg
import Mathlib.Analysis.SpecialFunctions.Trigonometric.Inverse
import Mathlib.Algebra.Group.MinimalAxioms
import Mathlib.Algebra.Order.ToIntervalMod

/-!
# Poses

Rotations and rigid motions in exact arithmetic. A rotation is a special orthogonal
matrix, so a pose is well formed by its type; poses form a group.
-/

namespace FastLivo.Esikf

open Matrix

/-- `Eigen::Vector3d` and `gtsam::Point3`. -/
abbrev Vec3 := Fin 3 → ℝ

abbrev Mat3 := Matrix (Fin 3) (Fin 3) ℝ

/-- `gtsam::Rot3`. -/
abbrev Rot3 : Type := specialOrthogonalGroup (Fin 3) ℝ

def Rot3.matrix (R : Rot3) : Mat3 := R.1

@[simp] theorem Rot3.matrix_one : Rot3.matrix 1 = 1 := rfl

@[simp] theorem Rot3.matrix_mul (R S : Rot3) : (R * S).matrix = R.matrix * S.matrix := rfl

@[simp] theorem Rot3.matrix_inv (R : Rot3) : R⁻¹.matrix = R.matrixᵀ := by
  rw [← conjTranspose_eq_transpose_of_trivial]
  rfl

@[simp] theorem Rot3.matrix_mul_transpose (R : Rot3) : R.matrix * R.matrixᵀ = 1 := by
  rw [← R.matrix_inv, ← Rot3.matrix_mul, mul_inv_cancel, Rot3.matrix_one]

@[simp] theorem Rot3.transpose_mul_matrix (R : Rot3) : R.matrixᵀ * R.matrix = 1 := by
  rw [← R.matrix_inv, ← Rot3.matrix_mul, inv_mul_cancel, Rot3.matrix_one]

@[ext] theorem Rot3.ext {R S : Rot3} (h : R.matrix = S.matrix) : R = S := Subtype.ext h

/-- `gtsam::Pose3`. -/
@[ext] structure Pose3 where
  rotation : Rot3
  translation : Vec3

namespace Pose3

/-- `compose`. -/
def compose (a b : Pose3) : Pose3 :=
  ⟨a.rotation * b.rotation, a.translation + a.rotation.matrix *ᵥ b.translation⟩

/-- `inverse`. -/
def inverse (a : Pose3) : Pose3 := ⟨a.rotation⁻¹, -(a.rotation⁻¹.matrix *ᵥ a.translation)⟩

instance : Mul Pose3 := ⟨compose⟩

instance : One Pose3 := ⟨⟨1, 0⟩⟩

instance : Inv Pose3 := ⟨inverse⟩

@[simp] theorem one_rotation : (1 : Pose3).rotation = 1 := rfl

@[simp] theorem one_translation : (1 : Pose3).translation = 0 := rfl

@[simp] theorem mul_rotation (a b : Pose3) : (a * b).rotation = a.rotation * b.rotation := rfl

@[simp] theorem mul_translation (a b : Pose3) :
    (a * b).translation = a.translation + a.rotation.matrix *ᵥ b.translation := rfl

@[simp] theorem inv_rotation (a : Pose3) : a⁻¹.rotation = a.rotation⁻¹ := rfl

@[simp] theorem inv_translation (a : Pose3) :
    a⁻¹.translation = -(a.rotation⁻¹.matrix *ᵥ a.translation) := rfl

instance : Group Pose3 :=
  Group.ofLeftAxioms
    (fun a b c => by
      ext1
      · exact mul_assoc _ _ _
      · simp [mulVec_add, mulVec_mulVec, add_assoc])
    (fun a => by ext1 <;> simp)
    (fun a => by
      ext1
      · exact inv_mul_cancel _
      · simp)

/-- `between`. -/
def between (a b : Pose3) : Pose3 := a⁻¹ * b

end Pose3

/-! ## SO(3) and angles -/

/-- `skew`. -/
def skew (v : Vec3) : Mat3 :=
  !![0, -v 2, v 1;
     v 2, 0, -v 0;
     -v 1, v 0, 0]

/-- The vector of twice the skew part of a matrix. -/
def skewPart (A : Mat3) : Vec3 := ![A 2 1 - A 1 2, A 0 2 - A 2 0, A 1 0 - A 0 1]

/-- `v[0]`. -/
def xCoord (v : Vec3) : ℝ := v 0

/-- `v[1]`. -/
def yCoord (v : Vec3) : ℝ := v 1

/-- `v[2]`. -/
def zCoord (v : Vec3) : ℝ := v 2

/-- `v[2] = z`. -/
def setZ (v : Vec3) (z : ℝ) : Vec3 := ![v 0, v 1, z]

theorem skew_mulVec (v w : Vec3) : skew v *ᵥ w = v ⨯₃ w := by
  ext i
  fin_cases i <;> simp [skew, mulVec, dotProduct, Fin.sum_univ_three, cross_apply] <;> ring

/-- `kPi`. -/
noncomputable def kPi : ℝ := 3.14159265358979323846

theorem two_kPi_pos : 0 < 2 * kPi := by
  unfold kPi
  norm_num

/-- `wrapAngle`. The loops end at the first value that is not above `kPi`, or not below
`-kPi`. -/
noncomputable def wrapAngle (angle : ℝ) : ℝ :=
  if kPi < angle then toIocMod two_kPi_pos (-kPi) angle
  else if angle < -kPi then toIcoMod two_kPi_pos (-kPi) angle
  else angle

/-- One pass of the first loop. -/
theorem wrapAngle_of_gt {angle : ℝ} (h : kPi < angle) :
    wrapAngle angle = wrapAngle (angle - 2 * kPi) := by
  have hstep : toIocMod two_kPi_pos (-kPi) angle = toIocMod two_kPi_pos (-kPi) (angle - 2 * kPi) :=
    (toIocMod_sub two_kPi_pos (-kPi) angle).symm
  have hlow : ¬angle - 2 * kPi < -kPi := by linarith
  rw [wrapAngle, wrapAngle, if_pos h, if_neg hlow, hstep]
  split
  · rfl
  · rename_i hhigh
    refine (toIocMod_eq_self two_kPi_pos).mpr ⟨by linarith, ?_⟩
    linarith [not_lt.mp hhigh]

/-- One pass of the second loop. -/
theorem wrapAngle_of_lt {angle : ℝ} (h : angle < -kPi) :
    wrapAngle angle = wrapAngle (angle + 2 * kPi) := by
  have hpos := two_kPi_pos
  have hstep : toIcoMod two_kPi_pos (-kPi) angle = toIcoMod two_kPi_pos (-kPi) (angle + 2 * kPi) :=
    (toIcoMod_add_right two_kPi_pos (-kPi) angle).symm
  have hhigh : ¬kPi < angle + 2 * kPi := by linarith
  have hhigh' : ¬kPi < angle := by linarith
  rw [wrapAngle, wrapAngle, if_neg hhigh, if_neg hhigh', if_pos h, hstep]
  split
  · rfl
  · rename_i hlow
    refine (toIcoMod_eq_self two_kPi_pos).mpr ⟨not_lt.mp hlow, ?_⟩
    linarith

/-- `std::atan2`. -/
noncomputable def atan2 (y x : ℝ) : ℝ := Complex.arg ⟨x, y⟩

/-- `yawOf`. -/
noncomputable def yawOf (rotation : Rot3) : ℝ := atan2 (rotation.matrix 1 0) (rotation.matrix 0 0)

/-- A congruence turns the axis of a skew matrix by the adjugate. -/
theorem transpose_mul_skew_mul (A : Mat3) (v : Vec3) :
    Aᵀ * skew v * A = skew (A.adjugate *ᵥ v) := by
  ext i j
  fin_cases i <;> fin_cases j <;>
    simp [skew, mul_apply, mulVec, dotProduct, Fin.sum_univ_three, adjugate_fin_three] <;> ring

theorem Rot3.det_matrix (R : Rot3) : R.matrix.det = 1 :=
  (mem_specialOrthogonalGroup_iff.mp R.2).2

theorem Rot3.adjugate_matrix (R : Rot3) : R.matrix.adjugate = R.matrixᵀ :=
  calc R.matrix.adjugate
      = R.matrix.adjugate * (R.matrix * R.matrixᵀ) := by
        rw [R.matrix_mul_transpose, Matrix.mul_one]
    _ = R.matrixᵀ := by
        rw [← Matrix.mul_assoc, adjugate_mul, R.det_matrix, one_smul, Matrix.one_mul]

theorem skew_transpose_mulVec (R : Rot3) (v : Vec3) :
    skew (R.matrixᵀ *ᵥ v) = R.matrixᵀ * skew v * R.matrix := by
  rw [transpose_mul_skew_mul, R.adjugate_matrix]

theorem mem_rot3 {A : Mat3} (hinv : A * Aᵀ = 1) (hdet : A.det = 1) :
    A ∈ specialOrthogonalGroup (Fin 3) ℝ :=
  mem_specialOrthogonalGroup_iff.mpr ⟨(mem_orthogonalGroup_iff (Fin 3) ℝ).mpr hinv, hdet⟩

/-- `Eigen::AngleAxisd` about `UnitX`. -/
noncomputable def unitX (angle : ℝ) : Rot3 :=
  ⟨!![1, 0, 0; 0, Real.cos angle, -Real.sin angle; 0, Real.sin angle, Real.cos angle], by
    have hcs := Real.cos_sq_add_sin_sq angle
    apply mem_rot3
    · ext i j
      fin_cases i <;> fin_cases j <;> simp [mul_apply, Fin.sum_univ_three] <;> linarith
    · simp [det_fin_three]
      linarith⟩

/-- `Eigen::AngleAxisd` about `UnitY`. -/
noncomputable def unitY (angle : ℝ) : Rot3 :=
  ⟨!![Real.cos angle, 0, Real.sin angle; 0, 1, 0; -Real.sin angle, 0, Real.cos angle], by
    have hcs := Real.cos_sq_add_sin_sq angle
    apply mem_rot3
    · ext i j
      fin_cases i <;> fin_cases j <;> simp [mul_apply, Fin.sum_univ_three] <;> linarith
    · simp [det_fin_three]
      linarith⟩

/-- `Eigen::AngleAxisd` about `UnitZ`. -/
noncomputable def unitZ (angle : ℝ) : Rot3 :=
  ⟨!![Real.cos angle, -Real.sin angle, 0; Real.sin angle, Real.cos angle, 0; 0, 0, 1], by
    have hcs := Real.cos_sq_add_sin_sq angle
    apply mem_rot3
    · ext i j
      fin_cases i <;> fin_cases j <;> simp [mul_apply, Fin.sum_univ_three] <;> linarith
    · simp [det_fin_three]
      linarith⟩

/-- `replaceYaw`. -/
noncomputable def replaceYaw (rotation : Rot3) (yaw : ℝ) : Rot3 :=
  let matrix := rotation.matrix
  let pitch := Real.arcsin (max (-1) (min (-matrix 2 0) 1))
  let roll := atan2 (matrix 2 1) (matrix 2 2)
  unitZ yaw * unitY pitch * unitX roll

end FastLivo.Esikf
