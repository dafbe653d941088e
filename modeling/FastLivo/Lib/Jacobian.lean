import Mathlib.Analysis.Calculus.FDeriv.Pi
import Mathlib.Analysis.Calculus.FDeriv.Add
import Mathlib.Analysis.Calculus.FDeriv.Comp
import Mathlib.Analysis.Calculus.FDeriv.Mul
import Mathlib.Analysis.RCLike.Basic
import Mathlib.Data.Matrix.ColumnRowPartitioned
import Mathlib.LinearAlgebra.Matrix.ToLin
import Mathlib.Topology.Algebra.Module.FiniteDimension

/-!
# Jacobians

A matrix is the jacobian of a function of vectors where it is its derivative. The rules are those
of derivatives, in terms of the matrices.
-/

namespace FastLivo.Lib

open Matrix

variable {k m n : Type*} [Fintype n]

/-- A matrix as a continuous linear map. -/
noncomputable def matrixMap (J : Matrix m n ℝ) : (n → ℝ) →L[ℝ] m → ℝ :=
  LinearMap.toContinuousLinearMap J.mulVecLin

@[simp] theorem matrixMap_apply (J : Matrix m n ℝ) (v : n → ℝ) : matrixMap J v = J *ᵥ v := rfl

/-- `J` is the derivative of `f` at `x`. -/
def HasJacobianAt (f : (n → ℝ) → m → ℝ) (J : Matrix m n ℝ) (x : n → ℝ) : Prop :=
  HasFDerivAt f (matrixMap J) x

variable {f g : (n → ℝ) → m → ℝ} {J K : Matrix m n ℝ} {x : n → ℝ}

theorem HasJacobianAt.unique (hJ : HasJacobianAt f J x) (hK : HasJacobianAt f K x) : J = K := by
  classical
  have hmaps : matrixMap J = matrixMap K := HasFDerivAt.unique hJ hK
  apply ext_of_mulVec_single
  intro i
  rw [← matrixMap_apply, hmaps, matrixMap_apply]

theorem HasJacobianAt.const (c : m → ℝ) (x : n → ℝ) : HasJacobianAt (fun _ => c) 0 x := by
  have hzero : matrixMap (0 : Matrix m n ℝ) = 0 := by
    ext v i
    rw [matrixMap_apply, zero_mulVec]
    rfl
  show HasFDerivAt _ _ _
  rw [hzero]
  exact hasFDerivAt_const c x

theorem HasJacobianAt.mulVec_id (A : Matrix m n ℝ) (x : n → ℝ) :
    HasJacobianAt (fun y => A *ᵥ y) A x :=
  (matrixMap A).hasFDerivAt

section Rules

variable [Fintype m]

theorem HasJacobianAt.add (hf : HasJacobianAt f J x) (hg : HasJacobianAt g K x) :
    HasJacobianAt (fun y => f y + g y) (J + K) x := by
  have hsum : matrixMap (J + K) = matrixMap J + matrixMap K := by
    ext v i
    rw [matrixMap_apply, add_mulVec]
    rfl
  show HasFDerivAt _ _ _
  rw [hsum]
  exact HasFDerivAt.add hf hg

theorem HasJacobianAt.comp [Fintype k] {h : (m → ℝ) → k → ℝ} {L : Matrix k m ℝ}
    (hh : HasJacobianAt h L (f x)) (hf : HasJacobianAt f J x) :
    HasJacobianAt (fun y => h (f y)) (L * J) x := by
  have hcomp : matrixMap (L * J) = (matrixMap L).comp (matrixMap J) := by
    ext v i
    rw [matrixMap_apply, ← mulVec_mulVec]
    rfl
  show HasFDerivAt _ _ _
  rw [hcomp]
  exact HasFDerivAt.comp x hh hf

/-- A constant matrix in front. -/
theorem HasJacobianAt.mulVec [Fintype k] (A : Matrix k m ℝ) (hf : HasJacobianAt f J x) :
    HasJacobianAt (fun y => A *ᵥ f y) (A * J) x :=
  (HasJacobianAt.mulVec_id A (f x)).comp hf

theorem HasJacobianAt.add_const (hf : HasJacobianAt f J x) (c : m → ℝ) :
    HasJacobianAt (fun y => f y + c) J x := by
  have hsum := hf.add (HasJacobianAt.const c x)
  rwa [add_zero] at hsum

/-- A function of one value with its row of derivatives. -/
def HasRowAt (f : (n → ℝ) → ℝ) (row : n → ℝ) (x : n → ℝ) : Prop :=
  HasJacobianAt (fun y (_ : Unit) => f y) (of fun _ => row) x

theorem HasJacobianAt.const_smul (c : ℝ) (hf : HasJacobianAt f J x) :
    HasJacobianAt (fun y => c • f y) (c • J) x := by
  have hsmul : matrixMap (c • J) = c • matrixMap J := by
    ext v i
    rw [matrixMap_apply, smul_mulVec]
    rfl
  show HasFDerivAt _ _ _
  rw [hsmul]
  exact HasFDerivAt.const_smul hf c

theorem HasJacobianAt.const_sub (c : m → ℝ) (hf : HasJacobianAt f J x) :
    HasJacobianAt (fun y => c - f y) (-J) x := by
  have hneg : matrixMap (-J) = -matrixMap J := by
    ext v i
    rw [matrixMap_apply, neg_mulVec]
    rfl
  show HasFDerivAt _ _ _
  rw [hneg]
  exact HasFDerivAt.const_sub hf c

theorem HasJacobianAt.sub (hf : HasJacobianAt f J x) (hg : HasJacobianAt g K x) :
    HasJacobianAt (fun y => f y - g y) (J - K) x := by
  have h := hf.add (hg.const_smul (-1))
  simp only [neg_smul, one_smul, ← sub_eq_add_neg] at h
  exact h

/-- The rule of products: a matrix that is differentiable on every vector, applied to a vector. -/
theorem HasJacobianAt.mulVec_mul [Fintype k] {A : (n → ℝ) → Matrix k m ℝ}
    {D : (m → ℝ) → Matrix k n ℝ} (hA : ∀ w, HasJacobianAt (fun y => A y *ᵥ w) (D w) x)
    (hf : HasJacobianAt f J x) :
    HasJacobianAt (fun y => A y *ᵥ f y) (D (f x) + A x * J) x := by
  classical
  have hcols (B : Matrix k m ℝ) (w : m → ℝ) : B *ᵥ w = ∑ j, w j • (B *ᵥ Pi.single j 1) := by
    ext i
    simp only [mulVec_single_one, Finset.sum_apply, Pi.smul_apply, smul_eq_mul, col_apply]
    exact Finset.sum_congr rfl fun j _ => mul_comm _ _
  have hsum : HasFDerivAt (fun y => ∑ j, f y j • (A y *ᵥ Pi.single j 1))
      (∑ j, (f x j • matrixMap (D (Pi.single j 1)) +
        ((ContinuousLinearMap.proj j).comp (matrixMap J)).smulRight (A x *ᵥ Pi.single j 1))) x :=
    HasFDerivAt.fun_sum fun j _ => HasFDerivAt.smul (hasFDerivAt_pi'.mp hf j) (hA (Pi.single j 1))
  have hfixed : HasFDerivAt (fun y => A y *ᵥ f x)
      (∑ j, f x j • matrixMap (D (Pi.single j 1))) x := by
    simp only [hcols _ (f x)]
    exact HasFDerivAt.fun_sum fun j _ => HasFDerivAt.const_smul (hA (Pi.single j 1)) (f x j)
  have hD : matrixMap (D (f x)) = ∑ j, f x j • matrixMap (D (Pi.single j 1)) :=
    HasFDerivAt.unique (hA (f x)) hfixed
  have hmap : matrixMap (D (f x) + A x * J) = ∑ j, (f x j • matrixMap (D (Pi.single j 1)) +
      ((ContinuousLinearMap.proj j).comp (matrixMap J)).smulRight (A x *ᵥ Pi.single j 1)) := by
    rw [Finset.sum_add_distrib, ← hD]
    ext v i
    rw [matrixMap_apply, add_mulVec, ← mulVec_mulVec, hcols (A x) (J *ᵥ v)]
    simp
  show HasFDerivAt _ _ _
  rw [hmap]
  simp only [hcols _ (f _)]
  exact hsum

end Rules

/-- A product with a constant vector, and a constant beside it. -/
theorem HasJacobianAt.dotProduct [Fintype m] (a : m → ℝ) (hf : HasJacobianAt f J x) (d : ℝ) :
    HasRowAt (fun y => a ⬝ᵥ f y + d) (a ᵥ* J) x :=
  (hf.mulVec (of fun (_ : Unit) => a)).add_const fun _ => d

/-- The product of a function with its component along a vector. -/
theorem HasJacobianAt.dot_smul [Fintype m] (hf : HasJacobianAt f J x) (w : m → ℝ) :
    HasJacobianAt (fun y => (w ⬝ᵥ f y) • f y) (vecMulVec (f x) (w ᵥ* J) + (w ⬝ᵥ f x) • J) x := by
  have hscalar : HasFDerivAt (fun y => w ⬝ᵥ f y)
      ((ContinuousLinearMap.proj ()).comp (matrixMap (of fun (_ : Unit) => w ᵥ* J))) x := by
    have h := hasFDerivAt_pi'.mp (hf.dotProduct w 0) ()
    simpa only [add_zero] using h
  have hproduct := HasFDerivAt.smul hscalar hf
  refine HasFDerivAt.congr_fderiv hproduct ?_
  ext v i
  have hrow : (of fun (_ : Unit) => w ᵥ* J) *ᵥ v = fun _ => (w ᵥ* J) ⬝ᵥ v := rfl
  rw [matrixMap_apply, add_mulVec, smul_mulVec, vecMulVec_mulVec]
  simp [hrow, mul_comm, add_comm]

/-- A component. -/
theorem HasJacobianAt.row [Fintype m] [DecidableEq m] (hf : HasJacobianAt f J x) (i : m) :
    HasRowAt (fun y => f y i) (J i) x := by
  have h := hf.dotProduct (Pi.single i 1) 0
  simp only [single_dotProduct, one_mul, add_zero] at h
  rwa [single_one_vecMul] at h

theorem HasJacobianAt.of_rows [Fintype m] (h : ∀ i, HasRowAt (fun y => f y i) (J i) x) :
    HasJacobianAt f J x :=
  hasFDerivAt_pi'.mpr fun i => hasFDerivAt_pi'.mp (h i) ()

/-- Two functions side by side. -/
theorem HasJacobianAt.elim {k : Type*} [Fintype k] [Fintype m] {h : (n → ℝ) → k → ℝ}
    {L : Matrix k n ℝ} (hf : HasJacobianAt f J x) (hh : HasJacobianAt h L x) :
    HasJacobianAt (fun y => Sum.elim (f y) (h y)) (fromRows J L) x := by
  classical
  refine HasJacobianAt.of_rows fun i => ?_
  cases i with
  | inl i => exact hf.row i
  | inr i => exact hh.row i

theorem HasRowAt.sub_const {f : (n → ℝ) → ℝ} {row : n → ℝ} (h : HasRowAt f row x) (c : ℝ) :
    HasRowAt (fun y => f y - c) row x :=
  HasFDerivAt.sub_const (fun _ => c) h

theorem HasRowAt.unique {f : (n → ℝ) → ℝ} {row row' : n → ℝ} (h : HasRowAt f row x)
    (h' : HasRowAt f row' x) : row = row' :=
  congrFun (of.injective (HasJacobianAt.unique h h')) ()

end FastLivo.Lib
