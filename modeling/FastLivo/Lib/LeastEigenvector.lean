import FastLivo.Lib.Jacobian
import Mathlib.Analysis.Calculus.FDeriv.Pow
import Mathlib.Analysis.SpecialFunctions.Sqrt
import Mathlib.LinearAlgebra.Matrix.NonsingularInverse

/-!
# The eigenvector of a least eigenvalue

An eigenvector of a symmetric matrix that belongs to a simple least eigenvalue depends on the
matrix as smoothly as the matrix does on its parameters, once its sign is chosen. The derivative
divides by the gaps to the other eigenvalues.
-/

namespace FastLivo.Lib

open Matrix Filter Topology Asymptotics

variable {k n : Type*} [Fintype k] [Fintype n] [DecidableEq n]

/-- The rows of `U` are an orthonormal basis of eigenvectors. -/
structure EigenBasis (M U : Matrix n n ℝ) (eig : n → ℝ) : Prop where
  orthonormal : U * Uᵀ = 1
  eigen : ∀ i, M *ᵥ U i = eig i • U i

/-- A unit eigenvector of a least eigenvalue. -/
structure LeastEigenvector (M : Matrix n n ℝ) (v : n → ℝ) (eig : ℝ) : Prop where
  unit : v ⬝ᵥ v = 1
  eigen : M *ᵥ v = eig • v
  least : ∀ w, w ⬝ᵥ w = 1 → eig ≤ w ⬝ᵥ (M *ᵥ w)

omit [DecidableEq n] in
theorem LeastEigenvector.neg {M : Matrix n n ℝ} {v : n → ℝ} {eig : ℝ}
    (h : LeastEigenvector M v eig) : LeastEigenvector M (-v) eig := by
  constructor
  · rw [neg_dotProduct_neg]
    exact h.unit
  · rw [mulVec_neg, h.eigen, smul_neg]
  · exact h.least

/-- One direction alone, with its opposite, has the least value of the quadratic form. -/
def UniqueLeast (M : Matrix n n ℝ) : Prop :=
  ∃ u, u ⬝ᵥ u = 1 ∧ ∀ v, v ⬝ᵥ v = 1 → v ≠ u → v ≠ -u → u ⬝ᵥ (M *ᵥ u) < v ⬝ᵥ (M *ᵥ v)

variable {M U : Matrix n n ℝ} {eig : n → ℝ} {i : n}

namespace EigenBasis

variable (h : EigenBasis M U eig)
include h

theorem transpose_mul : Uᵀ * U = 1 := mul_eq_one_comm.mp h.orthonormal

theorem row_dot (i j : n) : U i ⬝ᵥ U j = if i = j then 1 else 0 := by
  have hentry := congrFun (congrFun h.orthonormal i) j
  rw [one_apply] at hentry
  exact hentry

/-- Every vector is the sum of its components. -/
theorem expand (w : n → ℝ) : Uᵀ *ᵥ (U *ᵥ w) = w := by
  rw [mulVec_mulVec, h.transpose_mul, one_mulVec]

theorem dot_self (w : n → ℝ) : w ⬝ᵥ w = ∑ m, (U *ᵥ w) m ^ 2 := by
  calc w ⬝ᵥ w = w ⬝ᵥ (Uᵀ *ᵥ (U *ᵥ w)) := by rw [h.expand]
    _ = (U *ᵥ w) ⬝ᵥ (U *ᵥ w) := by rw [dotProduct_mulVec, vecMul_transpose]
    _ = ∑ m, (U *ᵥ w) m ^ 2 := Finset.sum_congr rfl fun m _ => (sq _).symm

theorem mul_transpose : M * Uᵀ = Uᵀ * diagonal eig := by
  ext a m
  have hcol := congrFun (h.eigen m) a
  rw [mul_diagonal]
  exact hcol.trans (mul_comm _ _)

/-- The quadratic form in the components. -/
theorem quadratic (w : n → ℝ) : w ⬝ᵥ (M *ᵥ w) = ∑ m, eig m * (U *ᵥ w) m ^ 2 := by
  calc w ⬝ᵥ (M *ᵥ w) = w ⬝ᵥ (M *ᵥ (Uᵀ *ᵥ (U *ᵥ w))) := by rw [h.expand]
    _ = (U *ᵥ w) ⬝ᵥ (diagonal eig *ᵥ (U *ᵥ w)) := by
        rw [mulVec_mulVec, h.mul_transpose, ← mulVec_mulVec, dotProduct_mulVec, vecMul_transpose]
    _ = ∑ m, eig m * (U *ᵥ w) m ^ 2 := by
        refine Finset.sum_congr rfl fun m _ => ?_
        rw [mulVec_diagonal]
        ring

/-- What a component adds to the least value. -/
theorem le_of_component (hleast : ∀ m, eig i ≤ eig m) {w : n → ℝ} (hw : w ⬝ᵥ w = 1) (j : n) :
    eig i + (eig j - eig i) * (U *ᵥ w) j ^ 2 ≤ w ⬝ᵥ (M *ᵥ w) := by
  have hsum : w ⬝ᵥ (M *ᵥ w) = eig i + ∑ m, (eig m - eig i) * (U *ᵥ w) m ^ 2 := by
    have hunit := h.dot_self w
    rw [hw] at hunit
    simp only [sub_mul, Finset.sum_sub_distrib, ← Finset.mul_sum]
    rw [← hunit, h.quadratic, mul_one]
    ring
  rw [hsum]
  have hterms : ∀ m ∈ Finset.univ, 0 ≤ (eig m - eig i) * (U *ᵥ w) m ^ 2 := fun m _ =>
    mul_nonneg (sub_nonneg.mpr (hleast m)) (sq_nonneg _)
  exact add_le_add_right (Finset.single_le_sum hterms (Finset.mem_univ j)) _

/-- A row that belongs to a least eigenvalue. -/
theorem leastEigenvector (hleast : ∀ m, eig i ≤ eig m) : LeastEigenvector M (U i) (eig i) := by
  refine ⟨by rw [h.row_dot, if_pos rfl], h.eigen i, fun w hw => ?_⟩
  have hbound := h.le_of_component hleast hw i
  rwa [sub_self, zero_mul, add_zero] at hbound

theorem quadratic_row (j : n) : U j ⬝ᵥ (M *ᵥ U j) = eig j := by
  rw [h.eigen, dotProduct_smul, h.row_dot, if_pos rfl, smul_eq_mul, mul_one]

/-- A unit vector with a single component is the row, or its opposite. -/
theorem eq_row_or_neg {v : n → ℝ} (hv : v ⬝ᵥ v = 1) (hzero : ∀ j, j ≠ i → (U *ᵥ v) j = 0) :
    v = U i ∨ v = -U i := by
  have hcomponents : U *ᵥ v = Pi.single i ((U *ᵥ v) i) := by
    funext j
    by_cases hj : j = i
    · rw [hj, Pi.single_eq_same]
    · rw [hzero j hj, Pi.single_eq_of_ne hj]
  have hrow : v = (U *ᵥ v) i • U i := by
    calc v = Uᵀ *ᵥ (U *ᵥ v) := (h.expand v).symm
      _ = Uᵀ *ᵥ Pi.single i ((U *ᵥ v) i) := by rw [← hcomponents]
      _ = (U *ᵥ v) i • U i := by
          rw [mulVec_single, op_smul_eq_smul]
          rfl
  have hsquare : (U *ᵥ v) i ^ 2 = 1 := by
    have hsum := h.dot_self v
    rw [hv, Finset.sum_eq_single i] at hsum
    · exact hsum.symm
    · intro j _ hj
      rw [hzero j hj, zero_pow two_ne_zero]
    · intro hnot
      exact absurd (Finset.mem_univ i) hnot
  rcases sq_eq_one_iff.mp hsquare with hone | hone
  · left
    rw [hrow, hone, one_smul]
  · right
    rw [hrow, hone, neg_smul, one_smul]

/-- A direction is least alone exactly when its eigenvalue is simple. -/
theorem uniqueLeast_iff (hleast : ∀ m, eig i ≤ eig m) :
    UniqueLeast M ↔ ∀ m, m ≠ i → eig i < eig m := by
  constructor
  · rintro ⟨u, hu, hstrict⟩ m hm
    refine lt_of_le_of_ne (hleast m) fun hequal => ?_
    -- Two rows have the least value, and both are the direction or its opposite.
    have hvalue : ∀ j, eig j = eig i → U j = u ∨ U j = -u := by
      intro j hj
      by_contra hne
      obtain ⟨hpos, hneg⟩ := not_or.mp hne
      have hlt := hstrict (U j) (by rw [h.row_dot, if_pos rfl]) hpos hneg
      rw [h.quadratic_row, hj] at hlt
      exact absurd ((h.leastEigenvector hleast).least u hu) (not_le.mpr hlt)
    have hdot := h.row_dot m i
    rw [if_neg hm] at hdot
    rcases hvalue m hequal.symm with h1 | h1 <;> rcases hvalue i rfl with h2 | h2 <;>
      · rw [h1, h2] at hdot
        simp only [dotProduct_neg, neg_dotProduct, neg_neg, hu] at hdot
        norm_num at hdot
  · intro hgap
    refine ⟨U i, by rw [h.row_dot, if_pos rfl], fun v hv hpos hneg => ?_⟩
    rw [h.quadratic_row]
    by_contra hnot
    have hzero : ∀ j, j ≠ i → (U *ᵥ v) j = 0 := by
      intro j hj
      have hbound := (h.le_of_component hleast hv j).trans (not_lt.mp hnot)
      have hfactor := sub_pos.mpr (hgap j hj)
      have hsquare : (U *ᵥ v) j ^ 2 ≤ 0 := by
        by_contra hlt
        have := mul_pos hfactor (not_le.mp hlt)
        linarith
      exact pow_eq_zero_iff two_ne_zero |>.mp (hsquare.antisymm (sq_nonneg _))
    rcases h.eq_row_or_neg hv hzero with hrow | hrow
    · exact hpos hrow
    · exact hneg hrow

end EigenBasis

/-! ## Dependence on parameters -/

/-- A product with a factor that is only continuous, where the other one vanishes. -/
theorem hasFDerivAt_mul_of_zero {E : Type*} [NormedAddCommGroup E] [NormedSpace ℝ E] {f g : E → ℝ}
    {g' : E →L[ℝ] ℝ} {x : E} (hf : ContinuousAt f x) (hg : HasFDerivAt g g' x) (hzero : g x = 0) :
    HasFDerivAt (fun y => f y * g y) (f x • g') x := by
  rw [hasFDerivAt_iff_isLittleO] at hg ⊢
  have hrest : (fun y => f y * (g y - g x - g' (y - x))) =o[𝓝 x] fun y => y - x := by
    have hbounded : f =O[𝓝 x] fun _ => (1 : ℝ) := hf.isBigO_one ℝ
    simpa using (hbounded.mul_isLittleO hg.norm_right).norm_right
  have hmoved : (fun y => (f y - f x) * g' (y - x)) =o[𝓝 x] fun y => y - x := by
    have hsmall : (fun y => f y - f x) =o[𝓝 x] fun _ => (1 : ℝ) := by
      rw [isLittleO_one_iff]
      have h := hf.tendsto.sub_const (f x)
      rwa [sub_self] at h
    simpa using (hsmall.mul_isBigO (g'.isBigO_sub (𝓝 x) x).norm_right).norm_right
  refine (hrest.add hmoved).congr_left fun y => ?_
  have hmap : (f x • g') (y - x) = f x * g' (y - x) := rfl
  rw [hzero, hmap]
  ring

section Bounds

variable {n : Type*} [Fintype n]

/-- The entries of a unit vector are at most one. -/
theorem abs_le_one_of_unit {w : n → ℝ} (hw : w ⬝ᵥ w = 1) (a : n) : |w a| ≤ 1 := by
  have hsquare : w a * w a ≤ w ⬝ᵥ w :=
    Finset.single_le_sum (fun b _ => mul_self_nonneg (w b)) (Finset.mem_univ a)
  rw [hw] at hsquare
  exact abs_le_one_iff_mul_self_le_one.mpr hsquare

/-- A quadratic form on unit vectors is at most the sum of the entries. -/
theorem abs_quadratic_le (E : Matrix n n ℝ) {w : n → ℝ} (hw : w ⬝ᵥ w = 1) :
    |w ⬝ᵥ (E *ᵥ w)| ≤ ∑ a, ∑ b, |E a b| := by
  have hterm (a b : n) : |w a * (E a b * w b)| ≤ |E a b| := by
    rw [abs_mul, abs_mul]
    have ha := abs_le_one_of_unit hw a
    have hb := abs_le_one_of_unit hw b
    calc |w a| * (|E a b| * |w b|) ≤ 1 * (|E a b| * 1) := by gcongr
      _ = |E a b| := by rw [one_mul, mul_one]
  calc |w ⬝ᵥ (E *ᵥ w)| = |∑ a, ∑ b, w a * (E a b * w b)| := by
        simp only [dotProduct, mulVec, Finset.mul_sum]
    _ ≤ ∑ a, |∑ b, w a * (E a b * w b)| := Finset.abs_sum_le_sum_abs _ _
    _ ≤ ∑ a, ∑ b, |E a b| := by
        refine Finset.sum_le_sum fun a _ => (Finset.abs_sum_le_sum_abs _ _).trans ?_
        exact Finset.sum_le_sum fun b _ => hterm a b

end Bounds

section Dependence

variable {A : (k → ℝ) → Matrix n n ℝ} {D : (n → ℝ) → Matrix n k ℝ} {v : (k → ℝ) → n → ℝ}
  {μ : (k → ℝ) → ℝ} {x₀ : k → ℝ}

/-- The entries of the matrix change continuously. -/
theorem tendsto_change (hA : ∀ w, HasJacobianAt (fun x => A x *ᵥ w) (D w) x₀) :
    Tendsto (fun x => ∑ a, ∑ b, |(A x - A x₀) a b|) (𝓝 x₀) (𝓝 0) := by
  have hentry (a b : n) : Tendsto (fun x => |(A x - A x₀) a b|) (𝓝 x₀) (𝓝 0) := by
    have hcol : ContinuousAt (fun x => (A x *ᵥ Pi.single b 1) a) x₀ :=
      (continuous_apply a).continuousAt.comp (HasFDerivAt.continuousAt (hA (Pi.single b 1)))
    have hcont : ContinuousAt (fun x => A x a b) x₀ := by
      simpa only [mulVec_single_one, col_apply] using hcol
    have h := (hcont.tendsto.sub_const (A x₀ a b)).abs
    rwa [sub_self, abs_zero] at h
  have hsum := tendsto_finsetSum Finset.univ fun a _ =>
    tendsto_finsetSum Finset.univ fun b _ => hentry a b
  simpa using hsum

omit [DecidableEq n] in
/-- A scalar product with a factor that is only continuous, where the other one vanishes. -/
theorem HasJacobianAt.dot_of_zero {J : Matrix n k ℝ} {f g : (k → ℝ) → n → ℝ}
    (hf : ∀ a, ContinuousAt (fun x => f x a) x₀) (hg : HasJacobianAt g J x₀) (hzero : g x₀ = 0) :
    HasRowAt (fun x => f x ⬝ᵥ g x) (f x₀ ᵥ* J) x₀ := by
  have hterm (a : n) : HasFDerivAt (fun x => f x a * g x a)
      (f x₀ a • (ContinuousLinearMap.proj a).comp (matrixMap J)) x₀ :=
    hasFDerivAt_mul_of_zero (hf a) (hasFDerivAt_pi'.mp hg a) (congrFun hzero a)
  have hsum : HasFDerivAt (fun x => ∑ a, f x a * g x a)
      (∑ a, f x₀ a • (ContinuousLinearMap.proj a).comp (matrixMap J)) x₀ :=
    HasFDerivAt.fun_sum fun a _ => hterm a
  refine hasFDerivAt_pi'.mpr fun _ => hsum.congr_fderiv ?_
  ext w
  show (∑ a, f x₀ a • (ContinuousLinearMap.proj a).comp (matrixMap J)) w = (f x₀ ᵥ* J) ⬝ᵥ w
  have hmap : (∑ a, f x₀ a • (ContinuousLinearMap.proj a).comp (matrixMap J)) w =
      ∑ a, f x₀ a * (J *ᵥ w) a := by
    simp
  rw [← dotProduct_mulVec]
  exact hmap

section Moving

variable (hA : ∀ w, HasJacobianAt (fun x => A x *ᵥ w) (D w) x₀) (hbasis : EigenBasis (A x₀) U eig)
  (hgap : ∀ m, m ≠ i → eig i < eig m) (hv : ∀ x, LeastEigenvector (A x) (v x) (μ x))
include hbasis hgap hv

omit [Fintype k] in
/-- How far the eigenvalue and the components of the eigenvector move. -/
theorem moved_bounds (x : k → ℝ) (j : n) :
    μ x ≤ eig i + ∑ a, ∑ b, |(A x - A x₀) a b| ∧
      eig i + (eig j - eig i) * (U *ᵥ v x) j ^ 2 ≤ μ x + ∑ a, ∑ b, |(A x - A x₀) a b| := by
  have hleast : ∀ m, eig i ≤ eig m := by
    intro m
    by_cases hm : m = i
    · rw [hm]
    · exact (hgap m hm).le
  have hsplit (w : n → ℝ) :
      w ⬝ᵥ (A x *ᵥ w) = w ⬝ᵥ (A x₀ *ᵥ w) + w ⬝ᵥ ((A x - A x₀) *ᵥ w) := by
    rw [← dotProduct_add, ← add_mulVec, add_sub_cancel]
  have hrow := (hbasis.leastEigenvector hleast).unit
  constructor
  · have hbelow := (hv x).least (U i) hrow
    have hchange := (abs_le.mp (abs_quadratic_le (A x - A x₀) hrow)).2
    rw [hsplit, hbasis.quadratic_row] at hbelow
    linarith
  · have hcomponent := hbasis.le_of_component hleast (hv x).unit j
    have hchange := (abs_le.mp (abs_quadratic_le (A x - A x₀) (hv x).unit)).1
    have hvalue : v x ⬝ᵥ (A x *ᵥ v x) = μ x := by
      rw [(hv x).eigen, dotProduct_smul, (hv x).unit, smul_eq_mul, mul_one]
    rw [hsplit] at hvalue
    linarith

include hA

theorem tendsto_eigenvalue : Tendsto μ (𝓝 x₀) (𝓝 (eig i)) := by
  have hchange := tendsto_change hA
  have hlow : Tendsto (fun x => eig i - ∑ a, ∑ b, |(A x - A x₀) a b|) (𝓝 x₀) (𝓝 (eig i)) := by
    simpa using hchange.const_sub (eig i)
  have hhigh : Tendsto (fun x => eig i + ∑ a, ∑ b, |(A x - A x₀) a b|) (𝓝 x₀) (𝓝 (eig i)) := by
    simpa using hchange.const_add (eig i)
  refine tendsto_of_tendsto_of_tendsto_of_le_of_le hlow hhigh (fun x => ?_) fun x => ?_
  · have h := (moved_bounds hbasis hgap hv x i).2
    rw [sub_self, zero_mul, add_zero] at h
    exact sub_le_iff_le_add.mpr h
  · exact (moved_bounds hbasis hgap hv x i).1

/-- The other components vanish. -/
theorem tendsto_component {j : n} (hj : j ≠ i) :
    Tendsto (fun x => (U *ᵥ v x) j) (𝓝 x₀) (𝓝 0) := by
  have hpos := sub_pos.mpr (hgap j hj)
  have hsquare : Tendsto (fun x => (U *ᵥ v x) j ^ 2) (𝓝 x₀) (𝓝 0) := by
    have hbound : Tendsto (fun x => 2 * (∑ a, ∑ b, |(A x - A x₀) a b|) / (eig j - eig i)) (𝓝 x₀)
        (𝓝 0) := by
      simpa using ((tendsto_change hA).const_mul 2).div_const (eig j - eig i)
    refine squeeze_zero (fun x => sq_nonneg _) (fun x => ?_) hbound
    obtain ⟨hhigh, hlow⟩ := moved_bounds hbasis hgap hv x j
    rw [le_div_iff₀ hpos]
    linarith
  have hroot := (Real.continuous_sqrt.tendsto 0).comp hsquare
  rw [Real.sqrt_zero] at hroot
  rw [tendsto_zero_iff_abs_tendsto_zero]
  exact hroot.congr fun x => Real.sqrt_sq_eq_abs _

variable (hside : ∀ x, 0 ≤ U i ⬝ᵥ v x)
include hside

omit [Fintype k] hA hgap in
/-- The component along the row, from the others. -/
theorem main_component (x : k → ℝ) :
    (U *ᵥ v x) i = √(1 - ∑ m ∈ Finset.univ.erase i, (U *ᵥ v x) m ^ 2) := by
  have hsum := hbasis.dot_self (v x)
  rw [(hv x).unit, ← Finset.add_sum_erase _ _ (Finset.mem_univ i)] at hsum
  have hsquare : 1 - ∑ m ∈ Finset.univ.erase i, (U *ᵥ v x) m ^ 2 = (U *ᵥ v x) i ^ 2 := by linarith
  rw [hsquare]
  exact (Real.sqrt_sq (hside x)).symm

/-- The eigenvector tends to the row. -/
theorem tendsto_eigenvector : Tendsto v (𝓝 x₀) (𝓝 (U i)) := by
  have hothers : Tendsto (fun x => ∑ m ∈ Finset.univ.erase i, (U *ᵥ v x) m ^ 2) (𝓝 x₀) (𝓝 0) := by
    have h := tendsto_finsetSum (Finset.univ.erase i) fun m hm =>
      (tendsto_component hA hbasis hgap hv (Finset.ne_of_mem_erase hm)).pow 2
    simpa using h
  have hmain : Tendsto (fun x => (U *ᵥ v x) i) (𝓝 x₀) (𝓝 1) := by
    have h := (hothers.const_sub 1).sqrt
    rw [sub_zero, Real.sqrt_one] at h
    exact h.congr fun x => (main_component hbasis hv hside x).symm
  have hcomponents : Tendsto (fun x => U *ᵥ v x) (𝓝 x₀) (𝓝 (Pi.single i 1)) := by
    refine tendsto_pi_nhds.mpr fun j => ?_
    by_cases hj : j = i
    · rw [hj, Pi.single_eq_same]
      exact hmain
    · rw [Pi.single_eq_of_ne hj]
      exact tendsto_component hA hbasis hgap hv hj
  have hback := ((matrixMap Uᵀ).continuous.tendsto _).comp hcomponents
  have hrow : Uᵀ *ᵥ Pi.single i 1 = U i := by
    rw [mulVec_single_one]
    rfl
  rw [matrixMap_apply, hrow] at hback
  exact hback.congr fun x => hbasis.expand (v x)

theorem eigenvector_start : v x₀ = U i :=
  eq_of_tendsto_nhds (tendsto_eigenvector hA hbasis hgap hv hside)

/-- What the symmetric matrix moves a component by. -/
theorem hasRowAt_component (hsymm : ∀ x, (A x).IsSymm) {j : n} (hj : j ≠ i) :
    HasRowAt (fun x => (U *ᵥ v x) j) ((eig i - eig j)⁻¹ • (U i ᵥ* D (U j))) x₀ := by
  have hstart := eigenvector_start hA hbasis hgap hv hside
  have hvalue := tendsto_eigenvalue hA hbasis hgap hv
  have hne : eig i - eig j ≠ 0 := (sub_neg.mpr (hgap j hj)).ne
  have hstart' : μ x₀ = eig i := eq_of_tendsto_nhds hvalue
  have hfactor : ∀ a, ContinuousAt (fun x => ((μ x - eig j)⁻¹ • v x) a) x₀ := by
    intro a
    have hinv : Tendsto (fun x => (μ x - eig j)⁻¹) (𝓝 x₀) (𝓝 (μ x₀ - eig j)⁻¹) := by
      rw [hstart']
      exact (hvalue.sub_const (eig j)).inv₀ hne
    have hentry : Tendsto (fun x => v x a) (𝓝 x₀) (𝓝 (v x₀ a)) := by
      rw [hstart]
      exact (tendsto_pi_nhds.mp (tendsto_eigenvector hA hbasis hgap hv hside)) a
    exact hinv.mul hentry
  have hchange : HasJacobianAt (fun x => A x *ᵥ U j + -(A x₀ *ᵥ U j)) (D (U j)) x₀ :=
    (hA (U j)).add_const _
  have hrow := HasJacobianAt.dot_of_zero hfactor hchange (add_neg_cancel _)
  rw [hstart, hstart', smul_vecMul] at hrow
  have hnear : ∀ᶠ x in 𝓝 x₀, μ x - eig j ≠ 0 := by
    have h := hvalue.sub_const (eig j)
    exact h.eventually_ne hne
  refine HasFDerivAt.congr_of_eventuallyEq hrow ?_
  filter_upwards [hnear] with x hx
  funext _
  have hmoved : v x ⬝ᵥ (A x *ᵥ U j) = μ x * (U *ᵥ v x) j := by
    rw [dotProduct_mulVec, ← mulVec_transpose, (hsymm x).eq, (hv x).eigen, smul_dotProduct,
      dotProduct_comm]
    rfl
  have hfixed : v x ⬝ᵥ (A x₀ *ᵥ U j) = eig j * (U *ᵥ v x) j := by
    rw [hbasis.eigen, dotProduct_smul, dotProduct_comm]
    rfl
  rw [smul_dotProduct, dotProduct_add, dotProduct_neg, hmoved, hfixed, ← sub_eq_add_neg, ← sub_mul,
    smul_eq_mul, inv_mul_cancel_left₀ hx]

/-- The eigenvector of a simple least eigenvalue has a derivative, with the gaps to the other
eigenvalues below. -/
theorem hasJacobianAt_leastEigenvector (hsymm : ∀ x, (A x).IsSymm) :
    HasJacobianAt v (Uᵀ * of fun j => if j = i then 0 else (eig i - eig j)⁻¹ • (U i ᵥ* D (U j)))
      x₀ := by
  have hrows : HasJacobianAt (fun x => U *ᵥ v x)
      (of fun j => if j = i then 0 else (eig i - eig j)⁻¹ • (U i ᵥ* D (U j))) x₀ := by
    refine HasJacobianAt.of_rows fun j => ?_
    show HasRowAt _ (if j = i then 0 else (eig i - eig j)⁻¹ • (U i ᵥ* D (U j))) x₀
    by_cases hj : j = i
    · rw [if_pos hj, hj]
      have hsquare (m : n) (hm : m ∈ Finset.univ.erase i) :
          HasFDerivAt (fun x => (U *ᵥ v x) m ^ 2) (0 : (k → ℝ) →L[ℝ] ℝ) x₀ := by
        have hne := Finset.ne_of_mem_erase hm
        have hcomponent : HasFDerivAt (fun x => (U *ᵥ v x) m) _ x₀ :=
          hasFDerivAt_pi'.mp (hasRowAt_component hA hbasis hgap hv hside hsymm hne) ()
        have hzero : (U *ᵥ v x₀) m = 0 := by
          rw [eigenvector_start hA hbasis hgap hv hside]
          exact (hbasis.row_dot m i).trans (if_neg hne)
        have h := hasFDerivAt_mul_of_zero hcomponent.continuousAt hcomponent hzero
        rw [hzero, zero_smul] at h
        simpa only [sq] using h
      have hsum := HasFDerivAt.fun_sum hsquare
      rw [Finset.sum_const_zero] at hsum
      have hone : 1 - ∑ m ∈ Finset.univ.erase i, (U *ᵥ v x₀) m ^ 2 ≠ 0 := by
        have hothers : ∑ m ∈ Finset.univ.erase i, (U *ᵥ v x₀) m ^ 2 = 0 := by
          refine Finset.sum_eq_zero fun m hm => ?_
          rw [eigenvector_start hA hbasis hgap hv hside]
          exact pow_eq_zero_iff two_ne_zero |>.mpr
            ((hbasis.row_dot m i).trans (if_neg (Finset.ne_of_mem_erase hm)))
        rw [hothers, sub_zero]
        exact one_ne_zero
      have hroot := (hsum.const_sub 1).sqrt hone
      rw [neg_zero, smul_zero] at hroot
      simp only [← main_component hbasis hv hside] at hroot
      refine hasFDerivAt_pi'.mpr fun _ => hroot.congr_fderiv ?_
      ext w
      show (0 : ℝ) = (0 : k → ℝ) ⬝ᵥ w
      rw [zero_dotProduct]
    · rw [if_neg hj]
      exact hasRowAt_component hA hbasis hgap hv hside hsymm hj
  have h := hrows.mulVec Uᵀ
  simp only [hbasis.expand] at h
  exact h

end Moving

end Dependence

end FastLivo.Lib
