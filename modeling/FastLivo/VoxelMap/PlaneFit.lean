import FastLivo.Lib.LeastEigenvector
import FastLivo.VoxelMap.Spectral
import Mathlib.LinearAlgebra.Matrix.PosDef

/-!
# The covariance of a plane

`init_plane` carries the covariances of the points over to the plane by the derivative of its
normal and its centre. The derivative divides by the gaps between the eigenvalues, and the middle
column is what the other two leave.
-/

namespace FastLivo.VoxelMap

open Lib Matrix

/-! ## Indices of eigenvalues -/

section Indices

variable {K : Type*} [LinearOrder K]

theorem minCoeff_spec (v : ℤ → K) :
    ∃ k : Fin 3, (k.val : ℤ) = minCoeff v ∧ ∀ m : Fin 3, v k.val ≤ v m.val := by
  unfold minCoeff
  rw [List.foldl_cons, List.foldl_cons, List.foldl_nil]
  by_cases h1 : v 1 < v 0
  · rw [if_pos h1]
    by_cases h2 : v 2 < v 1
    · rw [if_pos h2]
      refine ⟨2, rfl, fun m => ?_⟩
      fin_cases m
      · exact (h2.trans h1).le
      · exact h2.le
      · exact le_refl _
    · rw [if_neg h2]
      refine ⟨1, rfl, fun m => ?_⟩
      fin_cases m
      · exact h1.le
      · exact le_refl _
      · exact not_lt.mp h2
  · rw [if_neg h1]
    by_cases h2 : v 2 < v 0
    · rw [if_pos h2]
      refine ⟨2, rfl, fun m => ?_⟩
      fin_cases m
      · exact h2.le
      · exact h2.le.trans (not_lt.mp h1)
      · exact le_refl _
    · rw [if_neg h2]
      refine ⟨0, rfl, fun m => ?_⟩
      fin_cases m
      · exact le_refl _
      · exact not_lt.mp h1
      · exact not_lt.mp h2

theorem maxCoeff_spec (v : ℤ → K) :
    ∃ k : Fin 3, (k.val : ℤ) = maxCoeff v ∧ ∀ m : Fin 3, v m.val ≤ v k.val := by
  obtain ⟨k, hk, hleast⟩ := minCoeff_spec (K := Kᵒᵈ) v
  exact ⟨k, hk, hleast⟩

end Indices

noncomputable section

/-! ## The fit as a function of one point -/

/-- `evalsReal`, and `evalsMin`. -/
def evalsOf (s : EigenSolver ℝ) (points : List (PointWithVar ℝ)) : ℤ → ℝ :=
  s.eigenvalues (covarianceOf points)

/-- `normal_` of a plane. -/
def unitNormal (s : EigenSolver ℝ) (points : List (PointWithVar ℝ)) : Fin 3 → ℝ :=
  s.eigenvectors (covarianceOf points) (minCoeff (evalsOf s points))

/-- The points with one of them moved. -/
def moved (points : List (PointWithVar ℝ)) (i : Fin points.length) (p : Fin 3 → ℝ) :
    List (PointWithVar ℝ) :=
  points.set i { points.get i with pointW := p }

/-- The normal of the points with one of them moved, on the side of the normal before. -/
def movedNormal (s : EigenSolver ℝ) (points : List (PointWithVar ℝ)) (i : Fin points.length)
    (p : Fin 3 → ℝ) : Fin 3 → ℝ :=
  if 0 ≤ unitNormal s points ⬝ᵥ unitNormal s (moved points i p) then
    unitNormal s (moved points i p)
  else -unitNormal s (moved points i p)

/-- The columns that `init_plane` reads of the eigenvectors. -/
def planeColumns (s : EigenSolver ℝ) (points : List (PointWithVar ℝ)) : List ℤ :=
  let evalsMin := minCoeff (evalsOf s points)
  let evalsMax := maxCoeff (evalsOf s points)
  let evalsMid := 3 - evalsMin - evalsMax
  [0, 1, 2, evalsMin, evalsMid, evalsMax]

/-- What `init_plane` divides by. -/
def planeDivisors (s : EigenSolver ℝ) (points : List (PointWithVar ℝ)) : List ℝ :=
  let evals := evalsOf s points
  let evalsMin := minCoeff evals
  points.length :: ((List.finRange 3).filter fun m => (m.val : ℤ) ≠ evalsMin).map fun m =>
    points.length * (evals evalsMin - evals m.val)

/-- A fit that reads and divides well, and carries the covariances of its points over by the
derivative of its normal and its centre. -/
structure WellFitted (s : EigenSolver ℝ) (points : List (PointWithVar ℝ)) (plane : VoxelPlane ℝ) :
    Prop where
  columns : ∀ i ∈ planeColumns s points, 0 ≤ i ∧ i < 3
  divisors : ∀ d ∈ planeDivisors s points, d ≠ 0
  planeVar : ∃ J : Fin points.length → Matrix (Fin 3 ⊕ Fin 3) (Fin 3) ℝ,
    (∀ i, HasJacobianAt
      (fun p => Sum.elim (movedNormal s points i p) (centerOf (moved points i p))) (J i)
      (points.get i).pointW) ∧
    plane.planeVar = ∑ i, J i * (points.get i).var * (J i)ᵀ
  posSemidef : PosSemidef plane.planeVar

variable {s : EigenSolver ℝ} {points : List (PointWithVar ℝ)}

theorem covarianceOf_isSymm (points : List (PointWithVar ℝ)) : (covarianceOf points).IsSymm := by
  have houter (v : Fin 3 → ℝ) : (vecMulVec v v)ᵀ = vecMulVec v v := transpose_vecMulVec v v
  have hsum (l : List (PointWithVar ℝ)) :
      ((l.map fun pv => vecMulVec pv.pointW pv.pointW).sum)ᵀ =
        (l.map fun pv => vecMulVec pv.pointW pv.pointW).sum := by
    induction l with
    | nil => exact transpose_zero
    | cons pv l ih => rw [List.map_cons, List.sum_cons, transpose_add, ih, houter]
  show (covarianceOf points)ᵀ = _
  rw [covarianceOf, transpose_sub, transpose_smul, hsum, houter]

/-- The first three columns, as rows. -/
def eigenRows (s : EigenSolver ℝ) (points : List (PointWithVar ℝ)) : Matrix (Fin 3) (Fin 3) ℝ :=
  of fun m a => s.eigenvectors (covarianceOf points) m.val a

theorem EigenSolver.Correct.basis (hs : s.Correct) (points : List (PointWithVar ℝ)) :
    EigenBasis (covarianceOf points) (eigenRows s points) fun m => evalsOf s points m.val := by
  constructor
  · ext i j
    rw [one_apply]
    exact hs.orthonormal (covarianceOf_isSymm points) i j
  · intro i
    exact hs.eigen (covarianceOf_isSymm points) i

/-- The normal is a unit vector of the least spread. -/
theorem EigenSolver.Correct.unitNormal (hs : s.Correct) (points : List (PointWithVar ℝ)) :
    LeastEigenvector (covarianceOf points) (unitNormal s points)
      (evalsOf s points (minCoeff (evalsOf s points))) := by
  obtain ⟨k, hk, hleast⟩ := minCoeff_spec (evalsOf s points)
  have h := (hs.basis points).leastEigenvector (i := k) hleast
  rw [hk] at h
  have hrow : VoxelMap.unitNormal s points = eigenRows s points k := by
    unfold VoxelMap.unitNormal
    rw [← hk]
    rfl
  rw [hrow]
  exact h

theorem movedNormal_least (hs : s.Correct) (i : Fin points.length) (p : Fin 3 → ℝ) :
    LeastEigenvector (covarianceOf (moved points i p)) (movedNormal s points i p)
      (evalsOf s (moved points i p) (minCoeff (evalsOf s (moved points i p)))) := by
  unfold movedNormal
  split
  · exact hs.unitNormal _
  · exact (hs.unitNormal _).neg

theorem movedNormal_side (i : Fin points.length) (p : Fin 3 → ℝ) :
    0 ≤ unitNormal s points ⬝ᵥ movedNormal s points i p := by
  unfold movedNormal
  split
  · assumption
  · rename_i hside
    rw [dotProduct_neg]
    exact neg_nonneg.mpr (not_le.mp hside).le

/-! ## Derivatives -/

section Derivatives

variable (points) (i : Fin points.length)

theorem moved_length (p : Fin 3 → ℝ) : (moved points i p).length = points.length :=
  List.length_set

/-- A sum over the points, one of which moves. -/
theorem sum_moved {V : Type*} [AddCommGroup V] (f : PointWithVar ℝ → V) (p : Fin 3 → ℝ) :
    ((moved points i p).map f).sum =
      ((points.map f).sum - f (points.get i)) + f { points.get i with pointW := p } := by
  have hlt : (i : ℕ) < (points.map f).length := by
    rw [List.length_map]
    exact i.isLt
  rw [moved, List.map_set, List.sum_set', dif_pos hlt, List.getElem_map, sub_eq_add_neg, add_assoc]
  rfl

theorem moved_self : moved points i (points.get i).pointW = points := List.set_getElem_self _

/-- The centre moves with the point, by its share. -/
theorem centerOf_moved (p : Fin 3 → ℝ) :
    centerOf (moved points i p) = (points.length : ℝ)⁻¹ • p +
      (points.length : ℝ)⁻¹ • ((points.map PointWithVar.pointW).sum - (points.get i).pointW) := by
  rw [centerOf, moved_length, sum_moved, ← smul_add, add_comm]

theorem hasJacobianAt_center (p : Fin 3 → ℝ) :
    HasJacobianAt (fun p => centerOf (moved points i p)) ((points.length : ℝ)⁻¹ • 1) p := by
  have h := (HasJacobianAt.mulVec_id ((points.length : ℝ)⁻¹ • (1 : Matrix (Fin 3) (Fin 3) ℝ)) p).add_const
    ((points.length : ℝ)⁻¹ • ((points.map PointWithVar.pointW).sum - (points.get i).pointW))
  simp only [smul_mulVec, one_mulVec, ← centerOf_moved] at h
  exact h

/-- How the covariance of the points turns a vector, by the derivative in one point. -/
def covarianceJacobian (w : Fin 3 → ℝ) : Matrix (Fin 3) (Fin 3) ℝ :=
  let d := (points.get i).pointW - centerOf points
  (points.length : ℝ)⁻¹ • (vecMulVec d w + (w ⬝ᵥ d) • 1)

theorem covarianceOf_moved_mulVec (w p : Fin 3 → ℝ) :
    covarianceOf (moved points i p) *ᵥ w =
      (points.length : ℝ)⁻¹ •
          ((w ⬝ᵥ p) • p + ((points.map fun pv => vecMulVec pv.pointW pv.pointW).sum -
            vecMulVec (points.get i).pointW (points.get i).pointW) *ᵥ w) -
        (w ⬝ᵥ centerOf (moved points i p)) • centerOf (moved points i p) := by
  have houter (v : Fin 3 → ℝ) : vecMulVec v v *ᵥ w = (w ⬝ᵥ v) • v := by
    rw [vecMulVec_mulVec, op_smul_eq_smul, dotProduct_comm]
  rw [covarianceOf, moved_length, sum_moved points i fun pv => vecMulVec pv.pointW pv.pointW,
    sub_mulVec, smul_mulVec, add_mulVec, houter, houter, add_comm]

theorem hasJacobianAt_covariance (w : Fin 3 → ℝ) :
    HasJacobianAt (fun p => covarianceOf (moved points i p) *ᵥ w) (covarianceJacobian points i w)
      (points.get i).pointW := by
  have hid : HasJacobianAt (fun p : Fin 3 → ℝ => p) (1 : Matrix (Fin 3) (Fin 3) ℝ)
      (points.get i).pointW := by
    have h := HasJacobianAt.mulVec_id (1 : Matrix (Fin 3) (Fin 3) ℝ) (points.get i).pointW
    simpa only [one_mulVec] using h
  have hsquares := ((hid.dot_smul w).add_const (((points.map fun pv =>
    vecMulVec pv.pointW pv.pointW).sum - vecMulVec (points.get i).pointW (points.get i).pointW)
      *ᵥ w)).const_smul (points.length : ℝ)⁻¹
  have h := hsquares.sub ((hasJacobianAt_center points i (points.get i).pointW).dot_smul w)
  simp only [← covarianceOf_moved_mulVec] at h
  have hsame : covarianceJacobian points i w =
      (points.length : ℝ)⁻¹ • (vecMulVec (points.get i).pointW (w ᵥ* 1) +
          (w ⬝ᵥ (points.get i).pointW) • (1 : Matrix (Fin 3) (Fin 3) ℝ)) -
        (vecMulVec (centerOf (moved points i (points.get i).pointW))
            (w ᵥ* ((points.length : ℝ)⁻¹ • (1 : Matrix (Fin 3) (Fin 3) ℝ))) +
          (w ⬝ᵥ centerOf (moved points i (points.get i).pointW)) •
            (points.length : ℝ)⁻¹ • (1 : Matrix (Fin 3) (Fin 3) ℝ)) := by
    rw [moved_self, vecMul_one, vecMul_smul, vecMul_one, vecMulVec_smul, smul_comm _ _ (1 : Matrix _ _ ℝ),
      ← smul_add, ← smul_sub, covarianceJacobian, sub_vecMulVec, dotProduct_sub, sub_smul]
    congr 1
    abel
  rw [hsame]
  exact h

end Derivatives

/-! ## Fits -/

/-- `F` of a point, in terms of the derivative of the covariance. -/
theorem jacobianRows_eq (s : EigenSolver ℝ) (points : List (PointWithVar ℝ))
    (i : Fin points.length) {k : Fin 3} (hk : (k.val : ℤ) = minCoeff (evalsOf s points)) :
    (of fun m : Fin 3 =>
      if (m.val : ℤ) = minCoeff (evalsOf s points) then 0
      else (points.length * (evalsOf s points (minCoeff (evalsOf s points)) -
          evalsOf s points m.val))⁻¹ •
        (((points.get i).pointW - centerOf points) ᵥ*
          (vecMulVec (s.eigenvectors (covarianceOf points) m.val) (unitNormal s points) +
            vecMulVec (unitNormal s points) (s.eigenvectors (covarianceOf points) m.val)))) =
      of fun j => if j = k then 0 else
        (evalsOf s points k.val - evalsOf s points j.val)⁻¹ •
          (eigenRows s points k ᵥ* covarianceJacobian points i (eigenRows s points j)) := by
  have hrow : unitNormal s points = eigenRows s points k := by
    unfold unitNormal
    rw [← hk]
    rfl
  have hindex (j : Fin 3) : (j.val : ℤ) = minCoeff (evalsOf s points) ↔ j = k := by
    rw [← hk, Nat.cast_inj, Fin.ext_iff]
  congr 1
  funext j
  simp only [hindex]
  split
  · rfl
  · have hcol : s.eigenvectors (covarianceOf points) j.val = eigenRows s points j := rfl
    rw [hrow, hcol, ← hk, covarianceJacobian, vecMul_smul, vecMul_add, vecMul_add,
      vecMul_vecMulVec, vecMul_vecMulVec, vecMul_vecMulVec, vecMul_smul, vecMul_one, smul_smul,
      mul_inv, mul_comm (points.length : ℝ)⁻¹, dotProduct_comm (eigenRows s points k),
      dotProduct_comm (eigenRows s points j), add_comm (_ • eigenRows s points k)]

section Fits

variable (hs : s.Correct) (points)
include hs

/-- With a simple least eigenvalue, `J` of a point is the derivative of normal and centre. -/
theorem hasJacobianAt_plane {k : Fin 3} (hk : (k.val : ℤ) = minCoeff (evalsOf s points))
    (hgap : ∀ m : Fin 3, m ≠ k → evalsOf s points k.val < evalsOf s points m.val)
    (i : Fin points.length) :
    HasJacobianAt (fun p => Sum.elim (movedNormal s points i p) (centerOf (moved points i p)))
      (planeJacobian s points (points.get i)) (points.get i).pointW := by
  have hrow : eigenRows s points k = unitNormal s points := by
    unfold unitNormal
    rw [← hk]
    rfl
  have hbasis : EigenBasis (covarianceOf (moved points i (points.get i).pointW))
      (eigenRows s points) fun m => evalsOf s points m.val := by
    rw [moved_self]
    exact hs.basis points
  have hnormal := hasJacobianAt_leastEigenvector (hasJacobianAt_covariance points i) hbasis hgap
    (movedNormal_least hs i) (fun p => hrow ▸ movedNormal_side i p)
    fun p => covarianceOf_isSymm _
  have h := hnormal.elim (hasJacobianAt_center points i (points.get i).pointW)
  have hsame : planeJacobian s points (points.get i) = fromRows
      ((eigenRows s points)ᵀ * of fun j => if j = k then 0 else
        (evalsOf s points k.val - evalsOf s points j.val)⁻¹ •
          (eigenRows s points k ᵥ* covarianceJacobian points i (eigenRows s points j)))
      ((points.length : ℝ)⁻¹ • 1) := by
    rw [← jacobianRows_eq s points i hk]
    rfl
  rw [hsame]
  exact h

/-- The eigenvalues leave gaps exactly when one direction alone has the least spread. -/
theorem uniqueLeast_iff_gap {k : Fin 3} (hk : (k.val : ℤ) = minCoeff (evalsOf s points)) :
    UniqueLeast (covarianceOf points) ↔
      ∀ m : Fin 3, m ≠ k → evalsOf s points k.val < evalsOf s points m.val := by
  obtain ⟨k', hk', hleast⟩ := minCoeff_spec (evalsOf s points)
  obtain rfl : k = k' := Fin.ext (by omega)
  exact (hs.basis points).uniqueLeast_iff hleast

omit hs in
/-- Divisors that are not zero leave gaps. -/
theorem divisors_iff_gap (hne : points ≠ []) {k : Fin 3}
    (hk : (k.val : ℤ) = minCoeff (evalsOf s points)) :
    (∀ d ∈ planeDivisors s points, d ≠ 0) ↔
      ∀ m : Fin 3, m ≠ k → evalsOf s points k.val < evalsOf s points m.val := by
  obtain ⟨k', hk', hleast⟩ := minCoeff_spec (evalsOf s points)
  obtain rfl : k = k' := Fin.ext (by omega)
  have hlength : (points.length : ℝ) ≠ 0 :=
    Nat.cast_ne_zero.mpr (List.length_pos_iff.mpr hne).ne'
  unfold planeDivisors
  dsimp only
  rw [← hk, List.forall_mem_cons]
  constructor
  · rintro ⟨-, hgaps⟩ m hm
    have hmem : m ∈ (List.finRange 3).filter fun m => (m.val : ℤ) ≠ (k.val : ℤ) := by
      refine List.mem_filter.mpr ⟨List.mem_finRange m, ?_⟩
      rw [decide_eq_true_iff, Ne, Nat.cast_inj]
      exact fun h => hm (Fin.ext h)
    have hdivisor := hgaps _ (List.mem_map_of_mem hmem)
    refine lt_of_le_of_ne (hleast m) fun hequal => hdivisor ?_
    rw [hequal, sub_self, mul_zero]
  · intro hgap
    refine ⟨hlength, fun d hd => ?_⟩
    obtain ⟨m, hm, rfl⟩ := List.mem_map.mp hd
    have hne : m ≠ k := by
      rintro rfl
      exact absurd rfl (of_decide_eq_true (List.mem_filter.mp hm).2)
    exact mul_ne_zero hlength (sub_neg.mpr (hgap m hne)).ne

end Fits

/-- With gaps the least and the greatest eigenvalue have different indices, and the third is in
range. -/
theorem columns_of_gap {k : Fin 3} (hk : (k.val : ℤ) = minCoeff (evalsOf s points))
    (hgap : ∀ m : Fin 3, m ≠ k → evalsOf s points k.val < evalsOf s points m.val) :
    ∀ i ∈ planeColumns s points, 0 ≤ i ∧ i < 3 := by
  obtain ⟨k', hk', hgreatest⟩ := maxCoeff_spec (evalsOf s points)
  have hne : k ≠ k' := by
    rintro rfl
    obtain ⟨m, hm⟩ : ∃ m : Fin 3, m ≠ k := exists_ne k
    exact absurd (hgap m hm) (not_lt.mpr (hgreatest m))
  have hval : k.val ≠ k'.val := fun h => hne (Fin.ext h)
  intro i hi
  unfold planeColumns at hi
  rw [← hk, ← hk'] at hi
  have h := k.isLt
  have h' := k'.isLt
  simp only [List.mem_cons, List.not_mem_nil, or_false] at hi
  omega

theorem initPlane_planeVar {planerThreshold : ℝ} {plane : VoxelPlane ℝ}
    (hplane : (initPlane s planerThreshold points plane).isPlane = true) :
    (initPlane s planerThreshold points plane).planeVar =
      ∑ i : Fin points.length, planeJacobian s points (points.get i) * (points.get i).var *
        (planeJacobian s points (points.get i))ᵀ := by
  rw [initPlane_isPlane, decide_eq_true_iff] at hplane
  unfold initPlane
  dsimp only
  rw [if_pos hplane, ← Fin.sum_univ_fun_getElem]
  rfl

theorem initPlane_posSemidef {planerThreshold : ℝ} {plane : VoxelPlane ℝ}
    (hvar : ∀ pv ∈ points, PosSemidef pv.var)
    (hplane : (initPlane s planerThreshold points plane).isPlane = true) :
    (initPlane s planerThreshold points plane).planeVar.PosSemidef := by
  rw [initPlane_planeVar hplane]
  refine posSemidef_sum _ fun i _ => ?_
  have h := (hvar _ (points.get_mem i)).mul_mul_conjTranspose_same
    (planeJacobian s points (points.get i))
  rwa [conjTranspose_eq_transpose_of_trivial] at h

/-- A list that is long enough is fitted well, where it is planar, exactly when its points have
a single best plane through their centre. -/
theorem fit_well_defined_iff (hs : s.Correct) {planerThreshold : ℝ} {plane : VoxelPlane ℝ}
    {pointsSizeThreshold : ℕ} (hlength : pointsSizeThreshold < points.length)
    (hvar : ∀ pv ∈ points, PosSemidef pv.var)
    (hplane : (initPlane s planerThreshold points plane).isPlane = true) :
    WellFitted s points (initPlane s planerThreshold points plane) ↔
      UniqueLeast (covarianceOf points) := by
  obtain ⟨k, hk, -⟩ := minCoeff_spec (evalsOf s points)
  have hne : points ≠ [] := by
    rintro rfl
    exact absurd hlength (Nat.not_lt_zero _)
  rw [uniqueLeast_iff_gap points hs hk]
  constructor
  · intro h
    exact (divisors_iff_gap points hne hk).mp h.divisors
  · intro hgap
    refine ⟨columns_of_gap hk hgap, (divisors_iff_gap points hne hk).mpr hgap,
      ⟨_, hasJacobianAt_plane points hs hk hgap, initPlane_planeVar hplane⟩,
      initPlane_posSemidef hvar hplane⟩

/-! ## A point many times, and a square -/

/-- Points without spread in some direction are planar. -/
theorem isPlane_of_flat (hs : s.Correct) {planerThreshold : ℝ} (hpos : 0 < planerThreshold)
    (plane : VoxelPlane ℝ) {u : Fin 3 → ℝ} (hu : u ⬝ᵥ u = 1) (hflat : covarianceOf points *ᵥ u = 0) :
    (initPlane s planerThreshold points plane).isPlane = true := by
  rw [initPlane_isPlane, decide_eq_true_iff]
  have hle := (hs.unitNormal points).least u hu
  rw [hflat, dotProduct_zero] at hle
  exact hle.trans_lt hpos

/-- One point, six times. -/
def coincident : List (PointWithVar ℝ) := List.replicate 6 ⟨0, 0⟩

theorem covarianceOf_coincident : covarianceOf coincident = 0 := by
  simp [covarianceOf, centerOf, coincident]

theorem coincident_not_fitted : ¬∀ (s : EigenSolver ℝ) (planerThreshold : ℝ)
    (points : List (PointWithVar ℝ)) (plane : VoxelPlane ℝ) (pointsSizeThreshold : ℕ),
    s.Correct → pointsSizeThreshold < points.length → (∀ pv ∈ points, PosSemidef pv.var) →
    (initPlane s planerThreshold points plane).isPlane = true →
    WellFitted s points (initPlane s planerThreshold points plane) := by
  intro h
  have hlength : 5 < coincident.length := by
    rw [coincident, List.length_replicate]
    norm_num
  have hvar : ∀ pv ∈ coincident, PosSemidef pv.var := by
    intro pv hpv
    rw [List.eq_of_mem_replicate hpv]
    exact PosSemidef.zero
  have hplane : (initPlane .spectral 0.01 coincident {}).isPlane = true :=
    isPlane_of_flat EigenSolver.spectral_correct (by norm_num) _ (u := ![0, 0, 1]) (by simp)
      (by rw [covarianceOf_coincident, zero_mulVec])
  have hfitted := h .spectral 0.01 coincident {} 5 EigenSolver.spectral_correct hlength hvar hplane
  obtain ⟨u, hu, hstrict⟩ :=
    (fit_well_defined_iff EigenSolver.spectral_correct hlength hvar hplane).mp hfitted
  rw [covarianceOf_coincident] at hstrict
  have hsame : ∀ v : Fin 3 → ℝ, v ⬝ᵥ v = 1 → v = u ∨ v = -u := by
    intro v hv
    by_contra hne
    obtain ⟨hpos, hneg⟩ := not_or.mp hne
    have hlt := hstrict v hv hpos hneg
    rw [zero_mulVec, zero_mulVec, dotProduct_zero, dotProduct_zero] at hlt
    exact lt_irrefl _ hlt
  have hfirst := hsame ![1, 0, 0] (by simp)
  have hsecond := hsame ![0, 1, 0] (by simp)
  have hone : u 0 = 1 ∨ u 0 = -1 := by
    refine hfirst.imp (fun h => ?_) fun h => ?_
    · exact (congrFun h 0).symm
    · exact neg_eq_iff_eq_neg.mp (congrFun h 0).symm
  have hzero : u 0 = 0 := by
    rcases hsecond with h | h
    · exact (congrFun h 0).symm
    · exact neg_eq_zero.mp (congrFun h 0).symm
  rw [hzero] at hone
  norm_num at hone

/-- The ends of a cross and twice its centre. -/
def cross : List (PointWithVar ℝ) :=
  [⟨![1, 0, 0], 0⟩, ⟨![-1, 0, 0], 0⟩, ⟨![0, 1, 0], 0⟩, ⟨![0, -1, 0], 0⟩, ⟨0, 0⟩, ⟨0, 0⟩]

theorem covarianceOf_cross : covarianceOf cross = diagonal ![1 / 3, 1 / 3, 0] := by
  have hcenter : centerOf cross = 0 := by
    ext j
    fin_cases j <;> simp [centerOf, cross]
  rw [covarianceOf, hcenter]
  ext i j
  rw [Matrix.sub_apply, Matrix.smul_apply, vecMulVec_apply]
  fin_cases i <;> fin_cases j <;> simp [cross] <;> norm_num

theorem covarianceOf_cross_mulVec (v : Fin 3 → ℝ) :
    covarianceOf cross *ᵥ v = ![v 0 / 3, v 1 / 3, 0] := by
  rw [covarianceOf_cross]
  ext j
  rw [mulVec_diagonal]
  fin_cases j <;> simp <;> ring

theorem fit_well_defined_iff_cross :
    WellFitted .spectral cross (initPlane .spectral 0.01 cross {}) := by
  have hlength : 5 < cross.length := by decide
  have hvar : ∀ pv ∈ cross, PosSemidef pv.var := by
    intro pv hpv
    have hzero : pv.var = 0 := by
      simp only [cross, List.mem_cons, List.not_mem_nil, or_false] at hpv
      rcases hpv with rfl | rfl | rfl | rfl | rfl | rfl <;> rfl
    rw [hzero]
    exact PosSemidef.zero
  have hplane : (initPlane .spectral 0.01 cross {}).isPlane = true := by
    refine isPlane_of_flat EigenSolver.spectral_correct (by norm_num) _ (u := ![0, 0, 1]) (by simp) ?_
    rw [covarianceOf_cross_mulVec]
    ext j
    fin_cases j <;> simp
  refine (fit_well_defined_iff EigenSolver.spectral_correct hlength hvar hplane).mpr
    ⟨![0, 0, 1], by simp, fun v hv hpos hneg => ?_⟩
  have hspread : v ⬝ᵥ (covarianceOf cross *ᵥ v) = (v 0 ^ 2 + v 1 ^ 2) / 3 := by
    rw [covarianceOf_cross_mulVec]
    simp [dotProduct, Fin.sum_univ_three]
    ring
  have hflat : ![0, 0, 1] ⬝ᵥ (covarianceOf cross *ᵥ ![0, 0, 1]) = 0 := by
    rw [covarianceOf_cross_mulVec]
    simp
  rw [hspread, hflat]
  by_contra hnot
  have h0 : v 0 = 0 := by nlinarith [sq_nonneg (v 0), sq_nonneg (v 1)]
  have h1 : v 1 = 0 := by nlinarith [sq_nonneg (v 0), sq_nonneg (v 1)]
  have h2 : v 2 = 1 ∨ v 2 = -1 := by
    have hsquare : v 2 ^ 2 = 1 := by
      rw [dotProduct, Fin.sum_univ_three, h0, h1] at hv
      linarith
    exact sq_eq_one_iff.mp hsquare
  rcases h2 with h2 | h2
  · refine hpos (funext fun j => ?_)
    fin_cases j
    · exact h0
    · exact h1
    · exact h2
  · refine hneg (funext fun j => ?_)
    fin_cases j
    · exact h0.trans neg_zero.symm
    · exact h1.trans neg_zero.symm
    · exact h2

end

end FastLivo.VoxelMap
