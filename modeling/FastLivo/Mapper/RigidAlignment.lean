import FastLivo.Esikf.Pose
import FastLivo.Lib.RigidAlignment

/-!
# `computeSVD`

The rigid motion from LIVO to RTK positions, from the singular value decomposition of their
cross-covariance. `Eigen` gives the decomposition, `Sophus` the rotation of a matrix.
-/

namespace FastLivo

open Lib Esikf Matrix

noncomputable section

/-- What `Eigen::JacobiSVD` holds after a decomposition. -/
structure JacobiSvd where
  matrixU : Mat3
  matrixV : Mat3
  singularValues : Vec3

/-- The library functions of `computeSVD`. -/
structure AlignmentLibs where
  /-- `Eigen::JacobiSVD` with both bases in full. -/
  jacobiSvd : Mat3 → JacobiSvd
  /-- `Sophus::SO3` of a matrix. -/
  so3 : Mat3 → Rot3
  so3_matrix : ∀ R : Rot3, so3 R.matrix = R

/-- The decomposition is one of the matrix. -/
def JacobiSvd.Valid (svd : JacobiSvd) (W : Mat3) : Prop :=
  IsSvd W svd.matrixU svd.matrixV svd.singularValues

/-- `R` of `computeSVD`. -/
def JacobiSvd.rotation (svd : JacobiSvd) : Mat3 :=
  let R := svd.matrixU * svd.matrixVᵀ
  if R.det < 0 then svd.matrixU * diagonal ![1, 1, -1] * svd.matrixVᵀ else R

/-- `W` of `computeSVD`. -/
def alignmentW (target source : List Vec3) : Mat3 :=
  let targetCenter := (target.length : ℝ)⁻¹ • target.sum
  let sourceCenter := (source.length : ℝ)⁻¹ • source.sum
  ((target.zip source).map fun p => vecMulVec (p.1 - targetCenter) (p.2 - sourceCenter)).sum

/-- `computeSVD`. -/
def computeSVD (L : AlignmentLibs) (target source : List Vec3) : Pose3 :=
  if target = [] ∨ target.length ≠ source.length then 1
  else
    let targetCenter := (target.length : ℝ)⁻¹ • target.sum
    let sourceCenter := (source.length : ℝ)⁻¹ • source.sum
    let R := (L.jacobiSvd (alignmentW target source)).rotation
    ⟨L.so3 R, targetCenter - R *ᵥ sourceCenter⟩

/-- A point moved by a pose. -/
def transformed (T : Pose3) (p : Vec3) : Vec3 := T.rotation.matrix *ᵥ p + T.translation

/-- Summed squared distances of the targets from the moved sources. -/
def squaredError (target source : List Vec3) (T : Pose3) : ℝ :=
  alignmentError (target.zip source) T.rotation.matrix T.translation

theorem Rot3.isRotation (R : Rot3) : IsRotation R.matrix := ⟨R.matrix_mul_transpose, R.det_matrix⟩

namespace JacobiSvd

variable {svd : JacobiSvd} {W : Mat3}

theorem rotation_eq (h : svd.Valid W) : svd.rotation = bestRotation svd.matrixU svd.matrixV := by
  unfold rotation bestRotation
  dsimp only
  rcases IsSvd.det_bases h with hdet | hdet
  · have hone : (diagonal ![1, 1, 1] : Mat3) = 1 := by
      rw [← diagonal_one]
      congr 1
      ext i
      fin_cases i <;> rfl
    rw [hdet, if_neg (by norm_num), hone, Matrix.mul_one]
  · rw [hdet, if_pos (by norm_num)]

/-- The matrix that `computeSVD` turns into a rotation is one. -/
theorem isRotation (h : svd.Valid W) : IsRotation svd.rotation := by
  rw [rotation_eq h]
  exact IsSvd.isRotation_best h

end JacobiSvd

section Pairs

variable {target source : List Vec3}

theorem map_fst_zip (hlength : target.length = source.length) :
    (target.zip source).map Prod.fst = target := List.map_fst_zip hlength.le

theorem map_snd_zip (hlength : target.length = source.length) :
    (target.zip source).map Prod.snd = source := List.map_snd_zip hlength.ge

theorem alignmentW_eq (hlength : target.length = source.length) :
    alignmentW target source = crossCovariance (target.zip source) := by
  unfold alignmentW crossCovariance centred centroid
  rw [map_fst_zip hlength, map_snd_zip hlength, List.map_map]
  rfl

theorem zip_map_self {α β : Type*} (f : α → β) (l : List α) :
    (l.map f).zip l = l.map fun x => (f x, x) := by
  induction l with
  | nil => rfl
  | cons x l ih => rw [List.map_cons, List.zip_cons_cons, ih, List.map_cons]

theorem isSvd_crossCovariance {svd : JacobiSvd} (hlength : target.length = source.length)
    (hsvd : svd.Valid (alignmentW target source)) :
    IsSvd (crossCovariance (target.zip source)) svd.matrixU svd.matrixV svd.singularValues := by
  rw [← alignmentW_eq hlength]
  exact hsvd

end Pairs

section Alignment

variable {L : AlignmentLibs} {target source : List Vec3} (hne : target ≠ [])
  (hlength : target.length = source.length)

include hne hlength

/-- The pose is the best rotation, and takes centre to centre. -/
theorem computeSVD_eq (hsvd : (L.jacobiSvd (alignmentW target source)).Valid
      (alignmentW target source)) :
    let svd := L.jacobiSvd (alignmentW target source)
    (computeSVD L target source).rotation.matrix = bestRotation svd.matrixU svd.matrixV ∧
      (computeSVD L target source).translation =
        centringTranslation (target.zip source) (bestRotation svd.matrixU svd.matrixV) := by
  intro svd
  have hrot := JacobiSvd.isRotation hsvd
  have hso3 := L.so3_matrix ⟨svd.rotation, mem_rot3 hrot.mul_transpose hrot.det⟩
  have hmatrix : (L.so3 svd.rotation).matrix = svd.rotation := congrArg Rot3.matrix hso3
  unfold computeSVD
  rw [if_neg (not_or.mpr ⟨hne, not_not.mpr hlength⟩)]
  refine ⟨hmatrix.trans (JacobiSvd.rotation_eq hsvd), ?_⟩
  rw [centringTranslation, map_fst_zip hlength, map_snd_zip hlength]
  show _ - svd.rotation *ᵥ _ = _
  rw [JacobiSvd.rotation_eq hsvd]
  rfl

/-- No rigid motion has a smaller error. -/
theorem computeSVD_least (hsvd : (L.jacobiSvd (alignmentW target source)).Valid
      (alignmentW target source)) (T : Pose3) :
    squaredError target source (computeSVD L target source) ≤ squaredError target source T := by
  obtain ⟨hrotation, htranslation⟩ := computeSVD_eq hne hlength hsvd
  have hcross := isSvd_crossCovariance hlength hsvd
  unfold squaredError
  rw [hrotation, htranslation]
  exact hcross.alignmentError_le (Rot3.isRotation T.rotation) T.translation

omit hlength in
/-- A motion that takes the sources to the targets is found. -/
theorem computeSVD_exact (hsvd : (L.jacobiSvd (alignmentW target source)).Valid
      (alignmentW target source)) {T : Pose3} (htarget : target = source.map (transformed T))
    (hline : ¬Collinear ℝ {p | p ∈ source}) : computeSVD L target source = T := by
  have hlength : target.length = source.length := by rw [htarget, List.length_map]
  have hzip : target.zip source = source.map fun x => (transformed T x, x) := by
    rw [htarget, zip_map_self]
  have hzero : squaredError target source T = 0 := by
    refine alignmentError_eq_zero_iff.mpr fun p hp => ?_
    rw [hzip] at hp
    obtain ⟨x, -, rfl⟩ := List.mem_map.mp hp
    rfl
  have hnone : squaredError target source (computeSVD L target source) = 0 :=
    le_antisymm (hzero ▸ computeSVD_least hne hlength hsvd T) (alignmentError_nonneg _ _ _)
  have hagree : ∀ x ∈ source, (computeSVD L target source).rotation.matrix *ᵥ x +
      (computeSVD L target source).translation = T.rotation.matrix *ᵥ x + T.translation := by
    intro x hx
    have hmem : (transformed T x, x) ∈ target.zip source := by
      rw [hzip]
      exact List.mem_map.mpr ⟨x, hx, rfl⟩
    exact (alignmentError_eq_zero_iff.mp hnone _ hmem).symm
  obtain ⟨hrotation, htranslation⟩ :=
    (Rot3.isRotation _).eq_of_agree (Rot3.isRotation _) hline hagree
  exact Pose3.ext (Rot3.ext hrotation) htranslation

end Alignment

/-- `computeSVD` finds the rigid motion of least squared error, and an exact one that is
determined. -/
theorem computeSVD_correct (L : AlignmentLibs) (target source : List Vec3) (hne : target ≠ [])
    (hlength : target.length = source.length)
    (hsvd : (L.jacobiSvd (alignmentW target source)).Valid (alignmentW target source)) :
    IsRotation (L.jacobiSvd (alignmentW target source)).rotation ∧
      (computeSVD L target source).rotation.matrix =
        (L.jacobiSvd (alignmentW target source)).rotation ∧
      (∀ T, squaredError target source (computeSVD L target source) ≤
        squaredError target source T) ∧
      ∀ T, target = source.map (transformed T) → ¬Collinear ℝ {p | p ∈ source} →
        computeSVD L target source = T := by
  refine ⟨JacobiSvd.isRotation hsvd, ?_, computeSVD_least hne hlength hsvd, ?_⟩
  · rw [JacobiSvd.rotation_eq hsvd]
    exact (computeSVD_eq hne hlength hsvd).1
  · intro T htarget hline
    exact computeSVD_exact hne hsvd htarget hline

/-- Four points around the origin of a plane. -/
def crossPoints : List Vec3 := [![1, 0, 0], ![-1, 0, 0], ![0, 1, 0], ![0, -1, 0]]

/-- The decomposition of the matrix of these points. -/
def crossLibs : AlignmentLibs where
  jacobiSvd _ := ⟨1, 1, ![1 + 1, 1 + 1, 0]⟩
  so3 R := open Classical in if h : R ∈ specialOrthogonalGroup (Fin 3) ℝ then ⟨R, h⟩ else 1
  so3_matrix R := dif_pos R.2

theorem crossPoints_valid :
    (crossLibs.jacobiSvd (alignmentW crossPoints crossPoints)).Valid
      (alignmentW crossPoints crossPoints) := by
  refine ⟨by simp [crossLibs], by simp [crossLibs], ⟨le_rfl, ?_, ?_⟩, ?_⟩
  · simp [crossLibs]
  · simp [crossLibs]
  · ext i j
    fin_cases i <;> fin_cases j <;> simp [crossLibs, alignmentW, crossPoints, vecMulVec]

theorem crossPoints_not_collinear : ¬Collinear ℝ {p | p ∈ crossPoints} := by
  intro hline
  have hfirst : ![1, 0, 0] ∈ {p | p ∈ crossPoints} := by simp [crossPoints]
  rw [collinear_iff_of_mem hfirst] at hline
  obtain ⟨v, hv⟩ := hline
  obtain ⟨r, hr⟩ := hv ![-1, 0, 0] (by simp [crossPoints])
  obtain ⟨s, hs⟩ := hv ![0, 1, 0] (by simp [crossPoints])
  have hr0 := congrFun hr 0
  have hr1 := congrFun hr 1
  have hs1 := congrFun hs 1
  simp at hr0 hr1 hs1
  rcases hr1 with h | h
  · simp [h] at hr0
    norm_num at hr0
  · simp [h] at hs1

theorem computeSVD_correct_cross : computeSVD crossLibs crossPoints crossPoints = 1 :=
  (computeSVD_correct crossLibs crossPoints crossPoints (by simp [crossPoints]) rfl
    crossPoints_valid).2.2.2 1 (by simp [crossPoints, transformed]) crossPoints_not_collinear

end

end FastLivo
