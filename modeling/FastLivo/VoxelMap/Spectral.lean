import FastLivo.VoxelMap.Plane
import Mathlib.Analysis.Matrix.Spectrum

/-!
# Eigenvalues and eigenvectors

What is expected of the solver of Eigen on a symmetric matrix, and a solver that meets it.
-/

namespace FastLivo.VoxelMap

open Matrix

/-- On symmetric matrices the first three columns are an orthonormal basis of eigenvectors. -/
structure EigenSolver.Correct (s : EigenSolver ℝ) : Prop where
  orthonormal : ∀ {m : Matrix (Fin 3) (Fin 3) ℝ}, m.IsSymm → ∀ i j : Fin 3,
    s.eigenvectors m i.val ⬝ᵥ s.eigenvectors m j.val = if i = j then 1 else 0
  eigen : ∀ {m : Matrix (Fin 3) (Fin 3) ℝ}, m.IsSymm → ∀ i : Fin 3,
    m *ᵥ s.eigenvectors m i.val = s.eigenvalues m i.val • s.eigenvectors m i.val

noncomputable section

/-- The spectral decomposition of a symmetric matrix. -/
def EigenSolver.spectral : EigenSolver ℝ where
  eigenvectors := fun m i =>
    if h : m.IsHermitian ∧ i.toNat < 3 then h.1.eigenvectorBasis ⟨i.toNat, h.2⟩ else 0
  eigenvalues := fun m i =>
    if h : m.IsHermitian ∧ i.toNat < 3 then h.1.eigenvalues ⟨i.toNat, h.2⟩ else 0
  sqrt := Real.sqrt

theorem EigenSolver.spectral_correct : EigenSolver.spectral.Correct := by
  have hhermitian : ∀ {m : Matrix (Fin 3) (Fin 3) ℝ}, m.IsSymm → m.IsHermitian := by
    intro m hm
    rw [IsHermitian, conjTranspose_eq_transpose_of_trivial]
    exact hm
  have hvector : ∀ {m : Matrix (Fin 3) (Fin 3) ℝ} (hm : m.IsHermitian) (i : Fin 3),
      EigenSolver.spectral.eigenvectors m i.val = hm.eigenvectorBasis i := by
    intro m hm i
    exact dif_pos ⟨hm, i.isLt⟩
  have hvalue : ∀ {m : Matrix (Fin 3) (Fin 3) ℝ} (hm : m.IsHermitian) (i : Fin 3),
      EigenSolver.spectral.eigenvalues m i.val = hm.eigenvalues i := by
    intro m hm i
    exact dif_pos ⟨hm, i.isLt⟩
  constructor
  · intro m hm i j
    rw [hvector (hhermitian hm), hvector (hhermitian hm)]
    have hinner := orthonormal_iff_ite.mp (hhermitian hm).eigenvectorBasis.orthonormal i j
    rw [EuclideanSpace.inner_eq_star_dotProduct, star_trivial, dotProduct_comm] at hinner
    exact hinner
  · intro m hm i
    rw [hvector (hhermitian hm), hvalue (hhermitian hm)]
    exact (hhermitian hm).mulVec_eigenvectorBasis i

end

end FastLivo.VoxelMap
