import Mathlib.Algebra.Order.Field.Basic
import Mathlib.Data.Matrix.ColumnRowPartitioned
import Mathlib.LinearAlgebra.Matrix.Notation

/-!
# Planes of the voxel map

`VoxelOctoTree::init_plane` fits a plane to the points of a node. The eigenvalues and
eigenvectors of Eigen are a parameter, and so is the square root.
-/

namespace FastLivo.VoxelMap

open Matrix

/-- `pointWithVar`, as the map keeps it. -/
structure PointWithVar (K : Type*) where
  pointW : Fin 3 → K
  var : Matrix (Fin 3) (Fin 3) K

/-- `VoxelPlane`, without its number and what only its display uses. -/
structure VoxelPlane (K : Type*) [Field K] where
  center : Fin 3 → K := 0
  normal : Fin 3 → K := 0
  yNormal : Fin 3 → K := 0
  xNormal : Fin 3 → K := 0
  covariance : Matrix (Fin 3) (Fin 3) K := 0
  planeVar : Matrix (Fin 3 ⊕ Fin 3) (Fin 3 ⊕ Fin 3) K := 0
  radius : K := 0
  minEigenValue : K := 1
  midEigenValue : K := 1
  maxEigenValue : K := 1
  d : K := 0
  pointsSize : ℕ := 0
  isPlane : Bool := false
  isInit : Bool := false

/-- What `init_plane` uses of Eigen and of the mathematical library. Outside of 0, 1 and 2 an
index reads whatever is there. -/
structure EigenSolver (K : Type*) where
  /-- `eigenvectors().real().col(i)`. -/
  eigenvectors : Matrix (Fin 3) (Fin 3) K → ℤ → Fin 3 → K
  /-- `eigenvalues().real()(i)`. -/
  eigenvalues : Matrix (Fin 3) (Fin 3) K → ℤ → K
  sqrt : K → K

variable {K : Type*} [Field K] [LinearOrder K]

/-- `minCoeff`: the first index of a smallest coefficient. -/
def minCoeff (v : ℤ → K) : ℤ := [1, 2].foldl (fun best i => if v i < v best then i else best) 0

/-- `maxCoeff`: the first index of a largest coefficient. -/
def maxCoeff (v : ℤ → K) : ℤ := [1, 2].foldl (fun best i => if v best < v i then i else best) 0

/-- The mean of the points. -/
def centerOf (points : List (PointWithVar K)) : Fin 3 → K :=
  (points.length : K)⁻¹ • (points.map PointWithVar.pointW).sum

/-- `covariance_` of the points. -/
def covarianceOf (points : List (PointWithVar K)) : Matrix (Fin 3) (Fin 3) K :=
  (points.length : K)⁻¹ • (points.map fun pv => vecMulVec pv.pointW pv.pointW).sum -
    vecMulVec (centerOf points) (centerOf points)

/-- `J` of a point. -/
def planeJacobian (s : EigenSolver K) (points : List (PointWithVar K)) (pv : PointWithVar K) :
    Matrix (Fin 3 ⊕ Fin 3) (Fin 3) K :=
  let evecs := s.eigenvectors (covarianceOf points)
  let evals := s.eigenvalues (covarianceOf points)
  let evalsMin := minCoeff evals
  let F : Matrix (Fin 3) (Fin 3) K := of fun m =>
    if (m.val : ℤ) = evalsMin then 0
    else
      (points.length * (evals evalsMin - evals m.val))⁻¹ •
        ((pv.pointW - centerOf points) ᵥ*
          (vecMulVec (evecs m.val) (evecs evalsMin) + vecMulVec (evecs evalsMin) (evecs m.val)))
  fromRows ((of fun i j => evecs (j.val : ℤ) i) * F) ((points.length : K)⁻¹ • 1)

/-- `init_plane`. -/
def initPlane (s : EigenSolver K) (planerThreshold : K) (points : List (PointWithVar K))
    (plane : VoxelPlane K) : VoxelPlane K :=
  let evecs := s.eigenvectors (covarianceOf points)
  let evals := s.eigenvalues (covarianceOf points)
  let evalsMin := minCoeff evals
  let evalsMax := maxCoeff evals
  let evalsMid := 3 - evalsMin - evalsMax
  let plane : VoxelPlane K :=
    { plane with
      planeVar := 0
      covariance := covarianceOf points
      center := centerOf points
      normal := 0
      pointsSize := points.length
      radius := 0 }
  if evals evalsMin < planerThreshold then
    { plane with
      planeVar := (points.map fun pv =>
        planeJacobian s points pv * pv.var * (planeJacobian s points pv)ᵀ).sum
      normal := evecs evalsMin
      yNormal := evecs evalsMid
      xNormal := evecs evalsMax
      minEigenValue := evals evalsMin
      midEigenValue := evals evalsMid
      maxEigenValue := evals evalsMax
      radius := s.sqrt (evals evalsMax)
      d := -(evecs evalsMin ⬝ᵥ centerOf points)
      isPlane := true
      isInit := true }
  else { plane with isPlane := false }

/-- Every fit decides anew whether the points are planar. -/
theorem initPlane_isPlane (s : EigenSolver K) (planerThreshold : K) (points : List (PointWithVar K))
    (plane : VoxelPlane K) :
    (initPlane s planerThreshold points plane).isPlane =
      decide (s.eigenvalues (covarianceOf points)
        (minCoeff (s.eigenvalues (covarianceOf points))) < planerThreshold) := by
  unfold initPlane
  dsimp only
  split <;> simp [*]

end FastLivo.VoxelMap
