import FastLivo.Frontend.StatesGroup

/-!
# `VoxelMapManager::StateEstimation`

The LiDAR update with its RTK rows, in exact arithmetic. What the plane map answers and
what the solver of Eigen makes of the RTK innovation are parameters. The iterations leave
a trace, which no code reads.
-/

namespace FastLivo.Frontend

open Lib Esikf Matrix

noncomputable section

/-- `pointWithVar`, with the fields that are written here. -/
structure PointWithVar where
  pointB : Vec3 := 0
  pointW : Vec3 := 0
  bodyVar : Mat3 := 0
  var : Mat3 := 0
  normal : Vec3 := 0

/-- `PointToPlane`, with the fields that are read here; its covariances are
covariances. -/
structure PointToPlane where
  pointB : Vec3
  normal : Vec3
  center : Vec3
  planeVar : Matrix PoseIndex PoseIndex ℝ
  bodyCov : Mat3
  disToPlane : ℝ
  planeVar_posSemidef : planeVar.PosSemidef
  bodyCov_posSemidef : bodyCov.PosSemidef

/-- Parameters of `VoxelMapManager` that the update reads. -/
structure LioConfig where
  maxIterations : Int
  deptErr : ℝ
  beamErr : ℝ
  extR : Mat3
  extT : Vec3
  rtkLeverArm : Vec3
  rtkInnovationGate : ℝ

/-- Code the update calls. -/
structure LioKernel where
  /-- `BuildResidualListOMP` in an iteration: `pv_list` with its normals, `ptpl_list`. -/
  buildResidualList : Nat → List PointWithVar → List PointWithVar × List PointToPlane
  /-- `innovation.dot(innovation_cov.ldlt().solve(innovation))`, `none` when not finite. -/
  nis : Mat3 → Vec3 → Option ℝ

/-- `VoxelMapManager`. -/
structure VoxelMapManager (C : Carrier) where
  state : ExactState C
  featsDownBody : List PointType
  crossMatList : List Mat3 := []
  bodyCovList : List Mat3 := []
  pvList : List PointWithVar := []
  ptplList : List PointToPlane := []
  effctFeatNum : Nat := 0
  positionLast : Vec3 := 0

/-- What a call of `StateEstimation` works with. -/
structure LioCall (C : Carrier) where
  cfg : LioConfig
  kernel : LioKernel
  statePropagat : ExactState C
  rtkGood : Bool
  rtk : RTK (exactCarrier C)

/-- `normalize()`. -/
def normalized (v : Vec3) : Vec3 := (norm3 v)⁻¹ • v

/-- `calcBodyCov`: `pb` as it leaves it, and `cov`. -/
def calcBodyCov (pb : Vec3) (rangeInc degreeInc : ℝ) : Vec3 × Mat3 :=
  let pb := if zCoord pb = 0 then setZ pb 0.0001 else pb
  let range := norm3 pb
  let rangeVar := rangeInc * rangeInc
  let sine := Real.sin (degreeInc * 0.017453293)
  let direction := normalized pb
  let baseVector1 := normalized
    (setZ 1 (-((xCoord direction + yCoord direction) / zCoord direction)))
  let baseVector2 := normalized (skew baseVector1 *ᵥ direction)
  let N : Matrix (Fin 3) Bool ℝ := of fun i j => if j then baseVector2 i else baseVector1 i
  let A : Matrix (Fin 3) Bool ℝ := range • (skew direction * N)
  let directionVar : Matrix Bool Bool ℝ := diagonal fun _ => sine * sine
  (pb, rangeVar • vecMulVec direction direction + A * directionVar * Aᵀ)

/-- Coordinates of a point. -/
def pointB (q : PointType) : Vec3 := ![(q.x : ℝ), (q.y : ℝ), (q.z : ℝ)]

/-- The first loop of `StateEstimation` on one point: its entries of `cross_mat_list_` and
`body_cov_list_`. -/
def prepared (cfg : LioConfig) (q : PointType) : Mat3 × Mat3 :=
  let pointThis := pointB q
  let pointThis := if zCoord pointThis = 0 then setZ pointThis 0.001 else pointThis
  let (pointThis, var) := calcBodyCov pointThis cfg.deptErr cfg.beamErr
  (skew (cfg.extR *ᵥ pointThis + cfg.extT), var)

variable {C : Carrier}

/-- `block<3, 3>` on the diagonal of a covariance. -/
def diagBlock (cov : StateMatrix) (b : StateBlock) : Mat3 :=
  of fun i j => cov (some (b, i)) (some (b, j))

/-- Entry of `pv_list_` for a point with its entries of the two lists. The normal is the
one found before. -/
def PointWithVar.update (cfg : LioConfig) (state : ExactState C) (q : PointType)
    (pv : PointWithVar) (pointCrossmat bodyCov : Mat3) : PointWithVar :=
  let rotEnd : Mat3 := state.rotEnd
  let posEnd : Vec3 := state.posEnd
  let rotVar := diagBlock (covOf state) .rot
  let tVar := diagBlock (covOf state) .pos
  { pv with
    pointB := Frontend.pointB q
    pointW := rotEnd *ᵥ (cfg.extR *ᵥ Frontend.pointB q + cfg.extT) + posEnd
    bodyVar := bodyCov
    var := rotEnd * bodyCov * rotEndᵀ + -pointCrossmat * rotVar * -pointCrossmatᵀ + tVar }

/-! ## Rows -/

/-- A row of `Hsub` with its entries of `R_inv` and `meas_vec`. -/
structure Row where
  h : PoseIndex → ℝ
  rInv : ℝ
  meas : ℝ

/-- Row of a plane match. -/
def lidarRow (c : LioCall C) (state : ExactState C) (ptpl : PointToPlane) : Row :=
  let extR := c.cfg.extR
  let propRot : Mat3 := c.statePropagat.rotEnd
  let propPos : Vec3 := c.statePropagat.posEnd
  let rotEnd : Mat3 := state.rotEnd
  let pointThis := extR *ᵥ ptpl.pointB + c.cfg.extT
  let pointCrossmat := skew pointThis
  let pointWorld := propRot *ᵥ pointThis + propPos
  let jNq : PoseIndex → ℝ := Sum.elim (pointWorld - ptpl.center) (-ptpl.normal)
  let var := propRot * extR * ptpl.bodyCov * (propRot * extR)ᵀ
  let sigmaL := jNq ⬝ᵥ (ptpl.planeVar *ᵥ jNq)
  { h := Sum.elim (pointCrossmat *ᵥ (rotEndᵀ *ᵥ ptpl.normal)) ptpl.normal
    rInv := 1 / (0.001 + sigmaL + ptpl.normal ⬝ᵥ (var *ᵥ ptpl.normal))
    meas := -ptpl.disToPlane }

/-- Rows of the antenna position. -/
def rtkRows (c : LioCall C) (state : ExactState C) : List Row :=
  let rotEnd : Mat3 := state.rotEnd
  let posEnd : Vec3 := state.posEnd
  let p : Vec3 := c.rtk.p
  let positionCov : Mat3 := c.rtk.positionCov
  let rtkResidual := p - (posEnd + rotEnd *ᵥ c.cfg.rtkLeverArm)
  let rtkRotJacobian := -rotEnd * skew c.cfg.rtkLeverArm
  List.ofFn fun k : Fin 3 =>
    { h := Sum.elim (rtkRotJacobian k) ((1 : Mat3) k)
      rInv := 1 / max (positionCov k k) 1e-6
      meas := rtkResidual k }

/-- `use_rtk`. -/
def useRtk (c : LioCall C) (state : ExactState C) : Bool :=
  let rotEnd : Mat3 := state.rotEnd
  let posEnd : Vec3 := state.posEnd
  let p : Vec3 := c.rtk.p
  let positionCov : Mat3 := c.rtk.positionCov
  let hGate : Matrix (Fin 3) PoseIndex ℝ := fromCols (-rotEnd * skew c.cfg.rtkLeverArm) 1
  let innovation := p - (posEnd + rotEnd *ᵥ c.cfg.rtkLeverArm)
  let innovationCov := hGate * (covOf state).submatrix poseIndex poseIndex * hGateᵀ + positionCov
  c.rtkGood && c.rtk.valid &&
    (c.kernel.nis innovationCov innovation).any fun nis => decide (nis ≤ c.cfg.rtkInnovationGate)

section Matrices

variable (rows : List Row)

/-- `Hsub`. -/
def hsub : Matrix (Fin rows.length) PoseIndex ℝ := of fun i => (rows.get i).h

/-- `R_inv`. -/
def rInv (i : Fin rows.length) : ℝ := (rows.get i).rInv

/-- `Hsub_T_R_inv`. -/
def hsubTRInv : Matrix PoseIndex (Fin rows.length) ℝ := of fun c i => (rows.get i).h c * rInv rows i

/-- `meas_vec`. -/
def measVec (i : Fin rows.length) : ℝ := (rows.get i).meas

/-- `H_T_H.block<6, 6>(0, 0)`. -/
def hTH : Matrix PoseIndex PoseIndex ℝ := hsubTRInv rows * hsub rows

/-- `K_1`, from the covariance of the state. -/
def k1 (cov : StateMatrix) : StateMatrix := (pad poseIndex (hTH rows) + cov⁻¹)⁻¹

/-- `G`. -/
def gain (cov : StateMatrix) : StateMatrix :=
  padCols poseIndex ((k1 rows cov).submatrix id poseIndex * hTH rows)

/-- `solution`, with `vec`. -/
def solution (cov : StateMatrix) (vec : StateVector) : StateVector :=
  (k1 rows cov).submatrix id poseIndex *ᵥ (hsubTRInv rows *ᵥ measVec rows) + vec -
    (gain rows cov).submatrix id poseIndex *ᵥ (vec ∘ poseIndex)

end Matrices

/-! ## Iterations -/

/-- What an iteration started from and found: the trace of the loop. -/
structure LioPass (C : Carrier) where
  iterCount : Nat
  /-- `state_` at the start of the iteration. -/
  state : ExactState C
  ptplList : List PointToPlane
  useRtk : Bool
  rows : List Row
  /-- `state_` after `state_ += solution`. -/
  next : ExactState C
  /-- Whether the branch of the covariance update was taken. -/
  covUpdated : Bool

/-- `flg_EKF_converged`. -/
def converged (solution : StateVector) : Bool :=
  decide (norm3 (solution.block .rot) * 57.3 < 0.01 ∧ norm3 (solution.block .pos) * 100.0 < 0.015)

/-- `rematch_num` after the judgement of an iteration. -/
def rematch (cfg : LioConfig) (iterCount rematchNum : Nat) (flgEKFConverged : Bool) : Nat :=
  if flgEKFConverged ∨ rematchNum = 0 ∧ (iterCount : Int) = cfg.maxIterations - 2 then rematchNum + 1
  else rematchNum

/-- An iteration: the manager, `rematch_num` and its entry of the trace. -/
def lioIteration (c : LioCall C) (iterCount rematchNum : Nat) (m : VoxelMapManager C) :
    VoxelMapManager C × Nat × LioPass C :=
  let pvList := m.featsDownBody.zipWith
    (fun q (l : PointWithVar × Mat3 × Mat3) => l.1.update c.cfg m.state q l.2.1 l.2.2)
    (m.pvList.zip (m.crossMatList.zip m.bodyCovList))
  let (pvList, ptplList) := c.kernel.buildResidualList iterCount pvList
  let useRtk := useRtk c m.state
  let rows := ptplList.map (lidarRow c m.state) ++ if useRtk then rtkRows c m.state else []
  let cov := covOf m.state
  let solution := solution rows cov (boxminus c.statePropagat m.state)
  let state := boxplus m.state solution
  let rematchNum := rematch c.cfg iterCount rematchNum (converged solution)
  let stop := decide (2 ≤ rematchNum ∨ (iterCount : Int) = c.cfg.maxIterations - 1)
  let m' : VoxelMapManager C :=
    { m with
      pvList := pvList, ptplList := ptplList, effctFeatNum := rows.length
      state := if stop then { state with cov := (1 - gain rows cov) * cov } else state
      positionLast := if stop then state.posEnd else m.positionLast }
  (m', rematchNum, ⟨iterCount, m.state, ptplList, useRtk, rows, state, stop⟩)

/-- The loop, with the iterations that are left. -/
def lioLoop (c : LioCall C) :
    Nat → Nat → Nat → VoxelMapManager C → VoxelMapManager C × List (LioPass C)
  | 0, _, _, m => (m, [])
  | left + 1, iterCount, rematchNum, m =>
    let (m, rematchNum, pass) := lioIteration c iterCount rematchNum m
    if pass.covUpdated then (m, [pass])
    else
      let (m, passes) := lioLoop c left (iterCount + 1) rematchNum m
      (m, pass :: passes)

/-- `StateEstimation` before its loop. -/
def prepareLists (c : LioCall C) (m : VoxelMapManager C) : VoxelMapManager C :=
  { m with
    crossMatList := m.featsDownBody.map fun q => (prepared c.cfg q).1
    bodyCovList := m.featsDownBody.map fun q => (prepared c.cfg q).2
    pvList := m.featsDownBody.map fun _ => {} }

/-- `StateEstimation`, with the trace of its loop. -/
def stateEstimation (c : LioCall C) (m : VoxelMapManager C) :
    VoxelMapManager C × List (LioPass C) :=
  lioLoop c c.cfg.maxIterations.toNat 0 0 (prepareLists c m)

end

end FastLivo.Frontend
