import FastLivo.Frontend.StateEstimation

/-!
# `VIOManager::computeJacobianAndUpdateEKF`

The photometric update with its two variants, in exact arithmetic. What the patches of
the tracked points give in a state is a parameter. An error is compared with the largest
float first, and none is above it.
-/

namespace FastLivo.Frontend

open Lib Esikf Matrix

noncomputable section

/-- Parameters of `VIOManager` that the update reads. -/
structure VioConfig where
  maxIterations : Int
  patchPyrimidLevel : Int
  imgPointCov : ℝ
  exposureEstimateEn : Bool
  inverseCompositionEn : Bool
  rci : Mat3
  pci : Vec3

/-- A pixel of `updateState`: the factors of its row of `H_sub`, and its residual. -/
structure PixelRow where
  jdR : Vec3
  jdt : Vec3
  curValue : ℝ
  res : ℝ

/-- The patches of a frame. -/
structure VioFrame (C : Carrier) where
  totalPoints : Nat
  patchSize : Nat
  patchSize_pos : 0 < patchSize
  /-- A pixel of `updateState` at a level, in a state. -/
  pixel : Nat → ExactState C → Fin totalPoints × Fin patchSize × Fin patchSize → PixelRow
  /-- `precomputeReferencePatches` at a level: the two parts of a row of `H_sub_inv`. -/
  refPixel : Nat → Fin totalPoints × Fin patchSize × Fin patchSize → Vec3 × Vec3
  /-- A residual of `updateStateInverse` at a level, in a state. -/
  residual : Nat → ExactState C → Fin totalPoints × Fin patchSize × Fin patchSize → ℝ

variable {C : Carrier}

/-- Rows of `H_sub` and `z`. -/
abbrev VioFrame.Pixel (f : VioFrame C) := Fin f.totalPoints × Fin f.patchSize × Fin f.patchSize

/-- `H_sub` of `updateState`. Without exposure estimation its last column stays zero. -/
def VioFrame.hSub (f : VioFrame C) (cfg : VioConfig) (level : Nat) (state : ExactState C) :
    Matrix f.Pixel ExpoIndex ℝ :=
  of fun i c =>
    let r := f.pixel level state i
    c.elim (if cfg.exposureEstimateEn then r.curValue else 0) (Sum.elim r.jdR r.jdt)

/-- `z` of `updateState`. -/
def VioFrame.z (f : VioFrame C) (level : Nat) (state : ExactState C) (i : f.Pixel) : ℝ :=
  (f.pixel level state i).res

/-- `H_sub` of `updateStateInverse`. -/
def VioFrame.hSubInverse (f : VioFrame C) (level : Nat) (state : ExactState C) :
    Matrix f.Pixel PoseIndex ℝ :=
  let rwi : Mat3 := state.rotEnd
  let pwi : Vec3 := state.posEnd
  of fun i =>
    let (jdR, jdt) := f.refPixel level i
    Sum.elim (jdR ᵥ* rwi + jdt ᵥ* (skew pwi * rwi)) (jdt ᵥ* rwi)

/-- An iteration of a level: the trace of the update. -/
structure VioPass (C : Carrier) where
  level : Nat
  /-- `*state` at the start of the iteration. -/
  state : ExactState C
  accepted : Bool

/-- Variables of the loop of a level, with `G`. -/
structure VioLoop (C : Carrier) where
  state : ExactState C
  oldState : ExactState C
  lastError : WithTop ℝ := ⊤
  g : StateMatrix
  ekfEnd : Bool := false
  passes : List (VioPass C) := []

section Update

variable {ι k : Type} [Fintype ι] [Fintype k]

/-- `error`. -/
def meanError (z : ι → ℝ) : WithTop ℝ := ((∑ i, z i * z i) / Fintype.card ι : ℝ)

/-- `K_1`, from the covariance of the state. -/
def vioK1 (e : k → StateIndex) (imgPointCov : ℝ) (cov : StateMatrix) (H : Matrix ι k ℝ) :
    StateMatrix :=
  (pad e (Hᵀ * H) + (imgPointCov⁻¹ • cov)⁻¹)⁻¹

/-- `G`. -/
def vioGain (e : k → StateIndex) (imgPointCov : ℝ) (cov : StateMatrix) (H : Matrix ι k ℝ) :
    StateMatrix :=
  padCols e ((vioK1 e imgPointCov cov H).submatrix id e * (Hᵀ * H))

/-- `solution`, with `vec`. -/
def vioSolution (e : k → StateIndex) (imgPointCov : ℝ) (cov : StateMatrix) (H : Matrix ι k ℝ)
    (z : ι → ℝ) (vec : StateVector) : StateVector :=
  -((vioK1 e imgPointCov cov H).submatrix id e *ᵥ (Hᵀ *ᵥ z)) + vec -
    (vioGain e imgPointCov cov H).submatrix id e *ᵥ (vec ∘ e)

/-- An iteration, for either number of columns: accept the state and step on, or roll
back. -/
def photometricStep (e : k → StateIndex) (cfg : VioConfig) (statePropagat : ExactState C)
    (level : Nat) (hSub : ExactState C → Matrix ι k ℝ) (z : ExactState C → ι → ℝ)
    (s : VioLoop C) : VioLoop C :=
  let H := hSub s.state
  let z := z s.state
  let error := meanError z
  if error ≤ s.lastError then
    let solution := vioSolution e cfg.imgPointCov (covOf s.state) H z
      (boxminus statePropagat s.state)
    { state := boxplus s.state solution
      oldState := s.state
      lastError := error
      g := vioGain e cfg.imgPointCov (covOf s.state) H
      ekfEnd := decide (norm3 (solution.block .rot) * 57.3 < 0.001 ∧
        norm3 (solution.block .pos) * 100.0 < 0.001)
      passes := s.passes ++ [⟨level, s.state, true⟩] }
  else
    { s with
      state := s.oldState, ekfEnd := true, passes := s.passes ++ [⟨level, s.state, false⟩] }

end Update

/-- The loop of a level, with the iterations that are left. -/
def vioLoop (cfg : VioConfig) (step : VioLoop C → VioLoop C) : Nat → Nat → VioLoop C → VioLoop C
  | 0, _, s => s
  | left + 1, iteration, s =>
    let s := step s
    if (iteration : Int) = cfg.maxIterations ∨ s.ekfEnd then s
    else vioLoop cfg step left (iteration + 1) s

/-- `VIOManager`, with the trace of its updates. -/
structure VIOManager (C : Carrier) where
  state : ExactState C
  g : StateMatrix
  rcw : Mat3
  pcw : Vec3
  passes : List (VioPass C) := []

/-- A level from its first to its last iteration. -/
def runLevel (cfg : VioConfig) (f : VioFrame C) (step : VioLoop C → VioLoop C)
    (m : VIOManager C) : VIOManager C :=
  if f.totalPoints = 0 then m
  else
    let s := vioLoop cfg step cfg.maxIterations.toNat 0
      { state := m.state, oldState := m.state, g := m.g, passes := m.passes }
    { m with state := s.state, g := s.g, passes := s.passes }

/-- `updateState`. -/
def updateState (cfg : VioConfig) (f : VioFrame C) (statePropagat : ExactState C) (level : Nat) :
    VIOManager C → VIOManager C :=
  runLevel cfg f
    (photometricStep expoIndex cfg statePropagat level (f.hSub cfg level) (f.z level))

/-- `updateStateInverse`. The reference patches are those of the level: the caller has
dropped the ones of the level before. -/
def updateStateInverse (cfg : VioConfig) (f : VioFrame C) (statePropagat : ExactState C)
    (level : Nat) : VIOManager C → VIOManager C :=
  runLevel cfg f
    (photometricStep poseIndex cfg statePropagat level (f.hSubInverse level) (f.residual level))

/-- The loop over the levels, from the one below the given number down. -/
def levelLoop (cfg : VioConfig) (f : VioFrame C) (statePropagat : ExactState C) :
    Nat → VIOManager C → VIOManager C
  | 0, m => m
  | level + 1, m =>
    levelLoop cfg f statePropagat level
      (if cfg.inverseCompositionEn then updateStateInverse cfg f statePropagat level m
      else updateState cfg f statePropagat level m)

/-- `updateFrameState`. -/
def updateFrameState (cfg : VioConfig) (m : VIOManager C) : VIOManager C :=
  let rwi : Mat3 := m.state.rotEnd
  let pwi : Vec3 := m.state.posEnd
  { m with rcw := cfg.rci * rwiᵀ, pcw := -(cfg.rci * rwiᵀ) *ᵥ pwi + cfg.pci }

/-- `computeJacobianAndUpdateEKF`. -/
def computeJacobianAndUpdateEKF (cfg : VioConfig) (f : VioFrame C) (statePropagat : ExactState C)
    (m : VIOManager C) : VIOManager C :=
  if f.totalPoints = 0 then m
  else
    let m := levelLoop cfg f statePropagat cfg.patchPyrimidLevel.toNat m
    let cov := covOf m.state
    updateFrameState cfg { m with state := { m.state with cov := cov - m.g * cov } }

end

end FastLivo.Frontend
