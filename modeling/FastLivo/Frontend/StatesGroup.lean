import FastLivo.Frontend.So3
import FastLivo.Lib.Information
import FastLivo.ImuProcess

/-!
# `StatesGroup` in exact arithmetic

The carriers of the estimator as vectors and matrices of reals. The 19 components of the
state error keep the order of the source: attitude at 0, position at 3, inverse exposure
time at 6, velocity at 7, biases of gyroscope and accelerometer at 10 and 13, gravity
at 16.
-/

namespace FastLivo.Frontend

open Lib Esikf Matrix

noncomputable section

/-- The parts of the error with three components. -/
inductive StateBlock
  | rot
  | pos
  | vel
  | biasG
  | biasA
  | gravity
  deriving DecidableEq

instance : Fintype StateBlock :=
  ⟨{.rot, .pos, .vel, .biasG, .biasA, .gravity}, fun b => by cases b <;> decide⟩

/-- Components of the error; `none` is the inverse exposure time. -/
abbrev StateIndex := Option (StateBlock × Fin 3)

/-- `MD(DIM_STATE, DIM_STATE)`. -/
abbrev StateMatrix := Matrix StateIndex StateIndex ℝ

/-- `VD(DIM_STATE)`. -/
abbrev StateVector := StateIndex → ℝ

/-- `block<3, 1>` of a vector. -/
def StateVector.block (x : StateVector) (b : StateBlock) : Vec3 := fun i => x (some (b, i))

/-- Assignment to `block<3, 3>` of a matrix. -/
def setBlock (M : StateMatrix) (row col : StateBlock) (B : Mat3) : StateMatrix :=
  of fun
    | some (b, i), some (c, j) => if b = row ∧ c = col then B i j else M (some (b, i)) (some (c, j))
    | i, j => M i j

/-- Assignment to the entry of the inverse exposure time. -/
def setExpo (M : StateMatrix) (x : ℝ) : StateMatrix :=
  of fun
    | none, none => x
    | i, j => M i j

section Entries

variable (M : StateMatrix) (r c : StateBlock) (B : Mat3)

@[simp] theorem setBlock_some (b d : StateBlock) (i j : Fin 3) :
    setBlock M r c B (some (b, i)) (some (d, j)) =
      if b = r ∧ d = c then B i j else M (some (b, i)) (some (d, j)) := rfl

@[simp] theorem setBlock_none_left (j : StateIndex) : setBlock M r c B none j = M none j := by
  cases j <;> rfl

@[simp] theorem setBlock_none_right (i : StateIndex) : setBlock M r c B i none = M i none := by
  cases i <;> rfl

@[simp] theorem setExpo_none (x : ℝ) : setExpo M x none none = x := rfl

@[simp] theorem setExpo_some_left (x : ℝ) (i : StateBlock × Fin 3) (j : StateIndex) :
    setExpo M x (some i) j = M (some i) j := by
  cases j <;> rfl

@[simp] theorem setExpo_some_right (x : ℝ) (i : StateIndex) (j : StateBlock × Fin 3) :
    setExpo M x i (some j) = M i (some j) := by
  cases i <;> rfl

end Entries

/-- Columns of the attitude and the position, `block<DIM_STATE, 6>(0, 0)`. -/
abbrev PoseIndex := Fin 3 ⊕ Fin 3

def poseIndex : PoseIndex → StateIndex
  | .inl i => some (.rot, i)
  | .inr i => some (.pos, i)

/-- The same with the inverse exposure time, `block<DIM_STATE, 7>(0, 0)`. -/
abbrev ExpoIndex := Option PoseIndex

def expoIndex : ExpoIndex → StateIndex
  | none => none
  | some c => poseIndex c

theorem poseIndex_injective : poseIndex.Injective := by
  intro c d h
  cases c <;> cases d <;> simp_all [poseIndex]

/-- Covariance of a new `StatesGroup`: `INIT_COV`, and less for what follows the position. -/
def initCov : StateMatrix :=
  diagonal fun
    | none => 0.00001
    | some (.rot, _) => 0.01
    | some (.pos, _) => 0.01
    | some (.vel, _) => 0.01
    | some (_, _) => 0.00001

/-- The estimator's types in exact arithmetic. Maps, images and geodesy are those of `C`. -/
def exactCarrier (C : Carrier) : Carrier :=
  { C with
    Scalar := ℝ
    V3D := Vec3
    M3D := Mat3
    Cov := StateMatrix
    SE3 := Pose3
    one := 1
    zero3d := 0
    eye3d := 1
    initCov := initCov
    se3 := 1 }

variable {C : Carrier}

/-- `StatesGroup` over the reals. -/
abbrev ExactState (C : Carrier) := StatesGroup (exactCarrier C)

/-- `cov` of a state. -/
def covOf (s : ExactState C) : StateMatrix := s.cov

def rotOf (s : ExactState C) : Mat3 := s.rotEnd

def posOf (s : ExactState C) : Vec3 := s.posEnd

/-- `inv_expo_time` of a state. -/
def expoOf (s : ExactState C) : ℝ := s.invExpoTime

/-- `operator+=`. -/
def boxplus (s : ExactState C) (stateAdd : StateVector) : ExactState C :=
  let rotEnd : Mat3 := s.rotEnd
  let posEnd : Vec3 := s.posEnd
  let invExpoTime : ℝ := s.invExpoTime
  let velEnd : Vec3 := s.velEnd
  let biasG : Vec3 := s.biasG
  let biasA : Vec3 := s.biasA
  let gravity : Vec3 := s.gravity
  { s with
    rotEnd := rotEnd * expVec (stateAdd.block .rot)
    posEnd := posEnd + stateAdd.block .pos
    invExpoTime := invExpoTime + stateAdd none
    velEnd := velEnd + stateAdd.block .vel
    biasG := biasG + stateAdd.block .biasG
    biasA := biasA + stateAdd.block .biasA
    gravity := gravity + stateAdd.block .gravity }

/-- `operator-`. -/
def boxminus (a b : ExactState C) : StateVector :=
  let rotA : Mat3 := a.rotEnd
  let rotB : Mat3 := b.rotEnd
  let expoA : ℝ := a.invExpoTime
  let expoB : ℝ := b.invExpoTime
  let sub (x y : Vec3) (i : Fin 3) : ℝ := x i - y i
  fun
    | none => expoA - expoB
    | some (.rot, i) => logRot (rotBᵀ * rotA) i
    | some (.pos, i) => sub a.posEnd b.posEnd i
    | some (.vel, i) => sub a.velEnd b.velEnd i
    | some (.biasG, i) => sub a.biasG b.biasG i
    | some (.biasA, i) => sub a.biasA b.biasA i
    | some (.gravity, i) => sub a.gravity b.gravity i

@[simp] theorem boxplus_cov (s : ExactState C) (stateAdd : StateVector) :
    covOf (boxplus s stateAdd) = covOf s := rfl

theorem initCov_posDef : initCov.PosDef := by
  refine PosDef.diagonal fun i => ?_
  obtain _ | ⟨b, i⟩ := i
  · norm_num
  · cases b <;> norm_num

end

end FastLivo.Frontend
