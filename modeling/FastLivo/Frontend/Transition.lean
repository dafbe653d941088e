import FastLivo.Frontend.Turns
import FastLivo.Frontend.Propagation

/-!
# The transition of the state error

`F_x` of `UndistortPcl` beside the jacobian of the propagation in the same loop, in the error of
`StatesGroup`. They agree to the second order in the time of a step.
-/

namespace FastLivo.Frontend

open Lib Esikf Matrix Asymptotics Filter Topology

noncomputable section

variable {C : Carrier}

/-! ## The nominal propagation -/

def velOf (s : ExactState C) : Vec3 := s.velEnd

def biasGOf (s : ExactState C) : Vec3 := s.biasG

def biasAOf (s : ExactState C) : Vec3 := s.biasA

def gravityOf (s : ExactState C) : Vec3 := s.gravity

/-- The samples of a step, with the mean acceleration of the initialisation. -/
structure ImuReading where
  headGyr : Vec3
  tailGyr : Vec3
  headAcc : Vec3
  tailAcc : Vec3
  meanAcc : Vec3

/-- `angvel_avr`. -/
def ImuReading.angvelAvr (r : ImuReading) (s : ExactState C) : Vec3 :=
  (0.5 : ℝ) • (r.headGyr + r.tailGyr) - biasGOf s

/-- `acc_avr`. -/
def ImuReading.accAvr (r : ImuReading) (s : ExactState C) : Vec3 :=
  (9.81 / norm3 r.meanAcc) • ((0.5 : ℝ) • (r.headAcc + r.tailAcc)) - biasAOf s

/-- `acc_imu`. -/
def accImu (r : ImuReading) (dt : ℝ) (s : ExactState C) : Vec3 :=
  (rotOf s * expVel (r.angvelAvr s) dt) *ᵥ r.accAvr s + gravityOf s

/-- Rotation, position and velocity after a step. -/
def nominal (r : ImuReading) (dt : ℝ) (s : ExactState C) : ExactState C :=
  { s with
    rotEnd := rotOf s * expVel (r.angvelAvr s) dt
    posEnd := posOf s + dt • velOf s + (0.5 * dt * dt) • accImu r dt s
    velEnd := velOf s + dt • accImu r dt s }

/-- `F_x` of a step. -/
def transition (p : ImuParams) (r : ImuReading) (s : ExactState C) (dt : ℝ) : StateMatrix :=
  undistortF p (rotOf s) (r.accAvr s) (r.angvelAvr s) dt

/-- The state of the loop between two steps. -/
def loopState (st : PropState (exactCarrier C)) : ExactState C :=
  { st.stateInout with rotEnd := st.rImu, posEnd := st.posImu, velEnd := st.velImu }

/-- A step of the loop is a nominal step with this transition. -/
theorem propagateOnce_nominal (p : ImuParams) (r : ImuReading) {head tail : Imu (exactCarrier C)}
    (hhead : head.angularVelocity = r.headGyr ∧ head.linearAcceleration = r.headAcc)
    (htail : tail.angularVelocity = r.tailGyr ∧ tail.linearAcceleration = r.tailAcc)
    (dt : Double) (st : PropState (exactCarrier C)) :
    loopState (propagateOnce p r.meanAcc head tail dt st) =
      { nominal r dt (loopState st) with
        cov := transition p r (loopState st) dt * covOf st.stateInout *
          (transition p r (loopState st) dt)ᵀ + undistortCovW p st.rImu dt } := by
  unfold propagateOnce
  rw [hhead.1, hhead.2, htail.1, htail.2]
  rfl

/-! ## Matrices by their rows -/

/-- Rows of the attitude, the position and the velocity; the other rows are those of the identity. -/
def transitionRows (rot pos vel : Matrix (Fin 3) StateIndex ℝ) : StateMatrix :=
  of fun
    | none => (1 : StateMatrix) none
    | some (.rot, i) => rot i
    | some (.pos, i) => pos i
    | some (.vel, i) => vel i
    | some (b, i) => blockCols b i

theorem mul_blockCols_apply {m : Type*} (A : Matrix m (Fin 3) ℝ) (b c : StateBlock) (i : m)
    (k : Fin 3) : (A * blockCols b) i (some (c, k)) = if c = b then A i k else 0 := by
  by_cases h : c = b
  · subst h
    simp [blockCols, mul_apply, one_apply]
  · have h' : b ≠ c := fun e => h e.symm
    simp [blockCols, mul_apply, one_apply, h, h']

theorem mul_blockCols_none {m : Type*} (A : Matrix m (Fin 3) ℝ) (b : StateBlock) (i : m) :
    (A * blockCols b) i none = 0 := by
  simp [blockCols, mul_apply, one_apply]

theorem blockCols_apply (b c : StateBlock) (i k : Fin 3) :
    blockCols b i (some (c, k)) = if c = b then (1 : Mat3) i k else 0 := by
  rw [← mul_blockCols_apply, Matrix.one_mul]

theorem blockCols_none (b : StateBlock) (i : Fin 3) : blockCols b i none = 0 := by
  rw [← Matrix.one_mul (blockCols b), mul_blockCols_none]

theorem one_stateIndex (b c : StateBlock) (i k : Fin 3) :
    (1 : StateMatrix) (some (b, i)) (some (c, k)) = if c = b then (1 : Mat3) i k else 0 := by
  by_cases h : c = b
  · simp [one_apply, h]
  · have h' : b ≠ c := fun e => h e.symm
    simp [one_apply, h, h']

/-- The rows of `F_x`. -/
theorem undistortF_rows (p : ImuParams) (hba : p.baBgEstEn = true) (hgravity : p.gravityEstEn = true)
    (rImu : Mat3) (accAvr angvelAvr : Vec3) (dt : ℝ) :
    undistortF p rImu accAvr angvelAvr dt = transitionRows
      (expVel angvelAvr (-dt) * blockCols .rot - dt • blockCols .biasG)
      (blockCols .pos + dt • blockCols .vel)
      (blockCols .vel + dt • (-(rImu * skew accAvr) * blockCols .rot - rImu * blockCols .biasA +
        blockCols .gravity)) := by
  unfold undistortF
  rw [hba, hgravity]
  ext i j
  rcases i with _ | ⟨b, i⟩ <;> rcases j with _ | ⟨c, k⟩
  · rfl
  · rfl
  · cases b <;>
      simp [transitionRows, mul_blockCols_none, blockCols_none]
  · cases b <;> cases c <;>
      simp [transitionRows, mul_blockCols_apply, blockCols_apply, one_stateIndex]

/-! ## The jacobian of a step -/

/-- How `Exp(angvel_avr, dt)` turns near a bias: by `E`, and by `L` times the time in the bias. -/
structure Turn (w : Vec3) (E : ℝ → Rot3) (L : Vec3 → ℝ → Mat3) : Prop where
  value : ∀ t, expVel w t = (E t).matrix
  jacobian : ∀ q t, HasJacobianAt (fun b => expVel (w - b) t *ᵥ q) (-(t • L q t)) 0

section Step

variable {w : Vec3} {E : ℝ → Rot3} {L : Vec3 → ℝ → Mat3}

/-- The jacobian of a vector that the error and the step turn. -/
def turnRows (E : ℝ → Rot3) (L : Vec3 → ℝ → Mat3) (q : Vec3) (t : ℝ) :
    Matrix (Fin 3) StateIndex ℝ :=
  -skew ((E t).matrix *ᵥ q) * blockCols .rot + -(t • L q t) * blockCols .biasG

/-- The attitude after the step, from the one before. -/
def turned (w : Vec3) (t : ℝ) (x : StateVector) : Mat3 :=
  (expSkew (x.block .rot)).matrix * expVel (w - x.block .biasG) t

theorem Turn.turned_zero (h : Turn w E L) (t : ℝ) : turned w t 0 = (E t).matrix := by
  have hzero (b : StateBlock) : StateVector.block 0 b = 0 := rfl
  unfold turned
  rw [hzero, hzero, expSkew_zero, Rot3.matrix_one, Matrix.one_mul, sub_zero, h.value]

theorem Turn.hasJacobianAt_turned (h : Turn w E L) (q : Vec3) (t : ℝ) :
    HasJacobianAt (fun x => turned w t x *ᵥ q) (turnRows E L q t) 0 := by
  have hzero (b : StateBlock) : StateVector.block 0 b = 0 := rfl
  have houter (v : Vec3) : HasJacobianAt (fun x => (expSkew (StateVector.block x .rot)).matrix *ᵥ v)
      (-skew v * blockCols .rot) 0 :=
    (show HasJacobianAt _ _ (StateVector.block 0 .rot) from hasJacobianAt_expSkew v).comp
      (hasJacobianAt_block .rot 0)
  have hinner := (show HasJacobianAt _ _ (StateVector.block 0 .biasG) from h.jacobian q t).comp
    (hasJacobianAt_block .biasG 0)
  have hproduct := HasJacobianAt.mulVec_mul houter hinner
  rw [hzero, hzero, expSkew_zero, Rot3.matrix_one, Matrix.one_mul, sub_zero, h.value] at hproduct
  simp only [mulVec_mulVec] at hproduct
  exact hproduct

variable (r : ImuReading) (s : ExactState C)

theorem angvelAvr_retract (x : StateVector) :
    r.angvelAvr (retract s x) = r.angvelAvr s - x.block .biasG :=
  sub_add_eq_sub_sub _ _ _

theorem accAvr_retract (x : StateVector) :
    r.accAvr (retract s x) = r.accAvr s - x.block .biasA :=
  sub_add_eq_sub_sub _ _ _

theorem rotOf_nominal_retract (t : ℝ) (x : StateVector) :
    rotOf (nominal r t (retract s x)) = rotOf s * turned (r.angvelAvr s) t x := by
  show rotOf (retract s x) * expVel (r.angvelAvr (retract s x)) t = _
  rw [rotOf_retract, angvelAvr_retract, Matrix.mul_assoc]
  rfl

theorem accImu_retract (t : ℝ) (x : StateVector) :
    accImu r t (retract s x) =
      (rotOf s * turned (r.angvelAvr s) t x) *ᵥ (r.accAvr s - x.block .biasA) +
        (x.block .gravity + gravityOf s) := by
  unfold accImu
  rw [rotOf_retract, angvelAvr_retract, accAvr_retract, Matrix.mul_assoc, add_comm (x.block _)]
  rfl

/-- The jacobian of the acceleration. -/
def accRows (R : Mat3) (E : ℝ → Rot3) (L : Vec3 → ℝ → Mat3) (a : Vec3) (t : ℝ) :
    Matrix (Fin 3) StateIndex ℝ :=
  R * turnRows E L a t + R * (E t).matrix * -blockCols .biasA + blockCols .gravity

variable {r s}

theorem Turn.hasJacobianAt_accImu (h : Turn (r.angvelAvr s) E L) (t : ℝ) :
    HasJacobianAt (fun x => accImu r t (retract s x)) (accRows (rotOf s) E L (r.accAvr s) t) 0 := by
  have hzero : StateVector.block 0 .biasA = 0 := rfl
  have hturned (q : Vec3) :
      HasJacobianAt (fun x => (rotOf s * turned (r.angvelAvr s) t x) *ᵥ q)
        (rotOf s * turnRows E L q t) 0 := by
    have hmul := (h.hasJacobianAt_turned q t).mulVec (rotOf s)
    simp only [mulVec_mulVec] at hmul
    exact hmul
  have hacc := (hasJacobianAt_block .biasA 0).const_sub (r.accAvr s)
  have hgravity := (hasJacobianAt_block .gravity 0).add_const (gravityOf s)
  have hsum := (HasJacobianAt.mulVec_mul hturned hacc).add hgravity
  rw [hzero, sub_zero, h.turned_zero] at hsum
  simp only [accImu_retract]
  exact hsum

/-- The jacobian of the attitude error. -/
def rotRows (E : ℝ → Rot3) (L : Vec3 → ℝ → Mat3) (t : ℝ) : Matrix (Fin 3) StateIndex ℝ :=
  (E t).matrixᵀ * blockCols .rot -
    t • veeRows (fun k => (E t).matrixᵀ * L (Pi.single k 1) t) * blockCols .biasG

theorem veeRows_turnRows (E : ℝ → Rot3) (L : Vec3 → ℝ → Mat3) (t : ℝ) :
    veeRows (fun k => (E t).matrixᵀ * turnRows E L (Pi.single k 1) t) = rotRows E L t := by
  have hswap (q : Vec3) : (E t).matrixᵀ * -skew ((E t).matrix *ᵥ q) = -skew q * (E t).matrixᵀ := by
    have hq : q = (E t).matrixᵀ *ᵥ ((E t).matrix *ᵥ q) := by
      rw [mulVec_mulVec, Rot3.transpose_mul_matrix, one_mulVec]
    nth_rewrite 2 [hq]
    rw [skew_transpose_mulVec, Matrix.mul_neg, neg_mul, Matrix.mul_assoc, Rot3.matrix_mul_transpose,
      Matrix.mul_one]
  unfold turnRows rotRows
  simp only [Matrix.mul_add, ← Matrix.mul_assoc, hswap, Matrix.mul_neg, Matrix.mul_smul]
  rw [veeRows_add, veeRows_mul, veeRows_mul, veeRows_mul, veeRows_skew, Matrix.one_mul,
    veeRows_neg_smul, Matrix.neg_mul, ← sub_eq_add_neg]

theorem Turn.hasJacobianAt_rot (h : Turn (r.angvelAvr s) E L) {R : Rot3} (hR : rotOf s = R.matrix)
    (t : ℝ) :
    HasJacobianAt
      (fun x => logRot ((rotOf (nominal r t s))ᵀ * rotOf (nominal r t (retract s x))))
      (rotRows E L t) 0 := by
  have hproduct (x : StateVector) : (rotOf (nominal r t s))ᵀ * rotOf (nominal r t (retract s x)) =
      (E t).matrixᵀ * turned (r.angvelAvr s) t x := by
    have hend : rotOf (nominal r t s) = rotOf s * (E t).matrix := by
      rw [← h.value]
      rfl
    rw [hend, rotOf_nominal_retract, transpose_mul, hR, Matrix.mul_assoc, ← Matrix.mul_assoc R.matrixᵀ,
      R.transpose_mul_matrix, Matrix.one_mul]
  have hcols (k : Fin 3) :
      HasJacobianAt (fun x => ((E t).matrixᵀ * turned (r.angvelAvr s) t x) *ᵥ Pi.single k 1)
        ((E t).matrixᵀ * turnRows E L (Pi.single k 1) t) 0 := by
    have hmul := (h.hasJacobianAt_turned (Pi.single k 1) t).mulVec (E t).matrixᵀ
    simp only [mulVec_mulVec] at hmul
    exact hmul
  have hone : (E t).matrixᵀ * turned (r.angvelAvr s) t 0 = 1 := by
    rw [h.turned_zero, Rot3.transpose_mul_matrix]
  rw [← veeRows_turnRows]
  simp only [hproduct]
  exact hasJacobianAt_logRot hcols hone

/-- The jacobians of a step, for all its times. -/
def IsTransition (r : ImuReading) (s : ExactState C) (Φ : ℝ → StateMatrix) : Prop :=
  ∀ t, HasJacobianAt (fun x => boxminus (nominal r t (retract s x)) (nominal r t s)) (Φ t) 0

/-- The jacobian of a step by its rows. -/
def stepRows (R : Mat3) (E : ℝ → Rot3) (L : Vec3 → ℝ → Mat3) (a : Vec3) (t : ℝ) : StateMatrix :=
  transitionRows (rotRows E L t)
    (blockCols .pos + t • blockCols .vel + (0.5 * t * t) • accRows R E L a t)
    (blockCols .vel + t • accRows R E L a t)

/-- A block that an error is added to, and a step leaves alone. -/
theorem hasJacobianAt_kept (b : StateBlock) (v : Vec3) :
    HasJacobianAt (fun x => v + StateVector.block x b) (blockCols b) 0 := by
  have h := (hasJacobianAt_block b 0).add_const v
  simp only [add_comm _ v] at h
  exact h

theorem Turn.hasJacobianAt_pos (h : Turn (r.angvelAvr s) E L) (t : ℝ) :
    HasJacobianAt (fun x => posOf (nominal r t (retract s x)))
      (blockCols .pos + t • blockCols .vel +
        (0.5 * t * t) • accRows (rotOf s) E L (r.accAvr s) t) 0 :=
  ((hasJacobianAt_kept .pos (posOf s)).add ((hasJacobianAt_kept .vel (velOf s)).const_smul t)).add
    ((h.hasJacobianAt_accImu t).const_smul (0.5 * t * t))

theorem Turn.hasJacobianAt_vel (h : Turn (r.angvelAvr s) E L) (t : ℝ) :
    HasJacobianAt (fun x => velOf (nominal r t (retract s x)))
      (blockCols .vel + t • accRows (rotOf s) E L (r.accAvr s) t) 0 :=
  (hasJacobianAt_kept .vel (velOf s)).add ((h.hasJacobianAt_accImu t).const_smul t)

theorem Turn.isTransition (h : Turn (r.angvelAvr s) E L) {R : Rot3} (hR : rotOf s = R.matrix) :
    IsTransition r s (stepRows (rotOf s) E L (r.accAvr s)) := by
  intro t
  have hexpo : HasRowAt (fun x : StateVector => expoOf s + x none - expoOf s)
      ((1 : StateMatrix) none) 0 := by
    have hrow := (HasJacobianAt.mulVec_id (1 : StateMatrix) 0).row none
    simp only [one_mulVec] at hrow
    simpa only [add_sub_cancel_left] using hrow
  apply HasJacobianAt.of_rows
  intro i
  rcases i with _ | ⟨b, i⟩
  · exact hexpo
  · cases b with
    | rot => exact (h.hasJacobianAt_rot hR t).row i
    | pos => exact ((h.hasJacobianAt_pos t).row i).sub_const _
    | vel => exact ((h.hasJacobianAt_vel t).row i).sub_const _
    | biasG => exact ((hasJacobianAt_kept .biasG (biasGOf s)).row i).sub_const _
    | biasA => exact ((hasJacobianAt_kept .biasA (biasAOf s)).row i).sub_const _
    | gravity => exact ((hasJacobianAt_kept .gravity (gravityOf s)).row i).sub_const _

end Step

/-! ## Both sides of the cut-off -/

section CutOff

variable {w : Vec3}

theorem norm3_sub_continuous (w : Vec3) : Continuous fun b : Vec3 => norm3 (w - b) := by
  unfold norm3 dotProduct
  fun_prop

/-- Above the cut-off a step turns by the exponential. -/
theorem Turn.exp (hw : 0.0000001 < norm3 w) :
    Turn w (fun t => expSkew (t • w)) fun q t => turnJacobian q (t • w) where
  value t := expVel_eq_expSkew (Or.inr hw) t
  jacobian q t := by
    have hline : HasJacobianAt (fun b : Vec3 => t • (w - b)) (t • -1) 0 := by
      have hid : HasJacobianAt (fun b : Vec3 => b) 1 0 := by
        simpa only [one_mulVec] using HasJacobianAt.mulVec_id (1 : Mat3) 0
      exact (hid.const_sub w).const_smul t
    have hturn : HasJacobianAt (fun u => (expSkew u).matrix *ᵥ q) (turnJacobian q (t • w))
        (t • (w - 0)) := by
      rw [sub_zero]
      exact hasJacobianAt_turn q (t • w)
    have hexp := HasJacobianAt.comp (f := fun b => t • (w - b)) hturn hline
    rw [smul_neg, Matrix.mul_neg, Matrix.mul_smul, Matrix.mul_one] at hexp
    refine HasFDerivAt.congr_of_eventuallyEq hexp ?_
    have hnear : 0.0000001 < norm3 (w - 0) := by rwa [sub_zero]
    filter_upwards [(norm3_sub_continuous w).continuousAt.eventually_const_lt hnear] with b hb
    rw [expVel_eq_expSkew (Or.inr hb)]

/-- Below it a step does not turn. -/
theorem Turn.still (hw : norm3 w < 0.0000001) : Turn w (fun _ => 1) fun _ _ => 0 where
  value t := by
    rw [expVel, if_neg hw.not_gt, Rot3.matrix_one]
  jacobian q t := by
    have hconst := HasJacobianAt.const q (0 : Vec3)
    rw [smul_zero, neg_zero]
    refine HasFDerivAt.congr_of_eventuallyEq hconst ?_
    have hnear : norm3 (w - 0) < 0.0000001 := by rwa [sub_zero]
    filter_upwards [(norm3_sub_continuous w).continuousAt.eventually_lt_const hnear] with b hb
    rw [expVel, if_neg hb.not_gt, one_mulVec]

end CutOff

/-! ## Orders -/

section Orders

variable {E : ℝ → Rot3} {L : Vec3 → ℝ → Mat3}

theorem matrix_order (hE : EntriesO (fun t => (E t).matrix - 1) 1) :
    EntriesO (fun t => (E t).matrix) 0 := by
  have h := (hE.mono (Nat.zero_le 1)).add (EntriesO.const (1 : Mat3))
  simpa only [sub_add_cancel] using h

/-- A vector that is turned for a short time. -/
theorem skew_order (hE : EntriesO (fun t => (E t).matrix - 1) 1) (a : Vec3) :
    EntriesO (fun t => skew ((E t).matrix *ᵥ a) - skew a) 1 := by
  have hsplit (t : ℝ) : skew ((E t).matrix *ᵥ a) - skew a =
      ((E t).matrix - 1) * (skew a * (E t).matrixᵀ) + skew a * ((E t).matrix - 1)ᵀ := by
    have hconj : skew ((E t).matrix *ᵥ a) = (E t).matrix * skew a * (E t).matrixᵀ := by
      have h := skew_transpose_mulVec (E t)⁻¹ a
      rwa [Rot3.matrix_inv, transpose_transpose] at h
    rw [hconj, transpose_sub, transpose_one]
    noncomm_ring
  have hleft := hE.mul ((EntriesO.const (skew a)).mul (matrix_order hE).transpose)
  have hright := hE.transpose.const_mul (skew a)
  simp only [hsplit]
  exact hleft.add hright

/-- The acceleration rows at the start of a step. -/
def startRows (R : Mat3) (a : Vec3) : Matrix (Fin 3) StateIndex ℝ :=
  -(R * skew a) * blockCols .rot - R * blockCols .biasA + blockCols .gravity

theorem accRows_order (hE : EntriesO (fun t => (E t).matrix - 1) 1)
    (hL : ∀ q, EntriesO (L q) 0) (R : Mat3) (a : Vec3) :
    EntriesO (fun t => startRows R a - accRows R E L a t) 1 := by
  have hsplit (t : ℝ) : startRows R a - accRows R E L a t =
      R * (skew ((E t).matrix *ᵥ a) - skew a) * blockCols .rot +
        (t • (R * L a t)) * blockCols .biasG + R * ((E t).matrix - 1) * blockCols .biasA := by
    unfold startRows accRows turnRows
    simp only [Matrix.mul_add, Matrix.mul_sub, Matrix.sub_mul, Matrix.mul_neg, Matrix.neg_mul,
      Matrix.mul_smul, Matrix.smul_mul, Matrix.mul_one, Matrix.mul_assoc]
    abel
  simp only [hsplit]
  exact ((((skew_order hE a).const_mul R).mul_const _).add
    ((((hL a).const_mul R).smul).mul_const _)).add ((hE.const_mul R).mul_const _)

/-- Rows of the attitude, the position and the velocity of a matrix without others. -/
def rateRows (rot pos vel : Matrix (Fin 3) StateIndex ℝ) : StateMatrix :=
  of fun
    | none => 0
    | some (.rot, i) => rot i
    | some (.pos, i) => pos i
    | some (.vel, i) => vel i
    | some _ => 0

theorem transitionRows_sub (A B A' B' P P' : Matrix (Fin 3) StateIndex ℝ) :
    transitionRows A P B - transitionRows A' P' B' = rateRows (A - A') (P - P') (B - B') := by
  ext i j
  rcases i with _ | ⟨b, i⟩
  · exact sub_self _
  · cases b with
    | rot => rfl
    | pos => rfl
    | vel => rfl
    | biasG => exact sub_self _
    | biasA => exact sub_self _
    | gravity => exact sub_self _

/-- Matrices with rows that agree. -/
theorem transitionRows_order {A B P A' B' P' : ℝ → Matrix (Fin 3) StateIndex ℝ} {i j : StateIndex}
    {d : ℕ}
    (hrot : ∀ k, i = some (.rot, k) → (fun t => (A t - A' t) k j) =O[𝓝 0] fun t => t ^ d)
    (hpos : EntriesO (fun t => P t - P' t) d) (hvel : EntriesO (fun t => B t - B' t) d) :
    (fun t => (transitionRows (A t) (P t) (B t) - transitionRows (A' t) (P' t) (B' t)) i j)
      =O[𝓝 0] fun t => t ^ d := by
  simp only [transitionRows_sub]
  rcases i with _ | ⟨b, k⟩
  · exact isBigO_zero _ _
  · cases b with
    | rot => exact hrot k rfl
    | pos => exact hpos k j
    | vel => exact hvel k j
    | biasG => exact isBigO_zero _ _
    | biasA => exact isBigO_zero _ _
    | gravity => exact isBigO_zero _ _

theorem transitionRows_deriv {A B P : ℝ → Matrix (Fin 3) StateIndex ℝ}
    {A' B' P' : Matrix (Fin 3) StateIndex ℝ} (hA : EntriesDeriv A A') (hP : EntriesDeriv P P')
    (hB : EntriesDeriv B B') :
    EntriesDeriv (fun t => transitionRows (A t) (P t) (B t)) (rateRows A' P' B') := by
  intro i j
  rcases i with _ | ⟨b, k⟩
  · exact hasDerivAt_const _ _
  · cases b with
    | rot => exact hA k j
    | pos => exact hP k j
    | vel => exact hB k j
    | biasG => exact hasDerivAt_const _ _
    | biasA => exact hasDerivAt_const _ _
    | gravity => exact hasDerivAt_const _ _

theorem turnJacobian_bounded (q w : Vec3) : EntriesO (fun t => turnJacobian q (t • w)) 0 := by
  have h := ((turnJacobian_order q w).mono (Nat.zero_le 1)).sub (EntriesO.const (skew q))
  simpa only [add_sub_cancel_right] using h

/-- For short times the bias of the gyroscope turns the attitude back by itself. -/
theorem veeRows_turnJacobian_order (w : Vec3) :
    EntriesO (fun t => 1 - veeRows fun k =>
      (expSkew (t • w)).matrixᵀ * turnJacobian (Pi.single k 1) (t • w)) 1 := by
  have hsplit (k : Fin 3) (t : ℝ) :
      -skew (Pi.single k 1) - (expSkew (t • w)).matrixᵀ * turnJacobian (Pi.single k 1) (t • w) =
        0 - (turnJacobian (Pi.single k 1) (t • w) + skew (Pi.single k 1)) -
          ((expSkew (t • w)).matrix - 1)ᵀ * turnJacobian (Pi.single k 1) (t • w) := by
    rw [transpose_sub, transpose_one, Matrix.sub_mul, Matrix.one_mul]
    abel
  have hcols (k : Fin 3) : EntriesO (fun t => -skew (Pi.single k 1) -
      (expSkew (t • w)).matrixᵀ * turnJacobian (Pi.single k 1) (t • w)) 1 := by
    simp only [hsplit]
    exact (EntriesO.zero.sub (turnJacobian_order _ w)).sub
      ((expSkew_order w).transpose.mul (turnJacobian_bounded _ w))
  have h := veeRows_order hcols
  simp only [veeRows_sub, veeRows_skew] at h
  exact h

theorem expVel_neg {w : Vec3} (hw : 0.0000001 < norm3 w) (t : ℝ) :
    expVel w (-t) = (expSkew (t • w)).matrixᵀ := by
  rw [expVel_eq_expSkew (Or.inr hw), neg_smul, ← expSkew_transpose]

end Orders

/-! ## `F_x` and the jacobian -/

section Agreement

variable {p : ImuParams} {r : ImuReading} {s : ExactState C}

/-- The position and velocity rows of `F_x` agree with those of a step. -/
theorem lowerRows_order {E : ℝ → Rot3} {L : Vec3 → ℝ → Mat3}
    (hE : EntriesO (fun t => (E t).matrix - 1) 1) (hL : ∀ q, EntriesO (L q) 0) (R : Mat3) (a : Vec3) :
    EntriesO (fun t => blockCols .pos + t • blockCols .vel -
        (blockCols .pos + t • blockCols .vel + (0.5 * t * t) • accRows R E L a t)) 2 ∧
      EntriesO (fun t => blockCols .vel + t • startRows R a -
        (blockCols .vel + t • accRows R E L a t)) 2 := by
  have hacc := accRows_order hE hL R a
  have hbounded : EntriesO (fun t => accRows R E L a t) 0 := by
    have h := (EntriesO.const (startRows R a)).sub (hacc.mono (Nat.zero_le 1))
    simpa only [sub_sub_cancel] using h
  constructor
  · have hpos := hbounded.smul.smul.const_mul (-(0.5 : ℝ) • (1 : Mat3))
    have hsplit (t : ℝ) : blockCols .pos + t • blockCols .vel -
        (blockCols .pos + t • blockCols .vel + (0.5 * t * t) • accRows R E L a t) =
        (-(0.5 : ℝ) • (1 : Mat3)) * (t • (t • accRows R E L a t)) := by
      rw [Matrix.smul_mul, Matrix.one_mul]
      module
    simp only [hsplit]
    exact hpos
  · have hsplit (t : ℝ) : blockCols .vel + t • startRows R a -
        (blockCols .vel + t • accRows R E L a t) = t • (startRows R a - accRows R E L a t) := by
      module
    simp only [hsplit]
    exact hacc.smul

/-- The attitude rows of `F_x` agree with those of a step above the cut-off. -/
theorem rotRows_order {w : Vec3} (hw : 0.0000001 < norm3 w) :
    EntriesO (fun t => expVel w (-t) * blockCols .rot - t • blockCols .biasG -
      rotRows (fun t => expSkew (t • w)) (fun q t => turnJacobian q (t • w)) t) 2 := by
  have hback := (EntriesO.zero.sub (veeRows_turnJacobian_order w)).smul.mul_const (blockCols .biasG)
  have hsplit (t : ℝ) : expVel w (-t) * blockCols .rot - t • blockCols .biasG -
      rotRows (fun t => expSkew (t • w)) (fun q t => turnJacobian q (t • w)) t =
      t • (0 - (1 - veeRows fun k =>
        (expSkew (t • w)).matrixᵀ * turnJacobian (Pi.single k 1) (t • w))) * blockCols .biasG := by
    unfold rotRows
    rw [expVel_neg hw, zero_sub, neg_sub]
    simp only [Matrix.smul_mul, Matrix.sub_mul, Matrix.one_mul]
    module
  simp only [hsplit]
  exact hback

/-- Above the cut-off all entries agree to the second order. -/
theorem transition_order (hba : p.baBgEstEn = true) (hgravity : p.gravityEstEn = true)
    (hw : 0.0000001 < norm3 (r.angvelAvr s)) :
    EntriesO (fun t => transition p r s t - stepRows (rotOf s)
      (fun t => expSkew (t • r.angvelAvr s)) (fun q t => turnJacobian q (t • r.angvelAvr s))
      (r.accAvr s) t) 2 := by
  have hlower := lowerRows_order (expSkew_order (r.angvelAvr s))
    (fun q => turnJacobian_bounded q (r.angvelAvr s)) (rotOf s) (r.accAvr s)
  intro i j
  unfold transition stepRows
  simp only [undistortF_rows p hba hgravity]
  refine transitionRows_order ?_ hlower.1 hlower.2
  intro k _
  exact rotRows_order hw k j

/-- Below it the attitude row of `F_x` keeps the bias of the gyroscope, which turns nothing. -/
theorem rotRows_still {w : Vec3} (hw : norm3 w < 0.0000001) (t : ℝ) (k : Fin 3) (j : StateIndex) :
    (expVel w (-t) * blockCols .rot - t • blockCols .biasG -
      rotRows (fun _ => 1) (fun _ _ => 0) t) k j = -(t * blockCols .biasG k j) := by
  have hvee : veeRows (fun _ => (0 : Mat3)) = 0 := by
    simp only [veeRows, Matrix.mul_zero, Finset.sum_const_zero, smul_zero]
  unfold rotRows
  rw [expVel, if_neg hw.not_gt]
  simp only [Rot3.matrix_one, transpose_one, Matrix.mul_zero, hvee, smul_zero, Matrix.zero_mul]
  simp

/-- Below it they agree but for the block of the attitude and the bias of the gyroscope. -/
theorem transition_order_still (hba : p.baBgEstEn = true) (hgravity : p.gravityEstEn = true)
    (hw : norm3 (r.angvelAvr s) < 0.0000001) {i j : StateIndex}
    (hblock : ¬ ∃ k l, i = some (.rot, k) ∧ j = some (.biasG, l)) :
    (fun t => (transition p r s t -
      stepRows (rotOf s) (fun _ => 1) (fun _ _ => 0) (r.accAvr s) t) i j) =O[𝓝 0] fun t => t ^ 2 := by
  have hE : EntriesO (fun _ => Rot3.matrix 1 - 1) 1 := by
    simp only [Rot3.matrix_one, sub_self]
    exact EntriesO.zero
  have hlower := lowerRows_order hE (fun _ => EntriesO.zero) (rotOf s) (r.accAvr s)
  unfold transition stepRows
  simp only [undistortF_rows p hba hgravity]
  refine transitionRows_order ?_ hlower.1 hlower.2
  rintro k rfl
  have hentry : blockCols .biasG k j = 0 := by
    rcases j with _ | ⟨c, l⟩
    · exact blockCols_none _ _
    · rw [blockCols_apply, if_neg]
      rintro rfl
      exact hblock ⟨k, l, rfl, rfl⟩
  simp only [rotRows_still hw, hentry, mul_zero, neg_zero]
  exact isBigO_zero _ _

/-- In that block they do not. -/
theorem transition_still_entry (hba : p.baBgEstEn = true) (hgravity : p.gravityEstEn = true)
    (hw : norm3 (r.angvelAvr s) < 0.0000001) (t : ℝ) (k : Fin 3) :
    (transition p r s t - stepRows (rotOf s) (fun _ => 1) (fun _ _ => 0) (r.accAvr s) t)
      (some (.rot, k)) (some (.biasG, k)) = -t := by
  have hentry : blockCols .biasG k (some (.biasG, k)) = 1 := by
    rw [blockCols_apply, if_pos rfl, one_apply_eq]
  unfold transition stepRows
  rw [undistortF_rows p hba hgravity, transitionRows_sub]
  refine (rotRows_still hw t k _).trans ?_
  rw [hentry, mul_one]

theorem expVel_deriv (w : Vec3) : ∃ D, EntriesDeriv (fun t => expVel w (-t)) D := by
  by_cases hw : 0.0000001 < norm3 w
  · have hback (t : ℝ) : expVel w (-t) = (expSkew (t • -w)).matrix := by
      rw [expVel_eq_expSkew (Or.inr hw), neg_smul, smul_neg]
    simp only [hback]
    exact ⟨_, hasDerivAt_expSkew (-w)⟩
  · have hstill (t : ℝ) : expVel w (-t) = 1 := if_neg hw
    simp only [hstill]
    exact ⟨0, EntriesDeriv.const 1⟩

theorem expVel_zero (w : Vec3) : expVel w 0 = 1 := by
  unfold expVel
  rw [mul_zero, rodrigues_zero, ite_self]

/-- `F_x` is the identity at time zero and has a derivative there. -/
theorem transition_start (hba : p.baBgEstEn = true) (hgravity : p.gravityEstEn = true)
    (r : ImuReading) (s : ExactState C) :
    transition p r s 0 = 1 ∧ ∃ F', EntriesDeriv (transition p r s) F' := by
  have hrows (t : ℝ) := undistortF_rows p hba hgravity (rotOf s) (r.accAvr s) (r.angvelAvr s) t
  constructor
  · unfold transition
    rw [hrows, neg_zero, expVel_zero, Matrix.one_mul, zero_smul, zero_smul, zero_smul, sub_zero,
      add_zero, add_zero]
    ext i j
    rcases i with _ | ⟨b, k⟩
    · rfl
    · cases b <;> rfl
  · obtain ⟨D, hD⟩ := expVel_deriv (r.angvelAvr s)
    have hF : transition p r s = fun t => transition p r s t := rfl
    rw [hF]
    unfold transition
    simp only [hrows]
    exact ⟨_, transitionRows_deriv
      ((hD.mul_const _).sub (EntriesDeriv.smul (blockCols .biasG)))
      ((EntriesDeriv.const _).add (EntriesDeriv.smul (blockCols .vel)))
      ((EntriesDeriv.const _).add (EntriesDeriv.smul _))⟩

/-- `F_x` and the jacobian of the step start as the identity with the same derivative, and agree to
the second order of the time. -/
structure TransitionAgrees (F Φ : ℝ → StateMatrix) : Prop where
  start : F 0 = 1 ∧ Φ 0 = 1
  rate : ∃ F', EntriesDeriv F F' ∧ EntriesDeriv Φ F'
  order : EntriesO (fun t => F t - Φ t) 2

/-- `F_x` is the transition of the error that the exponential injects, for angular velocities above
the cut-off of `Exp`. Below it the loop does not turn, and `F_x` keeps the bias of the gyroscope. -/
theorem transition_agrees (hba : p.baBgEstEn = true) (hgravity : p.gravityEstEn = true)
    (r : ImuReading) {s : ExactState C} {R : Rot3} (hR : rotOf s = R.matrix) :
    (∀ x : StateVector, x.block .rot = 0 ∨ 0.00001 < norm3 (x.block .rot) →
      boxplus s x = retract s x) ∧
    (0.0000001 < norm3 (r.angvelAvr s) →
      ∃ Φ, IsTransition r s Φ ∧ TransitionAgrees (transition p r s) Φ) ∧
    (norm3 (r.angvelAvr s) < 0.0000001 →
      ∃ Φ, IsTransition r s Φ ∧ ∀ i j, (¬ ∃ k l, i = some (.rot, k) ∧ j = some (.biasG, l)) →
        (fun t => (transition p r s t - Φ t) i j) =O[𝓝 0] fun t => t ^ 2) := by
  refine ⟨fun x hx => boxplus_eq_retract s hx, fun hw => ?_, fun hw => ?_⟩
  · obtain ⟨hone, F', hF'⟩ := transition_start hba hgravity r s
    have horder := transition_order hba hgravity hw
    have hzero := horder.apply_zero
    rw [hone] at hzero
    exact ⟨_, (Turn.exp hw).isTransition hR,
      ⟨hone, (sub_eq_zero.mp hzero).symm⟩, ⟨F', hF', horder.entriesDeriv hF'⟩, horder⟩
  · exact ⟨_, (Turn.still hw).isTransition hR,
      fun i j hblock => transition_order_still hba hgravity hw hblock⟩

end Agreement

/-- A step of a body that turns. -/
def ImuReading.turning : ImuReading where
  headGyr := ![1, 0, 0]
  tailGyr := ![1, 0, 0]
  headAcc := ![0, 0, 1]
  tailAcc := ![0, 0, 1]
  meanAcc := ![0, 0, 1]

def ImuParams.sample : ImuParams where
  covGyr := 0
  covAcc := 0
  covBiasGyr := 0
  covBiasAcc := 0
  covInvExpo := 0
  baBgEstEn := true
  gravityEstEn := true
  exposureEstimateEn := true
  lidRotToImu := 1
  lidOffsetToImu := 0
  toFloat _ := 0

def StatesGroup.new : ExactState Carrier.trivial := {}

theorem transition_agrees_turning :
    (∀ x : StateVector, x.block .rot = 0 ∨ 0.00001 < norm3 (x.block .rot) →
      boxplus StatesGroup.new x = retract StatesGroup.new x) ∧
    (0.0000001 < norm3 (ImuReading.turning.angvelAvr StatesGroup.new) →
      ∃ Φ, IsTransition ImuReading.turning StatesGroup.new Φ ∧
        TransitionAgrees (transition ImuParams.sample ImuReading.turning StatesGroup.new) Φ) ∧
    (norm3 (ImuReading.turning.angvelAvr StatesGroup.new) < 0.0000001 →
      ∃ Φ, IsTransition ImuReading.turning StatesGroup.new Φ ∧
        ∀ i j, (¬ ∃ k l, i = some (.rot, k) ∧ j = some (.biasG, l)) →
          (fun t => (transition ImuParams.sample ImuReading.turning StatesGroup.new t - Φ t) i j)
            =O[𝓝 0] fun t => t ^ 2) :=
  transition_agrees rfl rfl ImuReading.turning (R := 1) rfl

/-- A step of a body at rest. -/
def ImuReading.resting : ImuReading where
  headGyr := 0
  tailGyr := 0
  headAcc := ![0, 0, 1]
  tailAcc := ![0, 0, 1]
  meanAcc := ![0, 0, 1]

theorem resting_still : norm3 (ImuReading.resting.angvelAvr StatesGroup.new) < 0.0000001 := by
  have hzero : ImuReading.resting.angvelAvr StatesGroup.new = 0 := by
    show ((0.5 : ℝ) • ((0 : Vec3) + 0)) - (0 : Vec3) = 0
    simp
  rw [hzero, norm3, dotProduct_zero, Real.sqrt_zero]
  norm_num

/-- With the error as the code injects it near zero, the step of no time has no attitude rows. With
the error as the exponential injects it, the step of a body at rest does not turn with the bias. -/
theorem transition_disagrees :
    (¬ ∃ Φ : ℝ → StateMatrix,
      (∀ t, HasJacobianAt (fun x =>
        boxminus (nominal ImuReading.turning t (boxplus StatesGroup.new x))
          (nominal ImuReading.turning t StatesGroup.new)) (Φ t) 0) ∧
      TransitionAgrees (transition ImuParams.sample ImuReading.turning StatesGroup.new) Φ) ∧
    ¬ ∃ Φ, IsTransition ImuReading.resting StatesGroup.new Φ ∧
      TransitionAgrees (transition ImuParams.sample ImuReading.resting StatesGroup.new) Φ := by
  constructor
  · rintro ⟨Φ, hΦ, hagrees⟩
    have hrow := (hΦ 0).row (some (.rot, 0))
    have hstill : HasRowAt (fun x =>
        boxminus (nominal ImuReading.turning 0 (boxplus StatesGroup.new x))
          (nominal ImuReading.turning 0 StatesGroup.new) (some (.rot, 0))) 0 0 := by
      refine HasFDerivAt.congr_of_eventuallyEq (HasJacobianAt.const (fun _ : Unit => 0) 0) ?_
      filter_upwards [expVec_eventually_one] with x hx
      have hboth : rotOf (nominal ImuReading.turning 0 (boxplus StatesGroup.new x)) = 1 ∧
          rotOf (nominal ImuReading.turning 0 StatesGroup.new) = 1 := by
        constructor
        · show (1 : Mat3) * expVec (StateVector.block x .rot) * expVel _ 0 = 1
          rw [hx, expVel_zero, Matrix.one_mul, Matrix.one_mul]
        · show (1 : Mat3) * expVel _ 0 = 1
          rw [expVel_zero, Matrix.one_mul]
      funext _
      show logRot ((rotOf (nominal ImuReading.turning 0 StatesGroup.new))ᵀ *
        rotOf (nominal ImuReading.turning 0 (boxplus StatesGroup.new x))) 0 = 0
      rw [hboth.1, hboth.2, transpose_one, Matrix.one_mul, logRot_one]
      rfl
    have hentry := congrFun (hrow.unique hstill) (some (.rot, 0))
    rw [hagrees.start.2, one_apply_eq] at hentry
    exact one_ne_zero hentry
  · rintro ⟨Φ, hΦ, hagrees⟩
    have hsteps := (Turn.still resting_still).isTransition
      (show rotOf StatesGroup.new = Rot3.matrix 1 from rfl)
    have hsame (t : ℝ) := (hΦ t).unique (hsteps t)
    obtain ⟨F', hF, hrate⟩ := hagrees.rate
    have hrest := (hF (some (.rot, 0)) (some (.biasG, 0))).sub
      (hrate (some (.rot, 0)) (some (.biasG, 0)))
    rw [sub_self] at hrest
    have hline : (fun t => -t) = fun t => transition ImuParams.sample ImuReading.resting
        StatesGroup.new t (some (.rot, 0)) (some (.biasG, 0)) -
          Φ t (some (.rot, 0)) (some (.biasG, 0)) := by
      funext t
      rw [hsame t]
      exact (transition_still_entry rfl rfl resting_still t 0).symm
    have hslope : HasDerivAt (fun t : ℝ => -t) 0 0 := hline ▸ hrest
    have hzero := hslope.unique (hasDerivAt_neg 0)
    norm_num at hzero

end

end FastLivo.Frontend
