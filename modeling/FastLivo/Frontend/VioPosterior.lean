import FastLivo.Frontend.Vio

/-!
# The gain that the photometric update keeps

Iterations and levels change the state and leave the covariance alone. The first iteration
of a level is always accepted, so the gain at the end is the one of the last accepted
iteration of level 0, whatever was rolled back.
-/

namespace FastLivo.Frontend

open Lib Esikf Matrix

variable {C : Carrier} {cfg : VioConfig} {f : VioFrame C} {statePropagat : ExactState C}
  {P : StateMatrix}

/-- The last accepted iteration of a trace. -/
def lastAccepted (passes : List (VioPass C)) : Option (VioPass C) :=
  (passes.filter VioPass.accepted).getLast?

@[simp] theorem lastAccepted_accept (passes : List (VioPass C)) (level : Nat)
    (state : ExactState C) :
    lastAccepted (passes ++ [⟨level, state, true⟩]) = some ⟨level, state, true⟩ := by
  simp [lastAccepted]

@[simp] theorem lastAccepted_reject (passes : List (VioPass C)) (level : Nat)
    (state : ExactState C) :
    lastAccepted (passes ++ [⟨level, state, false⟩]) = lastAccepted passes := by
  simp [lastAccepted]

/-! ## A level -/

section Level

variable {ι k : Type} [Fintype ι] [Fintype k] {e : k → StateIndex} {level : Nat}
  {H : ExactState C → Matrix ι k ℝ} {z : ExactState C → ι → ℝ}

/-- The covariance is not touched. -/
structure CovKept (P : StateMatrix) (s : VioLoop C) : Prop where
  state : covOf s.state = P
  oldState : covOf s.oldState = P
  passes : ∀ q ∈ s.passes, covOf q.state = P

/-- `G` is the gain of the last accepted iteration, one of this level. -/
def GainOf (cfg : VioConfig) (P : StateMatrix) (level : Nat) (e : k → StateIndex)
    (H : ExactState C → Matrix ι k ℝ) (passes : List (VioPass C)) (g : StateMatrix) : Prop :=
  ∃ q, lastAccepted passes = some q ∧ q.level = level ∧ g = vioGain e cfg.imgPointCov P (H q.state)

theorem photometricStep_cov {s : VioLoop C} (h : CovKept P s) :
    CovKept P (photometricStep e cfg statePropagat level H z s) := by
  have hpasses (accepted : Bool) :
      ∀ q ∈ s.passes ++ [⟨level, s.state, accepted⟩], covOf q.state = P :=
    List.forall_mem_append.mpr ⟨h.passes, List.forall_mem_singleton.mpr h.state⟩
  unfold photometricStep
  dsimp only
  split
  · exact ⟨h.state, h.state, hpasses true⟩
  · exact ⟨h.oldState, h.oldState, hpasses false⟩

/-- An iteration sets the gain or keeps it. It keeps none where no error was seen yet. -/
theorem photometricStep_gain {s : VioLoop C} (h : CovKept P s)
    (hgain : s.lastError = ⊤ ∨ GainOf cfg P level e H s.passes s.g) :
    GainOf cfg P level e H (photometricStep e cfg statePropagat level H z s).passes
      (photometricStep e cfg statePropagat level H z s).g := by
  unfold photometricStep
  dsimp only
  split
  · exact ⟨⟨level, s.state, true⟩, lastAccepted_accept _ _ _, rfl, by rw [h.state]⟩
  · rename_i hreject
    rcases hgain with htop | ⟨q, hq, hlevel, hg⟩
    · rw [htop] at hreject
      exact absurd le_top hreject
    · exact ⟨q, (lastAccepted_reject _ _ _).trans hq, hlevel, hg⟩

/-- What the first step gives and every later one keeps, a loop that runs at all ends
with. -/
theorem vioLoop_invariant (cfg : VioConfig) (step : VioLoop C → VioLoop C)
    {I J : VioLoop C → Prop} (hstep : ∀ s, I s → J (step s)) (hkeep : ∀ s, J s → I s)
    (left iteration : Nat) {s : VioLoop C} (h : I s) :
    J (vioLoop cfg step (left + 1) iteration s) := by
  induction left generalizing iteration s with
  | zero =>
    rw [vioLoop]
    split
    · exact hstep s h
    · exact hstep s h
  | succ left ih =>
    rw [vioLoop]
    split
    · exact hstep s h
    · exact ih (iteration + 1) (hkeep _ (hstep s h))

/-- The manager with its covariance untouched. -/
structure Untouched (P : StateMatrix) (m : VIOManager C) : Prop where
  state : covOf m.state = P
  passes : ∀ q ∈ m.passes, covOf q.state = P

theorem runLevel_spec (e : k → StateIndex) (level : Nat) (H : ExactState C → Matrix ι k ℝ)
    (z : ExactState C → ι → ℝ) (hmax : 1 ≤ cfg.maxIterations) (hpoints : f.totalPoints ≠ 0)
    {m : VIOManager C} (hm : Untouched P m) :
    Untouched P (runLevel cfg f (photometricStep e cfg statePropagat level H z) m) ∧
    GainOf cfg P level e H
      (runLevel cfg f (photometricStep e cfg statePropagat level H z) m).passes
      (runLevel cfg f (photometricStep e cfg statePropagat level H z) m).g := by
  obtain ⟨left, hleft⟩ : ∃ left, cfg.maxIterations.toNat = left + 1 :=
    ⟨cfg.maxIterations.toNat - 1, by omega⟩
  unfold runLevel
  rw [if_neg hpoints, hleft]
  have hloop := vioLoop_invariant cfg (photometricStep e cfg statePropagat level H z)
    (I := fun s => CovKept P s ∧ (s.lastError = ⊤ ∨ GainOf cfg P level e H s.passes s.g))
    (J := fun s => CovKept P s ∧ GainOf cfg P level e H s.passes s.g)
    (fun s h => ⟨photometricStep_cov h.1, photometricStep_gain h.1 h.2⟩)
    (fun s h => ⟨h.1, Or.inr h.2⟩) left 0
    (s := { state := m.state, oldState := m.state, g := m.g, passes := m.passes })
    ⟨⟨hm.state, hm.state, hm.passes⟩, Or.inl rfl⟩
  exact ⟨⟨hloop.1.state, hloop.1.passes⟩, hloop.2⟩

end Level

/-! ## All levels -/

/-- `G` of an iteration of the variant that is configured. -/
noncomputable def gainAt (cfg : VioConfig) (f : VioFrame C) (P : StateMatrix) (q : VioPass C) :
    StateMatrix :=
  if cfg.inverseCompositionEn then
    vioGain poseIndex cfg.imgPointCov P (f.hSubInverse q.level q.state)
  else vioGain expoIndex cfg.imgPointCov P (f.hSub cfg q.level q.state)

/-- A level of the variant that is configured. -/
noncomputable def updateLevel (cfg : VioConfig) (f : VioFrame C) (statePropagat : ExactState C)
    (level : Nat) (m : VIOManager C) : VIOManager C :=
  if cfg.inverseCompositionEn then updateStateInverse cfg f statePropagat level m
  else updateState cfg f statePropagat level m

/-- A level leaves the gain of one of its own iterations. -/
theorem updateLevel_spec (hmax : 1 ≤ cfg.maxIterations) (hpoints : f.totalPoints ≠ 0)
    (level : Nat) {m : VIOManager C} (hm : Untouched P m) :
    Untouched P (updateLevel cfg f statePropagat level m) ∧
    ∃ q, lastAccepted (updateLevel cfg f statePropagat level m).passes = some q ∧
      q.level = level ∧ (updateLevel cfg f statePropagat level m).g = gainAt cfg f P q := by
  unfold updateLevel gainAt
  split
  · obtain ⟨hkept, q, hq, rfl, hg⟩ := runLevel_spec poseIndex level (f.hSubInverse level)
      (f.residual level) hmax hpoints hm
    exact ⟨hkept, q, hq, rfl, hg⟩
  · obtain ⟨hkept, q, hq, rfl, hg⟩ := runLevel_spec expoIndex level (f.hSub cfg level)
      (f.z level) hmax hpoints hm
    exact ⟨hkept, q, hq, rfl, hg⟩

theorem levelLoop_spec (statePropagat : ExactState C) (hmax : 1 ≤ cfg.maxIterations)
    (hpoints : f.totalPoints ≠ 0) (n : Nat) {m : VIOManager C} (hm : Untouched P m) :
    Untouched P (levelLoop cfg f statePropagat (n + 1) m) ∧
    ∃ q, lastAccepted (levelLoop cfg f statePropagat (n + 1) m).passes = some q ∧ q.level = 0 ∧
      (levelLoop cfg f statePropagat (n + 1) m).g = gainAt cfg f P q := by
  induction n generalizing m with
  | zero => exact updateLevel_spec hmax hpoints 0 hm
  | succ n ih => exact ih (updateLevel_spec hmax hpoints (n + 1) hm).1

/-! ## Posterior -/

/-- The information of an iteration of the variant that is configured. -/
noncomputable def informationAt (cfg : VioConfig) (f : VioFrame C) (q : VioPass C) : StateMatrix :=
  if cfg.inverseCompositionEn then
    pad poseIndex ((f.hSubInverse q.level q.state)ᵀ * f.hSubInverse q.level q.state)
  else pad expoIndex ((f.hSub cfg q.level q.state)ᵀ * f.hSub cfg q.level q.state)

theorem pad_gram_posSemidef {ι k : Type} [Fintype ι] [Fintype k] (e : k → StateIndex)
    (H : Matrix ι k ℝ) : (pad e (Hᵀ * H)).PosSemidef := by
  have h := posSemidef_conjTranspose_mul_self H
  rw [conjTranspose_eq_transpose_of_trivial] at h
  exact pad_posSemidef e h

theorem informationAt_posSemidef (q : VioPass C) : (informationAt cfg f q).PosSemidef := by
  unfold informationAt
  split
  · exact pad_gram_posSemidef _ _
  · exact pad_gram_posSemidef _ _

theorem sub_gainAt_mul (hP : P.PosDef) (hcov : 0 < cfg.imgPointCov) (q : VioPass C) :
    P - gainAt cfg f P q * P = posterior P (cfg.imgPointCov⁻¹ • informationAt cfg f q) := by
  unfold gainAt informationAt
  split
  · rw [vioGain, padCols_submatrix_mul]
    exact sub_gain_mul_scaled hP (pad_gram_posSemidef _ _) hcov
  · rw [vioGain, padCols_submatrix_mul]
    exact sub_gain_mul_scaled hP (pad_gram_posSemidef _ _) hcov

/-- The update of the covariance is the posterior of the last accepted iteration of level
0, and every iteration worked with the covariance given. -/
theorem computeJacobianAndUpdateEKF_cov (statePropagat : ExactState C)
    (hmax : 1 ≤ cfg.maxIterations) (hlevel : 1 ≤ cfg.patchPyrimidLevel)
    (hpoints : f.totalPoints ≠ 0) (hcov : 0 < cfg.imgPointCov) {m : VIOManager C}
    (hm : Untouched P m) (hP : P.PosDef) :
    (∀ q ∈ (computeJacobianAndUpdateEKF cfg f statePropagat m).passes, covOf q.state = P) ∧
    ∃ q, lastAccepted (computeJacobianAndUpdateEKF cfg f statePropagat m).passes = some q ∧
      q.level = 0 ∧
      covOf (computeJacobianAndUpdateEKF cfg f statePropagat m).state =
        posterior P (cfg.imgPointCov⁻¹ • informationAt cfg f q) := by
  obtain ⟨n, hn⟩ : ∃ n, cfg.patchPyrimidLevel.toNat = n + 1 :=
    ⟨cfg.patchPyrimidLevel.toNat - 1, by omega⟩
  obtain ⟨hkept, q, hq, hq0, hg⟩ := levelLoop_spec statePropagat hmax hpoints n hm
  unfold computeJacobianAndUpdateEKF
  rw [if_neg hpoints, hn]
  refine ⟨hkept.passes, q, hq, hq0, ?_⟩
  rw [← sub_gainAt_mul hP hcov q, ← hg]
  show covOf _ - _ * covOf _ = _
  rw [hkept.state]

/-- The jacobian of an iteration with respect to the whole error, zero beside its 7 or 6
columns. -/
noncomputable def vioJacobian (cfg : VioConfig) (f : VioFrame C) (q : VioPass C) :
    Matrix f.Pixel StateIndex ℝ :=
  if cfg.inverseCompositionEn then padCols poseIndex (f.hSubInverse q.level q.state)
  else padCols expoIndex (f.hSub cfg q.level q.state)

theorem informationAt_eq (q : VioPass C) :
    informationAt cfg f q = (vioJacobian cfg f q)ᵀ * vioJacobian cfg f q := by
  have hgram {k : Type} [Fintype k] (e : k → StateIndex) (H : Matrix f.Pixel k ℝ) :
      pad e (Hᵀ * H) = (padCols e H)ᵀ * padCols e H := by
    have h := pad_normal e H 1
    rwa [Matrix.mul_one, Matrix.mul_one] at h
  unfold informationAt vioJacobian
  split
  · exact hgram _ _
  · exact hgram _ _

/-- Whatever was rolled back on any level, the photometric update leaves the posterior of the
covariance and of the jacobian of the last accepted iteration of level 0. -/
theorem vio_posterior (statePropagat : ExactState C) (hmax : 1 ≤ cfg.maxIterations)
    (hlevel : 1 ≤ cfg.patchPyrimidLevel) (hpoints : f.totalPoints ≠ 0)
    (hcov : 0 < cfg.imgPointCov) (m : VIOManager C) (hP : (covOf m.state).PosDef) :
    ∃ q, lastAccepted
        (computeJacobianAndUpdateEKF cfg f statePropagat { m with passes := [] }).passes = some q ∧
      q.level = 0 ∧
      covOf (computeJacobianAndUpdateEKF cfg f statePropagat { m with passes := [] }).state =
        ((covOf m.state)⁻¹ +
          cfg.imgPointCov⁻¹ • ((vioJacobian cfg f q)ᵀ * vioJacobian cfg f q))⁻¹ := by
  have hm : Untouched (covOf m.state) { m with passes := [] } := by
    constructor
    · rfl
    · intro q hq
      cases hq
  obtain ⟨-, q, hq, hq0, hposterior⟩ :=
    computeJacobianAndUpdateEKF_cov statePropagat hmax hlevel hpoints hcov hm hP
  refine ⟨q, hq, hq0, ?_⟩
  rw [hposterior, posterior, informationAt_eq, add_comm]

/-- A frame with one point of one pixel. -/
noncomputable def VioFrame.onePixel : VioFrame Carrier.trivial where
  totalPoints := 1
  patchSize := 1
  patchSize_pos := one_pos
  pixel _ _ _ := ⟨1, 1, 1, 1⟩
  refPixel _ _ := (1, 1)
  residual _ _ _ := 1

noncomputable def VioConfig.sample : VioConfig where
  maxIterations := 5
  patchPyrimidLevel := 4
  imgPointCov := 100.0
  exposureEstimateEn := true
  inverseCompositionEn := false
  rci := 1
  pci := 0

noncomputable def VIOManager.start : VIOManager Carrier.trivial where
  state := {}
  g := 0
  rcw := 1
  pcw := 0

theorem vio_posterior_onePixel :
    ∃ q, lastAccepted (computeJacobianAndUpdateEKF VioConfig.sample VioFrame.onePixel {}
        { VIOManager.start with passes := [] }).passes = some q ∧
      q.level = 0 ∧
      covOf (computeJacobianAndUpdateEKF VioConfig.sample VioFrame.onePixel {}
          { VIOManager.start with passes := [] }).state =
        ((covOf VIOManager.start.state)⁻¹ + VioConfig.sample.imgPointCov⁻¹ •
          ((vioJacobian VioConfig.sample VioFrame.onePixel q)ᵀ *
            vioJacobian VioConfig.sample VioFrame.onePixel q))⁻¹ := by
  have hcov : 0 < VioConfig.sample.imgPointCov := by norm_num [VioConfig.sample]
  have hpoints : VioFrame.onePixel.totalPoints ≠ 0 := one_ne_zero
  exact vio_posterior {} (by decide) (by decide) hpoints hcov VIOManager.start initCov_posDef

end FastLivo.Frontend
