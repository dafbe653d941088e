import FastLivo.Frontend.Photometric
import FastLivo.Frontend.LinearStep

/-!
# Acceptance and rollback

A level accepts the states whose mean error does not grow and returns to the last of them when
one grows. The state that a step leads to is looked at in the next iteration only, so the level
ends in an accepted state or one step behind it.
-/

namespace FastLivo.Frontend

open Lib Esikf Matrix

variable {C : Carrier} {cfg : VioConfig} {f : VioFrame C} {statePropagat : ExactState C}

noncomputable section

section Level

variable {ι k : Type} [Fintype ι] [Fintype k]

/-- `*state` after `*state += solution`. -/
def steppedState (e : k → StateIndex) (cfg : VioConfig) (statePropagat : ExactState C)
    (H : ExactState C → Matrix ι k ℝ) (z : ExactState C → ι → ℝ) (state : ExactState C) :
    ExactState C :=
  boxplus state (vioSolution e cfg.imgPointCov (covOf state) (H state) (z state)
    (boxminus statePropagat state))

/-- What the trace of a level says of the state it leaves. -/
structure Rollback (next : ExactState C → ExactState C) (error : ExactState C → WithTop ℝ)
    (entry : ExactState C) (passes : List (VioPass C)) (state : ExactState C) : Prop where
  /-- The accepted errors do not grow. -/
  descent : (passes.filter VioPass.accepted).Pairwise fun p q => error q.state ≤ error p.state
  /-- The first iteration looks at the state the level was entered with, and accepts it. -/
  first : (passes.filter VioPass.accepted).head?.map VioPass.state = some entry
  /-- A level that ends with a rollback leaves the last accepted state, any other one the state
  that the step from it leads to. -/
  last : ∃ q, lastAccepted passes = some q ∧ error q.state ≤ error entry ∧
    (passes.getLast?.map VioPass.accepted = some false ∧ state = q.state ∨
      passes.getLast?.map VioPass.accepted = some true ∧ state = next q.state)

variable {e : k → StateIndex} {level : Nat} {H : ExactState C → Matrix ι k ℝ}
  {z : ExactState C → ι → ℝ} {entry : ExactState C}

/-- The loop after an iteration: beside the trace, the last error and the old state are those of
the last accepted iteration. -/
structure RollbackLoop (e : k → StateIndex) (cfg : VioConfig) (statePropagat : ExactState C)
    (H : ExactState C → Matrix ι k ℝ) (z : ExactState C → ι → ℝ) (entry : ExactState C)
    (s : VioLoop C) : Prop where
  trace : Rollback (steppedState e cfg statePropagat H z) (fun st => meanError (z st)) entry
    s.passes s.state
  old : (lastAccepted s.passes).map VioPass.state = some s.oldState
  lastError : s.lastError = meanError (z s.oldState)

/-- The first iteration. -/
theorem photometricStep_first {s : VioLoop C} (hpasses : s.passes = []) (hstate : s.state = entry)
    (htop : s.lastError = ⊤) :
    RollbackLoop e cfg statePropagat H z entry
      (photometricStep e cfg statePropagat level H z s) := by
  have hle : meanError (z s.state) ≤ s.lastError := by
    rw [htop]
    exact le_top
  unfold photometricStep
  dsimp only
  rw [if_pos hle, hpasses, hstate]
  constructor
  · constructor
    · exact List.pairwise_singleton _ _
    · rfl
    · exact ⟨⟨level, entry, true⟩, rfl, le_refl _, Or.inr ⟨rfl, rfl⟩⟩
  · rfl
  · rfl

/-- The last accepted error is the least. -/
theorem Rollback.least {next : ExactState C → ExactState C} {error : ExactState C → WithTop ℝ}
    {passes : List (VioPass C)} {state : ExactState C} (h : Rollback next error entry passes state)
    {q : VioPass C} (hq : lastAccepted passes = some q) :
    ∀ p ∈ passes.filter VioPass.accepted, error q.state ≤ error p.state := by
  obtain ⟨before, hbefore⟩ := List.getLast?_eq_some_iff.mp hq
  have hdescent := h.descent
  rw [hbefore, List.pairwise_append] at hdescent
  intro p hp
  rw [hbefore] at hp
  rcases List.mem_append.mp hp with hp | hp
  · exact hdescent.2.2 p hp q (List.mem_singleton_self q)
  · rw [List.mem_singleton.mp hp]

/-- The trace grows by an accepted iteration. -/
theorem Rollback.accept {next : ExactState C → ExactState C} {error : ExactState C → WithTop ℝ}
    {passes : List (VioPass C)} {state : ExactState C} (h : Rollback next error entry passes state)
    {q : VioPass C} (hq : lastAccepted passes = some q) (hentry : error q.state ≤ error entry)
    (hle : error state ≤ error q.state) (level : Nat) :
    Rollback next error entry (passes ++ [⟨level, state, true⟩]) (next state) := by
  have hfilter : (passes ++ [(⟨level, state, true⟩ : VioPass C)]).filter VioPass.accepted =
      passes.filter VioPass.accepted ++ [⟨level, state, true⟩] := by
    simp
  constructor
  · rw [hfilter, List.pairwise_append]
    refine ⟨h.descent, List.pairwise_singleton _ _, ?_⟩
    intro p hp r hr
    rw [List.mem_singleton.mp hr]
    exact hle.trans (h.least hq p hp)
  · rw [hfilter, List.head?_append]
    have hfirst := h.first
    cases hhead : (passes.filter VioPass.accepted).head? with
    | none =>
      rw [hhead] at hfirst
      cases hfirst
    | some r =>
      rw [hhead] at hfirst
      exact hfirst
  · refine ⟨⟨level, state, true⟩, lastAccepted_accept _ _ _, hle.trans hentry, Or.inr ⟨?_, rfl⟩⟩
    simp

/-- The trace grows by an iteration that is rolled back. -/
theorem Rollback.reject {next : ExactState C → ExactState C} {error : ExactState C → WithTop ℝ}
    {passes : List (VioPass C)} {state : ExactState C} (h : Rollback next error entry passes state)
    {q : VioPass C} (hq : lastAccepted passes = some q) (hentry : error q.state ≤ error entry)
    (level : Nat) : Rollback next error entry (passes ++ [⟨level, state, false⟩]) q.state := by
  have hfilter : (passes ++ [(⟨level, state, false⟩ : VioPass C)]).filter VioPass.accepted =
      passes.filter VioPass.accepted := by
    simp
  constructor
  · rw [hfilter]
    exact h.descent
  · rw [hfilter]
    exact h.first
  · refine ⟨q, (lastAccepted_reject _ _ _).trans hq, hentry, Or.inl ⟨?_, rfl⟩⟩
    simp

/-- A later iteration. -/
theorem photometricStep_later {s : VioLoop C} (h : RollbackLoop e cfg statePropagat H z entry s) :
    RollbackLoop e cfg statePropagat H z entry
      (photometricStep e cfg statePropagat level H z s) := by
  obtain ⟨q, hq, hentry, -⟩ := h.trace.last
  have hold : s.oldState = q.state := by
    have hmap := h.old
    rw [hq] at hmap
    exact (Option.some.inj hmap).symm
  unfold photometricStep
  dsimp only
  split
  · rename_i hle
    rw [h.lastError, hold] at hle
    constructor
    · exact h.trace.accept hq hentry hle level
    · rw [lastAccepted_accept]
      rfl
    · rfl
  · constructor
    · rw [hold]
      exact h.trace.reject hq hentry level
    · rw [lastAccepted_reject]
      exact h.old
    · exact h.lastError

/-- A level that iterates at all. -/
theorem runLevel_rollback (hmax : 1 ≤ cfg.maxIterations) (hpoints : f.totalPoints ≠ 0)
    (m : VIOManager C) :
    Rollback (steppedState e cfg statePropagat H z) (fun st => meanError (z st)) m.state
      (runLevel cfg f (photometricStep e cfg statePropagat level H z) { m with passes := [] }).passes
      (runLevel cfg f (photometricStep e cfg statePropagat level H z)
        { m with passes := [] }).state := by
  obtain ⟨left, hleft⟩ : ∃ left, cfg.maxIterations.toNat = left + 1 :=
    ⟨cfg.maxIterations.toNat - 1, by omega⟩
  unfold runLevel
  rw [if_neg hpoints, hleft]
  have hloop := vioLoop_invariant cfg (photometricStep e cfg statePropagat level H z)
    (I := fun s => (s.passes = [] ∧ s.state = m.state ∧ s.lastError = ⊤) ∨
      RollbackLoop e cfg statePropagat H z m.state s)
    (J := fun s => RollbackLoop e cfg statePropagat H z m.state s)
    (fun s h => h.elim (fun h => photometricStep_first h.1 h.2.1 h.2.2) photometricStep_later)
    (fun s h => Or.inr h) left 0
    (s := { state := m.state, oldState := m.state, g := m.g, passes := [] })
    (Or.inl ⟨rfl, rfl, rfl⟩)
  exact hloop.trace

/-- A level that does not iterate. -/
theorem runLevel_idle (step : VioLoop C → VioLoop C)
    (hidle : cfg.maxIterations < 1 ∨ f.totalPoints = 0) (m : VIOManager C) :
    (runLevel cfg f step m).state = m.state := by
  unfold runLevel
  split
  · rfl
  · rename_i hpoints
    have hzero : cfg.maxIterations.toNat = 0 := by
      have hlt := hidle.resolve_right hpoints
      omega
    rw [hzero]
    rfl

end Level

/-! ## Both variants -/

/-- What a level does with the photometric error of the state it is entered with. -/
def RollbackLaw (cfg : VioConfig) (f : VioFrame C) (next : ExactState C → ExactState C)
    (error : ExactState C → WithTop ℝ) (m out : VIOManager C) : Prop :=
  (cfg.maxIterations < 1 ∨ f.totalPoints = 0 → out.state = m.state) ∧
    (1 ≤ cfg.maxIterations → f.totalPoints ≠ 0 → Rollback next error m.state out.passes out.state)

/-- A level of either variant leaves a state that it accepted, no worse than the one it was entered
with, or the state that one step from it leads to. -/
theorem rollback_law (cfg : VioConfig) (f : VioFrame C) (statePropagat : ExactState C)
    (level : Nat) (m : VIOManager C) :
    RollbackLaw cfg f
        (steppedState expoIndex cfg statePropagat (f.hSub cfg level) (f.z level))
        (fun st => meanError (f.z level st)) m
        (updateState cfg f statePropagat level { m with passes := [] }) ∧
      RollbackLaw cfg f
        (steppedState poseIndex cfg statePropagat (f.hSubInverse level) (f.residual level))
        (fun st => meanError (f.residual level st)) m
        (updateStateInverse cfg f statePropagat level { m with passes := [] }) := by
  constructor
  · exact ⟨fun hidle => runLevel_idle _ hidle _, fun hmax hpoints => runLevel_rollback hmax hpoints m⟩
  · exact ⟨fun hidle => runLevel_idle _ hidle _, fun hmax hpoints => runLevel_rollback hmax hpoints m⟩

/-! ## A level that ends on a worse state -/

section Flat

theorem normalized_smul {a : ℝ} (ha : 0 < a) (v : Vec3) : normalized (a • v) = normalized v := by
  have hnorm : norm3 (a • v) = a * norm3 v := by
    unfold norm3
    rw [smul_dotProduct, dotProduct_smul, smul_eq_mul, smul_eq_mul, ← mul_assoc,
      Real.sqrt_mul (mul_self_nonneg a), Real.sqrt_mul_self ha.le]
  unfold normalized
  rw [hnorm, smul_smul, mul_inv, mul_right_comm, inv_mul_cancel₀ ha.ne', one_mul]

theorem norm3_smul_normalized {v : Vec3} (h : 0 < norm3 v) : norm3 v • normalized v = v := by
  unfold normalized
  rw [smul_smul, mul_inv_cancel₀ h.ne', one_smul]

theorem norm3_pos_of_zCoord {v : Vec3} (h : 0 < zCoord v) : 0 < norm3 v := by
  have hz : 0 < zCoord v * zCoord v := mul_pos h h
  have hsum : v ⬝ᵥ v = v 0 * v 0 + v 1 * v 1 + zCoord v * zCoord v := by
    rw [dotProduct, Fin.sum_univ_three]
    rfl
  apply Real.sqrt_pos.mpr
  rw [hsum]
  nlinarith [mul_self_nonneg (v 0), mul_self_nonneg (v 1)]

/-- The ray through the pixel of a point is its direction. -/
theorem pinhole_roundtrip (p : Vec3) (hp : 0 < zCoord p) :
    normalized ![xCoord p / zCoord p + 320.0 - 320.0, yCoord p / zCoord p + 240.0 - 240.0, 1] =
      normalized p := by
  have hscaled : ![xCoord p / zCoord p + 320.0 - 320.0, yCoord p / zCoord p + 240.0 - 240.0, 1] =
      (zCoord p)⁻¹ • p := by
    rw [add_sub_cancel_right, add_sub_cancel_right]
    ext i
    fin_cases i
    · exact div_eq_inv_mul _ _
    · exact div_eq_inv_mul _ _
    · exact (inv_mul_cancel₀ hp.ne').symm
  rw [hscaled, normalized_smul (inv_pos.mpr hp)]

/-- A pinhole camera for images of 640 by 480 pixels. -/
def Camera.pinhole : Camera where
  fx := 1
  fy := 1
  world2cam p := (xCoord p / zCoord p + 320.0, yCoord p / zCoord p + 240.0)
  cam2world px := normalized ![px.1 - 320.0, px.2 - 240.0, 1]
  cam2world_world2cam := pinhole_roundtrip

/-- An image of one colour. -/
def GreyImage.flat : GreyImage where
  width := 640
  data _ := 100

/-- A point that was seen in this colour. -/
def TrackedPoint.flat : TrackedPoint where
  pos := ![0, 0, 1]
  searchLevel := 0
  invRefExpo := 1
  warpPatch _ _ _ := (100 : ℕ)
  refPatch := { img := GreyImage.flat, px := (320.0, 240.0), f := ![0, 0, 1], tFW := 1 }

/-- A frame of this colour. -/
def Photo.flat : Photo where
  cam := Camera.pinhole
  img := GreyImage.flat
  patchSize := 1
  points := [TrackedPoint.flat]
  patchSize_pos := Nat.one_pos

/-- The update of the sample with one iteration. -/
def VioConfig.once : VioConfig := { VioConfig.sample with maxIterations := 1 }

/-- The frame of one colour. -/
def VioFrame.flat : VioFrame Carrier.trivial := Photo.flat.frame VioConfig.once

/-- The prediction differs from the state in the inverse exposure time. -/
def StatesGroup.brighter : ExactState Carrier.trivial :=
  { VIOManager.start.state with invExpoTime := (2.0 : ℝ) }

theorem pixelAt_flat (ptr k : ℤ) : pixelAt GreyImage.flat ptr k = 100 := by
  have hdata : (100 : UInt8).toNat = 100 := rfl
  unfold pixelAt GreyImage.flat
  dsimp only
  rw [hdata]
  norm_num

theorem subpixel_weights (scale : ℤ) (pc : ℝ × ℝ) :
    (subpixel scale pc).wRefTl + (subpixel scale pc).wRefTr + (subpixel scale pc).wRefBl +
      (subpixel scale pc).wRefBr = 1 := by
  unfold subpixel
  ring

theorem curValue_flat (scale : ℤ) (pc : ℝ × ℝ) (ptr : ℤ) :
    curValue GreyImage.flat scale (subpixel scale pc) ptr = 100 := by
  have hweights := subpixel_weights scale pc
  unfold curValue
  rw [pixelAt_flat, pixelAt_flat, pixelAt_flat, pixelAt_flat]
  linarith

theorem imageGradient_flat (scale : ℤ) (s : Subpixel) (ptr : ℤ) :
    imageGradient GreyImage.flat scale s ptr = 0 := by
  have hdu : du GreyImage.flat scale s ptr = 0 := by
    simp only [du, pixelAt_flat]
    ring
  have hdv : dv GreyImage.flat scale s ptr = 0 := by
    simp only [dv, pixelAt_flat]
    ring
  unfold imageGradient
  rw [hdu, hdv]
  ext i
  fin_cases i <;> rfl

theorem points_flat (i : Fin Photo.flat.points.length) :
    Photo.flat.points.get i = TrackedPoint.flat :=
  List.mem_singleton.mp (List.get_mem _ _)

/-- A pixel of the frame sees the exposure alone. -/
theorem updateStatePixel_flat (state : ExactState Carrier.trivial) (x y : ℕ) :
    updateStatePixel VioConfig.once Photo.flat 0 state TrackedPoint.flat x y =
      ⟨0, 0, 100, expoOf state * 100 - 1 * 100⟩ := by
  unfold updateStatePixel
  extract_lets rwi invExpoTime jdpDt scale invScale pf pc jdpi pHat s ptr jimg jdphi jdp value
  have hjimg : jimg = 0 := by
    show invScale • invExpoTime • imageGradient GreyImage.flat scale s ptr = 0
    rw [imageGradient_flat, smul_zero, smul_zero]
  have hjdphi : jdphi = 0 := by
    show (jimg ᵥ* jdpi) ᵥ* pHat = 0
    rw [hjimg, zero_vecMul, zero_vecMul]
  have hjdp : jdp = 0 := by
    show -jimg ᵥ* jdpi = 0
    rw [hjimg, neg_zero, zero_vecMul]
  have hvalue : value = 100 := curValue_flat scale pc ptr
  rw [hjdphi, hjdp, hvalue, zero_vecMul, zero_vecMul, zero_vecMul, add_zero]
  rfl

theorem pixel_flat (state : ExactState Carrier.trivial) (i : VioFrame.flat.Pixel) :
    VioFrame.flat.pixel 0 state i = ⟨0, 0, 100, expoOf state * 100 - 1 * 100⟩ :=
  (congrArg (fun pt => updateStatePixel VioConfig.once Photo.flat 0 state pt i.2.1 i.2.2)
    (points_flat i.1)).trans (updateStatePixel_flat state i.2.1 i.2.2)

theorem z_flat (state : ExactState Carrier.trivial) (i : VioFrame.flat.Pixel) :
    VioFrame.flat.z 0 state i = expoOf state * 100 - 1 * 100 :=
  congrArg PixelRow.res (pixel_flat state i)

theorem hSub_flat (state : ExactState Carrier.trivial) (i : VioFrame.flat.Pixel) (c : ExpoIndex) :
    VioFrame.flat.hSub VioConfig.once 0 state i c = c.elim 100 fun _ => 0 := by
  unfold VioFrame.hSub
  dsimp only
  rw [of_apply, pixel_flat]
  cases c with
  | none => rfl
  | some c => cases c <;> rfl

/-- The step moves the exposure: where it does not, it is the whole way to the prediction. -/
theorem solution_flat_ne_zero :
    vioSolution expoIndex VioConfig.once.imgPointCov (covOf VIOManager.start.state)
      (VioFrame.flat.hSub VioConfig.once 0 VIOManager.start.state)
      (VioFrame.flat.z 0 VIOManager.start.state)
      (boxminus StatesGroup.brighter VIOManager.start.state) none ≠ 0 := by
  have hz : VioFrame.flat.z 0 VIOManager.start.state = 0 := by
    ext i
    rw [z_flat]
    show (1 : ℝ) * 100 - 1 * 100 = 0
    norm_num
  have hvec : boxminus StatesGroup.brighter VIOManager.start.state none = 1 := by
    show (2.0 : ℝ) - 1 = 1
    norm_num
  have hH := hSub_flat VIOManager.start.state
  rw [vioSolution_eq expoIndex_injective, hz, neg_zero, mulVec_zero]
  generalize VioFrame.flat.hSub VioConfig.once 0 VIOManager.start.state = H at hH ⊢
  generalize boxminus StatesGroup.brighter VIOManager.start.state = vec at hvec ⊢
  have hP : (VioConfig.once.imgPointCov⁻¹ • covOf VIOManager.start.state).PosDef := by
    have hcov : (0 : ℝ) < VioConfig.once.imgPointCov⁻¹ := by
      norm_num [VioConfig.once, VioConfig.sample]
    exact initCov_posDef.smul hcov
  generalize VioConfig.once.imgPointCov⁻¹ • covOf VIOManager.start.state = P at hP ⊢
  have hA : ((padCols expoIndex H)ᵀ * padCols expoIndex H).PosSemidef := by
    have h := information_congr (padCols expoIndex H) (PosSemidef.one (n := VioFrame.flat.Pixel))
    rwa [Matrix.mul_one] at h
  have hnormal := mapStep_normal hP hA 0 vec
  generalize mapStep P _ 0 vec = step at hnormal ⊢
  intro hzero
  have hunseen : padCols expoIndex H *ᵥ step = 0 := by
    rw [padCols_mulVec]
    ext i
    show ∑ c, H i c * step (expoIndex c) = 0
    rw [Fintype.sum_option, show expoIndex none = none from rfl, hzero, mul_zero, zero_add]
    refine Finset.sum_eq_zero fun c _ => ?_
    rw [hH]
    exact zero_mul _
  rw [add_mulVec, ← mulVec_mulVec, hunseen, mulVec_zero, zero_add, zero_add] at hnormal
  have hstep : step = vec := by
    have hunit : IsUnit P⁻¹ := hP.inv.isUnit
    exact mulVec_injective_of_isUnit hunit hnormal
  rw [hstep, hvec] at hzero
  exact one_ne_zero hzero

theorem meanError_flat (state : ExactState Carrier.trivial) :
    meanError (VioFrame.flat.z 0 state) =
      (((expoOf state * 100 - 1 * 100) * (expoOf state * 100 - 1 * 100) : ℝ) : WithTop ℝ) := by
  have hz : VioFrame.flat.z 0 state = fun _ => expoOf state * 100 - 1 * 100 := funext (z_flat state)
  have hcard : (Fintype.card VioFrame.flat.Pixel : ℝ) ≠ 0 := by
    have hpixel : Nonempty VioFrame.flat.Pixel := ⟨⟨0, one_pos⟩, ⟨0, one_pos⟩, ⟨0, one_pos⟩⟩
    exact Nat.cast_ne_zero.mpr Fintype.card_ne_zero
  unfold meanError
  rw [hz, Finset.sum_const, Finset.card_univ, nsmul_eq_mul, mul_div_cancel_left₀ _ hcard]

/-- The only iteration accepts the state and steps on. -/
theorem updateState_flat :
    (updateState VioConfig.once VioFrame.flat StatesGroup.brighter 0 VIOManager.start).state =
      steppedState expoIndex VioConfig.once StatesGroup.brighter
        (VioFrame.flat.hSub VioConfig.once 0) (VioFrame.flat.z 0) VIOManager.start.state := by
  have hpoints : VioFrame.flat.totalPoints ≠ 0 := one_ne_zero
  unfold updateState runLevel
  rw [if_neg hpoints, show VioConfig.once.maxIterations.toNat = 1 from rfl]
  dsimp only
  rw [vioLoop, vioLoop, ite_self]
  unfold photometricStep
  dsimp only
  rw [if_pos le_top]
  rfl

/-- One iteration leaves a state whose error is larger than that of the state it was entered
with. -/
theorem updateState_grows :
    ¬ meanError (VioFrame.flat.z 0
        (updateState VioConfig.once VioFrame.flat StatesGroup.brighter 0 VIOManager.start).state) ≤
      meanError (VioFrame.flat.z 0 VIOManager.start.state) := by
  rw [updateState_flat, meanError_flat, meanError_flat, WithTop.coe_le_coe, not_le]
  have hmoved := solution_flat_ne_zero
  have hbefore : expoOf VIOManager.start.state = 1 := rfl
  have hafter (step : StateVector) : expoOf (boxplus VIOManager.start.state step) = 1 + step none :=
    rfl
  unfold steppedState
  rw [hbefore, hafter]
  have hpos := mul_self_pos.mpr hmoved
  nlinarith

end Flat

end

end FastLivo.Frontend
