import FastLivo.Esikf.Run
import FastLivo.Esikf.Numerics

/-!
# Soundness of the covariance

Prediction, initialisation and the Joseph form keep the covariance positive semidefinite,
an accepted update lowers it in the Loewner order, and a rejected one changes nothing.
The variances of what is queued are positive, as the callbacks make them.
-/

namespace FastLivo.Esikf

open Lib Matrix RealtimeGlobalEsikf

noncomputable section

variable {N : Numerics} {cfg : GlobalEsikfConfig}

/-- Variances of the process noise. -/
structure NonnegProcess (cfg : GlobalEsikfConfig) : Prop where
  rotation : 0 ≤ cfg.rotationProcessVariance
  position : 0 ≤ cfg.positionProcessVariance
  velocity : 0 ≤ cfg.velocityProcessVariance

/-- Variances of what an observation measures. -/
structure PositiveVariance (o : GlobalRtkObservation) : Prop where
  position : ∀ i, 0 < o.positionVariance i
  velocity : o.velocityValid = true → ∀ i, 0 < o.velocityVariance i
  heading : o.headingValid = true → 0 < o.headingVariance

/-- An update that was tried: what it leaves of a sound covariance. -/
structure UpdateSound (u : Update) : Prop where
  before : u.before.covariance.PosSemidef
  after : u.after.covariance.PosSemidef
  shrinks : u.accepted = true → (u.before.covariance - u.after.covariance).PosSemidef
  unchanged : u.accepted = false → u.after = u.before

/-! ## Prediction and initialisation -/

theorem diagonalBlocks_posSemidef {rotation position velocity : Vec3} (hr : ∀ i, 0 ≤ rotation i)
    (hp : ∀ i, 0 ≤ position i) (hv : ∀ i, 0 ≤ velocity i) :
    (diagonalBlocks rotation position velocity).PosSemidef := by
  refine PosSemidef.diagonal fun i => ?_
  obtain ⟨b, k⟩ := i
  cases b with
  | rotation => exact hr k
  | position => exact hp k
  | velocity => exact hv k

theorem configured_posSemidef : configured.covariance.PosSemidef := by
  refine diagonalBlocks_posSemidef ?_ ?_ ?_ <;> intro i <;> fin_cases i <;> norm_num

theorem predict_posSemidef (hcfg : NonnegProcess cfg) {f : RealtimeGlobalEsikf}
    (hP : f.covariance.PosSemidef) (localRelative : Pose3) {dt : ℝ} (hdt : 0 ≤ dt) :
    (f.predict N cfg localRelative dt).covariance.PosSemidef := by
  have hQ : (processNoise cfg dt).PosSemidef :=
    diagonalBlocks_posSemidef (fun _ => mul_nonneg hcfg.rotation hdt)
      (fun _ => mul_nonneg hcfg.position hdt) (fun _ => mul_nonneg hcfg.velocity hdt)
  have hnext := posSemidef_predict hP hQ (transition f.globalPose.rotation localRelative)
  show (symmetrize _).PosSemidef
  rw [symmetrize_of_posSemidef hnext]
  exact hnext

theorem advance_posSemidef (hcfg : NonnegProcess cfg) {f : RealtimeGlobalEsikf}
    (hP : f.covariance.PosSemidef) (stamp : Double) (localPose : Pose3) :
    (f.advance N cfg stamp localPose).covariance.PosSemidef := by
  unfold advance
  split
  · exact hP
  · simp only
    split
    · exact hP
    · rename_i hdt
      push Not at hdt
      exact predict_posSemidef (N := N) hcfg hP _ (by exact_mod_cast hdt.1.le)

theorem initializeFromRtk_posSemidef {o : GlobalRtkObservation} (ho : PositiveVariance o)
    (localPose : Pose3) (f : RealtimeGlobalEsikf) :
    (f.initializeFromRtk cfg o localPose).covariance.PosSemidef := by
  have hcov : (f.initializeFromRtk cfg o localPose).covariance =
      diagonalBlocks (fun _ => if o.headingValid then o.headingVariance else 1) o.positionVariance
        (if o.velocityValid then o.velocityVariance else fun _ => 4) := rfl
  rw [hcov]
  refine diagonalBlocks_posSemidef (fun _ => ?_) (fun i => (ho.position i).le) fun i => ?_
  · split
    · exact (ho.heading (by assumption)).le
    · exact zero_le_one
  · split
    · exact (ho.velocity (by assumption) i).le
    · norm_num

/-! ## Updates -/

/-- The columns that `solve` gives for the identity are an inverse. -/
theorem solve_identity {n : ℕ} {S : Matrix (Fin n) (Fin n) ℝ} {solve : (Fin n → ℝ) → Fin n → ℝ}
    (h : ∀ b, S *ᵥ solve b = b) : (of fun i j => solve (Pi.single j 1) i) * S = 1 := by
  rw [mul_eq_one_comm]
  ext i j
  have hcol := congrFun (h (Pi.single j 1)) i
  rw [Pi.single_apply] at hcol
  rw [one_apply]
  exact hcol

theorem kalmanUpdate_sound {n : ℕ} (innovation : Fin n → ℝ)
    (jacobian : Matrix (Fin n) ErrorIndex ℝ) {noise : Matrix (Fin n) (Fin n) ℝ}
    (hnoise : noise.PosDef) (gate : ℝ) {f : RealtimeGlobalEsikf} (hP : f.covariance.PosSemidef) :
    UpdateSound ⟨f, (f.kalmanUpdate N innovation jacobian noise gate).2,
      (f.kalmanUpdate N innovation jacobian noise gate).1⟩ := by
  have hrejected : UpdateSound ⟨f, f, false⟩ := ⟨hP, hP, by simp, fun _ => rfl⟩
  have hS := innovationCov_posDef hP hnoise jacobian
  unfold kalmanUpdate
  split
  · exact hrejected
  · rename_i solve hsolve
    split
    · exact hrejected
    · have hgain : f.covariance * jacobianᵀ * (of fun i j => solve (Pi.single j 1) i) *
          innovationCov f.covariance jacobian noise = f.covariance * jacobianᵀ := by
        rw [Matrix.mul_assoc, solve_identity (N.ldlt_solve hS hsolve), Matrix.mul_one]
      have hjoseph := joseph_posSemidef hP hnoise.posSemidef jacobian
        (f.covariance * jacobianᵀ * of fun i j => solve (Pi.single j 1) i)
      refine ⟨hP, ?_, fun _ => ?_, by simp⟩
      · simp only [symmetrize_of_posSemidef hjoseph]
        exact hjoseph
      · simp only [symmetrize_of_posSemidef hjoseph]
        exact sub_joseph_posSemidef hP hnoise hgain

/-- Every update that a chain of them tried is sound, and so is the filter it ends with. -/
structure ChainSound (f : RealtimeGlobalEsikf) (us : List Update) : Prop where
  covariance : f.covariance.PosSemidef
  updates : ∀ u ∈ us, UpdateSound u

theorem updateIf_sound (valid : Bool) {update : RealtimeGlobalEsikf → Bool × RealtimeGlobalEsikf}
    {f : RealtimeGlobalEsikf} (hP : f.covariance.PosSemidef)
    (h : valid = true → UpdateSound ⟨f, (update f).2, (update f).1⟩) :
    ChainSound (updateIf valid update f).2.1 (updateIf valid update f).2.2 := by
  unfold updateIf
  split
  · rename_i hvalid
    refine ⟨(h hvalid).after, fun u hu => ?_⟩
    rw [List.mem_singleton.mp hu]
    exact h hvalid
  · exact ⟨hP, by simp⟩

theorem headingNoise_posDef (o : GlobalRtkObservation) :
    (diagonal fun _ : Fin 1 => max 1e-6 o.headingVariance).PosDef :=
  PosDef.diagonal fun _ => lt_max_of_lt_left (by norm_num)

theorem updateFromRtk_sound {o : GlobalRtkObservation} (ho : PositiveVariance o)
    {f : RealtimeGlobalEsikf} (hP : f.covariance.PosSemidef) :
    ChainSound (f.updateFromRtk N cfg o).2.1 (f.updateFromRtk N cfg o).2.2 := by
  have hposition : ∀ g, g.covariance.PosSemidef →
      UpdateSound ⟨g, (g.updatePosition N cfg o).2, (g.updatePosition N cfg o).1⟩ :=
    fun g hg => kalmanUpdate_sound _ _ (PosDef.diagonal ho.position) _ hg
  have hvelocity : ∀ g, g.covariance.PosSemidef → o.velocityValid = true →
      UpdateSound ⟨g, (g.updateVelocity N cfg o).2, (g.updateVelocity N cfg o).1⟩ :=
    fun g hg hv => kalmanUpdate_sound _ _ (PosDef.diagonal (ho.velocity hv)) _ hg
  have hheading : ∀ g, g.covariance.PosSemidef →
      UpdateSound ⟨g, (g.updateHeading N cfg o).2, (g.updateHeading N cfg o).1⟩ :=
    fun g hg => kalmanUpdate_sound _ _ (headingNoise_posDef o) _ hg
  have h₁ := updateIf_sound true hP fun _ => hposition f hP
  have h₂ := updateIf_sound o.velocityValid h₁.covariance (hvelocity _ h₁.covariance)
  have h₃ := updateIf_sound o.headingValid h₂.covariance
    fun _ => hheading _ h₂.covariance
  refine ⟨h₃.covariance, fun u hu => ?_⟩
  rcases List.mem_append.mp hu with hu | hu
  · rcases List.mem_append.mp hu with hu | hu
    · exact h₁.updates u hu
    · exact h₂.updates u hu
  · exact h₃.updates u hu

/-! ## Runs -/

/-- The observation of the call has positive variances. -/
def PositiveCall : Call → Prop
  | .pushRtk _ observation => PositiveVariance observation
  | .processLivo _ _ => True

/-- The filter is sound, with everything it tried so far. -/
structure CovarianceSound (f : RealtimeGlobalEsikf) (log : CallLog) : Prop where
  covariance : f.covariance.PosSemidef
  queue : ∀ o ∈ f.rtkQueue, PositiveVariance o
  updates : ∀ u ∈ log.updates, UpdateSound u

theorem pushRtk_positive {f : RealtimeGlobalEsikf} {stamp : Option Double}
    {observation : GlobalRtkObservation} (hf : ∀ o ∈ f.rtkQueue, PositiveVariance o)
    (ho : PositiveVariance observation) :
    ∀ o ∈ (f.pushRtk stamp observation).rtkQueue, PositiveVariance o := by
  cases stamp with
  | none => exact hf
  | some stamp =>
    obtain ⟨n, hpush⟩ := pushRtk_eq stamp observation f
    rw [hpush]
    intro o hmem
    rcases List.mem_cons.mp ((insertSorted_perm _ _ _).mem_iff.mp (List.mem_of_mem_drop hmem))
      with rfl | hold
    · exact ⟨ho.position, ho.velocity, ho.heading⟩
    · exact hf o hold

theorem pushRtk_covariance (f : RealtimeGlobalEsikf) (stamp : Option Double)
    (observation : GlobalRtkObservation) :
    (f.pushRtk stamp observation).covariance = f.covariance := by
  cases stamp with
  | none => rfl
  | some stamp =>
    obtain ⟨n, hpush⟩ := pushRtk_eq stamp observation f
    rw [hpush]

/-- What the search of a frame takes and leaves comes from the queue. -/
theorem takeNearest_subset {t tol : Double} {l queue : List GlobalRtkObservation}
    {taken : Option GlobalRtkObservation}
    (h : takeNearest GlobalRtkObservation.stamp t tol l = (taken, queue)) :
    (∀ o ∈ taken, o ∈ l) ∧ queue ⊆ l := by
  have hdrop : (l.dropWhile fun b => decide (b.stamp < t - tol)) ⊆ l :=
    (List.dropWhile_sublist _).subset
  unfold takeNearest at h
  simp only at h
  split at h
  · obtain ⟨rfl, rfl⟩ := Prod.mk.inj h
    exact ⟨fun o ho => hdrop (List.mem_of_getElem? ho),
      fun o ho => hdrop (List.mem_of_mem_drop ho)⟩
  · obtain ⟨rfl, rfl⟩ := Prod.mk.inj h
    exact ⟨by simp, hdrop⟩

theorem applyRtk_sound (N : Numerics) (cfg : GlobalEsikfConfig) {o : GlobalRtkObservation} (ho : PositiveVariance o)
    {f : RealtimeGlobalEsikf} (hP : f.covariance.PosSemidef) (localPose : Pose3) :
    ChainSound (f.applyRtk N cfg localPose o).2.1 (f.applyRtk N cfg localPose o).2.2 := by
  unfold applyRtk
  split
  · exact updateFromRtk_sound ho hP
  · exact ⟨initializeFromRtk_posSemidef ho localPose f, by simp⟩

theorem CovarianceSound.frame (hcfg : NonnegProcess cfg) {f g : RealtimeGlobalEsikf}
    {log log' : CallLog} {localPose : Pose3} {stamp : Option Double} {r : LivoResult}
    (h : CovarianceSound f log) (hframe : Frame N cfg f localPose stamp r g)
    (hlog : log'.updates = log.updates ++ r.updates) : CovarianceSound g log' := by
  have hlogged : (∀ u ∈ r.updates, UpdateSound u) → ∀ u ∈ log'.updates, UpdateSound u := by
    intro hr u hu
    rw [hlog] at hu
    exact (List.mem_append.mp hu).elim (h.updates u) (hr u)
  cases hframe with
  | refused => exact ⟨h.covariance, h.queue, hlogged (by simp)⟩
  | unmatched _ hnear _ hupdates =>
    refine ⟨advance_posSemidef hcfg h.covariance _ localPose, fun o ho => ?_, hlogged ?_⟩
    · exact h.queue o ((takeNearest_subset hnear).2 ho)
    · simp [hupdates]
  | @matched stamp observation queue r g _ hnear hg _ hupdates =>
    obtain ⟨htaken, hqueue⟩ := takeNearest_subset hnear
    have hsound := applyRtk_sound N cfg (f := g) (h.queue _ (htaken _ rfl))
      (by rw [hg]; exact advance_posSemidef hcfg h.covariance stamp localPose) localPose
    refine ⟨hsound.covariance, fun o ho => ?_, hlogged ?_⟩
    · rw [(applyRtk_keeps N cfg _ _ _).rtkQueue, hg] at ho
      exact h.queue o (hqueue ho)
    · rw [hupdates]
      exact hsound.updates

theorem CallRun.covarianceSound (hcfg : NonnegProcess cfg) {p : RealtimeGlobalEsikf × CallLog}
    (h : CallRun N cfg PositiveCall p) : CovarianceSound p.1 p.2 := by
  refine Reach.invariant (I := fun p => CovarianceSound p.1 p.2) ?_ ?_ h
  · exact ⟨configured_posSemidef, by simp [configured], by simp⟩
  · intro p q c _ hsound hok hst
    obtain ⟨hcall, hlog⟩ := withGhost_call hst
    rw [hcall, hlog]
    cases c with
    | pushRtk stamp observation =>
      refine ⟨?_, pushRtk_positive hsound.queue hok, hsound.updates⟩
      show (p.1.pushRtk stamp observation).covariance.PosSemidef
      rw [pushRtk_covariance]
      exact hsound.covariance
    | processLivo stamp localPose =>
      exact hsound.frame hcfg (processLivo_cases N cfg stamp localPose p.1) rfl

/-- In every run the covariance is symmetric and positive semidefinite, accepted updates
lower it and rejected ones leave the state as it was. -/
theorem covariance_sound (N : Numerics) (cfg : GlobalEsikfConfig) (hcfg : NonnegProcess cfg)
    (f : RealtimeGlobalEsikf) (log : CallLog) (h : CallRun N cfg PositiveCall (f, log)) :
    f.covariance.IsSymm ∧ f.covariance.PosSemidef ∧
      ∀ u ∈ log.updates,
        u.before.covariance.PosSemidef ∧ u.after.covariance.PosSemidef ∧
        (u.accepted = true → (u.before.covariance - u.after.covariance).PosSemidef) ∧
        (u.accepted = false → u.after.globalPose = u.before.globalPose ∧
          u.after.velocity = u.before.velocity ∧ u.after.covariance = u.before.covariance) := by
  have hsound := h.covarianceSound hcfg
  refine ⟨isSymm_of_posSemidef hsound.covariance, hsound.covariance, fun u hu => ?_⟩
  have hu := hsound.updates u hu
  refine ⟨hu.before, hu.after, hu.shrinks, fun hrejected => ?_⟩
  rw [hu.unchanged hrejected]
  exact ⟨rfl, rfl, rfl⟩

/-- A first frame, a frame that initialises the filter and one that updates it. -/
theorem anchored_run :
    ∃ f log, CallRun .exact {} PositiveCall (f, log) ∧ log.updates.length = 1 := by
  have hpositive : PositiveVariance {} := ⟨by simp, by simp, by simp⟩
  have hfirst : CallRun .exact {} PositiveCall _ :=
    .call .start (c := .processLivo (some 0) 1) trivial
  have hanchored : CallRun .exact {} PositiveCall _ :=
    .call (.call hfirst (c := .pushRtk (some 0) {}) hpositive)
      (c := .processLivo (some 0) 1) trivial
  have hupdated : CallRun .exact {} PositiveCall _ :=
    .call (.call hanchored (c := .pushRtk (some 0) {}) hpositive)
      (c := .processLivo (some 0) 1) trivial
  refine ⟨_, _, hupdated, ?_⟩
  simp [CallLog.update, Call.apply, processLivo, advance, configured, pushRtk, insertSorted,
    takeNearest, nearestFrom, applyRtk, initializeFromRtk, updateFromRtk, updateIf]

theorem covariance_sound_run :
    ∃ f log, CallRun .exact {} PositiveCall (f, log) ∧ log.updates.length = 1 ∧
      f.covariance.PosSemidef ∧ ∀ u ∈ log.updates,
        u.accepted = true → (u.before.covariance - u.after.covariance).PosSemidef := by
  obtain ⟨f, log, h, hlen⟩ := anchored_run
  have hcfg : NonnegProcess {} := ⟨by norm_num, by norm_num, by norm_num⟩
  obtain ⟨-, hP, hupdates⟩ := covariance_sound .exact {} hcfg f log h
  exact ⟨f, log, h, hlen, hP, fun u hu => (hupdates u hu).2.2.1⟩

end

end FastLivo.Esikf
