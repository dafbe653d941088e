import FastLivo.Esikf.Run
import FastLivo.Esikf.Numerics

/-!
# Telescoping of the local increments

A frame moves the global pose by the increment from the stored local pose to its own.
Over frames that use no observation the increments telescope, so the global pose is the
anchor of the first frame carried along the local trajectory. A frame whose time
increment is rejected only moves the stored pose.
-/

namespace FastLivo.Esikf

open Lib RealtimeGlobalEsikf

noncomputable section

variable {N : Numerics} {cfg : GlobalEsikfConfig}

/-- `dt` of a frame is out of range. -/
def RejectedDt (f : RealtimeGlobalEsikf) (stamp : Double) : Prop :=
  stamp - f.lastLivoStamp ≤ 0 ∨ 1 < stamp - f.lastLivoStamp

/-! ## One frame -/

theorem advance_rejected {f : RealtimeGlobalEsikf} (hhave : f.haveLivo = true) {stamp : Double}
    (hdt : RejectedDt f stamp) (localPose : Pose3) :
    (f.advance N cfg stamp localPose).globalPose = f.globalPose := by
  have hrun : f.advance N cfg stamp localPose =
      { f with lastLocalPose := localPose, lastLivoStamp := stamp } := by
    simp only [advance, hhave]
    exact if_pos hdt
  rw [hrun]

theorem advance_accepted {f : RealtimeGlobalEsikf} (hhave : f.haveLivo = true) {stamp : Double}
    (hdt : ¬RejectedDt f stamp) (localPose : Pose3) :
    (f.advance N cfg stamp localPose).globalPose =
      f.globalPose * (f.lastLocalPose⁻¹ * localPose) := by
  have hrun : f.advance N cfg stamp localPose =
      { f.predict N cfg (f.lastLocalPose.between localPose) ↑(stamp - f.lastLivoStamp) with
        lastLocalPose := localPose, lastLivoStamp := stamp } := by
    simp only [advance, hhave]
    exact if_neg hdt
  rw [hrun]
  rfl

/-- A frame that is not refused and takes no observation is its head. -/
theorem Frame.of_unconsumed {f g : RealtimeGlobalEsikf} {localPose : Pose3} {stamp : Double}
    {r : LivoResult} (h : Frame N cfg f localPose (some stamp) r g) (hon : cfg.enabled = true)
    (hnone : r.consumed = none) :
    ∃ queue, g = { f.advance N cfg stamp localPose with rtkQueue := queue } := by
  cases h with
  | refused hoff => simp [hon] at hoff
  | unmatched => exact ⟨_, rfl⟩
  | matched _ _ _ hconsumed =>
    rw [hnone] at hconsumed
    cases hconsumed

theorem Frame.consumed_nil {f g : RealtimeGlobalEsikf} {localPose : Pose3} {stamp : Option Double}
    {r : LivoResult} (h : Frame N cfg f localPose stamp r g) (hqueue : f.rtkQueue = []) :
    r.consumed = none := by
  cases h with
  | refused => rfl
  | unmatched _ _ hconsumed => exact hconsumed
  | matched _ hnear =>
    rw [hqueue] at hnear
    cases hnear

/-- Any frame that is not refused leaves its pose as the reference. -/
theorem Frame.reference {f g : RealtimeGlobalEsikf} {localPose : Pose3} {stamp : Double}
    {r : LivoResult} (h : Frame N cfg f localPose (some stamp) r g) (hon : cfg.enabled = true) :
    g.lastLocalPose = localPose ∧ g.haveLivo = true := by
  obtain ⟨hlocal, -, hhave⟩ := advance_reference N cfg stamp localPose f
  cases h with
  | refused hoff => simp [hon] at hoff
  | unmatched => exact ⟨hlocal, hhave⟩
  | matched _ _ hg =>
    have hkeeps := applyRtk_keeps N cfg localPose
    rw [(hkeeps _ _).lastLocalPose, (hkeeps _ _).haveLivo, hg]
    exact ⟨hlocal, hhave⟩

/-! ## Runs -/

/-- The call is no frame, or a frame with an accepted time increment that consumes no
observation. -/
def Undisturbed (N : Numerics) (cfg : GlobalEsikfConfig) (f : RealtimeGlobalEsikf) : Call → Prop
  | .pushRtk _ _ => True
  | .processLivo stamp localPose => ∃ t, stamp = some t ∧ ¬RejectedDt f t ∧
      (f.processLivo N cfg stamp localPose).1.consumed = none

/-- Local pose of the last frame. -/
def lastFrame (_ : RealtimeGlobalEsikf) (c : Call) (_ : RealtimeGlobalEsikf) (last : Pose3) :
    Pose3 :=
  match c with
  | .pushRtk _ _ => last
  | .processLivo _ localPose => localPose

/-- Runs without disturbance, with the local pose of their last frame. -/
def UndisturbedRun (N : Numerics) (cfg : GlobalEsikfConfig) :
    RealtimeGlobalEsikf × Pose3 → RealtimeGlobalEsikf × Pose3 → Prop :=
  Reach (withGhost (callStep N cfg) lastFrame) fun p c => Undisturbed N cfg p.1 c

/-- The global pose is the anchor carried along the local trajectory. -/
structure Anchored (anchor : Pose3) (f : RealtimeGlobalEsikf) (last : Pose3) : Prop where
  reference : f.lastLocalPose = last
  haveLivo : f.haveLivo = true
  globalPose : f.globalPose = anchor * last

theorem Anchored.frame {anchor last localPose : Pose3} {f g : RealtimeGlobalEsikf}
    {stamp : Double} {r : LivoResult} (h : Anchored anchor f last) (hon : cfg.enabled = true)
    (hframe : Frame N cfg f localPose (some stamp) r g) (hdt : ¬RejectedDt f stamp)
    (hnone : r.consumed = none) : Anchored anchor g localPose := by
  obtain ⟨hlocal, hhave⟩ := hframe.reference hon
  obtain ⟨queue, hg⟩ := hframe.of_unconsumed hon hnone
  refine ⟨hlocal, hhave, ?_⟩
  calc g.globalPose
      = f.globalPose * (f.lastLocalPose⁻¹ * localPose) := by
        rw [hg]
        exact advance_accepted h.haveLivo hdt localPose
    _ = anchor * last * (last⁻¹ * localPose) := by rw [h.globalPose, h.reference]
    _ = anchor * localPose := by group

theorem Anchored.push {anchor last : Pose3} {f : RealtimeGlobalEsikf} (h : Anchored anchor f last)
    (stamp : Option Double) (observation : GlobalRtkObservation) :
    Anchored anchor (f.pushRtk stamp observation) last := by
  cases stamp with
  | none => exact h
  | some stamp =>
    obtain ⟨n, hpush⟩ := pushRtk_eq stamp observation f
    rw [hpush]
    exact ⟨h.reference, h.haveLivo, h.globalPose⟩

theorem UndisturbedRun.anchored (hon : cfg.enabled = true) {anchor : Pose3}
    {p q : RealtimeGlobalEsikf × Pose3} (hp : Anchored anchor p.1 p.2)
    (h : UndisturbedRun N cfg p q) : Anchored anchor q.1 q.2 := by
  refine Reach.invariant (I := fun q => Anchored anchor q.1 q.2) hp ?_ h
  intro s t c _ hs hok hst
  obtain ⟨hstep, hlast⟩ := withGhost_cases hst
  rw [hlast, ← Option.some.inj hstep]
  cases c with
  | pushRtk stamp observation => exact hs.push stamp observation
  | processLivo stamp localPose =>
    obtain ⟨t, rfl, hdt, hnone⟩ := hok
    exact hs.frame hon (processLivo_cases N cfg (some t) localPose s.1) hdt hnone

/-- After a frame 0 the global pose is its own, carried along the local increments, as long
as no observation is consumed; a frame with a rejected time increment that consumes none
keeps the global pose and moves the reference. -/
theorem telescoping (N : Numerics) (cfg : GlobalEsikfConfig) (hon : cfg.enabled = true)
    (f : RealtimeGlobalEsikf) (stamp : Double) (L₀ : Pose3) :
    (∀ g L, UndisturbedRun N cfg ((f.processLivo N cfg (some stamp) L₀).2, L₀) (g, L) →
      g.globalPose =
        ((f.processLivo N cfg (some stamp) L₀).2.globalPose.compose L₀.inverse).compose L) ∧
    ((f.haveLivo = true ∧ RejectedDt f stamp ∧
        (f.processLivo N cfg (some stamp) L₀).1.consumed = none) →
      (f.processLivo N cfg (some stamp) L₀).2.globalPose = f.globalPose ∧
        (f.processLivo N cfg (some stamp) L₀).2.lastLocalPose = L₀) := by
  have hframe := processLivo_cases N cfg (some stamp) L₀ f
  obtain ⟨hlocal, hhave⟩ := hframe.reference hon
  constructor
  · intro g L hrun
    have hstart : Anchored ((f.processLivo N cfg (some stamp) L₀).2.globalPose * L₀⁻¹)
        (f.processLivo N cfg (some stamp) L₀).2 L₀ := ⟨hlocal, hhave, by group⟩
    exact (UndisturbedRun.anchored hon hstart hrun).globalPose
  · rintro ⟨hbefore, hdt, hnone⟩
    refine ⟨?_, hlocal⟩
    obtain ⟨queue, hg⟩ := hframe.of_unconsumed hon hnone
    rw [hg]
    exact advance_rejected hbefore hdt L₀

/-- A step of one metre. -/
def oneMetre : Pose3 := ⟨1, ![1, 0, 0]⟩

/-- The filter after a frame at time zero. -/
def started : RealtimeGlobalEsikf := (configured.processLivo .exact {} (some 0) 1).2

theorem started_eq : started = { configured with haveLivo := true } := by
  simp [started, processLivo, advance, configured, takeNearest, nearestFrom]

/-- A second frame a tenth of a second later, and one that repeats the first stamp. -/
theorem telescoping_run :
    (∃ g, UndisturbedRun .exact {} (started, 1) (g, oneMetre) ∧
      g.globalPose = (started.globalPose.compose (1 : Pose3).inverse).compose oneMetre) ∧
    (started.processLivo .exact {} (some 0) oneMetre).2.globalPose = started.globalPose ∧
      (started.processLivo .exact {} (some 0) oneMetre).2.lastLocalPose = oneMetre := by
  have hqueue : started.rtkQueue = [] := by rw [started_eq]; rfl
  have hhave : started.haveLivo = true := by rw [started_eq]
  have hstamp : started.lastLivoStamp = 0 := by rw [started_eq]; rfl
  have hnone : ∀ stamp, (started.processLivo .exact {} stamp oneMetre).1.consumed = none :=
    fun stamp => (processLivo_cases _ _ _ _ _).consumed_nil hqueue
  have hstep : Undisturbed .exact {} started (.processLivo (some (1 / 10)) oneMetre) :=
    ⟨1 / 10, rfl, by norm_num [RejectedDt, hstamp], hnone _⟩
  have hrun : UndisturbedRun .exact {} (started, 1) (_, oneMetre) :=
    .next (.processLivo (some (1 / 10)) oneMetre) .start hstep rfl
  have hrepeated : RejectedDt started 0 := by simp [RejectedDt, hstamp]
  exact ⟨⟨_, hrun, (telescoping .exact {} rfl configured 0 1).1 _ _ hrun⟩,
    (telescoping .exact {} rfl started 0 oneMetre).2 ⟨hhave, hrepeated, hnone _⟩⟩

/-- The second frame is rejected for a gap of ten seconds, and the observation it consumes
moves the global pose. -/
theorem rejected_frame_moves :
    ∃ f log, CallRun .exact {} (fun _ => True) (f, log) ∧ f.haveLivo = true ∧ RejectedDt f 10 ∧
      (f.processLivo .exact {} (some 10) 1).2.globalPose ≠ f.globalPose := by
  have hfirst : CallRun .exact {} (fun _ => True) _ :=
    .call .start (c := .processLivo (some 0) 1) trivial
  have hpushed : CallRun .exact {} (fun _ => True) _ :=
    .call hfirst (c := .pushRtk (some 10) { position := ![1, 0, 0] }) trivial
  refine ⟨_, _, hpushed, ?_, ?_, fun heq => ?_⟩
  · simp [Call.apply, processLivo, advance, configured, pushRtk, insertSorted, takeNearest,
      nearestFrom]
  · norm_num [RejectedDt, Call.apply, processLivo, advance, configured, pushRtk, insertSorted,
      takeNearest, nearestFrom]
  · have hx := congrFun (congrArg Pose3.translation heq) 0
    norm_num [Call.apply, processLivo, advance, configured, pushRtk, insertSorted, takeNearest,
      nearestFrom, applyRtk, initializeFromRtk] at hx

end

end FastLivo.Esikf
