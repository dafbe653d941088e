import FastLivo.Esikf.Filter
import FastLivo.Lib.Ghost

/-!
# Runs of the filter

The callbacks call `pushRtk` and `processLivo` in any order; each call holds the lock
until it returns. A frame is refused, finds no observation, or uses the one it takes from
the queue.
-/

namespace FastLivo.Esikf

open Lib Matrix

noncomputable section

variable {N : Numerics} {cfg : GlobalEsikfConfig}

/-- A call of the filter. -/
inductive Call
  | pushRtk (stamp : Option Double) (observation : GlobalRtkObservation)
  | processLivo (stamp : Option Double) (localPose : Pose3)

def Call.apply (N : Numerics) (cfg : GlobalEsikfConfig) (f : RealtimeGlobalEsikf) :
    Call → RealtimeGlobalEsikf
  | .pushRtk stamp observation => f.pushRtk stamp observation
  | .processLivo stamp localPose => (f.processLivo N cfg stamp localPose).2

/-- Every call returns. -/
def callStep (N : Numerics) (cfg : GlobalEsikfConfig) (f : RealtimeGlobalEsikf) (c : Call) :
    Option RealtimeGlobalEsikf :=
  some (c.apply N cfg f)

/-- Ghost: numbers of the observations consumed, and the updates tried. -/
structure CallLog where
  consumed : List ℕ := []
  updates : List RealtimeGlobalEsikf.Update := []

def CallLog.update (N : Numerics) (cfg : GlobalEsikfConfig) (f : RealtimeGlobalEsikf) (c : Call)
    (_ : RealtimeGlobalEsikf) (log : CallLog) : CallLog :=
  match c with
  | .pushRtk _ _ => log
  | .processLivo stamp localPose =>
    let r := (f.processLivo N cfg stamp localPose).1
    { consumed := log.consumed ++ (r.consumed.map (·.seq)).toList
      updates := log.updates ++ r.updates }

/-- Runs whose calls satisfy `ok`, from a filter just configured. -/
def CallRun (N : Numerics) (cfg : GlobalEsikfConfig) (ok : Call → Prop) :
    RealtimeGlobalEsikf × CallLog → Prop :=
  Reach (withGhost (callStep N cfg) (CallLog.update N cfg)) (fun _ c => ok c)
    (RealtimeGlobalEsikf.configured, {})

theorem withGhost_call {update : RealtimeGlobalEsikf → Call → RealtimeGlobalEsikf → CallLog → CallLog}
    {p q : RealtimeGlobalEsikf × CallLog} {c : Call}
    (h : withGhost (callStep N cfg) update p c = some q) :
    q.1 = c.apply N cfg p.1 ∧ q.2 = update p.1 c q.1 p.2 := by
  obtain ⟨hstep, hlog⟩ := withGhost_cases h
  exact ⟨(Option.some.inj hstep).symm, hlog⟩

theorem CallRun.call {ok : Call → Prop} {f : RealtimeGlobalEsikf} {log : CallLog}
    (h : CallRun N cfg ok (f, log)) {c : Call} (hok : ok c) :
    CallRun N cfg ok (c.apply N cfg f, log.update N cfg f c (c.apply N cfg f)) :=
  .next c h hok rfl

/-! ## What a call keeps -/

namespace RealtimeGlobalEsikf

/-- The push, for any bound in place of 2000. -/
theorem pushRtk_eq (stamp : Double) (observation : GlobalRtkObservation) (f : RealtimeGlobalEsikf) :
    ∃ n, f.pushRtk (some stamp) observation = { f with
      rtkQueue := (insertSorted GlobalRtkObservation.stamp
        { observation with stamp := stamp, seq := f.rtkSeq } f.rtkQueue).drop n
      rtkSeq := f.rtkSeq + 1 } :=
  ⟨_, rfl⟩

/-- Members that the use of an observation does not touch. -/
structure KeepsReference (f g : RealtimeGlobalEsikf) : Prop where
  rtkQueue : g.rtkQueue = f.rtkQueue
  rtkSeq : g.rtkSeq = f.rtkSeq
  lastLocalPose : g.lastLocalPose = f.lastLocalPose
  lastLivoStamp : g.lastLivoStamp = f.lastLivoStamp
  haveLivo : g.haveLivo = f.haveLivo

theorem KeepsReference.refl (f : RealtimeGlobalEsikf) : KeepsReference f f :=
  ⟨rfl, rfl, rfl, rfl, rfl⟩

theorem KeepsReference.trans {f g h : RealtimeGlobalEsikf} (hfg : KeepsReference f g)
    (hgh : KeepsReference g h) : KeepsReference f h :=
  ⟨hgh.rtkQueue.trans hfg.rtkQueue, hgh.rtkSeq.trans hfg.rtkSeq,
    hgh.lastLocalPose.trans hfg.lastLocalPose, hgh.lastLivoStamp.trans hfg.lastLivoStamp,
    hgh.haveLivo.trans hfg.haveLivo⟩

theorem kalmanUpdate_keeps {n : ℕ} (innovation : Fin n → ℝ)
    (jacobian : Matrix (Fin n) ErrorIndex ℝ) (noise : Matrix (Fin n) (Fin n) ℝ) (gate : ℝ)
    (f : RealtimeGlobalEsikf) :
    KeepsReference f (f.kalmanUpdate N innovation jacobian noise gate).2 := by
  unfold kalmanUpdate
  split
  · exact .refl f
  · split
    · exact .refl f
    · exact ⟨rfl, rfl, rfl, rfl, rfl⟩

theorem updateIf_keeps {update : RealtimeGlobalEsikf → Bool × RealtimeGlobalEsikf}
    (h : ∀ f, KeepsReference f (update f).2) (valid : Bool) (f : RealtimeGlobalEsikf) :
    KeepsReference f (updateIf valid update f).2.1 := by
  unfold updateIf
  split
  · exact h f
  · exact .refl f

theorem updateFromRtk_keeps (observation : GlobalRtkObservation) (f : RealtimeGlobalEsikf) :
    KeepsReference f (f.updateFromRtk N cfg observation).2.1 := by
  have hposition : ∀ g, KeepsReference g (updateIf true (updatePosition N cfg observation) g).2.1 :=
    updateIf_keeps (fun g => g.kalmanUpdate_keeps _ _ _ _) true
  have hvelocity : ∀ g, KeepsReference g
      (updateIf observation.velocityValid (updateVelocity N cfg observation) g).2.1 :=
    updateIf_keeps (fun g => g.kalmanUpdate_keeps _ _ _ _) _
  have hheading : ∀ g, KeepsReference g
      (updateIf observation.headingValid (updateHeading N cfg observation) g).2.1 :=
    updateIf_keeps (fun g => g.kalmanUpdate_keeps _ _ _ _) _
  exact ((hposition f).trans (hvelocity _)).trans (hheading _)

theorem applyRtk_keeps (N : Numerics) (cfg : GlobalEsikfConfig) (localPose : Pose3) (observation : GlobalRtkObservation)
    (f : RealtimeGlobalEsikf) :
    KeepsReference f (f.applyRtk N cfg localPose observation).2.1 := by
  unfold applyRtk
  split
  · exact updateFromRtk_keeps observation f
  · exact ⟨rfl, rfl, rfl, rfl, rfl⟩

theorem advance_queue (N : Numerics) (cfg : GlobalEsikfConfig) (stamp : Double) (localPose : Pose3) (f : RealtimeGlobalEsikf) :
    (f.advance N cfg stamp localPose).rtkQueue = f.rtkQueue ∧
      (f.advance N cfg stamp localPose).rtkSeq = f.rtkSeq := by
  unfold advance
  split
  · exact ⟨rfl, rfl⟩
  · simp only
    split <;> exact ⟨rfl, rfl⟩

/-- A frame moves the reference to its pose. -/
theorem advance_reference (N : Numerics) (cfg : GlobalEsikfConfig) (stamp : Double) (localPose : Pose3) (f : RealtimeGlobalEsikf) :
    (f.advance N cfg stamp localPose).lastLocalPose = localPose ∧
      (f.advance N cfg stamp localPose).lastLivoStamp = stamp ∧
      (f.advance N cfg stamp localPose).haveLivo = true := by
  unfold advance
  split
  · exact ⟨rfl, rfl, rfl⟩
  · rename_i hhave
    have hhave : f.haveLivo = true := by simpa using hhave
    simp only
    split <;> exact ⟨rfl, rfl, hhave⟩

end RealtimeGlobalEsikf

open RealtimeGlobalEsikf

/-- Everything a frame can do. -/
inductive Frame (N : Numerics) (cfg : GlobalEsikfConfig) (f : RealtimeGlobalEsikf)
    (localPose : Pose3) : Option Double → LivoResult → RealtimeGlobalEsikf → Prop
  | refused {stamp : Option Double} (h : stamp = none ∨ cfg.enabled = false) :
      Frame N cfg f localPose stamp {} f
  | unmatched {stamp : Double} {queue : List GlobalRtkObservation} {r : LivoResult}
      (hon : cfg.enabled = true)
      (hnear : takeNearest GlobalRtkObservation.stamp stamp cfg.syncTolerance f.rtkQueue =
        (none, queue))
      (hconsumed : r.consumed = none) (hupdates : r.updates = []) :
      Frame N cfg f localPose (some stamp) r
        { f.advance N cfg stamp localPose with rtkQueue := queue }
  | matched {stamp : Double} {observation : GlobalRtkObservation}
      {queue : List GlobalRtkObservation} {r : LivoResult} {g : RealtimeGlobalEsikf}
      (hon : cfg.enabled = true)
      (hnear : takeNearest GlobalRtkObservation.stamp stamp cfg.syncTolerance f.rtkQueue =
        (some observation, queue))
      (hg : g = { f.advance N cfg stamp localPose with rtkQueue := queue })
      (hconsumed : r.consumed = some observation)
      (hupdates : r.updates = (g.applyRtk N cfg localPose observation).2.2) :
      Frame N cfg f localPose (some stamp) r (g.applyRtk N cfg localPose observation).2.1

theorem processLivo_cases (N : Numerics) (cfg : GlobalEsikfConfig) (stamp : Option Double)
    (localPose : Pose3) (f : RealtimeGlobalEsikf) :
    Frame N cfg f localPose stamp (f.processLivo N cfg stamp localPose).1
      (f.processLivo N cfg stamp localPose).2 := by
  cases stamp with
  | none => exact .refused (.inl rfl)
  | some stamp =>
    by_cases hon : cfg.enabled = true
    · have hqueue := (advance_queue N cfg stamp localPose f).1
      cases hnear : takeNearest GlobalRtkObservation.stamp stamp cfg.syncTolerance f.rtkQueue with
      | mk best queue =>
        cases best with
        | none =>
          have hrun : (f.processLivo N cfg (some stamp) localPose).2 =
              { f.advance N cfg stamp localPose with rtkQueue := queue } := by
            simp [processLivo, hon, hqueue, hnear]
          rw [hrun]
          exact .unmatched hon hnear (by simp [processLivo, hon, hqueue, hnear])
            (by simp [processLivo, hon, hqueue, hnear])
        | some observation =>
          have hrun : (f.processLivo N cfg (some stamp) localPose).2 =
              ({ f.advance N cfg stamp localPose with rtkQueue := queue }.applyRtk N cfg localPose
                observation).2.1 := by
            simp [processLivo, hon, hqueue, hnear]
          rw [hrun]
          exact .matched hon hnear rfl (by simp [processLivo, hon, hqueue, hnear])
            (by simp [processLivo, hon, hqueue, hnear])
    · have hoff : cfg.enabled = false := by simpa using hon
      have hrun : f.processLivo N cfg (some stamp) localPose = ({}, f) := by
        simp [processLivo, hoff]
      rw [hrun]
      exact .refused (.inr hoff)

end

end FastLivo.Esikf
