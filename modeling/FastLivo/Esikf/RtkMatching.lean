import FastLivo.Esikf.Run
import FastLivo.Esikf.Numerics

/-!
# Matching of RTK observations with frames

Insertion, eviction and the erasure of a prefix keep the queue sorted, so the search of a
frame finds the closest observation, and what it takes or drops never comes back.
-/

namespace FastLivo.Esikf

open Lib RealtimeGlobalEsikf

noncomputable section

variable {N : Numerics} {cfg : GlobalEsikfConfig}

/-! ## The queue -/

/-- The queue is sorted and bounded, and nothing in it was consumed. -/
structure QueueKept (f : RealtimeGlobalEsikf) (consumed : List ℕ) : Prop where
  sorted : Sorted GlobalRtkObservation.stamp f.rtkQueue
  bounded : f.rtkQueue.length ≤ 2000
  distinct : (consumed ++ f.rtkQueue.map (·.seq)).Nodup
  below : ∀ n ∈ consumed ++ f.rtkQueue.map (·.seq), n < f.rtkSeq

theorem queueKept_iff {f : RealtimeGlobalEsikf} {consumed : List ℕ} :
    QueueKept f consumed ↔
      Ledger GlobalRtkObservation.stamp (·.seq) 2000 f.rtkSeq f.rtkQueue consumed :=
  ⟨fun h => ⟨h.sorted, h.bounded, h.distinct, h.below⟩,
    fun h => ⟨h.sorted, h.bounded, h.distinct, h.below⟩⟩

theorem QueueKept.push {f : RealtimeGlobalEsikf} {consumed : List ℕ} (h : QueueKept f consumed)
    (stamp : Option Double) (observation : GlobalRtkObservation) :
    QueueKept (f.pushRtk stamp observation) consumed := by
  cases stamp with
  | none => exact h
  | some stamp =>
    rw [queueKept_iff]
    simp only [pushRtk]
    exact (queueKept_iff.mp h).insert
      (x := { observation with stamp := stamp, seq := f.rtkSeq }) rfl

theorem QueueKept.take {f g : RealtimeGlobalEsikf} {consumed : List ℕ} {t tol : Double}
    {taken : Option GlobalRtkObservation} (h : QueueKept f consumed)
    (hnear : Nearest GlobalRtkObservation.stamp t tol f.rtkQueue taken g.rtkQueue)
    (hseq : g.rtkSeq = f.rtkSeq) :
    QueueKept g (consumed ++ (taken.map (·.seq)).toList) := by
  obtain ⟨pre, hsplit⟩ := hnear.split
  rw [queueKept_iff, hseq]
  exact (queueKept_iff.mp h).take hsplit

/-! ## Frames -/

/-- What a frame that is not refused owes the observations that wait. -/
structure FrameMatch (cfg : GlobalEsikfConfig) (f : RealtimeGlobalEsikf) (stamp : Double)
    (consumed : Option GlobalRtkObservation) (g : RealtimeGlobalEsikf) : Prop where
  queued : ∀ o, consumed = some o → o ∈ f.rtkQueue
  within : ∀ o, consumed = some o → |o.stamp - stamp| ≤ cfg.syncTolerance
  closest : ∀ o, consumed = some o → ∀ q ∈ f.rtkQueue, |o.stamp - stamp| ≤ |q.stamp - stamp|
  found : consumed = none → ∀ q ∈ f.rtkQueue, cfg.syncTolerance < |q.stamp - stamp|
  not_stale : ∀ q ∈ g.rtkQueue, stamp - cfg.syncTolerance ≤ q.stamp
  not_passed : ∀ o, consumed = some o → ∀ q ∈ g.rtkQueue, o.stamp ≤ q.stamp

theorem FrameMatch.of_nearest {f g : RealtimeGlobalEsikf} {stamp : Double}
    {consumed : Option GlobalRtkObservation}
    (h : Nearest GlobalRtkObservation.stamp stamp cfg.syncTolerance f.rtkQueue consumed g.rtkQueue) :
    FrameMatch cfg f stamp consumed g :=
  ⟨fun _ ho => h.mem ho, h.close, h.closest, h.none_close, h.not_early, h.not_before⟩

theorem Frame.nearest {f g : RealtimeGlobalEsikf} {localPose : Pose3} {stamp : Double}
    {r : LivoResult} (h : Frame N cfg f localPose (some stamp) r g) (hon : cfg.enabled = true)
    (hsorted : Sorted GlobalRtkObservation.stamp f.rtkQueue) :
    Nearest GlobalRtkObservation.stamp stamp cfg.syncTolerance f.rtkQueue r.consumed g.rtkQueue := by
  have hspec := takeNearest_spec hsorted stamp cfg.syncTolerance
  cases h with
  | refused hoff => simp [hon] at hoff
  | unmatched _ hnear hconsumed _ =>
    rw [hnear] at hspec
    rw [hconsumed]
    exact hspec
  | matched _ hnear hg hconsumed _ =>
    rw [hnear] at hspec
    rw [hconsumed, (applyRtk_keeps N cfg _ _ _).rtkQueue, hg]
    exact hspec

theorem Frame.rtkSeq {f g : RealtimeGlobalEsikf} {localPose : Pose3} {stamp : Option Double}
    {r : LivoResult} (h : Frame N cfg f localPose stamp r g) : g.rtkSeq = f.rtkSeq := by
  cases h with
  | refused => rfl
  | unmatched => exact (advance_queue N cfg _ _ f).2
  | matched _ _ hg _ _ =>
    rw [(applyRtk_keeps N cfg _ _ _).rtkSeq, hg]
    exact (advance_queue N cfg _ _ f).2

theorem Frame.of_refused {f g : RealtimeGlobalEsikf} {localPose : Pose3} {stamp : Option Double}
    {r : LivoResult} (h : Frame N cfg f localPose stamp r g)
    (hoff : stamp = none ∨ cfg.enabled = false) : r = {} ∧ g = f := by
  cases h with
  | refused => exact ⟨rfl, rfl⟩
  | unmatched hon => simp [hon] at hoff
  | matched hon => simp [hon] at hoff

/-! ## Runs -/

theorem QueueKept.frame {f g : RealtimeGlobalEsikf} {consumed : List ℕ} {localPose : Pose3}
    {stamp : Option Double} {r : LivoResult} (h : QueueKept f consumed)
    (hframe : Frame N cfg f localPose stamp r g) :
    QueueKept g (consumed ++ (r.consumed.map (·.seq)).toList) := by
  by_cases hoff : stamp = none ∨ cfg.enabled = false
  · obtain ⟨rfl, rfl⟩ := hframe.of_refused hoff
    simpa using h
  · push Not at hoff
    obtain ⟨hstamp, hon⟩ := hoff
    cases stamp with
    | none => exact absurd rfl hstamp
    | some stamp =>
      exact h.take (hframe.nearest (by simpa using hon) h.sorted) hframe.rtkSeq

theorem CallRun.queueKept {ok : Call → Prop} {p : RealtimeGlobalEsikf × CallLog}
    (h : CallRun N cfg ok p) : QueueKept p.1 p.2.consumed := by
  refine Reach.invariant (I := fun p => QueueKept p.1 p.2.consumed) ?_ ?_ h
  · exact ⟨List.Pairwise.nil, by simp [configured], by simp [configured], by simp [configured]⟩
  · intro p q c _ hkept _ hst
    obtain ⟨hcall, hlog⟩ := withGhost_call hst
    rw [hcall, hlog]
    cases c with
    | pushRtk stamp observation => exact hkept.push stamp observation
    | processLivo stamp localPose => exact hkept.frame (processLivo_cases N cfg stamp localPose p.1)

/-- The queue stays sorted and bounded, no observation is consumed twice, and a frame that
is not refused takes the closest observation of its window and leaves none in front. -/
theorem rtk_matching (N : Numerics) (cfg : GlobalEsikfConfig) (f : RealtimeGlobalEsikf)
    (log : CallLog) (h : CallRun N cfg (fun _ => True) (f, log)) :
    Sorted GlobalRtkObservation.stamp f.rtkQueue ∧ f.rtkQueue.length ≤ 2000 ∧
      (∀ n, log.consumed.count n ≤ 1) ∧
      (∀ stamp localPose, (stamp = none ∨ cfg.enabled = false) →
        (f.processLivo N cfg stamp localPose).1.consumed = none ∧
          (f.processLivo N cfg stamp localPose).2.rtkQueue = f.rtkQueue) ∧
      ∀ stamp localPose, cfg.enabled = true →
        FrameMatch cfg f stamp (f.processLivo N cfg (some stamp) localPose).1.consumed
          (f.processLivo N cfg (some stamp) localPose).2 := by
  have hkept := h.queueKept
  refine ⟨hkept.sorted, hkept.bounded, fun n => ?_, fun stamp localPose hoff => ?_,
    fun stamp localPose hon => ?_⟩
  · exact List.nodup_iff_count_le_one.mp hkept.distinct.of_append_left n
  · obtain ⟨hr, hg⟩ := (processLivo_cases N cfg stamp localPose f).of_refused hoff
    rw [hr, hg]
    exact ⟨rfl, rfl⟩
  · exact .of_nearest ((processLivo_cases N cfg (some stamp) localPose f).nearest hon hkept.sorted)

/-- The call that queues an observation of time zero. -/
theorem callRun_push (N : Numerics) (cfg : GlobalEsikfConfig) :
    CallRun N cfg (fun _ => True) (configured.pushRtk (some 0) {}, {}) :=
  CallRun.call .start (c := .pushRtk (some 0) {}) trivial

/-- Two observations that came in the wrong order. -/
def outOfOrder : RealtimeGlobalEsikf := (configured.pushRtk (some 0.2) {}).pushRtk (some 0.1) {}

theorem outOfOrder_queue :
    outOfOrder.rtkQueue = [{ stamp := 0.1, seq := 1 }, { stamp := 0.2, seq := 0 }] := by
  have hlt : (0.1 : Double) < 0.2 := by norm_num
  simp [outOfOrder, pushRtk, configured, insertSorted, hlt]

/-- A frame between two observations takes the closer one, which came last. -/
theorem rtk_matching_run :
    Sorted GlobalRtkObservation.stamp outOfOrder.rtkQueue ∧
      FrameMatch {} outOfOrder 0.12 (outOfOrder.processLivo .exact {} (some 0.12) 1).1.consumed
        (outOfOrder.processLivo .exact {} (some 0.12) 1).2 ∧
      (outOfOrder.processLivo .exact {} (some 0.12) 1).1.consumed = some { stamp := 0.1, seq := 1 } := by
  have hrun : CallRun .exact {} (fun _ => True) (outOfOrder, {}) :=
    CallRun.call (CallRun.call .start (c := .pushRtk (some 0.2) {}) trivial)
      (c := .pushRtk (some 0.1) {}) trivial
  obtain ⟨hsorted, -, -, -, hframe⟩ := rtk_matching .exact {} _ {} hrun
  have hmatch := hframe 0.12 1 rfl
  refine ⟨hsorted, hmatch, ?_⟩
  have hclose : ({ stamp := 0.1, seq := 1 } : GlobalRtkObservation) ∈ outOfOrder.rtkQueue := by
    rw [outOfOrder_queue]
    exact List.mem_cons_self
  cases hconsumed : (outOfOrder.processLivo .exact {} (some 0.12) 1).1.consumed with
  | none =>
    have hfar := hmatch.found hconsumed _ hclose
    norm_num [abs_lt] at hfar
  | some o =>
    have hqueued := hmatch.queued o hconsumed
    have hcloser := hmatch.closest o hconsumed _ hclose
    rw [outOfOrder_queue, List.mem_pair] at hqueued
    rcases hqueued with rfl | rfl
    · rfl
    · norm_num [abs_le] at hcloser

/-- A filter that is not enabled leaves the observation of the frame's own time. -/
theorem disabled_unmatched :
    ∃ f log, CallRun .exact { enabled := false } (fun _ => True) (f, log) ∧
      (∃ q ∈ f.rtkQueue, |q.stamp - 0| ≤ 1 / 10) ∧
      (f.processLivo .exact { enabled := false } (some 0) 1).1.consumed = none := by
  refine ⟨configured.pushRtk (some 0) {}, {}, callRun_push _ _, ?_, ?_⟩
  · refine ⟨{ stamp := 0, seq := 0 }, ?_, by norm_num⟩
    simp [pushRtk, configured, insertSorted]
  · simp [processLivo]

end

end FastLivo.Esikf
