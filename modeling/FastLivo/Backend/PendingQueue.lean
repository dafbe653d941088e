import FastLivo.Backend.Keyframe
import FastLivo.Backend.Worker
import FastLivo.Lib.Fates

/-!
# The pending keyframes of the backend

The queue between `syncedCallback` and the worker is bounded, drops its oldest entry when
it is full, and is drained before the worker stops.
-/

namespace FastLivo.Backend

open Lib

variable {α : Type} {cap : ℕ} {w w' : Worker α} {f : Fates (Pending α)}

/-- Ghost: what a step does to the entries. What an enqueue drops is what left the front. -/
def logFates (w : Worker α) (e : WorkerEvent α) (w' : Worker α) (f : Fates (Pending α)) :
    Fates (Pending α) :=
  match e with
  | .enqueue input =>
    { f with
      arrived := f.arrived ++ [⟨input, w.enqueued⟩]
      dropped := f.dropped ++
        w.keyframeQueue.take (w.keyframeQueue.length + 1 - w'.keyframeQueue.length) }
  | .thread .take =>
    match w'.pc with
    | .processing keyframe => { f with taken := f.taken ++ [keyframe] }
    | _ => f
  | .thread _ => f

/-- What holds of the queue between steps. -/
structure QueueKept (cap : ℕ) (w : Worker α) (f : Fates (Pending α)) : Prop where
  bounded : w.keyframeQueue.length ≤ cap
  numbers : f.arrived.map Pending.seq = List.range w.enqueued
  accounted : Accounted w.keyframeQueue f
  stopped : w.pc = .stopped → w.stopRequested = true

/-- An enqueue drops the oldest entry of a full queue, and nothing otherwise. -/
theorem push_cases (hcap : 1 ≤ cap) (hbounded : w.keyframeQueue.length ≤ cap) (input : α) :
    (w.keyframeQueue.length < cap ∧
      (w.push cap input).notify.keyframeQueue = w.keyframeQueue ++ [⟨input, w.enqueued⟩]) ∨
    ∃ oldest rest, w.keyframeQueue = oldest :: rest ∧ w.keyframeQueue.length = cap ∧
      (w.push cap input).notify.keyframeQueue = rest ++ [⟨input, w.enqueued⟩] := by
  rw [notify_keyframeQueue, Worker.push, Worker.roomFor]
  by_cases hfull : cap ≤ w.keyframeQueue.length
  · right
    cases hq : w.keyframeQueue with
    | nil =>
      rw [hq, List.length_nil] at hfull
      omega
    | cons oldest rest =>
      rw [hq] at hfull hbounded
      exact ⟨oldest, rest, rfl, hbounded.antisymm hfull, by rw [if_pos hfull, List.tail_cons]⟩
  · exact .inl ⟨not_le.mp hfull, by rw [if_neg hfull]⟩

theorem take_cases (w : Worker α) :
    (∃ keyframe rest, w.keyframeQueue = keyframe :: rest ∧
      w.take = { w with keyframeQueue := rest, pc := .processing keyframe }) ∨
    (w.keyframeQueue = [] ∧ w.stopRequested = true ∧ w.take = { w with pc := .stopped }) ∨
    (w.keyframeQueue = [] ∧ w.stopRequested = false ∧ w.take = { w with pc := .saving }) := by
  unfold Worker.take
  cases hq : w.keyframeQueue with
  | cons keyframe rest => exact .inl ⟨keyframe, rest, rfl, rfl⟩
  | nil =>
    cases hstop : w.stopRequested with
    | true => exact .inr (.inl ⟨rfl, rfl, rfl⟩)
    | false => exact .inr (.inr ⟨rfl, rfl, rfl⟩)

theorem QueueKept.push (hcap : 1 ≤ cap) (h : QueueKept cap w f) (input : α) :
    QueueKept cap (w.push cap input).notify
      (logFates w (.enqueue input) (w.push cap input).notify f) := by
  have hnumbers : (f.arrived ++ [Pending.mk input w.enqueued]).map Pending.seq =
      List.range (w.push cap input).notify.enqueued := by
    rw [notify_enqueued, Worker.push, List.map_append, h.numbers, List.range_succ]
    rfl
  have hstopped : (w.push cap input).notify.pc = .stopped →
      (w.push cap input).notify.stopRequested = true := by
    rw [notify_pc_eq (by nofun), notify_stopRequested]
    exact h.stopped
  rcases push_cases hcap h.bounded input with ⟨hroom, hq⟩ | ⟨oldest, rest, hold, hfull, hq⟩
  · refine ⟨?_, hnumbers, ?_, hstopped⟩
    · rw [hq, List.length_append]
      exact hroom
    · rw [logFates, hq, List.length_append, List.length_singleton, Nat.sub_self, List.take_zero,
        List.append_nil]
      exact h.accounted.arrive _
  · have hlength : rest.length + 1 = cap := by rw [← hfull, hold, List.length_cons]
    refine ⟨?_, hnumbers, ?_, hstopped⟩
    · rw [hq, List.length_append]
      exact hlength.le
    · have haccounted := h.accounted
      rw [hold] at haccounted
      rw [logFates, hq, hold, List.length_append, List.length_cons, List.length_singleton,
        Nat.add_sub_cancel_left, List.take_succ_cons, List.take_zero]
      exact haccounted.drop.arrive _

theorem QueueKept.take (h : QueueKept cap w f) :
    QueueKept cap w.take (logFates w (.thread .take) w.take f) := by
  rcases take_cases w with ⟨keyframe, rest, hq, htake⟩ | ⟨-, hstop, htake⟩ | ⟨-, -, htake⟩
  · have haccounted := h.accounted
    have hbounded := h.bounded
    rw [hq] at haccounted hbounded
    rw [htake]
    exact ⟨(Nat.le_succ _).trans hbounded, h.numbers, haccounted.take, nofun⟩
  · rw [htake]
    exact ⟨h.bounded, h.numbers, h.accounted, fun _ => hstop⟩
  · rw [htake]
    exact ⟨h.bounded, h.numbers, h.accounted, nofun⟩

/-- A step that leaves the queue alone. -/
theorem QueueKept.of_eq (h : QueueKept cap w f) (hq : w'.keyframeQueue = w.keyframeQueue)
    (hn : w'.enqueued = w.enqueued) (hstopped : w'.pc = .stopped → w'.stopRequested = true) :
    QueueKept cap w' f :=
  ⟨hq ▸ h.bounded, hn ▸ h.numbers, hq ▸ h.accounted, hstopped⟩

theorem queueKept_step (hcap : 1 ≤ cap) {e : WorkerEvent α} (h : QueueKept cap w f)
    (hst : workerStep cap w e = some w') : QueueKept cap w' (logFates w e w' f) := by
  cases move_of_step hst with
  | enqueue input => exact h.push hcap input
  | take => exact h.take
  | saveStore => exact h.of_eq rfl rfl h.stopped
  | saveNotify =>
    refine h.of_eq (notify_keyframeQueue w) (notify_enqueued w) ?_
    exact fun hpc => (notify_stopRequested w).trans (h.stopped ((notify_pc_eq (by nofun)).mp hpc))
  | stopNotify =>
    refine h.of_eq (notify_keyframeQueue w) (notify_enqueued w) ?_
    exact fun hpc => (notify_stopRequested w).trans (h.stopped ((notify_pc_eq (by nofun)).mp hpc))
  | stopStore => exact h.of_eq rfl rfl fun _ => rfl
  | join => exact h.of_eq rfl rfl h.stopped
  | evaluate =>
    refine h.of_eq rfl rfl fun hpc => ?_
    dsimp only at hpc
    split at hpc <;> cases hpc
  | block | wake | spuriousWake | process | exchange => exact h.of_eq rfl rfl nofun

/-- Only an enqueue into a full queue drops an entry, and it drops the oldest. -/
def DropsOldest (cap : ℕ) (w : Worker α) (e : WorkerEvent α) (w' : Worker α)
    (f : Fates (Pending α)) : Prop :=
  (logFates w e w' f).dropped = f.dropped ∨
    ∃ input oldest rest, e = .enqueue input ∧ w.keyframeQueue = oldest :: rest ∧
      w.keyframeQueue.length = cap ∧ (logFates w e w' f).dropped = f.dropped ++ [oldest]

theorem dropsOldest (hcap : 1 ≤ cap) {e : WorkerEvent α} (h : QueueKept cap w f)
    (hst : workerStep cap w e = some w') : DropsOldest cap w e w' f := by
  cases move_of_step hst with
  | enqueue input =>
    rcases push_cases hcap h.bounded input with ⟨-, hq⟩ | ⟨oldest, rest, hold, hfull, hq⟩
    · left
      rw [logFates, hq, List.length_append, List.length_singleton, Nat.sub_self, List.take_zero,
        List.append_nil]
    · refine .inr ⟨input, oldest, rest, rfl, hold, hfull, ?_⟩
      rw [logFates, hq, hold, List.length_append, List.length_cons, List.length_singleton,
        Nat.add_sub_cancel_left, List.take_succ_cons, List.take_zero]
  | take =>
    left
    rcases take_cases w with ⟨_, _, -, htake⟩ | ⟨-, -, htake⟩ | ⟨-, -, htake⟩ <;>
      rw [logFates, htake]
  | _ => exact .inl rfl

/-- The worker stops only when that was requested and the queue is empty. -/
theorem drained_of_stops {e : WorkerEvent α} (hst : workerStep cap w e = some w')
    (hrun : w.pc ≠ .stopped) (hstop : w'.pc = .stopped) :
    w.stopRequested = true ∧ w'.keyframeQueue = [] := by
  cases move_of_step hst with
  | take =>
    rcases take_cases w with ⟨_, _, -, htake⟩ | ⟨hq, hreq, htake⟩ | ⟨-, -, htake⟩
    · rw [htake] at hstop
      cases hstop
    · rw [htake]
      exact ⟨hreq, hq⟩
    · rw [htake] at hstop
      cases hstop
  | enqueue input => exact absurd ((notify_pc_eq (by nofun)).mp hstop) hrun
  | saveNotify | stopNotify => exact absurd ((notify_pc_eq (by nofun)).mp hstop) hrun
  | saveStore | stopStore | join => exact absurd hstop hrun
  | evaluate =>
    dsimp only at hstop
    split at hstop <;> cases hstop
  | block | wake | spuriousWake | process | exchange => cases hstop

variable {cfg : BackendConfig}

/-- Runs of the backend with the log of its queue. -/
def QueueRun (cfg : BackendConfig) : Worker α × Fates (Pending α) → Prop :=
  Reach (withGhost (workerStep cfg.maxPendingKeyframes) logFates) (fun _ _ => True) ({}, {})

theorem QueueRun.kept {p : Worker α × Fates (Pending α)} (h : QueueRun cfg p) :
    QueueKept cfg.maxPendingKeyframes p.1 p.2 := by
  refine Reach.invariant (I := fun p => QueueKept cfg.maxPendingKeyframes p.1 p.2) ?_ ?_ h
  · exact ⟨Nat.zero_le _, rfl, .empty, nofun⟩
  · intro p q e _ hkept _ hst
    obtain ⟨hstep, hlog⟩ := withGhost_cases hst
    rw [hlog]
    exact queueKept_step (maxPendingKeyframes_pos cfg) hkept hstep

/-- The queue is bounded, every keyframe that arrived has one fate, and the worker stops
only on request with the queue empty. -/
theorem pending_keyframes (h : QueueRun cfg (w, f)) :
    w.keyframeQueue.length ≤ cfg.maxPendingKeyframes ∧
      f.arrived.map Pending.seq = List.range w.enqueued ∧
      (f.taken ++ f.dropped ++ w.keyframeQueue).Perm f.arrived ∧
      (f.taken ++ w.keyframeQueue).Sublist f.arrived ∧
      (w.pc = .stopped → w.stopRequested = true) ∧
      ∀ e w', workerStep cfg.maxPendingKeyframes w e = some w' →
        DropsOldest cfg.maxPendingKeyframes w e w' f ∧
        (w.pc ≠ .stopped → w'.pc = .stopped → w.stopRequested = true ∧ w'.keyframeQueue = []) := by
  have hkept := h.kept
  refine ⟨hkept.bounded, hkept.numbers, hkept.accounted.fates, hkept.accounted.takenOrder,
    hkept.stopped, fun e w' hst => ⟨?_, ?_⟩⟩
  · exact dropsOldest (maxPendingKeyframes_pos cfg) hkept hst
  · exact drained_of_stops hst

/-- Room for one keyframe, and two that arrive while the worker is in the wait. -/
theorem pending_keyframes_overflow :
    ([] ++ [⟨7, 0⟩] ++ [⟨8, 1⟩] : List (Pending ℕ)).Perm [⟨7, 0⟩, ⟨8, 1⟩] :=
  have h : QueueRun { maxPendingKeyframesParam := 1 } _ :=
    .next (.enqueue 8) (.next (.enqueue 7) .start trivial rfl) trivial rfl
  (pending_keyframes h).2.2.1

end FastLivo.Backend
