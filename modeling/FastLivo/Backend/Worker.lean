import FastLivo.Lib.Ghost

/-!
# The backend thread and its callers

`backendWorker` waits on `queue_cv_` under `queue_mutex_`; `syncedCallback`,
`saveMapService` and the destructor wake it. A step is a critical section, a flag that is
stored, or a notification: nothing finer can be told apart under the mutex.
-/

namespace FastLivo.Backend

open Lib

/-- An entry of `keyframe_queue_`. -/
structure Pending (α : Type) where
  input : α
  /-- Ghost: number of the entry in the order of arrival. -/
  seq : ℕ

/-- Where the worker is in its loop. -/
inductive WorkerPc (α : Type)
  /-- Before it takes the mutex, at the top of the loop or after it woke up. -/
  | waiting
  /-- The predicate was false; the mutex is held, and the wait has not begun. -/
  | blocking
  /-- In the wait, without the mutex. -/
  | asleep (notified : Bool)
  /-- The predicate was true; the mutex is held. -/
  | passed
  | processing (keyframe : Pending α)
  | saving
  | stopped

/-- Where the destructor is. -/
inductive DestructorPc
  | idle
  | stored
  | notified
  | joined
  deriving DecidableEq

/-- What the threads share, and where each of them is. -/
structure Worker (α : Type) where
  keyframeQueue : List (Pending α) := []
  stopRequested : Bool := false
  saveRequested : Bool := false
  pc : WorkerPc α := .waiting
  /-- Calls of `saveMapService` that stored their flag and did not notify yet. -/
  savers : ℕ := 0
  destructor : DestructorPc := .idle
  /-- Ghost: number of entries queued so far. -/
  enqueued : ℕ := 0

/-- Steps other than those of `syncedCallback`. -/
inductive ThreadStep
  | saveStore
  | saveNotify
  | stopStore
  | stopNotify
  | join
  | evaluate
  | block
  | wake
  | spuriousWake
  | take
  | process
  | exchange

inductive WorkerEvent (α : Type)
  | enqueue (input : α)
  | thread (t : ThreadStep)

variable {α : Type}

namespace Worker

/-- The predicate of the wait. -/
def predicate (w : Worker α) : Bool :=
  w.stopRequested || w.saveRequested || !w.keyframeQueue.isEmpty

/-- Whether the worker holds `queue_mutex_`. -/
def locked (w : Worker α) : Bool :=
  match w.pc with
  | .blocking | .passed => true
  | _ => false

/-- A notification reaches the worker only if it is in the wait. -/
def notify (w : Worker α) : Worker α :=
  match w.pc with
  | .asleep _ => { w with pc := .asleep true }
  | _ => w

/-- The queue after `syncedCallback` made room. -/
def roomFor (cap : ℕ) (w : Worker α) : List (Pending α) :=
  if cap ≤ w.keyframeQueue.length then w.keyframeQueue.tail else w.keyframeQueue

/-- The critical section of `syncedCallback`, up to its notification. -/
def push (cap : ℕ) (input : α) (w : Worker α) : Worker α :=
  { w with
    keyframeQueue := w.roomFor cap ++ [⟨input, w.enqueued⟩]
    enqueued := w.enqueued + 1 }

/-- What `backendWorker` does between the wait and the end of the critical section. -/
def take (w : Worker α) : Worker α :=
  match w.keyframeQueue with
  | keyframe :: rest => { w with keyframeQueue := rest, pc := .processing keyframe }
  | [] => if w.stopRequested then { w with pc := .stopped } else { w with pc := .saving }

end Worker

/-- A step of `saveMapService`, of the destructor or of the worker, if it can be taken. -/
def threadStep (w : Worker α) (t : ThreadStep) : Option (Worker α) :=
  match t, w.pc with
  | .saveStore, _ => some { w with saveRequested := true, savers := w.savers + 1 }
  | .saveNotify, _ => if 0 < w.savers then some { w.notify with savers := w.savers - 1 } else none
  | .stopStore, _ =>
    if w.destructor = .idle then some { w with stopRequested := true, destructor := .stored }
    else none
  | .stopNotify, _ =>
    if w.destructor = .stored then some { w.notify with destructor := .notified } else none
  | .join, .stopped =>
    if w.destructor = .notified then some { w with destructor := .joined } else none
  | .evaluate, .waiting => some { w with pc := if w.predicate then .passed else .blocking }
  | .block, .blocking => some { w with pc := .asleep false }
  | .wake, .asleep true => some { w with pc := .waiting }
  | .spuriousWake, .asleep _ => some { w with pc := .waiting }
  | .take, .passed => some w.take
  | .process, .processing _ => some { w with pc := .saving }
  | .exchange, .saving => some { w with saveRequested := false, pc := .waiting }
  | _, _ => none

/-- A step of the backend with room for `cap` keyframes. -/
def workerStep (cap : ℕ) (w : Worker α) : WorkerEvent α → Option (Worker α)
  | .enqueue input => if w.locked then none else some (w.push cap input).notify
  | .thread t => threadStep w t

/-- What each step needs and does. -/
inductive Move (cap : ℕ) (w : Worker α) : WorkerEvent α → Worker α → Prop
  | enqueue (input : α) : w.locked = false → Move cap w (.enqueue input) (w.push cap input).notify
  | saveStore :
      Move cap w (.thread .saveStore) { w with saveRequested := true, savers := w.savers + 1 }
  | saveNotify : 0 < w.savers →
      Move cap w (.thread .saveNotify) { w.notify with savers := w.savers - 1 }
  | stopStore : w.destructor = .idle →
      Move cap w (.thread .stopStore) { w with stopRequested := true, destructor := .stored }
  | stopNotify : w.destructor = .stored →
      Move cap w (.thread .stopNotify) { w.notify with destructor := .notified }
  | join : w.pc = .stopped → w.destructor = .notified →
      Move cap w (.thread .join) { w with destructor := .joined }
  | evaluate : w.pc = .waiting →
      Move cap w (.thread .evaluate) { w with pc := if w.predicate then .passed else .blocking }
  | block : w.pc = .blocking → Move cap w (.thread .block) { w with pc := .asleep false }
  | wake : w.pc = .asleep true → Move cap w (.thread .wake) { w with pc := .waiting }
  | spuriousWake (notified : Bool) : w.pc = .asleep notified →
      Move cap w (.thread .spuriousWake) { w with pc := .waiting }
  | take : w.pc = .passed → Move cap w (.thread .take) w.take
  | process (keyframe : Pending α) : w.pc = .processing keyframe →
      Move cap w (.thread .process) { w with pc := .saving }
  | exchange : w.pc = .saving →
      Move cap w (.thread .exchange) { w with saveRequested := false, pc := .waiting }

variable {cap : ℕ} {w w' : Worker α}

theorem move_of_step {e : WorkerEvent α} (h : workerStep cap w e = some w') : Move cap w e w' := by
  cases e with
  | enqueue input =>
    simp only [workerStep] at h
    split at h
    · cases h
    · rename_i hlocked
      obtain rfl := Option.some.inj h
      exact .enqueue input (Bool.eq_false_iff.mpr hlocked)
  | thread t =>
    simp only [workerStep, threadStep] at h
    split at h
    · obtain rfl := Option.some.inj h
      exact .saveStore
    · obtain ⟨hpos, ⟨⟩⟩ := Option.ite_none_right_eq_some.mp h
      exact .saveNotify hpos
    · obtain ⟨hidle, ⟨⟩⟩ := Option.ite_none_right_eq_some.mp h
      exact .stopStore hidle
    · obtain ⟨hstored, ⟨⟩⟩ := Option.ite_none_right_eq_some.mp h
      exact .stopNotify hstored
    · obtain ⟨hnotified, ⟨⟩⟩ := Option.ite_none_right_eq_some.mp h
      exact .join ‹_› hnotified
    · obtain rfl := Option.some.inj h
      exact .evaluate ‹_›
    · obtain rfl := Option.some.inj h
      exact .block ‹_›
    · obtain rfl := Option.some.inj h
      exact .wake ‹_›
    · obtain rfl := Option.some.inj h
      exact .spuriousWake _ ‹_›
    · obtain rfl := Option.some.inj h
      exact .take ‹_›
    · obtain rfl := Option.some.inj h
      exact .process _ ‹_›
    · obtain rfl := Option.some.inj h
      exact .exchange ‹_›
    · cases h

/-! ## What a notification leaves alone -/

theorem notify_cases (w : Worker α) :
    (∃ n, w.pc = .asleep n ∧ w.notify = { w with pc := .asleep true }) ∨
      (∀ n, w.pc ≠ .asleep n) ∧ w.notify = w := by
  unfold Worker.notify
  cases hpc : w.pc with
  | asleep n => exact .inl ⟨n, rfl, rfl⟩
  | _ => exact .inr ⟨fun n => nofun, rfl⟩

@[simp] theorem notify_keyframeQueue (w : Worker α) : w.notify.keyframeQueue = w.keyframeQueue := by
  rcases notify_cases w with ⟨n, -, h⟩ | ⟨-, h⟩ <;> rw [h]

@[simp] theorem notify_stopRequested (w : Worker α) : w.notify.stopRequested = w.stopRequested := by
  rcases notify_cases w with ⟨n, -, h⟩ | ⟨-, h⟩ <;> rw [h]

@[simp] theorem notify_enqueued (w : Worker α) : w.notify.enqueued = w.enqueued := by
  rcases notify_cases w with ⟨n, -, h⟩ | ⟨-, h⟩ <;> rw [h]

/-- No notification puts the worker to sleep, nor anywhere else. -/
theorem notify_pc_eq {pc : WorkerPc α} (hpc : ∀ n, pc ≠ .asleep n) :
    w.notify.pc = pc ↔ w.pc = pc := by
  rcases notify_cases w with ⟨n, hw, h⟩ | ⟨-, h⟩
  · rw [h, hw]
    exact ⟨fun h => absurd h.symm (hpc true), fun h => absurd h.symm (hpc n)⟩
  · rw [h]

theorem notify_pc_ne (w : Worker α) : w.notify.pc ≠ .asleep false := by
  rcases notify_cases w with ⟨n, -, h⟩ | ⟨hne, h⟩ <;> rw [h]
  · nofun
  · exact hne false

end FastLivo.Backend
