import FastLivo.Backend.Worker

/-!
# Lost wake-ups of the backend

`syncedCallback` queues and notifies under `queue_mutex_`. `saveMapService` and the
destructor store their flag without it, so their notification may fall between the
predicate of the worker and its wait.
-/

namespace FastLivo.Backend

open Lib

variable {α : Type} {cap : ℕ} {w w' : Worker α}

/-- Notifications that are on their way: their flag is stored. -/
def Worker.inFlight (w : Worker α) : ℕ := w.savers + if w.destructor = .stored then 1 else 0

/-- The worker sleeps with something to do, and nobody will wake it. -/
def LostWakeup (w : Worker α) : Prop :=
  w.pc = .asleep false ∧ w.predicate = true ∧ w.inFlight = 0

/-- The last notification on its way comes after the predicate was false and before the
wait, with a flag stored in between. -/
def NotifiesTooEarly (w : Worker α) (e : WorkerEvent α) : Prop :=
  (e = .thread .saveNotify ∨ e = .thread .stopNotify) ∧ w.pc = .blocking ∧
    w.predicate = true ∧ w.inFlight = 1

/-- A worker in or before the wait has nothing to do, or will be notified. -/
def Watched (w : Worker α) : Prop :=
  w.pc = .blocking ∨ w.pc = .asleep false → w.predicate = true → 0 < w.inFlight

theorem Watched.not_lost (h : Watched w) : ¬LostWakeup w := fun ⟨hpc, hpred, hnone⟩ =>
  Nat.ne_of_gt (h (.inr hpc) hpred) hnone

theorem notify_predicate (w : Worker α) : w.notify.predicate = w.predicate := by
  rcases notify_cases w with ⟨n, -, h⟩ | ⟨-, h⟩ <;> rw [h]
  rfl

/-- Outside of the wait and of the window before it nothing is asked. -/
theorem watched_of_pc (hblocking : w.pc ≠ .blocking) (hasleep : w.pc ≠ .asleep false) : Watched w :=
  fun hpc _ => hpc.elim (absurd · hblocking) (absurd · hasleep)

theorem take_pc (w : Worker α) : w.take.pc ≠ .blocking ∧ w.take.pc ≠ .asleep false := by
  unfold Worker.take
  split
  · exact ⟨nofun, nofun⟩
  · split <;> exact ⟨nofun, nofun⟩

/-- A notification that is not the last one on its way, or that does not fall in the
window, leaves the worker watched. -/
theorem Watched.notify {n : Worker α} (h : Watched w) (hpc : n.pc = w.notify.pc)
    (hpred : n.predicate = w.notify.predicate) (hflight : w.inFlight = n.inFlight + 1)
    (hok : ¬(w.pc = .blocking ∧ w.predicate = true ∧ w.inFlight = 1)) : Watched n := by
  rintro (hblocking | hasleep) htrue
  · rw [hpc, notify_pc_eq (by nofun)] at hblocking
    rw [hpred, notify_predicate] at htrue
    have hpos := h (.inl hblocking) htrue
    have hne : w.inFlight ≠ 1 := fun h => hok ⟨hblocking, htrue, h⟩
    omega
  · exact absurd (hpc.symm.trans hasleep) (notify_pc_ne w)

theorem saveNotify_inFlight (hpos : 0 < w.savers) :
    w.inFlight = Worker.inFlight { w.notify with savers := w.savers - 1 } + 1 := by
  have hdestructor : w.notify.destructor = w.destructor := by
    rcases notify_cases w with ⟨n, -, h⟩ | ⟨-, h⟩ <;> rw [h]
  simp only [Worker.inFlight, hdestructor]
  omega

theorem stopNotify_inFlight (hstored : w.destructor = .stored) :
    w.inFlight = Worker.inFlight { w.notify with destructor := .notified } + 1 := by
  have hsavers : w.notify.savers = w.savers := by
    rcases notify_cases w with ⟨n, -, h⟩ | ⟨-, h⟩ <;> rw [h]
  simp [Worker.inFlight, hsavers, hstored]

theorem watched_step {e : WorkerEvent α} (h : Watched w) (hok : ¬NotifiesTooEarly w e)
    (hst : workerStep cap w e = some w') : Watched w' := by
  cases move_of_step hst with
  | enqueue input hlocked =>
    -- The mutex keeps `syncedCallback` out of the window.
    refine watched_of_pc (fun hpc => ?_) (notify_pc_ne _)
    rw [notify_pc_eq (by nofun)] at hpc
    rw [Worker.locked, show w.pc = .blocking from hpc] at hlocked
    cases hlocked
  | saveStore =>
    intro _ _
    exact Nat.lt_add_right _ (Nat.succ_pos w.savers)
  | saveNotify hpos =>
    exact h.notify rfl rfl (saveNotify_inFlight hpos) fun hearly => hok ⟨.inl rfl, hearly⟩
  | stopStore => exact fun _ _ => Nat.succ_pos _
  | stopNotify hstored =>
    exact h.notify rfl rfl (stopNotify_inFlight hstored) fun hearly => hok ⟨.inr rfl, hearly⟩
  | join hpc =>
    exact watched_of_pc (by rw [hpc]; nofun) (by rw [hpc]; nofun)
  | evaluate hpc =>
    intro hwait htrue
    have htrue : w.predicate = true := htrue
    rw [if_pos htrue] at hwait
    rcases hwait with hwait | hwait <;> cases hwait
  | block hpc => exact fun _ htrue => h (.inl hpc) htrue
  | take => exact watched_of_pc (take_pc w).1 (take_pc w).2
  | wake | spuriousWake | process | exchange => exact watched_of_pc nofun nofun

/-- A notification that comes too early leaves the worker to sleep with its flag stored. -/
theorem lost_of_notifiesTooEarly {e : WorkerEvent α} (hearly : NotifiesTooEarly w e)
    (hst : workerStep cap w e = some w') :
    ∃ w'', workerStep cap w' (.thread .block) = some w'' ∧ LostWakeup w'' := by
  obtain ⟨hevent, hpc, htrue, hone⟩ := hearly
  have hnotify : w.notify = w := by
    rcases notify_cases w with ⟨n, hw, -⟩ | ⟨-, h⟩
    · rw [hpc] at hw
      cases hw
    · exact h
  rcases hevent with rfl | rfl
  · cases move_of_step hst with
    | saveNotify hpos =>
      have hflight := saveNotify_inFlight hpos
      rw [hnotify] at hflight ⊢
      refine ⟨{ w with savers := w.savers - 1, pc := .asleep false }, ?_, rfl, htrue, ?_⟩
      · simp only [workerStep, threadStep, hpc]
      · exact Nat.succ.inj (hflight.symm.trans hone)
  · cases move_of_step hst with
    | stopNotify hstored =>
      have hflight := stopNotify_inFlight hstored
      rw [hnotify] at hflight ⊢
      refine ⟨{ w with destructor := .notified, pc := .asleep false }, ?_, rfl, htrue, ?_⟩
      · simp only [workerStep, threadStep, hpc]
      · exact Nat.succ.inj (hflight.symm.trans hone)

/-- Runs without a notification that comes too early lose no wake-up; one that comes too
early is lost as soon as the worker goes to sleep. -/
theorem wakeup_kept
    (h : Reach (workerStep cap) (fun w e => ¬NotifiesTooEarly w e) ({} : Worker α) w) :
    ¬LostWakeup w ∧ ∀ e w', workerStep cap w e = some w' → NotifiesTooEarly w e →
      ∃ w'', workerStep cap w' (.thread .block) = some w'' ∧ LostWakeup w'' := by
  have hstart : Watched ({} : Worker α) := watched_of_pc nofun nofun
  have hwatched : Watched w := h.invariant hstart
    fun _ _ hwatched hok hst => watched_step hwatched hok hst
  exact ⟨hwatched.not_lost, fun e w' hst hearly => lost_of_notifiesTooEarly hearly hst⟩

/-- A save request that comes after the worker went to sleep wakes it. -/
theorem wakeup_kept_save :
    ¬LostWakeup ({ saveRequested := true, pc := .asleep true } : Worker Unit) :=
  have hevaluate : Reach (workerStep 30) (fun w e => ¬NotifiesTooEarly w e) ({} : Worker Unit) _ :=
    .next (.thread .evaluate) .start (fun h => by rcases h.1 with h | h <;> cases h) rfl
  have hblock := hevaluate.next (.thread .block)
    (fun h => by rcases h.1 with h | h <;> cases h) rfl
  have hstore := hblock.next (.thread .saveStore)
    (fun h => by rcases h.1 with h | h <;> cases h) rfl
  have hnotify := hstore.next (.thread .saveNotify) (fun h => by cases h.2.1) rfl
  (wakeup_kept hnotify).1

/-- The destructor stores its flag and notifies while the worker is about to wait. -/
theorem lost_wakeup :
    ∃ w, Reach (workerStep 30) (fun _ _ => True) ({} : Worker Unit) w ∧ LostWakeup w :=
  have hrun : exec (workerStep 30) ({} : Worker Unit) [.thread .evaluate, .thread .stopStore,
      .thread .stopNotify, .thread .block] = some _ := rfl
  ⟨_, .of_exec hrun, rfl, rfl, rfl⟩

end FastLivo.Backend
