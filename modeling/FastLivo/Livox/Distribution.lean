import FastLivo.Livox.Storage
import Mathlib.Algebra.Order.BigOperators.Group.Finset

/-!
# The semaphore between the threads

`PushLidarData` signals only where it reads a count of zero, and the publishing thread sleeps where
it finds one. No packet of a sampling device is left behind by a thread that sleeps, and a thread
that is left alone publishes all of them before it does.
-/

namespace FastLivo.Livox

open Lib

variable {c : DriverConfig} {s t : Driver}

/-- The publishing thread will look at the queue of a device before it waits again. -/
def ConsumerPc.WillVisit (i : ℕ) : ConsumerPc → Prop
  | .start | .wait | .fault => False
  | .visit j | .testNull j | .testExit j | .testEmpty j | .publish j | .prePop j | .readBase j
  | .readNum j _ | .resize j _ _ | .copy j _ _ _ | .popUpdate j _ => j ≤ i

/-- `PushLidarData` has pushed to a device and has not come to the end of its tests yet. -/
def ProducerPc.WillSignal (i : ℕ) (pc : ProducerPc) : Prop :=
  pc = .testEmpty i ∨ pc = .testCount i ∨ pc = .signal i

/-- Packets wait in the queue of a device. -/
def DeviceStorage.Pending (d : DeviceStorage) : Prop := d.popped.length ≠ d.pushed.length

/-- The invariant of the semaphore. -/
structure WakeInv (s : Driver) : Prop where
  count_nonneg : 0 ≤ s.count
  count_le : s.count ≤ 1
  signal : ∀ i, s.producer = .signal i → s.count ≤ 0
  watched : s.exit = false → ∀ i < kMaxSourceLidar, (s.device i).Pending → s.skipped i = false →
    0 < s.count ∨ s.consumer.WillVisit i ∨ s.producer.WillSignal i

/-! ## Steps of `PushLidarData` -/

/-- A queue in which packets wait now, and did not before, was just pushed to. -/
theorem pending_producer (hst : producerStep c s = some t) {i : ℕ} (h : (t.device i).Pending) :
    (s.device i).Pending ∨ t.producer = .testEmpty i := by
  have hqueue (j : ℕ) (q : LidarDataQueue) (h : ((s.setQueue j q).device i).Pending) :
      (s.device i).Pending := by
    by_cases hj : i = j
    · subst hj
      simp only [Driver.setQueue, Function.update_self] at h
      exact h
    · simpa only [Driver.setQueue, Function.update_of_ne hj] using h
  cases hpc : s.producer with
  | idle | fault => simp only [producerStep, hpc] at hst; cases hst
  | enter | testFull | testEmpty | testCount | signal =>
    simp only [producerStep, hpc] at hst
    obtain rfl := Option.some.inj hst
    exact .inl h
  | alloc j p =>
    simp only [producerStep, hpc] at hst
    obtain rfl := Option.some.inj hst
    exact .inl (hqueue j _ h)
  | init stage j p =>
    cases stage with
    | rdIdx | wrIdx | size | mask =>
      simp only [producerStep, hpc] at hst
      obtain rfl := Option.some.inj hst
      exact .inl (hqueue j _ h)
  | write stage j p =>
    simp only [producerStep, hpc] at hst
    split at hst
    · obtain rfl := Option.some.inj hst
      exact .inl h
    · obtain rfl := Option.some.inj hst
      exact .inl (hqueue j _ h)
  | bump j p =>
    simp only [producerStep, hpc] at hst
    obtain rfl := Option.some.inj hst
    by_cases hj : i = j
    · subst hj
      exact .inr rfl
    · have hsame : (s.device i).Pending := by
        simpa only [Function.update_of_ne hj] using h
      exact .inl hsame

theorem frame_producer (hst : producerStep c s = some t) :
    t.consumer = s.consumer ∧ t.exit = s.exit ∧ t.skipped = s.skipped ∧ t.sampling = s.sampling := by
  cases hpc : s.producer with
  | idle | fault => simp only [producerStep, hpc] at hst; cases hst
  | enter | testFull | testEmpty | testCount | signal | alloc | bump =>
    simp only [producerStep, hpc] at hst
    obtain rfl := Option.some.inj hst
    exact ⟨rfl, rfl, rfl, rfl⟩
  | init stage j p =>
    cases stage with
    | rdIdx | wrIdx | size | mask =>
      simp only [producerStep, hpc] at hst
      obtain rfl := Option.some.inj hst
      exact ⟨rfl, rfl, rfl, rfl⟩
  | write stage j p =>
    simp only [producerStep, hpc] at hst
    split at hst
    · obtain rfl := Option.some.inj hst
      exact ⟨rfl, rfl, rfl, rfl⟩
    · obtain rfl := Option.some.inj hst
      exact ⟨rfl, rfl, rfl, rfl⟩

/-- The count and where the pushing thread is after a step. -/
theorem count_producer (hst : producerStep c s = some t) :
    (t.count = s.count ∨ (∃ i, s.producer = .signal i) ∧ t.count = s.count + 1) ∧
      ∀ i, t.producer = .signal i → s.producer = .testCount i ∧ s.count ≤ 0 ∧ t.count = s.count := by
  cases hpc : s.producer with
  | idle | fault => simp only [producerStep, hpc] at hst; cases hst
  | alloc | bump =>
    simp only [producerStep, hpc] at hst
    obtain rfl := Option.some.inj hst
    exact ⟨.inl rfl, fun i hi => by cases hi⟩
  | enter | testFull | testEmpty =>
    simp only [producerStep, hpc] at hst
    obtain rfl := Option.some.inj hst
    refine ⟨.inl rfl, fun i hi => ?_⟩
    simp only at hi
    split at hi
    · cases hi
    · cases hi
  | testCount j =>
    simp only [producerStep, hpc] at hst
    obtain rfl := Option.some.inj hst
    refine ⟨.inl rfl, fun i hi => ?_⟩
    simp only at hi
    split at hi
    · rename_i hcount
      obtain rfl := ProducerPc.signal.inj hi
      exact ⟨rfl, hcount, rfl⟩
    · cases hi
  | signal j =>
    simp only [producerStep, hpc] at hst
    obtain rfl := Option.some.inj hst
    exact ⟨.inr ⟨⟨j, rfl⟩, rfl⟩, fun i hi => by cases hi⟩
  | init stage j p =>
    cases stage with
    | rdIdx | wrIdx | size | mask =>
      simp only [producerStep, hpc] at hst
      obtain rfl := Option.some.inj hst
      exact ⟨.inl rfl, fun i hi => by cases hi⟩
  | write stage j p =>
    simp only [producerStep, hpc] at hst
    split at hst
    · obtain rfl := Option.some.inj hst
      exact ⟨.inl rfl, fun i hi => by cases hi⟩
    · obtain rfl := Option.some.inj hst
      exact ⟨.inl rfl, fun i hi => by cases stage <;> cases hi⟩

/-- The tests behind a push end with a count, or with a queue that the other thread has emptied. -/
theorem willSignal_producer (hinv : StorageInv c s) (hst : producerStep c s = some t) {i : ℕ}
    (h : s.producer.WillSignal i) (hnonneg : 0 ≤ s.count) :
    t.producer.WillSignal i ∨ 0 < t.count ∨ ¬(t.device i).Pending := by
  rcases h with hpc | hpc | hpc
  · simp only [producerStep, hpc] at hst
    obtain rfl := Option.some.inj hst
    cases hempty : (s.device i).queue.queueIsEmpty with
    | true => exact .inr (.inr fun hpending => hpending ((hinv.device i).isEmpty_iff.mp hempty))
    | false =>
      refine .inl (.inr (.inl ?_))
      rw [if_neg Bool.false_ne_true]
  · simp only [producerStep, hpc] at hst
    obtain rfl := Option.some.inj hst
    by_cases hcount : s.count ≤ 0
    · exact .inl (.inr (.inr (if_pos hcount)))
    · exact .inr (.inl (Int.lt_of_not_ge hcount))
  · simp only [producerStep, hpc] at hst
    obtain rfl := Option.some.inj hst
    exact .inr (.inl (show 0 < s.count + 1 by omega))

theorem wakeInv_producer (hinv : StorageInv c s) (h : WakeInv s)
    (hst : producerStep c s = some t) : WakeInv t := by
  obtain ⟨hconsumer, hexit, hskipped, -⟩ := frame_producer hst
  obtain ⟨hcount, hsignal⟩ := count_producer hst
  have hnonneg := h.count_nonneg
  have hle := h.count_le
  refine ⟨?_, ?_, fun i hi => ?_, fun hrun i hi hpending hvisited => ?_⟩
  · rcases hcount with hcount | ⟨-, hcount⟩
    · omega
    · omega
  · rcases hcount with hcount | ⟨⟨i, hi⟩, hcount⟩
    · omega
    · have := h.signal i hi
      omega
  · obtain ⟨-, hzero, hsame⟩ := hsignal i hi
    omega
  · rcases pending_producer hst hpending with hold | hnew
    · rw [hconsumer]
      rcases h.watched (hexit ▸ hrun) i hi hold (hskipped ▸ hvisited) with hpos | hvisit | hwill
      · refine .inl ?_
        rcases hcount with hcount | ⟨-, hcount⟩
        · omega
        · omega
      · exact .inr (.inl hvisit)
      · rcases willSignal_producer hinv hst hwill hnonneg with hwill | hpos | hnot
        · exact .inr (.inr hwill)
        · exact .inl hpos
        · exact absurd hpending hnot
    · exact .inr (.inr (.inl hnew))

/-! ## Steps of `DistributePointCloudData` -/

/-- The publishing thread changes nothing of the other one, and only takes from the queues. -/
theorem frame_consumer (hinv : StorageInv c s) (hst : consumerStep c s = some t) :
    t.producer = s.producer ∧ t.exit = s.exit ∧
      ∀ i, (t.device i).Pending → (s.device i).Pending := by
  cases hpc : s.consumer with
  | fault => simp only [consumerStep, hpc] at hst; cases hst
  | start | wait =>
    simp only [consumerStep, hpc] at hst
    split at hst
    all_goals cases hst
    exact ⟨rfl, rfl, fun _ h => h⟩
  | testNull | testExit | testEmpty | publish | prePop =>
    simp only [consumerStep, hpc] at hst
    obtain rfl := Option.some.inj hst
    exact ⟨rfl, rfl, fun _ h => h⟩
  | visit | readBase | readNum | resize | copy =>
    simp only [consumerStep, hpc] at hst
    split at hst
    · obtain rfl := Option.some.inj hst
      exact ⟨rfl, rfl, fun _ h => h⟩
    · obtain rfl := Option.some.inj hst
      exact ⟨rfl, rfl, fun _ h => h⟩
  | popUpdate j pkg =>
    have hwaits : (s.device j).Waits (· = pkg) := by
      simpa only [Driver.ConsumerOk, hpc] using hinv.consumer
    simp only [consumerStep, hpc] at hst
    obtain rfl := Option.some.inj hst
    refine ⟨rfl, rfl, fun i h => ?_⟩
    by_cases hj : i = j
    · subst hj
      obtain ⟨p, hp, -⟩ := hwaits.oldest
      obtain ⟨hlt, -⟩ := List.getElem?_eq_some_iff.mp hp
      exact hlt.ne
    · simpa only [Function.update_of_ne hj] using h

/-- The thread waits for a count, and takes one. -/
theorem count_consumer (hst : consumerStep c s = some t) :
    (t.count = s.count ∧ s.consumer ≠ .wait) ∨
      (0 < s.count ∧ t.count = s.count - 1 ∧ t.consumer = .visit 0) := by
  cases hpc : s.consumer with
  | fault => simp only [consumerStep, hpc] at hst; cases hst
  | wait =>
    simp only [consumerStep, hpc] at hst
    split at hst
    · rename_i hcount
      obtain rfl := Option.some.inj hst
      exact .inr ⟨hcount, rfl, rfl⟩
    · cases hst
  | start =>
    simp only [consumerStep, hpc] at hst
    split at hst
    all_goals cases hst
    exact .inl ⟨rfl, fun h => by cases h⟩
  | testNull | testExit | testEmpty | publish | prePop | popUpdate =>
    simp only [consumerStep, hpc] at hst
    obtain rfl := Option.some.inj hst
    exact .inl ⟨rfl, fun h => by cases h⟩
  | visit | readBase | readNum | resize | copy =>
    simp only [consumerStep, hpc] at hst
    split at hst
    · obtain rfl := Option.some.inj hst
      exact .inl ⟨rfl, fun h => by cases h⟩
    · obtain rfl := Option.some.inj hst
      exact .inl ⟨rfl, fun h => by cases h⟩

/-- The thread comes to a device, finds its queue empty, or skips it. -/
theorem willVisit_consumer (hinv : StorageInv c s) (hst : consumerStep c s = some t)
    (hrun : s.exit = false) {i : ℕ} (hi : i < kMaxSourceLidar) (h : s.consumer.WillVisit i) :
    t.consumer.WillVisit i ∨ ¬(s.device i).Pending ∨ t.skipped i = true := by
  cases hpc : s.consumer with
  | start | wait | fault =>
    rw [hpc] at h
    exact h.elim
  | visit j =>
    have hle : j ≤ i := by rwa [hpc] at h
    simp only [consumerStep, hpc, if_pos (show j < kMaxSourceLidar by omega)] at hst
    obtain rfl := Option.some.inj hst
    cases hsampling : s.sampling j with
    | true => exact .inl hle
    | false =>
      by_cases hj : i = j
      · subst hj
        refine .inr (.inr ?_)
        simp only [Function.update_self, Bool.not_false]
      · exact .inl (show j + 1 ≤ i by omega)
  | testNull j =>
    have hle : j ≤ i := by rwa [hpc] at h
    simp only [consumerStep, hpc] at hst
    obtain rfl := Option.some.inj hst
    cases hstorage : (s.device j).queue.storagePacket with
    | some slots => exact .inl hle
    | none =>
      by_cases hj : i = j
      · subst hj
        refine .inr (.inl fun hpending => ?_)
        rcases hinv.device i with hblank | ⟨slots, hready⟩ | ⟨slots, hstored, -, -⟩
        · exact hpending (by rw [hblank.popped, hblank.pushed])
        · exact absurd (hready.storage.symm.trans hstorage) (Option.some_ne_none slots)
        · exact absurd (hstored.storage.symm.trans hstorage) (Option.some_ne_none slots)
      · exact .inl (show j + 1 ≤ i by omega)
  | testExit j =>
    have hle : j ≤ i := by rwa [hpc] at h
    simp only [consumerStep, hpc, hrun] at hst
    obtain rfl := Option.some.inj hst
    exact .inl hle
  | testEmpty j =>
    have hle : j ≤ i := by rwa [hpc] at h
    simp only [consumerStep, hpc] at hst
    obtain rfl := Option.some.inj hst
    cases hempty : (s.device j).queue.queueIsEmpty with
    | false =>
      cases c.format.pops with
      | true => exact .inl hle
      | false => exact .inl hle
    | true =>
      by_cases hj : i = j
      · subst hj
        exact .inr (.inl fun hpending => hpending ((hinv.device i).isEmpty_iff.mp hempty))
      · exact .inl (show j + 1 ≤ i by omega)
  | publish j | prePop j =>
    have hle : j ≤ i := by rwa [hpc] at h
    simp only [consumerStep, hpc] at hst
    obtain rfl := Option.some.inj hst
    cases (s.device j).queue.queueIsEmpty with
    | true => exact .inl hle
    | false => exact .inl hle
  | popUpdate j pkg =>
    have hle : j ≤ i := by rwa [hpc] at h
    simp only [consumerStep, hpc] at hst
    obtain rfl := Option.some.inj hst
    exact .inl hle
  | readBase j | readNum j | resize j | copy j =>
    have hle : j ≤ i := by rwa [hpc] at h
    have hnext := storageInv_consumer hinv hst
    simp only [consumerStep, hpc] at hst
    split at hst
    · obtain rfl := Option.some.inj hst
      exact hnext.consumer.elim
    · obtain rfl := Option.some.inj hst
      exact .inl hle

/-- A device is not skipped any more only when the thread comes to it. -/
theorem skipped_consumer (hst : consumerStep c s = some t) {i : ℕ} (h : t.skipped i = false) :
    s.skipped i = false ∨ t.consumer.WillVisit i := by
  cases hpc : s.consumer with
  | fault => simp only [consumerStep, hpc] at hst; cases hst
  | start | wait =>
    simp only [consumerStep, hpc] at hst
    split at hst
    all_goals cases hst
    exact .inl h
  | testNull | testExit | testEmpty | publish | prePop | popUpdate =>
    simp only [consumerStep, hpc] at hst
    obtain rfl := Option.some.inj hst
    exact .inl h
  | readBase | readNum | resize | copy =>
    simp only [consumerStep, hpc] at hst
    split at hst
    · obtain rfl := Option.some.inj hst
      exact .inl h
    · obtain rfl := Option.some.inj hst
      exact .inl h
  | visit j =>
    simp only [consumerStep, hpc] at hst
    split at hst
    · obtain rfl := Option.some.inj hst
      by_cases hj : i = j
      · subst hj
        simp only [Function.update_self, Bool.not_eq_false'] at h
        simp only [h, if_true]
        exact .inr (Nat.le_refl i)
      · simp only [Function.update_of_ne hj] at h
        exact .inl h
    · obtain rfl := Option.some.inj hst
      exact .inl h

theorem wakeInv_consumer (hinv : StorageInv c s) (h : WakeInv s)
    (hst : consumerStep c s = some t) : WakeInv t := by
  obtain ⟨hproducer, hexit, hpending⟩ := frame_consumer hinv hst
  have hcount := count_consumer hst
  have hnonneg := h.count_nonneg
  have hle := h.count_le
  refine ⟨by omega, by omega, fun i hi => ?_, fun hrun i hi hwaits hvisited => ?_⟩
  · have := h.signal i (hproducer ▸ hi)
    omega
  · rw [hproducer]
    rcases skipped_consumer hst hvisited with hvisited' | hvisit
    · rcases h.watched (hexit ▸ hrun) i hi (hpending i hwaits) hvisited' with hpos | hvisit | hwill
      · rcases hcount with ⟨hcount, -⟩ | ⟨-, -, hpc⟩
        · exact .inl (hcount ▸ hpos)
        · exact .inr (.inl (hpc ▸ Nat.zero_le i))
      · rcases willVisit_consumer hinv hst (hexit ▸ hrun) hi hvisit with hvisit | hnot | hskip
        · exact .inr (.inl hvisit)
        · exact absurd (hpending i hwaits) hnot
        · exact absurd hskip (hvisited ▸ Bool.false_ne_true)
      · exact .inr (.inr hwill)
    · exact .inr (.inl hvisit)

/-! ## Runs -/

theorem wakeInv_initial : WakeInv Driver.initial where
  count_nonneg := le_rfl
  count_le := Int.zero_le_ofNat 1
  signal i hi := by cases hi
  watched _ i _ hpending _ := absurd rfl hpending

theorem wakeInv_reach (h : DriverReach c s) : WakeInv s := by
  refine h.invariant wakeInv_initial fun e hreach hwake _ hst => ?_
  have hinv := storageInv_reach hreach
  cases e with
  | producer => exact wakeInv_producer hinv hwake hst
  | consumer => exact wakeInv_consumer hinv hwake hst
  | push i p =>
    simp only [driverStep] at hst
    split at hst
    · rename_i hidle
      split at hst
      · obtain rfl := Option.some.inj hst
        refine ⟨hwake.count_nonneg, hwake.count_le, fun i hi => (by cases hi), ?_⟩
        intro hrun i hi hpending hvisited
        rcases hwake.watched hrun i hi hpending hvisited with hpos | hvisit | hwill
        · exact .inl hpos
        · exact .inr (.inl hvisit)
        · rw [hidle] at hwill
          rcases hwill with hwill | hwill | hwill
          all_goals cases hwill
      · cases hst
    · cases hst
  | connect i sampling =>
    obtain rfl := Option.some.inj hst
    exact ⟨hwake.count_nonneg, hwake.count_le, hwake.signal, hwake.watched⟩
  | requestExit =>
    obtain rfl := Option.some.inj hst
    exact ⟨hwake.count_nonneg, hwake.count_le, hwake.signal, fun hrun => by cases hrun⟩

/-- A thread that sleeps left nothing at the devices that it found sampling. -/
theorem WakeInv.popped_eq (hwake : WakeInv s) (hinv : StorageInv c s) (hrun : s.exit = false)
    (hconsumer : s.consumer = .wait) (hcount : s.count = 0) (hproducer : s.producer = .idle) {i : ℕ}
    (hi : i < kMaxSourceLidar) (hvisited : s.skipped i = false) :
    (s.device i).popped = (s.device i).pushed := by
  by_contra hne
  have hpending : (s.device i).Pending := by
    intro hlength
    refine hne ?_
    rcases hinv.device i with hblank | ⟨slots, hready⟩ | ⟨slots, hstored, hnone, -⟩
    · rw [hblank.popped, hblank.pushed]
    · rw [hready.taken, hlength, List.take_length]
    · rw [hstored.popped_nil hnone, hnone]
  rcases hwake.watched hrun i hi hpending hvisited with hpos | hvisit | hwill
  · omega
  · rw [hconsumer] at hvisit
    exact hvisit
  · rw [hproducer] at hwill
    rcases hwill with hwill | hwill | hwill
    all_goals cases hwill

/-- While the publishing thread sleeps and nothing is being pushed, every packet was popped of the
devices that it found sampling when it came to them last. The count is never above one. -/
theorem no_lost_wakeup (c : DriverConfig) {s : Driver} (h : DriverReach c s) :
    0 ≤ s.count ∧ s.count ≤ 1 ∧
      (s.exit = false → s.consumer = .wait → s.count = 0 → s.producer = .idle →
        ∀ i < kMaxSourceLidar, s.skipped i = false → (s.device i).popped = (s.device i).pushed) := by
  have hwake := wakeInv_reach h
  refine ⟨hwake.count_nonneg, hwake.count_le, fun hrun hpc hcount hidle i hi hvisited => ?_⟩
  exact hwake.popped_eq (storageInv_reach h) hrun hpc hcount hidle hi hvisited

/-- The thread goes back to sleep after the packet. -/
def sleepingEvents : List DriverEvent :=
  onePacketEvents ++ List.replicate 36 .consumer

def sleepingState : Driver :=
  (exec (driverStep customConfig) .initial sleepingEvents).getD .initial

theorem no_lost_wakeup_onePacket :
    (sleepingState.device 0).popped = (sleepingState.device 0).pushed :=
  have hrun : exec (driverStep customConfig) .initial sleepingEvents = some sleepingState := rfl
  (no_lost_wakeup customConfig (.of_exec hrun)).2.2 rfl rfl rfl rfl 0 (by decide) rfl

/-! ## A thread that is left alone -/

/-- The thread is at one of the devices. -/
def ConsumerPc.Inside : ConsumerPc → Prop
  | .start | .wait | .fault | .visit _ => True
  | .testNull j | .testExit j | .testEmpty j | .publish j | .prePop j | .readBase j
  | .readNum j _ | .resize j _ _ | .copy j _ _ _ | .popUpdate j _ => j < kMaxSourceLidar

theorem inside_consumer (h : s.consumer.Inside) (hst : consumerStep c s = some t) :
    t.consumer.Inside := by
  cases hpc : s.consumer with
  | fault => simp only [consumerStep, hpc] at hst; cases hst
  | start | wait =>
    simp only [consumerStep, hpc] at hst
    split at hst
    all_goals cases hst
    trivial
  | visit j =>
    simp only [consumerStep, hpc] at hst
    split at hst
    · rename_i hj
      obtain rfl := Option.some.inj hst
      cases s.sampling j with
      | true => exact hj
      | false => trivial
    · obtain rfl := Option.some.inj hst
      trivial
  | testNull j | testExit j | publish j | prePop j =>
    have hj : j < kMaxSourceLidar := by rwa [hpc] at h
    simp only [consumerStep, hpc] at hst
    obtain rfl := Option.some.inj hst
    dsimp only
    split
    · first | exact hj | trivial
    · exact hj
  | testEmpty j =>
    have hj : j < kMaxSourceLidar := by rwa [hpc] at h
    simp only [consumerStep, hpc] at hst
    obtain rfl := Option.some.inj hst
    dsimp only
    split
    · trivial
    · split
      · exact hj
      · exact hj
  | popUpdate j pkg =>
    have hj : j < kMaxSourceLidar := by rwa [hpc] at h
    simp only [consumerStep, hpc] at hst
    obtain rfl := Option.some.inj hst
    exact hj
  | readBase j | readNum j | resize j | copy j =>
    have hj : j < kMaxSourceLidar := by rwa [hpc] at h
    simp only [consumerStep, hpc] at hst
    split at hst
    · obtain rfl := Option.some.inj hst
      trivial
    · obtain rfl := Option.some.inj hst
      exact hj

theorem inside_reach (h : DriverReach c s) : s.consumer.Inside := by
  refine h.invariant (I := fun s => s.consumer.Inside) trivial fun e _ hinside _ hst => ?_
  cases e with
  | producer => exact (frame_producer hst).1 ▸ hinside
  | consumer => exact inside_consumer hinside hst
  | push i p =>
    simp only [driverStep] at hst
    split at hst
    · split at hst
      · obtain rfl := Option.some.inj hst
        exact hinside
      · cases hst
    · cases hst
  | connect | requestExit =>
    obtain rfl := Option.some.inj hst
    exact hinside

/-- The packets that wait for a device. -/
def DeviceStorage.waiting (d : DeviceStorage) : ℕ := d.pushed.length - d.popped.length

/-- How far the thread is from its next wait, but for the packets. A test of a queue that is empty
leads back to an earlier one. -/
def Driver.rank (s : Driver) : ℕ :=
  match s.consumer with
  | .wait | .fault => 0
  | .start => 1
  | .visit j => 12 * (kMaxSourceLidar - j) + 2
  | .testNull j => 12 * (kMaxSourceLidar - j) + 1
  | .testExit j => 12 * (kMaxSourceLidar - j)
  | .testEmpty j => 12 * (kMaxSourceLidar - j) - 1
  | .publish j => if (s.device j).queue.queueIsEmpty then 12 * (kMaxSourceLidar - j) + 1
      else 12 * (kMaxSourceLidar - j) - 2
  | .prePop j => if (s.device j).queue.queueIsEmpty then 12 * (kMaxSourceLidar - j) + 2
      else 12 * (kMaxSourceLidar - j) - 3
  | .readBase j => 12 * (kMaxSourceLidar - j) - 4
  | .readNum j _ => 12 * (kMaxSourceLidar - j) - 5
  | .resize j _ _ => 12 * (kMaxSourceLidar - j) - 6
  | .copy j _ _ _ => 12 * (kMaxSourceLidar - j) - 7
  | .popUpdate j _ => 12 * (kMaxSourceLidar - j) - 8

/-- What is left to do before the thread sleeps. -/
def Driver.work (s : Driver) : ℕ :=
  1000 * s.count.toNat + 20 * (∑ i ∈ Finset.range kMaxSourceLidar, (s.device i).waiting) + s.rank

theorem work_lt_of_rank (hcount : t.count = s.count) (hdevice : t.device = s.device)
    (hrank : t.rank < s.rank) : t.work < s.work := by
  rw [Driver.work, Driver.work, hcount, hdevice]
  omega

theorem work_wait (hpc : s.consumer = .wait) (hst : consumerStep c s = some t) :
    t.work < s.work := by
  simp only [consumerStep, hpc] at hst
  split at hst
  · rename_i hcount
    obtain rfl := Option.some.inj hst
    have hrank : s.rank = 0 := by rw [Driver.rank, hpc]
    have hnext : Driver.rank { s with count := s.count - 1, consumer := .visit 0 } = 386 := rfl
    rw [Driver.work, Driver.work, hrank, hnext]
    dsimp only
    omega
  · cases hst

/-- A packet that is popped makes up for the tests after it. -/
theorem work_popUpdate (hinv : StorageInv c s) {j : ℕ} {pkg : StoragePacket}
    (hj : j < kMaxSourceLidar) (hpc : s.consumer = .popUpdate j pkg)
    (hst : consumerStep c s = some t) : t.work < s.work := by
  have hwaits : (s.device j).Waits (· = pkg) := by
    simpa only [Driver.ConsumerOk, hpc] using hinv.consumer
  obtain ⟨p, hp, -⟩ := hwaits.oldest
  obtain ⟨hlt, -⟩ := List.getElem?_eq_some_iff.mp hp
  simp only [consumerStep, hpc] at hst
  obtain rfl := Option.some.inj hst
  set d : DeviceStorage := { s.device j with
    queue := { (s.device j).queue with rdIdx := (s.device j).queue.rdIdx + 1 }
    popped := (s.device j).popped ++ [pkg]
    published := (s.device j).published ++ if pkg.points = [] then [] else [pkg] } with hd
  have hone : (s.device j).waiting = d.waiting + 1 := by
    simp only [hd, DeviceStorage.waiting, List.length_append, List.length_singleton]
    omega
  have hsum : (∑ i ∈ Finset.range kMaxSourceLidar, (Function.update s.device j d i).waiting) <
      ∑ i ∈ Finset.range kMaxSourceLidar, (s.device i).waiting := by
    refine Finset.sum_lt_sum (fun i _ => ?_) ⟨j, Finset.mem_range.mpr hj, ?_⟩
    · by_cases hi : i = j
      · subst hi
        rw [Function.update_self]
        omega
      · rw [Function.update_of_ne hi]
    · rw [Function.update_self]
      omega
  have hrank : s.rank = 12 * (kMaxSourceLidar - j) - 8 := by rw [Driver.rank, hpc]
  have hnext : Driver.rank { s with device := Function.update s.device j d, consumer := .publish j } ≤
      12 * (kMaxSourceLidar - j) + 1 := by
    rw [Driver.rank]
    dsimp only
    split
    · exact Nat.le_refl _
    · omega
  rw [Driver.work, Driver.work, hrank]
  dsimp only
  omega

theorem work_consumer (hpops : c.format.pops = true) (hinv : StorageInv c s)
    (hinside : s.consumer.Inside) (hrun : s.exit = false) (hst : consumerStep c s = some t) :
    t.work < s.work := by
  cases hpc : s.consumer with
  | fault => simp only [consumerStep, hpc] at hst; cases hst
  | wait => exact work_wait hpc hst
  | popUpdate j pkg =>
    exact work_popUpdate hinv (by simpa only [ConsumerPc.Inside, hpc] using hinside) hpc hst
  | start =>
    simp only [consumerStep, hpc, hrun] at hst
    obtain rfl := Option.some.inj hst
    refine work_lt_of_rank rfl rfl ?_
    simp only [Driver.rank, hpc]
    omega
  | visit j =>
    simp only [consumerStep, hpc] at hst
    split at hst
    · rename_i hj
      obtain rfl := Option.some.inj hst
      refine work_lt_of_rank rfl rfl ?_
      cases s.sampling j with
      | true =>
        simp only [Driver.rank, hpc, if_true]
        omega
      | false =>
        simp only [Driver.rank, hpc, if_neg Bool.false_ne_true]
        omega
    · obtain rfl := Option.some.inj hst
      refine work_lt_of_rank rfl rfl ?_
      simp only [Driver.rank, hpc]
      omega
  | testNull j =>
    have hj : j < kMaxSourceLidar := by simpa only [ConsumerPc.Inside, hpc] using hinside
    simp only [consumerStep, hpc] at hst
    obtain rfl := Option.some.inj hst
    refine work_lt_of_rank rfl rfl ?_
    cases (s.device j).queue.storagePacket.isNone with
    | true =>
      simp only [Driver.rank, hpc, if_true]
      omega
    | false =>
      simp only [Driver.rank, hpc, if_neg Bool.false_ne_true]
      omega
  | testExit j =>
    have hj : j < kMaxSourceLidar := by simpa only [ConsumerPc.Inside, hpc] using hinside
    simp only [consumerStep, hpc, hrun] at hst
    obtain rfl := Option.some.inj hst
    refine work_lt_of_rank rfl rfl ?_
    simp only [Driver.rank, hpc, if_neg Bool.false_ne_true]
    omega
  | testEmpty j =>
    have hj : j < kMaxSourceLidar := by simpa only [ConsumerPc.Inside, hpc] using hinside
    simp only [consumerStep, hpc, hpops, if_true] at hst
    obtain rfl := Option.some.inj hst
    refine work_lt_of_rank rfl rfl ?_
    cases hempty : (s.device j).queue.queueIsEmpty with
    | true =>
      simp only [Driver.rank, hpc, if_true]
      omega
    | false =>
      simp only [Driver.rank, hpc, hempty, if_neg Bool.false_ne_true]
      omega
  | publish j =>
    have hj : j < kMaxSourceLidar := by simpa only [ConsumerPc.Inside, hpc] using hinside
    simp only [consumerStep, hpc] at hst
    obtain rfl := Option.some.inj hst
    refine work_lt_of_rank rfl rfl ?_
    cases hempty : (s.device j).queue.queueIsEmpty with
    | true =>
      simp only [Driver.rank, hpc, hempty, if_true]
      omega
    | false =>
      simp only [Driver.rank, hpc, hempty, if_neg Bool.false_ne_true]
      omega
  | prePop j =>
    have hj : j < kMaxSourceLidar := by simpa only [ConsumerPc.Inside, hpc] using hinside
    simp only [consumerStep, hpc] at hst
    obtain rfl := Option.some.inj hst
    refine work_lt_of_rank rfl rfl ?_
    cases hempty : (s.device j).queue.queueIsEmpty with
    | true =>
      simp only [Driver.rank, hpc, hempty, if_true]
      omega
    | false =>
      simp only [Driver.rank, hpc, hempty, if_neg Bool.false_ne_true]
      omega
  | readBase j | readNum j | resize j | copy j =>
    have hj : j < kMaxSourceLidar := by simpa only [ConsumerPc.Inside, hpc] using hinside
    simp only [consumerStep, hpc] at hst
    split at hst
    · obtain rfl := Option.some.inj hst
      refine work_lt_of_rank rfl rfl ?_
      simp only [Driver.rank, hpc]
      omega
    · obtain rfl := Option.some.inj hst
      refine work_lt_of_rank rfl rfl ?_
      simp only [Driver.rank, hpc]
      omega

/-- The thread stops only to wait for a count. -/
theorem waits_of_stuck (hinv : StorageInv c s) (hrun : s.exit = false)
    (hst : consumerStep c s = none) : s.consumer = .wait ∧ s.count ≤ 0 := by
  cases hpc : s.consumer with
  | wait =>
    simp only [consumerStep, hpc] at hst
    split at hst
    · cases hst
    · rename_i hcount
      exact ⟨rfl, Int.not_lt.mp hcount⟩
  | fault =>
    have hok := hinv.consumer
    simp only [Driver.ConsumerOk, hpc] at hok
  | start =>
    simp only [consumerStep, hpc, hrun] at hst
    cases hst
  | testNull | testExit | testEmpty | publish | prePop | popUpdate =>
    simp only [consumerStep, hpc] at hst
    cases hst
  | visit | readBase | readNum | resize | copy =>
    simp only [consumerStep, hpc] at hst
    split at hst
    all_goals cases hst

theorem pushed_consumer (hst : consumerStep c s = some t) (i : ℕ) :
    (t.device i).pushed = (s.device i).pushed := by
  cases hpc : s.consumer with
  | fault => simp only [consumerStep, hpc] at hst; cases hst
  | start | wait =>
    simp only [consumerStep, hpc] at hst
    split at hst
    all_goals cases hst
    rfl
  | testNull | testExit | testEmpty | publish | prePop =>
    simp only [consumerStep, hpc] at hst
    obtain rfl := Option.some.inj hst
    rfl
  | visit | readBase | readNum | resize | copy =>
    simp only [consumerStep, hpc] at hst
    split at hst
    · obtain rfl := Option.some.inj hst
      rfl
    · obtain rfl := Option.some.inj hst
      rfl
  | popUpdate j pkg =>
    simp only [consumerStep, hpc] at hst
    obtain rfl := Option.some.inj hst
    by_cases hj : i = j
    · subst hj
      simp only [Function.update_self]
    · simp only [Function.update_of_ne hj]

/-- From every state on, the publishing thread alone comes to sleep, and then all packets were
popped of the devices that it found sampling, if no push is under way. -/
theorem drains (c : DriverConfig) (hpops : c.format.pops = true) {s : Driver} (h : DriverReach c s)
    (hrun : s.exit = false) : ∃ n t, exec (driverStep c) s (List.replicate n .consumer) = some t ∧
      t.consumer = .wait ∧ t.count = 0 ∧ (s.producer = .idle → ∀ i < kMaxSourceLidar,
        t.skipped i = false → (t.device i).popped = (s.device i).pushed) := by
  induction hwork : s.work using Nat.strong_induction_on generalizing s with
  | _ n ih =>
    subst hwork
    have hinv := storageInv_reach h
    cases hst : consumerStep c s with
    | none =>
      obtain ⟨hpc, hle⟩ := waits_of_stuck hinv hrun hst
      have hwake := wakeInv_reach h
      have hcount : s.count = 0 := le_antisymm hle hwake.count_nonneg
      exact ⟨0, s, rfl, hpc, hcount, fun hidle i hi hvisited =>
        hwake.popped_eq hinv hrun hpc hcount hidle hi hvisited⟩
    | some u =>
      obtain ⟨hproducer, hexit, -⟩ := frame_consumer hinv hst
      have hless := work_consumer hpops hinv (inside_reach h) hrun hst
      obtain ⟨m, t, hexec, hpc, hcount, hdone⟩ :=
        ih u.work hless (h.next .consumer trivial hst) (hexit.trans hrun) rfl
      refine ⟨m + 1, t, ?_, hpc, hcount, fun hidle i hi hvisited => ?_⟩
      · rw [List.replicate_succ, exec_cons, driverStep, hst]
        exact hexec
      · rw [hdone (hproducer.trans hidle) i hi hvisited, pushed_consumer hst]

theorem drains_onePacket : ∃ n t,
    exec (driverStep customConfig) onePacketState (List.replicate n .consumer) = some t ∧
      t.consumer = .wait ∧ t.count = 0 := by
  obtain ⟨n, t, hexec, hpc, hcount, -⟩ := drains customConfig rfl reach_onePacketState rfl
  exact ⟨n, t, hexec, hpc, hcount⟩

/-! ## The format that is not supported -/

/-- The thread is not in the loop of a publisher. -/
def ConsumerPc.Polls : ConsumerPc → Prop
  | .start | .wait | .visit _ | .testNull _ | .testExit _ | .testEmpty _ => True
  | _ => False

/-- A publisher that returns at once takes nothing from the queues. -/
theorem polls_consumer (hpops : c.format.pops = false) (h : s.consumer.Polls)
    (hst : consumerStep c s = some t) : t.consumer.Polls ∧ t.device = s.device := by
  cases hpc : s.consumer with
  | publish | prePop | readBase | readNum | resize | copy | popUpdate | fault =>
    rw [hpc] at h
    exact h.elim
  | start | wait =>
    simp only [consumerStep, hpc] at hst
    split at hst
    all_goals cases hst
    exact ⟨trivial, rfl⟩
  | visit j =>
    simp only [consumerStep, hpc] at hst
    split at hst
    · obtain rfl := Option.some.inj hst
      cases s.sampling j with
      | true => exact ⟨trivial, rfl⟩
      | false => exact ⟨trivial, rfl⟩
    · obtain rfl := Option.some.inj hst
      exact ⟨trivial, rfl⟩
  | testNull j =>
    simp only [consumerStep, hpc] at hst
    obtain rfl := Option.some.inj hst
    cases (s.device j).queue.storagePacket.isNone with
    | true => exact ⟨trivial, rfl⟩
    | false => exact ⟨trivial, rfl⟩
  | testExit j =>
    simp only [consumerStep, hpc] at hst
    obtain rfl := Option.some.inj hst
    cases s.exit with
    | true => exact ⟨trivial, rfl⟩
    | false => exact ⟨trivial, rfl⟩
  | testEmpty j =>
    simp only [consumerStep, hpc, hpops] at hst
    obtain rfl := Option.some.inj hst
    cases (s.device j).queue.queueIsEmpty with
    | true => exact ⟨trivial, rfl⟩
    | false => exact ⟨trivial, rfl⟩

/-- The pushing thread only adds to what was pushed. -/
theorem device_producer (hst : producerStep c s = some t) (i : ℕ) :
    (t.device i).popped = (s.device i).popped ∧ (t.device i).published = (s.device i).published ∧
      (s.device i).pushed <+: (t.device i).pushed := by
  have hqueue (j : ℕ) (q : LidarDataQueue) :
      ((s.setQueue j q).device i).popped = (s.device i).popped ∧
        ((s.setQueue j q).device i).published = (s.device i).published ∧
        (s.device i).pushed <+: ((s.setQueue j q).device i).pushed := by
    by_cases hj : i = j
    · subst hj
      simp only [Driver.setQueue, Function.update_self]
      exact ⟨trivial, trivial, List.prefix_refl _⟩
    · simp only [Driver.setQueue, Function.update_of_ne hj]
      exact ⟨trivial, trivial, List.prefix_refl _⟩
  cases hpc : s.producer with
  | idle | fault => simp only [producerStep, hpc] at hst; cases hst
  | enter | testFull | testEmpty | testCount | signal =>
    simp only [producerStep, hpc] at hst
    obtain rfl := Option.some.inj hst
    exact ⟨rfl, rfl, List.prefix_refl _⟩
  | alloc j p =>
    simp only [producerStep, hpc] at hst
    obtain rfl := Option.some.inj hst
    exact hqueue j _
  | init stage j p =>
    cases stage with
    | rdIdx | wrIdx | size | mask =>
      simp only [producerStep, hpc] at hst
      obtain rfl := Option.some.inj hst
      exact hqueue j _
  | write stage j p =>
    simp only [producerStep, hpc] at hst
    split at hst
    · obtain rfl := Option.some.inj hst
      exact ⟨rfl, rfl, List.prefix_refl _⟩
    · obtain rfl := Option.some.inj hst
      exact hqueue j _
  | bump j p =>
    simp only [producerStep, hpc] at hst
    obtain rfl := Option.some.inj hst
    by_cases hj : i = j
    · subst hj
      simp only [Function.update_self]
      exact ⟨trivial, trivial, List.prefix_append _ _⟩
    · simp only [Function.update_of_ne hj]
      exact ⟨trivial, trivial, List.prefix_refl _⟩

/-- Nothing was taken from the queues. -/
structure Undelivered (s : Driver) : Prop where
  polls : s.consumer.Polls
  device : ∀ i, (s.device i).popped = [] ∧ (s.device i).published = []

theorem undelivered_step (hpops : c.format.pops = false) {e : DriverEvent} (h : Undelivered s)
    (hst : driverStep c s e = some t) : Undelivered t := by
  cases e with
  | producer =>
    refine ⟨(frame_producer hst).1 ▸ h.polls, fun i => ?_⟩
    obtain ⟨hpopped, hpublished, -⟩ := device_producer hst i
    rw [hpopped, hpublished]
    exact h.device i
  | consumer =>
    obtain ⟨hpolls, hdevice⟩ := polls_consumer hpops h.polls hst
    exact ⟨hpolls, hdevice ▸ h.device⟩
  | push i p =>
    simp only [driverStep] at hst
    split at hst
    · split at hst
      · obtain rfl := Option.some.inj hst
        exact ⟨h.polls, h.device⟩
      · cases hst
    · cases hst
  | connect | requestExit =>
    obtain rfl := Option.some.inj hst
    exact ⟨h.polls, h.device⟩

/-- The thread goes round at a device whose queue it found not empty. -/
structure Spins (i : ℕ) (s : Driver) : Prop where
  at_device : s.consumer = .testEmpty i ∨ s.consumer = .testExit i
  pushed : (s.device i).pushed ≠ []
  running : s.exit = false

theorem spins_step (hpops : c.format.pops = false) {e : DriverEvent} {i : ℕ}
    (hinv : StorageInv c s) (hnone : Undelivered s) (h : Spins i s) (he : e ≠ .requestExit)
    (hst : driverStep c s e = some t) : Spins i t := by
  cases e with
  | producer =>
    obtain ⟨hconsumer, hexit, -, -⟩ := frame_producer hst
    obtain ⟨-, -, hpushed⟩ := device_producer hst i
    refine ⟨hconsumer ▸ h.at_device, fun hnil => ?_, hexit ▸ h.running⟩
    rw [hnil] at hpushed
    exact h.pushed (List.prefix_nil.mp hpushed)
  | consumer =>
    obtain ⟨-, hexit, -⟩ := frame_consumer hinv hst
    refine ⟨?_, pushed_consumer hst i ▸ h.pushed, hexit ▸ h.running⟩
    rcases h.at_device with hpc | hpc
    · have hempty : (s.device i).queue.queueIsEmpty = false := by
        refine Bool.eq_false_iff.mpr fun hempty => h.pushed ?_
        have hlength := (hinv.device i).isEmpty_iff.mp hempty
        rw [(hnone.device i).1] at hlength
        exact List.eq_nil_of_length_eq_zero hlength.symm
      simp only [driverStep, consumerStep, hpc, hempty, hpops] at hst
      obtain rfl := Option.some.inj hst
      exact .inr rfl
    · simp only [driverStep, consumerStep, hpc, h.running] at hst
      obtain rfl := Option.some.inj hst
      exact .inl rfl
  | push j p =>
    simp only [driverStep] at hst
    split at hst
    · split at hst
      · obtain rfl := Option.some.inj hst
        exact ⟨h.at_device, h.pushed, h.running⟩
      · cases hst
    · cases hst
  | connect j sampling =>
    obtain rfl := Option.some.inj hst
    exact ⟨h.at_device, h.pushed, h.running⟩
  | requestExit => exact absurd rfl he

/-- With `pcl` points nothing is ever published: the thread stays at the first device whose queue
it finds not empty, until the node asks it to end. -/
theorem pcl_never_delivers (c : DriverConfig) (hpops : c.format.pops = false) {s : Driver}
    (h : DriverReach c s) :
    (∀ i, (s.device i).popped = [] ∧ (s.device i).published = []) ∧
      ∀ i, s.consumer = .testEmpty i → (s.device i).pushed ≠ [] → s.exit = false →
        ∀ t, Reach (driverStep c) (fun _ e => e ≠ .requestExit) s t →
          t.consumer = .testEmpty i ∨ t.consumer = .testExit i := by
  have hstart : Undelivered .initial := ⟨trivial, fun _ => ⟨rfl, rfl⟩⟩
  have hnone : Undelivered s := h.invariant (I := Undelivered) hstart
    fun _ _ hnone _ hst => undelivered_step hpops hnone hst
  refine ⟨hnone.device, fun i hpc hpushed hrun t ht => ?_⟩
  have hspins : StorageInv c t ∧ Undelivered t ∧ Spins i t := ht.invariant
    (I := fun t => StorageInv c t ∧ Undelivered t ∧ Spins i t)
    ⟨storageInv_reach h, hnone, .inl hpc, hpushed, hrun⟩ fun _ _ hall he hst =>
      ⟨storageInv_step hall.1 hst, undelivered_step hpops hall.2.1 hst,
        spins_step hpops hall.1 hall.2.1 hall.2.2 he hst⟩
  exact hspins.2.2.at_device

/-- A driver that publishes `pcl` points. -/
def pclConfig : DriverConfig := ⟨.pclPxyzi, 10, ⟨0, 0, []⟩⟩

def pclState : Driver := (exec (driverStep pclConfig) .initial onePacketEvents).getD .initial

/-- The packet stays in its queue, and the thread at the queue. -/
theorem pcl_never_delivers_onePacket : (pclState.device 0).pushed ≠ [] ∧
    (pclState.device 0).published = [] ∧
      ∀ t, Reach (driverStep pclConfig) (fun _ e => e ≠ .requestExit) pclState t →
        t.consumer = .testEmpty 0 ∨ t.consumer = .testExit 0 := by
  have hrun : exec (driverStep pclConfig) .initial onePacketEvents = some pclState := rfl
  have hpushed : (pclState.device 0).pushed ≠ [] := by decide
  obtain ⟨hnone, hstays⟩ := pcl_never_delivers pclConfig rfl (.of_exec hrun)
  exact ⟨hpushed, (hnone 0).2, hstays 0 rfl hpushed rfl⟩

end FastLivo.Livox
