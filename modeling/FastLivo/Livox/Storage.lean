import FastLivo.Livox.Threads

/-!
# Packets between the threads

The thread that receives points and the one that publishes them never meet in a slot: one writes
behind the packets that wait, the other reads the oldest of them. So every packet is published
whole, once and in order.
-/

namespace FastLivo.Livox

open Lib

/-! ## What the threads know -/

/-- What the packet in the slot holds before a stage. -/
def WriteStage.Holds (p : PointPacket) (slot : StoragePacket) : WriteStage → Prop
  | .baseTime => True
  | .pointsNum => slot.baseTime = p.baseTime
  | .clear => slot.baseTime = p.baseTime ∧ slot.pointsNum = p.pointsNum
  | .resize => slot.baseTime = p.baseTime ∧ slot.pointsNum = p.pointsNum ∧ slot.points = []
  | .copy => slot.baseTime = p.baseTime ∧ slot.pointsNum = p.pointsNum ∧
      slot.points.length = p.pointsNum.toNat

namespace DeviceStorage

/-- The slot behind the packets that wait is free, and has a property. -/
structure Free (d : DeviceStorage) (slots : List StoragePacket) (P : StoragePacket → Prop) : Prop
    extends Ready d slots where
  vacant : d.pushed.length < d.popped.length + slots.length
  slot : ∃ s, slots[d.pushed.length % slots.length]? = some s ∧ P s

/-- A packet waits, and the oldest one has a property. -/
structure Waits (d : DeviceStorage) (P : StoragePacket → Prop) : Prop where
  ready : ∃ slots, Ready d slots
  oldest : ∃ p, d.pushed[d.popped.length]? = some p ∧ P p

/-- A queue before its first packet, while it is initialised, and afterwards. -/
def Ok (d : DeviceStorage) (initialising : Prop) : Prop :=
  Blank d ∨ (∃ slots, Ready d slots) ∨ ∃ slots, Stored d slots ∧ d.pushed = [] ∧ initialising

end DeviceStorage

/-- The queue of a device is being initialised. -/
def ProducerPc.Initialises (pc : ProducerPc) (i : ℕ) : Prop := ∃ stage p, pc = .init stage i p

/-- What the thread in `PushLidarData` relies on. -/
def Driver.ProducerOk (c : DriverConfig) (s : Driver) : Prop :=
  match s.producer with
  | .idle | .enter _ _ | .testEmpty _ | .testCount _ | .signal _ => True
  | .alloc i _ => (s.device i).Blank
  | .init _ i _ => ∃ slots, (s.device i).Stored slots ∧ (s.device i).pushed = [] ∧
      slots.length = (queueSize c.queueSize).toNat
  | .testFull i _ => ∃ slots, (s.device i).Ready slots
  | .write stage i p => ∃ slots, (s.device i).Free slots (stage.Holds p)
  | .bump i p => ∃ slots, (s.device i).Free slots (· = p.stored)
  | .fault => False

/-- What the thread in `DistributePointCloudData` relies on. -/
def Driver.ConsumerOk (s : Driver) : Prop :=
  match s.consumer with
  | .start | .wait | .visit _ | .testNull _ | .testExit _ | .testEmpty _ | .publish _ | .prePop _ =>
    True
  | .readBase i => (s.device i).Waits fun _ => True
  | .readNum i baseTime => (s.device i).Waits (·.baseTime = baseTime)
  | .resize i baseTime pointsNum => (s.device i).Waits fun p =>
      p.baseTime = baseTime ∧ p.pointsNum = pointsNum
  | .copy i baseTime pointsNum size => (s.device i).Waits fun p =>
      p.baseTime = baseTime ∧ p.pointsNum = pointsNum ∧ p.pointsNum = size
  | .popUpdate i pkg => (s.device i).Waits (· = pkg)
  | .fault => False

/-- The invariant of the queues. -/
structure StorageInv (c : DriverConfig) (s : Driver) : Prop where
  device : ∀ i, (s.device i).Ok (s.producer.Initialises i)
  producer : s.ProducerOk c
  consumer : s.ConsumerOk

namespace DeviceStorage

variable {d : DeviceStorage} {initialising : Prop}

theorem Blank.isEmpty (h : Blank d) : d.queue.queueIsEmpty = true := by
  rw [LidarDataQueue.queueIsEmpty, h.rdIdx, h.wrIdx]
  rfl

/-- The test for an empty queue is true exactly when nothing waits. -/
theorem Ok.isEmpty_iff (h : Ok d initialising) :
    d.queue.queueIsEmpty = true ↔ d.popped.length = d.pushed.length := by
  rcases h with hblank | ⟨slots, hready⟩ | ⟨slots, hstored, -, -⟩
  · rw [hblank.popped, hblank.pushed]
    exact ⟨fun _ => rfl, fun _ => hblank.isEmpty⟩
  · exact hready.isEmpty_iff
  · exact hstored.isEmpty_iff

/-- A queue that is not empty has an oldest packet. -/
theorem Ok.waits (h : Ok d initialising) (hsome : d.queue.queueIsEmpty = false) :
    Waits d fun _ => True := by
  have hne : d.popped.length ≠ d.pushed.length := fun heq =>
    absurd (h.isEmpty_iff.mpr heq) (hsome ▸ Bool.false_ne_true)
  rcases h with hblank | ⟨slots, hready⟩ | ⟨slots, hstored, hnone, -⟩
  · rw [hblank.popped, hblank.pushed] at hne
    exact absurd rfl hne
  · have hle := hready.window.le
    exact ⟨⟨slots, hready⟩, _, List.getElem?_eq_getElem (by omega), trivial⟩
  · have hle := hstored.window.le
    rw [hnone] at hne hle
    exact absurd (Nat.le_zero.mp hle) hne

/-- What waits still waits when more is pushed. -/
theorem Waits.push {d' : DeviceStorage} {P : StoragePacket → Prop} {slots : List StoragePacket}
    (h : Waits d P) (hready : Ready d' slots) (hpushed : d.pushed <+: d'.pushed)
    (hpopped : d'.popped = d.popped) : Waits d' P := by
  obtain ⟨p, hp, hP⟩ := h.oldest
  obtain ⟨rest, hrest⟩ := hpushed
  refine ⟨⟨slots, hready⟩, p, ?_, hP⟩
  obtain ⟨hlt, -⟩ := List.getElem?_eq_some_iff.mp hp
  rw [hpopped, ← hrest, List.getElem?_append_left hlt, hp]

theorem Waits.mono {P Q : StoragePacket → Prop} (h : Waits d P) (hPQ : ∀ p, P p → Q p) :
    Waits d Q := by
  obtain ⟨p, hp, hP⟩ := h.oldest
  exact ⟨h.ready, p, hp, hPQ p hP⟩

/-- Nothing waits in a queue that is being initialised, or that is blank. -/
theorem Waits.pushed_ne_nil {P : StoragePacket → Prop} (h : Waits d P) : d.pushed ≠ [] := by
  obtain ⟨p, hp, -⟩ := h.oldest
  intro hnil
  rw [hnil] at hp
  cases hp

end DeviceStorage

/-! ## Steps of `PushLidarData` -/

variable {c : DriverConfig} {s t : Driver}

/-- The publishing thread relies on nothing but what waits. -/
theorem Driver.ConsumerOk.of_waits (h : s.ConsumerOk) (hsame : t.consumer = s.consumer)
    (hwaits : ∀ j P, (s.device j).Waits P → (t.device j).Waits P) : t.ConsumerOk := by
  unfold Driver.ConsumerOk at h ⊢
  rw [hsame]
  cases hpc : s.consumer with
  | readBase i => exact hwaits i _ (by simpa only [hpc] using h)
  | readNum i baseTime => exact hwaits i _ (by simpa only [hpc] using h)
  | resize i baseTime pointsNum => exact hwaits i _ (by simpa only [hpc] using h)
  | copy i baseTime pointsNum size => exact hwaits i _ (by simpa only [hpc] using h)
  | popUpdate i pkg => exact hwaits i _ (by simpa only [hpc] using h)
  | fault => simp only [hpc] at h
  | start | wait | visit | testNull | testExit | testEmpty | publish | prePop => trivial

theorem DeviceStorage.Ok.mono {d : DeviceStorage} {P Q : Prop} (h : d.Ok P) (hPQ : P → Q) :
    d.Ok Q := by
  rcases h with hblank | hready | ⟨slots, hstored, hnone, hP⟩
  · exact .inl hblank
  · exact .inr (.inl hready)
  · exact .inr (.inr ⟨slots, hstored, hnone, hPQ hP⟩)

/-- A step of the pushing thread that changes one device. -/
theorem StorageInv.push_device (h : StorageInv c s) {i : ℕ} {d : DeviceStorage} {pc : ProducerPc}
    (honly : ∀ j, s.producer.Initialises j → j = i) (hd : d.Ok (pc.Initialises i))
    (hpc : Driver.ProducerOk c
      { s with device := Function.update s.device i d, producer := pc })
    (hwaits : ∀ P, (s.device i).Waits P → d.Waits P) :
    StorageInv c { s with device := Function.update s.device i d, producer := pc } where
  device j := by
    show (Function.update s.device i d j).Ok (pc.Initialises j)
    by_cases hj : j = i
    · subst hj
      rwa [Function.update_self]
    · rw [Function.update_of_ne hj]
      exact (h.device j).mono fun hinit => absurd (honly j hinit) hj
  producer := hpc
  consumer := h.consumer.of_waits rfl fun j P hw => by
    show (Function.update s.device i d j).Waits P
    by_cases hj : j = i
    · subst hj
      rw [Function.update_self]
      exact hwaits P hw
    · rwa [Function.update_of_ne hj]

/-- A step of the pushing thread that changes no device. -/
theorem StorageInv.push_pc (h : StorageInv c s) {pc : ProducerPc} (count : ℤ)
    (hnone : ∀ j, ¬s.producer.Initialises j)
    (hpc : Driver.ProducerOk c { s with count := count, producer := pc }) :
    StorageInv c { s with count := count, producer := pc } where
  device j := (h.device j).mono fun hinit => absurd hinit (hnone j)
  producer := hpc
  consumer := h.consumer.of_waits rfl fun _ _ hw => hw

theorem length_resizePoints (points : List PointXyzlt) (n : ℕ) :
    (resizePoints points n).length = n := by
  rw [resizePoints, List.length_append, List.length_take, List.length_replicate]
  omega

/-- A copy between vectors that are as long as the copy is the source. -/
theorem copyPoints_eq {target source : List PointXyzlt} {n : ℕ} (htarget : target.length = n)
    (hsource : source.length = n) : copyPoints target source n = some source := by
  rw [copyPoints, if_pos ⟨htarget.ge, hsource.ge⟩, List.take_of_length_le hsource.le,
    List.drop_of_length_le htarget.le, List.append_nil]

/-- Each stage finds what it needs and leaves what the next one needs. -/
theorem WriteStage.write_holds {p : PointPacket} {slot : StoragePacket} (stage : WriteStage) (i : ℕ)
    (h : stage.Holds p slot) : ∃ slot', stage.write p slot = some slot' ∧
      ((∃ later : WriteStage, stage.next i p = .write later i p ∧ later.Holds p slot') ∨
        (stage.next i p = .bump i p ∧ slot' = p.stored)) := by
  cases stage with
  | baseTime => exact ⟨_, rfl, .inl ⟨.pointsNum, rfl, rfl⟩⟩
  | pointsNum => exact ⟨_, rfl, .inl ⟨.clear, rfl, h, rfl⟩⟩
  | clear => exact ⟨_, rfl, .inl ⟨.resize, rfl, h.1, h.2, rfl⟩⟩
  | resize => exact ⟨_, rfl, .inl ⟨.copy, rfl, h.1, h.2.1, length_resizePoints _ _⟩⟩
  | copy =>
    have hbase : slot.baseTime = p.baseTime := h.1
    have hnum : slot.pointsNum = p.pointsNum := h.2.1
    refine ⟨{ slot with points := p.points }, ?_, .inr ⟨rfl, ?_⟩⟩
    · rw [WriteStage.write, copyPoints_eq h.2.2 p.length_points]
      rfl
    · rw [PointPacket.stored, ← hbase, ← hnum]

theorem storageInv_push (h : StorageInv c s) {i : ℕ} {p : PointPacket}
    (hst : driverStep c s (.push i p) = some t) : StorageInv c t := by
  cases hpc : s.producer with
  | idle =>
    simp only [driverStep, hpc] at hst
    split at hst
    · obtain rfl := Option.some.inj hst
      exact h.push_pc s.count (fun j ⟨stage, p, hinit⟩ => by rw [hpc] at hinit; cases hinit)
        trivial
    · cases hst
  | enter | alloc | init | testFull | write | bump | testEmpty | testCount | signal | fault =>
    simp only [driverStep, hpc] at hst
    cases hst

theorem ProducerPc.not_initialises (pc : ProducerPc) (h : ∀ stage i p, pc ≠ .init stage i p)
    (j : ℕ) : ¬pc.Initialises j := fun ⟨stage, p, hinit⟩ => h stage j p hinit

theorem storageInv_alloc (h : StorageInv c s) {i : ℕ} {p : PointPacket}
    (hpc : s.producer = .alloc i p) (hst : producerStep c s = some t) : StorageInv c t := by
  have hblank : (s.device i).Blank := by
    simpa only [Driver.ProducerOk, hpc] using h.producer
  simp only [producerStep, hpc] at hst
  obtain rfl := Option.some.inj hst
  have hstored := hblank.alloc c.queueSize c.fresh
  refine h.push_device (fun j hj => absurd hj (ProducerPc.not_initialises _ (by rw [hpc]; nofun) j))
    (.inr (.inr ⟨_, hstored, hblank.pushed, .rdIdx, p, rfl⟩)) ?_
    fun P hw => absurd hblank.pushed hw.pushed_ne_nil
  simp only [Driver.ProducerOk, Function.update_self]
  exact ⟨_, hstored, hblank.pushed, List.length_replicate⟩

/-- `InitQueue` sets the members while nothing was pushed. -/
theorem storageInv_init (h : StorageInv c s) {stage : InitStage} {i : ℕ} {p : PointPacket}
    (hpc : s.producer = .init stage i p) (hst : producerStep c s = some t) : StorageInv c t := by
  obtain ⟨slots, hstored, hnone, hsize⟩ : ∃ slots, (s.device i).Stored slots ∧
      (s.device i).pushed = [] ∧ slots.length = (queueSize c.queueSize).toNat := by
    simpa only [Driver.ProducerOk, hpc] using h.producer
  have honly : ∀ j, s.producer.Initialises j → j = i := by
    rintro j ⟨stage', p', hinit⟩
    rw [hpc] at hinit
    exact ((ProducerPc.init.inj hinit).2.1).symm
  have hwaits (d : DeviceStorage) (P : StoragePacket → Prop) :
      (s.device i).Waits P → d.Waits P := fun hw => absurd hnone hw.pushed_ne_nil
  cases stage with
  | rdIdx =>
    simp only [producerStep, hpc] at hst
    obtain rfl := Option.some.inj hst
    have hnext := hstored.clear_rdIdx hnone
    refine h.push_device honly (.inr (.inr ⟨slots, hnext, hnone, .wrIdx, p, rfl⟩)) ?_ (hwaits _)
    simp only [Driver.ProducerOk, Function.update_self]
    exact ⟨slots, hnext, hnone, hsize⟩
  | wrIdx =>
    simp only [producerStep, hpc] at hst
    obtain rfl := Option.some.inj hst
    have hnext := hstored.clear_wrIdx hnone
    refine h.push_device honly (.inr (.inr ⟨slots, hnext, hnone, .size, p, rfl⟩)) ?_ (hwaits _)
    simp only [Driver.ProducerOk, Function.update_self]
    exact ⟨slots, hnext, hnone, hsize⟩
  | size =>
    simp only [producerStep, hpc] at hst
    obtain rfl := Option.some.inj hst
    have hnext := hstored.set_size (queueSize c.queueSize)
    refine h.push_device honly (.inr (.inr ⟨slots, hnext, hnone, .mask, p, rfl⟩)) ?_ (hwaits _)
    simp only [Driver.ProducerOk, Function.update_self]
    exact ⟨slots, hnext, hnone, hsize⟩
  | mask =>
    simp only [producerStep, hpc] at hst
    obtain rfl := Option.some.inj hst
    have hnext := hstored.set_mask hsize
    refine h.push_device honly (.inr (.inl ⟨slots, hnext⟩)) ?_ (hwaits _)
    simp only [Driver.ProducerOk, Function.update_self]
    exact ⟨slots, hnext⟩

/-- `QueuePushAny` writes to a slot that the other thread does not read. -/
theorem storageInv_write (h : StorageInv c s) {stage : WriteStage} {i : ℕ} {p : PointPacket}
    (hpc : s.producer = .write stage i p) (hst : producerStep c s = some t) : StorageInv c t := by
  obtain ⟨slots, hfree⟩ : ∃ slots, (s.device i).Free slots (stage.Holds p) := by
    simpa only [Driver.ProducerOk, hpc] using h.producer
  obtain ⟨slot, hslot, hholds⟩ := hfree.slot
  obtain ⟨slot', hwrite, hnext⟩ := stage.write_holds i hholds
  obtain ⟨q, hq, hready⟩ := hfree.toReady.writeSlot hfree.vacant hslot hwrite
  simp only [producerStep, hpc, hq] at hst
  obtain rfl := Option.some.inj hst
  have hindex : (s.device i).pushed.length % slots.length < slots.length :=
    (List.getElem?_eq_some_iff.mp hslot).1
  have hfree' (P : StoragePacket → Prop) (hP : P slot') :
      DeviceStorage.Free { s.device i with queue := q }
        (slots.set ((s.device i).pushed.length % slots.length) slot') P := by
    refine ⟨hready, ?_, slot', ?_, hP⟩
    · rw [List.length_set]
      exact hfree.vacant
    · rw [List.length_set]
      exact List.getElem?_set_self hindex
  refine h.push_device (fun j hj => absurd hj (ProducerPc.not_initialises _ (by rw [hpc]; nofun) j))
    (.inr (.inl ⟨_, hready⟩)) ?_ fun P hw => hw.push hready (List.prefix_refl _) rfl
  rcases hnext with ⟨later, hlater, hholds'⟩ | ⟨hbump, hwhole⟩
  · simp only [Driver.ProducerOk, hlater, Function.update_self]
    exact ⟨_, hfree' _ hholds'⟩
  · simp only [Driver.ProducerOk, hbump, Function.update_self]
    exact ⟨_, hfree' _ hwhole⟩

theorem storageInv_bump (h : StorageInv c s) {i : ℕ} {p : PointPacket}
    (hpc : s.producer = .bump i p) (hst : producerStep c s = some t) : StorageInv c t := by
  obtain ⟨slots, hfree⟩ : ∃ slots, (s.device i).Free slots (· = p.stored) := by
    simpa only [Driver.ProducerOk, hpc] using h.producer
  obtain ⟨slot, hslot, rfl⟩ := hfree.slot
  simp only [producerStep, hpc] at hst
  obtain rfl := Option.some.inj hst
  have hready := hfree.toReady.bump hfree.vacant hslot
  exact h.push_device
    (fun j hj => absurd hj (ProducerPc.not_initialises _ (by rw [hpc]; nofun) j))
    (.inr (.inl ⟨slots, hready⟩)) trivial fun P hw => hw.push hready ⟨_, rfl⟩ rfl

/-- A queue with storage is ready outside of `InitQueue`. -/
theorem StorageInv.ready (h : StorageInv c s) {i : ℕ} (hinit : ¬s.producer.Initialises i)
    (hsome : (s.device i).queue.storagePacket ≠ none) : ∃ slots, (s.device i).Ready slots := by
  rcases h.device i with hblank | hready | ⟨slots, -, -, hpc⟩
  · exact absurd hblank.storage hsome
  · exact hready
  · exact absurd hpc hinit

theorem storageInv_producer (h : StorageInv c s) (hst : producerStep c s = some t) :
    StorageInv c t := by
  cases hpc : s.producer with
  | idle | fault => simp only [producerStep, hpc] at hst; cases hst
  | alloc i p => exact storageInv_alloc h hpc hst
  | init stage i p => exact storageInv_init h hpc hst
  | write stage i p => exact storageInv_write h hpc hst
  | bump i p => exact storageInv_bump h hpc hst
  | enter i p =>
    have hnone := ProducerPc.not_initialises s.producer (by rw [hpc]; nofun)
    simp only [producerStep, hpc] at hst
    obtain rfl := Option.some.inj hst
    refine h.push_pc s.count hnone ?_
    cases hstorage : (s.device i).queue.storagePacket with
    | none =>
      rcases h.device i with hblank | ⟨slots, hready⟩ | ⟨slots, hstored, -, -⟩
      · exact hblank
      · exact absurd (hready.storage.symm.trans hstorage) (Option.some_ne_none slots)
      · exact absurd (hstored.storage.symm.trans hstorage) (Option.some_ne_none slots)
    | some slots => exact h.ready (hnone i) (hstorage ▸ Option.some_ne_none slots)
  | testFull i p =>
    obtain ⟨slots, hready⟩ : ∃ slots, (s.device i).Ready slots := by
      simpa only [Driver.ProducerOk, hpc] using h.producer
    have hnone := ProducerPc.not_initialises s.producer (by rw [hpc]; nofun)
    simp only [producerStep, hpc] at hst
    obtain rfl := Option.some.inj hst
    refine h.push_pc s.count hnone ?_
    by_cases hfull : (s.device i).queue.queueIsFull = true
    · simp only [Driver.ProducerOk, if_pos hfull]
    · simp only [Driver.ProducerOk, if_neg hfull]
      have hvacant : (s.device i).pushed.length < (s.device i).popped.length + slots.length :=
        Nat.lt_of_not_le (hready.isFull_iff.not.mp hfull)
      have hpos : 0 < slots.length := by
        have := hready.window.le
        omega
      exact ⟨slots, hready, hvacant, _, List.getElem?_eq_getElem (Nat.mod_lt _ hpos), trivial⟩
  | testEmpty i =>
    have hnone := ProducerPc.not_initialises s.producer (by rw [hpc]; nofun)
    simp only [producerStep, hpc] at hst
    obtain rfl := Option.some.inj hst
    refine h.push_pc s.count hnone ?_
    cases (s.device i).queue.queueIsEmpty with
    | true => trivial
    | false => trivial
  | testCount i =>
    have hnone := ProducerPc.not_initialises s.producer (by rw [hpc]; nofun)
    simp only [producerStep, hpc] at hst
    obtain rfl := Option.some.inj hst
    refine h.push_pc s.count hnone ?_
    by_cases hcount : s.count ≤ 0
    · simp only [Driver.ProducerOk, if_pos hcount]
    · simp only [Driver.ProducerOk, if_neg hcount]
  | signal i =>
    have hnone := ProducerPc.not_initialises s.producer (by rw [hpc]; nofun)
    simp only [producerStep, hpc] at hst
    obtain rfl := Option.some.inj hst
    exact h.push_pc _ hnone trivial

/-! ## Steps of `DistributePointCloudData` -/

/-- A step of the publishing thread that changes no device. -/
theorem StorageInv.pull_pc (h : StorageInv c s) {pc : ConsumerPc} (count : ℤ) (skipped : ℕ → Bool)
    (hpc : Driver.ConsumerOk { s with count := count, consumer := pc, skipped := skipped }) :
    StorageInv c { s with count := count, consumer := pc, skipped := skipped } :=
  ⟨h.device, h.producer, hpc⟩

/-- The oldest packet is read from its slot. -/
theorem DeviceStorage.Waits.slot {d : DeviceStorage} {P : StoragePacket → Prop} (h : d.Waits P) :
    ∃ p, d.queue.slot d.queue.rdIdx = some p ∧ P p ∧ p.points.length = p.pointsNum.toNat := by
  obtain ⟨slots, hready⟩ := h.ready
  obtain ⟨p, hp, hP⟩ := h.oldest
  obtain ⟨hlt, -⟩ := List.getElem?_eq_some_iff.mp hp
  exact ⟨p, (hready.slot_rdIdx hlt).trans hp, hP, hready.whole p (List.mem_of_getElem? hp)⟩

/-- A read of a member of the oldest packet. -/
theorem DeviceStorage.Waits.read {d : DeviceStorage} {P : StoragePacket → Prop} (h : d.Waits P)
    {slot : StoragePacket} (hslot : d.queue.slot d.queue.rdIdx = some slot) :
    d.Waits fun p => P p ∧ p = slot := by
  obtain ⟨slots, hready⟩ := h.ready
  obtain ⟨p, hp, hP⟩ := h.oldest
  obtain ⟨hlt, -⟩ := List.getElem?_eq_some_iff.mp hp
  have heq := (hready.slot_rdIdx hlt).trans hp
  rw [hslot] at heq
  exact ⟨h.ready, p, hp, hP, (Option.some.inj heq).symm⟩

/-- The pushing thread keeps what it relies on when a packet is popped. -/
theorem Driver.ProducerOk.pop (h : s.ProducerOk c) {i : ℕ} {pkg : StoragePacket}
    (hwaits : (s.device i).Waits (· = pkg)) {d : DeviceStorage} {pc : ConsumerPc}
    (hpushed : d.pushed = (s.device i).pushed)
    (hpopped : d.popped = (s.device i).popped ++ [pkg])
    (hready : ∀ slots, (s.device i).Ready slots → d.Ready slots) :
    Driver.ProducerOk c { s with device := Function.update s.device i d, consumer := pc } := by
  have hfree (slots : List StoragePacket) (P : StoragePacket → Prop)
      (hfree : (s.device i).Free slots P) : d.Free slots P := by
    have hvacant := hfree.vacant
    refine ⟨hready slots hfree.toReady, ?_, ?_⟩
    · rw [hpushed, hpopped, List.length_append]
      omega
    · rw [hpushed]
      exact hfree.slot
  unfold Driver.ProducerOk at h ⊢
  cases hpc : s.producer with
  | idle | enter | testEmpty | testCount | signal => trivial
  | fault => simp only [hpc] at h
  | alloc j p =>
    simp only [hpc] at h ⊢
    by_cases hj : j = i
    · subst hj
      exact absurd h.pushed hwaits.pushed_ne_nil
    · rwa [Function.update_of_ne hj]
  | init stage j p =>
    simp only [hpc] at h ⊢
    by_cases hj : j = i
    · subst hj
      obtain ⟨slots, -, hnone, -⟩ := h
      exact absurd hnone hwaits.pushed_ne_nil
    · rwa [Function.update_of_ne hj]
  | testFull j p =>
    simp only [hpc] at h ⊢
    by_cases hj : j = i
    · subst hj
      rw [Function.update_self]
      obtain ⟨slots, hslots⟩ := h
      exact ⟨slots, hready slots hslots⟩
    · rwa [Function.update_of_ne hj]
  | write stage j p =>
    simp only [hpc] at h ⊢
    by_cases hj : j = i
    · subst hj
      rw [Function.update_self]
      obtain ⟨slots, hslots⟩ := h
      exact ⟨slots, hfree slots _ hslots⟩
    · rwa [Function.update_of_ne hj]
  | bump j p =>
    simp only [hpc] at h ⊢
    by_cases hj : j = i
    · subst hj
      rw [Function.update_self]
      obtain ⟨slots, hslots⟩ := h
      exact ⟨slots, hfree slots _ hslots⟩
    · rwa [Function.update_of_ne hj]

/-- `QueuePopUpdate` after the whole packet was read. -/
theorem storageInv_popUpdate (h : StorageInv c s) {i : ℕ} {pkg : StoragePacket}
    (hpc : s.consumer = .popUpdate i pkg) (hst : consumerStep c s = some t) : StorageInv c t := by
  have hwaits : (s.device i).Waits (· = pkg) := by
    simpa only [Driver.ConsumerOk, hpc] using h.consumer
  obtain ⟨p, hp, rfl⟩ := hwaits.oldest
  simp only [consumerStep, hpc] at hst
  obtain rfl := Option.some.inj hst
  have hready (slots : List StoragePacket) (hslots : (s.device i).Ready slots) := hslots.pop hp
  refine ⟨fun j => ?_, h.producer.pop hwaits rfl rfl hready, trivial⟩
  show (Function.update s.device i _ j).Ok (s.producer.Initialises j)
  by_cases hj : j = i
  · subst hj
    rw [Function.update_self]
    obtain ⟨slots, hslots⟩ := hwaits.ready
    exact .inr (.inl ⟨slots, hready slots hslots⟩)
  · rw [Function.update_of_ne hj]
    exact h.device j

theorem storageInv_consumer (h : StorageInv c s) (hst : consumerStep c s = some t) :
    StorageInv c t := by
  cases hpc : s.consumer with
  | fault => simp only [consumerStep, hpc] at hst; cases hst
  | popUpdate i pkg => exact storageInv_popUpdate h hpc hst
  | start =>
    simp only [consumerStep, hpc] at hst
    split at hst
    · cases hst
    · obtain rfl := Option.some.inj hst
      exact h.pull_pc s.count s.skipped trivial
  | wait =>
    simp only [consumerStep, hpc] at hst
    split at hst
    · obtain rfl := Option.some.inj hst
      exact h.pull_pc _ s.skipped trivial
    · cases hst
  | visit i =>
    simp only [consumerStep, hpc] at hst
    split at hst
    · obtain rfl := Option.some.inj hst
      refine h.pull_pc s.count _ ?_
      cases s.sampling i with
      | true => trivial
      | false => trivial
    · obtain rfl := Option.some.inj hst
      exact h.pull_pc s.count s.skipped trivial
  | testNull i =>
    simp only [consumerStep, hpc] at hst
    obtain rfl := Option.some.inj hst
    refine h.pull_pc s.count s.skipped ?_
    cases (s.device i).queue.storagePacket.isNone with
    | true => trivial
    | false => trivial
  | testExit i =>
    simp only [consumerStep, hpc] at hst
    obtain rfl := Option.some.inj hst
    refine h.pull_pc s.count s.skipped ?_
    cases s.exit with
    | true => trivial
    | false => trivial
  | testEmpty i =>
    simp only [consumerStep, hpc] at hst
    obtain rfl := Option.some.inj hst
    refine h.pull_pc s.count s.skipped ?_
    cases (s.device i).queue.queueIsEmpty with
    | true => trivial
    | false =>
      cases c.format.pops with
      | true => trivial
      | false => trivial
  | publish i =>
    simp only [consumerStep, hpc] at hst
    obtain rfl := Option.some.inj hst
    refine h.pull_pc s.count s.skipped ?_
    cases (s.device i).queue.queueIsEmpty with
    | true => trivial
    | false => trivial
  | prePop i =>
    simp only [consumerStep, hpc] at hst
    obtain rfl := Option.some.inj hst
    refine h.pull_pc s.count s.skipped ?_
    cases hempty : (s.device i).queue.queueIsEmpty with
    | true => trivial
    | false => exact (h.device i).waits hempty
  | readBase i =>
    have hwaits : (s.device i).Waits fun _ => True := by
      simpa only [Driver.ConsumerOk, hpc] using h.consumer
    obtain ⟨slot, hslot, -, -⟩ := hwaits.slot
    simp only [consumerStep, hpc, hslot] at hst
    obtain rfl := Option.some.inj hst
    refine h.pull_pc s.count s.skipped ?_
    exact (hwaits.read hslot).mono fun p hp => congrArg _ hp.2
  | readNum i baseTime =>
    have hwaits : (s.device i).Waits (·.baseTime = baseTime) := by
      simpa only [Driver.ConsumerOk, hpc] using h.consumer
    obtain ⟨slot, hslot, -, -⟩ := hwaits.slot
    simp only [consumerStep, hpc, hslot] at hst
    obtain rfl := Option.some.inj hst
    refine h.pull_pc s.count s.skipped ?_
    exact (hwaits.read hslot).mono fun p hp => ⟨hp.1, congrArg _ hp.2⟩
  | resize i baseTime pointsNum =>
    have hwaits : (s.device i).Waits fun p => p.baseTime = baseTime ∧ p.pointsNum = pointsNum := by
      simpa only [Driver.ConsumerOk, hpc] using h.consumer
    obtain ⟨slot, hslot, -, -⟩ := hwaits.slot
    simp only [consumerStep, hpc, hslot] at hst
    obtain rfl := Option.some.inj hst
    refine h.pull_pc s.count s.skipped ?_
    exact (hwaits.read hslot).mono fun p hp => ⟨hp.1.1, hp.1.2, congrArg _ hp.2⟩
  | copy i baseTime pointsNum size =>
    have hwaits : (s.device i).Waits fun p =>
        p.baseTime = baseTime ∧ p.pointsNum = pointsNum ∧ p.pointsNum = size := by
      simpa only [Driver.ConsumerOk, hpc] using h.consumer
    obtain ⟨slot, hslot, ⟨hbase, hnum, hsize⟩, hlength⟩ := hwaits.slot
    have hcopy : copyPoints (resizePoints [] size.toNat) slot.points pointsNum.toNat =
        some slot.points := by
      refine copyPoints_eq ?_ ?_
      · rw [length_resizePoints, ← hsize, hnum]
      · rw [hlength, hnum]
    simp only [consumerStep, hpc, hslot, Option.bind_some, hcopy] at hst
    obtain rfl := Option.some.inj hst
    refine h.pull_pc s.count s.skipped ?_
    refine (hwaits.read hslot).mono fun p hp => ?_
    rw [hp.2, ← hbase, ← hnum]

/-! ## Runs -/

theorem storageInv_step {e : DriverEvent} (h : StorageInv c s) (hst : driverStep c s e = some t) :
    StorageInv c t := by
  cases e with
  | push i p => exact storageInv_push h hst
  | producer => exact storageInv_producer h hst
  | consumer => exact storageInv_consumer h hst
  | connect i sampling =>
    obtain rfl := Option.some.inj hst
    exact ⟨h.device, h.producer, h.consumer⟩
  | requestExit =>
    obtain rfl := Option.some.inj hst
    exact ⟨h.device, h.producer, h.consumer⟩

theorem storageInv_initial : StorageInv c Driver.initial where
  device _ := .inl ⟨rfl, rfl, rfl, rfl, rfl, rfl⟩
  producer := trivial
  consumer := trivial

theorem storageInv_reach (h : DriverReach c s) : StorageInv c s :=
  h.invariant storageInv_initial fun _ _ hinv _ hst => storageInv_step hinv hst

/-- Storage has the size that was asked for, rounded up. -/
def SizeInv (c : DriverConfig) (s : Driver) : Prop :=
  ∀ i slots, (s.device i).queue.storagePacket = some slots →
    slots.length = (queueSize c.queueSize).toNat

/-- A step that leaves storage, or allocates it, or writes to a slot. -/
theorem SizeInv.of_device (h : SizeInv c s) {i : ℕ} {d : DeviceStorage}
    (hdevice : t.device = Function.update s.device i d)
    (hd : ∀ slots, d.queue.storagePacket = some slots →
      slots.length = (queueSize c.queueSize).toNat) : SizeInv c t := by
  intro j slots hslots
  rw [hdevice] at hslots
  by_cases hj : j = i
  · subst hj
    rw [Function.update_self] at hslots
    exact hd slots hslots
  · rw [Function.update_of_ne hj] at hslots
    exact h j slots hslots

theorem length_writeSlot {q q' : LidarDataQueue} {f : StoragePacket → Option StoragePacket}
    (h : q.writeSlot f = some q') {slots' : List StoragePacket}
    (hslots' : q'.storagePacket = some slots') :
    ∃ slots, q.storagePacket = some slots ∧ slots'.length = slots.length := by
  obtain ⟨slots, hslots, h⟩ := Option.bind_eq_some_iff.mp h
  obtain ⟨slot, -, h⟩ := Option.bind_eq_some_iff.mp h
  obtain ⟨slot', -, rfl⟩ := Option.map_eq_some_iff.mp h
  obtain rfl := Option.some.inj hslots'
  exact ⟨slots, hslots, List.length_set⟩

theorem sizeInv_producer (h : SizeInv c s) (hst : producerStep c s = some t) : SizeInv c t := by
  cases hpc : s.producer with
  | idle | fault => simp only [producerStep, hpc] at hst; cases hst
  | enter | testFull | testEmpty | testCount | signal =>
    simp only [producerStep, hpc] at hst
    obtain rfl := Option.some.inj hst
    exact h
  | alloc i p =>
    simp only [producerStep, hpc] at hst
    obtain rfl := Option.some.inj hst
    refine h.of_device rfl fun slots hslots => ?_
    rw [← Option.some.inj hslots, List.length_replicate]
  | init stage i p =>
    cases stage with
    | rdIdx | wrIdx | size | mask =>
      simp only [producerStep, hpc] at hst
      obtain rfl := Option.some.inj hst
      exact h.of_device rfl (h i)
  | bump i p =>
    simp only [producerStep, hpc] at hst
    obtain rfl := Option.some.inj hst
    exact h.of_device rfl (h i)
  | write stage i p =>
    simp only [producerStep, hpc] at hst
    cases hwrite : (s.device i).queue.writeSlot (stage.write p) with
    | none =>
      rw [hwrite] at hst
      obtain rfl := Option.some.inj hst
      exact h
    | some q =>
      rw [hwrite] at hst
      obtain rfl := Option.some.inj hst
      refine h.of_device rfl fun slots' hslots' => ?_
      obtain ⟨slots, hslots, hlength⟩ := length_writeSlot hwrite hslots'
      exact hlength.trans (h i slots hslots)

/-- The publishing thread leaves storage as it is. -/
theorem sizeInv_consumer (h : SizeInv c s) (hst : consumerStep c s = some t) : SizeInv c t := by
  cases hpc : s.consumer with
  | popUpdate i pkg =>
    simp only [consumerStep, hpc] at hst
    obtain rfl := Option.some.inj hst
    exact h.of_device rfl (h i)
  | fault => simp only [consumerStep, hpc] at hst; cases hst
  | testNull | testExit | testEmpty | publish | prePop =>
    simp only [consumerStep, hpc] at hst
    obtain rfl := Option.some.inj hst
    exact h
  | start | wait =>
    simp only [consumerStep, hpc] at hst
    split at hst
    all_goals cases hst
    exact h
  | visit | readBase | readNum | resize | copy =>
    simp only [consumerStep, hpc] at hst
    split at hst
    · obtain rfl := Option.some.inj hst
      exact h
    · obtain rfl := Option.some.inj hst
      exact h

theorem sizeInv_reach (h : DriverReach c s) : SizeInv c s := by
  refine h.invariant (fun i slots hslots => by cases hslots) fun e _ hinv _ hst => ?_
  cases e with
  | push i p =>
    simp only [driverStep] at hst
    split at hst
    · split at hst
      · obtain rfl := Option.some.inj hst
        exact hinv
      · cases hst
    · cases hst
  | producer => exact sizeInv_producer hinv hst
  | consumer => exact sizeInv_consumer hinv hst
  | connect | requestExit =>
    obtain rfl := Option.some.inj hst
    exact hinv

/-- Packets are published in the order they were pushed, each one whole and once; a packet is turned
away only where all slots hold packets that wait. No thread reads or writes outside of a vector. -/
theorem packets_delivered (c : DriverConfig) {s : Driver} (h : DriverReach c s) :
    s.producer ≠ .fault ∧ s.consumer ≠ .fault ∧ ∀ i, ∃ waiting : List StoragePacket,
      (s.device i).pushed = (s.device i).popped ++ waiting ∧
      (s.device i).published = (s.device i).popped.filter (·.points ≠ []) ∧
      waiting.length ≤ (queueSize c.queueSize).toNat ∧
      ((s.device i).queue.queueIsEmpty = true ↔ waiting = []) ∧
      ∀ p, s.producer = .testFull i p → ((s.device i).queue.queueIsFull = true ↔
        waiting.length = (queueSize c.queueSize).toNat) := by
  have hinv := storageInv_reach h
  have hsize := sizeInv_reach h
  refine ⟨fun hpc => ?_, fun hpc => ?_, fun i => ?_⟩
  · simpa only [Driver.ProducerOk, hpc] using hinv.producer
  · simpa only [Driver.ConsumerOk, hpc] using hinv.consumer
  · refine ⟨(s.device i).pushed.drop (s.device i).popped.length, ?_⟩
    have hempty := (hinv.device i).isEmpty_iff
    rcases hinv.device i with hblank | ⟨slots, hready⟩ | ⟨slots, hstored, hnone, hinit⟩
    · rw [hblank.popped, hblank.pushed] at hempty ⊢
      rw [hblank.published]
      refine ⟨rfl, rfl, Nat.zero_le _, hempty.trans ⟨fun _ => rfl, fun _ => rfl⟩, fun p hpc => ?_⟩
      obtain ⟨slots, hslots⟩ : ∃ slots, (s.device i).Ready slots := by
        simpa only [Driver.ProducerOk, hpc] using hinv.producer
      exact absurd (hslots.storage.symm.trans hblank.storage) (Option.some_ne_none slots)
    · have hle := hready.window.le
      have hroom := hready.window.room
      have hlength := hsize i slots hready.storage
      have hfull := hready.isFull_iff
      have hsplit := List.take_append_drop (s.device i).popped.length (s.device i).pushed
      rw [← hready.taken] at hsplit
      rw [List.length_drop, List.drop_eq_nil_iff]
      refine ⟨hsplit.symm, hready.published, by omega, hempty.trans ⟨fun h => h.ge, fun h => ?_⟩,
        fun p _ => hfull.trans ?_⟩
      · omega
      · omega
    · have hpopped := hstored.popped_nil hnone
      have hpublished := hstored.published
      rw [hpopped, hnone] at hempty ⊢
      rw [hpopped] at hpublished
      refine ⟨rfl, hpublished, Nat.zero_le _, hempty.trans ⟨fun _ => rfl, fun _ => rfl⟩,
        fun p hpc => ?_⟩
      obtain ⟨stage, p', hinit⟩ := hinit
      rw [hpc] at hinit
      cases hinit

/-- A driver that publishes custom messages. -/
def customConfig : DriverConfig := ⟨.livoxCustom, 10, ⟨0, 0, []⟩⟩

/-- A packet of one point. -/
def onePointPush : PointPacket := ⟨7, 1, [.zero], rfl⟩

/-- The packet is stored, and then published. -/
def onePacketEvents : List DriverEvent :=
  .connect 0 true :: .push 0 onePointPush ::
    (List.replicate 16 .producer ++ List.replicate 13 .consumer)

def onePacketState : Driver :=
  (exec (driverStep customConfig) .initial onePacketEvents).getD .initial

theorem reach_onePacketState : DriverReach customConfig onePacketState :=
  have hrun : exec (driverStep customConfig) .initial onePacketEvents = some onePacketState := rfl
  .of_exec hrun

theorem packets_delivered_onePacket :
    onePacketState.producer ≠ .fault ∧ onePacketState.consumer ≠ .fault ∧
      ∃ waiting, (onePacketState.device 0).pushed = (onePacketState.device 0).popped ++ waiting := by
  obtain ⟨hproducer, hconsumer, hdevice⟩ := packets_delivered customConfig reach_onePacketState
  obtain ⟨waiting, hpushed, -⟩ := hdevice 0
  exact ⟨hproducer, hconsumer, waiting, hpushed⟩

example : (onePacketState.device 0).published = [⟨7, 1, [.zero]⟩] := rfl

end FastLivo.Livox
