import FastLivo.Lib.RingLog
import FastLivo.Livox.PointFormats

/-!
# The packet queue of a Livox

`LidarDataQueue` is a ring of packets between the thread that receives points and the one that
publishes them. Both walk through it without a lock, one memory access after another. What was
pushed and what was popped is kept beside the queue, for the statements about it.
-/

namespace FastLivo.Livox

open Lib

/-! ## Sizes -/

/-- `IsPowerOf2`. -/
def isPowerOf2 (size : UInt32) : Bool := size != 0 && (size &&& (size - 1)) == 0

/-- The loop of `RoundupPowerOf2`, with so many turns left. -/
def roundupLoop (size : UInt32) : ℕ → ℕ → UInt32 → UInt32
  | 0, _, power2Val => power2Val
  | n + 1, i, _ =>
    let power2Val := UInt32.ofNat (2 ^ i)
    if size ≤ power2Val then power2Val else roundupLoop size n (i + 1) power2Val

/-- `RoundupPowerOf2`. -/
def roundupPowerOf2 (size : UInt32) : UInt32 := roundupLoop size 32 0 0

/-- `queue_size` as `InitQueue` allocates it. -/
def queueSize (size : UInt32) : UInt32 := if isPowerOf2 size then size else roundupPowerOf2 size

/-! ## The queue -/

/-- `LidarDataQueue`. There is no storage before the first packet. -/
structure LidarDataQueue where
  storagePacket : Option (List StoragePacket)
  rdIdx : UInt32
  wrIdx : UInt32
  mask : UInt32
  size : UInt32

namespace LidarDataQueue

variable (q : LidarDataQueue)

/-- `QueueUsedSize`. -/
def queueUsedSize : UInt32 := q.wrIdx - q.rdIdx

/-- `QueueIsFull`. -/
def queueIsFull : Bool := q.mask < q.wrIdx - q.rdIdx

/-- `QueueIsEmpty`. -/
def queueIsEmpty : Bool := q.rdIdx == q.wrIdx

/-- `queue->storage_packet[idx & queue->mask]`; `none` is an access outside. -/
def slot (idx : UInt32) : Option StoragePacket :=
  q.storagePacket.bind fun slots => slots[(idx &&& q.mask).toNat]?

/-- A write to the packet at `wr_idx & mask`; `none` is an access outside. -/
def writeSlot (f : StoragePacket → Option StoragePacket) : Option LidarDataQueue :=
  q.storagePacket.bind fun slots => slots[(q.wrIdx &&& q.mask).toNat]?.bind fun s =>
    (f s).map fun s' =>
      { q with storagePacket := some (slots.set (q.wrIdx &&& q.mask).toNat s') }

end LidarDataQueue

/-- A point of `points.resize`. -/
def PointXyzlt.zero : PointXyzlt := ⟨0, 0, 0, 0, 0, 0, 0⟩

/-- `points.resize(n)`. -/
def resizePoints (points : List PointXyzlt) (n : ℕ) : List PointXyzlt :=
  points.take n ++ List.replicate (n - points.length) .zero

/-- `memcpy` of so many points; `none` where one of the vectors is shorter. -/
def copyPoints (target source : List PointXyzlt) (n : ℕ) : Option (List PointXyzlt) :=
  if n ≤ target.length ∧ n ≤ source.length then some (source.take n ++ target.drop n) else none

/-- `PointPacket` with the base time of its frame. The points are as many as announced. -/
structure PointPacket where
  baseTime : UInt64
  pointsNum : UInt32
  points : List PointXyzlt
  length_points : points.length = pointsNum.toNat

/-- The packet as it is stored. -/
def PointPacket.stored (p : PointPacket) : StoragePacket := ⟨p.baseTime, p.pointsNum, p.points⟩

/-- A queue with the packets that were pushed, popped and published. -/
structure DeviceStorage where
  queue : LidarDataQueue
  pushed : List StoragePacket
  popped : List StoragePacket
  published : List StoragePacket

/-- The storage of a device before its first packet. -/
def DeviceStorage.initial : DeviceStorage := ⟨⟨none, 0, 0, 0, 0⟩, [], [], []⟩

/-! ## Sizes are powers of two -/

theorem toNat_two_pow {i : ℕ} (hi : i < 32) : (UInt32.ofNat (2 ^ i)).toNat = 2 ^ i := by
  have hlt : 2 ^ i < 4294967296 := Nat.pow_lt_pow_right (by omega) (show i < 32 from hi)
  rw [UInt32.toNat_ofNat', Nat.mod_eq_of_lt hlt]

/-- The loop ends at a power of two. -/
theorem roundupLoop_eq (size : UInt32) {n i : ℕ} (hi : i + (n + 1) = 32) (power2Val : UInt32) :
    ∃ k < 32, roundupLoop size (n + 1) i power2Val = UInt32.ofNat (2 ^ k) := by
  induction n generalizing i power2Val with
  | zero =>
    refine ⟨i, by omega, ?_⟩
    rw [roundupLoop]
    split
    · rfl
    · rfl
  | succ n ih =>
    rw [roundupLoop]
    split
    · exact ⟨i, by omega, rfl⟩
    · exact ih (by omega) _

theorem isPowerOf2_iff {size : UInt32} :
    isPowerOf2 size = true ↔ ∃ k < 32, size.toNat = 2 ^ k := by
  have hzero : size ≠ 0 ↔ size.toNat ≠ 0 := by
    rw [Ne, Ne, ← UInt32.toNat_inj]
    rfl
  have hand : size ≠ 0 → (size &&& (size - 1) = 0 ↔ size.toNat &&& (size.toNat - 1) = 0) := by
    intro hne
    have hle : (1 : UInt32) ≤ size := by
      rw [UInt32.le_iff_toNat_le]
      exact Nat.pos_of_ne_zero (hzero.mp hne)
    rw [← UInt32.toNat_inj, UInt32.toNat_and, UInt32.toNat_sub_of_le _ _ hle]
    rfl
  have hpower : (∃ k < 32, size.toNat = 2 ^ k) ↔ size.toNat.isPowerOfTwo := by
    constructor
    · rintro ⟨k, -, hk⟩
      exact ⟨k, hk⟩
    · rintro ⟨k, hk⟩
      refine ⟨k, ?_, hk⟩
      have hlt := size.toNat_lt
      rw [hk] at hlt
      exact (Nat.pow_lt_pow_iff_right (by omega)).mp hlt
  rw [hpower, ← Nat.ne_zero_and_sub_one_eq_zero_iff_isPowerOfTwo, isPowerOf2, Bool.and_eq_true,
    bne_iff_ne, beq_iff_eq, ← hzero]
  constructor
  · rintro ⟨hne, h⟩
    exact ⟨hne, (hand hne).mp h⟩
  · rintro ⟨hne, h⟩
    exact ⟨hne, (hand hne).mpr h⟩

/-- Whatever size is asked for, the queue gets a power of two. -/
theorem queueSize_eq (size : UInt32) : ∃ k < 32, (queueSize size).toNat = 2 ^ k := by
  rw [queueSize]
  split
  · rename_i h
    exact isPowerOf2_iff.mp h
  · obtain ⟨k, hk, heq⟩ := roundupLoop_eq size (show 0 + (31 + 1) = 32 from rfl) 0
    exact ⟨k, hk, by rw [roundupPowerOf2, heq, toNat_two_pow hk]⟩

/-! ## What a queue holds -/

namespace DeviceStorage

/-- No packet came yet. -/
structure Blank (d : DeviceStorage) : Prop where
  storage : d.queue.storagePacket = none
  rdIdx : d.queue.rdIdx = 0
  wrIdx : d.queue.wrIdx = 0
  pushed : d.pushed = []
  popped : d.popped = []
  published : d.published = []

/-- The ring is a window of what was pushed, and what was popped is what was pushed first. -/
structure Stored (d : DeviceStorage) (slots : List StoragePacket) : Prop where
  storage : d.queue.storagePacket = some slots
  size : ∃ k < 32, slots.length = 2 ^ k
  rdIdx : d.queue.rdIdx = UInt32.ofNat d.popped.length
  wrIdx : d.queue.wrIdx = UInt32.ofNat d.pushed.length
  window : RingLog slots d.pushed d.popped.length
  taken : d.popped = d.pushed.take d.popped.length
  whole : ∀ p ∈ d.pushed, p.points.length = p.pointsNum.toNat
  published : d.published = d.popped.filter (·.points ≠ [])

/-- The mask is set, too. -/
structure Ready (d : DeviceStorage) (slots : List StoragePacket) : Prop extends Stored d slots where
  mask : d.queue.mask.toNat = slots.length - 1

variable {d : DeviceStorage} {slots : List StoragePacket}

theorem Stored.near (h : Stored d slots) : d.pushed.length < d.popped.length + 4294967296 := by
  obtain ⟨k, hk, hsize⟩ := h.size
  have hpow : 2 ^ k < 4294967296 := Nat.pow_lt_pow_right (by omega) (show k < 32 from hk)
  have hroom := h.window.room
  omega

theorem Stored.isEmpty_iff (h : Stored d slots) :
    d.queue.queueIsEmpty = true ↔ d.popped.length = d.pushed.length := by
  rw [LidarDataQueue.queueIsEmpty, beq_iff_eq, h.rdIdx, h.wrIdx]
  exact ofNat_eq_ofNat_iff h.window.le h.near

/-- Storage is allocated. -/
theorem Blank.alloc (h : Blank d) (size : UInt32) (fresh : StoragePacket) :
    Stored { d with queue := { d.queue with
      storagePacket := some (List.replicate (queueSize size).toNat fresh) } }
      (List.replicate (queueSize size).toNat fresh) where
  storage := rfl
  size := by
    rw [List.length_replicate]
    exact queueSize_eq size
  rdIdx := by
    rw [h.popped]
    exact h.rdIdx
  wrIdx := by
    rw [h.pushed]
    exact h.wrIdx
  window := by
    rw [h.popped, h.pushed]
    exact RingLog.empty _
  taken := by
    rw [h.popped]
    rfl
  whole := by
    rw [h.pushed]
    exact fun _ hp => absurd hp List.not_mem_nil
  published := by
    rw [h.popped]
    exact h.published

theorem Stored.popped_nil (h : Stored d slots) (hnone : d.pushed = []) : d.popped = [] := by
  rw [h.taken, hnone, List.take_nil]

/-- The counters are set to what they are before the first packet. -/
theorem Stored.clear_rdIdx (h : Stored d slots) (hnone : d.pushed = []) :
    Stored { d with queue := { d.queue with rdIdx := 0 } } slots := by
  have hrdIdx : (0 : UInt32) = UInt32.ofNat d.popped.length := by
    rw [h.popped_nil hnone]
    rfl
  exact { h with rdIdx := hrdIdx }

theorem Stored.clear_wrIdx (h : Stored d slots) (hnone : d.pushed = []) :
    Stored { d with queue := { d.queue with wrIdx := 0 } } slots := by
  have hwrIdx : (0 : UInt32) = UInt32.ofNat d.pushed.length := by
    rw [hnone]
    rfl
  exact { h with wrIdx := hwrIdx }

theorem Stored.set_size (h : Stored d slots) (size : UInt32) :
    Stored { d with queue := { d.queue with size := size } } slots :=
  { h with }

theorem Stored.set_mask (h : Stored d slots) {size : UInt32} (hsize : slots.length = size.toNat) :
    Ready { d with queue := { d.queue with mask := size - 1 } } slots := by
  obtain ⟨k, -, hk⟩ := h.size
  have hpos : 0 < size.toNat := by
    rw [← hsize, hk]
    exact Nat.two_pow_pos k
  have hle : (1 : UInt32) ≤ size := UInt32.le_iff_toNat_le.mpr hpos
  have hmask : (size - 1).toNat = slots.length - 1 := by
    rw [hsize]
    exact UInt32.toNat_sub_of_le _ _ hle
  exact { h with mask := hmask }

/-- A queue is full when all its slots hold packets that wait. -/
theorem Ready.isFull_iff (h : Ready d slots) :
    d.queue.queueIsFull = true ↔ d.popped.length + slots.length ≤ d.pushed.length := by
  obtain ⟨k, -, hsize⟩ := h.size
  have hpos : 0 < slots.length := hsize ▸ Nat.two_pow_pos k
  have hle := h.window.le
  rw [LidarDataQueue.queueIsFull, decide_eq_true_iff, UInt32.lt_iff_toNat_lt, h.mask, h.rdIdx,
    h.wrIdx, toNat_ofNat_sub hle h.near]
  omega

theorem Ready.toNat_masked (h : Ready d slots) (n : ℕ) :
    (UInt32.ofNat n &&& d.queue.mask).toNat = n % slots.length := by
  obtain ⟨k, hk, hsize⟩ := h.size
  rw [hsize]
  exact toNat_ofNat_mask n hk (hsize ▸ h.mask)

/-- The slot that is read is that of the oldest packet that waits. -/
theorem Ready.slot_rdIdx (h : Ready d slots) (hlt : d.popped.length < d.pushed.length) :
    d.queue.slot d.queue.rdIdx = d.pushed[d.popped.length]? := by
  rw [LidarDataQueue.slot, h.storage, Option.bind_some, h.rdIdx, h.toNat_masked]
  exact h.window.oldest hlt

/-- A write to the slot behind the packets that wait. -/
theorem Ready.writeSlot (h : Ready d slots) (hroom : d.pushed.length < d.popped.length + slots.length)
    {f : StoragePacket → Option StoragePacket} {s s' : StoragePacket}
    (hs : slots[d.pushed.length % slots.length]? = some s) (hf : f s = some s') :
    ∃ q, d.queue.writeSlot f = some q ∧
      Ready { d with queue := q } (slots.set (d.pushed.length % slots.length) s') := by
  have hidx : (d.queue.wrIdx &&& d.queue.mask).toNat = d.pushed.length % slots.length := by
    rw [h.wrIdx, h.toNat_masked]
  have hwrite : d.queue.writeSlot f = some { d.queue with
      storagePacket := some (slots.set (d.pushed.length % slots.length) s') } := by
    rw [LidarDataQueue.writeSlot, h.storage, Option.bind_some, hidx, hs, Option.bind_some, hf]
    rfl
  have hlength : (slots.set (d.pushed.length % slots.length) s').length = slots.length :=
    List.length_set
  refine ⟨_, hwrite, ⟨⟨rfl, ?_, h.rdIdx, h.wrIdx, h.window.write hroom s', h.taken, h.whole,
    h.published⟩, ?_⟩⟩
  · rw [hlength]
    exact h.size
  · rw [hlength]
    exact h.mask

/-- A packet that is whole in its slot joins the queue. -/
theorem Ready.bump (h : Ready d slots) (hroom : d.pushed.length < d.popped.length + slots.length)
    {p : PointPacket} (hs : slots[d.pushed.length % slots.length]? = some p.stored) :
    Ready { d with
      queue := { d.queue with wrIdx := d.queue.wrIdx + 1 }
      pushed := d.pushed ++ [p.stored] } slots where
  storage := h.storage
  size := h.size
  rdIdx := h.rdIdx
  wrIdx := by
    rw [h.wrIdx, ofNat_succ, List.length_append]
    rfl
  window := h.window.append hroom hs
  taken := by
    rw [List.take_append_of_le_length h.window.le]
    exact h.taken
  whole := by
    intro q hq
    rcases List.mem_append.mp hq with hq | hq
    · exact h.whole q hq
    · rw [List.mem_singleton.mp hq]
      exact p.length_points
  published := h.published
  mask := h.mask

/-- The oldest packet leaves the queue. -/
theorem Ready.pop (h : Ready d slots) {p : StoragePacket}
    (hp : d.pushed[d.popped.length]? = some p) :
    Ready { d with
      queue := { d.queue with rdIdx := d.queue.rdIdx + 1 }
      popped := d.popped ++ [p]
      published := d.published ++ if p.points = [] then [] else [p] } slots where
  storage := h.storage
  size := h.size
  rdIdx := by
    rw [h.rdIdx, ofNat_succ, List.length_append]
    rfl
  wrIdx := h.wrIdx
  window := by
    obtain ⟨hlt, -⟩ := List.getElem?_eq_some_iff.mp hp
    rw [List.length_append]
    exact h.window.take hlt
  taken := by
    rw [List.length_append, List.length_singleton, List.take_add_one, hp, ← h.taken]
    rfl
  whole := h.whole
  published := by
    rw [List.filter_append, h.published]
    by_cases hempty : p.points = []
    · simp [hempty]
    · simp [hempty]
  mask := h.mask

end DeviceStorage

end FastLivo.Livox
