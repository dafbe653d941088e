import FastLivo.Lib.Ghost
import FastLivo.Lib.Int64
import Mathlib.Algebra.Order.Group.Abs
import Mathlib.Algebra.Order.Ring.Int

/-!
# Device timestamps of the lidar driver

`PubHandler::NormalizeTimestamp` puts the point and IMU streams of a device on one timeline
that starts with the first packet and runs with the clock of the host. Its 64-bit integers
are wrapped explicitly.
-/

namespace FastLivo.Livox

open Lib

/-! ## State -/

/-- `kTimestampJumpThresholdNs`. -/
def kTimestampJumpThresholdNs : ℤ := 500000000

/-- `PubHandler::StreamTimestampState`, without the members that only warnings use. -/
structure StreamTimestampState where
  initialized : Bool := false
  correctionNs : ℤ := 0
  lastRawNs : ℤ := 0
  lastNormalizedNs : ℤ := 0
  lastArrival : ℤ := 0
  deriving DecidableEq, Repr

/-- `PubHandler::DeviceTimestampState`. -/
structure DeviceTimestampState where
  initialized : Bool := false
  originTimestampNs : ℤ := 0
  originArrival : ℤ := 0
  lidar : StreamTimestampState := {}
  imu : StreamTimestampState := {}
  deriving DecidableEq, Repr

/-- A call for one device, with the time of the steady clock at its start. -/
structure StampCall where
  rawTimestamp : UInt64
  isImu : Bool
  now : Int64
  deriving DecidableEq, Repr

/-- The raw timestamp as a number. -/
def StampCall.raw (c : StampCall) : ℤ := c.rawTimestamp.toNat

/-- The time of the call as a number of nanoseconds. -/
def StampCall.time (c : StampCall) : ℤ := c.now.toInt

/-! ## `NormalizeTimestamp` -/

/-- `ApplyTimestampCorrection`. -/
def applyTimestampCorrection (timestamp correction : ℤ) : ℤ :=
  let corrected := int64 (int64 timestamp + correction)
  if 0 < corrected then uint64 corrected else 1

namespace DeviceTimestampState

/-- The first call of a device sets its origin. -/
def touch (d : DeviceTimestampState) (c : StampCall) : DeviceTimestampState :=
  if d.initialized then d
  else { d with initialized := true, originTimestampNs := c.raw, originArrival := c.time }

/-- `expected_from_origin`. -/
def expectedFromOrigin (d : DeviceTimestampState) (c : StampCall) : ℤ :=
  int64 (int64 d.originTimestampNs + int64 (c.time - d.originArrival))

def stream (d : DeviceTimestampState) (isImu : Bool) : StreamTimestampState :=
  if isImu then d.imu else d.lidar

def setStream (d : DeviceTimestampState) (isImu : Bool) (s : StreamTimestampState) :
    DeviceTimestampState :=
  if isImu then { d with imu := s } else { d with lidar := s }

end DeviceTimestampState

namespace StreamTimestampState

/-- The first call of a stream. -/
def start (c : StampCall) (expected : ℤ) : StreamTimestampState :=
  let correction := int64 (expected - int64 c.raw)
  { initialized := true
    correctionNs := correction
    lastRawNs := c.raw
    lastNormalizedNs := applyTimestampCorrection c.raw correction
    lastArrival := c.time }

/-- `raw_delta`. -/
def rawDelta (s : StreamTimestampState) (c : StampCall) : ℤ := int64 (int64 c.raw - int64 s.lastRawNs)

/-- `arrival_delta`. -/
def arrivalDelta (s : StreamTimestampState) (c : StampCall) : ℤ := int64 (c.time - s.lastArrival)

/-- `normalized` before it is compared with anything. -/
def corrected (s : StreamTimestampState) (c : StampCall) : ℤ :=
  applyTimestampCorrection c.raw s.correctionNs

/-- `raw_jump`. -/
def rawJump (s : StreamTimestampState) (c : StampCall) : Bool :=
  decide (kTimestampJumpThresholdNs < int64 |int64 (s.rawDelta c - s.arrivalDelta c)|)

/-- `timeline_split`. -/
def timelineSplit (s : StreamTimestampState) (c : StampCall) (expected : ℤ) : Bool :=
  decide (kTimestampJumpThresholdNs < int64 |int64 (int64 (s.corrected c) - expected)|)

/-- Whether the timestamp jumped, or the stream left the timeline. -/
def jumped (s : StreamTimestampState) (c : StampCall) (expected : ℤ) : Bool :=
  s.rawJump c || s.timelineSplit c expected

/-- What the stream keeps of a call. -/
def record (s : StreamTimestampState) (c : StampCall) (normalized correction : ℤ) :
    StreamTimestampState :=
  { s with
    correctionNs := correction
    lastRawNs := c.raw
    lastNormalizedNs := normalized
    lastArrival := c.time }

/-- A later call of a stream. -/
def advance (s : StreamTimestampState) (c : StampCall) (expected : ℤ) : StreamTimestampState :=
  if s.jumped c expected then
    let monotonicStep := uint64 (max (s.arrivalDelta c) 1)
    let normalized := uint64 (s.lastNormalizedNs + monotonicStep)
    s.record c normalized (int64 (int64 normalized - int64 c.raw))
  else if s.corrected c ≤ s.lastNormalizedNs then
    s.record c (uint64 (s.lastNormalizedNs + 1)) s.correctionNs
  else s.record c (s.corrected c) s.correctionNs

end StreamTimestampState

/-- The state of the stream after a call. -/
def DeviceTimestampState.nextStream (d : DeviceTimestampState) (c : StampCall) :
    StreamTimestampState :=
  let s := d.stream c.isImu
  if s.initialized then s.advance c (d.expectedFromOrigin c)
  else .start c (d.expectedFromOrigin c)

/-- `NormalizeTimestamp`: the device after the call, and the timestamp returned. -/
def normalizeTimestamp (d : DeviceTimestampState) (c : StampCall) : DeviceTimestampState × ℤ :=
  let d := d.touch c
  let s := d.nextStream c
  (d.setStream c.isImu s, s.lastNormalizedNs)

/-! ## Runs -/

/-- Every call returns. -/
def stampStep (d : DeviceTimestampState) (c : StampCall) : Option DeviceTimestampState :=
  some (normalizeTimestamp d c).1

/-- Ghost: a timestamp that was returned, and where the call lies on the timeline of the
device: its origin and the time of the host since then. -/
structure Returned where
  isImu : Bool
  timestamp : ℤ
  timeline : ℤ
  deriving DecidableEq, Repr

/-- Where a call lies on the timeline. -/
def DeviceTimestampState.timeline (d : DeviceTimestampState) (c : StampCall) : ℤ :=
  (d.touch c).originTimestampNs + (c.time - (d.touch c).originArrival)

def logStamp (d : DeviceTimestampState) (c : StampCall) (_ : DeviceTimestampState)
    (log : List Returned) : List Returned :=
  log ++ [⟨c.isImu, (normalizeTimestamp d c).2, d.timeline c⟩]

/-- The timestamps of a stream. -/
def stampsOf (isImu : Bool) (log : List Returned) : List ℤ :=
  (log.filter fun r => r.isImu == isImu).map Returned.timestamp

/-- Runs of one device. -/
def StampRun (ok : DeviceTimestampState → StampCall → Prop) :
    DeviceTimestampState × List Returned → Prop :=
  Reach (withGhost stampStep logStamp) (fun p c => ok p.1 c) ({}, [])

variable {d : DeviceTimestampState} {c : StampCall} {s : StreamTimestampState} {expected : ℤ}
  {log : List Returned}

theorem raw_bounds (c : StampCall) : 0 ≤ c.raw ∧ c.raw < 18446744073709551616 := by
  have h := c.rawTimestamp.toNat_lt
  unfold StampCall.raw
  omega

@[simp] theorem touch_stream (d : DeviceTimestampState) (c : StampCall) (isImu : Bool) :
    (d.touch c).stream isImu = d.stream isImu := by
  unfold DeviceTimestampState.touch
  split
  · rfl
  · cases isImu <;> rfl

@[simp] theorem setStream_stream (d : DeviceTimestampState) (isImu : Bool)
    (s : StreamTimestampState) : (d.setStream isImu s).stream isImu = s := by
  cases isImu <;> rfl

theorem setStream_stream_of_ne {isImu other : Bool} (h : other ≠ isImu) :
    (d.setStream isImu s).stream other = d.stream other := by
  cases isImu <;> cases other <;> first | rfl | exact absurd rfl h

@[simp] theorem setStream_origin (d : DeviceTimestampState) (isImu : Bool)
    (s : StreamTimestampState) : (d.setStream isImu s).originTimestampNs = d.originTimestampNs ∧
      (d.setStream isImu s).originArrival = d.originArrival ∧
      (d.setStream isImu s).initialized = d.initialized := by
  cases isImu <;> exact ⟨rfl, rfl, rfl⟩

theorem applyTimestampCorrection_bounds (timestamp correction : ℤ) :
    1 ≤ applyTimestampCorrection timestamp correction ∧
      applyTimestampCorrection timestamp correction < 9223372036854775808 := by
  have hbounds := int64_bounds (int64 timestamp + correction)
  unfold applyTimestampCorrection
  dsimp only
  split
  · rw [uint64_eq (by omega) (by omega)]
    omega
  · omega

theorem corrected_bounds (s : StreamTimestampState) (c : StampCall) :
    1 ≤ s.corrected c ∧ s.corrected c < 9223372036854775808 :=
  applyTimestampCorrection_bounds c.raw s.correctionNs

/-! ## Order -/

/-- The sum with the last timestamp that replaces a jump, or a timestamp that comes too
late, stays below 2^64. -/
def NoWrap (d : DeviceTimestampState) (c : StampCall) : Prop :=
  let s := d.stream c.isImu
  s.initialized = true →
    s.lastNormalizedNs +
      (if s.jumped c ((d.touch c).expectedFromOrigin c) then max (s.arrivalDelta c) 1 else 1) <
        18446744073709551616

/-- What a later call returns: a step after a jump or a late stamp, else the corrected stamp. -/
theorem advance_cases (s : StreamTimestampState) (c : StampCall) (expected : ℤ) :
    (s.jumped c expected = true ∧ (s.advance c expected).lastNormalizedNs =
      uint64 (s.lastNormalizedNs + uint64 (max (s.arrivalDelta c) 1))) ∨
    (s.jumped c expected = false ∧ s.corrected c ≤ s.lastNormalizedNs ∧
      (s.advance c expected).lastNormalizedNs = uint64 (s.lastNormalizedNs + 1)) ∨
    (s.jumped c expected = false ∧ s.lastNormalizedNs < s.corrected c ∧
      (s.advance c expected).lastNormalizedNs = s.corrected c) := by
  unfold StreamTimestampState.advance
  by_cases hjump : s.jumped c expected = true
  · rw [if_pos hjump]
    exact .inl ⟨hjump, rfl⟩
  · rw [if_neg hjump]
    right
    by_cases hlate : s.corrected c ≤ s.lastNormalizedNs
    · rw [if_pos hlate]
      exact .inl ⟨Bool.eq_false_iff.mpr hjump, hlate, rfl⟩
    · rw [if_neg hlate]
      exact .inr ⟨Bool.eq_false_iff.mpr hjump, not_le.mp hlate, rfl⟩

/-- A stream stays initialized, and remembers when the call came. -/
theorem advance_record (s : StreamTimestampState) (c : StampCall) (expected : ℤ) :
    (s.advance c expected).initialized = s.initialized ∧
      (s.advance c expected).lastArrival = c.time := by
  unfold StreamTimestampState.advance
  split
  · exact ⟨rfl, rfl⟩
  · split <;> exact ⟨rfl, rfl⟩

/-- The step over a jump is at least a nanosecond. -/
theorem monotonicStep_eq (s : StreamTimestampState) (c : StampCall) :
    uint64 (max (s.arrivalDelta c) 1) = max (s.arrivalDelta c) 1 := by
  have hdelta := int64_bounds (c.time - s.lastArrival)
  unfold StreamTimestampState.arrivalDelta
  exact uint64_eq (by omega) (by omega)

/-- A later call returns more than the one before it. -/
theorem advance_increases (hlast : 0 ≤ s.lastNormalizedNs)
    (hwrap : s.lastNormalizedNs + (if s.jumped c expected then max (s.arrivalDelta c) 1 else 1) <
      18446744073709551616) :
    s.lastNormalizedNs < (s.advance c expected).lastNormalizedNs := by
  rcases advance_cases s c expected with ⟨hjump, heq⟩ | ⟨hjump, -, heq⟩ | ⟨-, hlater, heq⟩
  · rw [if_pos hjump] at hwrap
    rw [heq, monotonicStep_eq, uint64_eq (by omega) hwrap]
    omega
  · rw [hjump, if_neg Bool.false_ne_true] at hwrap
    rw [heq, uint64_eq (by omega) hwrap]
    omega
  · rwa [heq]

/-- The call of a stream returns what the stream keeps, and leaves the other one alone. -/
theorem normalizeTimestamp_streams (d : DeviceTimestampState) (c : StampCall) :
    (normalizeTimestamp d c).1.stream c.isImu = (d.touch c).nextStream c ∧
      (normalizeTimestamp d c).2 = ((d.touch c).nextStream c).lastNormalizedNs ∧
      ∀ other, other ≠ c.isImu → (normalizeTimestamp d c).1.stream other = d.stream other := by
  refine ⟨setStream_stream _ _ _, rfl, fun other hother => ?_⟩
  exact (setStream_stream_of_ne hother).trans (touch_stream d c other)

/-- A first call of the stream, or a later one. -/
theorem nextStream_cases (d : DeviceTimestampState) (c : StampCall) :
    ((d.stream c.isImu).initialized = false ∧
      (d.touch c).nextStream c = .start c ((d.touch c).expectedFromOrigin c)) ∨
    ((d.stream c.isImu).initialized = true ∧
      (d.touch c).nextStream c = (d.stream c.isImu).advance c ((d.touch c).expectedFromOrigin c)) := by
  simp only [DeviceTimestampState.nextStream, touch_stream]
  cases hinit : (d.stream c.isImu).initialized with
  | false => exact .inl ⟨rfl, if_neg Bool.false_ne_true⟩
  | true => exact .inr ⟨rfl, if_pos rfl⟩

/-- The timestamps of a stream grow up to the last one. -/
structure Increasing (s : StreamTimestampState) (stamps : List ℤ) : Prop where
  sorted : stamps.Pairwise (· < ·)
  last : ∀ x ∈ stamps, s.initialized = true ∧ x ≤ s.lastNormalizedNs
  unsigned : 0 ≤ s.lastNormalizedNs

theorem stampsOf_append (isImu : Bool) (log : List Returned) (r : Returned) :
    stampsOf isImu (log ++ [r]) =
      stampsOf isImu log ++ if r.isImu = isImu then [r.timestamp] else [] := by
  unfold stampsOf
  by_cases h : r.isImu = isImu <;> simp [h]

theorem Increasing.append {s' : StreamTimestampState} {stamps : List ℤ} (h : Increasing s stamps)
    (hinit : s'.initialized = true)
    (hlast : s.initialized = true → s.lastNormalizedNs < s'.lastNormalizedNs)
    (hunsigned : 0 ≤ s'.lastNormalizedNs) : Increasing s' (stamps ++ [s'.lastNormalizedNs]) := by
  have hbelow : ∀ x ∈ stamps, x < s'.lastNormalizedNs := fun x hx =>
    (h.last x hx).2.trans_lt (hlast (h.last x hx).1)
  refine ⟨List.pairwise_append.mpr ⟨h.sorted, List.pairwise_singleton _ _, ?_⟩, ?_, hunsigned⟩
  · rintro x hx y hy
    rw [List.mem_singleton.mp hy]
    exact hbelow x hx
  · intro x hx
    rcases List.mem_append.mp hx with hx | hx
    · exact ⟨hinit, (hbelow x hx).le⟩
    · exact ⟨hinit, (List.mem_singleton.mp hx).le⟩

theorem increasing_step (h : ∀ isImu, Increasing (d.stream isImu) (stampsOf isImu log))
    (hwrap : NoWrap d c) (isImu : Bool) :
    Increasing ((normalizeTimestamp d c).1.stream isImu)
      (stampsOf isImu (logStamp d c (normalizeTimestamp d c).1 log)) := by
  obtain ⟨hstream, hreturned, hother⟩ := normalizeTimestamp_streams d c
  rw [logStamp, stampsOf_append]
  by_cases hi : c.isImu = isImu
  · subst hi
    rw [if_pos rfl, hstream]
    dsimp only
    rw [hreturned]
    rcases nextStream_cases d c with ⟨hinit, heq⟩ | ⟨hinit, heq⟩ <;> rw [heq]
    · have hbounds := applyTimestampCorrection_bounds c.raw
        (int64 ((d.touch c).expectedFromOrigin c - int64 c.raw))
      refine (h c.isImu).append rfl (fun h => by rw [hinit] at h; cases h) ?_
      show 0 ≤ applyTimestampCorrection _ _
      omega
    · have hgrows := advance_increases (h c.isImu).unsigned (hwrap hinit)
      refine (h c.isImu).append ?_ (fun _ => hgrows) ((h c.isImu).unsigned.trans hgrows.le)
      rw [(advance_record _ _ _).1]
      exact hinit
  · rw [if_neg hi, List.append_nil, hother isImu (Ne.symm hi)]
    exact h isImu

theorem StampRun.increasing {p : DeviceTimestampState × List Returned} (h : StampRun NoWrap p)
    (isImu : Bool) : Increasing (p.1.stream isImu) (stampsOf isImu p.2) := by
  refine Reach.invariant (I := fun p => ∀ isImu, Increasing (p.1.stream isImu) (stampsOf isImu p.2))
    ?_ ?_ h isImu
  · intro isImu
    cases isImu <;> exact ⟨.nil, by simp [stampsOf], le_refl _⟩
  · intro p q c _ hinv hok hst
    obtain ⟨hstep, hlog⟩ := withGhost_cases hst
    rw [← Option.some.inj hstep] at hlog ⊢
    rw [hlog]
    exact increasing_step hinv hok

/-! ## Distance to the timeline -/

/-- The clock of the host does not go back, and calls of one stream are apart. -/
def Arrives (d : DeviceTimestampState) (c : StampCall) : Prop :=
  (d.initialized = true → d.originArrival ≤ c.time) ∧
    ((d.stream c.isImu).initialized = true → (d.stream c.isImu).lastArrival + 1 ≤ c.time)

/-- The place of a call on the timeline is a signed 64-bit integer. -/
def NoOverflow (d : DeviceTimestampState) (c : StampCall) : Prop :=
  d.timeline c < 9223372036854775808

/-- A stream was last seen close to the timeline. -/
structure Close (d : DeviceTimestampState) (s : StreamTimestampState) : Prop where
  device : d.initialized = true
  arrival : d.originArrival ≤ s.lastArrival
  close : |s.lastNormalizedNs - (d.originTimestampNs + (s.lastArrival - d.originArrival))| ≤
    kTimestampJumpThresholdNs
  unsigned : 0 ≤ s.lastNormalizedNs

/-- The origin is a signed 64-bit integer, and every stream is close to the timeline. -/
structure OnTimeline (d : DeviceTimestampState) : Prop where
  origin : 0 ≤ d.originTimestampNs ∧ d.originTimestampNs < 9223372036854775808
  streams : ∀ isImu, (d.stream isImu).initialized = true → Close d (d.stream isImu)

/-- The first call sets an origin in range, and the time of a call is not before it. -/
theorem touch_origin (h : OnTimeline d) (harrives : Arrives d c) (hfit : NoOverflow d c) :
    (0 ≤ (d.touch c).originTimestampNs ∧
      (d.touch c).originTimestampNs < 9223372036854775808) ∧
      (d.touch c).originArrival ≤ c.time ∧ (d.touch c).initialized = true := by
  unfold NoOverflow DeviceTimestampState.timeline at hfit
  unfold DeviceTimestampState.touch at *
  split at hfit
  · rename_i hinit
    rw [if_pos hinit]
    exact ⟨h.origin, harrives.1 hinit, hinit⟩
  · rename_i hinit
    rw [if_neg hinit]
    dsimp only at hfit ⊢
    rw [sub_self, add_zero] at hfit
    exact ⟨⟨(raw_bounds c).1, hfit⟩, le_refl _, rfl⟩

/-- The expected timestamp is the place of the call on the timeline. -/
theorem expectedFromOrigin_eq (h : OnTimeline d) (harrives : Arrives d c) (hfit : NoOverflow d c) :
    (d.touch c).expectedFromOrigin c = d.timeline c ∧ 0 ≤ d.timeline c := by
  obtain ⟨⟨hlow, hhigh⟩, htime, -⟩ := touch_origin h harrives hfit
  have hend : d.timeline c < 9223372036854775808 := hfit
  unfold DeviceTimestampState.expectedFromOrigin
  unfold DeviceTimestampState.timeline at *
  rw [int64_eq (x := (d.touch c).originTimestampNs) (by omega) hhigh,
    int64_eq (x := c.time - _) (by omega) (by omega), int64_eq (by omega) hend]
  exact ⟨rfl, by omega⟩

/-- The first stamp of a stream is put on the timeline. -/
theorem start_close (hlow : 0 ≤ expected) (hhigh : expected < 9223372036854775808) :
    |(StreamTimestampState.start c expected).lastNormalizedNs - expected| ≤
      kTimestampJumpThresholdNs := by
  have hvalue : (StreamTimestampState.start c expected).lastNormalizedNs =
      applyTimestampCorrection c.raw (int64 (expected - int64 c.raw)) := rfl
  rw [hvalue]
  unfold applyTimestampCorrection
  dsimp only
  rw [int64_add_sub _ (by omega) hhigh, kTimestampJumpThresholdNs, abs_le]
  split
  · rw [uint64_eq (by omega) (by omega)]
    omega
  · omega

/-- A stamp that is not corrected is close to the timeline. -/
theorem corrected_close (hlow : 0 ≤ expected) (hhigh : expected < 9223372036854775808)
    (hjump : s.jumped c expected = false) :
    |s.corrected c - expected| ≤ kTimestampJumpThresholdNs := by
  have hbounds := corrected_bounds s c
  have hsplit : s.timelineSplit c expected = false := (Bool.or_eq_false_iff.mp hjump).2
  have habs : |s.corrected c - expected| < 9223372036854775808 := by
    rw [abs_lt]
    omega
  have hpos := abs_nonneg (s.corrected c - expected)
  rw [StreamTimestampState.timelineSplit, decide_eq_false_iff_not, not_lt,
    int64_eq (x := s.corrected c) ?_ ?_, int64_eq (x := s.corrected c - expected) ?_ ?_,
    int64_eq (by omega) habs] at hsplit
  · exact hsplit
  all_goals omega

/-- A later stamp stays as close to the timeline as the threshold. -/
theorem advance_close {d : DeviceTimestampState} (h : Close d s)
    (horigin : 0 ≤ d.originTimestampNs) (hapart : s.lastArrival + 1 ≤ c.time)
    (hexpected : expected = d.originTimestampNs + (c.time - d.originArrival))
    (hhigh : expected < 9223372036854775808) :
    |(s.advance c expected).lastNormalizedNs - expected| ≤ kTimestampJumpThresholdNs ∧
      0 ≤ (s.advance c expected).lastNormalizedNs := by
  have harrival := h.arrival
  have hunsigned := h.unsigned
  have hclose := abs_le.mp h.close
  have hdelta : s.arrivalDelta c = c.time - s.lastArrival := int64_eq (by omega) (by omega)
  have hthreshold : kTimestampJumpThresholdNs = 500000000 := rfl
  rw [abs_le]
  rcases advance_cases s c expected with ⟨-, heq⟩ | ⟨hjump, hlate, heq⟩ | ⟨hjump, -, heq⟩
  · -- The stream moves on by the time of the host.
    rw [heq, monotonicStep_eq, hdelta, max_eq_left (by omega), uint64_eq (by omega) (by omega)]
    omega
  · have hcorrected := abs_le.mp (corrected_close (by omega) hhigh hjump)
    rw [heq, uint64_eq (by omega) (by omega)]
    omega
  · have hcorrected := abs_le.mp (corrected_close (by omega) hhigh hjump)
    rw [heq]
    exact ⟨hcorrected, zero_le_one.trans (corrected_bounds s c).1⟩

theorem touch_close (h : Close d s) (c : StampCall) : Close (d.touch c) s := by
  rw [DeviceTimestampState.touch, if_pos h.device]
  exact h

theorem Close.setStream (h : Close d s) (isImu : Bool) (s' : StreamTimestampState) :
    Close (d.setStream isImu s') s := by
  cases isImu <;> exact ⟨h.device, h.arrival, h.close, h.unsigned⟩

/-- A call returns a stamp close to the timeline, and keeps the streams close to it. -/
theorem onTimeline_step (h : OnTimeline d) (harrives : Arrives d c) (hfit : NoOverflow d c) :
    OnTimeline (normalizeTimestamp d c).1 ∧
      |(normalizeTimestamp d c).2 - d.timeline c| ≤ kTimestampJumpThresholdNs := by
  obtain ⟨hstream, hreturned, hother⟩ := normalizeTimestamp_streams d c
  obtain ⟨hexpected, hlow⟩ := expectedFromOrigin_eq h harrives hfit
  obtain ⟨horigin, htime, htouched⟩ := touch_origin h harrives hfit
  have hnext : |((d.touch c).nextStream c).lastNormalizedNs - d.timeline c| ≤
      kTimestampJumpThresholdNs ∧ 0 ≤ ((d.touch c).nextStream c).lastNormalizedNs ∧
      ((d.touch c).nextStream c).lastArrival = c.time := by
    rcases nextStream_cases d c with ⟨-, heq⟩ | ⟨hinit, heq⟩ <;> rw [heq, hexpected]
    · exact ⟨start_close hlow hfit,
        zero_le_one.trans (applyTimestampCorrection_bounds _ _).1, rfl⟩
    · obtain ⟨hclose, hunsigned⟩ := advance_close (touch_close (h.streams c.isImu hinit) c) horigin.1
        (harrives.2 hinit) (rfl : d.timeline c = _) hfit
      exact ⟨hclose, hunsigned, (advance_record _ _ _).2⟩
  obtain ⟨hclose, hunsigned, harrival⟩ := hnext
  have horigins := setStream_origin (d.touch c) c.isImu ((d.touch c).nextStream c)
  refine ⟨⟨?_, fun isImu hinit => ?_⟩, hreturned ▸ hclose⟩
  · rw [normalizeTimestamp, horigins.1]
    exact horigin
  · by_cases hi : isImu = c.isImu
    · subst hi
      rw [hstream]
      have hdevice : Close (d.touch c) ((d.touch c).nextStream c) :=
        ⟨htouched, harrival ▸ htime, by rw [harrival]; exact hclose, hunsigned⟩
      exact hdevice.setStream _ _
    · rw [hother isImu hi] at hinit ⊢
      exact (touch_close (h.streams isImu hinit) c).setStream _ _

theorem StampRun.onTimeline {p : DeviceTimestampState × List Returned}
    (h : StampRun (fun d c => Arrives d c ∧ NoOverflow d c) p) :
    OnTimeline p.1 ∧ ∀ r ∈ p.2, |r.timestamp - r.timeline| ≤ kTimestampJumpThresholdNs := by
  refine Reach.invariant (I := fun p => OnTimeline p.1 ∧
    ∀ r ∈ p.2, |r.timestamp - r.timeline| ≤ kTimestampJumpThresholdNs) ?_ ?_ h
  · refine ⟨⟨⟨le_refl _, by decide⟩, fun isImu hinit => ?_⟩, by simp⟩
    cases isImu <;> cases hinit
  · intro p q c _ hinv hok hst
    obtain ⟨hstep, hlog⟩ := withGhost_cases hst
    obtain ⟨hon, hclose⟩ := onTimeline_step hinv.1 hok.1 hok.2
    rw [← Option.some.inj hstep] at hlog ⊢
    rw [hlog]
    refine ⟨hon, fun r hr => ?_⟩
    rcases List.mem_append.mp hr with hr | hr
    · exact hinv.2 r hr
    · rw [List.mem_singleton.mp hr]
      exact hclose

/-- The stamps of each stream grow unless a sum wraps; with calls apart and no overflow every
stamp is as close to the timeline as the threshold. -/
theorem timestamps_normalized :
    (∀ p, StampRun NoWrap p → ∀ isImu, (stampsOf isImu p.2).Pairwise (· < ·)) ∧
      ∀ p, StampRun (fun d c => Arrives d c ∧ NoOverflow d c) p →
        ∀ r ∈ p.2, |r.timestamp - r.timeline| ≤ kTimestampJumpThresholdNs :=
  ⟨fun _ h isImu => (h.increasing isImu).sorted, fun _ h => h.onTimeline.2⟩

instance (d : DeviceTimestampState) (c : StampCall) : Decidable (NoWrap d c) :=
  inferInstanceAs (Decidable (_ → _))

instance (d : DeviceTimestampState) (c : StampCall) : Decidable (Arrives d c ∧ NoOverflow d c) :=
  inferInstanceAs (Decidable ((_ ∧ _) ∧ (_ : ℤ) < _))

/-- A point packet, and one that comes late. -/
def StampCall.samples : List StampCall := [⟨1000, false, 0⟩, ⟨5, false, 7⟩]

theorem timestamps_normalized_late :
    [1000, 1001].Pairwise (fun x y : ℤ => x < y) ∧ |(1001 : ℤ) - 1007| ≤ kTimestampJumpThresholdNs := by
  have hgrow : (exec (fun (p : DeviceTimestampState × List Returned) c =>
      if NoWrap p.1 c then withGhost stampStep logStamp p c else none) ({}, [])
      StampCall.samples).any (fun p => decide (stampsOf false p.2 = [1000, 1001])) = true := by
    decide +kernel
  have hclose : (exec (fun (p : DeviceTimestampState × List Returned) c =>
      if Arrives p.1 c ∧ NoOverflow p.1 c then withGhost stampStep logStamp p c else none) ({}, [])
      StampCall.samples).any (fun p => decide (⟨false, 1001, 1007⟩ ∈ p.2)) = true := by
    decide +kernel
  obtain ⟨p, hp, hstamps⟩ := exists_exec_of_any _ hgrow
  obtain ⟨q, hq, hmem⟩ := exists_exec_of_any _ hclose
  refine ⟨?_, timestamps_normalized.2 q (.of_guarded hq) _ (of_decide_eq_true hmem)⟩
  rw [← of_decide_eq_true hstamps]
  exact timestamps_normalized.1 p (.of_guarded hp) false

/-! ## A wrap -/

/-- The clock of the host does not go back. -/
def HostOrdered (d : DeviceTimestampState) (c : StampCall) : Prop :=
  ∀ isImu, (d.stream isImu).initialized = true → (d.stream isImu).lastArrival ≤ c.time

/-- A point packet with stamp zero at time zero. -/
def StampCall.zero : StampCall := ⟨0, false, 0⟩

/-- The device after such packets, the last of which returned `last`. -/
def DeviceTimestampState.zeros (last : ℤ) : DeviceTimestampState where
  initialized := true
  lidar := { initialized := true, lastNormalizedNs := last }

/-- A packet that says the same as the one before it adds a nanosecond. -/
theorem nextStream_zero {last : ℤ} (hlast : 0 < last) :
    (DeviceTimestampState.zeros last).nextStream .zero = (.zeros (uint64 (last + 1)) :
      DeviceTimestampState).lidar := by
  -- Neither the timeline nor the correction depends on the last timestamp.
  have hexpected : (DeviceTimestampState.zeros last).expectedFromOrigin .zero = 0 :=
    (rfl : _ = (DeviceTimestampState.zeros 0).expectedFromOrigin .zero).trans (by decide +kernel)
  have hjump : (DeviceTimestampState.zeros last).lidar.jumped .zero 0 = false :=
    (rfl : _ = (DeviceTimestampState.zeros 0).lidar.jumped .zero 0).trans (by decide +kernel)
  have hcorrected : (DeviceTimestampState.zeros last).lidar.corrected .zero = 1 :=
    (rfl : _ = (DeviceTimestampState.zeros 0).lidar.corrected .zero).trans (by decide +kernel)
  have hlater : (DeviceTimestampState.zeros last).nextStream .zero =
      (DeviceTimestampState.zeros last).lidar.advance .zero
        ((DeviceTimestampState.zeros last).expectedFromOrigin .zero) := rfl
  rw [hlater, hexpected, StreamTimestampState.advance, hjump, if_neg Bool.false_ne_true, hcorrected,
    if_pos (show 1 ≤ (DeviceTimestampState.zeros last).lidar.lastNormalizedNs from hlast)]
  rfl

/-- The log of so many of them. -/
def Returned.zeros (n : ℕ) : List Returned :=
  (List.range n).map fun (i : ℕ) => ⟨false, uint64 ((i : ℤ) + 1), 0⟩

theorem Returned.zeros_succ (n : ℕ) :
    Returned.zeros (n + 1) = Returned.zeros n ++ [⟨false, uint64 ((n : ℤ) + 1), 0⟩] := by
  simp [Returned.zeros, List.range_succ]

theorem zeros_step {n : ℕ} (hlast : 0 < uint64 n) :
    withGhost stampStep logStamp (.zeros (uint64 n), Returned.zeros n) .zero =
      some (.zeros (uint64 ((n + 1 : ℕ) : ℤ)), Returned.zeros (n + 1)) := by
  have hnext := nextStream_zero hlast
  rw [uint64_succ] at hnext
  have htouch : (DeviceTimestampState.zeros (uint64 n)).touch .zero = .zeros (uint64 n) := if_pos rfl
  have hline : (DeviceTimestampState.zeros (uint64 n)).timeline .zero = 0 := by
    rw [DeviceTimestampState.timeline, htouch]
    rfl
  have hreturns : normalizeTimestamp (.zeros (uint64 n)) .zero =
      (.zeros (uint64 ((n : ℤ) + 1)), uint64 ((n : ℤ) + 1)) := by
    rw [normalizeTimestamp, htouch, hnext]
    rfl
  have hlog : logStamp (.zeros (uint64 n)) .zero (.zeros (uint64 ((n : ℤ) + 1))) (Returned.zeros n) =
      Returned.zeros (n + 1) := by
    rw [logStamp, hreturns, hline, Returned.zeros_succ]
    rfl
  rw [withGhost, stampStep, hreturns, Option.map_some, hlog, Nat.cast_add_one]

/-- So many packets are a run. -/
theorem zeros_reach {n : ℕ} (hn : n < 18446744073709551616) :
    StampRun HostOrdered (.zeros (uint64 ((n + 1 : ℕ) : ℤ)), Returned.zeros (n + 1)) := by
  induction n with
  | zero =>
    refine .next StampCall.zero .start (fun isImu h => ?_) ?_
    · cases isImu <;> cases h
    · decide +kernel
  | succ n ih =>
    refine .next StampCall.zero (ih (by omega)) (fun isImu h => ?_) (zeros_step ?_)
    · cases isImu
      · exact le_refl (0 : ℤ)
      · cases h
    · rw [uint64_eq (by omega) (by omega)]
      omega

/-- The packet whose sum wraps returns zero, after one that returned one. -/
theorem zeros_not_increasing {n : ℕ} (hwrap : uint64 ((n : ℤ) + 1 + 1) = 0) :
    ¬(stampsOf false (Returned.zeros (n + 1 + 1))).Pairwise (· < ·) := by
  intro h
  rw [Returned.zeros_succ, Returned.zeros_succ, stampsOf_append, stampsOf_append, if_pos rfl, if_pos rfl,
    Nat.cast_add_one, hwrap, List.append_assoc] at h
  have hlast := (List.pairwise_append.mp h).2.1
  have hbelow := List.rel_of_pairwise_cons hlast (List.mem_singleton_self _)
  exact absurd hbelow (not_lt.mpr (uint64_bounds _).1)

/-- With the host in order, 2^64 packets that say the same return zero in the end. -/
theorem timestamps_not_increasing :
    ∃ p, StampRun HostOrdered p ∧ ¬(stampsOf false p.2).Pairwise (· < ·) := by
  obtain ⟨n, hn⟩ : ∃ n : ℕ, n = 18446744073709551614 := ⟨_, rfl⟩
  refine ⟨_, zeros_reach (n := n + 1) (by omega), zeros_not_increasing ?_⟩
  rw [hn]
  decide +kernel

end FastLivo.Livox
