import FastLivo.Lib.Ghost
import FastLivo.Lib.Int64

/-!
# The shared timestamp file

The lidar driver writes the stamp of each frame to a file that the camera process maps.
`UpdateSharedTimestamp` marks the file with an odd sequence while it writes;
`ReadSharedTimestamp` loads the sequence before and after the stamp. A step is one load or
store of a process together with the local work that follows it.
-/

namespace FastLivo.Timeshare

open Lib

/-! ## State -/

/-- `time_stamp`: `high` is the sequence, `low` the stamp. -/
structure TimeStamp where
  high : ℤ
  low : ℤ
  deriving DecidableEq, Repr

/-- Where the driver is in `InitializeTimestampShare` and `UpdateSharedTimestamp`. -/
inductive DriverPc
  | unmapped
  /-- `high` is cleared, `low` is not. -/
  | cleared
  | idle
  /-- Before the sequence is made odd. -/
  | loaded (timestamp : UInt64) (sequence : ℤ)
  /-- Before the stamp is stored. -/
  | marked (timestamp : UInt64) (sequence : ℤ)
  /-- Before the sequence is made even. -/
  | written (timestamp : UInt64) (sequence : ℤ)
  deriving DecidableEq, Repr

/-- Where the camera is in `WorkThread`, `WaitForNextSharedTimestamp` and
`ReadSharedTimestamp`. -/
inductive CameraPc
  /-- Between two images. -/
  | idle
  /-- At the top of the loop that waits. -/
  | waiting
  | attempt (attempt : ℕ)
  | loadedHigh (attempt : ℕ) (sequenceBefore : ℤ)
  | loadedLow (attempt : ℕ) (sequenceBefore value : ℤ)
  /-- The wait returned a stamp for the image. -/
  | matched (timestamp : ℤ)
  deriving DecidableEq, Repr

/-- What the camera keeps between two images. -/
structure Camera where
  /-- `pointt` is set. -/
  mapped : Bool := false
  lastSharedSequence : ℤ := 0
  hasMatchedSharedTimestamp : Bool := false
  consecutiveTimestampTimeouts : ℕ := 0
  pc : CameraPc := .idle
  deriving DecidableEq, Repr

/-- The file and both processes. -/
structure Share where
  file : TimeStamp
  driver : DriverPc := .unmapped
  camera : Camera := {}
  deriving DecidableEq, Repr

/-- Steps of the driver. -/
inductive DriverStep
  /-- The file is mapped and `high` cleared. -/
  | map
  | clearLow
  | update (timestamp : UInt64)
  | markOdd
  | writeLow
  | markEven
  deriving DecidableEq, Repr

/-- Steps of the camera. -/
inductive CameraStep
  /-- `TryInitializeTimestampShare`: the retry is due and the file can be mapped, or not. -/
  | tryInitialize (opens : Bool)
  | cleanup
  /-- An image came; the wait begins. -/
  | frame
  /-- A turn of the loop that waits. -/
  | poll
  /-- The loop is left without a stamp. -/
  | timeout
  | loadHigh
  | loadLow
  | loadAgain
  /-- The image is converted and published, or skipped. -/
  | finish (converts : Bool)
  deriving DecidableEq, Repr

inductive ShareEvent
  | driver (t : DriverStep)
  | camera (t : CameraStep)
  deriving DecidableEq, Repr

/-! ## The driver -/

/-- A step of the driver, if it can be taken; it does not return from an overflow. -/
def driverStep (file : TimeStamp) (pc : DriverPc) (t : DriverStep) : Option (TimeStamp × DriverPc) :=
  match t, pc with
  | .map, .unmapped => some ({ file with high := 0 }, .cleared)
  | .clearLow, .cleared => some ({ file with low := 0 }, .idle)
  | .update _, .unmapped => some (file, .unmapped)
  | .update timestamp, .idle =>
    (if file.high % 2 = 1 then signedSum file.high 1 else some file.high).map fun sequence =>
      (file, .loaded timestamp sequence)
  | .markOdd, .loaded timestamp sequence =>
    (signedSum sequence 1).map fun high => ({ file with high := high }, .marked timestamp sequence)
  | .writeLow, .marked timestamp sequence =>
    some ({ file with low := int64 timestamp.toNat }, .written timestamp sequence)
  | .markEven, .written _ sequence =>
    (signedSum sequence 2).map fun high => ({ file with high := high }, .idle)
  | _, _ => none

/-! ## The camera -/

/-- What `ReadSharedTimestamp` returns. -/
structure Reading where
  sequence : ℤ
  timestamp : ℤ
  deriving DecidableEq, Repr

/-- The next attempt of a read, or its end. -/
def nextAttempt (attempt : ℕ) : CameraPc := if attempt + 1 < 8 then .attempt (attempt + 1) else .waiting

/-- The even sequence that a mapping starts from. -/
def evenBelow (sequence : ℤ) : ℤ := if sequence % 2 = 1 then sequence - 1 else sequence

namespace Camera

/-- `CleanupTimestampShare`. -/
def cleanup (c : Camera) : Camera :=
  { c with mapped := false, lastSharedSequence := 0, hasMatchedSharedTimestamp := false }

/-- `TryInitializeTimestampShare`. -/
def tryInitialize (file : TimeStamp) (opens : Bool) (c : Camera) : Camera :=
  if c.mapped || !opens then c
  else { c with mapped := true, lastSharedSequence := evenBelow file.high }

/-- What `WorkThread` does about an image without a stamp. -/
def timeout (remapAfter : ℕ) (c : Camera) : Camera :=
  let c := { c with consecutiveTimestampTimeouts := c.consecutiveTimestampTimeouts + 1, pc := .idle }
  if remapAfter ≤ c.consecutiveTimestampTimeouts then
    { c.cleanup with consecutiveTimestampTimeouts := 0 }
  else c

/-- What the second load of the sequence makes of an attempt. -/
def reading (file : TimeStamp) (c : Camera) : Option Reading :=
  match c.pc with
  | .loadedLow _ sequenceBefore value =>
    if sequenceBefore = file.high ∧ file.high % 2 = 0 ∧ 0 < value then some ⟨file.high, value⟩
    else none
  | _ => none

/-- What the wait makes of a reading. -/
def matchReading (r : Reading) (c : Camera) : Camera :=
  if r.sequence = c.lastSharedSequence then { c with pc := .waiting }
  else
    { c with
      lastSharedSequence := r.sequence
      hasMatchedSharedTimestamp := true
      consecutiveTimestampTimeouts := 0
      pc := .matched r.timestamp }

end Camera

/-- A step of the camera, if it can be taken. -/
def cameraStep (remapAfter : ℕ) (file : TimeStamp) (c : Camera) (t : CameraStep) : Option Camera :=
  match t, c.pc with
  | .tryInitialize opens, .idle => some (c.tryInitialize file opens)
  | .cleanup, .idle => some c.cleanup
  | .frame, .idle => some { c with pc := .waiting }
  | .poll, .waiting => some (if c.mapped then { c with pc := .attempt 0 } else c)
  | .timeout, .waiting => some (c.timeout remapAfter)
  | .loadHigh, .attempt attempt =>
    some { c with
      pc := if file.high = 0 ∨ file.high % 2 = 1 then nextAttempt attempt
        else .loadedHigh attempt file.high }
  | .loadLow, .loadedHigh attempt sequenceBefore =>
    some { c with pc := .loadedLow attempt sequenceBefore file.low }
  | .loadAgain, .loadedLow attempt _ _ =>
    some <| match c.reading file with
      | some r => c.matchReading r
      | none => { c with pc := nextAttempt attempt }
  | .finish _, .matched _ => some { c with pc := .idle }
  | _, _ => none

/-! ## Runs -/

/-- A step of either process. -/
def shareStep (remapAfter : ℕ) (s : Share) : ShareEvent → Option Share
  | .driver t => (driverStep s.file s.driver t).map fun p => { s with file := p.1, driver := p.2 }
  | .camera t => (cameraStep remapAfter s.file s.camera t).map fun c => { s with camera := c }

/-- A stamp that the driver published under a sequence. -/
structure Update where
  sequence : ℤ
  timestamp : UInt64
  deriving DecidableEq, Repr

/-- Ghost: what was published, and what each function of the camera returned. -/
structure ShareLog where
  updates : List Update := []
  reads : List Reading := []
  waits : List Reading := []
  /-- Published images, each with the sequence its stamp came with. -/
  images : List Reading := []
  deriving DecidableEq, Repr

/-- The update that a step of the driver completes. -/
def completed (pc : DriverPc) (t : DriverStep) : Option Update :=
  match t, pc with
  | .markEven, .written timestamp sequence => some ⟨sequence + 2, timestamp⟩
  | _, _ => none

/-- What a step of the camera reads. -/
def readBy (file : TimeStamp) (c : Camera) (t : CameraStep) : Option Reading :=
  match t with
  | .loadAgain => c.reading file
  | _ => none

/-- The image that a step of the camera publishes. -/
def imageBy (c : Camera) (t : CameraStep) : Option Reading :=
  match t, c.pc with
  | .finish true, .matched timestamp => some ⟨c.lastSharedSequence, timestamp⟩
  | _, _ => none

/-- What a step of the camera adds. -/
def ShareLog.camera (log : ShareLog) (file : TimeStamp) (c : Camera) (t : CameraStep) : ShareLog :=
  { log with
    reads := log.reads ++ (readBy file c t).toList
    waits := log.waits ++
      ((readBy file c t).filter fun r => r.sequence ≠ c.lastSharedSequence).toList
    images := log.images ++ (imageBy c t).toList }

/-- Keep what a step publishes or returns. -/
def logShare (s : Share) (e : ShareEvent) (_ : Share) (log : ShareLog) : ShareLog :=
  match e with
  | .driver t => { log with updates := log.updates ++ (completed s.driver t).toList }
  | .camera t => log.camera s.file s.camera t

/-- Runs of one driver and one camera on a file. -/
def ShareRun (remapAfter : ℕ) (file : TimeStamp) : Share × ShareLog → Prop :=
  Reach (withGhost (shareStep remapAfter) logShare) (fun _ _ => True) ({ file := file }, {})

/-! ## What each step needs and does -/

/-- A step of the driver. -/
inductive DriverMove (file : TimeStamp) : DriverPc → DriverStep → TimeStamp → DriverPc → Prop
  | map : DriverMove file .unmapped .map { file with high := 0 } .cleared
  | clearLow : DriverMove file .cleared .clearLow { file with low := 0 } .idle
  | absent (timestamp : UInt64) : DriverMove file .unmapped (.update timestamp) file .unmapped
  | updateOdd (timestamp : UInt64) : file.high % 2 = 1 →
      DriverMove file .idle (.update timestamp) file (.loaded timestamp (file.high + 1))
  | update (timestamp : UInt64) : ¬file.high % 2 = 1 →
      DriverMove file .idle (.update timestamp) file (.loaded timestamp file.high)
  | markOdd (timestamp : UInt64) (sequence : ℤ) :
      DriverMove file (.loaded timestamp sequence) .markOdd { file with high := sequence + 1 }
        (.marked timestamp sequence)
  | writeLow (timestamp : UInt64) (sequence : ℤ) :
      DriverMove file (.marked timestamp sequence) .writeLow
        { file with low := int64 timestamp.toNat } (.written timestamp sequence)
  | markEven (timestamp : UInt64) (sequence : ℤ) :
      DriverMove file (.written timestamp sequence) .markEven { file with high := sequence + 2 } .idle

/-- A step of the camera. -/
inductive CameraMove (remapAfter : ℕ) (file : TimeStamp) (c : Camera) : CameraStep → Camera → Prop
  | tryInitialize (opens : Bool) : c.pc = .idle →
      CameraMove remapAfter file c (.tryInitialize opens) (c.tryInitialize file opens)
  | cleanup : c.pc = .idle → CameraMove remapAfter file c .cleanup c.cleanup
  | frame : c.pc = .idle → CameraMove remapAfter file c .frame { c with pc := .waiting }
  | poll : c.pc = .waiting →
      CameraMove remapAfter file c .poll (if c.mapped then { c with pc := .attempt 0 } else c)
  | timeout : c.pc = .waiting → CameraMove remapAfter file c .timeout (c.timeout remapAfter)
  | loadHigh (attempt : ℕ) : c.pc = .attempt attempt →
      CameraMove remapAfter file c .loadHigh
        { c with
          pc := if file.high = 0 ∨ file.high % 2 = 1 then nextAttempt attempt
            else .loadedHigh attempt file.high }
  | loadLow (attempt : ℕ) (sequenceBefore : ℤ) : c.pc = .loadedHigh attempt sequenceBefore →
      CameraMove remapAfter file c .loadLow
        { c with pc := .loadedLow attempt sequenceBefore file.low }
  | reject (attempt : ℕ) (sequenceBefore value : ℤ) :
      c.pc = .loadedLow attempt sequenceBefore value → c.reading file = none →
      CameraMove remapAfter file c .loadAgain { c with pc := nextAttempt attempt }
  | accept (attempt : ℕ) (sequenceBefore value : ℤ) (r : Reading) :
      c.pc = .loadedLow attempt sequenceBefore value → c.reading file = some r →
      CameraMove remapAfter file c .loadAgain (c.matchReading r)
  | finish (converts : Bool) (timestamp : ℤ) : c.pc = .matched timestamp →
      CameraMove remapAfter file c (.finish converts) { c with pc := .idle }

theorem driverMove_of_step {file file' : TimeStamp} {pc pc' : DriverPc} {t : DriverStep}
    (h : driverStep file pc t = some (file', pc')) : DriverMove file pc t file' pc' := by
  unfold driverStep at h
  split at h
  · obtain ⟨⟩ := Option.some.inj h
    exact .map
  · obtain ⟨⟩ := Option.some.inj h
    exact .clearLow
  · obtain ⟨⟩ := Option.some.inj h
    exact .absent _
  · obtain ⟨sequence, hsequence, ⟨⟩⟩ := Option.map_eq_some_iff.mp h
    split at hsequence
    · obtain rfl := signedSum_eq_some hsequence
      exact .updateOdd _ ‹_›
    · obtain rfl := Option.some.inj hsequence
      exact .update _ ‹_›
  · obtain ⟨high, hhigh, ⟨⟩⟩ := Option.map_eq_some_iff.mp h
    obtain rfl := signedSum_eq_some hhigh
    exact .markOdd _ _
  · obtain ⟨⟩ := Option.some.inj h
    exact .writeLow _ _
  · obtain ⟨high, hhigh, ⟨⟩⟩ := Option.map_eq_some_iff.mp h
    obtain rfl := signedSum_eq_some hhigh
    exact .markEven _ _
  · cases h

theorem cameraMove_of_step {remapAfter : ℕ} {file : TimeStamp} {c c' : Camera} {t : CameraStep}
    (h : cameraStep remapAfter file c t = some c') : CameraMove remapAfter file c t c' := by
  unfold cameraStep at h
  split at h
  · obtain rfl := Option.some.inj h
    exact .tryInitialize _ ‹_›
  · obtain rfl := Option.some.inj h
    exact .cleanup ‹_›
  · obtain rfl := Option.some.inj h
    exact .frame ‹_›
  · obtain rfl := Option.some.inj h
    exact .poll ‹_›
  · obtain rfl := Option.some.inj h
    exact .timeout ‹_›
  · obtain rfl := Option.some.inj h
    exact .loadHigh _ ‹_›
  · obtain rfl := Option.some.inj h
    exact .loadLow _ _ ‹_›
  · obtain rfl := Option.some.inj h
    split
    · exact .accept _ _ _ _ ‹_› ‹_›
    · exact .reject _ _ _ ‹_› ‹_›
  · obtain rfl := Option.some.inj h
    exact .finish _ _ ‹_›
  · cases h

end FastLivo.Timeshare
