import FastLivo.Lib.Seqlock
import FastLivo.Timeshare.Processes
import Mathlib.Algebra.Order.Ring.Int

/-!
# Stamps of images

Every stamp that the camera takes from the shared file was published by one update of the
driver, and no two waits take the stamp of the same update, however the steps of the two
processes interleave and whatever an earlier driver left in the file.
-/

namespace FastLivo.Timeshare

open Lib Lib.Seqlock

/-- One update published the stamp under the sequence. -/
def Published (updates : List Update) (sequence timestamp : ℤ) : Prop :=
  ∃ u ∈ updates, u.sequence = sequence ∧ int64 u.timestamp.toNat = timestamp

variable {initial file file' : TimeStamp} {updates : List Update} {u : Update} {bound bound' : ℤ}
  {sequence timestamp : ℤ} {pc pc' : DriverPc} {t : DriverStep}

theorem Published.append (h : Published updates sequence timestamp) (more : List Update) :
    Published (updates ++ more) sequence timestamp := by
  obtain ⟨u, hu, heq⟩ := h
  exact ⟨u, List.mem_append_left _ hu, heq⟩

/-! ## What the driver keeps -/

/-- The updates so far have even sequences that grow up to a bound. -/
structure Logged (updates : List Update) (bound : ℤ) : Prop where
  sorted : (updates.map Update.sequence).Pairwise (· < ·)
  even : ∀ u ∈ updates, u.sequence % 2 = 0
  bound : ∀ u ∈ updates, u.sequence ≤ bound

theorem Logged.nil : Logged [] bound := ⟨.nil, by simp, by simp⟩

theorem Logged.mono (h : Logged updates bound) (hle : bound ≤ bound') : Logged updates bound' :=
  ⟨h.sorted, h.even, fun u hu => (h.bound u hu).trans hle⟩

theorem Logged.append (h : Logged updates bound) (heven : u.sequence % 2 = 0)
    (hlt : bound < u.sequence) : Logged (updates ++ [u]) u.sequence := by
  constructor
  · rw [List.map_append, List.map_singleton]
    refine List.pairwise_append.mpr ⟨h.sorted, List.pairwise_singleton _ _, ?_⟩
    intro x hx y hy
    obtain ⟨w, hw, rfl⟩ := List.mem_map.mp hx
    rw [List.mem_singleton.mp hy]
    exact (h.bound w hw).trans_lt hlt
  · intro w hw
    rcases List.mem_append.mp hw with hw | hw
    · exact h.even w hw
    · rwa [List.mem_singleton.mp hw]
  · intro w hw
    rcases List.mem_append.mp hw with hw | hw
    · exact (h.bound w hw).trans hlt.le
    · rw [List.mem_singleton.mp hw]

/-- Outside an update, the file holds the last stamp that was published. -/
structure Settled (file : TimeStamp) (updates : List Update) : Prop where
  even : file.high % 2 = 0
  unsigned : 0 ≤ file.high
  logged : Logged updates file.high
  stable : Stable (Published updates) file.high file.low

/-- Within an update, the sequence in the file is odd. -/
structure Writing (file : TimeStamp) (updates : List Update) (sequence : ℤ) : Prop where
  even : sequence % 2 = 0
  unsigned : 0 ≤ sequence
  logged : Logged updates sequence
  high : file.high = sequence + 1

/-- What holds at each point of the driver. -/
def DriverInv (initial file : TimeStamp) (updates : List Update) : DriverPc → Prop
  | .unmapped => file = initial ∧ updates = []
  | .cleared => file.high = 0 ∧ updates = []
  | .idle => Settled file updates
  | .loaded _ sequence => Settled file updates ∧ sequence = file.high
  | .marked _ sequence => Writing file updates sequence
  | .written timestamp sequence =>
    Writing file updates sequence ∧ file.low = int64 timestamp.toNat

/-- What the camera needs of the driver once the file is mapped. -/
theorem DriverInv.started (h : DriverInv initial file updates pc) (hpc : pc ≠ .unmapped) :
    0 ≤ file.high ∧ Logged updates file.high ∧ Stable (Published updates) file.high file.low := by
  have hwriting : ∀ {sequence}, Writing file updates sequence →
      0 ≤ file.high ∧ Logged updates file.high ∧ Stable (Published updates) file.high file.low := by
    intro sequence h
    have heven := h.even
    have hlow := h.unsigned
    have hhigh := h.high
    exact ⟨by omega, h.logged.mono (by omega), stable_of_odd (by omega)⟩
  cases pc with
  | unmapped => exact absurd rfl hpc
  | cleared =>
    obtain ⟨hhigh, rfl⟩ := h
    rw [hhigh]
    exact ⟨le_refl _, .nil, fun _ hpos => absurd rfl hpos⟩
  | idle => exact ⟨h.unsigned, h.logged, h.stable⟩
  | loaded => exact ⟨h.1.unsigned, h.1.logged, h.1.stable⟩
  | marked => exact hwriting h
  | written => exact hwriting h.1

/-- A step of the driver keeps the order of the log; the sequence in the file does not go
back once the file is mapped. -/
theorem DriverInv.step (h : DriverInv initial file updates pc) (hm : DriverMove file pc t file' pc') :
    DriverInv initial file' (updates ++ (completed pc t).toList) pc' ∧
      (pc ≠ .unmapped → pc' ≠ .unmapped ∧ file.high ≤ file'.high) := by
  cases hm with
  | map =>
    obtain ⟨-, rfl⟩ := h
    exact ⟨⟨rfl, rfl⟩, fun hpc => absurd rfl hpc⟩
  | clearLow =>
    obtain ⟨hhigh, rfl⟩ := h
    refine ⟨⟨?_, ?_, .nil, fun _ hpos => absurd hhigh hpos⟩, fun _ => ⟨nofun, le_refl _⟩⟩
    · show file.high % 2 = 0
      omega
    · show 0 ≤ file.high
      omega
  | absent timestamp =>
    obtain ⟨rfl, rfl⟩ := h
    exact ⟨⟨rfl, rfl⟩, fun hpc => absurd rfl hpc⟩
  | updateOdd timestamp hodd =>
    have heven := h.even
    omega
  | update timestamp _ =>
    exact ⟨⟨(List.append_nil updates).symm ▸ h, rfl⟩, fun _ => ⟨nofun, le_refl _⟩⟩
  | markOdd timestamp sequence =>
    obtain ⟨hsettled, rfl⟩ := h
    refine ⟨⟨hsettled.even, hsettled.unsigned, ?_, rfl⟩, fun _ => ⟨nofun, ?_⟩⟩
    · exact (List.append_nil updates).symm ▸ hsettled.logged
    · show file.high ≤ file.high + 1
      omega
  | writeLow timestamp sequence =>
    exact ⟨⟨(List.append_nil updates).symm ▸ ⟨h.even, h.unsigned, h.logged, h.high⟩, rfl⟩,
      fun _ => ⟨nofun, le_refl _⟩⟩
  | markEven timestamp sequence =>
    obtain ⟨hwriting, hlow⟩ := h
    have heven := hwriting.even
    have hunsigned := hwriting.unsigned
    have hhigh := hwriting.high
    refine ⟨⟨?_, ?_, ?_, stable_of_published ?_⟩, fun _ => ⟨nofun, ?_⟩⟩
    · show (sequence + 2) % 2 = 0
      omega
    · show 0 ≤ sequence + 2
      omega
    · apply hwriting.logged.append
      · show (sequence + 2) % 2 = 0
        omega
      · show sequence < sequence + 2
        omega
    · exact ⟨_, List.mem_append_right _ (List.mem_singleton_self _), rfl, hlow.symm⟩
    · show file.high ≤ sequence + 2
      omega

/-! ## What the camera keeps -/

/-- A sequence that was seen before the driver mapped the file. The wait does not take it. -/
structure Stale (initial : TimeStamp) (last seen : ℤ) : Prop where
  initial : seen = initial.high
  nonzero : seen ≠ 0
  last : last = seen

/-- A sequence of this driver, no earlier than what the last wait took. -/
structure Fresh (file : TimeStamp) (pc : DriverPc) (waits : List Reading) (last seen : ℤ) : Prop where
  started : pc ≠ .unmapped
  even : seen % 2 = 0
  nonzero : seen ≠ 0
  le : seen ≤ file.high
  after : waits ≠ [] → last ≤ seen

/-- What holds at each point of the camera. -/
def ReadInv (initial : TimeStamp) (s : Share) (log : ShareLog) : CameraPc → Prop
  | .idle | .waiting => True
  | .attempt _ => s.camera.mapped = true
  | .loadedHigh _ seen =>
    s.camera.mapped = true ∧ (Stale initial s.camera.lastSharedSequence seen ∨
      Fresh s.file s.driver log.waits s.camera.lastSharedSequence seen)
  | .loadedLow _ seen value =>
    s.camera.mapped = true ∧ (Stale initial s.camera.lastSharedSequence seen ∨
      Fresh s.file s.driver log.waits s.camera.lastSharedSequence seen ∧
        Snapshot (Published log.updates) s.file.high seen value)
  | .matched timestamp =>
    ∃ waits, log.waits = waits ++ [⟨s.camera.lastSharedSequence, timestamp⟩] ∧
      log.images.Sublist waits

structure ShareInv (initial : TimeStamp) (s : Share) (log : ShareLog) : Prop where
  driver : DriverInv initial s.file log.updates s.driver
  waits : ∀ r ∈ log.waits, Published log.updates r.sequence r.timestamp
  sorted : (log.waits.map Reading.sequence).Pairwise (· < ·)
  last : s.camera.mapped = true → ∀ r ∈ log.waits,
    r.sequence ≤ s.camera.lastSharedSequence ∧ s.camera.lastSharedSequence ≤ s.file.high
  unmapped : s.driver = .unmapped → s.camera.mapped = true →
    s.camera.lastSharedSequence = evenBelow initial.high
  images : log.images.Sublist log.waits
  reads : initial.high = 0 → ∀ r ∈ log.reads, Published log.updates r.sequence r.timestamp
  read : ReadInv initial s log s.camera.pc

variable {s : Share} {log : ShareLog} {seen value : ℤ} {c : Camera} {remapAfter : ℕ} {k : CameraStep}

/-- Nothing is taken before the driver maps the file. -/
theorem ShareInv.waits_nil (h : ShareInv initial s log) (hdriver : s.driver = .unmapped) :
    log.waits = [] := by
  have hinv := h.driver
  rw [hdriver] at hinv
  apply List.eq_nil_iff_forall_not_mem.mpr
  intro r hr
  obtain ⟨u, hu, -⟩ := h.waits r hr
  rw [hinv.2] at hu
  cases hu

theorem Fresh.advance {waits : List Reading} {last : ℤ} (h : Fresh file pc waits last seen)
    (hpc : pc' ≠ .unmapped) (hle : file.high ≤ file'.high) : Fresh file' pc' waits last seen :=
  ⟨hpc, h.even, h.nonzero, h.le.trans hle, h.after⟩

/-- What the camera knows outlives a step of the driver. -/
theorem ReadInv.driver_step (h : ReadInv initial s log s.camera.pc)
    (hgrow : ∀ n v, Published log.updates n v → Published updates n v)
    (hmono : s.driver ≠ .unmapped → pc' ≠ .unmapped ∧ s.file.high ≤ file'.high) :
    ReadInv initial { s with file := file', driver := pc' } { log with updates := updates }
      s.camera.pc := by
  cases hpc : s.camera.pc with
  | idle => trivial
  | waiting => trivial
  | attempt => rwa [hpc] at h
  | loadedHigh attempt seen =>
    rw [hpc] at h
    obtain ⟨hmapped, hstale | hfresh⟩ := h
    · exact ⟨hmapped, .inl hstale⟩
    · obtain ⟨hstarted, hle⟩ := hmono hfresh.started
      exact ⟨hmapped, .inr (hfresh.advance hstarted hle)⟩
  | loadedLow attempt seen value =>
    rw [hpc] at h
    obtain ⟨hmapped, hstale | ⟨hfresh, hsnapshot⟩⟩ := h
    · exact ⟨hmapped, .inl hstale⟩
    · obtain ⟨hstarted, hle⟩ := hmono hfresh.started
      exact ⟨hmapped, .inr ⟨hfresh.advance hstarted hle, hsnapshot.advance hle hgrow⟩⟩
  | matched timestamp => rwa [hpc] at h

theorem ShareInv.driver_step (h : ShareInv initial s log)
    (hm : DriverMove s.file s.driver t file' pc') :
    ShareInv initial { s with file := file', driver := pc' }
      { log with updates := log.updates ++ (completed s.driver t).toList } := by
  obtain ⟨hdriver, hmono⟩ := h.driver.step hm
  have hgrow : ∀ n v, Published log.updates n v →
      Published (log.updates ++ (completed s.driver t).toList) n v :=
    fun _ _ hp => hp.append _
  constructor
  · exact hdriver
  · exact fun r hr => hgrow _ _ (h.waits r hr)
  · exact h.sorted
  · intro hmapped r hr
    have hstarted : s.driver ≠ .unmapped := by
      intro hunmapped
      rw [h.waits_nil hunmapped] at hr
      cases hr
    obtain ⟨hbelow, hle⟩ := h.last hmapped r hr
    exact ⟨hbelow, hle.trans (hmono hstarted).2⟩
  · intro hunmapped hmapped
    by_cases hbefore : s.driver = .unmapped
    · exact h.unmapped hbefore hmapped
    · exact absurd hunmapped (hmono hbefore).1
  · exact h.images
  · exact fun hempty r hr => hgrow _ _ (h.reads hempty r hr)
  · exact h.read.driver_step hgrow hmono

/-- The camera moves on within an image. -/
theorem ShareInv.move (h : ShareInv initial s log) (hmapped : c.mapped = s.camera.mapped)
    (hlast : c.lastSharedSequence = s.camera.lastSharedSequence)
    (hread : ReadInv initial { s with camera := c } log c.pc) :
    ShareInv initial { s with camera := c } log := by
  constructor
  · exact h.driver
  · exact h.waits
  · exact h.sorted
  · show c.mapped = true → ∀ r ∈ log.waits, r.sequence ≤ c.lastSharedSequence ∧
      c.lastSharedSequence ≤ s.file.high
    rw [hmapped, hlast]
    exact h.last
  · show s.driver = .unmapped → c.mapped = true → c.lastSharedSequence = evenBelow initial.high
    rw [hmapped, hlast]
    exact h.unmapped
  · exact h.images
  · exact h.reads
  · exact hread

/-- The camera gives the mapping up. -/
theorem ShareInv.unmap (h : ShareInv initial s log) (hmapped : c.mapped = false)
    (hpc : c.pc = .idle) : ShareInv initial { s with camera := c } log := by
  constructor
  · exact h.driver
  · exact h.waits
  · exact h.sorted
  · exact fun hm => absurd hm (by rw [hmapped]; exact Bool.false_ne_true)
  · exact fun _ hm => absurd hm (by rw [hmapped]; exact Bool.false_ne_true)
  · exact h.images
  · exact h.reads
  · show ReadInv initial _ log c.pc
    rw [hpc]
    trivial

theorem evenBelow_le (n : ℤ) : evenBelow n ≤ n := by
  unfold evenBelow
  split <;> omega

theorem evenBelow_of_even {n : ℤ} (h : n % 2 = 0) : evenBelow n = n := by
  unfold evenBelow
  rw [if_neg (by omega)]

/-- An even number below another is not above the even one below it. -/
theorem le_evenBelow {m n : ℤ} (heven : m % 2 = 0) (hle : m ≤ n) : m ≤ evenBelow n := by
  unfold evenBelow
  split <;> omega

/-- A remap starts from a sequence no earlier than what any wait took, and no later than the
next one the driver publishes. -/
theorem ShareInv.tryInitialize (h : ShareInv initial s log) (hpc : s.camera.pc = .idle)
    (opens : Bool) :
    ShareInv initial { s with camera := s.camera.tryInitialize s.file opens } log := by
  unfold Camera.tryInitialize
  split
  · exact h
  · constructor
    · exact h.driver
    · exact h.waits
    · exact h.sorted
    · intro _ r hr
      have hstarted : s.driver ≠ .unmapped := by
        intro hunmapped
        rw [h.waits_nil hunmapped] at hr
        cases hr
      obtain ⟨-, hlogged, -⟩ := h.driver.started hstarted
      obtain ⟨u, hu, hsequence, -⟩ := h.waits r hr
      have heven := hlogged.even u hu
      have hle := hlogged.bound u hu
      rw [hsequence] at heven hle
      exact ⟨le_evenBelow heven hle, evenBelow_le _⟩
    · intro hunmapped _
      have hinv := h.driver
      rw [hunmapped] at hinv
      show evenBelow s.file.high = _
      rw [hinv.1]
    · exact h.images
    · exact h.reads
    · show ReadInv initial _ log s.camera.pc
      rw [hpc]
      trivial

/-- What the first load of a sequence tells. -/
theorem ShareInv.loadHigh (h : ShareInv initial s log) (hmapped : s.camera.mapped = true)
    (hpos : s.file.high ≠ 0) (heven : s.file.high % 2 = 0) :
    Stale initial s.camera.lastSharedSequence s.file.high ∨
      Fresh s.file s.driver log.waits s.camera.lastSharedSequence s.file.high := by
  by_cases hdriver : s.driver = .unmapped
  · have hinv := h.driver
    rw [hdriver] at hinv
    have hlast := h.unmapped hdriver hmapped
    rw [← hinv.1, evenBelow_of_even heven] at hlast
    exact .inl ⟨congrArg TimeStamp.high hinv.1, hpos, hlast⟩
  · refine .inr ⟨hdriver, heven, hpos, le_refl _, fun hwaits => ?_⟩
    obtain ⟨r, hr⟩ := List.exists_mem_of_ne_nil _ hwaits
    exact (h.last hmapped r hr).2

theorem ReadInv.nextAttempt (hmapped : s.camera.mapped = true) (attempt : ℕ) :
    ReadInv initial s log (nextAttempt attempt) := by
  unfold Timeshare.nextAttempt
  split
  · exact hmapped
  · trivial

/-- What the second load of the sequence tells. -/
theorem reading_eq_some {attempt : ℕ} {r : Reading} (hpc : c.pc = .loadedLow attempt seen value)
    (h : c.reading file = some r) : seen = file.high ∧ r = ⟨seen, value⟩ := by
  rw [Camera.reading, hpc] at h
  obtain ⟨⟨heq, -, -⟩, ⟨⟩⟩ := Option.ite_none_right_eq_some.mp h
  exact ⟨heq, by rw [heq]⟩

/-- A reading that a read of this driver's file returns was published. -/
theorem ShareInv.reading_published (h : ShareInv initial s log) {attempt : ℕ} {r : Reading}
    (hpc : s.camera.pc = .loadedLow attempt seen value) (hr : s.camera.reading s.file = some r)
    (hstale : ¬Stale initial s.camera.lastSharedSequence seen) :
    Published log.updates r.sequence r.timestamp ∧
      Fresh s.file s.driver log.waits s.camera.lastSharedSequence r.sequence := by
  have hread := h.read
  rw [hpc] at hread
  obtain ⟨-, hs | ⟨hfresh, hsnapshot⟩⟩ := hread
  · exact absurd hs hstale
  · obtain ⟨heq, rfl⟩ := reading_eq_some hpc hr
    exact ⟨hsnapshot.same heq.symm, hfresh⟩

theorem log_same {r : Reading} (hr : c.reading file = some r)
    (hsame : r.sequence = c.lastSharedSequence) :
    log.camera file c .loadAgain = { log with reads := log.reads ++ [r] } := by
  simp [ShareLog.camera, readBy, imageBy, hr, hsame, Option.filter]

theorem log_taken {r : Reading} (hr : c.reading file = some r)
    (hnew : r.sequence ≠ c.lastSharedSequence) :
    log.camera file c .loadAgain =
      { log with reads := log.reads ++ [r], waits := log.waits ++ [r] } := by
  simp [ShareLog.camera, readBy, imageBy, hr, hnew, Option.filter]

/-- The sequences of the waits go on growing. -/
theorem sorted_append {waits : List Reading} {r : Reading}
    (h : (waits.map Reading.sequence).Pairwise (· < ·)) (hbelow : ∀ w ∈ waits, w.sequence < r.sequence) :
    ((waits ++ [r]).map Reading.sequence).Pairwise (· < ·) := by
  rw [List.map_append, List.map_singleton]
  refine List.pairwise_append.mpr ⟨h, List.pairwise_singleton _ _, ?_⟩
  intro x hx y hy
  obtain ⟨w, hw, rfl⟩ := List.mem_map.mp hx
  rw [List.mem_singleton.mp hy]
  exact hbelow w hw

/-- A wait that takes a reading, or goes on. -/
theorem ShareInv.accept (h : ShareInv initial s log) {attempt : ℕ} {r : Reading}
    (hpc : s.camera.pc = .loadedLow attempt seen value) (hr : s.camera.reading s.file = some r) :
    ShareInv initial { s with camera := s.camera.matchReading r }
      (log.camera s.file s.camera .loadAgain) := by
  have hseen := (reading_eq_some hpc hr).2
  have hmapped : s.camera.mapped = true := by
    have hread := h.read
    rw [hpc] at hread
    exact hread.1
  have hreads : initial.high = 0 → ∀ r' ∈ log.reads ++ [r],
      Published log.updates r'.sequence r'.timestamp := by
    intro hempty r' hr'
    rcases List.mem_append.mp hr' with hr' | hr'
    · exact h.reads hempty r' hr'
    · rw [List.mem_singleton.mp hr']
      apply (h.reading_published hpc hr _).1
      exact fun hstale => hstale.nonzero (hstale.initial.trans hempty)
  unfold Camera.matchReading
  by_cases hsame : r.sequence = s.camera.lastSharedSequence
  · rw [log_same hr hsame, if_pos hsame]
    exact ⟨h.driver, h.waits, h.sorted, h.last, h.unmapped, h.images, hreads, trivial⟩
  · have hnew : ¬Stale initial s.camera.lastSharedSequence seen := by
      intro hstale
      rw [hseen] at hsame
      exact hsame hstale.last.symm
    obtain ⟨hpublished, hfresh⟩ := h.reading_published hpc hr hnew
    have hbelow : ∀ w ∈ log.waits, w.sequence < r.sequence := by
      intro w hw
      have hlast := (h.last hmapped w hw).1
      have hafter := hfresh.after (List.ne_nil_of_mem hw)
      omega
    rw [log_taken hr hsame, if_neg hsame]
    constructor
    · exact h.driver
    · intro w hw
      rcases List.mem_append.mp hw with hw | hw
      · exact h.waits w hw
      · rw [List.mem_singleton.mp hw]
        exact hpublished
    · exact sorted_append h.sorted hbelow
    · intro _ w hw
      refine ⟨?_, hfresh.le⟩
      rcases List.mem_append.mp hw with hw | hw
      · exact (hbelow w hw).le
      · rw [List.mem_singleton.mp hw]
    · exact fun hdriver => absurd hdriver hfresh.started
    · exact h.images.trans (List.sublist_append_left _ _)
    · exact hreads
    · exact ⟨log.waits, rfl, h.images⟩

/-- An image that is published carries the stamp of the last wait. -/
theorem ShareInv.finish (h : ShareInv initial s log) (hpc : s.camera.pc = .matched timestamp)
    (converts : Bool) :
    ShareInv initial { s with camera := { s.camera with pc := .idle } }
      (log.camera s.file s.camera (.finish converts)) := by
  have hread := h.read
  rw [hpc] at hread
  obtain ⟨waits, hwaits, himages⟩ := hread
  have hlog : (log.camera s.file s.camera (.finish converts)).waits = log.waits ∧
      (log.camera s.file s.camera (.finish converts)).reads = log.reads :=
    ⟨List.append_nil _, List.append_nil _⟩
  constructor
  · exact h.driver
  · rw [hlog.1]
    exact h.waits
  · rw [hlog.1]
    exact h.sorted
  · rw [hlog.1]
    exact h.last
  · exact h.unmapped
  · rw [hlog.1]
    cases converts with
    | false =>
      show (log.images ++ []).Sublist log.waits
      rw [List.append_nil]
      exact h.images
    | true =>
      have hlast : imageBy s.camera (.finish true) =
          some ⟨s.camera.lastSharedSequence, timestamp⟩ := by
        unfold imageBy
        rw [hpc]
      show (log.images ++ (imageBy s.camera (.finish true)).toList).Sublist log.waits
      rw [hlast, hwaits]
      exact himages.append (List.Sublist.refl _)
  · rw [hlog.2]
    exact h.reads
  · trivial

theorem ShareInv.camera_step (h : ShareInv initial s log)
    (hm : CameraMove remapAfter s.file s.camera k c) :
    ShareInv initial { s with camera := c } (log.camera s.file s.camera k) := by
  have hread := h.read
  have hquiet : readBy s.file s.camera k = none → imageBy s.camera k = none →
      log.camera s.file s.camera k = log := by
    intro hreads himages
    simp [ShareLog.camera, hreads, himages]
  cases hm with
  | tryInitialize opens hpc =>
    rw [hquiet rfl rfl]
    exact h.tryInitialize hpc opens
  | cleanup hpc =>
    rw [hquiet rfl rfl]
    exact h.unmap rfl hpc
  | frame hpc =>
    rw [hquiet rfl rfl]
    exact h.move rfl rfl trivial
  | poll hpc =>
    rw [hquiet rfl rfl]
    split
    · rename_i hmapped
      exact h.move rfl rfl hmapped
    · exact h
  | timeout hpc =>
    rw [hquiet rfl rfl]
    unfold Camera.timeout
    dsimp only
    split
    · exact h.unmap rfl rfl
    · exact h.move rfl rfl trivial
  | loadHigh attempt hpc =>
    rw [hquiet rfl rfl]
    rw [hpc] at hread
    refine h.move rfl rfl ?_
    dsimp only
    split
    · apply ReadInv.nextAttempt
      exact hread
    · rename_i hstable
      obtain ⟨hpos, heven⟩ := not_or.mp hstable
      exact ⟨hread, h.loadHigh hread hpos (by omega)⟩
  | loadLow attempt sequenceBefore hpc =>
    rw [hquiet rfl rfl]
    rw [hpc] at hread
    obtain ⟨hmapped, hseen⟩ := hread
    refine h.move rfl rfl ⟨hmapped, hseen.imp_right fun hfresh => ⟨hfresh, ?_⟩⟩
    obtain ⟨-, -, hstable⟩ := h.driver.started hfresh.started
    exact hstable.snapshot hfresh.le hfresh.even hfresh.nonzero
  | reject attempt sequenceBefore value hpc hnone =>
    rw [hquiet hnone rfl]
    rw [hpc] at hread
    refine h.move rfl rfl (ReadInv.nextAttempt ?_ attempt)
    exact hread.1
  | accept attempt sequenceBefore value r hpc hr => exact h.accept hpc hr
  | finish converts timestamp hpc => exact h.finish hpc converts

/-! ## Runs -/

theorem ShareRun.inv {p : Share × ShareLog} (h : ShareRun remapAfter initial p) :
    ShareInv initial p.1 p.2 := by
  refine Reach.invariant (I := fun p => ShareInv initial p.1 p.2) ?_ ?_ h
  · exact ⟨⟨rfl, rfl⟩, by simp, .nil, nofun, nofun, List.Sublist.refl _, by simp, trivial⟩
  · intro p q e _ hinv _ hst
    obtain ⟨hstep, hlog⟩ := withGhost_cases hst
    rw [hlog]
    cases e with
    | driver t =>
      obtain ⟨⟨file', pc'⟩, hmove, hq⟩ := Option.map_eq_some_iff.mp hstep
      rw [← hq]
      exact hinv.driver_step (driverMove_of_step hmove)
    | camera t =>
      obtain ⟨c, hmove, hq⟩ := Option.map_eq_some_iff.mp hstep
      rw [← hq]
      exact hinv.camera_step (cameraMove_of_step hmove)

/-- Every stamp that a wait returns was published under its sequence by one update, the
sequences of the waits grow, and so do those of the images and of the updates. In a file that
no earlier driver wrote, whatever is read at all was published by one update. -/
theorem shared_timestamps {p : Share × ShareLog} (h : ShareRun remapAfter initial p) :
    (∀ r ∈ p.2.waits, Published p.2.updates r.sequence r.timestamp) ∧
      (p.2.waits.map Reading.sequence).Pairwise (· < ·) ∧
      p.2.images.Sublist p.2.waits ∧ (p.2.images.map Reading.sequence).Pairwise (· < ·) ∧
      (p.2.updates.map Update.sequence).Pairwise (· < ·) ∧
      (initial.high = 0 → ∀ r ∈ p.2.reads, Published p.2.updates r.sequence r.timestamp) := by
  have hinv := h.inv
  refine ⟨hinv.waits, hinv.sorted, hinv.images, ?_, ?_, hinv.reads⟩
  · exact hinv.sorted.sublist (hinv.images.map Reading.sequence)
  · by_cases hdriver : p.1.driver = .unmapped
    · have hupdates := hinv.driver
      rw [hdriver] at hupdates
      rw [hupdates.2]
      exact .nil
    · exact (hinv.driver.started hdriver).2.1.sorted

/-- The camera maps the file in the middle of an update, and takes its stamp. -/
def ShareEvent.midUpdate : List ShareEvent :=
  [.driver .map, .driver .clearLow, .driver (.update 5), .driver .markOdd,
    .camera (.tryInitialize true), .camera .frame, .camera .poll, .driver .writeLow,
    .driver .markEven, .camera .loadHigh, .camera .loadLow, .camera .loadAgain,
    .camera (.finish true)]

theorem shared_timestamps_midUpdate :
    ∃ updates : List Update, updates.length = 1 ∧ Published updates 2 5 := by
  have hrun : (exec (withGhost (shareStep 3) logShare) ({ file := ⟨0, 0⟩ }, {})
      ShareEvent.midUpdate).any (fun p => decide (p.2.waits = [⟨2, 5⟩] ∧ p.2.updates.length = 1)) =
        true := by
    decide +kernel
  obtain ⟨p, hp, htest⟩ := exists_exec_of_any _ hrun
  obtain ⟨hwaits, hlength⟩ := of_decide_eq_true htest
  refine ⟨p.2.updates, hlength, ?_⟩
  exact (shared_timestamps (Reach.of_exec hp)).1 ⟨2, 5⟩ (by rw [hwaits]; exact List.mem_singleton_self _)

end FastLivo.Timeshare
