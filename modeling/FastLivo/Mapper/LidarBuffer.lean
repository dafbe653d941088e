import FastLivo.Mapper.Effects

/-!
# The two lidar buffers

`lid_raw_data_buffer` and `lid_header_time_buffer` are meant to be one queue of
pairs. Pushes and pops treat them alike in every mode; the loop-back branch of the
lidar callbacks clears the first one only. So the pairing survives a run exactly
when no lidar message with an earlier header time meets waiting scans.
-/

namespace FastLivo

open Lib

variable {C : Carrier}

/-- Each header time belongs to the cloud at its place. -/
def Lockstep (b : SensorBuffers C) : Prop :=
  b.lidHeaderTimeBuffer = b.lidRawDataBuffer.map Scan.headerTime

instance (b : SensorBuffers C) : Decidable (Lockstep b) := inferInstanceAs (Decidable (_ = _))

theorem Lockstep.push {b b' : SensorBuffers C} (h : Lockstep b) (hp : LidarPush b b') :
    Lockstep b' := by
  cases hp with
  | ignored => exact h
  | pushed t cloud =>
    unfold Lockstep pushScan
    rw [h, List.map_append]
    rfl

theorem Lockstep.sync {cfg : Config C} {s t : LIVMapper C} {ok : Bool} (h : Lockstep s.buf)
    (hs : syncPackages cfg s = some (ok, t)) : Lockstep t.buf := by
  obtain ⟨popped, hraw, hhdr⟩ := syncPackages_pop hs
  unfold Lockstep at h ⊢
  rw [hraw, hhdr, List.map_append] at h
  exact (List.append_inj h (by simp)).2

/-- One event that clears nothing keeps the pairing. -/
theorem Lockstep.effect {cfg : Config C} {w w' : World C} {e : Event C}
    (h : Lockstep w.mapper.buf) (hok : ¬ClearsScans cfg w.mapper.buf e)
    (he : StepEffect cfg w e w') : Lockstep w'.mapper.buf := by
  cases he with
  | aside ha => rwa [ha.buf]
  | lidar _ hpush => exact h.push (hpush hok)
  | img hi => cases hi <;> exact h
  | imu hm hw =>
    obtain ⟨_, _, _, _, _, _, rfl⟩ := acceptImu_cases hm
    rw [hw.buf]
    exact h
  | wait hs => exact h.sync hs
  | sync hs hp => rw [hp.buf]; exact h.sync hs

/-- Runs in which no lidar message clears waiting scans. -/
def Setup.Unbroken (S : Setup C) : World C → Prop :=
  Reach S.step (fun w e => ¬ClearsScans S.cfg w.mapper.buf e) S.init

theorem Setup.Unbroken.lockstep {S : Setup C} {w : World C} (h : S.Unbroken w) :
    Lockstep w.mapper.buf :=
  S.invariant (I := fun w => Lockstep w.mapper.buf) rfl (fun hI hok he => hI.effect hok he) h

/-- A header buffer longer than the cloud buffer stays behind a loop-back. -/
theorem length_lt_of_clears {cfg : Config C} {b : SensorBuffers C} {e : Event C} {w w' : World C}
    {K : Kernel C} (hb : w.mapper.buf = b) (h : Lockstep b) (hc : ClearsScans cfg b e)
    (hst : step cfg K w e = some w') :
    w'.mapper.buf.lidRawDataBuffer.length < w'.mapper.buf.lidHeaderTimeBuffer.length := by
  obtain ⟨hloop, hne⟩ := hc
  have hlen : 0 < b.lidHeaderTimeBuffer.length := by
    rw [h, List.length_map]
    exact List.length_pos_iff.mpr hne
  cases e with
  | standardPcl msg =>
    cases hst
    obtain ⟨hen, hlt⟩ := hloop
    simp [World.setBuf, standardPclCbk, hb, hen, lidarLoopBack, hlt, pushScan, hlen]
  | livoxPcl msg =>
    cases hst
    obtain ⟨hen, hlt⟩ := hloop
    by_cases hcloud : msg.cloud = []
    · simp [World.setBuf, livoxPclCbk, hb, hen, lidarLoopBack, hlt, hcloud, hlen]
    · simp [World.setBuf, livoxPclCbk, hb, hen, lidarLoopBack, hlt, hcloud, pushScan, hlen]
  | imu => exact hloop.elim
  | img => exact hloop.elim
  | rtk => exact hloop.elim
  | navSatFix => exact hloop.elim
  | imuPropTimer => exact hloop.elim
  | spin => exact hloop.elim

theorem lidar_step_survives {cfg : Config C} {K : Kernel C} {w : World C} {e : Event C}
    (h : LoopsBack cfg w.mapper.buf e) : ∃ w', step cfg K w e = some w' := by
  cases e with
  | standardPcl msg => exact ⟨_, rfl⟩
  | livoxPcl msg => exact ⟨_, rfl⟩
  | imu => exact h.elim
  | img => exact h.elim
  | rtk => exact h.elim
  | navSatFix => exact h.elim
  | imuPropTimer => exact h.elim
  | spin => exact h.elim

/-- The lockstep holds all along a run exactly when none of its lidar messages
clears waiting scans. -/
theorem lockstep_iff_unbroken (S : Setup C) (es : List (Event C)) :
    (∀ fs w, fs <+: es → exec S.step S.init fs = some w → Lockstep w.mapper.buf) ↔
      ∀ fs e w, fs ++ [e] <+: es → exec S.step S.init fs = some w →
        ¬ClearsScans S.cfg w.mapper.buf e := by
  constructor
  · intro h fs e w hpre hw hc
    have hlock := h fs w ((List.prefix_append fs [e]).trans hpre) hw
    obtain ⟨w', hst⟩ := lidar_step_survives (K := S.kernel) hc.1
    have hlock' := h (fs ++ [e]) w' hpre (exec_snoc.mpr ⟨w, hw, hst⟩)
    have hlt := length_lt_of_clears rfl hlock hc hst
    rw [hlock', List.length_map] at hlt
    exact lt_irrefl _ hlt
  · intro h fs
    induction fs using List.reverseRecOn with
    | nil =>
      intro w _ hw
      cases hw
      rfl
    | append_singleton fs e ih =>
      intro w' hpre hw'
      obtain ⟨w, hw, hst⟩ := exec_snoc.mp hw'
      have hlock := ih w ((List.prefix_append fs [e]).trans hpre) hw
      exact hlock.effect (h fs e w hpre hw) (step_cases hst)

/-- Two scans, the second stamped before the first: one cloud with two headers. -/
theorem lockstep_fails :
    ∃ w, exec Setup.default.step Setup.default.init
        [.standardPcl ⟨⟨1, 0⟩, [{}]⟩, .standardPcl ⟨⟨0, 0⟩, [{}]⟩] = some w ∧
      ¬Lockstep w.mapper.buf :=
  ⟨_, rfl, by decide +kernel⟩

end FastLivo
