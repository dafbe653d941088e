import FastLivo.Mapper.LidarBuffer

/-!
# Re-slicing of the lidar frames

In LIVO mode the frames popped by a LIO step are cut at its image: older points go
to `pcl_proc_cur`, the others wait in `pcl_proc_next`. No point is lost or doubled
on the way. The cut itself respects time for the frames popped by the step, but
`pcl_proc_next` of the step before is handed out whole, whatever the image time.
-/

namespace FastLivo

open Lib

variable {C : Carrier}

@[simp] theorem PointType.key_rebase (a b : Double) (p : PointType) :
    (p.rebase a b).key = p.key := rfl

@[simp] theorem PointType.acq_rebase (a b : Double) (p : PointType) :
    (p.rebase a b).acq = p.acq := rfl

theorem PointType.offset_rebase (a b : Double) (p : PointType) :
    (p.rebase a b).offset = p.offset + (a - b) := by
  simp only [offset, rebase]
  ring

/-- Frames a call popped, from the buffers before and after it. -/
theorem SyncRecord.popped_eq {s t : LIVMapper C} {popped : List Scan}
    (h : s.buf.lidRawDataBuffer = popped ++ t.buf.lidRawDataBuffer) :
    (SyncRecord.of s t).popped = popped := by
  simp only [SyncRecord.of, h, List.length_append, Nat.add_sub_cancel]
  exact List.take_left

/-! ## No point is lost or doubled -/

/-- Points of all frames popped so far. -/
def History.popped (h : History C) : List PointType :=
  h.syncs.flatMap fun r => r.popped.flatMap Scan.points

/-- Points of `pcl_proc_cur` in all LIO steps so far. -/
def History.handedOut (h : History C) : List PointType :=
  (h.syncs.filter fun r => decide (r.flg = .lio)).flatMap SyncRecord.cur

/-- Points up to their curvature, with multiplicity. -/
def keys (pts : List PointType) : Multiset PointType := (pts.map PointType.key : List PointType)

@[simp] theorem keys_nil : keys [] = 0 := rfl

@[simp] theorem keys_append (pts pts' : List PointType) : keys (pts ++ pts') = keys pts + keys pts' := by
  simp only [keys, List.map_append, Multiset.coe_add]

theorem keys_rebase (a b : Double) (pts : List PointType) :
    keys (pts.map (PointType.rebase a b)) = keys pts := by
  simp only [keys, List.map_map]
  rfl

theorem keys_perm {pts pts' : List PointType} (h : pts.Perm pts') : keys pts = keys pts' :=
  Multiset.coe_eq_coe.mpr (h.map _)

/-- A popped frame is shared out between the two clouds. -/
theorem frame_keys (lastLio lioTime : Double) (f : Scan × Double) :
    keys (frameCur lastLio lioTime f) + keys (frameNext lioTime f) = keys f.1.points := by
  unfold frameCur frameNext
  rw [keys_rebase, keys_rebase, ← keys_append]
  exact keys_perm (List.filter_append_perm _ _)

theorem frames_keys (lastLio lioTime : Double) (popped : List (Scan × Double)) :
    keys (popped.flatMap (frameCur lastLio lioTime)) + keys (popped.flatMap (frameNext lioTime)) =
      keys ((popped.map (·.1)).flatMap Scan.points) := by
  induction popped with
  | nil => simp
  | cons f popped ih =>
    simp only [List.flatMap_cons, List.map_cons, keys_append]
    rw [← frame_keys lastLio lioTime f, ← ih]
    abel

/-- Popped points are handed out or waiting. -/
def Conserved (h : History C) (next : List PointType) : Prop :=
  keys h.popped = keys h.handedOut + keys next

theorem Conserved.sync {cfg : Config C} {s t : LIVMapper C} {h h' : History C}
    (hc : Conserved h s.meas.pclProcNext) (hs : LivoSync cfg s true t)
    (hsyncs : h'.syncs = h.syncs ++ [.of s t]) : Conserved h' t.meas.pclProcNext := by
  unfold Conserved History.popped History.handedOut at hc ⊢
  simp only [hsyncs, List.flatMap_append, List.filter_append, keys_append, List.flatMap_singleton]
  cases hs with
  | lio hflg hlast htime himu hlio hnew hcut =>
    obtain ⟨popped, hraw, -, hcur, hnext⟩ := sliceLidar_cases hcut
    rw [SyncRecord.popped_eq hraw, hc, ← frames_keys]
    simp only [SyncRecord.of, decide_true, List.filter_cons_of_pos, List.filter_nil,
      List.flatMap_singleton, hcur, hnext, keys_append, List.nil_append]
    abel
  | vio hflg himu hbuf htime =>
    simp [SyncRecord.of, hc]

theorem Conserved.effect {cfg : Config C} {w w' : World C} {e : Event C}
    (hm : cfg.slamMode = .livo) (hc : Conserved w.hist w.mapper.meas.pclProcNext)
    (he : StepEffect cfg w e w') : Conserved w'.hist w'.mapper.meas.pclProcNext := by
  cases he with
  | aside ha =>
    unfold Conserved History.popped History.handedOut
    rw [ha.syncs, ha.meas]
    exact hc
  | lidar => exact hc
  | img => exact hc
  | imu _ hw =>
    unfold Conserved History.popped History.handedOut
    rw [hw.syncs, hw.meas]
    exact hc
  | wait hs =>
    cases syncPackages_livo hm hs <;> exact hc
  | sync hs hp hsyncs =>
    obtain ⟨measures, lastLio, idx, hmeas⟩ := hp.meas
    rw [hmeas]
    exact hc.sync (syncPackages_livo hm hs) hsyncs

/-- In every run the points of the popped frames are those handed out by the LIO
steps and those still waiting, with multiplicity. -/
theorem slicing_conserves_points (S : Setup C) (hm : S.cfg.slamMode = .livo) (w : World C)
    (hw : S.Reachable w) :
    keys w.hist.popped = keys w.hist.handedOut + keys w.mapper.meas.pclProcNext :=
  S.invariant (I := fun w => Conserved w.hist w.mapper.meas.pclProcNext) rfl
    (fun hc _ he => hc.effect hm he) hw

/-- A LIO–VIO pair on two scans. -/
theorem slicing_conserves_points_run :
    ∃ w, exec Setup.default.step Setup.default.init twoImages = some w ∧
      w.hist.handedOut.length = 2 ∧
      keys w.hist.popped = keys w.hist.handedOut + keys w.mapper.meas.pclProcNext := by
  have hrun : (exec Setup.default.step Setup.default.init twoImages).any
      (fun w => w.hist.handedOut.length == 2) = true := by decide +kernel
  obtain ⟨w, hw, hlen⟩ := exists_exec_of_any _ hrun
  exact ⟨w, hw, by simpa using hlen, slicing_conserves_points _ rfl _ (.of_exec hw)⟩

/-! ## Times at the cut -/

/-- Points carry the time of their scan. -/
def Scan.Stamped (s : Scan) : Prop := ∀ p ∈ s.points, p.acq = s.headerTime + p.offset

theorem makeScan_stamped (t : Double) (n : Nat) (cloud : List PointType) :
    (makeScan t n cloud).Stamped := by
  intro p hp
  obtain ⟨q, -, rfl⟩ := List.mem_map.mp hp
  rfl

/-- What the frames popped by a LIO step contribute: points are re-based to the last
update or to the step's own time, and cut at the latter. -/
def SyncRecord.CutFresh (r : SyncRecord C) : Prop :=
  ∃ fresh, r.cur = r.carried ++ fresh ∧
    (∀ p ∈ fresh, p.acq = r.lastLio + p.offset ∧ p.acq ≤ r.group.lioTime) ∧
    ∀ p ∈ r.next, p.acq = r.group.lioTime + p.offset ∧ r.group.lioTime ≤ p.acq

theorem mem_frameCur {lastLio lioTime : Double} {f : Scan × Double} {p : PointType}
    (hf : f.1.Stamped) (hhdr : f.2 = f.1.headerTime) (hp : p ∈ frameCur lastLio lioTime f) :
    p.acq = lastLio + p.offset ∧ p.acq ≤ lioTime := by
  obtain ⟨q, hq, rfl⟩ := List.mem_map.mp hp
  obtain ⟨hmem, hcut⟩ := List.mem_filter.mp hq
  have hacq := hf q hmem
  have hlt := of_decide_eq_true hcut
  rw [PointType.acq_rebase, PointType.offset_rebase, hacq, hhdr]
  rw [hhdr] at hlt
  unfold PointType.offset
  constructor
  · ring
  · linarith

theorem mem_frameNext {lioTime : Double} {f : Scan × Double} {p : PointType}
    (hf : f.1.Stamped) (hhdr : f.2 = f.1.headerTime) (hp : p ∈ frameNext lioTime f) :
    p.acq = lioTime + p.offset ∧ lioTime ≤ p.acq := by
  obtain ⟨q, hq, rfl⟩ := List.mem_map.mp hp
  obtain ⟨hmem, hcut⟩ := List.mem_filter.mp hq
  have hacq := hf q hmem
  have hle : (lioTime - f.2) * 1000 ≤ q.curvature := by simpa using hcut
  rw [PointType.acq_rebase, PointType.offset_rebase, hacq, hhdr]
  rw [hhdr] at hle
  unfold PointType.offset
  constructor
  · ring
  · linarith

/-- The buffered scans are paired with their headers and stamped, and so were all
frames cut so far. -/
structure CutInv (w : World C) : Prop where
  lockstep : Lockstep w.mapper.buf
  stamped : ∀ s ∈ w.mapper.buf.lidRawDataBuffer, s.Stamped
  fresh : ∀ r ∈ w.hist.syncs, r.flg = .lio → r.CutFresh

theorem Scan.Stamped.push {b b' : SensorBuffers C} (h : ∀ s ∈ b.lidRawDataBuffer, s.Stamped)
    (hp : LidarPush b b') : ∀ s ∈ b'.lidRawDataBuffer, s.Stamped := by
  cases hp with
  | ignored => exact h
  | pushed t cloud =>
    intro s hs
    rcases List.mem_append.mp hs with hs | hs
    · exact h s hs
    · rw [List.mem_singleton.mp hs]
      exact makeScan_stamped _ _ _

theorem Scan.Stamped.sync {cfg : Config C} {s t : LIVMapper C} {ok : Bool}
    (h : ∀ sc ∈ s.buf.lidRawDataBuffer, sc.Stamped) (hs : syncPackages cfg s = some (ok, t)) :
    ∀ sc ∈ t.buf.lidRawDataBuffer, sc.Stamped := by
  obtain ⟨popped, hraw, -⟩ := syncPackages_pop hs
  intro sc hsc
  exact h sc (hraw ▸ List.mem_append_right _ hsc)

theorem cutFresh_of {cfg : Config C} {s t : LIVMapper C} (hlock : Lockstep s.buf)
    (hst : ∀ sc ∈ s.buf.lidRawDataBuffer, sc.Stamped) (hs : LivoSync cfg s true t)
    (hflg : (SyncRecord.of s t).flg = .lio) : (SyncRecord.of s t).CutFresh := by
  cases hs with
  | vio => cases hflg
  | @lio _ lastLio lioTime _ _ _ _ _ _ _ _ _ _ _ hcut =>
    obtain ⟨popped, hraw, hhdr, hcur, hnext⟩ := sliceLidar_cases hcut
    have hpair : popped.map (·.2) = popped.map fun f => f.1.headerTime := by
      rw [Lockstep, hraw, hhdr, List.map_append, List.map_map] at hlock
      exact (List.append_inj hlock (by simp)).1
    have hf : ∀ f ∈ popped, f.1.Stamped ∧ f.2 = f.1.headerTime := fun f hf =>
      ⟨hst f.1 (hraw ▸ List.mem_append_left _ (List.mem_map_of_mem hf)), List.map_inj_left.mp hpair f hf⟩
    refine ⟨_, hcur, ?_, ?_⟩
    · intro p hp
      obtain ⟨f, hmem, hp⟩ := List.mem_flatMap.mp hp
      simpa [SyncRecord.of] using mem_frameCur (hf f hmem).1 (hf f hmem).2 hp
    · intro p hp
      have hp' : p ∈ popped.flatMap (frameNext lioTime) := by
        simpa [SyncRecord.of, hnext] using hp
      obtain ⟨f, hmem, hp⟩ := List.mem_flatMap.mp hp'
      simpa [SyncRecord.of] using mem_frameNext (hf f hmem).1 (hf f hmem).2 hp

theorem CutInv.effect {cfg : Config C} {w w' : World C} {e : Event C} (hm : cfg.slamMode = .livo)
    (h : CutInv w) (hok : ¬ClearsScans cfg w.mapper.buf e) (he : StepEffect cfg w e w') :
    CutInv w' := by
  have hlock := h.lockstep.effect hok he
  cases he with
  | aside ha => exact ⟨hlock, by rw [ha.buf]; exact h.stamped, by rw [ha.syncs]; exact h.fresh⟩
  | lidar _ hpush => exact ⟨hlock, Scan.Stamped.push h.stamped (hpush hok), h.fresh⟩
  | img hi => exact ⟨hlock, by cases hi <;> exact h.stamped, h.fresh⟩
  | imu hacc hw =>
    obtain ⟨_, _, _, _, _, _, rfl⟩ := acceptImu_cases hacc
    exact ⟨hlock, by rw [hw.buf]; exact h.stamped, by rw [hw.syncs]; exact h.fresh⟩
  | wait hs => exact ⟨hlock, Scan.Stamped.sync h.stamped hs, h.fresh⟩
  | sync hs hp hsyncs =>
    refine ⟨hlock, by rw [hp.buf]; exact Scan.Stamped.sync h.stamped hs, ?_⟩
    rw [hsyncs]
    intro r hr hflg
    rcases List.mem_append.mp hr with hr | hr
    · exact h.fresh r hr hflg
    · rw [List.mem_singleton.mp hr] at hflg ⊢
      exact cutFresh_of h.lockstep h.stamped (syncPackages_livo hm hs) hflg

theorem CutInv.init (S : Setup C) : CutInv S.init :=
  ⟨rfl, by simp [Setup.init, LIVMapper.init], by simp [Setup.init]⟩

theorem Setup.Unbroken.cutInv {S : Setup C} (hm : S.cfg.slamMode = .livo) {w : World C}
    (h : S.Unbroken w) : CutInv w :=
  S.invariant (I := CutInv) (CutInv.init S)
    (fun hI hok he => hI.effect hm hok he) h

/-- The cut of a step respects its time. -/
def SyncRecord.CutInTime (r : SyncRecord C) : Prop :=
  (∀ p ∈ r.cur, p.acq ≤ r.group.lioTime) ∧ ∀ p ∈ r.next, r.group.lioTime ≤ p.acq

instance (r : SyncRecord C) : Decidable r.CutInTime := inferInstanceAs (Decidable (_ ∧ _))

/-- What the step before carried over is not newer than the step's image. -/
def SyncRecord.CarriedInTime (r : SyncRecord C) : Prop := ∀ p ∈ r.carried, p.acq ≤ r.group.lioTime

theorem SyncRecord.CutFresh.cutInTime_iff {r : SyncRecord C} (h : r.CutFresh) :
    r.CutInTime ↔ r.CarriedInTime := by
  obtain ⟨fresh, hcur, hfresh, hnext⟩ := h
  constructor
  · intro hcut p hp
    exact hcut.1 p (hcur ▸ List.mem_append_left _ hp)
  · intro hc
    refine ⟨fun p hp => ?_, fun p hp => (hnext p hp).2⟩
    rcases List.mem_append.mp (hcur ▸ hp) with hp | hp
    · exact hc p hp
    · exact (hfresh p hp).2

/-- In a run that clears no waiting scans, the cuts after the IMU initialisation
respect time exactly when no LIO step inherits a point newer than its image. -/
theorem cut_in_time_iff (S : Setup C) (hm : S.cfg.slamMode = .livo) (w : World C)
    (hw : S.Unbroken w) :
    (∀ r ∈ w.hist.syncs, r.flg = .lio → r.imuReady = true → r.CutInTime) ↔
      ∀ r ∈ w.hist.syncs, r.flg = .lio → r.imuReady = true → r.CarriedInTime := by
  have hfresh := (hw.cutInv hm).fresh
  constructor
  · intro h r hr hflg hready
    exact (hfresh r hr hflg).cutInTime_iff.mp (h r hr hflg hready)
  · intro h r hr hflg hready
    exact (hfresh r hr hflg).cutInTime_iff.mpr (h r hr hflg hready)

/-- Two LIO–VIO pairs on scans that are not cleared. -/
theorem cut_in_time_iff_run :
    ∃ w, Setup.default.Unbroken w ∧ w.hist.syncs.length = 4 ∧
      ((∀ r ∈ w.hist.syncs, r.flg = .lio → r.imuReady = true → r.CutInTime) ↔
        ∀ r ∈ w.hist.syncs, r.flg = .lio → r.imuReady = true → r.CarriedInTime) := by
  have hrun : (exec (fun w e => if ¬ClearsScans Setup.default.cfg w.mapper.buf e then
      Setup.default.step w e else none) Setup.default.init twoImages).any
      (fun w => w.hist.syncs.length == 4) = true := by decide +kernel
  obtain ⟨w, hw, hlen⟩ := exists_exec_of_any _ hrun
  have hreach : Setup.default.Unbroken w := .of_guarded hw
  exact ⟨w, hreach, by simpa using hlen, cut_in_time_iff _ rfl w hreach⟩

/-- The second image comes before the end of the first scan: the point at 1.095 s is
handed to the step of the image at 1.08 s. -/
theorem cut_not_in_time :
    ∃ w, exec Setup.default.step Setup.default.init twoImages = some w ∧
      ∃ r ∈ w.hist.syncs, r.flg = .lio ∧ r.imuReady = true ∧ ¬r.CutInTime := by
  have hrun : (exec Setup.default.step Setup.default.init twoImages).any (fun w =>
      decide (∃ r ∈ w.hist.syncs, r.flg = .lio ∧ r.imuReady = true ∧ ¬r.CutInTime)) = true := by
    decide +kernel
  obtain ⟨w, hw, hlate⟩ := exists_exec_of_any _ hrun
  exact ⟨w, hw, of_decide_eq_true hlate⟩

end FastLivo
