import FastLivo.Mapper.RtkSelection
import FastLivo.Lib.Ghost

/-!
# An RTK observation is used once

An accepted observation gets a number. The slicing pops what it attaches together with
everything in front of it, so attached numbers grow from step to step and stay below the
ones in `rtk_buffer`. `Process2` and `handleLIO` work on `measures.back()`, which is the
entry the call before them pushed.
-/

namespace FastLivo

open Lib

variable {C : Carrier} {cfg : Config C} {K : Kernel C}

/-- Ghost: numbers of the observations attached to a measurement, converted by
`GetRTKCorrectedState` and given to `StateEstimation`. -/
structure RtkLog where
  attached : List Nat := []
  converted : List Nat := []
  fused : List Nat := []

/-- The observation of the measurement that `sync_packages` hands over. -/
def attachedBy (t : LIVMapper C) : List Nat :=
  (t.meas.measures.getLast?.toList.filter fun m => m.rtk.valid).map fun m => m.rtk.seq

/-- The observation that `Process2` gives to `GetRTKCorrectedState`, past its guard. -/
def convertedBy (cfg : Config C) (s : LIVMapper C) : List Nat :=
  (s.meas.measures.getLast?.toList.filter fun m =>
    cfg.imuEn && !s.imu.imuNeedInit && m.rtk.convertible).map fun m => m.rtk.seq

/-- The observation that `handleLIO` gives to `StateEstimation` with `rtk_good`. -/
def fusedBy (s : LIVMapper C) : List Nat :=
  if (s.meas.lioVioFlg = .lio ∨ s.meas.lioVioFlg = .lo) ∧ s.est.featsUndistort.isEmpty = false then
    (s.meas.measures.getLast?.toList.filter fun m => rtkUsable s.rtk m.rtk).map fun m => m.rtk.seq
  else []

/-- The log after the work on the measurement of `t`. -/
def RtkLog.work (S : Setup C) (t : LIVMapper C) (log : RtkLog) : RtkLog where
  attached := log.attached ++ attachedBy t
  converted := log.converted ++ convertedBy S.cfg (handleFirstFrame t)
  fused := log.fused ++ ((processImu S.cfg S.kernel (handleFirstFrame t)).map fusedBy).getD []

def RtkLog.update (S : Setup C) (w : World C) (e : Event C) (_ : World C) (log : RtkLog) : RtkLog :=
  match e, syncPackages S.cfg w.mapper with
  | .spin, some (true, t) => log.work S t
  | _, _ => log

/-- Runs with the log of the observations. -/
def Setup.stepRtk (S : Setup C) : World C × RtkLog → Event C → Option (World C × RtkLog) :=
  withGhost S.step (RtkLog.update S)

def Setup.UsesRtk (S : Setup C) : World C × RtkLog → Prop :=
  Reach S.stepRtk (fun _ _ => True) (S.init, {})

/-! ## One measurement -/

theorem map_seq_back {s : LIVMapper C} {kept : List (MeasureGroup C)} {m : MeasureGroup C}
    (h : s.meas.measures = kept ++ [m]) (p : MeasureGroup C → Bool) :
    (s.meas.measures.getLast?.toList.filter p).map (fun m => m.rtk.seq) =
      if p m then [m.rtk.seq] else [] := by
  rw [h, List.getLast?_concat, Option.toList_some, List.filter_singleton]
  split <;> simp_all

theorem convertedBy_sublist (cfg : Config C) (t : LIVMapper C) :
    (convertedBy cfg (handleFirstFrame t)).Sublist (attachedBy t) := by
  unfold convertedBy attachedBy
  rw [handleFirstFrame_keeps_meas]
  refine List.Sublist.map _ (List.monotone_filter_right _ fun m hm => ?_)
  simp only [RTK.convertible, Bool.and_eq_true] at hm
  exact hm.2.1

theorem fusedBy_sublist {t v : LIVMapper C} {kept : List (MeasureGroup C)} {m : MeasureGroup C}
    (h : t.meas.measures = kept ++ [m]) (hv : processImu cfg K (handleFirstFrame t) = some v) :
    (fusedBy v).Sublist (attachedBy t) := by
  obtain ⟨rtk, hworked, hback⟩ := processImu_back (by rw [handleFirstFrame_keeps_meas, h]) hv
  unfold fusedBy
  split
  · unfold attachedBy
    rw [map_seq_back hback, map_seq_back h]
    simp only [hworked.seq]
    by_cases hgood : rtkUsable v.rtk rtk = true
    · have hvalid : m.rtk.valid = true := by
        refine hworked.valid ?_
        simp only [rtkUsable, Bool.and_eq_true] at hgood
        exact hgood.1.2
      simp [hgood, hvalid]
    · simp [hgood]
  · exact List.nil_sublist _

/-- A step without an entry in `converted` leaves the observation as it was attached. -/
theorem unconverted {t v : LIVMapper C} {kept : List (MeasureGroup C)} {m : MeasureGroup C}
    (h : t.meas.measures = kept ++ [m]) (hv : processImu cfg K (handleFirstFrame t) = some v)
    (hnone : convertedBy cfg (handleFirstFrame t) = []) :
    v.meas.measures = t.meas.measures := by
  have hfirst : (handleFirstFrame t).meas.measures = kept ++ [m] := by
    rw [handleFirstFrame_keeps_meas, h]
  obtain ⟨rtk, hworked, hback⟩ := processImu_back hfirst hv
  have hkept : rtk = m.rtk := by
    refine hworked.kept ?_
    unfold convertedBy at hnone
    rw [map_seq_back hfirst] at hnone
    split at hnone
    · cases hnone
    · simp_all
  rw [hback, hkept, h]

/-! ## Slicing -/

/-- What is attached is popped, and everything in front of it too. -/
theorem sliceLivoRtk_pops {r : RtkFrontend C} (hq : RtkQueue cfg r) (lastLio lioTime : Double)
    (hvalid : (sliceLivoRtk cfg lastLio lioTime r).1.valid = true) :
    (sliceLivoRtk cfg lastLio lioTime r).1 ∈ r.rtkBuffer ∧
      ∀ q ∈ (sliceLivoRtk cfg lastLio lioTime r).2.rtkBuffer,
        (sliceLivoRtk cfg lastLio lioTime r).1.seq < q.seq := by
  unfold sliceLivoRtk at hvalid ⊢
  split at hvalid
  · rename_i hon
    simp only [hon, if_true] at hvalid ⊢
    rcases sliceRtk_cases hq.valid lastLio lioTime with ⟨-, hdefault⟩ | ⟨pre, rtk, post, hbuffer, hin, hpre, hpost, hrtk⟩
    · rw [hdefault] at hvalid
      cases hvalid
    · have hmem : rtk ∈ r.rtkBuffer := hbuffer ▸ List.mem_append_right _ List.mem_cons_self
      rw [hrtk]
      refine ⟨hmem, fun q hqrest => ?_⟩
      have hpopped : rtk ∈ popped lioTime r.rtkBuffer := by
        rw [hbuffer, popped_append _ _ hpre]
        refine List.mem_append_right _ ?_
        have hfront : popped lioTime (rtk :: post) = rtk :: popped lioTime post :=
          popped_append [rtk] post (by simpa using hin.2)
        rw [hfront]
        exact List.mem_cons_self
      have hsplit : r.rtkBuffer = popped lioTime r.rtkBuffer ++
          r.rtkBuffer.dropWhile fun q => !decide (lioTime < q.timestamp) :=
        List.takeWhile_append_dropWhile.symm
      have hnumbered := hq.numbered
      rw [hsplit] at hnumbered
      rw [sliceRtk_eq] at hqrest
      exact (List.pairwise_append.mp hnumbered).2.2 rtk hpopped q hqrest
  · cases hvalid

/-- A call that hands over a measurement, by its observation and `rtk_buffer`. -/
structure HandsOver (s t : LIVMapper C) (m : MeasureGroup C) : Prop where
  measures : ∃ kept, t.meas.measures = kept ++ [m]
  buffer : t.rtk.rtkBuffer <:+ s.rtk.rtkBuffer
  seq : t.rtk.rtkSeq = s.rtk.rtkSeq
  pops : m.rtk.valid = true → m.rtk ∈ s.rtk.rtkBuffer ∧ ∀ q ∈ t.rtk.rtkBuffer, m.rtk.seq < q.seq

theorem LivoSync.handsOver {s t : LIVMapper C} (h : LivoSync cfg s true t)
    (hq : RtkQueue cfg s.rtk) : ∃ m, HandsOver s t m := by
  cases h with
  | @lio time lastLio lioTime =>
    obtain ⟨hbuf, hseq, -⟩ := sliceLivoRtk_kept cfg lastLio lioTime s.rtk
    exact ⟨_, ⟨_, rfl⟩, hbuf, hseq, sliceLivoRtk_pops hq lastLio lioTime⟩
  | vio => exact ⟨_, ⟨[], rfl⟩, List.suffix_refl _, rfl, fun h => by cases h⟩

/-! ## Runs -/

/-- Attached observations are behind the buffer, the converted and fused ones among them. -/
structure RtkOnce (cfg : Config C) (r : RtkFrontend C) (log : RtkLog) : Prop where
  queue : RtkQueue cfg r
  attached : log.attached.Pairwise (· < ·)
  accepted : ∀ n ∈ log.attached, n < r.rtkSeq
  ahead : ∀ n ∈ log.attached, ∀ q ∈ r.rtkBuffer, n < q.seq
  converted : log.converted.Sublist log.attached
  fused : log.fused.Sublist log.attached

theorem RtkOnce.move {r r' : RtkFrontend C} {log : RtkLog} (h : RtkOnce cfg r log)
    (hm : RtkMove cfg r r') : RtkOnce cfg r' log := by
  refine ⟨h.queue.move hm, h.attached, ?_, ?_, h.converted, h.fused⟩
  · intro n hn
    cases hm with
    | same hbuf hseq hini => exact hseq ▸ h.accepted n hn
    | push rtk k hen hvalid hnum hbuf hseq =>
      rw [hseq]
      exact (h.accepted n hn).trans (Nat.lt_succ_self _)
  · intro n hn q hq
    cases hm with
    | same hbuf hseq hini => exact h.ahead n hn q (hbuf ▸ hq)
    | push rtk k hen hvalid hnum hbuf hseq =>
      rw [hbuf] at hq
      rcases List.mem_append.mp (List.mem_of_mem_drop hq) with hold | hnew
      · exact h.ahead n hn q hold
      · rw [List.mem_singleton.mp hnew, hnum]
        exact h.accepted n hn

theorem attachedBy_eq {t : LIVMapper C} {kept : List (MeasureGroup C)} {m : MeasureGroup C}
    (h : t.meas.measures = kept ++ [m]) :
    attachedBy t = if m.rtk.valid then [m.rtk.seq] else [] :=
  map_seq_back h fun m => m.rtk.valid

theorem RtkOnce.work {S : Setup C} {s t u : LIVMapper C} {log : RtkLog}
    {out : List (Output C)} {m : MeasureGroup C} (h : RtkOnce S.cfg s.rtk log)
    (hover : HandsOver s t m) (hqueue : RtkQueue S.cfg t.rtk)
    (hwork : processMeasures S.cfg S.kernel t = some (u, out)) :
    RtkOnce S.cfg u.rtk (log.work S t) := by
  obtain ⟨kept, hmeas⟩ := hover.measures
  have hrtk := processMeasures_rtk hwork
  -- The one number that the call can add.
  have hnew : ∀ n ∈ attachedBy t, m.rtk.valid = true ∧ n = m.rtk.seq := by
    intro n hn
    rw [attachedBy_eq hmeas] at hn
    split at hn
    · exact ⟨by assumption, List.mem_singleton.mp hn⟩
    · cases hn
  refine ⟨hqueue.suffix (hrtk.buffer ▸ List.suffix_refl _) hrtk.seq hrtk.ini, ?_, ?_, ?_, ?_, ?_⟩
  · refine List.pairwise_append.mpr ⟨h.attached, ?_, fun a ha n hn => ?_⟩
    · rw [attachedBy_eq hmeas]
      split
      · exact List.pairwise_singleton _ _
      · exact List.Pairwise.nil
    · obtain ⟨hvalid, rfl⟩ := hnew n hn
      exact h.ahead a ha m.rtk (hover.pops hvalid).1
  · intro n hn
    rw [hrtk.seq, hover.seq]
    rcases List.mem_append.mp hn with hold | hn
    · exact h.accepted n hold
    · obtain ⟨hvalid, rfl⟩ := hnew n hn
      exact h.queue.below m.rtk (hover.pops hvalid).1
  · intro n hn q hq
    rw [hrtk.buffer] at hq
    rcases List.mem_append.mp hn with hold | hn
    · exact h.ahead n hold q (hover.buffer.subset hq)
    · obtain ⟨hvalid, rfl⟩ := hnew n hn
      exact (hover.pops hvalid).2 q hq
  · exact h.converted.append (convertedBy_sublist S.cfg t)
  · unfold processMeasures at hwork
    obtain ⟨v, himu, -⟩ := Option.bind_eq_some_iff.mp hwork
    refine h.fused.append ?_
    rw [himu, Option.map_some, Option.getD_some]
    exact fusedBy_sublist hmeas himu

theorem RtkLog.update_wait {S : Setup C} {w w' : World C} {t : LIVMapper C}
    (h : syncPackages S.cfg w.mapper = some (false, t)) (e : Event C) (log : RtkLog) :
    RtkLog.update S w e w' log = log := by
  unfold RtkLog.update
  rw [h]
  split
  · rename_i heq
    cases heq
  · rfl

theorem RtkLog.update_callback {S : Setup C} {w w' : World C} {e : Event C} (he : e ≠ .spin)
    (log : RtkLog) : RtkLog.update S w e w' log = log := by
  unfold RtkLog.update
  split
  · exact absurd rfl he
  · rfl

theorem stepRtk_once {S : Setup C} (hm : S.cfg.slamMode = .livo) {w w' : World C} {e : Event C}
    {log : RtkLog} (h : RtkOnce S.cfg w.mapper.rtk log) (hst : S.step w e = some w') :
    RtkOnce S.cfg w'.mapper.rtk (RtkLog.update S w e w' log) := by
  by_cases he : e = .spin
  · subst he
    cases spinOnce_cases hst with
    | wait hsync =>
      rw [RtkLog.update_wait hsync]
      cases syncPackages_livo hm hsync <;> exact h
    | @sync t u out hsync hwork =>
      have hlivo := syncPackages_livo hm hsync
      obtain ⟨m, hover⟩ := hlivo.handsOver h.queue
      have hlog : RtkLog.update S w .spin ⟨u, { w.hist.recordSync w.mapper true t with
          published := w.hist.published ++ out }⟩ log = log.work S t := by
        unfold RtkLog.update
        rw [hsync]
      rw [hlog]
      exact h.work hover (hlivo.rtkQueue h.queue) hwork
  · rw [RtkLog.update_callback he]
    exact h.move (step_rtk_move hst he)

theorem Setup.UsesRtk.once {S : Setup C} (hm : S.cfg.slamMode = .livo) {p : World C × RtkLog}
    (h : S.UsesRtk p) : RtkOnce S.cfg p.1.mapper.rtk p.2 := by
  refine Reach.invariant (I := fun p => RtkOnce S.cfg p.1.mapper.rtk p.2) ?_ ?_ h
  · refine ⟨(Setup.Reachable.rtkQueue hm .start), ?_, ?_, ?_, ?_, ?_⟩ <;> simp
  · intro p q e _ honce _ hst
    obtain ⟨hstep, hlog⟩ := withGhost_cases hst
    rw [hlog]
    exact stepRtk_once hm honce hstep

/-- No accepted observation is attached, converted or fused twice. -/
theorem rtk_used_once (S : Setup C) (hm : S.cfg.slamMode = .livo) (w : World C) (log : RtkLog)
    (h : S.UsesRtk (w, log)) (n : Nat) :
    log.attached.count n ≤ 1 ∧ log.converted.count n ≤ 1 ∧ log.fused.count n ≤ 1 := by
  have honce := h.once hm
  have hdistinct : log.attached.Nodup := honce.attached.imp fun hlt => Nat.ne_of_lt hlt
  exact ⟨List.nodup_iff_count_le_one.mp hdistinct n,
    List.nodup_iff_count_le_one.mp (honce.converted.nodup hdistinct) n,
    List.nodup_iff_count_le_one.mp (honce.fused.nodup hdistinct) n⟩

/-- The fix of 1.10 s is used in the third LIO step, and not in the VIO step after it. -/
theorem rtk_used_once_run :
    ∃ w log, Setup.withRtk.UsesRtk (w, log) ∧ log.fused = [1] ∧
      log.attached.count 1 ≤ 1 ∧ log.converted.count 1 ≤ 1 ∧ log.fused.count 1 ≤ 1 := by
  have hrun : (exec Setup.withRtk.stepRtk (Setup.withRtk.init, {})
      (alignedRun [NavSatFix.at 1 100000000] ++ [.spin, .spin])).any
      (fun p => decide (p.2.fused = [1])) = true := by decide +kernel
  obtain ⟨⟨w, log⟩, hw, htest⟩ := exists_exec_of_any _ hrun
  exact ⟨w, log, .of_exec hw, of_decide_eq_true htest,
    rtk_used_once Setup.withRtk (by decide) w log (.of_exec hw) 1⟩

end FastLivo
