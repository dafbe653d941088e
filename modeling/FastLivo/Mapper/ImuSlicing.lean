import FastLivo.Lib.CutQueue
import FastLivo.Mapper.LivoCycle

/-!
# Slicing of the IMU samples

`imu_buffer` with the LIO steps is a queue cut by intervals (`CutQueue`): accepted
samples are pushed in time order, and a LIO step cuts at its `lio_time` and leaves out
what is not later than `last_lio_update_time`. That lower end comes from an earlier
step or, while it is negative, from a scan header.
-/

namespace FastLivo

open Lib

variable {C : Carrier}

/-- A LIO step as a cut of the sample queue. -/
def SyncRecord.imuCut (r : SyncRecord C) : Cut (Imu C) Double :=
  ⟨r.lastLio, r.group.lioTime, r.imuSeen, r.group.imu⟩

/-- The LIO steps so far as cuts. -/
def imuCuts (syncs : List (SyncRecord C)) : List (Cut (Imu C) Double) :=
  (syncs.filter fun r => decide (r.flg = .lio)).map SyncRecord.imuCut

/-- The abstract queue of a state of the mapper. -/
def World.imuQueue (w : World C) : CutQueue (Imu C) Double :=
  ⟨w.hist.imuAccepted, w.mapper.buf.imuBuffer, imuCuts w.hist.syncs⟩

theorem imuCuts_append (rs rs' : List (SyncRecord C)) :
    imuCuts (rs ++ rs') = imuCuts rs ++ imuCuts rs' := by
  simp [imuCuts]

theorem imuCuts_lio {r : SyncRecord C} (h : r.flg = .lio) : imuCuts [r] = [r.imuCut] := by
  simp [imuCuts, h]

theorem imuCuts_other {r : SyncRecord C} (h : r.flg ≠ .lio) : imuCuts [r] = [] := by
  simp [imuCuts, h]

theorem mem_imuCuts {rs : List (SyncRecord C)} {c : Cut (Imu C) Double} (h : c ∈ imuCuts rs) :
    ∃ r ∈ rs, r.flg = .lio ∧ c = r.imuCut := by
  obtain ⟨r, hr, rfl⟩ := List.mem_map.mp h
  obtain ⟨hr, hflg⟩ := List.mem_filter.mp hr
  exact ⟨r, hr, of_decide_eq_true hflg, rfl⟩

/-- The value was taken from a scan header, or is the time of one of the LIO steps. -/
def Origin (initTimes : List Double) (rs : List (SyncRecord C)) (t : Double) : Prop :=
  t ∈ initTimes ∨ ∃ r ∈ rs, r.flg = .lio ∧ r.group.lioTime = t

theorem Origin.mono {ts ts' : List Double} {rs rs' : List (SyncRecord C)} {t : Double}
    (h : Origin ts rs t) (hts : ∀ x ∈ ts, x ∈ ts') (hrs : ∀ r ∈ rs, r ∈ rs') : Origin ts' rs' t := by
  rcases h with h | ⟨r, hr, h⟩
  · exact .inl (hts t h)
  · exact .inr ⟨r, hrs r hr, h⟩

/-- Invariant of the samples: the abstract queue is valid, and the lower ends of the
cuts never fall behind. `rest` is the LIO step whose VIO step is due. -/
structure ImuInv (cfg : Config C) (w : World C) (rest : Option (SyncRecord C)) : Prop where
  valid : w.imuQueue.Valid Imu.sec
  count : w.mapper.buf.imuSeq = w.hist.imuAccepted.length
  seqs : ∀ m ∈ w.hist.imuAccepted, m.seq < w.mapper.buf.imuSeq
  stamps : ∀ m ∈ w.hist.imuAccepted,
    0 ≤ m.sec ∧ m.sec ≤ (rosTime w.mapper.buf.lastTimestampImu).toSec
  enabled : w.mapper.buf.imuBuffer ≠ [] → cfg.imuEn = true
  others : ∀ r ∈ w.hist.syncs, r.flg ≠ .lio → r.group.imu = []
  lows : ∀ r ∈ w.hist.syncs, r.flg = .lio →
    r.lastLio < 0 ∨ r.lastLio ≤ w.mapper.meas.lastLioUpdateTime
  last : w.mapper.meas.lastLioUpdateTime < 0 ∨
    Origin w.hist.initTimes w.hist.syncs w.mapper.meas.lastLioUpdateTime
  origin : ∀ rs r rs', w.hist.syncs = rs ++ r :: rs' → r.flg = .lio →
    Origin w.hist.initTimes rs r.lastLio
  due : ∀ l ∈ rest, w.mapper.meas.lastLioUpdateTime ≤ l.group.lioTime

section Effects

variable {cfg : Config C} {w w' : World C} {rest : Option (SyncRecord C)}

/-- Effects on neither samples nor intervals. -/
theorem ImuInv.congr (h : ImuInv cfg w rest)
    (hq : w'.mapper.buf.imuBuffer = w.mapper.buf.imuBuffer)
    (hn : w'.mapper.buf.imuSeq = w.mapper.buf.imuSeq)
    (ht : w'.mapper.buf.lastTimestampImu = w.mapper.buf.lastTimestampImu)
    (hl : w'.mapper.meas.lastLioUpdateTime = w.mapper.meas.lastLioUpdateTime)
    (hs : w'.hist.syncs = w.hist.syncs) (ha : w'.hist.imuAccepted = w.hist.imuAccepted)
    (hi : w'.hist.initTimes = w.hist.initTimes) : ImuInv cfg w' rest where
  valid := by
    unfold World.imuQueue
    rw [hq, hs, ha]
    exact h.valid
  count := by rw [hn, ha]; exact h.count
  seqs := by rw [hn, ha]; exact h.seqs
  stamps := by rw [ha, ht]; exact h.stamps
  enabled := by rw [hq]; exact h.enabled
  others := by rw [hs]; exact h.others
  lows := by rw [hs, hl]; exact h.lows
  last := by rw [hl, hi, hs]; exact h.last
  origin := by rw [hs, hi]; exact h.origin
  due := by rw [hl]; exact h.due

/-- An accepted sample is a push: it is new and not earlier than the ones before. -/
theorem ImuInv.accept {msg : ImuMsg C} {m : Imu C} {b : SensorBuffers C}
    (h : ImuInv cfg w rest) (hacc : acceptImu cfg msg w.mapper.buf = some (m, b))
    (hw : Aside ⟨{ w.mapper with buf := b },
      { w.hist with imuAccepted := w.hist.imuAccepted ++ [m] }⟩ w') : ImuInv cfg w' rest := by
  have hstamp : ∀ a ∈ w.hist.imuAccepted, a.sec ≤ m.sec := fun a ha =>
    (h.stamps a ha).2.trans (acceptImu_not_earlier hacc)
  obtain ⟨timestamp, hen, -, hsec, hseq, -, rfl⟩ := acceptImu_cases hacc
  refine
    { valid := ?_, count := ?_, seqs := ?_, stamps := ?_, enabled := fun _ => hen, others := ?_
      lows := ?_, last := ?_, origin := ?_, due := ?_ }
  · have hstep : w.imuQueue.Step Imu.sec (w.imuQueue.push m) :=
      .push m (fun hm => absurd (h.seqs m hm) (by omega)) hstamp
    have hq : w'.imuQueue = w.imuQueue.push m := by
      simp only [World.imuQueue, hw.buf, hw.syncs, hw.imuAccepted]
      rfl
    rw [hq]
    exact h.valid.step hstep
  · rw [hw.buf, hw.imuAccepted, List.length_append, ← h.count]
    rfl
  · rw [hw.buf, hw.imuAccepted]
    intro a ha
    rcases List.mem_append.mp ha with ha | ha
    · exact (h.seqs a ha).trans (Nat.lt_succ_self _)
    · rw [List.mem_singleton.mp ha, hseq]
      exact Nat.lt_succ_self _
  · rw [hw.buf, hw.imuAccepted]
    intro a ha
    rcases List.mem_append.mp ha with ha | ha
    · exact ⟨(h.stamps a ha).1, (hstamp a ha).trans hsec.le⟩
    · rw [List.mem_singleton.mp ha, hsec]
      exact ⟨toSec_rosTime_nonneg _, le_rfl⟩
  · rw [hw.syncs]; exact h.others
  · rw [hw.syncs, hw.meas]; exact h.lows
  · rw [hw.meas, hw.initTimes, hw.syncs]; exact h.last
  · rw [hw.syncs, hw.initTimes]; exact h.origin
  · rw [hw.meas]; exact h.due

/-- The guard on `last_lio_update_time`: lower ends used so far are negative or not
later than the value it leaves. -/
theorem ImuInv.lows_of_lastLio {lastLio : Double} (h : ImuInv cfg w rest)
    (hlast : LastLio w.mapper lastLio) {r : SyncRecord C} (hr : r ∈ w.hist.syncs)
    (hflg : r.flg = .lio) : r.lastLio < 0 ∨ r.lastLio ≤ lastLio := by
  rcases h.lows r hr hflg with hneg | hle
  · exact .inl hneg
  · rcases hlast with ⟨hneg, -⟩ | ⟨-, rfl⟩
    · exact .inl (hle.trans_lt hneg)
    · exact .inr hle

/-- The value the guard leaves has an origin. -/
theorem ImuInv.origin_of_lastLio {lastLio : Double} {ok : Bool} {t : LIVMapper C}
    (h : ImuInv cfg w rest) (hlast : LastLio w.mapper lastLio)
    (ht : t.meas.lastLioUpdateTime = lastLio) :
    Origin (w.hist.recordSync w.mapper ok t).initTimes w.hist.syncs lastLio := by
  unfold History.recordSync
  rcases hlast with ⟨hneg, -⟩ | ⟨hpos, rfl⟩
  · simp [Origin, hneg, ht]
  · simp only [not_lt.mpr hpos, if_false]
    exact h.last.resolve_left (not_lt.mpr hpos)

theorem mem_initTimes {s t : LIVMapper C} {ok : Bool} {h : History C} {x : Double}
    (hx : x ∈ h.initTimes) : x ∈ (h.recordSync s ok t).initTimes := by
  simp only [History.recordSync]
  split
  · exact List.mem_append_left _ hx
  · exact hx

theorem ImuInv.wait {t : LIVMapper C} (h : ImuInv cfg w rest)
    (hflag : rest.isSome → w.mapper.meas.lioVioFlg = .lio) (hs : LivoSync cfg w.mapper false t) :
    ImuInv cfg ⟨t, w.hist.recordSync w.mapper false t⟩ rest := by
  have hrest : w.mapper.meas.lioVioFlg ≠ .lio → rest = none := fun hne => by
    rw [← Option.not_isSome_iff_eq_none]
    exact fun hsome => hne (hflag hsome)
  have hmove : ∀ {lastLio : Double} {b : SensorBuffers C} {est : Estimation C},
      LastLio w.mapper lastLio → w.mapper.meas.lioVioFlg ≠ .lio →
      b.imuBuffer = w.mapper.buf.imuBuffer → b.imuSeq = w.mapper.buf.imuSeq →
      b.lastTimestampImu = w.mapper.buf.lastTimestampImu →
      let t := { w.mapper with
        buf := b, meas := { w.mapper.meas with lastLioUpdateTime := lastLio }, est := est }
      ImuInv cfg ⟨t, w.hist.recordSync w.mapper false t⟩ rest := by
    intro lastLio b est hlast hflg hq hn ht
    exact
      { valid := by
          unfold World.imuQueue
          simp only [hq]
          exact h.valid
        count := hn.trans h.count
        seqs := fun m hm => (h.seqs m hm).trans_eq hn.symm
        stamps := fun m hm => by rw [ht]; exact h.stamps m hm
        enabled := by rw [hq]; exact h.enabled
        others := h.others
        lows := fun r hr hflg => h.lows_of_lastLio hlast hr hflg
        last := .inr (h.origin_of_lastLio hlast rfl)
        origin := fun rs r rs' hsplit hflg =>
          (h.origin rs r rs' hsplit hflg).mono (fun _ => mem_initTimes) fun _ => id
        due := by simp [hrest hflg] }
  cases hs with
  | idle =>
    exact
      { valid := h.valid, count := h.count, seqs := h.seqs, stamps := h.stamps
        enabled := h.enabled, others := h.others, lows := h.lows
        last := h.last.imp id fun ho => ho.mono (fun _ => mem_initTimes) fun _ => id
        origin := fun rs r rs' hsplit hflg =>
          (h.origin rs r rs' hsplit hflg).mono (fun _ => mem_initTimes) fun _ => id
        due := h.due }
  | hold hflg hlast => exact hmove hlast hflg rfl rfl rfl
  | throwImage hflg hlast => exact hmove hlast hflg rfl rfl rfl

/-- The LIO half is a cut of the queue at the interval of its record. -/
theorem ImuInv.lio {t : LIVMapper C} {r : SyncRecord C} {lastLio lioTime : Double}
    (h : ImuInv cfg w none) (hlast : LastLio w.mapper lastLio) (hnew : lastLio ≤ lioTime)
    (himu : w.mapper.buf.imuBuffer ≠ []) (hp : Processed cfg t w'.mapper)
    (hsyncs : w'.hist.syncs = w.hist.syncs ++ [r])
    (haccepted : w'.hist.imuAccepted = w.hist.imuAccepted)
    (hinit : w'.hist.initTimes = (w.hist.recordSync w.mapper true t).initTimes)
    (hr : r = .of w.mapper t) (hflg : t.meas.lioVioFlg = .lio)
    (htl : t.meas.lastLioUpdateTime = lastLio)
    (htb : t.buf.imuBuffer = (sliceImu lastLio lioTime w.mapper.buf.imuBuffer).2)
    (htn : t.buf.imuSeq = w.mapper.buf.imuSeq)
    (htt : t.buf.lastTimestampImu = w.mapper.buf.lastTimestampImu)
    (hback : ∀ m ∈ t.meas.measures.getLast?, m = r.group ∧ m.lioTime = lioTime ∧
      m.imu = (sliceImu lastLio lioTime w.mapper.buf.imuBuffer).1) : ImuInv cfg w' (some r) := by
  obtain ⟨m, hm, hwork⟩ := hp.imu (h.enabled himu)
  obtain ⟨rfl, hmt, hmi⟩ := hback m hm
  have hrflg : r.flg = .lio := by rw [hr]; exact hflg
  have hrlast : r.lastLio = lastLio := by rw [hr]; exact htl
  have hstamp : ∀ a ∈ w.hist.imuAccepted, 0 ≤ a.sec := fun a ha => (h.stamps a ha).1
  have hstep : w.imuQueue.Step Imu.sec (w.imuQueue.cut Imu.sec lastLio lioTime) := by
    refine .cut lastLio lioTime fun c hc a ha hle => ?_
    obtain ⟨d, hd, hdflg, rfl⟩ := mem_imuCuts hc
    rcases h.lows_of_lastLio hlast hd hdflg with hneg | hlow
    · exact absurd (hle.trans_lt hneg) (not_lt.mpr (hstamp a ha))
    · exact hle.trans hlow
  have hcut : r.imuCut = w.imuQueue.nextCut Imu.sec lastLio lioTime := by
    have hseen : r.imuSeen = w.hist.imuAccepted.length := by rw [hr]; exact h.count
    simp only [SyncRecord.imuCut, hrlast, hmt, hmi, hseen]
    rfl
  have hq : w'.imuQueue = w.imuQueue.cut Imu.sec lastLio lioTime := by
    unfold World.imuQueue
    rw [haccepted, hsyncs, hp.buf, htb, imuCuts_append, imuCuts_lio hrflg, hcut]
    rfl
  -- the work either keeps the lower end or moves it to the step's own time
  have hwlast : w'.mapper.meas.lastLioUpdateTime = lastLio ∨
      w'.mapper.meas.lastLioUpdateTime = lioTime := by
    cases hwork with
    | init _ _ _ _ hl => exact .inl (hl.trans htl)
    | propagate _ _ _ _ hl =>
      right
      rw [hl (.inl hflg), propEndTime, if_pos hflg, hmt]
  have hge : lastLio ≤ w'.mapper.meas.lastLioUpdateTime := by
    rcases hwlast with hl | hl <;> rw [hl]
    exact hnew
  have horigin : Origin w'.hist.initTimes w.hist.syncs lastLio := by
    rw [hinit]
    exact h.origin_of_lastLio hlast htl
  refine
    { valid := by rw [hq]; exact h.valid.step hstep
      count := by rw [hp.buf, htn, haccepted]; exact h.count
      seqs := by rw [hp.buf, htn, haccepted]; exact h.seqs
      stamps := by rw [hp.buf, htt, haccepted]; exact h.stamps
      enabled := fun _ => h.enabled himu
      others := ?_, lows := ?_, last := ?_, origin := ?_, due := ?_ }
  · rw [hsyncs]
    intro d hd hdflg
    rcases List.mem_append.mp hd with hd | hd
    · exact h.others d hd hdflg
    · rw [List.mem_singleton.mp hd] at hdflg
      exact absurd hrflg hdflg
  · rw [hsyncs]
    intro d hd hdflg
    rcases List.mem_append.mp hd with hd | hd
    · exact (h.lows_of_lastLio hlast hd hdflg).imp id fun hle => hle.trans hge
    · rw [List.mem_singleton.mp hd, hrlast]
      exact .inr hge
  · right
    rcases hwlast with hl | hl <;> rw [hl, hsyncs]
    · exact horigin.mono (fun _ => id) fun _ => List.mem_append_left _
    · exact .inr ⟨r, List.mem_append_right _ List.mem_cons_self, hrflg, hmt⟩
  · rw [hsyncs]
    intro rs d rs' hsplit hdflg
    rcases snoc_eq_append_cons hsplit with ⟨rfl, rfl⟩ | ⟨rs'', hold⟩
    · rw [hrlast]
      exact horigin
    · rw [hinit]
      exact (h.origin rs d rs'' hold hdflg).mono (fun _ => mem_initTimes) fun _ => id
  · intro l hl
    cases hl
    rw [hmt]
    rcases hwlast with hl | hl <;> rw [hl]
    exact hnew

/-- The VIO half touches no sample and moves the lower end to the time of its pair. -/
theorem ImuInv.vio {t : LIVMapper C} {r l : SyncRecord C} (h : ImuInv cfg w (some l))
    (himu : w.mapper.buf.imuBuffer ≠ []) (hl : l ∈ w.hist.syncs) (hlflg : l.flg = .lio)
    (hp : Processed cfg t w'.mapper) (hsyncs : w'.hist.syncs = w.hist.syncs ++ [r])
    (haccepted : w'.hist.imuAccepted = w.hist.imuAccepted)
    (hinit : w'.hist.initTimes = (w.hist.recordSync w.mapper true t).initTimes)
    (hr : r = .of w.mapper t) (hflg : t.meas.lioVioFlg = .vio)
    (htl : t.meas.lastLioUpdateTime = w.mapper.meas.lastLioUpdateTime)
    (htb : t.buf.imuBuffer = w.mapper.buf.imuBuffer)
    (htn : t.buf.imuSeq = w.mapper.buf.imuSeq)
    (htt : t.buf.lastTimestampImu = w.mapper.buf.lastTimestampImu)
    (hback : ∀ m ∈ t.meas.measures.getLast?, m = r.group ∧ m.vioTime = l.group.lioTime ∧
      m.imu = []) : ImuInv cfg w' none := by
  obtain ⟨m, hm, hwork⟩ := hp.imu (h.enabled himu)
  obtain ⟨rfl, hmt, hmi⟩ := hback m hm
  have hrflg : r.flg = .vio := by rw [hr]; exact hflg
  have hne : r.flg ≠ .lio := by rw [hrflg]; simp
  have hq : w'.imuQueue = w.imuQueue := by
    unfold World.imuQueue
    rw [haccepted, hsyncs, hp.buf, htb, imuCuts_append, imuCuts_other hne, List.append_nil]
  have hwlast : w'.mapper.meas.lastLioUpdateTime = w.mapper.meas.lastLioUpdateTime ∨
      w'.mapper.meas.lastLioUpdateTime = l.group.lioTime := by
    cases hwork with
    | init _ _ _ _ hl => exact .inl (hl.trans htl)
    | propagate _ _ _ _ hl =>
      right
      rw [hl (.inr hflg), propEndTime, hflg, if_neg (by simp), hmt]
  have hge : w.mapper.meas.lastLioUpdateTime ≤ w'.mapper.meas.lastLioUpdateTime := by
    rcases hwlast with hl | hl <;> rw [hl]
    exact h.due l rfl
  have hmem : ∀ x ∈ w.hist.initTimes, x ∈ w'.hist.initTimes := by
    rw [hinit]
    exact fun _ => mem_initTimes
  refine
    { valid := by rw [hq]; exact h.valid
      count := by rw [hp.buf, htn, haccepted]; exact h.count
      seqs := by rw [hp.buf, htn, haccepted]; exact h.seqs
      stamps := by rw [hp.buf, htt, haccepted]; exact h.stamps
      enabled := fun _ => h.enabled himu
      others := ?_, lows := ?_, last := ?_, origin := ?_, due := by simp }
  · rw [hsyncs]
    intro d hd hdflg
    rcases List.mem_append.mp hd with hd | hd
    · exact h.others d hd hdflg
    · rw [List.mem_singleton.mp hd]
      exact hmi
  · rw [hsyncs]
    intro d hd hdflg
    rcases List.mem_append.mp hd with hd | hd
    · exact (h.lows d hd hdflg).imp id fun hle => hle.trans hge
    · rw [List.mem_singleton.mp hd] at hdflg
      exact absurd hdflg hne
  · rcases hwlast with hl' | hl' <;> rw [hl', hsyncs]
    · exact h.last.imp id fun ho => ho.mono hmem fun _ => List.mem_append_left _
    · exact .inr (.inr ⟨l, List.mem_append_left _ hl, hlflg, rfl⟩)
  · rw [hsyncs]
    intro rs d rs' hsplit hdflg
    rcases snoc_eq_append_cons hsplit with ⟨rfl, rfl⟩ | ⟨rs'', hold⟩
    · exact absurd hdflg hne
    · exact (h.origin rs d rs'' hold hdflg).mono hmem fun _ => id

theorem ImuInv.quiet {e : Event C} (hm : cfg.slamMode = .livo) (h : ImuInv cfg w rest)
    (hflag : rest.isSome → w.mapper.meas.lioVioFlg = .lio) (he : StepEffect cfg w e w')
    (hq : w'.hist.syncs = w.hist.syncs) : ImuInv cfg w' rest := by
  cases he with
  | aside ha =>
    exact h.congr (by rw [ha.buf]) (by rw [ha.buf]) (by rw [ha.buf]) (by rw [ha.meas]) ha.syncs
      ha.imuAccepted ha.initTimes
  | lidar ha =>
    obtain ⟨raw, headers, last, seq, rfl⟩ := ha.frame
    exact h.congr rfl rfl rfl rfl rfl rfl rfl
  | img ha => cases ha <;> exact h.congr rfl rfl rfl rfl rfl rfl rfl
  | imu hacc hw => exact h.accept hacc hw
  | wait hs => exact h.wait hflag (syncPackages_livo hm hs)
  | sync _ _ hsyncs => simp [hsyncs] at hq

/-- The invariants of images and samples together. -/
theorem ImuInv.effect {e : Event C} {pairs : List (SyncRecord C × SyncRecord C)}
    (hm : cfg.slamMode = .livo) (hc : CycleInv cfg.exposureTimeInit w pairs rest)
    (h : ImuInv cfg w rest) (he : StepEffect cfg w e w') :
    ∃ pairs' rest', CycleInv cfg.exposureTimeInit w' pairs' rest' ∧ ImuInv cfg w' rest' := by
  by_cases hq : w'.hist.syncs = w.hist.syncs
  · exact ⟨pairs, rest, hc.quiet hm he hq, h.quiet hm hc.flag.mp he hq⟩
  · cases he with
    | @sync t _ hs hp hsyncs haccepted hinit =>
      have hsync := syncPackages_livo hm hs
      obtain ⟨r, hr⟩ : ∃ r, r = SyncRecord.of w.mapper t := ⟨_, rfl⟩
      rw [← hr] at hsyncs
      have hcycle := hc.sync hsync hp hsyncs hr
      cases hsync with
      | lio hflg hlast htime himu hlio hnew =>
        rcases hcycle with ⟨rfl, hcycle⟩ | ⟨l, rfl, -⟩
        · refine ⟨pairs, some r, hcycle, h.lio hlast (by linarith) himu hp hsyncs haccepted hinit hr
            rfl rfl rfl rfl rfl ?_⟩
          intro m hm
          simp only [List.getLast?_append, List.getLast?_singleton, Option.some_or,
            Option.mem_some_iff] at hm
          rw [← hm]
          exact ⟨by simp [hr, SyncRecord.of], rfl, rfl⟩
        · exact absurd (hc.flag.mp rfl) hflg
      | vio hflg himu hbuf htime =>
        rcases hcycle with ⟨rfl, -⟩ | ⟨l, rfl, hcycle⟩
        · exact absurd (hc.flag.mpr hflg) (by simp)
        · have hl : l ∈ w.hist.syncs := by simp [hc.cycle.syncs]
          refine ⟨_, none, hcycle, h.vio himu hl (hc.cycle.rest l rfl) hp hsyncs haccepted hinit hr
            rfl rfl rfl rfl rfl ?_⟩
          intro m hm
          have hpair := hcycle.cycle.pair (l, r) (by simp)
          simp only [List.getLast?_singleton, Option.mem_some_iff] at hm
          rw [← hm]
          have hg : r.group = m := by simp [hr, hm, SyncRecord.of]
          refine ⟨by rw [hg, hm], ?_, rfl⟩
          rw [← hpair.time, hg, hm]
    | aside ha => exact absurd ha.syncs hq
    | imu _ hw => exact absurd hw.syncs hq
    | lidar => exact absurd rfl hq
    | img => exact absurd rfl hq
    | wait => exact absurd rfl hq

end Effects

theorem ImuInv.init (S : Setup C) : ImuInv S.cfg S.init none where
  valid := CutQueue.valid_empty
  count := rfl
  seqs := by simp [Setup.init]
  stamps := by simp [Setup.init]
  enabled := by simp [Setup.init, LIVMapper.init]
  others := by simp [Setup.init]
  lows := by simp [Setup.init]
  last := .inl (by norm_num [Setup.init, LIVMapper.init])
  origin := by simp [Setup.init]
  due := by simp

theorem Setup.Reachable.imuInv {S : Setup C} (hm : S.cfg.slamMode = .livo) {w : World C}
    (hw : S.Reachable w) : ∃ rest, ImuInv S.cfg w rest := by
  obtain ⟨pairs, rest, -, h⟩ := S.invariant
    (I := fun w => ∃ pairs rest, CycleInv S.cfg.exposureTimeInit w pairs rest ∧ ImuInv S.cfg w rest)
    ⟨_, _, CycleInv.init S, ImuInv.init S⟩ (fun ⟨_, _, hc, h⟩ _ he => h.effect hm hc he) hw
  exact ⟨rest, h⟩

/-! ## What the steps are delivered -/

/-- Each LIO step is delivered the samples accepted before it and not delivered earlier
whose stamps lie in its interval, and no others. -/
def History.SlicesExactly (h : History C) : Prop :=
  ∀ rs r rs', h.syncs = rs ++ r :: rs' → r.flg = .lio → ∀ m, m ∈ r.group.imu ↔
    m ∈ h.imuAccepted.take r.imuSeen ∧ (∀ d ∈ rs, m ∉ d.group.imu) ∧
      r.lastLio < m.sec ∧ m.sec ≤ r.group.lioTime

/-- A sample later than the LIO steps before its arrival and than the times in `starts`
is delivered by the first later LIO step that reaches its stamp. -/
def History.NeverSkips (h : History C) (starts : List Double) : Prop :=
  ∀ pre m post, h.imuAccepted = pre ++ m :: post →
    (∀ d ∈ h.syncs, d.flg = .lio → d.imuSeen ≤ pre.length → d.group.lioTime < m.sec) →
    (∀ t ∈ starts, t < m.sec) →
    ∀ rs r rs', h.syncs = rs ++ r :: rs' → r.flg = .lio → pre.length < r.imuSeen →
      m.sec ≤ r.group.lioTime →
      (∀ d ∈ rs, d.flg = .lio → pre.length < d.imuSeen → d.group.lioTime < m.sec) →
      m ∈ r.group.imu

theorem ImuInv.slicesExactly {cfg : Config C} {w : World C} {rest : Option (SyncRecord C)}
    (h : ImuInv cfg w rest) : w.hist.SlicesExactly := by
  intro rs r rs' hsplit hflg m
  have hcuts : imuCuts w.hist.syncs = imuCuts rs ++ r.imuCut :: imuCuts rs' := by
    rw [hsplit, imuCuts_append, ← List.singleton_append, imuCuts_append, imuCuts_lio hflg]
    rfl
  have hearlier : (∀ c ∈ imuCuts rs, m ∉ c.out) ↔ ∀ d ∈ rs, m ∉ d.group.imu := by
    constructor
    · intro hc d hd
      by_cases hdflg : d.flg = .lio
      · exact hc d.imuCut (List.mem_map.mpr ⟨d, List.mem_filter.mpr ⟨hd, by simp [hdflg]⟩, rfl⟩)
      · rw [h.others d (hsplit ▸ List.mem_append_left _ hd) hdflg]
        simp
    · intro hd c hc
      obtain ⟨d, hmem, -, rfl⟩ := mem_imuCuts hc
      exact hd d hmem
  have hexact := h.valid.exact (imuCuts rs) r.imuCut (imuCuts rs') hcuts m
  rw [hearlier] at hexact
  exact hexact

theorem ImuInv.neverSkips {cfg : Config C} {w : World C} {rest : Option (SyncRecord C)}
    (h : ImuInv cfg w rest) : w.hist.NeverSkips w.hist.initTimes := by
  intro pre m post hm hbefore hstart rs r rs' hsplit hflg hseen hreach hfirst
  have hcuts : imuCuts w.hist.syncs = imuCuts rs ++ r.imuCut :: imuCuts rs' := by
    rw [hsplit, imuCuts_append, ← List.singleton_append, imuCuts_append, imuCuts_lio hflg]
    rfl
  -- every LIO step before `r` ends before the sample
  have hprev : ∀ d ∈ rs, d.flg = .lio → d.group.lioTime < m.sec := by
    intro d hd hdflg
    by_cases hd' : d.imuSeen ≤ pre.length
    · exact hbefore d (hsplit ▸ List.mem_append_left _ hd) hdflg hd'
    · exact hfirst d hd hdflg (not_le.mp hd')
  have hlow : r.lastLio < m.sec := by
    rcases h.origin rs r rs' hsplit hflg with hinit | ⟨d, hd, hdflg, heq⟩
    · exact hstart _ hinit
    · exact heq ▸ hprev d hd hdflg
  refine h.valid.mem_out hcuts hm hseen hlow hreach fun c hc => ?_
  obtain ⟨d, hd, hdflg, rfl⟩ := mem_imuCuts hc
  exact hprev d hd hdflg

theorem ImuInv.delivered_sublist {cfg : Config C} {w : World C} {rest : Option (SyncRecord C)}
    (h : ImuInv cfg w rest) :
    (w.hist.syncs.flatMap fun r => r.group.imu).Sublist w.hist.imuAccepted := by
  obtain ⟨gone, hsplit, hsub, -⟩ := h.valid.split
  have hout : ∀ rs : List (SyncRecord C), (∀ r ∈ rs, r.flg ≠ .lio → r.group.imu = []) →
      rs.flatMap (fun r => r.group.imu) = (imuCuts rs).flatMap Cut.out := by
    intro rs hrs
    induction rs with
    | nil => rfl
    | cons r rs ih =>
      rw [List.flatMap_cons, ih fun d hd => hrs d (List.mem_cons_of_mem _ hd),
        ← List.singleton_append, imuCuts_append, List.flatMap_append]
      by_cases hflg : r.flg = .lio
      · rw [imuCuts_lio hflg, List.flatMap_singleton]
        rfl
      · rw [imuCuts_other hflg, hrs r List.mem_cons_self hflg]
        rfl
  rw [hout _ h.others, show w.hist.imuAccepted = gone ++ _ from hsplit]
  exact hsub.trans (List.sublist_append_left gone _)

/-- Samples are delivered in order of their stamps, at most once, exactly by interval,
and none is skipped that is later than every value `last_lio_update_time` was
initialised to. -/
theorem imu_slicing (S : Setup C) (hm : S.cfg.slamMode = .livo) (w : World C)
    (hw : S.Reachable w) :
    (w.hist.syncs.flatMap fun r => r.group.imu).Sublist w.hist.imuAccepted ∧
      w.hist.imuAccepted.Nodup ∧ (w.hist.imuAccepted.Pairwise fun a b => a.sec ≤ b.sec) ∧
      w.hist.SlicesExactly ∧ w.hist.NeverSkips w.hist.initTimes := by
  obtain ⟨rest, h⟩ := hw.imuInv hm
  exact ⟨h.delivered_sublist, h.valid.nodup, h.valid.sorted, h.slicesExactly, h.neverSkips⟩

theorem imu_slicing_run :
    ∃ w, exec Setup.default.step Setup.default.init twoImages = some w ∧
      (w.hist.syncs.flatMap fun r => r.group.imu).length = 8 ∧
      (w.hist.syncs.flatMap fun r => r.group.imu).Sublist w.hist.imuAccepted ∧
      w.hist.imuAccepted.Nodup ∧ (w.hist.imuAccepted.Pairwise fun a b => a.sec ≤ b.sec) ∧
      w.hist.SlicesExactly ∧ w.hist.NeverSkips w.hist.initTimes := by
  have hrun : (exec Setup.default.step Setup.default.init twoImages).any
      (fun w => (w.hist.syncs.flatMap fun r => r.group.imu).length == 8) = true := by
    decide +kernel
  obtain ⟨w, hw, hlen⟩ := exists_exec_of_any _ hrun
  exact ⟨w, hw, by simpa using hlen, imu_slicing Setup.default rfl w (.of_exec hw)⟩

/-- Two scans stamped -5 s and 1 s, samples at 0.5 s and 1.3 s, images at 0.2 s and 1.2 s. -/
def negativeHeader : List (Event Carrier.trivial) :=
  [.standardPcl ⟨⟨-5, 0⟩, [.at 10]⟩, .standardPcl ⟨⟨1, 0⟩, [.at 10, .at 500]⟩,
    ImuMsg.at 0 500000000, ImageMsg.at 0 200000000, .spin, .spin,
    ImuMsg.at 1 300000000, ImageMsg.at 1 200000000, .spin]

/-- The first LIO step starts at -5 s and delivers nothing, the second one is started
again at the next header, 1 s: the sample at 0.5 s is skipped. -/
theorem imu_slicing_skips :
    ∃ w, exec Setup.default.step Setup.default.init negativeHeader = some w ∧
      ¬w.hist.NeverSkips (w.hist.initTimes.take 1) := by
  have hrun : (exec Setup.default.step Setup.default.init negativeHeader).any (fun w => decide
      ((w.hist.imuAccepted.take 1).map (·.sec) = [1 / 2] ∧
        w.hist.syncs.map (·.flg) = [.lio, .vio, .lio] ∧
        w.hist.syncs.map (·.imuSeen) = [1, 1, 2] ∧
        w.hist.syncs.map (·.group.lioTime) = [1 / 5, -5, 6 / 5] ∧
        w.hist.syncs.map (·.group.imu.length) = [0, 0, 0] ∧
        w.hist.initTimes.take 1 = [-5])) = true := by decide +kernel
  obtain ⟨w, hw, htest⟩ := exists_exec_of_any _ hrun
  obtain ⟨hfirst, hflg, hseen, hlio, hlen, hstart⟩ := of_decide_eq_true htest
  refine ⟨w, hw, fun hskip => ?_⟩
  cases hacc : w.hist.imuAccepted with
  | nil => simp [hacc] at hfirst
  | cons m post =>
    have hm : m.sec = 1 / 2 := by simpa [hacc] using hfirst
    obtain ⟨l, v, l', hsyncs⟩ := List.length_eq_three.1
      (by simpa using congrArg List.length hflg : w.hist.syncs.length = 3)
    simp only [hsyncs, List.map_cons, List.map_nil, List.cons.injEq, and_true,
      List.length_eq_zero_iff] at hflg hseen hlio hlen
    have hin := hskip [] m post hacc (by simp [hsyncs, hseen, hflg])
      (by simp [hstart, hm]; norm_num) [l, v] l' [] hsyncs hflg.2.2 (by simp [hseen])
      (by rw [hm, hlio.2.2]; norm_num) (by simp [hflg, hlio, hm]; norm_num)
    rw [hlen.2.2] at hin
    cases hin

end FastLivo
