import FastLivo.Mapper.Effects

/-!
# The LIO–VIO cycle

In LIVO mode the successful calls of `sync_packages` come in pairs: a LIO step at the
time of the front image, then a VIO step that consumes this image. The front image
cannot change in between, since only the branch that throws old images pops it and
that branch belongs to the LIO half.
-/

namespace FastLivo

open Lib

variable {C : Carrier}

/-- The image was taken and accepted earlier. -/
def Image.Before (a b : Image C) : Prop := a.time < b.time ∧ a.seq < b.seq

/-- `img_buffer` and `img_time_buffer` are one queue in time order. -/
structure ImageQueue (b : SensorBuffers C) : Prop where
  times : b.imgTimeBuffer = b.imgBuffer.map Image.time
  sorted : b.imgBuffer.Pairwise Image.Before
  newest : ∀ im ∈ b.imgBuffer, im.time ≤ b.lastTimestampImg ∧ im.seq < b.imgSeq

theorem ImageQueue.arrival {b b' : SensorBuffers C} (h : ImageQueue b) (ha : ImageArrival b b') :
    ImageQueue b' := by
  cases ha with
  | ignored => exact ⟨h.times, h.sorted, h.newest⟩
  | pushed n time mat hlidar hlater =>
    have hlt : b.lastTimestampImg < time := by linarith
    refine ⟨by simp [h.times], ?_, ?_⟩
    · refine List.pairwise_append.mpr ⟨h.sorted, List.pairwise_singleton _ _, ?_⟩
      intro im him im' him'
      rw [List.mem_singleton.mp him']
      exact ⟨(h.newest im him).1.trans_lt hlt, (h.newest im him).2⟩
    · intro im him
      rcases List.mem_append.mp him with him | him
      · exact ⟨(h.newest im him).1.trans hlt.le, (h.newest im him).2.trans (Nat.lt_succ_self _)⟩
      · rw [List.mem_singleton.mp him]
        exact ⟨le_rfl, Nat.lt_succ_self _⟩

theorem ImageQueue.pop {b : SensorBuffers C} {img : Image C} {imgs : List (Image C)} {time : Double}
    {times : List Double} (h : ImageQueue b) (hbuf : b.imgBuffer = img :: imgs)
    (htime : b.imgTimeBuffer = time :: times) :
    time = img.time ∧ (∀ im ∈ imgs, img.Before im) ∧ ∀ pushed,
      ImageQueue { b with imgBuffer := imgs, imgTimeBuffer := times, lidarPushed := pushed } := by
  have ht := h.times
  have hs := h.sorted
  rw [hbuf] at ht hs
  rw [htime, List.map_cons] at ht
  obtain ⟨rfl, rfl⟩ := List.cons.inj ht
  obtain ⟨hfirst, hrest⟩ := List.pairwise_cons.mp hs
  exact ⟨rfl, hfirst, fun _ => ⟨rfl, hrest, fun im him =>
    h.newest im (hbuf ▸ List.mem_cons_of_mem _ him)⟩⟩

/-- A LIO step and the VIO step on the image it was timed by. -/
structure IsPair (exposure : Double) (l v : SyncRecord C) : Prop where
  lio : l.flg = .lio
  vio : v.flg = .vio
  time : v.group.vioTime = l.group.lioTime
  image : v.group.img.time + exposure = l.group.lioTime

/-- The steps so far: pairs with later and later images, and maybe a LIO step whose
image is still in the buffer. -/
structure Cycle (exposure : Double) (syncs : List (SyncRecord C))
    (pairs : List (SyncRecord C × SyncRecord C)) (rest : Option (SyncRecord C)) : Prop where
  syncs : syncs = pairs.flatMap (fun p => [p.1, p.2]) ++ rest.toList
  pair : ∀ p ∈ pairs, IsPair exposure p.1 p.2
  rest : ∀ l ∈ rest, l.flg = .lio
  later : pairs.Pairwise fun p q => p.2.group.img.Before q.2.group.img

/-- The cycle against the state of the mapper. -/
structure CycleInv (exposure : Double) (w : World C) (pairs : List (SyncRecord C × SyncRecord C))
    (rest : Option (SyncRecord C)) : Prop where
  queue : ImageQueue w.mapper.buf
  cycle : Cycle exposure w.hist.syncs pairs rest
  flag : rest.isSome ↔ w.mapper.meas.lioVioFlg = .lio
  front : ∀ l ∈ rest, ∃ im ∈ w.mapper.buf.imgBuffer.head?, im.time + exposure = l.group.lioTime
  used : ∀ p ∈ pairs, ∀ im ∈ w.mapper.buf.imgBuffer, p.2.group.img.Before im
  past : ∀ p ∈ pairs, p.2.group.img.time ≤ w.mapper.buf.lastTimestampImg ∧
    p.2.group.img.seq < w.mapper.buf.imgSeq

section Effects

variable {exposure : Double} {w w' : World C} {pairs : List (SyncRecord C × SyncRecord C)}
  {rest : Option (SyncRecord C)}

/-- Effects that leave the images, the flag and the history alone. -/
theorem CycleInv.congr (h : CycleInv exposure w pairs rest)
    (hq : w'.mapper.buf.imgBuffer = w.mapper.buf.imgBuffer)
    (ht : w'.mapper.buf.imgTimeBuffer = w.mapper.buf.imgTimeBuffer)
    (hl : w'.mapper.buf.lastTimestampImg = w.mapper.buf.lastTimestampImg)
    (hn : w'.mapper.buf.imgSeq = w.mapper.buf.imgSeq)
    (hf : w'.mapper.meas.lioVioFlg = w.mapper.meas.lioVioFlg)
    (hs : w'.hist.syncs = w.hist.syncs) : CycleInv exposure w' pairs rest where
  queue := ⟨by rw [ht, hq]; exact h.queue.times, by rw [hq]; exact h.queue.sorted,
    by rw [hq, hl, hn]; exact h.queue.newest⟩
  cycle := by rw [hs]; exact h.cycle
  flag := by rw [hf]; exact h.flag
  front := by rw [hq]; exact h.front
  used := by rw [hq]; exact h.used
  past := by rw [hl, hn]; exact h.past

theorem CycleInv.image {b : SensorBuffers C} (h : CycleInv exposure w pairs rest)
    (ha : ImageArrival w.mapper.buf b) : CycleInv exposure (w.setBuf b) pairs rest := by
  have hq := h.queue.arrival ha
  cases ha with
  | ignored => exact h.congr rfl rfl rfl rfl rfl rfl
  | pushed n time mat hlidar hlater =>
    have hlt : w.mapper.buf.lastTimestampImg < time := by linarith
    refine ⟨hq, h.cycle, h.flag, ?_, ?_, ?_⟩
    · intro l hl
      obtain ⟨im, him, ht⟩ := h.front l hl
      refine ⟨im, ?_, ht⟩
      obtain ⟨ims, hims⟩ := List.head?_eq_some_iff.mp (Option.mem_def.mp him)
      simp [World.setBuf, hims]
    · intro p hp im him
      rcases List.mem_append.mp him with him | him
      · exact h.used p hp im him
      · rw [List.mem_singleton.mp him]
        exact ⟨(h.past p hp).1.trans_lt hlt, (h.past p hp).2⟩
    · intro p hp
      exact ⟨(h.past p hp).1.trans hlt.le, (h.past p hp).2.trans (Nat.lt_succ_self _)⟩

theorem CycleInv.wait {cfg : Config C} {t : LIVMapper C} (h : CycleInv exposure w pairs rest)
    (hs : LivoSync cfg w.mapper false t) :
    CycleInv exposure ⟨t, w.hist.recordSync w.mapper false t⟩ pairs rest := by
  cases hs with
  | idle => exact h.congr rfl rfl rfl rfl rfl rfl
  | hold => exact h.congr rfl rfl rfl rfl rfl rfl
  | throwImage hflg hlast hbuf htime =>
    have hnone : rest = none := by
      rw [← Option.not_isSome_iff_eq_none, h.flag]
      exact hflg
    obtain ⟨-, -, hq⟩ := h.queue.pop hbuf htime
    refine ⟨hq w.mapper.buf.lidarPushed, h.cycle, h.flag, by simp [hnone], ?_, h.past⟩
    intro p hp im him
    exact h.used p hp im (hbuf ▸ List.mem_cons_of_mem _ him)

/-- A LIO step opens a pair, a VIO step closes it. -/
theorem CycleInv.sync {cfg : Config C} {t : LIVMapper C} {r : SyncRecord C}
    (h : CycleInv cfg.exposureTimeInit w pairs rest) (hs : LivoSync cfg w.mapper true t)
    (hp : Processed cfg t w'.mapper) (hsyncs : w'.hist.syncs = w.hist.syncs ++ [r])
    (hr : r = .of w.mapper t) :
    (rest = none ∧ CycleInv cfg.exposureTimeInit w' pairs (some r)) ∨
      ∃ l, rest = some l ∧ CycleInv cfg.exposureTimeInit w' (pairs ++ [(l, r)]) none := by
  obtain ⟨measures, lastLio, idx, hmeas⟩ := hp.meas
  cases hs with
  | lio hflg hlast htime himu hlio =>
    obtain rfl : rest = none := by
      rw [← Option.not_isSome_iff_eq_none, h.flag]
      exact hflg
    refine .inl ⟨rfl, ?_, ⟨?_, h.cycle.pair, ?_, h.cycle.later⟩, ?_, ?_, ?_, ?_⟩
    · rw [hp.buf]
      exact ⟨h.queue.times, h.queue.sorted, h.queue.newest⟩
    · rw [hsyncs, h.cycle.syncs, List.append_assoc]
      rfl
    · intro l hl
      cases hl
      rw [hr]
      rfl
    · rw [hmeas]
      simp
    · intro l hl
      cases hl
      have hfront : w.mapper.buf.imgBuffer.map Image.time = _ :: _ := h.queue.times.symm.trans htime
      obtain ⟨im, ims, hims, him, -⟩ := List.map_eq_cons_iff.mp hfront
      refine ⟨im, ?_, ?_⟩
      · rw [hp.buf]
        simp [hims]
      · simp [hr, SyncRecord.of, him, hlio]
    · rw [hp.buf]
      exact h.used
    · rw [hp.buf]
      exact h.past
  | @vio img imgs time times hflg himu hbuf htime =>
    obtain ⟨l, rfl⟩ := Option.isSome_iff_exists.mp (h.flag.mpr hflg)
    obtain ⟨hfront, hafter, hq⟩ := h.queue.pop hbuf htime
    have hl : img.time + cfg.exposureTimeInit = l.group.lioTime := by
      obtain ⟨im, him, ht⟩ := h.front l rfl
      rw [hbuf] at him
      cases him
      exact ht
    have hmem : img ∈ w.mapper.buf.imgBuffer := hbuf ▸ List.mem_cons_self
    have himg : r.group.img = img := by simp [hr, SyncRecord.of]
    refine .inr ⟨l, rfl, ?_, ⟨?_, ?_, by simp, ?_⟩, ?_, by simp, ?_, ?_⟩
    · rw [hp.buf]
      exact hq false
    · rw [hsyncs, h.cycle.syncs, List.flatMap_append]
      simp
    · intro p hpm
      rcases List.mem_append.mp hpm with hpm | hpm
      · exact h.cycle.pair p hpm
      · rw [List.mem_singleton.mp hpm]
        exact ⟨h.cycle.rest l rfl, by rw [hr]; rfl, by simp [hr, SyncRecord.of, hfront, hl],
          by rw [himg, hl]⟩
    · refine List.pairwise_append.mpr ⟨h.cycle.later, List.pairwise_singleton _ _, ?_⟩
      intro p hpm q hqm
      rw [List.mem_singleton.mp hqm, himg]
      exact h.used p hpm img hmem
    · rw [hmeas]
      simp
    · rw [hp.buf]
      intro p hpm im him
      rcases List.mem_append.mp hpm with hpm | hpm
      · exact h.used p hpm im (hbuf ▸ List.mem_cons_of_mem _ him)
      · rw [List.mem_singleton.mp hpm, himg]
        exact hafter im him
    · rw [hp.buf]
      intro p hpm
      rcases List.mem_append.mp hpm with hpm | hpm
      · exact h.past p hpm
      · rw [List.mem_singleton.mp hpm, himg]
        exact h.queue.newest img hmem

/-- Effects that hand over no measurement keep the cycle as it is. -/
theorem CycleInv.quiet {cfg : Config C} {e : Event C} (hm : cfg.slamMode = .livo)
    (h : CycleInv exposure w pairs rest) (he : StepEffect cfg w e w')
    (hq : w'.hist.syncs = w.hist.syncs) : CycleInv exposure w' pairs rest := by
  cases he with
  | aside ha =>
    exact h.congr (by rw [ha.buf]) (by rw [ha.buf]) (by rw [ha.buf]) (by rw [ha.buf])
      (by rw [ha.meas]) ha.syncs
  | lidar ha =>
    obtain ⟨raw, headers, last, seq, rfl⟩ := ha.frame
    exact h.congr rfl rfl rfl rfl rfl rfl
  | img ha => exact h.image ha
  | imu hacc hw =>
    obtain ⟨_, _, _, _, _, _, rfl⟩ := acceptImu_cases hacc
    exact h.congr (by rw [hw.buf]) (by rw [hw.buf]) (by rw [hw.buf]) (by rw [hw.buf])
      (by rw [hw.meas]) hw.syncs
  | wait hs => exact h.wait (syncPackages_livo hm hs)
  | sync _ _ hsyncs => simp [hsyncs] at hq

theorem CycleInv.effect {cfg : Config C} {e : Event C} (hm : cfg.slamMode = .livo)
    (h : CycleInv cfg.exposureTimeInit w pairs rest) (he : StepEffect cfg w e w') :
    ∃ pairs' rest', CycleInv cfg.exposureTimeInit w' pairs' rest' := by
  by_cases hq : w'.hist.syncs = w.hist.syncs
  · exact ⟨pairs, rest, h.quiet hm he hq⟩
  · cases he with
    | sync hs hp hsyncs =>
      rcases h.sync (syncPackages_livo hm hs) hp hsyncs rfl with ⟨-, h'⟩ | ⟨l, -, h'⟩
      · exact ⟨_, _, h'⟩
      · exact ⟨_, _, h'⟩
    | aside ha => exact absurd ha.syncs hq
    | imu _ hw => exact absurd hw.syncs hq
    | lidar => exact absurd rfl hq
    | img => exact absurd rfl hq
    | wait => exact absurd rfl hq

end Effects

theorem CycleInv.init (S : Setup C) : CycleInv S.cfg.exposureTimeInit S.init [] none where
  queue := ⟨rfl, .nil, by simp [Setup.init, LIVMapper.init]⟩
  cycle := ⟨rfl, by simp, by simp, .nil⟩
  flag := by simp [Setup.init, LIVMapper.init]
  front := by simp
  used := by simp
  past := by simp

/-- In every run the successful calls alternate LIO, VIO; each VIO step uses the image
that timed the LIO step before it; and the images used get strictly later. -/
theorem livo_cycle (S : Setup C) (hm : S.cfg.slamMode = .livo) (w : World C)
    (hw : S.Reachable w) :
    ∃ pairs rest, Cycle S.cfg.exposureTimeInit w.hist.syncs pairs rest := by
  obtain ⟨pairs, rest, h⟩ := S.invariant
    (I := fun w => ∃ pairs rest, CycleInv S.cfg.exposureTimeInit w pairs rest)
    ⟨_, _, CycleInv.init S⟩ (fun ⟨_, _, h⟩ _ he => h.effect hm he) hw
  exact ⟨pairs, rest, h.cycle⟩

/-- Two LIO–VIO pairs. -/
theorem livo_cycle_run :
    ∃ w, exec Setup.default.step Setup.default.init twoImages = some w ∧
      w.hist.syncs.length = 4 ∧ ∃ pairs rest, Cycle 0 w.hist.syncs pairs rest := by
  have hrun : (exec Setup.default.step Setup.default.init twoImages).any
      (fun w => w.hist.syncs.length == 4) = true := by decide +kernel
  obtain ⟨w, hw, hlen⟩ := exists_exec_of_any _ hrun
  exact ⟨w, hw, by simpa using hlen, livo_cycle Setup.default rfl w (.of_exec hw)⟩

end FastLivo
