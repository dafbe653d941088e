import FastLivo.Mapper.Measures

/-!
# The RTK observation of a step

The RTK callbacks append what they accept to `rtk_buffer`, in order of arrival. The LIO
half of a pair pops the front up to the first observation later than the step and keeps
the last one it popped from the interval since the last update. That is the newest of
the interval when the buffer is in time order, which no callback sees to.
-/

namespace FastLivo

open Lib

variable {C : Carrier} {cfg : Config C} {K : Kernel C}

/-! ## Callbacks and steps -/

/-- What a step can do to the buffer of observations. -/
inductive RtkMove (cfg : Config C) (r r' : RtkFrontend C) : Prop
  | same (hbuf : r'.rtkBuffer = r.rtkBuffer) (hseq : r'.rtkSeq = r.rtkSeq)
      (hini : r'.rtkIni = r.rtkIni)
  /-- A valid observation is appended, and the oldest ones are dropped. -/
  | push (rtk : RTK C) (n : Nat) (hen : cfg.rtkEn = true) (hvalid : rtk.valid = true)
      (hnum : rtk.seq = r.rtkSeq) (hbuf : r'.rtkBuffer = (r.rtkBuffer ++ [rtk]).drop n)
      (hseq : r'.rtkSeq = r.rtkSeq + 1)

theorem initializeRTK_frame (cfg : Config C) (K : Kernel C) (r : RtkFrontend C) :
    (initializeRTK cfg K r).2.rtkBuffer = r.rtkBuffer ∧
      (initializeRTK cfg K r).2.rtkSeq = r.rtkSeq ∧ (initializeRTK cfg K r).2.rtkIni = r.rtkIni := by
  unfold initializeRTK
  split
  · exact ⟨rfl, rfl, rfl⟩
  · simp only
    split
    · exact ⟨rfl, rfl, rfl⟩
    · split <;> exact ⟨rfl, rfl, rfl⟩

/-- The push of `acceptRtk`, for any bound in place of 5000. -/
theorem acceptRtk_eq (cfg : Config C) (K : Kernel C) (rtk : RTK C) (r : RtkFrontend C) :
    ∃ n, acceptRtk cfg K rtk r =
      if cfg.rtkEn && rtk.valid then
        let r : RtkFrontend C := { r with
          rtkBuffer := (r.rtkBuffer ++ [{ rtk with seq := r.rtkSeq }]).drop n
          rtkSeq := r.rtkSeq + 1 }
        if r.rtkIni then r
        else
          let (ok, r) := initializeRTK cfg K r
          if ok then { r with rtkIni := true } else r
      else r := by
  unfold acceptRtk
  exact ⟨_, rfl⟩

theorem acceptRtk_move (rtk : RTK C) (r : RtkFrontend C) :
    RtkMove cfg r (acceptRtk cfg K rtk r) := by
  obtain ⟨n, hn⟩ := acceptRtk_eq cfg K rtk r
  rw [hn]
  split
  · rename_i hacc
    obtain ⟨hen, hvalid⟩ := (Bool.and_eq_true _ _).mp hacc
    simp only
    obtain ⟨hbuf, hseq, -⟩ := initializeRTK_frame cfg K
      { r with
        rtkBuffer := (r.rtkBuffer ++ [{ rtk with seq := r.rtkSeq }]).drop n
        rtkSeq := r.rtkSeq + 1 }
    split
    · exact .push { rtk with seq := r.rtkSeq } n hen hvalid rfl rfl rfl
    split
    · exact .push { rtk with seq := r.rtkSeq } n hen hvalid rfl hbuf hseq
    · exact .push { rtk with seq := r.rtkSeq } n hen hvalid rfl hbuf hseq
  · exact .same rfl rfl rfl

theorem RtkMove.congr {r r' s : RtkFrontend C} (h : RtkMove cfg r r')
    (hbuf : r.rtkBuffer = s.rtkBuffer) (hseq : r.rtkSeq = s.rtkSeq) (hini : r.rtkIni = s.rtkIni) :
    RtkMove cfg s r' := by
  cases h with
  | same hb hs hi => exact .same (hb.trans hbuf) (hs.trans hseq) (hi.trans hini)
  | push rtk n hen hvalid hnum hb hs =>
    exact .push rtk n hen hvalid (hnum.trans hseq) (hbuf ▸ hb) (hseq ▸ hs)

theorem rtkCbk_move (msg : GnssPVTSolnMsg C) (r : RtkFrontend C) :
    RtkMove cfg r (rtkCbk cfg K msg r).1 := by
  unfold rtkCbk
  simp only
  apply (acceptRtk_move _ _).congr <;> split <;> rfl

theorem navsatfixCbk_move (msg : NavSatFix C) (r : RtkFrontend C) :
    RtkMove cfg r (navsatfixCbk cfg K msg r).1 := by
  unfold navsatfixCbk
  split
  · exact .same rfl rfl rfl
  · simp only
    apply (acceptRtk_move _ _).congr <;> split <;> rfl

/-- Members of the frontend that only the RTK callbacks and the slicing write. -/
structure RtkKept (s t : LIVMapper C) : Prop where
  buffer : t.rtk.rtkBuffer = s.rtk.rtkBuffer
  seq : t.rtk.rtkSeq = s.rtk.rtkSeq
  ini : t.rtk.rtkIni = s.rtk.rtkIni

theorem RtkKept.trans {s t u : LIVMapper C} (h : RtkKept s t) (h' : RtkKept t u) : RtkKept s u :=
  ⟨h'.buffer.trans h.buffer, h'.seq.trans h.seq, h'.ini.trans h.ini⟩

theorem pushLivoState_rtk (cfg : Config C) (K : Kernel C) (s : LIVMapper C) :
    RtkKept s (pushLivoState cfg K s) := by
  have h : ∃ buffer, pushLivoState cfg K s =
      { s with rtk := { s.rtk with livoStateBuffer := buffer } } := by
    unfold pushLivoState
    split
    · exact ⟨_, rfl⟩
    · exact ⟨s.rtk.livoStateBuffer, rfl⟩
  obtain ⟨buffer, h⟩ := h
  rw [h]
  exact ⟨rfl, rfl, rfl⟩

theorem publishFrameWorld_rtk (s : LIVMapper C) : RtkKept s (publishFrameWorld cfg K s).1 := by
  unfold publishFrameWorld
  split
  · exact ⟨rfl, rfl, rfl⟩
  · by_cases himg : cfg.imgEn = true
    · simp only [himg, if_true]
      have h := pushLivoState_rtk cfg K (publishCloudRGB cfg K s).1
      exact ⟨h.buffer, h.seq, h.ini⟩
    · simp only [himg]
      have h := pushLivoState_rtk cfg K s
      exact ⟨h.buffer, h.seq, h.ini⟩

theorem finishEkf_rtk (s : LIVMapper C) : (finishEkf cfg s).rtk = s.rtk := by
  obtain ⟨prop, h⟩ := finishEkf_eq cfg s
  rw [h]

theorem updateLio_rtk (rtk : RTK C) (s : LIVMapper C) : RtkKept s (updateLio cfg K rtk s).1 := by
  have hest : ∀ down, RtkKept s (updateMap cfg K down (estimateLio cfg K rtk down s)) := by
    intro down
    refine ⟨?_, ?_, ?_⟩ <;> simp [updateMap, estimateLio, finishEkf_rtk]
  unfold updateLio
  by_cases himg : cfg.imgEn = true
  · simp only [himg, if_true]
    exact (hest _).trans ⟨rfl, rfl, rfl⟩
  · simp only [himg]
    exact ((hest _).trans (publishFrameWorld_rtk _)).trans ⟨rfl, rfl, rfl⟩

theorem updateVio_rtk (m : MeasureGroup C) (s : LIVMapper C) :
    RtkKept s (updateVio cfg K m s).1 := by
  have hest : RtkKept s (estimateVio cfg K m s) := by
    refine ⟨?_, ?_, ?_⟩ <;> simp [estimateVio, finishEkf_rtk]
  exact hest.trans (publishFrameWorld_rtk _)

theorem stateEstimationAndMapping_rtk {s u : LIVMapper C} {out : List (Output C)}
    (h : stateEstimationAndMapping cfg K s = some (u, out)) : RtkKept s u := by
  have hlio : handleLio cfg K s = some (u, out) → RtkKept s u := by
    intro h
    unfold handleLio at h
    split at h
    · cases h
      exact ⟨rfl, rfl, rfl⟩
    · obtain ⟨m, -, hm⟩ := Option.map_eq_some_iff.mp h
      have hu := congrArg Prod.fst hm
      subst hu
      exact updateLio_rtk m.rtk s
  unfold stateEstimationAndMapping at h
  cases hflg : s.meas.lioVioFlg with
  | wait =>
    rw [hflg] at h
    cases h
    exact ⟨rfl, rfl, rfl⟩
  | lio =>
    rw [hflg] at h
    exact hlio h
  | lo =>
    rw [hflg] at h
    exact hlio h
  | vio =>
    rw [hflg] at h
    simp only [handleVio] at h
    split at h
    · cases h
      exact ⟨rfl, rfl, rfl⟩
    · obtain ⟨m, -, hm⟩ := Option.map_eq_some_iff.mp h
      have hu := congrArg Prod.fst hm
      subst hu
      exact updateVio_rtk m s

theorem processImu_rtk {t v : LIVMapper C} (h : processImu cfg K (handleFirstFrame t) = some v) :
    RtkKept t v := by
  have hfirst : (handleFirstFrame t).rtk = t.rtk := by
    unfold handleFirstFrame
    split <;> rfl
  unfold processImu at h
  obtain ⟨r, -, hv⟩ := Option.bind_eq_some_iff.mp h
  cases hv
  by_cases hgrav : cfg.gravityAlignEn = true
  · simp only [hgrav, if_true, gravityAlignment]
    split
    · exact ⟨congrArg _ hfirst, congrArg _ hfirst, congrArg _ hfirst⟩
    · exact ⟨congrArg _ hfirst, congrArg _ hfirst, congrArg _ hfirst⟩
  · simp only [hgrav]
    exact ⟨congrArg _ hfirst, congrArg _ hfirst, congrArg _ hfirst⟩

theorem processMeasures_rtk {t u : LIVMapper C} {out : List (Output C)}
    (h : processMeasures cfg K t = some (u, out)) : RtkKept t u := by
  unfold processMeasures at h
  obtain ⟨v, himu, hest⟩ := Option.bind_eq_some_iff.mp h
  exact (processImu_rtk himu).trans (stateEstimationAndMapping_rtk hest)

theorem step_rtk_move {w w' : World C} {e : Event C} (hst : step cfg K w e = some w')
    (he : e ≠ .spin) : RtkMove cfg w.mapper.rtk w'.mapper.rtk := by
  cases e with
  | standardPcl => cases hst; exact .same rfl rfl rfl
  | livoxPcl => cases hst; exact .same rfl rfl rfl
  | img => cases hst; exact .same rfl rfl rfl
  | imu msg =>
    cases hst
    unfold imuEvent imuCbk
    split <;> exact .same rfl rfl rfl
  | rtk msg =>
    simp only [step, Option.some.injEq] at hst
    subst hst
    split
    · exact rtkCbk_move msg _
    · exact .same rfl rfl rfl
  | navSatFix msg =>
    simp only [step, Option.some.injEq] at hst
    subst hst
    split
    · exact navsatfixCbk_move msg _
    · exact .same rfl rfl rfl
  | imuPropTimer =>
    cases hst
    have hrtk : (imuPropCallback cfg K w.mapper).1.rtk = w.mapper.rtk := by
      unfold imuPropCallback
      split
      · rfl
      · simp only
        split <;> rfl
    exact .same (congrArg _ hrtk) (congrArg _ hrtk) (congrArg _ hrtk)
  | spin => exact absurd rfl he

/-! ## The buffer -/

/-- Buffered observations are valid and carry their numbers of arrival in order. -/
structure RtkQueue (cfg : Config C) (r : RtkFrontend C) : Prop where
  enabled : r.rtkIni = true → cfg.rtkEn = true
  valid : ∀ rtk ∈ r.rtkBuffer, rtk.valid = true
  numbered : r.rtkBuffer.Pairwise fun a b => a.seq < b.seq
  below : ∀ rtk ∈ r.rtkBuffer, rtk.seq < r.rtkSeq

theorem RtkQueue.move {r r' : RtkFrontend C} (h : RtkQueue cfg r) (hm : RtkMove cfg r r') :
    RtkQueue cfg r' := by
  cases hm with
  | same hbuf hseq hini => exact ⟨by rw [hini]; exact h.enabled, by rw [hbuf]; exact h.valid,
      by rw [hbuf]; exact h.numbered, by rw [hbuf, hseq]; exact h.below⟩
  | push rtk n hen hvalid hnum hbuf hseq =>
    have hmem : ∀ q ∈ r'.rtkBuffer, q ∈ r.rtkBuffer ∨ q = rtk := by
      intro q hq
      rw [hbuf] at hq
      simpa using List.mem_of_mem_drop hq
    refine ⟨fun _ => hen, fun q hq => ?_, ?_, fun q hq => ?_⟩
    · rcases hmem q hq with hold | rfl
      · exact h.valid q hold
      · exact hvalid
    · rw [hbuf]
      apply List.Pairwise.drop
      refine List.pairwise_append.mpr ⟨h.numbered, List.pairwise_singleton _ _, fun a ha b hb => ?_⟩
      rw [List.mem_singleton.mp hb, hnum]
      exact h.below a ha
    · rw [hseq]
      rcases hmem q hq with hold | rfl
      · exact (h.below q hold).trans (Nat.lt_succ_self _)
      · rw [hnum]
        exact Nat.lt_succ_self _

/-- A call drops observations from the front only. -/
theorem RtkQueue.suffix {r r' : RtkFrontend C} (h : RtkQueue cfg r)
    (hbuf : r'.rtkBuffer <:+ r.rtkBuffer) (hseq : r'.rtkSeq = r.rtkSeq)
    (hini : r'.rtkIni = r.rtkIni) : RtkQueue cfg r' :=
  ⟨hini ▸ h.enabled, fun q hq => h.valid q (hbuf.subset hq), h.numbered.sublist hbuf.sublist,
    fun q hq => hseq ▸ h.below q (hbuf.subset hq)⟩

/-! ## Slicing -/

/-- The observation lies in the interval of the step. -/
def InStep (lastLio lioTime : Double) (rtk : RTK C) : Prop :=
  lastLio < rtk.timestamp ∧ rtk.timestamp ≤ lioTime

instance (lastLio lioTime : Double) (rtk : RTK C) : Decidable (InStep lastLio lioTime rtk) :=
  inferInstanceAs (Decidable (_ ∧ _))

/-- Observations in front of the first one later than the step. -/
def popped (lioTime : Double) (buffer : List (RTK C)) : List (RTK C) :=
  buffer.takeWhile fun rtk => !decide (lioTime < rtk.timestamp)

theorem sliceRtk_eq (lastLio lioTime : Double) (buffer : List (RTK C)) (rtk : RTK C) :
    sliceRtk lastLio lioTime buffer rtk =
      (((popped lioTime buffer).filter fun q => lastLio < q.timestamp && q.valid).getLastD rtk,
        buffer.dropWhile fun q => !decide (lioTime < q.timestamp)) := by
  induction buffer generalizing rtk with
  | nil => rfl
  | cons front rest ih =>
    rw [sliceRtk]
    by_cases hlate : lioTime < front.timestamp
    · simp [hlate, popped]
    · rw [if_neg hlate, ih]
      by_cases hin : lastLio < front.timestamp && front.valid
      · have hpop : ((popped lioTime (front :: rest)).filter fun q =>
            lastLio < q.timestamp && q.valid) =
            front :: (popped lioTime rest).filter fun q => lastLio < q.timestamp && q.valid := by
          simp [popped, hlate, hin]
        rw [hpop, List.getLastD_cons, if_pos hin, List.dropWhile_cons_of_pos (by simpa using hlate)]
      · have hpop : ((popped lioTime (front :: rest)).filter fun q =>
            lastLio < q.timestamp && q.valid) =
            (popped lioTime rest).filter fun q => lastLio < q.timestamp && q.valid := by
          simp [popped, hlate, hin]
        rw [hpop, if_neg hin, List.dropWhile_cons_of_pos (by simpa using hlate)]

theorem mem_popped {lioTime : Double} {buffer : List (RTK C)} {rtk : RTK C}
    (h : rtk ∈ popped lioTime buffer) : rtk ∈ buffer ∧ rtk.timestamp ≤ lioTime := by
  refine ⟨(List.takeWhile_sublist _).subset h, ?_⟩
  have hp := List.mem_takeWhile_imp h
  simpa using hp

/-- The attached observation is a newest one of the interval, or there is none in it and
none is attached. -/
def Newest (lastLio lioTime : Double) (buffer : List (RTK C)) (rtk : RTK C) : Prop :=
  (rtk ∈ buffer ∧ InStep lastLio lioTime rtk ∧
    ∀ q ∈ buffer, InStep lastLio lioTime q → q.timestamp ≤ rtk.timestamp) ∨
  ((∀ q ∈ buffer, ¬InStep lastLio lioTime q) ∧ rtk = {})

/-- No observation lies in the interval, or a newest one of those in it waits behind none
that is later than the step, and no other of the interval follows it before one that is. -/
def NewestInFront (lastLio lioTime : Double) (buffer : List (RTK C)) : Prop :=
  (∀ q ∈ buffer, ¬InStep lastLio lioTime q) ∨
  ∃ pre rtk post, buffer = pre ++ rtk :: post ∧ InStep lastLio lioTime rtk ∧
    (∀ q ∈ buffer, InStep lastLio lioTime q → q.timestamp ≤ rtk.timestamp) ∧
    (∀ q ∈ pre, q.timestamp ≤ lioTime) ∧
    ∀ q ∈ popped lioTime post, ¬InStep lastLio lioTime q

theorem popped_append {lioTime : Double} (pre post : List (RTK C))
    (h : ∀ q ∈ pre, q.timestamp ≤ lioTime) :
    popped lioTime (pre ++ post) = pre ++ popped lioTime post :=
  List.takeWhile_append_of_pos fun q hq => by simpa using h q hq

theorem popped_append_dropWhile {lioTime : Double} {l : List (RTK C)} (buffer : List (RTK C))
    (h : ∀ q ∈ l, q.timestamp ≤ lioTime) :
    popped lioTime (l ++ buffer.dropWhile fun q => !decide (lioTime < q.timestamp)) = l := by
  rw [popped_append _ _ h]
  cases hrest : buffer.dropWhile fun q => !decide (lioTime < q.timestamp) with
  | nil => simp [popped]
  | cons q qs =>
    have hq := List.head?_dropWhile_not (fun q : RTK C => !decide (lioTime < q.timestamp)) buffer
    rw [hrest] at hq
    have hlate : lioTime < q.timestamp := by simpa using hq
    simp [popped, hlate]

/-- The last entry with a property, from one that has it. -/
theorem exists_last_split {α : Type} {P : α → Prop} {l : List α} (h : ∃ q ∈ l, P q) :
    ∃ pre a post, l = pre ++ a :: post ∧ P a ∧ ∀ q ∈ post, ¬P q := by
  induction l with
  | nil => simp at h
  | cons b l ih =>
    by_cases hl : ∃ q ∈ l, P q
    · obtain ⟨pre, a, post, rfl, ha, hpost⟩ := ih hl
      exact ⟨b :: pre, a, post, rfl, ha, hpost⟩
    · push Not at hl
      obtain ⟨q, hq, hPq⟩ := h
      rcases List.mem_cons.mp hq with rfl | hq
      · exact ⟨[], q, l, rfl, hPq, hl⟩
      · exact absurd hPq (hl q hq)

/-- What the loop attaches: the last observation of the interval in front of the first
one later than the step. -/
theorem sliceRtk_of_split {lastLio lioTime : Double} {pre post : List (RTK C)} {rtk : RTK C}
    (hpre : ∀ q ∈ pre, q.timestamp ≤ lioTime) (hin : InStep lastLio lioTime rtk)
    (hvalid : rtk.valid = true) (hpost : ∀ q ∈ popped lioTime post, ¬InStep lastLio lioTime q)
    (acc : RTK C) : (sliceRtk lastLio lioTime (pre ++ rtk :: post) acc).1 = rtk := by
  have hfront : popped lioTime (rtk :: post) = rtk :: popped lioTime post :=
    popped_append [rtk] post (by simpa using hin.2)
  have hnone : (popped lioTime post).filter (fun q => lastLio < q.timestamp && q.valid) = [] := by
    refine List.filter_eq_nil_iff.mpr fun q hq hkeep => hpost q hq ⟨?_, (mem_popped hq).2⟩
    simp only [Bool.and_eq_true, decide_eq_true_eq] at hkeep
    exact hkeep.1
  have hkeep : (decide (lastLio < rtk.timestamp) && rtk.valid) = true := by simp [hin.1, hvalid]
  have hlast : (rtk :: popped lioTime post).filter (fun q => lastLio < q.timestamp && q.valid) =
      [rtk] := by
    rw [List.filter_cons, if_pos hkeep, hnone]
  rw [sliceRtk_eq, popped_append _ _ hpre, hfront, List.filter_append, hlast]
  simp

/-- The loop attaches nothing, or its list of candidates ends with what it attaches. -/
theorem sliceRtk_cases {buffer : List (RTK C)} (hvalid : ∀ q ∈ buffer, q.valid = true)
    (lastLio lioTime : Double) :
    ((∀ q ∈ popped lioTime buffer, ¬InStep lastLio lioTime q) ∧
      (sliceRtk lastLio lioTime buffer {}).1 = {}) ∨
    ∃ pre rtk post, buffer = pre ++ rtk :: post ∧ InStep lastLio lioTime rtk ∧
      (∀ q ∈ pre, q.timestamp ≤ lioTime) ∧
      (∀ q ∈ popped lioTime post, ¬InStep lastLio lioTime q) ∧
      (sliceRtk lastLio lioTime buffer {}).1 = rtk := by
  by_cases hnone : ∀ q ∈ popped lioTime buffer, ¬InStep lastLio lioTime q
  · refine .inl ⟨hnone, ?_⟩
    have hnil : (popped lioTime buffer).filter (fun q => lastLio < q.timestamp && q.valid) = [] := by
      refine List.filter_eq_nil_iff.mpr fun q hq hkeep => hnone q hq ⟨?_, (mem_popped hq).2⟩
      simp only [Bool.and_eq_true, decide_eq_true_eq] at hkeep
      exact hkeep.1
    rw [sliceRtk_eq, hnil]
    rfl
  · -- The last of the interval among the observations that the loop pops.
    push Not at hnone
    obtain ⟨pre, rtk, post, hsplit, hin, hpost⟩ := exists_last_split hnone
    have hpre : ∀ q ∈ pre, q.timestamp ≤ lioTime := fun q hq =>
      (mem_popped (hsplit ▸ List.mem_append_left _ hq)).2
    have hbuffer : buffer =
        pre ++ rtk :: (post ++ buffer.dropWhile fun q => !decide (lioTime < q.timestamp)) := by
      conv_lhs => rw [← List.takeWhile_append_dropWhile
        (p := fun q : RTK C => !decide (lioTime < q.timestamp)) (l := buffer)]
      show popped lioTime buffer ++ _ = _
      rw [hsplit, List.append_assoc, List.cons_append]
    have hrest : popped lioTime
        (post ++ buffer.dropWhile fun q => !decide (lioTime < q.timestamp)) = post :=
      popped_append_dropWhile buffer fun q hq =>
        (mem_popped (hsplit ▸ List.mem_append_right _ (List.mem_cons_of_mem _ hq))).2
    have hrtk : rtk ∈ buffer := by
      rw [hbuffer]
      exact List.mem_append_right _ List.mem_cons_self
    refine .inr ⟨pre, rtk, _, hbuffer, hin, hpre, by rwa [hrest], ?_⟩
    conv_lhs => rw [hbuffer]
    exact sliceRtk_of_split hpre hin (hvalid rtk hrtk) (by rwa [hrest]) {}

theorem newest_iff {lastLio lioTime : Double} {buffer : List (RTK C)}
    (hvalid : ∀ q ∈ buffer, q.valid = true) :
    Newest lastLio lioTime buffer (sliceRtk lastLio lioTime buffer {}).1 ↔
      NewestInFront lastLio lioTime buffer := by
  constructor
  · rintro (⟨hmem, hin, hmax⟩ | ⟨hnone, -⟩)
    · rcases sliceRtk_cases hvalid lastLio lioTime with ⟨-, hdefault⟩ | ⟨pre, rtk, post, hbuffer, hin', hpre, hpost, hrtk⟩
      · -- The default is no valid observation, so it does not come from the buffer.
        rw [hdefault] at hmem
        exact absurd (hvalid _ hmem) Bool.false_ne_true
      · rw [hrtk] at hmax
        exact .inr ⟨pre, rtk, post, hbuffer, hin', hmax, hpre, hpost⟩
    · exact .inl hnone
  · rintro (hnone | ⟨pre, rtk, post, hbuffer, hin, hmax, hpre, hpost⟩)
    · rcases sliceRtk_cases hvalid lastLio lioTime with ⟨-, hdefault⟩ | ⟨pre, rtk, post, hbuffer, hin', -, -, -⟩
      · exact .inr ⟨hnone, hdefault⟩
      · exact absurd hin' (hnone rtk (hbuffer ▸ List.mem_append_right _ List.mem_cons_self))
    · have hmem : rtk ∈ buffer := hbuffer ▸ List.mem_append_right _ List.mem_cons_self
      have hrtk : (sliceRtk lastLio lioTime buffer {}).1 = rtk := by
        conv_lhs => rw [hbuffer]
        exact sliceRtk_of_split hpre hin (hvalid rtk hmem) hpost {}
      rw [hrtk]
      exact .inl ⟨hmem, hin, hmax⟩

/-! ## Runs -/

theorem sliceLivoRtk_kept (cfg : Config C) (lastLio lioTime : Double) (r : RtkFrontend C) :
    (sliceLivoRtk cfg lastLio lioTime r).2.rtkBuffer <:+ r.rtkBuffer ∧
      (sliceLivoRtk cfg lastLio lioTime r).2.rtkSeq = r.rtkSeq ∧
      (sliceLivoRtk cfg lastLio lioTime r).2.rtkIni = r.rtkIni := by
  unfold sliceLivoRtk
  split
  · refine ⟨?_, rfl, rfl⟩
    rw [sliceRtk_eq]
    exact List.dropWhile_suffix _
  · exact ⟨List.suffix_refl _, rfl, rfl⟩

theorem LivoSync.rtkQueue {s t : LIVMapper C} {b : Bool} (h : LivoSync cfg s b t)
    (hq : RtkQueue cfg s.rtk) : RtkQueue cfg t.rtk := by
  cases h with
  | idle => exact hq
  | hold => exact hq
  | throwImage => exact hq
  | lio =>
    obtain ⟨hbuf, hseq, hini⟩ := sliceLivoRtk_kept cfg _ _ s.rtk
    exact hq.suffix hbuf hseq hini
  | vio => exact hq

theorem step_rtkQueue (hm : cfg.slamMode = .livo) {w w' : World C} {e : Event C}
    (hq : RtkQueue cfg w.mapper.rtk) (hst : step cfg K w e = some w') :
    RtkQueue cfg w'.mapper.rtk := by
  by_cases he : e = .spin
  · subst he
    cases spinOnce_cases hst with
    | wait h => exact (syncPackages_livo hm h).rtkQueue hq
    | sync h hwork =>
      have hkept := processMeasures_rtk hwork
      exact ((syncPackages_livo hm h).rtkQueue hq).suffix (hkept.buffer ▸ List.suffix_refl _)
        hkept.seq hkept.ini
  · exact hq.move (step_rtk_move hst he)

theorem Setup.Reachable.rtkQueue {S : Setup C} (hm : S.cfg.slamMode = .livo) {w : World C}
    (h : S.Reachable w) : RtkQueue S.cfg w.mapper.rtk :=
  h.invariant ⟨by simp [Setup.init, LIVMapper.init], by simp [Setup.init, LIVMapper.init],
    by simp [Setup.init, LIVMapper.init], by simp [Setup.init, LIVMapper.init]⟩
    fun _ _ hq _ hst => step_rtkQueue hm hq hst

/-- The measurement of the LIO half has a newest observation of its interval, or none
when the buffer held none of it. -/
def NewestAttached (s t : LIVMapper C) : Prop :=
  ∃ m ∈ t.meas.measures.getLast?,
    Newest t.meas.lastLioUpdateTime m.lioTime s.rtk.rtkBuffer m.rtk

/-- The order of arrival left the newest observation of the coming step in place. -/
def NewestWaits (cfg : Config C) (s : LIVMapper C) : Prop :=
  ∃ lastLio, LastLio s lastLio ∧ ∃ time ∈ s.buf.imgTimeBuffer.head?,
    NewestInFront lastLio (time + cfg.exposureTimeInit) s.rtk.rtkBuffer

theorem LastLio.unique {s : LIVMapper C} {a b : Double} (ha : LastLio s a) (hb : LastLio s b) :
    a = b := by
  rcases ha with ⟨hneg, ha⟩ | ⟨hpos, rfl⟩ <;> rcases hb with ⟨hneg', hb⟩ | ⟨hpos', rfl⟩
  · exact Option.some.inj (ha.symm.trans hb)
  · exact absurd hneg (not_lt.mpr hpos')
  · exact absurd hneg' (not_lt.mpr hpos)
  · rfl

theorem sliceLivoRtk_of_ini {r : RtkFrontend C} (hq : RtkQueue cfg r) (hini : r.rtkIni = true)
    (lastLio lioTime : Double) :
    (sliceLivoRtk cfg lastLio lioTime r).1 = (sliceRtk lastLio lioTime r.rtkBuffer {}).1 := by
  simp [sliceLivoRtk, hini, hq.enabled hini]

/-- An aligned LIO half attaches the newest observation of its interval exactly when the
late ones did not displace it in the buffer. -/
theorem newest_attached_iff (S : Setup C) (hm : S.cfg.slamMode = .livo) {w : World C}
    (hw : S.Reachable w) {t : LIVMapper C} (hsync : syncPackages S.cfg w.mapper = some (true, t))
    (hlio : t.meas.lioVioFlg = .lio) (hini : w.mapper.rtk.rtkIni = true) :
    NewestAttached w.mapper t ↔ NewestWaits S.cfg w.mapper := by
  have hq := hw.rtkQueue hm
  cases syncPackages_livo hm hsync with
  | @lio time lastLio lioTime times headers raw cur next hflg hlast htime himu hlioTime hnew hcut =>
    have hwaits : NewestWaits S.cfg w.mapper ↔
        NewestInFront lastLio lioTime w.mapper.rtk.rtkBuffer := by
      constructor
      · rintro ⟨lastLio', hlast', time', htime', hfront⟩
        rw [htime, List.head?_cons, Option.mem_some_iff] at htime'
        rwa [hlast'.unique hlast, ← htime', ← hlioTime] at hfront
      · intro hfront
        exact ⟨lastLio, hlast, time, Option.mem_def.mpr (by rw [htime, List.head?_cons]), hlioTime ▸ hfront⟩
    rw [hwaits, ← newest_iff hq.valid, ← sliceLivoRtk_of_ini hq hini]
    simp [NewestAttached]
  | vio => cases hlio

/-- The mapper with an RTK receiver that is aligned by one match. -/
def Setup.withRtk : Setup Carrier.trivial :=
  .trivial {
    rtkEn := true, navsatfix := true, onlineRtkMinMatches := 1, onlineRtkMinDistance := 0
    uninit := .zero }

/-- A fix at the origin. -/
def NavSatFix.at (sec : Int) (nanosec : Nat) : Event Carrier.trivial :=
  .navSatFix ⟨⟨sec, nanosec⟩, true, (), some 0, some 0, some 0⟩

/-- Two images, the fix that aligns the receiver, further fixes and the third image. -/
def alignedRun (fixes : List (Event Carrier.trivial)) : List (Event Carrier.trivial) :=
  twoImages ++ [NavSatFix.at 1 80000000] ++ fixes ++
    [ImuMsg.at 1 100000000, ImuMsg.at 1 120000000, ImageMsg.at 1 120000000]

/-- Fixes in the order of their stamps. -/
theorem newest_attached_iff_run :
    ∃ w t, Setup.withRtk.Reachable w ∧ syncPackages Setup.withRtk.cfg w.mapper = some (true, t) ∧
      w.mapper.rtk.rtkBuffer.length = 3 ∧
      (NewestAttached w.mapper t ↔ NewestWaits Setup.withRtk.cfg w.mapper) := by
  have hrun : (exec Setup.withRtk.step Setup.withRtk.init
      (alignedRun [NavSatFix.at 1 100000000, NavSatFix.at 1 110000000])).any (fun w =>
        (syncPackages Setup.withRtk.cfg w.mapper).any fun r => decide (r.1 = true ∧
          r.2.meas.lioVioFlg = .lio ∧ w.mapper.rtk.rtkIni = true ∧
          w.mapper.rtk.rtkBuffer.length = 3)) = true := by decide +kernel
  obtain ⟨w, hw, htest⟩ := exists_exec_of_any _ hrun
  obtain ⟨⟨b, t⟩, hsync, htest⟩ := (Option.any_eq_true _ _).mp htest
  obtain ⟨hb, hlio, hini, hlen⟩ := of_decide_eq_true htest
  obtain rfl : b = true := hb
  exact ⟨w, t, .of_exec hw, hsync, hlen,
    newest_attached_iff Setup.withRtk (by decide) (.of_exec hw) hsync hlio hini⟩

/-- The fix of 1.10 s arrives after the one of 1.11 s and is the one attached to the
step that ends at 1.12 s. -/
theorem newest_displaced :
    ∃ w t, exec Setup.withRtk.step Setup.withRtk.init
        (alignedRun [NavSatFix.at 1 110000000, NavSatFix.at 1 100000000]) = some w ∧
      syncPackages Setup.withRtk.cfg w.mapper = some (true, t) ∧ t.meas.lioVioFlg = .lio ∧
      w.mapper.rtk.rtkIni = true ∧ ¬NewestAttached w.mapper t := by
  have hrun : (exec Setup.withRtk.step Setup.withRtk.init
      (alignedRun [NavSatFix.at 1 110000000, NavSatFix.at 1 100000000])).any (fun w =>
        (syncPackages Setup.withRtk.cfg w.mapper).any fun r => decide (r.1 = true ∧
          r.2.meas.lioVioFlg = .lio ∧ w.mapper.rtk.rtkIni = true ∧
          ∀ m ∈ r.2.meas.measures.getLast?, ∃ q ∈ w.mapper.rtk.rtkBuffer,
            InStep r.2.meas.lastLioUpdateTime m.lioTime q ∧ m.rtk.timestamp < q.timestamp)) =
      true := by decide +kernel
  obtain ⟨w, hw, htest⟩ := exists_exec_of_any _ hrun
  obtain ⟨⟨b, t⟩, hsync, htest⟩ := (Option.any_eq_true _ _).mp htest
  obtain ⟨hb, hlio, hini, hlater⟩ := of_decide_eq_true htest
  obtain rfl : b = true := hb
  refine ⟨w, t, hw, hsync, hlio, hini, ?_⟩
  rintro ⟨m, hm, hnewest⟩
  obtain ⟨q, hq, hin, hlt⟩ := hlater m hm
  rcases hnewest with ⟨-, -, hmax⟩ | ⟨hnone, -⟩
  · exact absurd (hmax q hq hin) (not_le.mpr hlt)
  · exact hnone q hq hin

end FastLivo
