import FastLivo.Lib.Ghost
import FastLivo.Lib.TimedQueue
import FastLivo.Mapper.Effects

/-!
# Propagation at IMU rate

`imu_prop_callback` replays the buffered samples after an EKF update and otherwise adds the newest
sample to the state it has. The state is the replay of everything received when every tick finds
exactly one new sample and the buffer still holds what an EKF update makes it go back to.
-/

namespace FastLivo

open Lib

variable {C : Carrier}

/-! ## Replay -/

section Replay

variable (K : Kernel C) (norm : C.Scalar)

/-- The state propagated from a time through the samples, each over the interval from the time
before it. -/
def replay : Double → StatesGroup C → List (Imu C) → StatesGroup C
  | _, state, [] => state
  | time, state, m :: ms =>
    replay m.sec
      (K.propImuOnce norm state (m.sec - time) m.linearAcceleration m.angularVelocity) ms

/-- Samples that are not older than a time. -/
def samplesFrom (time : Double) (ms : List (Imu C)) : List (Imu C) :=
  ms.filter fun m => decide (time ≤ m.sec)

theorem propImuLoop_eq (ekfTime : Double) (ms : List (Imu C)) (state : StatesGroup C)
    (last : Double) :
    (propImuLoop K norm ekfTime ms (state, last)).1 = replay K norm (ekfTime + last) state ms := by
  induction ms generalizing state last with
  | nil => rfl
  | cons m ms ih =>
    have hdt : m.sec - ekfTime - last = m.sec - (ekfTime + last) := by ring
    rw [propImuLoop, ih, replay, hdt, add_sub_cancel]

theorem propImuLoop_append (ekfTime : Double) (ms ms' : List (Imu C))
    (acc : StatesGroup C × Double) :
    propImuLoop K norm ekfTime (ms ++ ms') acc =
      propImuLoop K norm ekfTime ms' (propImuLoop K norm ekfTime ms acc) := by
  induction ms generalizing acc with
  | nil => rfl
  | cons m ms ih =>
    rw [List.cons_append, propImuLoop, ih, propImuLoop]

end Replay

/-! ## Effects on the propagation -/

/-- A step of the estimator leaves the propagation alone or hands it a new EKF state. -/
def EkfHandOver (cfg : Config C) (p p' : ImuPropagation C) : Prop :=
  p' = p ∨ cfg.imuPropEnable = true ∧ ∃ state time, p' = { p with
    ekfFinishOnce := true, latestEkfState := state, latestEkfTime := time, stateUpdateFlg := true }

section Work

variable {cfg : Config C} {K : Kernel C}

theorem finishEkf_handOver (s : LIVMapper C) : EkfHandOver cfg s.prop (finishEkf cfg s).prop := by
  unfold finishEkf
  split
  · rename_i hen
    exact .inr ⟨hen, _, _, rfl⟩
  · exact .inl rfl

theorem publishFrameWorld_prop (cfg : Config C) (K : Kernel C) (s : LIVMapper C) :
    (publishFrameWorld cfg K s).1.prop = s.prop := by
  have hpush : ∀ s : LIVMapper C, (pushLivoState cfg K s).prop = s.prop := by
    intro s
    unfold pushLivoState
    split <;> rfl
  unfold publishFrameWorld
  split
  · rfl
  · by_cases himg : cfg.imgEn = true
    · simp only [himg, if_true]
      exact hpush _
    · simp only [himg]
      exact hpush s

theorem updateLio_handOver (rtk : RTK C) (s : LIVMapper C) :
    EkfHandOver cfg s.prop (updateLio cfg K rtk s).1.prop := by
  have hest : EkfHandOver cfg s.prop
      (estimateLio cfg K rtk (K.downSizeFilterSurf s.est.featsUndistort) s).prop :=
    finishEkf_handOver _
  unfold updateLio
  by_cases himg : cfg.imgEn = true
  · simp only [himg, if_true]
    exact hest
  · simp only [himg]
    have hframe := publishFrameWorld_prop cfg K
      (updateMap cfg K (K.downSizeFilterSurf s.est.featsUndistort)
        (estimateLio cfg K rtk (K.downSizeFilterSurf s.est.featsUndistort) s))
    exact hframe ▸ hest

theorem updateVio_handOver (m : MeasureGroup C) (s : LIVMapper C) :
    EkfHandOver cfg s.prop (updateVio cfg K m s).1.prop := by
  have hest : EkfHandOver cfg s.prop (estimateVio cfg K m s).prop := finishEkf_handOver _
  have hframe := publishFrameWorld_prop cfg K (estimateVio cfg K m s)
  exact hframe ▸ hest

theorem stateEstimationAndMapping_handOver {s t : LIVMapper C} {out : List (Output C)}
    (h : stateEstimationAndMapping cfg K s = some (t, out)) : EkfHandOver cfg s.prop t.prop := by
  have hlio : handleLio cfg K s = some (t, out) → EkfHandOver cfg s.prop t.prop := by
    intro h
    unfold handleLio at h
    split at h
    · cases h
      exact .inl rfl
    · obtain ⟨m, -, hm⟩ := Option.map_eq_some_iff.mp h
      exact congrArg (fun r => r.1.prop) hm ▸ updateLio_handOver m.rtk s
  unfold stateEstimationAndMapping at h
  cases hflg : s.meas.lioVioFlg with
  | wait =>
    rw [hflg] at h
    cases h
    exact .inl rfl
  | lio =>
    rw [hflg] at h
    exact hlio h
  | lo =>
    rw [hflg] at h
    exact hlio h
  | vio =>
    rw [hflg] at h
    simp only [handleVio] at h
    split at h
    · cases h
      exact .inl rfl
    · obtain ⟨m, -, hm⟩ := Option.map_eq_some_iff.mp h
      exact congrArg (fun r => r.1.prop) hm ▸ updateVio_handOver m s

/-- The IMU initialises once, and `IMU_mean_acc_norm` stays from then on. -/
structure ImuSettles (p p' : ImuProcess C) : Prop where
  needInit : p'.imuNeedInit = true → p.imuNeedInit = true
  norm : p.imuNeedInit = false → p'.imuMeanAccNorm = p.imuMeanAccNorm

theorem ImuSettles.trans {p q r : ImuProcess C} (h : ImuSettles p q) (h' : ImuSettles q r) :
    ImuSettles p r where
  needInit hneed := h.needInit (h'.needInit hneed)
  norm hno := by
    have hq : q.imuNeedInit = false := by
      by_contra hne
      simp [h.needInit (by simpa using hne)] at hno
    rw [h'.norm hq, h.norm hno]

theorem undistortPcl_settles (K : ImuKernel C) (g : LidarMeasureGroup C) (m : MeasureGroup C)
    (state : StatesGroup C) (p : ImuProcess C) : ImuSettles p (undistortPcl K g m state p).1 := by
  have hforward : ImuSettles p (undistortForward K g m state p).1 := by
    unfold undistortForward
    by_cases hlio : g.lioVioFlg = .lio
    · simp only [hlio, true_or, if_true]
      exact ⟨id, fun _ => rfl⟩
    · simp only [hlio, if_false]
      exact ⟨id, fun _ => rfl⟩
  unfold undistortPcl
  simp only
  split
  · exact hforward
  · split <;> exact ⟨hforward.needInit, hforward.norm⟩

theorem process2_settles {icfg : ImuConfig} {K : ImuKernel C} {T : C.SE3}
    {g g' : LidarMeasureGroup C} {state state' : StatesGroup C} {cur out : List PointType}
    {p p' : ImuProcess C} (h : process2 icfg K T g state cur p = some (p', g', state', out)) :
    ImuSettles p p' := by
  unfold process2 at h
  split at h
  · unfold forwardWithoutImu at h
    simp only at h
    split at h
    · cases h
    · cases h
      exact ⟨id, fun _ => rfl⟩
  · split at h
    · cases h
    · split at h
      · rename_i hneed
        exact ⟨fun _ => hneed, fun hno => by simp [hneed] at hno⟩
      · obtain rfl : _ = p' := congrArg Prod.fst (Option.some.inj h)
        exact undistortPcl_settles _ _ _ _ _

theorem processImu_keeps {s t : LIVMapper C} (h : processImu cfg K s = some t) :
    t.prop = s.prop ∧ ImuSettles s.imu t.imu := by
  unfold processImu at h
  obtain ⟨⟨imu, meas, state, feats⟩, hp, ht⟩ := Option.bind_eq_some_iff.mp h
  have hsettles := process2_settles hp
  have hgravity : ∀ s : LIVMapper C, (gravityAlignment K s).prop = s.prop := by
    intro s
    unfold gravityAlignment
    split <;> rfl
  have he := Option.some.inj ht
  subst he
  by_cases hgrav : cfg.gravityAlignEn = true
  · simp only [hgrav, if_true]
    refine ⟨hgravity _, ?_⟩
    have himu := (gravityAlignment_keeps (K := K) { s with
      imu := imu, meas := meas, est := { s.est with state := state, featsUndistort := feats } }).imu
    exact himu ▸ hsettles
  · simp only [hgrav]
    exact ⟨rfl, hsettles⟩

theorem processMeasures_handOver {t u : LIVMapper C} {out : List (Output C)}
    (h : processMeasures cfg K t = some (u, out)) :
    EkfHandOver cfg t.prop u.prop ∧ ImuSettles t.imu u.imu ∧ u.buf = t.buf := by
  have hbuf := (processMeasures_cases h).buf
  unfold processMeasures at h
  obtain ⟨v, himu, hest⟩ := Option.bind_eq_some_iff.mp h
  obtain ⟨hprop, hsettles⟩ := processImu_keeps himu
  have hfirst : (handleFirstFrame t).prop = t.prop ∧ ImuSettles t.imu (handleFirstFrame t).imu := by
    unfold handleFirstFrame
    split <;> exact ⟨rfl, id, fun _ => rfl⟩
  have hover := stateEstimationAndMapping_handOver hest
  rw [hprop, hfirst.1] at hover
  have hkeeps := (stateEstimationAndMapping_keeps hest).imu
  refine ⟨hover, hkeeps ▸ hfirst.2.trans hsettles, hbuf⟩

/-- What a call of `sync_packages` leaves alone. -/
theorem syncPackages_keeps {s t : LIVMapper C} {ok : Bool}
    (h : syncPackages cfg s = some (ok, t)) :
    t.prop = s.prop ∧ t.imu = s.imu ∧ t.buf.lastTimestampImu = s.buf.lastTimestampImu := by
  cases hmode : cfg.slamMode with
  | livo => cases syncPackages_livo hmode h <;> exact ⟨rfl, rfl, rfl⟩
  | onlyLio =>
    cases syncPackages_onlyLio hmode h with
    | idle => exact ⟨rfl, rfl, rfl⟩
    | refuse => exact ⟨rfl, rfl, rfl⟩
    | wait hscan => cases hscan <;> exact ⟨rfl, rfl, rfl⟩
    | deliver hscan => cases hscan <;> exact ⟨rfl, rfl, rfl⟩
  | onlyLo => cases syncPackages_onlyLo hmode h <;> exact ⟨rfl, rfl, rfl⟩

end Work

/-! ## Runs -/

/-- `imu_prop_callback` gets past its first line. -/
def serves (s : LIVMapper C) : Bool :=
  !(s.imu.imuNeedInit || !s.prop.newImu || !s.prop.ekfFinishOnce)

/-- `imu_prop_callback` publishes. -/
def publishes (cfg : Config C) (s : LIVMapper C) : Bool :=
  serves s && (cfg.imuPropEnable && !s.prop.propImuBuffer.isEmpty)

section Tick

variable {cfg : Config C} {K : Kernel C} {s : LIVMapper C}

theorem imuPropCallback_return (h : serves s = false) : imuPropCallback cfg K s = (s, []) := by
  have hreturn : (s.imu.imuNeedInit || !s.prop.newImu || !s.prop.ekfFinishOnce) = true := by
    simpa only [serves, Bool.not_eq_false'] using h
  unfold imuPropCallback
  rw [if_pos hreturn]

theorem imuPropCallback_skip (h : serves s = true) (hno : publishes cfg s = false) :
    imuPropCallback cfg K s = ({ s with prop := { s.prop with newImu := false } }, []) := by
  have hnot : (cfg.imuPropEnable && !s.prop.propImuBuffer.isEmpty) = false := by
    rwa [publishes, h, Bool.true_and] at hno
  unfold serves at h
  unfold imuPropCallback
  rw [if_neg (by simpa using h)]
  simp only [hnot]
  rfl

theorem imuPropCallback_publish (h : publishes cfg s = true) :
    let prop := propagateImu K s.imu.imuMeanAccNorm { s.prop with newImu := false }
    imuPropCallback cfg K s =
      ({ s with prop := prop }, [.imuPropagate prop.newestImu.stamp prop.imuPropagate]) := by
  obtain ⟨hserves, hon⟩ := (Bool.and_eq_true _ _).mp h
  unfold serves at hserves
  unfold imuPropCallback
  rw [if_neg (by simpa using hserves)]
  simp only [hon, if_true]

variable {norm : C.Scalar} {p : ImuPropagation C}

theorem propagateImu_replay (h : p.stateUpdateFlg = true) {kept : List (Imu C)}
    (hkept : (p.propImuBuffer.dropWhile fun m => decide (m.sec < p.latestEkfTime)) = kept) :
    propagateImu K norm p = { p with
      imuPropagate := (propImuLoop K norm p.latestEkfTime kept (p.latestEkfState, 0)).1
      propImuBuffer := kept
      lastTFromLidarEndTime := (propImuLoop K norm p.latestEkfTime kept (p.latestEkfState, 0)).2
      stateUpdateFlg := false } := by
  unfold propagateImu
  rw [if_pos h]
  simp only [hkept]

theorem propagateImu_newest (h : p.stateUpdateFlg = false) :
    propagateImu K norm p = { p with
      imuPropagate := (propImuLoop K norm p.latestEkfTime [p.newestImu]
        (p.imuPropagate, p.lastTFromLidarEndTime)).1
      lastTFromLidarEndTime := (propImuLoop K norm p.latestEkfTime [p.newestImu]
        (p.imuPropagate, p.lastTFromLidarEndTime)).2 } := by
  unfold propagateImu
  rw [if_neg (by simp [h])]

end Tick

/-- Number of samples accepted before the last tick that got past the first line. -/
def servedUpdate (w : World C) (e : Event C) (_ : World C) (n : ℕ) : ℕ :=
  match e with
  | .imuPropTimer => if serves w.mapper then w.hist.imuAccepted.length else n
  | _ => n

/-- Runs with that number. -/
def Setup.stepServed (S : Setup C) : World C × ℕ → Event C → Option (World C × ℕ) :=
  withGhost S.step servedUpdate

/-- Accepted samples that `prop_imu_buffer` does not hold: those from before the initialisation
and those that an earlier replay dropped. -/
def unbuffered (w : World C) : List (Imu C) :=
  w.hist.imuAccepted.take (w.hist.imuAccepted.length - w.mapper.prop.propImuBuffer.length)

/-- A publishing tick finds one new sample, which is not older than the EKF state, or it finds a
new EKF state and no sample from its time on is missing in the buffer. -/
def Setup.TickKeepsUp (S : Setup C) (p : World C × ℕ) : Event C → Prop
  | .imuPropTimer => publishes S.cfg p.1.mapper = true →
      if p.1.mapper.prop.stateUpdateFlg then
        ∀ m ∈ unbuffered p.1, m.sec < p.1.mapper.prop.latestEkfTime
      else
        p.1.hist.imuAccepted.length = p.2 + 1 ∧
          p.1.mapper.prop.latestEkfTime ≤ p.1.mapper.prop.newestImu.sec
  | _ => True

/-- The propagated state with its last time, as the replay of the first samples. -/
def Replayed (S : Setup C) (w : World C) (ms : List (Imu C)) : Prop :=
  (w.mapper.prop.imuPropagate, w.mapper.prop.lastTFromLidarEndTime) =
    propImuLoop S.kernel w.mapper.imu.imuMeanAccNorm w.mapper.prop.latestEkfTime
      (samplesFrom w.mapper.prop.latestEkfTime ms) (w.mapper.prop.latestEkfState, 0)

structure ReplayInv (S : Setup C) (w : World C) (n : ℕ) : Prop where
  sorted : Sorted Imu.sec w.hist.imuAccepted
  stamps : ∀ m ∈ w.hist.imuAccepted, m.sec ≤ (rosTime w.mapper.buf.lastTimestampImu).toSec
  suffix : w.mapper.prop.propImuBuffer <:+ w.hist.imuAccepted
  initialising : w.mapper.imu.imuNeedInit = true → w.mapper.prop.propImuBuffer = []
  disabled : S.cfg.imuPropEnable = false →
    w.mapper.prop.propImuBuffer = [] ∧ w.mapper.prop.ekfFinishOnce = false
  newest : S.cfg.imuPropEnable = true →
    ∀ m ∈ w.hist.imuAccepted.getLast?, w.mapper.prop.newestImu = m
  served : n ≤ w.hist.imuAccepted.length
  fresh : w.mapper.prop.newImu = true → n < w.hist.imuAccepted.length
  /-- Between two EKF updates the state is the replay of what was there at the last tick. -/
  replayed : w.mapper.prop.ekfFinishOnce = true → w.mapper.prop.stateUpdateFlg = false →
    w.mapper.imu.imuNeedInit = false ∧
      w.hist.imuAccepted.length - w.mapper.prop.propImuBuffer.length ≤ n ∧
      Replayed S w (w.hist.imuAccepted.take n)

section Invariant

variable {S : Setup C} {w w' : World C} {n : ℕ}

/-- Effects on no sample, with or without a new EKF state. -/
theorem ReplayInv.quiet (h : ReplayInv S w n)
    (hprop : EkfHandOver S.cfg w.mapper.prop w'.mapper.prop)
    (himu : ImuSettles w.mapper.imu w'.mapper.imu)
    (hlast : w'.mapper.buf.lastTimestampImu = w.mapper.buf.lastTimestampImu)
    (hacc : w'.hist.imuAccepted = w.hist.imuAccepted) : ReplayInv S w' n := by
  obtain hsame | ⟨hen, state, time, hprop⟩ := hprop
  · exact
      { sorted := by rw [hacc]; exact h.sorted
        stamps := by rw [hacc, hlast]; exact h.stamps
        suffix := by rw [hsame, hacc]; exact h.suffix
        initialising := fun hneed => by rw [hsame]; exact h.initialising (himu.needInit hneed)
        disabled := by rw [hsame]; exact h.disabled
        newest := by rw [hsame, hacc]; exact h.newest
        served := by rw [hacc]; exact h.served
        fresh := by rw [hsame, hacc]; exact h.fresh
        replayed := by
          rw [hsame, hacc]
          intro honce hflg
          obtain ⟨hneed, hlost, hrep⟩ := h.replayed honce hflg
          refine ⟨?_, hlost, ?_⟩
          · by_contra hne
            simp [himu.needInit (by simpa using hne)] at hneed
          · rw [Replayed, hsame, himu.norm hneed]
            exact hrep }
  · exact
      { sorted := by rw [hacc]; exact h.sorted
        stamps := by rw [hacc, hlast]; exact h.stamps
        suffix := by rw [hprop, hacc]; exact h.suffix
        initialising := fun hneed => by rw [hprop]; exact h.initialising (himu.needInit hneed)
        disabled := fun hoff => by rw [hen] at hoff; cases hoff
        newest := by rw [hprop, hacc]; exact h.newest
        served := by rw [hacc]; exact h.served
        fresh := by rw [hprop, hacc]; exact h.fresh
        replayed := fun _ hflg => by rw [hprop] at hflg; cases hflg }

/-- A rejected sample changes nothing, an accepted one is not earlier than the others. -/
theorem ReplayInv.imu (h : ReplayInv S w n) (msg : ImuMsg C) :
    ReplayInv S (imuEvent S.cfg msg w) n := by
  cases hacc : acceptImu S.cfg msg w.mapper.buf with
  | none =>
    have hw : imuEvent S.cfg msg w = w := by simp [imuEvent, imuCbk, hacc]
    rwa [hw]
  | some r =>
    obtain ⟨m, b⟩ := r
    have hearlier : ∀ a ∈ w.hist.imuAccepted, a.sec ≤ m.sec := fun a ha =>
      (h.stamps a ha).trans (acceptImu_not_earlier hacc)
    obtain ⟨timestamp, -, -, hsec, -, -, rfl⟩ := acceptImu_cases hacc
    have htake : (w.hist.imuAccepted ++ [m]).take n = w.hist.imuAccepted.take n :=
      List.take_append_of_le_length h.served
    have hlength : (w.hist.imuAccepted ++ [m]).length = w.hist.imuAccepted.length + 1 :=
      List.length_append
    have hsorted : Sorted Imu.sec (w.hist.imuAccepted ++ [m]) :=
      List.pairwise_append.mpr ⟨h.sorted, List.pairwise_singleton _ _,
        fun a ha c hc => List.mem_singleton.mp hc ▸ hearlier a ha⟩
    have hstamps : ∀ a ∈ w.hist.imuAccepted ++ [m], a.sec ≤ (rosTime timestamp).toSec := by
      intro a ha
      rcases List.mem_append.mp ha with ha | ha
      · exact (hearlier a ha).trans hsec.le
      · exact (List.mem_singleton.mp ha ▸ hsec).le
    cases hen : S.cfg.imuPropEnable with
    | false =>
      obtain ⟨hempty, hno⟩ := h.disabled hen
      simp only [imuEvent, imuCbk, hacc, hen, Bool.false_eq_true, if_false, Option.map_some,
        Option.toList_some]
      exact
        { sorted := hsorted
          stamps := hstamps
          suffix := by simp [hempty]
          initialising := fun _ => hempty
          disabled := fun _ => ⟨hempty, hno⟩
          newest := fun hon => by simp [hen] at hon
          served := by simp only [hlength]; exact h.served.trans (Nat.le_succ _)
          fresh := fun hnew => by simp only [hlength]; exact (h.fresh hnew).trans (Nat.lt_succ_self _)
          replayed := fun honce => by simp [hno] at honce }
    | true =>
      simp only [imuEvent, imuCbk, hacc, hen, if_true, Option.map_some, Option.toList_some]
      exact
        { sorted := hsorted
          stamps := hstamps
          suffix := by
            cases hneed : w.mapper.imu.imuNeedInit with
            | true => simp [h.initialising hneed]
            | false =>
              obtain ⟨lost, hsplit⟩ := h.suffix
              exact ⟨lost, by simp [← hsplit]⟩
          initialising := fun hneed => by simp only at hneed; simp [hneed, h.initialising hneed]
          disabled := fun hoff => by simp [hen] at hoff
          newest := fun _ => by simp
          served := by simp only [hlength]; exact h.served.trans (Nat.le_succ _)
          fresh := fun _ => by simp only [hlength]; exact Nat.lt_succ_of_le h.served
          replayed := by
            intro honce hflg
            obtain ⟨hneed, hlost, hrep⟩ := h.replayed honce hflg
            refine ⟨hneed, ?_, ?_⟩
            · simp [hneed]
              omega
            · rw [Replayed, htake]
              exact hrep }

/-- The buffer holds the last accepted samples. -/
theorem ReplayInv.split (h : ReplayInv S w n) :
    w.hist.imuAccepted = unbuffered w ++ w.mapper.prop.propImuBuffer := by
  have hdrop := List.suffix_iff_eq_drop.mp h.suffix
  calc w.hist.imuAccepted
      = unbuffered w ++ w.hist.imuAccepted.drop
          (w.hist.imuAccepted.length - w.mapper.prop.propImuBuffer.length) :=
        (List.take_append_drop _ _).symm
    _ = unbuffered w ++ w.mapper.prop.propImuBuffer := by rw [← hdrop]

/-- When nothing from the EKF time on is missing, the replay finds all of it. -/
theorem ReplayInv.dropWhile_eq (h : ReplayInv S w n) {time : Double}
    (hlost : ∀ m ∈ unbuffered w, m.sec < time) :
    (w.mapper.prop.propImuBuffer.dropWhile fun m => decide (m.sec < time)) =
      samplesFrom time w.hist.imuAccepted := by
  have hnone : (unbuffered w).filter (fun m => decide (time ≤ m.sec)) = [] :=
    List.filter_eq_nil_iff.mpr fun m hm => by simpa using hlost m hm
  have hbuffer : Sorted Imu.sec w.mapper.prop.propImuBuffer := h.sorted.suffix h.suffix
  rw [hbuffer.dropWhile_eq_filter, samplesFrom, h.split, List.filter_append, hnone,
    List.nil_append]

/-- One new sample is the newest one. -/
theorem ReplayInv.snoc (h : ReplayInv S w n) (hen : S.cfg.imuPropEnable = true)
    (hone : w.hist.imuAccepted.length = n + 1) :
    w.hist.imuAccepted = w.hist.imuAccepted.take n ++ [w.mapper.prop.newestImu] := by
  have hlast : w.hist.imuAccepted.drop n = [w.mapper.prop.newestImu] := by
    obtain ⟨m, hm⟩ : ∃ m, w.hist.imuAccepted.drop n = [m] :=
      List.length_eq_one_iff.mp (by rw [List.length_drop]; omega)
    have hback : w.hist.imuAccepted.getLast? = some m := by
      rw [← List.take_append_drop n w.hist.imuAccepted, hm, List.getLast?_concat]
    rw [hm, h.newest hen m hback]
  calc w.hist.imuAccepted
      = w.hist.imuAccepted.take n ++ w.hist.imuAccepted.drop n :=
        (List.take_append_drop n _).symm
    _ = w.hist.imuAccepted.take n ++ [w.mapper.prop.newestImu] := by rw [hlast]

theorem serves_iff {s : LIVMapper C} : serves s = true ↔
    s.imu.imuNeedInit = false ∧ s.prop.newImu = true ∧ s.prop.ekfFinishOnce = true := by
  simp [serves, and_assoc]

/-- What a publishing tick that keeps up leaves. -/
structure Published (S : Setup C) (w : World C) (p : ImuPropagation C) : Prop where
  flg : p.stateUpdateFlg = false
  new : p.newImu = false
  newest : p.newestImu = w.mapper.prop.newestImu
  suffix : p.propImuBuffer <:+ w.mapper.prop.propImuBuffer
  replayed : (p.imuPropagate, p.lastTFromLidarEndTime) =
    propImuLoop S.kernel w.mapper.imu.imuMeanAccNorm p.latestEkfTime
      (samplesFrom p.latestEkfTime w.hist.imuAccepted) (p.latestEkfState, 0)

theorem ReplayInv.publish (h : ReplayInv S w n) (hpub : publishes S.cfg w.mapper = true)
    (hok : S.TickKeepsUp (w, n) .imuPropTimer) :
    Published S w (propagateImu S.kernel w.mapper.imu.imuMeanAccNorm
      { w.mapper.prop with newImu := false }) := by
  obtain ⟨hserves, hon⟩ := (Bool.and_eq_true _ _).mp hpub
  obtain ⟨hneed, hnew, honce⟩ := serves_iff.mp hserves
  have hen : S.cfg.imuPropEnable = true := ((Bool.and_eq_true _ _).mp hon).1
  have hok := hok hpub
  cases hflg : w.mapper.prop.stateUpdateFlg with
  | true =>
    simp only [hflg, if_true] at hok
    have hkept := h.dropWhile_eq hok
    rw [propagateImu_replay (p := { w.mapper.prop with newImu := false }) hflg hkept]
    exact
      { flg := rfl
        new := rfl
        newest := rfl
        suffix := hkept ▸ List.dropWhile_suffix _
        replayed := rfl }
  | false =>
    simp only [hflg, Bool.false_eq_true, if_false] at hok
    obtain ⟨hone, hlate⟩ := hok
    obtain ⟨-, -, hrep⟩ := h.replayed honce hflg
    have hfrom : samplesFrom w.mapper.prop.latestEkfTime w.hist.imuAccepted =
        samplesFrom w.mapper.prop.latestEkfTime (w.hist.imuAccepted.take n) ++
          [w.mapper.prop.newestImu] := by
      rw [h.snoc hen hone, samplesFrom, samplesFrom, List.filter_append,
        List.filter_cons_of_pos (by simpa using hlate), List.take_left' (by simp [hone])]
      rfl
    rw [propagateImu_newest (p := { w.mapper.prop with newImu := false }) hflg]
    exact
      { flg := hflg
        new := rfl
        newest := rfl
        suffix := List.suffix_refl _
        replayed := by
          rw [hfrom, propImuLoop_append, ← hrep] }

/-- A tick that keeps up. -/
theorem ReplayInv.tick (h : ReplayInv S w n) (hok : S.TickKeepsUp (w, n) .imuPropTimer)
    (hist : History C) (hhist : hist.imuAccepted = w.hist.imuAccepted) :
    ReplayInv S ⟨(imuPropCallback S.cfg S.kernel w.mapper).1, hist⟩
      (servedUpdate w .imuPropTimer w n) := by
  cases hserves : serves w.mapper with
  | false =>
    rw [imuPropCallback_return hserves]
    simp only [servedUpdate, hserves, Bool.false_eq_true, if_false]
    exact h.quiet (.inl rfl) ⟨id, fun _ => rfl⟩ rfl hhist
  | true =>
    obtain ⟨hneed, hnew, honce⟩ := serves_iff.mp hserves
    simp only [servedUpdate, hserves, if_true]
    have hen : S.cfg.imuPropEnable = true := by
      by_contra hoff
      simp [(h.disabled (by simpa using hoff)).2] at honce
    cases hpub : publishes S.cfg w.mapper with
    | false =>
      rw [imuPropCallback_skip hserves hpub]
      have hempty : w.mapper.prop.propImuBuffer = [] := by
        simpa [publishes, hserves, hen] using hpub
      exact
        { sorted := by simp only [hhist]; exact h.sorted
          stamps := by simp only [hhist]; exact h.stamps
          suffix := by simp only [hhist]; exact h.suffix
          initialising := h.initialising
          disabled := h.disabled
          newest := by simp only [hhist]; exact h.newest
          served := by simp [hhist]
          fresh := fun hnew => by cases hnew
          replayed := fun honce hflg => by
            -- An empty buffer without a new EKF state has no sample that is not served.
            obtain ⟨-, hlost, -⟩ := h.replayed honce hflg
            rw [hempty, List.length_nil, Nat.sub_zero] at hlost
            exact absurd (h.fresh hnew) (not_lt.mpr hlost) }
    | true =>
      have hdone := h.publish hpub hok
      rw [imuPropCallback_publish hpub]
      exact
        { sorted := by simp only [hhist]; exact h.sorted
          stamps := by simp only [hhist]; exact h.stamps
          suffix := by simp only [hhist]; exact hdone.suffix.trans h.suffix
          initialising := fun hinit => by simp only at hinit; rw [hneed] at hinit; cases hinit
          disabled := fun hoff => by rw [hen] at hoff; cases hoff
          newest := by simp only [hhist, hdone.newest]; exact h.newest
          served := by simp [hhist]
          fresh := fun hnew => by simp only [hdone.new] at hnew; cases hnew
          replayed := fun _ _ => by
            simp only [hhist, List.take_length]
            exact ⟨hneed, Nat.sub_le _ _, hdone.replayed⟩ }

/-- Every event whose tick keeps up. -/
theorem ReplayInv.step {e : Event C} (h : ReplayInv S w n) (hok : S.TickKeepsUp (w, n) e)
    (hst : S.step w e = some w') : ReplayInv S w' (servedUpdate w e w' n) := by
  cases e with
  | standardPcl msg =>
    cases hst
    obtain ⟨_, _, _, _, hb⟩ := (standardPclCbk_cases S.cfg msg w.mapper.buf).frame
    exact h.quiet (.inl rfl) ⟨id, fun _ => rfl⟩ (congrArg (·.lastTimestampImu) hb) rfl
  | livoxPcl msg =>
    cases hst
    obtain ⟨_, _, _, _, hb⟩ := (livoxPclCbk_cases S.cfg msg w.mapper.buf).frame
    exact h.quiet (.inl rfl) ⟨id, fun _ => rfl⟩ (congrArg (·.lastTimestampImu) hb) rfl
  | img msg =>
    cases hst
    obtain ⟨_, _, _, _, _, hb⟩ := (imgCbk_cases S.cfg msg w.mapper.buf).frame
    exact h.quiet (.inl rfl) ⟨id, fun _ => rfl⟩ (congrArg (·.lastTimestampImu) hb) rfl
  | imu msg =>
    cases hst
    exact h.imu msg
  | rtk msg =>
    have hw' := Option.some.inj hst
    subst hw'
    split
    · exact h.quiet (.inl rfl) ⟨id, fun _ => rfl⟩ rfl rfl
    · exact h
  | navSatFix msg =>
    have hw' := Option.some.inj hst
    subst hw'
    split
    · exact h.quiet (.inl rfl) ⟨id, fun _ => rfl⟩ rfl rfl
    · exact h
  | imuPropTimer =>
    cases hst
    exact h.tick hok _ rfl
  | spin =>
    cases spinOnce_cases hst with
    | wait hsync =>
      obtain ⟨hprop, himu, hlast⟩ := syncPackages_keeps hsync
      exact h.quiet (.inl hprop) ⟨fun hneed => himu ▸ hneed, fun _ => by rw [himu]⟩ hlast rfl
    | sync hsync hwork =>
      obtain ⟨hprop, himu, hlast⟩ := syncPackages_keeps hsync
      obtain ⟨hover, hsettles, hbuf⟩ := processMeasures_handOver hwork
      refine h.quiet (hprop ▸ hover) (himu ▸ hsettles) ?_ rfl
      exact (congrArg (·.lastTimestampImu) hbuf).trans hlast

theorem ReplayInv.init (S : Setup C) : ReplayInv S S.init 0 where
  sorted := List.Pairwise.nil
  stamps := fun m hm => absurd hm List.not_mem_nil
  suffix := List.suffix_refl _
  initialising := fun _ => rfl
  disabled := fun _ => ⟨rfl, rfl⟩
  newest := fun _ m hm => by cases hm
  served := le_rfl
  fresh := fun hnew => by cases hnew
  replayed := fun honce => by cases honce

theorem Setup.replayInv (hrun : Reach S.stepServed S.TickKeepsUp (S.init, 0) (w, n)) :
    ReplayInv S w n :=
  hrun.invariant (I := fun p => ReplayInv S p.1 p.2) (ReplayInv.init S) fun e _ h hok hst => by
    obtain ⟨hst, hn⟩ := withGhost_cases hst
    rw [hn]
    exact h.step hok hst

end Invariant

/-- In a run whose ticks keep up, a publishing tick leaves the replay of all samples received from
the EKF time on, and publishes it. -/
theorem imuPropagate_eq_replay (S : Setup C) {w w' : World C} {n : ℕ}
    (hrun : Reach S.stepServed S.TickKeepsUp (S.init, 0) (w, n))
    (hok : S.TickKeepsUp (w, n) .imuPropTimer) (hpub : publishes S.cfg w.mapper = true)
    (hstep : S.step w .imuPropTimer = some w') :
    w'.mapper.prop.imuPropagate =
        replay S.kernel w'.mapper.imu.imuMeanAccNorm w'.mapper.prop.latestEkfTime
          w'.mapper.prop.latestEkfState
          (samplesFrom w'.mapper.prop.latestEkfTime w'.hist.imuAccepted) ∧
      w'.hist.published = w.hist.published ++
        [.imuPropagate w'.mapper.prop.newestImu.stamp w'.mapper.prop.imuPropagate] := by
  have hdone := (S.replayInv hrun).publish hpub hok
  obtain rfl := Option.some.inj hstep
  rw [imuPropCallback_publish hpub]
  refine ⟨?_, rfl⟩
  have hstate := congrArg Prod.fst hdone.replayed
  rw [propImuLoop_eq, add_zero] at hstate
  exact hstate

/-! ## Motion along one axis -/

instance (S : Setup C) (p : World C × ℕ) : ∀ e, Decidable (S.TickKeepsUp p e)
  | .imuPropTimer => by
    unfold Setup.TickKeepsUp
    infer_instance
  | .standardPcl _ | .livoxPcl _ | .imu _ | .img _ | .rtk _ | .navSatFix _ | .spin =>
    .isTrue trivial

/-- Vectors along the vertical axis. -/
def Carrier.vertical : Carrier :=
  { Carrier.trivial with
    Scalar := Double
    V3D := Double
    one := (1 : Double)
    zero3d := (0 : Double) }

def speedOf (st : StatesGroup Carrier.vertical) : Double := st.velEnd

/-- `prop_imu_once` without rotation. -/
def propImuOnceVertical (norm : Double) (st : StatesGroup Carrier.vertical) (dt acc : Double) :
    StatesGroup Carrier.vertical :=
  let posEnd : Double := st.posEnd
  let velEnd : Double := st.velEnd
  let biasA : Double := st.biasA
  let gravity : Double := st.gravity
  let accAvr := acc * (981 / 100) / norm - biasA
  let accImu := accAvr + gravity
  { st with
    posEnd := posEnd + velEnd * dt + 1 / 2 * accImu * dt * dt
    velEnd := velEnd + accImu * dt }

/-- An estimator that finds the sensor at rest. -/
def Kernel.vertical : Kernel Carrier.vertical where
  meanAcc0 := (-1 : Double)
  norm := (fun v => |v| : Double → Double)
  meanStep := (fun mean cur n => mean + (cur - mean) / n : Double → Double → Nat → Double)
  gravityOf := (fun mean => -mean / |mean| * (981 / 100) : Double → Double)
  propagate _ _ _ _ st := st
  undistort _ _ _ q := q
  forward _ st := st
  forwardPoint _ _ q := q
  transform _ v := v
  rotate _ v := v
  rotateCov _ cov := cov
  extrapolate p _ _ := p
  addDiagonal cov _ := cov
  gravityAlignment st := st
  beginScan vm _ _ := vm
  downSizeFilterSurf pts := pts
  transformLidar _ pts := pts
  setFeatsDown vm _ _ := vm
  buildVoxelMap vm := vm
  stateEstimation vm _ _ _ := vm
  state _ := { gravity := (-981 / 100 : Double) }
  pvList _ := ()
  refreshPvList vm _ _ := vm
  updateVoxelMap vm := vm
  mapSliding vm := vm
  rgbPointBodyToWorld _ p := p
  processFrame vio _ mat pv vm _ st _ := (vio, mat, pv, vm, st)
  imgCp _ := ()
  colorize _ pts := pts.map fun _ => ()
  bodyRGB _ pts := pts
  body _ pts := pts
  propImuOnce := fun (norm : Double) st dt (acc : Double) _ => propImuOnceVertical norm st dt acc
  antenna st := st.posEnd
  geoReset g _ := g
  geoForward _ _ := (0 : Double)
  velENU := (fun _ _ d => -d : Double → Double → Double → Double)
  diagonal _ _ _ := ()
  sqrt x := x
  dist := (fun p q => |p - q| : Double → Double → Double)
  computeSVD _ _ := ()
  inverse _ := ()
  allFinite _ := true

/-- A mapper without a camera that propagates at IMU rate. -/
def Setup.vertical : Setup Carrier.vertical where
  cfg := { imgEn := false, imuPropEnable := true, uninit := ⟨0, 0, 0, (0 : Double), 0⟩ }
  kernel := Kernel.vertical
  voxelmapManager := ()
  vioManager := ()
  pvList := ()
  gpsTrans := ()

/-- A sample `ms` milliseconds after the first second. -/
def ImuMsg.vertical (ms : Nat) (acc : Double) : Event Carrier.vertical :=
  .imu ⟨⟨1, ms * 1000000⟩, acc, (0 : Double)⟩

/-- Two scans and the samples up to their ends at rest: the IMU initialises on the first one, and
the second one ends with an EKF update. -/
def restRun : List (Event Carrier.vertical) :=
  [.standardPcl ⟨⟨1, 0⟩, [.at 10, .at 95]⟩] ++
    [10, 30, 50, 70, 100].map (ImuMsg.vertical · (981 / 100)) ++
    [.spin, .standardPcl ⟨⟨1, 100000000⟩, [.at 10, .at 95]⟩] ++
    [120, 140, 160, 180, 200].map (ImuMsg.vertical · (981 / 100)) ++ [.spin]

/-- One sample for each tick. -/
theorem imuPropagate_eq_replay_vertical : ∃ w w' : World Carrier.vertical,
    Setup.vertical.step w .imuPropTimer = some w' ∧
      w'.mapper.prop.imuPropagate =
        replay Kernel.vertical w'.mapper.imu.imuMeanAccNorm w'.mapper.prop.latestEkfTime
          w'.mapper.prop.latestEkfState
          (samplesFrom w'.mapper.prop.latestEkfTime w'.hist.imuAccepted) := by
  have hrun : (exec (fun p e =>
      if Setup.vertical.TickKeepsUp p e then Setup.vertical.stepServed p e else none)
      (Setup.vertical.init, 0)
      (restRun ++ [ImuMsg.vertical 210 (981 / 100), .imuPropTimer,
        ImuMsg.vertical 220 (1081 / 100)])).any (fun p =>
      publishes Setup.vertical.cfg p.1.mapper &&
        decide (Setup.vertical.TickKeepsUp p .imuPropTimer)) = true := by decide +kernel
  obtain ⟨⟨w, n⟩, hexec, htest⟩ := exists_exec_of_any _ hrun
  obtain ⟨hpub, hok⟩ := (Bool.and_eq_true _ _).mp htest
  exact ⟨w, _, rfl, (imuPropagate_eq_replay Setup.vertical (Reach.of_guarded hexec)
    (of_decide_eq_true hok) hpub rfl).1⟩

/-- Two samples for one tick: the first one is lost. -/
theorem imuPropagate_ne_replay_vertical : ∃ w w' : World Carrier.vertical,
    Setup.vertical.Reachable w ∧ publishes Setup.vertical.cfg w.mapper = true ∧
      Setup.vertical.step w .imuPropTimer = some w' ∧
      w'.mapper.prop.imuPropagate ≠
        replay Kernel.vertical w'.mapper.imu.imuMeanAccNorm w'.mapper.prop.latestEkfTime
          w'.mapper.prop.latestEkfState
          (samplesFrom w'.mapper.prop.latestEkfTime w'.hist.imuAccepted) := by
  let tick (w : World Carrier.vertical) :=
    (imuPropCallback Setup.vertical.cfg Kernel.vertical w.mapper).1
  have hrun : (exec Setup.vertical.step Setup.vertical.init
      (restRun ++ [ImuMsg.vertical 210 (981 / 100), .imuPropTimer,
        ImuMsg.vertical 220 (981 / 100), ImuMsg.vertical 230 (1081 / 100)])).any (fun w =>
      publishes Setup.vertical.cfg w.mapper &&
        decide (speedOf (tick w).prop.imuPropagate ≠
          speedOf (replay Kernel.vertical (tick w).imu.imuMeanAccNorm (tick w).prop.latestEkfTime
            (tick w).prop.latestEkfState
            (samplesFrom (tick w).prop.latestEkfTime w.hist.imuAccepted)))) = true := by
    decide +kernel
  obtain ⟨w, hexec, htest⟩ := exists_exec_of_any _ hrun
  obtain ⟨hpub, hne⟩ := (Bool.and_eq_true _ _).mp htest
  exact ⟨w, _, Reach.of_exec hexec, hpub, rfl,
    fun heq => of_decide_eq_true hne (congrArg speedOf heq)⟩

end FastLivo
