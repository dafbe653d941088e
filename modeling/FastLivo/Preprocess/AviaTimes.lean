import FastLivo.Preprocess.Handlers
import FastLivo.Lib.OptionList
import FastLivo.Lib.TimeRepair
import FastLivo.Lib.Binary32

/-!
# The times that `avia_handler` gives

A point that is not on a line of the scan leaves a default entry in `pl_full`, whose time is zero.
The next point is compared with that, and one that is 1 ms or more into the scan is given a time that
is counted from zero. The times are of type `float`, so that those of two points that are less than
1 ms apart may be 1 ms apart: from 16.777216 ms on not every offset is a `float`.
-/

set_option linter.unusedSectionVars false

namespace FastLivo.Preprocess

open Lib

variable {K : Type}

/-! ## What the filters keep -/

/-- The number of points that the loop goes over. -/
def CustomMsg.plsize (msg : CustomMsg K) : ℕ := (intSize msg.pointNum.toNat).getD 0

/-- `msg->points[i].line < N_SCANS`. -/
def CustomMsg.onLine (msg : CustomMsg K) (cfg : Config K) (i : ℕ) : Bool :=
  msg.points[i]?.any fun p => p.line.toNat < cfg.nScans

/-- `valid_num` after so many points. -/
def CustomMsg.validNum (msg : CustomMsg K) (cfg : Config K) (n : ℕ) : ℕ :=
  (List.range n).countP (msg.onLine cfg)

theorem onLine_eq {msg : CustomMsg K} {cfg : Config K} {i : ℕ} {p : CustomPoint K}
    (hp : msg.points[i]? = some p) : msg.onLine cfg i = decide (p.line.toNat < cfg.nScans) := by
  rw [CustomMsg.onLine, hp]
  rfl

theorem validNum_succ (msg : CustomMsg K) (cfg : Config K) (i : ℕ) :
    msg.validNum cfg (i + 1) = msg.validNum cfg i + if msg.onLine cfg i then 1 else 0 := by
  rw [CustomMsg.validNum, List.range_succ, List.countP_append, List.countP_singleton]
  rfl

section Code

variable [Zero K] [Add K] [Sub K] [Mul K] [Div K] [Neg K] [LT K] [LE K] [DecidableLT K]
  [DecidableLE K] [OfScientific K] [NatCast K]

/-- The points on lines of the scan, those of them that are sampled, and those outside the blind
zone. -/
def CustomMsg.keeps (msg : CustomMsg K) (cfg : Config K) (i : ℕ) : Bool :=
  msg.onLine cfg i && cfg.sampledUnsigned (msg.validNum cfg (i + 1)) &&
    msg.points[i]?.any fun p => cfg.blindSqr ≤ p.toPointType.sqNorm

/-- The points of the message that the handler keeps. -/
def CustomMsg.keptPoints (msg : CustomMsg K) (cfg : Config K) : List (CustomPoint K) :=
  ((List.range msg.plsize).filter (msg.keeps cfg)).filterMap (msg.points[·]?)

/-- The time of a point in milliseconds. -/
def CustomMsg.ownTime (msg : CustomMsg K) (i : ℕ) : K :=
  (msg.points[i]?.map fun p => p.toPointType.curvature).getD 0

/-- A time is compared with the one before. -/
def nearTime (time before : K) : Prop := fabs (time - before) < 1.0

instance decidableNearTime : DecidableRel (nearTime : K → K → Prop) := fun time before =>
  inferInstanceAs (Decidable (fabs (time - before) < 1.0))

/-- The time that a point is given instead. -/
def nextTime (before : K) : K := before + timeStep

/-- The first time passes its test. -/
def CustomMsg.begins (msg : CustomMsg K) : Bool := fabs (msg.ownTime 0) < 1.0

/-- The times are those that the repair gives. -/
def CustomMsg.givenTime (msg : CustomMsg K) (cfg : Config K) : ℕ → K :=
  repairedTime msg.begins nearTime nextTime msg.ownTime (msg.onLine cfg)

/-- A point with its given time. -/
def CustomMsg.timed (msg : CustomMsg K) (cfg : Config K) (i : ℕ) : Option (PointType K) :=
  msg.points[i]?.map fun p => { p.toPointType with curvature := msg.givenTime cfg i }

/-! ## The loop -/

variable {msg : CustomMsg K} {cfg : Config K}

theorem ownTime_eq {i : ℕ} {p : CustomPoint K} (hp : msg.points[i]? = some p) :
    msg.ownTime i = p.toPointType.curvature := by
  rw [CustomMsg.ownTime, hp]
  rfl

/-- What holds after so many turns. -/
structure AviaInv (msg : CustomMsg K) (cfg : Config K) (n : ℕ) (s : AviaState K) : Prop where
  times : ∀ j < msg.plsize, s.plFull[j]?.map PointType.curvature =
    some (if j < n then msg.givenTime cfg j else 0)
  validNum : s.validNum = msg.validNum cfg n
  plSurf : s.plSurf = ((List.range n).filter (msg.keeps cfg)).filterMap (msg.timed cfg)

/-- The time that a turn gives is the repaired one. -/
theorem aviaTime_eq {s : AviaState K} {i : ℕ} (h : AviaInv msg cfg i s) (hi : i < msg.plsize)
    (hline : msg.onLine cfg i) :
    aviaTime s.plFull i (msg.ownTime i) = some (msg.givenTime cfg i) := by
  cases i with
  | zero =>
    rw [aviaTime, if_pos rfl, CustomMsg.givenTime, repairedTime]
    simp only [hline, CustomMsg.begins, decide_eq_true_eq, true_and]
  | succ i =>
    have htime := h.times i (by omega)
    rw [if_pos (Nat.lt_succ_self i)] at htime
    obtain ⟨before, hbefore, heq⟩ := Option.map_eq_some_iff.mp htime
    rw [aviaTime, if_neg (Nat.succ_ne_zero i), Nat.add_sub_cancel, hbefore]
    show some (if nearTime (msg.ownTime (i + 1)) before.curvature then msg.ownTime (i + 1)
      else nextTime before.curvature) = _
    rw [heq, CustomMsg.givenTime, repairedTime, if_pos hline]

theorem givenTime_of_skipped {i : ℕ} (hline : msg.onLine cfg i = false) :
    msg.givenTime cfg i = 0 := repairedTime_of_skipped _ _ _ _ hline

theorem aviaTurn_of_skipped (s : AviaState K) {i : ℕ} {p : CustomPoint K}
    (hp : msg.points[i]? = some p) (hline : msg.onLine cfg i = false) :
    aviaTurn cfg msg s i = some s := by
  rw [onLine_eq hp] at hline
  rw [aviaTurn, hp]
  exact if_neg (of_decide_eq_false hline)

theorem aviaTurn_of_onLine {s : AviaState K} {i : ℕ} {p : CustomPoint K} {time : K}
    (hp : msg.points[i]? = some p) (hline : msg.onLine cfg i)
    (htime : aviaTime s.plFull i (msg.ownTime i) = some time) :
    aviaTurn cfg msg s i = some
      { plFull := s.plFull.set i { p.toPointType with curvature := time }
        validNum := s.validNum + 1
        plSurf := if cfg.sampledUnsigned (s.validNum + 1) ∧ cfg.blindSqr ≤ p.toPointType.sqNorm then
          s.plSurf ++ [{ p.toPointType with curvature := time }] else s.plSurf } := by
  rw [onLine_eq hp] at hline
  rw [ownTime_eq hp] at htime
  rw [aviaTurn, hp]
  refine (if_pos (of_decide_eq_true hline)).trans ?_
  rw [htime]
  show (if cfg.sampledUnsigned (s.validNum + 1) ∧ cfg.blindSqr ≤ p.toPointType.sqNorm then _ else _) = _
  split
  · rfl
  · rfl

theorem aviaInv_turn {s t : AviaState K} {i : ℕ} (h : AviaInv msg cfg i s) (hi : i < msg.plsize)
    (hturn : aviaTurn cfg msg s i = some t) : AviaInv msg cfg (i + 1) t := by
  obtain ⟨p, hp, -⟩ := Option.bind_eq_some_iff.mp hturn
  cases hline : msg.onLine cfg i with
  | false =>
    rw [aviaTurn_of_skipped s hp hline] at hturn
    obtain rfl := Option.some.inj hturn
    refine ⟨fun j hj => ?_, ?_, ?_⟩
    · rw [h.times j hj]
      by_cases hji : j = i
      · rw [hji, if_neg (lt_irrefl i), if_pos (Nat.lt_succ_self i), givenTime_of_skipped hline]
      · simp only [show j < i + 1 ↔ j < i by omega]
    · rw [validNum_succ, hline, h.validNum]
      rfl
    · have hkeeps : msg.keeps cfg i = false := by simp [CustomMsg.keeps, hline]
      rw [List.range_succ, List.filter_append, List.filter_singleton, hkeeps, h.plSurf]
      simp
  | true =>
    rw [aviaTurn_of_onLine hp hline (aviaTime_eq h hi hline)] at hturn
    obtain rfl := Option.some.inj hturn
    refine ⟨fun j hj => ?_, ?_, ?_⟩
    · have hold := h.times j hj
      show (s.plFull.set i _)[j]?.map _ = _
      by_cases hji : j = i
      · rw [hji] at hold ⊢
        obtain ⟨before, hbefore, -⟩ := Option.map_eq_some_iff.mp hold
        have hlength := (List.getElem?_eq_some_iff.mp hbefore).1
        rw [List.getElem?_set_self hlength, if_pos (Nat.lt_succ_self i)]
        rfl
      · rw [List.getElem?_set_ne (Ne.symm hji), hold]
        simp only [show j < i + 1 ↔ j < i by omega]
    · rw [validNum_succ, hline, h.validNum]
      rfl
    · have hkeeps : msg.keeps cfg i = decide (cfg.sampledUnsigned (s.validNum + 1) ∧
          cfg.blindSqr ≤ p.toPointType.sqNorm) := by
        rw [CustomMsg.keeps, hline, validNum_succ, hline, h.validNum, hp]
        simp
      have htimed : msg.timed cfg i =
          some { p.toPointType with curvature := msg.givenTime cfg i } := by
        rw [CustomMsg.timed, hp]
        rfl
      rw [List.range_succ, List.filter_append, List.filter_singleton, hkeeps, h.plSurf,
        List.filterMap_append]
      split
      · simp [*]
      · simp [*]

theorem aviaInv_run {n : ℕ} (hn : n ≤ msg.plsize) {s : AviaState K}
    (h : (List.range n).foldlM (aviaTurn cfg msg) ⟨List.replicate msg.plsize .blank, 0, []⟩ =
      some s) : AviaInv msg cfg n s := by
  induction n generalizing s with
  | zero =>
    obtain rfl := Option.some.inj h
    refine ⟨fun j hj => ?_, rfl, rfl⟩
    rw [List.getElem?_replicate, if_pos hj]
    rfl
  | succ n ih =>
    rw [List.range_succ, List.foldlM_append] at h
    obtain ⟨u, hu, h⟩ := Option.bind_eq_some_iff.mp h
    obtain ⟨t, ht, h⟩ := Option.bind_eq_some_iff.mp h
    obtain rfl := Option.some.inj h
    exact aviaInv_turn (ih (by omega) hu) hn ht

/-- The surface cloud without features. -/
theorem aviaHandler_eq {ops : FloatOps K} {out : List (PointType K)}
    (hoff : cfg.featureEnabled = false) (h : aviaHandler ops cfg msg = some out) :
    out = ((List.range msg.plsize).filter (msg.keeps cfg)).filterMap (msg.timed cfg) := by
  rw [aviaHandler] at h
  cases hsize : intSize msg.pointNum.toNat with
  | none =>
    have hplsize : msg.plsize = 0 := by rw [CustomMsg.plsize, hsize, Option.getD_none]
    rw [hsize] at h
    obtain rfl := Option.some.inj h
    rw [hplsize]
    rfl
  | some plsize =>
    have hplsize : msg.plsize = plsize := by rw [CustomMsg.plsize, hsize, Option.getD_some]
    rw [hsize] at h
    obtain ⟨buffers, -, h⟩ := Option.bind_eq_some_iff.mp h
    rw [hoff] at h
    obtain ⟨s, hs, h⟩ := Option.bind_eq_some_iff.mp h
    obtain rfl := Option.some.inj h
    rw [← hplsize] at hs
    exact (aviaInv_run le_rfl hs).plSurf

theorem exists_of_keeps {i : ℕ} (h : msg.keeps cfg i) :
    msg.onLine cfg i ∧ ∃ p, msg.points[i]? = some p := by
  rw [CustomMsg.keeps, Bool.and_eq_true, Bool.and_eq_true] at h
  obtain ⟨p, hp, -⟩ := (Option.any_eq_true _ _).mp h.2
  exact ⟨h.1.1, p, hp⟩

/-- The points that are kept have their own times if and only if the repair gives them. -/
theorem aviaHandler_eq_kept_iff {ops : FloatOps K} {out : List (PointType K)}
    (hoff : cfg.featureEnabled = false) (h : aviaHandler ops cfg msg = some out) :
    out = (msg.keptPoints cfg).map CustomPoint.toPointType ↔
      ∀ i < msg.plsize, msg.keeps cfg i → msg.givenTime cfg i = msg.ownTime i := by
  have hown : (msg.keptPoints cfg).map CustomPoint.toPointType =
      ((List.range msg.plsize).filter (msg.keeps cfg)).filterMap
        fun i => msg.points[i]?.map CustomPoint.toPointType := by
    rw [CustomMsg.keptPoints, List.map_filterMap]
  have hsome {β : Type} (f : ℕ → CustomPoint K → β) :
      ∀ i ∈ (List.range msg.plsize).filter (msg.keeps cfg), (msg.points[i]?.map (f i)).isSome := by
    intro i hi
    obtain ⟨-, p, hp⟩ := exists_of_keeps (List.mem_filter.mp hi).2
    rw [hp]
    rfl
  rw [aviaHandler_eq hoff h, hown]
  refine (filterMap_eq_filterMap_iff
    (hsome fun i p => { p.toPointType with curvature := msg.givenTime cfg i })
    (hsome fun _ => CustomPoint.toPointType)).trans ?_
  have heach (i : ℕ) (hkeeps : msg.keeps cfg i) :
      msg.timed cfg i = msg.points[i]?.map CustomPoint.toPointType ↔
        msg.givenTime cfg i = msg.ownTime i := by
    obtain ⟨-, p, hp⟩ := exists_of_keeps hkeeps
    rw [ownTime_eq hp, CustomMsg.timed, hp, Option.map_some, Option.map_some, Option.some_inj]
    refine ⟨fun heq => congrArg PointType.curvature heq, fun htime => ?_⟩
    rw [htime]
  constructor
  · intro hall i hi hkeeps
    exact (heach i hkeeps).mp (hall i (List.mem_filter.mpr ⟨List.mem_range.mpr hi, hkeeps⟩))
  · intro hall i hi
    obtain ⟨hrange, hkeeps⟩ := List.mem_filter.mp hi
    exact (heach i hkeeps).mpr (hall i (List.mem_range.mp hrange) hkeeps)

end Code

/-! ## The times -/

/-- The offsets start below 1 ms and increase by less than 1 ms. -/
structure CustomMsg.SteadyOffsets (msg : CustomMsg K) : Prop where
  start : ∀ p ∈ msg.points.head?, p.offsetTime.toNat < 1000000
  increase : ∀ i p q, msg.points[i]? = some p → msg.points[i + 1]? = some q →
    p.offsetTime.toNat ≤ q.offsetTime.toNat ∧ q.offsetTime.toNat < p.offsetTime.toNat + 1000000

theorem fabs_of_nonneg [LinearOrder K] [Zero K] [Neg K] {x : K} (h : 0 ≤ x) : fabs x = x :=
  if_neg (not_lt.mpr h)

/-- What the repair compares and adds, rounded. -/
theorem repairLaws_binary32 : RepairLaws (nearTime : Binary32 → Binary32 → Prop) nextTime where
  advance_mono _ _ h := Binary32.add_mono_left h timeStep
  le_advance c := by
    apply Binary32.le_ofRat
    have hstep : 0 ≤ (timeStep : Binary32).val := by decide +kernel
    linarith
  near_advance c := by
    have hle : c ≤ nextTime c := by
      apply Binary32.le_ofRat
      have hstep : 0 ≤ (timeStep : Binary32).val := by decide +kernel
      linarith
    rw [nearTime, fabs_of_nonneg (Binary32.zero_le_sub hle)]
    have hsmall : Binary32.ofRat (2 * |(timeStep : Binary32).val|) < 1.0 := by decide +kernel
    exact (Binary32.add_sub_le c).trans_lt hsmall
  near_of_le {c c' t' t} hc hle ht hnear := by
    rw [nearTime, fabs_of_nonneg (Binary32.zero_le_sub (hc.trans (hle.trans ht)))] at hnear
    rw [nearTime, fabs_of_nonneg (Binary32.zero_le_sub hle)]
    exact (Binary32.sub_mono ht hc).trans_lt hnear

section Binary32

variable {msg : CustomMsg Binary32} {cfg : Config Binary32}

theorem curvature_mono {p q : CustomPoint Binary32} (h : p.offsetTime.toNat ≤ q.offsetTime.toNat) :
    p.toPointType.curvature ≤ q.toPointType.curvature :=
  Binary32.div_mono (Binary32.natCast_mono h) (by decide +kernel)

theorem ownTime_zero (h : msg.SteadyOffsets) : 0 ≤ msg.ownTime 0 ∧ msg.begins := by
  have hbounds : 0 ≤ msg.ownTime 0 ∧ msg.ownTime 0 < 1.0 := by
    cases hp : msg.points[0]? with
    | none =>
      rw [CustomMsg.ownTime, hp]
      exact ⟨le_refl 0, by decide +kernel⟩
    | some p =>
      rw [ownTime_eq hp]
      have hstart := h.start p (List.head?_eq_getElem? ▸ hp)
      constructor
      · have hfirst : (0 : Binary32) = (0 : ℕ) / 1e6 := by decide +kernel
        rw [hfirst]
        exact Binary32.div_mono (Binary32.natCast_mono (Nat.zero_le _)) (by decide +kernel)
      · have hlast : ((999999 : ℕ) : Binary32) / 1e6 < 1.0 := by decide +kernel
        refine lt_of_le_of_lt ?_ hlast
        exact Binary32.div_mono (Binary32.natCast_mono (by omega)) (by decide +kernel)
  refine ⟨hbounds.1, decide_eq_true ?_⟩
  rw [fabs_of_nonneg hbounds.1]
  exact hbounds.2

theorem ownTime_le_next (h : msg.SteadyOffsets) (i : ℕ) (hi : i + 1 < msg.points.length) :
    msg.ownTime i ≤ msg.ownTime (i + 1) := by
  have hp := List.getElem?_eq_getElem (Nat.lt_of_succ_lt hi)
  have hq := List.getElem?_eq_getElem hi
  rw [ownTime_eq hp, ownTime_eq hq]
  exact curvature_mono (h.increase i _ _ hp hq).1

/-- Without features, every point that is kept has its own time if and only if none of them is lost
behind a point before it: one that is skipped, or one that the next is not near. -/
theorem avia_keeps_times_iff (ops : FloatOps Binary32) (hoff : cfg.featureEnabled = false)
    (hsteady : msg.SteadyOffsets) {out : List (PointType Binary32)}
    (h : aviaHandler ops cfg msg = some out) :
    out = (msg.keptPoints cfg).map CustomPoint.toPointType ↔
      ∀ i < msg.plsize, msg.keeps cfg i → ∀ j n, j + n = i →
        ¬LostBehind nearTime nextTime msg.ownTime (msg.onLine cfg) j n := by
  rw [aviaHandler_eq_kept_iff hoff h]
  refine forall₃_congr fun i _ hkeeps => ?_
  obtain ⟨hline, p, hp⟩ := exists_of_keeps hkeeps
  obtain ⟨hnonneg, hbegins⟩ := ownTime_zero hsteady
  exact repairedTime_eq_own_iff repairLaws_binary32 hnonneg (ownTime_le_next hsteady) hbegins
    (List.getElem?_eq_some_iff.mp hp).1 hline

end Binary32

/-! ## Messages -/

/-- No run without features calls them. -/
def unusedOps (K : Type) [Zero K] : FloatOps K := ⟨id, fun _ _ => 0, 0⟩

/-- The configuration of the constructor. -/
def sampleConfig (K : Type) [Zero K] [Mul K] [OfScientific K] : Config K :=
  Config.initial (fun _ => 0) 0

/-- Points straight ahead, with these offsets and lines. -/
def straightAhead (K : Type) [Zero K] [NatCast K] (points : List (UInt32 × UInt8)) : CustomMsg K where
  pointNum := UInt32.ofNat points.length
  points := points.map fun p => ⟨(1 : ℕ), 0, 0, 0, p.1, p.2, 0⟩

/-- A point 0.9 ms into the scan, on some line, and one 1.8 ms into it. -/
def twoPoints (K : Type) [Zero K] [NatCast K] (line : UInt8) : CustomMsg K :=
  straightAhead K [(900000, line), (1800000, 0)]

/-- Points on the first line. The last two are 17.000001 ms and 18 ms into the scan, which is 1 ms
apart in type `float`. -/
def roundedJump (K : Type) [Zero K] [NatCast K] : CustomMsg K :=
  straightAhead K ((List.range 18).map (fun i => (UInt32.ofNat (500001 + 916667 * i), 0)) ++
    [(17000001, 0), (18000000, 0)])

/-- The offsets of points start below 1 ms and increase by less than 1 ms. -/
def steady (offsets : List ℕ) : Bool :=
  offsets.head?.all (· < 1000000) &&
    (offsets.zip offsets.tail).all fun p => p.1 ≤ p.2 ∧ p.2 < p.1 + 1000000

theorem steadyOffsets_of_steady {msg : CustomMsg K}
    (h : steady (msg.points.map fun p => p.offsetTime.toNat)) : msg.SteadyOffsets := by
  obtain ⟨hhead, hnext⟩ := Bool.and_eq_true_iff.mp h
  refine ⟨fun p hp => ?_, fun i p q hp hq => ?_⟩
  · rw [List.head?_map, Option.mem_def.mp hp] at hhead
    exact of_decide_eq_true hhead
  · have hmem : (p.offsetTime.toNat, q.offsetTime.toNat) ∈
        (msg.points.map fun p => p.offsetTime.toNat).zip
          (msg.points.map fun p => p.offsetTime.toNat).tail := by
      refine List.mem_iff_getElem?.mpr ⟨i, ?_⟩
      rw [List.getElem?_zip_eq_some, List.getElem?_tail, List.getElem?_map, List.getElem?_map, hp, hq]
      exact ⟨rfl, rfl⟩
    exact of_decide_eq_true (List.all_eq_true.mp hnext _ hmem)

/-- Both points on the first line are kept with their times, and the last of the other ones is not. -/
theorem avia_keeps_times_iff_oneLine :
    (∀ i < (twoPoints Binary32 0).plsize, (twoPoints Binary32 0).keeps (sampleConfig Binary32) i →
      ∀ j n, j + n = i → ¬LostBehind nearTime nextTime (twoPoints Binary32 0).ownTime
        ((twoPoints Binary32 0).onLine (sampleConfig Binary32)) j n) ∧
    ¬∀ i < (roundedJump Binary32).plsize, (roundedJump Binary32).keeps (sampleConfig Binary32) i →
      ∀ j n, j + n = i → ¬LostBehind nearTime nextTime (roundedJump Binary32).ownTime
        ((roundedJump Binary32).onLine (sampleConfig Binary32)) j n := by
  constructor
  · have hrun : aviaHandler (unusedOps _) (sampleConfig _) (twoPoints Binary32 0) =
        some (((twoPoints Binary32 0).keptPoints (sampleConfig _)).map CustomPoint.toPointType) := by
      decide +kernel
    have hsteady : (twoPoints Binary32 0).SteadyOffsets := steadyOffsets_of_steady (by decide)
    exact (avia_keeps_times_iff (unusedOps _) rfl hsteady hrun).mp rfl
  · have hrun : (aviaHandler (unusedOps _) (sampleConfig _) (roundedJump Binary32)).isSome := by
      decide +kernel
    obtain ⟨out, hout⟩ := Option.isSome_iff_exists.mp hrun
    have hlost : aviaHandler (unusedOps _) (sampleConfig _) (roundedJump Binary32) ≠
        some (((roundedJump Binary32).keptPoints (sampleConfig _)).map CustomPoint.toPointType) := by
      decide +kernel
    have hsteady : (roundedJump Binary32).SteadyOffsets := steadyOffsets_of_steady (by decide)
    rw [hout] at hlost
    intro hall
    exact hlost (congrArg some ((avia_keeps_times_iff (unusedOps _) rfl hsteady hout).mpr hall))

/-- The first point on the line after the last: the second one is given the time of one step. -/
theorem skipped_line_loses_time : (twoPoints Binary32 6).SteadyOffsets ∧
    (sampleConfig Binary32).featureEnabled = false ∧ ∃ out,
      aviaHandler (unusedOps _) (sampleConfig _) (twoPoints Binary32 6) = some out ∧
        out ≠ ((twoPoints Binary32 6).keptPoints (sampleConfig _)).map CustomPoint.toPointType := by
  have hrun : aviaHandler (unusedOps _) (sampleConfig _) (twoPoints Binary32 6) =
      some [⟨(1 : ℕ), 0, 0, 0, timeStep⟩] := by decide +kernel
  exact ⟨steadyOffsets_of_steady (by decide), rfl, _, hrun, by decide +kernel⟩

end FastLivo.Preprocess
