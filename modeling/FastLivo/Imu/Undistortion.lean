import FastLivo.Imu.Propagation
import FastLivo.Lib.Run

/-!
# Which points are compensated, and how often

The backward pass is run on points that carry a log of the heads applied to them
(`loggedUndistort`); forgetting the log gives the code's own output. By
`sweepList_eq` every point but the first gets the last head before it, once. The
cursor stays on the first point, which gets every head before it; and poses of an
earlier call with an empty cloud are still in `IMUpose`.
-/

namespace FastLivo

open Lib

variable {C : Carrier}

/-! ## Runs with a log -/

/-- A point with the poses applied to it, each with its place in `IMUpose`. -/
abbrev Logged (C : Carrier) := PointType × List (Pose6D C × Nat)

/-- Compensate a point and log the head. -/
def logPoint (K : ImuKernel C) (stateEnd : StatesGroup C) (h : Pose6D C × Nat) (x : Logged C) :
    Logged C :=
  (undistortPoint K stateEnd h.1 x.1, x.2 ++ [h])

/-- The backward pass on points with empty logs. -/
def loggedSweep (K : ImuKernel C) (stateEnd : StatesGroup C) (poses : List (Pose6D C))
    (points : List PointType) : List (Logged C) :=
  backwardPass (fun x : Logged C => x.1.offset) (fun h : Pose6D C × Nat => h.1.offsetTime)
    (logPoint K stateEnd) poses.zipIdx (points.map fun q => (q, []))

/-- The backward pass of a call of `UndistortPcl` on points with logs. -/
def loggedUndistort (K : ImuKernel C) (g : LidarMeasureGroup C) (m : MeasureGroup C)
    (state : StatesGroup C) (p : ImuProcess C) : List (Logged C) :=
  let r := undistortForward K g m state p
  loggedSweep K r.2.2 r.1.imuPose r.1.pclWaitProc

theorem undistortForward_pclWaitProc (K : ImuKernel C) {g : LidarMeasureGroup C}
    (m : MeasureGroup C) (state : StatesGroup C) (p : ImuProcess C) (hlio : g.lioVioFlg = .lio) :
    (undistortForward K g m state p).1.pclWaitProc = g.pclProcCur := by
  simp [undistortForward, hlio]

theorem undistortForward_flg (K : ImuKernel C) (g : LidarMeasureGroup C) (m : MeasureGroup C)
    (state : StatesGroup C) (p : ImuProcess C) :
    (undistortForward K g m state p).2.1.lioVioFlg = g.lioVioFlg := by
  unfold undistortForward
  by_cases hlio : g.lioVioFlg = .lio
  · simp [hlio]
  · by_cases hvio : g.lioVioFlg = .vio
    · simp [hvio]
    · simp [hlio, hvio]

/-- Without the logs, the logged run is `pcl_out` of the call. -/
theorem loggedUndistort_fst (K : ImuKernel C) (g : LidarMeasureGroup C) (m : MeasureGroup C)
    (state : StatesGroup C) (p : ImuProcess C) (hlio : g.lioVioFlg = .lio) :
    (loggedUndistort K g m state p).map Prod.fst = (undistortPcl K g m state p).2.2.2 := by
  have hflg := undistortForward_flg K g m state p
  unfold loggedUndistort undistortPcl
  rcases hf : undistortForward K g m state p with ⟨q, g', st⟩
  rw [hf] at hflg
  simp only at hflg ⊢
  rw [hflg, hlio]
  by_cases hlen : q.pclWaitProc.length < 1
  · have hnil : q.pclWaitProc = [] := List.length_eq_zero_iff.mp (by omega)
    simp [hnil, loggedSweep, backwardPass, sweepList]
  · rw [if_neg hlen, if_pos rfl]
    unfold loggedSweep backwardPass
    have hmap : sweepList PointType.offset (fun h : Pose6D C => h.offsetTime) (undistortPoint K st)
        (q.imuPose.zipIdx.dropLast.reverse.map Prod.fst)
        ((q.pclWaitProc.map fun r => ((r, []) : Logged C)).map Prod.fst) =
        (sweepList (fun x : Logged C => x.1.offset) (fun h => h.1.offsetTime) (logPoint K st)
          q.imuPose.zipIdx.dropLast.reverse (q.pclWaitProc.map fun r => (r, []))).map Prod.fst := by
      apply sweepList_map <;> intros <;> rfl
    rw [List.map_reverse, List.map_dropLast, List.zipIdx_map_fst, List.map_map] at hmap
    simp only [Function.comp_def, List.map_id'] at hmap
    exact hmap.symm

/-- The compensation keeps the time of a point. -/
theorem offset_once (K : ImuKernel C) (st : StatesGroup C) (hs : List (Pose6D C × Nat))
    (x : Logged C) :
    (once (fun x : Logged C => x.1.offset) (fun h => h.1.offsetTime) (logPoint K st) hs x).1.offset =
      x.1.offset :=
  @time_once _ _ _ _ (fun x : Logged C => x.1.offset) _ (logPoint K st) (fun _ _ => rfl) hs x

theorem offset_every (K : ImuKernel C) (st : StatesGroup C) (hs : List (Pose6D C × Nat))
    (x : Logged C) :
    (every (fun x : Logged C => x.1.offset) (fun h => h.1.offsetTime) (logPoint K st) hs x).1.offset =
      x.1.offset :=
  @time_every _ _ _ _ (fun x : Logged C => x.1.offset) _ (logPoint K st) (fun _ _ => rfl) hs x

/-- The log of a point that is passed once. -/
theorem log_once (K : ImuKernel C) (st : StatesGroup C) (hs : List (Pose6D C × Nat))
    (q : PointType) :
    (once (fun x : Logged C => x.1.offset) (fun h => h.1.offsetTime) (logPoint K st) hs (q, [])).2 =
      (hs.find? fun h => decide (h.1.offsetTime < q.offset)).toList := by
  unfold once
  cases hs.find? fun h => decide (h.1.offsetTime < q.offset) <;> rfl

/-- The log of the point the cursor stays on. -/
theorem log_every (K : ImuKernel C) (st : StatesGroup C) (hs : List (Pose6D C × Nat))
    (q : PointType) :
    (every (fun x : Logged C => x.1.offset) (fun h => h.1.offsetTime) (logPoint K st) hs (q, [])).2 =
      hs.filter fun h => decide (h.1.offsetTime < q.offset) := by
  unfold every
  simp only
  generalize (hs.filter fun h => decide (h.1.offsetTime < q.offset)) = l
  have hfold : ∀ x : Logged C, (l.foldl (fun x h => logPoint K st h x) x).2 = x.2 ++ l := by
    induction l with
    | nil => simp
    | cons h l ih =>
      intro x
      rw [List.foldl_cons, ih]
      simp [logPoint]
  exact (hfold _).trans (List.nil_append l)

/-! ## The heads of a call -/

/-- Samples of a call that the propagation does not skip. -/
def keptSamples (m : MeasureGroup C) (p : ImuProcess C) : List (Imu C) :=
  m.imu.filter fun s => decide (p.lastPropEndTime ≤ s.sec)

/-- Starts of the IMU intervals of a step, and their ends. -/
def intervalStarts (propBeg : Double) (imu : List (Imu C)) : List Double :=
  propBeg :: imu.dropLast.map Imu.sec

def intervalEnds (propEnd : Double) (imu : List (Imu C)) : List Double :=
  imu.dropLast.map Imu.sec ++ [propEnd]

/-- The time lies in the `k`-th IMU interval of the step. -/
def InInterval (propBeg propEnd : Double) (imu : List (Imu C)) (k : Nat) (t : Double) : Prop :=
  ∃ a b, (intervalStarts propBeg imu)[k]? = some a ∧ (intervalEnds propEnd imu)[k]? = some b ∧
    a < t ∧ t ≤ b

/-- A step for each sample that is not skipped; all but the last end at their sample. -/
theorem propSteps_offsets (propBeg propEnd : Double) (tail : List (Imu C)) :
    ∀ head : Imu C,
      ((propSteps propBeg propEnd (head :: tail)).map PropStep.offsT).dropLast =
          (tail.filter fun s => decide (propBeg ≤ s.sec)).dropLast.map (fun s => s.sec - propBeg) ∧
        (propSteps propBeg propEnd (head :: tail)).length =
          (tail.filter fun s => decide (propBeg ≤ s.sec)).length := by
  induction tail with
  | nil => intro head; simp [propSteps]
  | cons next rest ih =>
    intro head
    obtain ⟨hoffs, hlen⟩ := ih next
    rw [propSteps]
    by_cases hskip : next.sec < propBeg
    · rw [if_pos hskip, List.filter_cons_of_neg (by simpa using hskip)]
      exact ⟨hoffs, hlen⟩
    rw [if_neg hskip, List.filter_cons_of_pos (by simpa using hskip)]
    refine ⟨?_, by simp [hlen]⟩
    by_cases hr : rest.filter (fun s => decide (propBeg ≤ s.sec)) = []
    · have hnil : propSteps propBeg propEnd (next :: rest) = [] := by
        rw [← List.length_eq_zero_iff, hlen, hr]
        rfl
      rw [hnil, hr]
      rfl
    · have hne : (propSteps propBeg propEnd (next :: rest)).map PropStep.offsT ≠ [] := by
        rw [← List.length_pos_iff, List.length_map, hlen]
        exact List.length_pos_iff.mpr hr
      have hrest : rest ≠ [] := fun h => hr (by rw [h]; rfl)
      rw [List.map_cons, List.dropLast_cons_of_ne_nil hne, hoffs, List.dropLast_cons_of_ne_nil hr,
        List.map_cons, if_pos hrest]
      split <;> rfl

/-- The heads a call records: one for each IMU interval, at its start. -/
theorem recordedPoses_heads (K : ImuKernel C) {g : LidarMeasureGroup C} {m : MeasureGroup C}
    (state : StatesGroup C) {p : ImuProcess C} (hlio : g.lioVioFlg = .lio)
    (hne : keptSamples m p ≠ []) :
    ((recordedPoses K g m state p).dropLast.map fun q : Pose6D C =>
        p.lastPropEndTime + q.offsetTime) =
      intervalStarts p.lastPropEndTime (keptSamples m p) := by
  have hposes := (undistortForward_imuPose K m state p hlio).2
  obtain ⟨hoffs, hlen⟩ := propSteps_offsets p.lastPropEndTime m.lioTime m.imu p.lastImu
  have hsteps : (lioSteps m p).map PropStep.offsT ≠ [] := by
    rw [← List.length_pos_iff, List.length_map, lioSteps, hlen]
    exact List.length_pos_iff.mpr hne
  have hdrop : (recordedPoses K g m state p).dropLast.map (fun q : Pose6D C => q.offsetTime) =
      0 :: (keptSamples m p).dropLast.map fun s => s.sec - p.lastPropEndTime := by
    rw [List.map_dropLast, hposes, List.dropLast_cons_of_ne_nil hsteps, lioSteps, hoffs]
    rfl
  calc _ = ((recordedPoses K g m state p).dropLast.map fun q : Pose6D C => q.offsetTime).map
        fun t => p.lastPropEndTime + t := by rw [List.map_map]; rfl
    _ = intervalStarts p.lastPropEndTime (keptSamples m p) := by
        rw [hdrop, List.map_cons, List.map_map, add_zero, intervalStarts]
        congr 1
        exact List.map_congr_left fun s _ => by simp

/-- Without samples a call records its first pose only, which heads no interval. -/
theorem recordedPoses_empty (K : ImuKernel C) {g : LidarMeasureGroup C} {m : MeasureGroup C}
    (state : StatesGroup C) {p : ImuProcess C} (hlio : g.lioVioFlg = .lio)
    (hnone : keptSamples m p = []) : (recordedPoses K g m state p).dropLast = [] := by
  have hposes := (undistortForward_imuPose K m state p hlio).2
  have hnil : lioSteps m p = [] := by
    rw [← List.length_eq_zero_iff, lioSteps, (propSteps_offsets _ _ m.imu p.lastImu).2]
    exact List.length_eq_zero_iff.mpr hnone
  rw [hnil] at hposes
  rw [← List.map_eq_nil_iff (f := fun q : Pose6D C => q.offsetTime), List.map_dropLast, hposes]
  rfl

/-- Heads the backward pass of a LIO call goes through. -/
theorem callHeads (K : ImuKernel C) {g : LidarMeasureGroup C} (m : MeasureGroup C)
    (state : StatesGroup C) (p : ImuProcess C) (hlio : g.lioVioFlg = .lio) :
    (undistortForward K g m state p).1.imuPose.zipIdx.dropLast =
      p.imuPose.zipIdx ++ (recordedPoses K g m state p).dropLast.zipIdx p.imuPose.length := by
  obtain ⟨happ, hposes⟩ := undistortForward_imuPose K m state p hlio
  have hne : recordedPoses K g m state p ≠ [] := by
    intro hnil
    simp [hnil] at hposes
  obtain ⟨init, last, hinit⟩ := (List.eq_nil_or_concat _).resolve_left hne
  rw [happ, hinit, List.concat_eq_append, ← List.append_assoc, List.zipIdx_append,
    List.zipIdx_singleton, List.dropLast_concat, List.dropLast_concat, List.zipIdx_append, zero_add]

theorem getElem?_split {α : Type*} (before : List α) (x : α) (after : List α) :
    (before ++ x :: after)[before.length]? = some x := by
  simp

theorem getElem?_split_succ {α : Type*} (before : List α) (x y : α) (after : List α) :
    (before ++ x :: y :: after)[before.length + 1]? = some y := by
  rw [List.getElem?_append_right (Nat.le_succ _)]
  simp

/-- The last head before a time heads the interval the time lies in. -/
theorem find_head {propBeg propEnd t : Double} {imu : List (Imu C)} {heads : List (Pose6D C)}
    (hne : imu ≠ []) (hheads : heads.map (fun h => propBeg + h.offsetTime) = intervalStarts propBeg imu)
    (hpos : 0 < t) (hend : propBeg + t ≤ propEnd) :
    ∃ k h, heads.zipIdx.reverse.find? (fun h => decide (h.1.offsetTime < t)) = some (h, k) ∧
      heads[k]? = some h ∧ InInterval propBeg propEnd imu k (propBeg + t) := by
  have hstart : ∀ j : Nat, (intervalStarts propBeg imu)[j]? =
      heads[j]?.map fun h : Pose6D C => propBeg + h.offsetTime := fun j => by
    rw [← hheads, List.getElem?_map]
  have hlen : heads.length = imu.length := by
    have h := congrArg List.length hheads
    have himu := List.length_pos_iff.mpr hne
    simp only [List.length_map, intervalStarts, List.length_cons, List.length_dropLast] at h
    omega
  -- the first head is at offset zero, so the search succeeds
  have hsome : (heads.zipIdx.reverse.find? fun h => decide (h.1.offsetTime < t)).isSome := by
    rw [List.find?_isSome]
    obtain ⟨h0, hh0, hzero⟩ := Option.map_eq_some_iff.mp ((hstart 0).symm.trans (by rfl))
    refine ⟨(h0, 0), List.mem_reverse.mpr (List.mk_mem_zipIdx_iff_getElem?.mpr hh0), ?_⟩
    simp only [decide_eq_true_eq]
    linarith
  obtain ⟨⟨h, k⟩, hfind⟩ := Option.isSome_iff_exists.mp hsome
  obtain ⟨hlt, later, earlier, hsplit, hlater⟩ := List.find?_eq_some_iff_append.mp hfind
  have hzip : heads.zipIdx = earlier.reverse ++ (h, k) :: later.reverse := by
    rw [← List.reverse_reverse heads.zipIdx, hsplit]
    simp
  generalize earlier.reverse = before at hzip
  have hget : heads[before.length]?.map (fun h => (h, before.length)) = some (h, k) := by
    rw [← getElem?_split before (h, k) later.reverse, ← hzip, List.getElem?_zipIdx, zero_add]
  obtain ⟨h', hh', heq⟩ := Option.map_eq_some_iff.mp hget
  obtain ⟨rfl, rfl⟩ := Prod.mk.inj heq
  have hbeg : (intervalStarts propBeg imu)[before.length]? = some (propBeg + h'.offsetTime) := by
    rw [hstart, hh']
    rfl
  have hbefore : propBeg + h'.offsetTime < propBeg + t := by
    have := of_decide_eq_true hlt
    linarith
  refine ⟨_, _, hfind, hh', propBeg + h'.offsetTime, ?_⟩
  cases hr : later.reverse with
  | nil =>
    -- the last head: its interval ends with the step
    have hbs : before.length + 1 = imu.length := by
      have h := congrArg List.length hzip
      simp only [List.length_zipIdx, hr, List.length_append, List.length_singleton, hlen] at h
      exact h.symm
    have hd : (imu.dropLast.map Imu.sec).length = before.length := by
      rw [List.length_map, List.length_dropLast]
      omega
    refine ⟨propEnd, hbeg, ?_, hbefore, hend⟩
    rw [intervalEnds, List.getElem?_append_right hd.le, hd, Nat.sub_self]
    rfl
  | cons c cs =>
    -- the next head is not before the time
    have hc : c ∈ later := by
      rw [← List.mem_reverse, hr]
      exact List.mem_cons_self
    have hnext : heads[before.length + 1]?.map (fun h => (h, before.length + 1)) = some c := by
      rw [← getElem?_split_succ before (h', before.length) c cs, ← hr, ← hzip,
        List.getElem?_zipIdx, zero_add]
    obtain ⟨n, hn, rfl⟩ := Option.map_eq_some_iff.mp hnext
    have hle : t ≤ n.offsetTime := by simpa using hlater _ hc
    have hnstart : (imu.dropLast.map Imu.sec)[before.length]? = some (propBeg + n.offsetTime) := by
      have h1 := hstart (before.length + 1)
      rw [hn] at h1
      simpa [intervalStarts] using h1
    refine ⟨propBeg + n.offsetTime, hbeg, ?_, hbefore, by linarith⟩
    rw [intervalEnds, List.getElem?_append_left (List.getElem?_eq_some_iff.mp hnstart).1, hnstart]

/-- The heads before a time are one head exactly when no later interval starts before it. -/
theorem filter_heads {propBeg t : Double} {imu : List (Imu C)} {heads : List (Pose6D C)}
    (hheads : heads.map (fun h => propBeg + h.offsetTime) = intervalStarts propBeg imu)
    (hpos : 0 < t) :
    (∃ x, heads.zipIdx.reverse.filter (fun h => decide (h.1.offsetTime < t)) = [x]) ↔
      ∀ s ∈ imu.dropLast, propBeg + t ≤ s.sec := by
  cases heads with
  | nil => simp [intervalStarts] at hheads
  | cons h0 rest =>
    simp only [List.map_cons, intervalStarts, List.cons.injEq] at hheads
    obtain ⟨hzero, hrest⟩ := hheads
    have hpart : ((h0 :: rest).zipIdx.reverse.filter fun h => decide (h.1.offsetTime < t)) =
        ((rest.zipIdx 1).reverse.filter fun h => decide (h.1.offsetTime < t)) ++ [(h0, 0)] := by
      have h0t : h0.offsetTime < t := by linarith
      simp [List.zipIdx_cons, h0t]
    rw [hpart]
    constructor
    · rintro ⟨x, hx⟩ s hs
      have hnil : ((rest.zipIdx 1).reverse.filter fun h => decide (h.1.offsetTime < t)) = [] := by
        have h := congrArg List.length hx
        simp only [List.length_append, List.length_singleton, Nat.add_eq_right] at h
        exact List.length_eq_zero_iff.mp h
      obtain ⟨n, hn, hsec⟩ := List.mem_map.mp (hrest ▸ List.mem_map_of_mem hs)
      obtain ⟨j, hj⟩ := List.mem_iff_getElem?.mp hn
      have hmem : (n, 1 + j) ∈ (rest.zipIdx 1).reverse :=
        List.mem_reverse.mpr (List.mk_add_mem_zipIdx_iff_getElem?.mpr hj)
      have hle := List.filter_eq_nil_iff.mp hnil _ hmem
      simp only [decide_eq_true_eq, not_lt] at hle
      linarith
    · intro hlate
      refine ⟨(h0, 0), List.append_left_eq_self.mpr (List.filter_eq_nil_iff.mpr fun y hy => ?_)⟩
      have hy1 : y.1 ∈ rest := List.fst_mem_of_mem_zipIdx (List.mem_reverse.mp hy)
      obtain ⟨s, hs, hsec⟩ := List.mem_map.mp (hrest ▸ List.mem_map_of_mem hy1)
      have hle := hlate s hs
      simp only [decide_eq_true_eq, not_lt]
      linarith

/-! ## Calls -/

/-- A LIO call on a time-sorted cloud inside the interval of its step. -/
structure LioCall (g : LidarMeasureGroup C) (m : MeasureGroup C) (p : ImuProcess C) : Prop where
  flg : g.lioVioFlg = .lio
  sorted : g.pclProcCur.Pairwise fun a b => a.curvature ≤ b.curvature
  offset_pos : ∀ q ∈ g.pclProcCur, 0 < q.offset
  offset_le : ∀ q ∈ g.pclProcCur, p.lastPropEndTime + q.offset ≤ m.lioTime

/-- The point got one head, one of those the call recorded, and that head starts the
IMU interval the point's time lies in. -/
def CompensatedOnce (K : ImuKernel C) (g : LidarMeasureGroup C) (m : MeasureGroup C)
    (state : StatesGroup C) (p : ImuProcess C) (x : Logged C) : Prop :=
  ∃ k h, x.2 = [(h, p.imuPose.length + k)] ∧
    (recordedPoses K g m state p).dropLast[k]? = some h ∧
    InInterval p.lastPropEndTime m.lioTime (keptSamples m p) k (p.lastPropEndTime + x.1.offset)

/-- No poses of an earlier call are left, and of the samples of the call only the last
one may lie before the first point. -/
def UndistortCondition (g : LidarMeasureGroup C) (m : MeasureGroup C) (p : ImuProcess C) : Prop :=
  ∀ q, g.pclProcCur.head? = some q →
    p.imuPose = [] ∧ keptSamples m p ≠ [] ∧
      ∀ s ∈ (keptSamples m p).dropLast, p.lastPropEndTime + q.offset ≤ s.sec

/-- Heads the backward pass of a call goes through, from the last one. -/
def heads (K : ImuKernel C) (g : LidarMeasureGroup C) (m : MeasureGroup C)
    (state : StatesGroup C) (p : ImuProcess C) : List (Pose6D C × Nat) :=
  (p.imuPose.zipIdx ++ (recordedPoses K g m state p).dropLast.zipIdx p.imuPose.length).reverse

section Call

variable (K : ImuKernel C) {g : LidarMeasureGroup C} {m : MeasureGroup C} (state : StatesGroup C)
  {p : ImuProcess C}

theorem loggedUndistort_eq (hcall : LioCall g m p) :
    loggedUndistort K g m state p =
      swept (fun x : Logged C => x.1.offset) (fun h => h.1.offsetTime)
        (logPoint K (undistortForward K g m state p).2.2) (heads K g m state p)
        (g.pclProcCur.map fun q => (q, [])) := by
  simp only [loggedUndistort, loggedSweep, backwardPass]
  rw [undistortForward_pclWaitProc K m state p hcall.flg, callHeads K m state p hcall.flg, heads]
  have hkeep : ∀ (h : Pose6D C × Nat) (x : Logged C),
      (logPoint K (undistortForward K g m state p).2.2 h x).1.offset = x.1.offset :=
    fun _ _ => rfl
  refine sweepList_eq hkeep _ _ ?_
  rw [List.pairwise_map]
  exact hcall.sorted.imp fun hle => by simpa [PointType.offset] using by linarith

/-- Without earlier poses the heads are those of the call. -/
theorem heads_fresh (hfresh : p.imuPose = []) :
    heads K g m state p = (recordedPoses K g m state p).dropLast.zipIdx.reverse := by
  simp [heads, hfresh]

/-- A call that meets the condition compensates every point once. -/
theorem compensatedOnce_of_condition (hcall : LioCall g m p) (hc : UndistortCondition g m p) :
    ∀ x ∈ loggedUndistort K g m state p, CompensatedOnce K g m state p x := by
  rw [loggedUndistort_eq K state hcall]
  generalize (undistortForward K g m state p).2.2 = st
  cases hcloud : g.pclProcCur with
  | nil => simp [swept]
  | cons q qs =>
    obtain ⟨hfresh, hne, hfirst⟩ := hc q (by rw [hcloud]; rfl)
    have hheads := recordedPoses_heads K state hcall.flg hne
    rw [heads_fresh K state hfresh]
    have hfind : ∀ r ∈ q :: qs, ∃ k h, ((recordedPoses K g m state p).dropLast.zipIdx.reverse.find?
          fun h => decide (h.1.offsetTime < r.offset)) = some (h, k) ∧
        (recordedPoses K g m state p).dropLast[k]? = some h ∧
        InInterval p.lastPropEndTime m.lioTime (keptSamples m p) k
          (p.lastPropEndTime + r.offset) := fun r hr =>
      find_head hne hheads (hcall.offset_pos r (hcloud ▸ hr)) (hcall.offset_le r (hcloud ▸ hr))
    simp only [swept, List.map_cons, List.forall_mem_cons, List.map_map, List.forall_mem_map,
      Function.comp_apply]
    refine ⟨?_, fun r hr => ?_⟩
    · -- the first point: the only head before it is the one it would get
      obtain ⟨k, h, hf, hrec, hint⟩ := hfind q List.mem_cons_self
      obtain ⟨x, hx⟩ := (filter_heads hheads
        (hcall.offset_pos q (hcloud ▸ List.mem_cons_self))).mpr hfirst
      have hxe : some x = some (h, k) := by rw [← hf, ← List.head?_filter, hx]; rfl
      refine ⟨k, h, ?_, hrec, ?_⟩
      · rw [log_every, hx, Option.some.inj hxe, hfresh, List.length_nil, zero_add]
      · rwa [offset_every]
    · obtain ⟨k, h, hf, hrec, hint⟩ := hfind r (List.mem_cons_of_mem _ hr)
      refine ⟨k, h, ?_, hrec, ?_⟩
      · rw [log_once, hf, hfresh, List.length_nil, zero_add]
        rfl
      · rwa [offset_once]

/-- The first point shows whether the condition was met, when earlier poses start at
offset zero. -/
theorem condition_of_compensatedOnce (hcall : LioCall g m p)
    (hstart : p.imuPose = [] ∨ ∃ h ∈ p.imuPose, h.offsetTime = 0)
    (hall : ∀ x ∈ loggedUndistort K g m state p, CompensatedOnce K g m state p x) :
    UndistortCondition g m p := by
  intro q hq
  obtain ⟨qs, hcloud⟩ : ∃ qs, g.pclProcCur = q :: qs := by
    obtain ⟨ys, hys⟩ := List.head?_eq_some_iff.mp hq
    exact ⟨ys, hys⟩
  have hpos : 0 < q.offset := hcall.offset_pos q (hcloud ▸ List.mem_cons_self)
  rw [loggedUndistort_eq K state hcall, hcloud] at hall
  obtain ⟨k, h, hlog, hrec, -⟩ := hall _ List.mem_cons_self
  rw [log_every] at hlog
  have hfresh : p.imuPose = [] := by
    refine hstart.resolve_right fun ⟨old, hold, hzero⟩ => ?_
    -- an earlier pose would be in the log, below the place of every recorded one
    obtain ⟨i, hi⟩ := List.mem_iff_getElem?.mp hold
    have hmem : (old, i) ∈ (heads K g m state p).filter
        fun h => decide (h.1.offsetTime < q.offset) := by
      refine List.mem_filter.mpr ⟨?_, by simpa [hzero] using hpos⟩
      exact List.mem_reverse.mpr (List.mem_append_left _ (List.mk_mem_zipIdx_iff_getElem?.mpr hi))
    rw [hlog, List.mem_singleton] at hmem
    have hlt := (List.getElem?_eq_some_iff.mp hi).1
    have hidx := congrArg Prod.snd hmem
    simp only at hidx
    omega
  have hne : keptSamples m p ≠ [] := by
    intro hnone
    rw [recordedPoses_empty K state hcall.flg hnone] at hrec
    simp at hrec
  refine ⟨hfresh, hne, (filter_heads (recordedPoses_heads K state hcall.flg hne) hpos).mp ?_⟩
  rw [heads_fresh K state hfresh] at hlog
  exact ⟨_, hlog⟩

end Call

/-! ## Runs -/

/-- Arguments of a call of `UndistortPcl`. -/
structure UndistortCall (C : Carrier) where
  lidarMeas : LidarMeasureGroup C
  meas : MeasureGroup C
  state : StatesGroup C

/-- The processor after a call. -/
def undistortStep (K : ImuKernel C) (p : ImuProcess C) (c : UndistortCall C) :
    Option (ImuProcess C) :=
  some (undistortPcl K c.lidarMeas c.meas c.state p).1

/-- A VIO measurement has no samples. -/
def CallOk (_ : ImuProcess C) (c : UndistortCall C) : Prop :=
  c.lidarMeas.lioVioFlg = .vio → c.meas.imu = []

section Poses

variable (K : ImuKernel C) {g : LidarMeasureGroup C} {m : MeasureGroup C} (state : StatesGroup C)
  (p : ImuProcess C)

/-- A LIO call clears the pose list unless its cloud is empty. -/
theorem undistortPcl_imuPose_lio (hlio : g.lioVioFlg = .lio) :
    (undistortPcl K g m state p).1.imuPose =
      if g.pclProcCur = [] then p.imuPose ++ recordedPoses K g m state p else [] := by
  have hflg := undistortForward_flg K g m state p
  have hwait := undistortForward_pclWaitProc K m state p hlio
  have hposes := (undistortForward_imuPose K m state p hlio).1
  unfold undistortPcl
  rcases hf : undistortForward K g m state p with ⟨q, g', st⟩
  rw [hf] at hflg hwait hposes
  simp only at hflg hwait hposes ⊢
  rw [hflg, hlio, hwait]
  cases g.pclProcCur with
  | nil => simpa using hposes
  | cons a as => simp

/-- Other calls leave the pose list as it is. -/
theorem undistortPcl_imuPose_other (hlio : g.lioVioFlg ≠ .lio)
    (hvio : g.lioVioFlg = .vio → m.imu = []) :
    (undistortPcl K g m state p).1.imuPose = p.imuPose := by
  have hflg := undistortForward_flg K g m state p
  have hposes : (undistortForward K g m state p).1.imuPose = p.imuPose := by
    unfold undistortForward
    by_cases hv : g.lioVioFlg = .vio
    · simp [hv, hvio hv, propSteps, propagateAll]
    · simp [hlio, hv]
  unfold undistortPcl
  rcases hf : undistortForward K g m state p with ⟨q, g', st⟩
  rw [hf] at hflg hposes
  simp only at hflg hposes ⊢
  rw [hflg, if_neg hlio]
  split <;> exact hposes

end Poses

/-- Poses left from earlier calls start at offset zero. -/
def HasStart (p : ImuProcess C) : Prop := p.imuPose = [] ∨ ∃ h ∈ p.imuPose, h.offsetTime = 0

theorem HasStart.undistortPcl (K : ImuKernel C) {g : LidarMeasureGroup C} {m : MeasureGroup C}
    (state : StatesGroup C) {p : ImuProcess C} (hp : HasStart p)
    (hvio : g.lioVioFlg = .vio → m.imu = []) : HasStart (undistortPcl K g m state p).1 := by
  unfold HasStart
  by_cases hlio : g.lioVioFlg = .lio
  · rw [undistortPcl_imuPose_lio K state p hlio]
    by_cases hcloud : g.pclProcCur = []
    · rw [if_pos hcloud]
      have hposes := (undistortForward_imuPose K m state p hlio).2
      obtain ⟨first, hfirst, hzero⟩ : ∃ h ∈ recordedPoses K g m state p, h.offsetTime = 0 :=
        List.mem_map.mp (hposes ▸ List.mem_cons_self)
      exact .inr ⟨first, List.mem_append_right _ hfirst, hzero⟩
    · rw [if_neg hcloud]
      exact .inl rfl
  · rw [undistortPcl_imuPose_other K state p hlio hvio]
    exact hp

/-- In every run the poses left in the list start at offset zero. -/
theorem hasStart_of_reach (K : ImuKernel C) {init p : ImuProcess C} (hinit : init.imuPose = [])
    (hp : Reach (undistortStep K) CallOk init p) : HasStart p := by
  refine hp.invariant (.inl hinit) fun c _ hs hok hst => ?_
  obtain rfl := Option.some.inj hst
  exact hs.undistortPcl K c.state hok

/-! ## Without IMU -/

/-- `pcl_out` of `Forward_without_imu`, each point with the number of compensations. -/
def countedForward (cfg : ImuConfig) (K : ImuKernel C) (meas : LidarMeasureGroup C)
    (stateInout : StatesGroup C) (p : ImuProcess C) : List (PointType × Nat) :=
  let points := sortByTime meas.lidar.points
  match points.getLast? with
  | none => []
  | some back =>
    let dt := if p.bFirstFrame then 1 / 10 else meas.lidarFrameBegTime - p.timeLastScan
    forwardPass cfg
      (fun x => (forwardPoint K (K.forward dt stateInout) back.offset x.1, x.2 + 1))
      (points.map fun q => (q, 0))

theorem forwardPass_fst (cfg : ImuConfig) (f : PointType → PointType) (points : List PointType) :
    (forwardPass cfg (fun x : PointType × Nat => (f x.1, x.2 + 1))
      (points.map fun q => (q, 0))).map Prod.fst = forwardPass cfg f points := by
  cases points with
  | nil => rfl
  | cons begin rest =>
    simp only [List.map_cons, forwardPass]
    split <;> simp [Function.comp_def]

/-- Without the counters, the counted run is `pcl_out` of the call. -/
theorem countedForward_fst (cfg : ImuConfig) (K : ImuKernel C) {meas : LidarMeasureGroup C}
    {stateInout : StatesGroup C} {p : ImuProcess C}
    {r : ImuProcess C × LidarMeasureGroup C × StatesGroup C × List PointType}
    (h : forwardWithoutImu cfg K meas stateInout p = some r) :
    (countedForward cfg K meas stateInout p).map Prod.fst = r.2.2.2 := by
  simp only [forwardWithoutImu] at h
  simp only [countedForward]
  cases hback : (sortByTime meas.lidar.points).getLast? with
  | none => simp [hback] at h
  | some back =>
    rw [hback] at h
    obtain rfl := Option.some.inj h
    exact forwardPass_fst cfg _ _

/-- The loop never reaches the first point. -/
theorem countedForward_once_iff (cfg : ImuConfig) (K : ImuKernel C) (meas : LidarMeasureGroup C)
    (stateInout : StatesGroup C) (p : ImuProcess C) :
    (∀ x ∈ countedForward cfg K meas stateInout p, x.2 = 1) ↔ meas.lidar.points = [] := by
  have hlen : (sortByTime meas.lidar.points).length = meas.lidar.points.length :=
    List.length_mergeSort _
  unfold countedForward
  cases hsort : sortByTime meas.lidar.points with
  | nil =>
    rw [hsort] at hlen
    simpa using List.length_eq_zero_iff.mp hlen.symm
  | cons begin rest =>
    rw [hsort] at hlen
    have hne : meas.lidar.points ≠ [] := by
      rintro hnil
      simp [hnil] at hlen
    refine iff_of_false (fun hall => ?_) hne
    simp only [List.getLast?_cons, List.map_cons, forwardPass] at hall
    split at hall
    · exact absurd (hall _ List.mem_cons_self) (by simp)
    · exact absurd (hall _ List.mem_cons_self) (by simp)

/-! ## Exactly once -/

/-- In every run, a LIO call compensates every point once exactly when the condition
holds; without IMU the points of no cloud are all compensated. -/
theorem compensated_once_iff (K : ImuKernel C) {init p : ImuProcess C}
    (hinit : init.imuPose = []) (hp : Reach (undistortStep K) CallOk init p) :
    (∀ (g : LidarMeasureGroup C) (m : MeasureGroup C) (state : StatesGroup C), LioCall g m p →
      ((∀ x ∈ loggedUndistort K g m state p, CompensatedOnce K g m state p x) ↔
        UndistortCondition g m p)) ∧
    ∀ (cfg : ImuConfig) (g : LidarMeasureGroup C) (state : StatesGroup C),
      (∀ x ∈ countedForward cfg K g state p, x.2 = 1) ↔ g.lidar.points = [] :=
  ⟨fun _ _ state hcall =>
    ⟨condition_of_compensatedOnce K state hcall (hasStart_of_reach K hinit hp),
      compensatedOnce_of_condition K state hcall⟩,
    fun cfg g state => countedForward_once_iff cfg K g state p⟩

/-- A LIO measurement with a cloud of points without coordinates. -/
def LidarMeasureGroup.trivial (curvatures : List Double) : LidarMeasureGroup Carrier.trivial where
  lioVioFlg := .lio
  pclProcCur := curvatures.map fun ms => { curvature := ms }

/-- Two points of a step from 1 s to 3 s, the first one before the first sample. -/
theorem compensated_once_two_points :
    let m := MeasureGroup.trivial 3 [⟨2, 0⟩, ⟨2, 500000000⟩]
    let p := ImuProcess.trivial ⟨0, 500000000⟩ 1
    let g := LidarMeasureGroup.trivial [500, 1200]
    ∀ x ∈ loggedUndistort .trivial g m {} p, CompensatedOnce .trivial g m {} p x := by
  intro m p g
  refine ((compensated_once_iff .trivial rfl .start).1 g m {} ⟨rfl, ?_, ?_, ?_⟩).mpr ?_
  · decide +kernel
  · decide +kernel
  · decide +kernel
  · rintro q ⟨rfl⟩
    refine ⟨rfl, ?_, ?_⟩
    · decide +kernel
    · decide +kernel

/-- A single point after the first sample gets the heads of both intervals. -/
theorem compensated_twice :
    let m := MeasureGroup.trivial 3 [⟨2, 0⟩, ⟨2, 500000000⟩]
    let p := ImuProcess.trivial ⟨0, 500000000⟩ 1
    let g := LidarMeasureGroup.trivial [1200]
    LioCall g m p ∧
      ¬∀ x ∈ loggedUndistort .trivial g m {} p, CompensatedOnce .trivial g m {} p x := by
  refine ⟨⟨rfl, by decide +kernel, by decide +kernel, by decide +kernel⟩, fun hall => ?_⟩
  have htwice : (loggedUndistort .trivial (.trivial [1200])
      (MeasureGroup.trivial 3 [⟨2, 0⟩, ⟨2, 500000000⟩]) {}
      (ImuProcess.trivial ⟨0, 500000000⟩ 1)).map (fun x => x.2.length) = [2] := by
    decide +kernel
  obtain ⟨x, hx, hlen⟩ := List.mem_map.mp (htwice ▸ List.mem_singleton_self 2)
  obtain ⟨k, h, hlog, -⟩ := hall x hx
  rw [hlog] at hlen
  simp at hlen

end FastLivo
