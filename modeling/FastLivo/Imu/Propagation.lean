import FastLivo.ImuProcess

/-!
# Steps of the IMU propagation

The samples of a LIO step, preceded by the last sample of the step before, cut the
propagation interval into time steps. They cover the interval, except when the step
has a single sample: the branch for a head before the interval comes first, and the
rest of the interval after that sample is left out.
-/

namespace FastLivo

variable {C : Carrier}

/-- Time steps `steps` that lead from `t0` to `propEnd`, with the offsets of their ends
counted from `propBeg`. -/
structure Spans (propBeg t0 propEnd : Double) (steps : List (PropStep C)) : Prop where
  nonneg : ∀ s ∈ steps, 0 ≤ s.dt
  sum : (steps.map PropStep.dt).sum = propEnd - t0
  sorted : ((t0 - propBeg) :: steps.map PropStep.offsT).Pairwise (· ≤ ·)
  last : (steps.map PropStep.offsT).getLast? = some (propEnd - propBeg)

/-- A first step in front of steps that go on where it ends. -/
theorem Spans.cons {propBeg t0 propEnd : Double} {s : PropStep C} {steps : List (PropStep C)}
    {t1 : Double} (hdt : s.dt = t1 - t0) (hle : t0 ≤ t1) (hoff : s.offsT = t1 - propBeg)
    (h : Spans propBeg t1 propEnd steps) : Spans propBeg t0 propEnd (s :: steps) where
  nonneg := by
    intro x hx
    rcases List.mem_cons.mp hx with rfl | hx
    · rw [hdt]
      exact sub_nonneg.mpr hle
    · exact h.nonneg x hx
  sum := by
    rw [List.map_cons, List.sum_cons, h.sum, hdt]
    ring
  sorted := by
    rw [List.map_cons, hoff]
    refine List.pairwise_cons.mpr ⟨fun x hx => ?_, h.sorted⟩
    rcases List.mem_cons.mp hx with rfl | hx
    · linarith
    · linarith [(List.pairwise_cons.mp h.sorted).1 x hx]
  last := by
    rw [List.map_cons, List.getLast?_cons, h.last]
    rfl

/-- A single step to the end of the interval. -/
theorem Spans.single {propBeg t0 propEnd : Double} {s : PropStep C} (hdt : s.dt = propEnd - t0)
    (hle : t0 ≤ propEnd) (hoff : s.offsT = propEnd - propBeg) : Spans propBeg t0 propEnd [s] where
  nonneg := by
    intro x hx
    rw [List.mem_singleton.mp hx, hdt]
    exact sub_nonneg.mpr hle
  sum := by simp [hdt]
  sorted := by simp [hoff, hle]
  last := by simp [hoff]

/-- From a head inside the interval on, the steps lead to its end: inner steps by the
samples, the last one clipped to the end. -/
theorem propSteps_spans (propBeg propEnd : Double) (tail : List (Imu C)) :
    ∀ (head : Imu C), tail ≠ [] → propBeg ≤ head.sec →
      (head :: tail).Pairwise (fun a b => a.sec ≤ b.sec) →
      (∀ s ∈ head :: tail, s.sec ≤ propEnd) →
      Spans propBeg head.sec propEnd (propSteps propBeg propEnd (head :: tail)) := by
  induction tail with
  | nil =>
    intro head hne
    exact absurd rfl hne
  | cons next rest ih =>
    intro head _ hhead hsorted hend
    obtain ⟨hfirst, hrest⟩ := List.pairwise_cons.mp hsorted
    have hle : head.sec ≤ next.sec := hfirst next List.mem_cons_self
    have hnext : propBeg ≤ next.sec := hhead.trans hle
    rw [propSteps, if_neg (not_lt.mpr hnext), if_neg (not_lt.mpr hhead)]
    by_cases hr : rest = []
    · subst hr
      exact .single rfl (hend head List.mem_cons_self) rfl
    · rw [if_pos hr]
      exact .cons rfl hle rfl
        (ih next hr hnext hrest fun s hs => hend s (List.mem_cons_of_mem _ hs))

/-- The loop records one pose for each step, at the step's offset. -/
theorem propagateAll_offsets (K : ImuKernel C) (acc : C.V3D) (steps : List (PropStep C))
    (st : PropState C) :
    (propagateAll K acc steps st).2.map (fun p : Pose6D C => p.offsetTime) =
      steps.map PropStep.offsT := by
  induction steps generalizing st with
  | nil => rfl
  | cons s ss ih => rw [propagateAll, List.map_cons, List.map_cons, ih]; rfl

/-- Time steps of a LIO call. -/
def lioSteps (m : MeasureGroup C) (p : ImuProcess C) : List (PropStep C) :=
  propSteps p.lastPropEndTime m.lioTime (p.lastImu :: m.imu)

/-- Poses a call of `UndistortPcl` records. -/
def recordedPoses (K : ImuKernel C) (g : LidarMeasureGroup C) (m : MeasureGroup C)
    (state : StatesGroup C) (p : ImuProcess C) : List (Pose6D C) :=
  (undistortForward K g m state p).1.imuPose.drop p.imuPose.length

/-- A LIO call appends its first pose, at offset zero, and one pose for each step. -/
theorem undistortForward_imuPose (K : ImuKernel C) {g : LidarMeasureGroup C} (m : MeasureGroup C)
    (state : StatesGroup C) (p : ImuProcess C) (hlio : g.lioVioFlg = .lio) :
    (undistortForward K g m state p).1.imuPose = p.imuPose ++ recordedPoses K g m state p ∧
      (recordedPoses K g m state p).map (fun q : Pose6D C => q.offsetTime) =
        0 :: (lioSteps m p).map PropStep.offsT := by
  have heq : ∃ first st, first.offsetTime = 0 ∧
      (undistortForward K g m state p).1.imuPose =
        p.imuPose ++ (first :: (propagateAll K p.meanAcc (lioSteps m p) st).2) := by
    refine ⟨⟨0, p.accSLast, p.angvelLast, state.velEnd, state.posEnd, state.rotEnd⟩,
      ⟨state, p.accSLast, p.angvelLast, state.velEnd, state.posEnd, state.rotEnd⟩, rfl, ?_⟩
    simp only [undistortForward, hlio, if_true, true_or, propEndTime, lioSteps, List.append_assoc,
      List.singleton_append]
  obtain ⟨first, st, hzero, heq⟩ := heq
  have hrec : recordedPoses K g m state p =
      first :: (propagateAll K p.meanAcc (lioSteps m p) st).2 := by
    rw [recordedPoses, heq, List.drop_left]
  refine ⟨by rw [hrec, heq], ?_⟩
  rw [hrec, List.map_cons, hzero, propagateAll_offsets]

/-- The steps and the poses of a call cover its interval. -/
structure CoversInterval (propBeg propEnd : Double) (steps : List (PropStep C))
    (poses : List (Pose6D C)) : Prop where
  nonneg : ∀ s ∈ steps, 0 ≤ s.dt
  sum : (steps.map PropStep.dt).sum = propEnd - propBeg
  sorted : poses.Pairwise fun a b => a.offsetTime ≤ b.offsetTime
  first : poses.head?.map (fun p => p.offsetTime) = some 0
  last : poses.getLast?.map (fun p => p.offsetTime) = some (propEnd - propBeg)

theorem Spans.covers {propBeg propEnd : Double} {steps : List (PropStep C)}
    {poses : List (Pose6D C)} (h : Spans propBeg propBeg propEnd steps)
    (hposes : poses.map (fun p => p.offsetTime) = 0 :: steps.map PropStep.offsT) :
    CoversInterval propBeg propEnd steps poses where
  nonneg := h.nonneg
  sum := h.sum
  sorted := by
    have hs := h.sorted
    rw [sub_self, ← hposes] at hs
    exact List.pairwise_map.mp hs
  first := by rw [← List.head?_map, hposes]; rfl
  last := by
    rw [← List.getLast?_map, hposes, List.getLast?_cons, h.last]
    rfl

/-- When the steps of a LIO call cover its interval. -/
def CoverCondition (m : MeasureGroup C) (p : ImuProcess C) : Prop :=
  2 ≤ m.imu.length ∨ p.lastImu.sec = p.lastPropEndTime ∨ m.imu.head?.map Imu.sec = some m.lioTime

/-- The steps of a LIO call span its interval when the condition holds. -/
theorem lioSteps_spans {m : MeasureGroup C} {p : ImuProcess C}
    (hne : m.imu ≠ []) (hsorted : m.imu.Pairwise fun a b => a.sec ≤ b.sec)
    (hin : ∀ s ∈ m.imu, p.lastPropEndTime < s.sec ∧ s.sec ≤ m.lioTime)
    (hlast : p.lastImu.sec ≤ p.lastPropEndTime) (hc : CoverCondition m p) :
    Spans p.lastPropEndTime p.lastPropEndTime m.lioTime (lioSteps m p) := by
  obtain ⟨first, rest, himu⟩ := List.exists_cons_of_ne_nil hne
  have hfirst := hin first (himu ▸ List.mem_cons_self)
  rw [himu] at hsorted
  have hend : ∀ s ∈ first :: rest, s.sec ≤ m.lioTime := fun s hs => (hin s (himu ▸ hs)).2
  rcases hlast.eq_or_lt with heq | hlt
  · -- the last sample of the step before stands at the start of the interval
    have hspan := propSteps_spans p.lastPropEndTime m.lioTime (first :: rest) p.lastImu (by simp)
      heq.ge (List.pairwise_cons.mpr ⟨fun s hs => hlast.trans (hin s (himu ▸ hs)).1.le, hsorted⟩)
      (List.forall_mem_cons.mpr ⟨heq.trans_le (hfirst.1.le.trans hfirst.2), hend⟩)
    rw [heq, ← himu] at hspan
    exact hspan
  · rw [lioSteps, himu, propSteps, if_neg (not_lt.mpr hfirst.1.le), if_pos hlt]
    by_cases hr : rest = []
    · subst hr
      have hpe : first.sec = m.lioTime := by
        rcases hc with h | h | h
        · simp [himu] at h
        · exact absurd h hlt.ne
        · simpa [himu] using h
      rw [propSteps.eq_def]
      exact .single (by rw [hpe]) (hfirst.1.le.trans hfirst.2) (by rw [hpe])
    · exact .cons rfl hfirst.1.le rfl
        (propSteps_spans _ _ rest first hr hfirst.1.le hsorted hend)

/-- With a single sample after an earlier last sample, the steps end at the sample. -/
theorem lioSteps_sum_single {m : MeasureGroup C} {p : ImuProcess C} {s : Imu C}
    (himu : m.imu = [s]) (hlt : p.lastImu.sec < p.lastPropEndTime)
    (hs : p.lastPropEndTime < s.sec) :
    ((lioSteps m p).map PropStep.dt).sum = s.sec - p.lastPropEndTime := by
  rw [lioSteps, himu, propSteps, if_neg (not_lt.mpr hs.le), if_pos hlt]
  simp [propSteps]

/-- The time steps of a LIO call cover its interval exactly when the call has two
samples, or the last sample before stands at its start, or its sample at its end. -/
theorem propagation_covers_iff (K : ImuKernel C) (g : LidarMeasureGroup C) (m : MeasureGroup C)
    (state : StatesGroup C) (p : ImuProcess C) (hlio : g.lioVioFlg = .lio)
    (hne : m.imu ≠ []) (hsorted : m.imu.Pairwise fun a b => a.sec ≤ b.sec)
    (hin : ∀ s ∈ m.imu, p.lastPropEndTime < s.sec ∧ s.sec ≤ m.lioTime)
    (hlast : p.lastImu.sec ≤ p.lastPropEndTime) :
    CoversInterval p.lastPropEndTime m.lioTime (lioSteps m p) (recordedPoses K g m state p) ↔
      CoverCondition m p := by
  constructor
  · intro hcov
    by_contra hc
    simp only [CoverCondition, not_or, not_le] at hc
    obtain ⟨hlen, hbeg, hend⟩ := hc
    obtain ⟨s, himu⟩ := List.length_eq_one_iff.mp
      (le_antisymm (Nat.le_of_lt_succ hlen) (List.length_pos_iff.mpr hne))
    have hs := hin s (by simp [himu])
    have hsum := hcov.sum
    rw [lioSteps_sum_single himu (hlast.lt_of_ne hbeg) hs.1, sub_left_inj] at hsum
    exact hend (by rw [himu, List.head?_cons, Option.map_some, hsum])
  · intro hc
    exact (lioSteps_spans hne hsorted hin hlast hc).covers
      (undistortForward_imuPose K m state p hlio).2

/-- Two samples, the last sample before the interval. -/
theorem propagation_covers_two_samples :
    let m := MeasureGroup.trivial 3 [⟨2, 0⟩, ⟨2, 500000000⟩]
    let p := ImuProcess.trivial ⟨0, 500000000⟩ 1
    CoversInterval p.lastPropEndTime m.lioTime (lioSteps m p)
      (recordedPoses .trivial { lioVioFlg := .lio } m {} p) := by
  intro m p
  refine (propagation_covers_iff .trivial { lioVioFlg := .lio } m {} p rfl ?_ ?_ ?_ ?_).mpr
    (.inl (by simp [m, MeasureGroup.trivial]))
  · simp [m, MeasureGroup.trivial]
  · simp [m, MeasureGroup.trivial, Imu.sec, Stamp.toSec]
    norm_num
  · simp [m, p, MeasureGroup.trivial, ImuProcess.trivial, Imu.sec, Stamp.toSec]
    norm_num
  · simp [p, ImuProcess.trivial, Imu.sec, Stamp.toSec]
    norm_num

/-- One sample at 2 s in the interval from 1 s to 3 s, the last sample at 0.5 s: the
single step ends at the sample. -/
theorem propagation_leaves_gap :
    let m := MeasureGroup.trivial 3 [⟨2, 0⟩]
    let p := ImuProcess.trivial ⟨0, 500000000⟩ 1
    m.imu ≠ [] ∧ (m.imu.Pairwise fun a b => a.sec ≤ b.sec) ∧
      (∀ s ∈ m.imu, p.lastPropEndTime < s.sec ∧ s.sec ≤ m.lioTime) ∧
      p.lastImu.sec ≤ p.lastPropEndTime ∧
      ¬CoversInterval p.lastPropEndTime m.lioTime (lioSteps m p)
        (recordedPoses .trivial { lioVioFlg := .lio } m {} p) := by
  refine ⟨by simp [MeasureGroup.trivial], by simp [MeasureGroup.trivial], ?_, ?_, fun h => ?_⟩
  · simp [MeasureGroup.trivial, ImuProcess.trivial, Imu.sec, Stamp.toSec]
    norm_num
  · simp [ImuProcess.trivial, Imu.sec, Stamp.toSec]
    norm_num
  · have hsum : ((lioSteps (.trivial 3 [⟨2, 0⟩]) (.trivial ⟨0, 500000000⟩ 1)).map
        PropStep.dt).sum = 1 := by decide +kernel
    have hcov := h.sum
    rw [hsum] at hcov
    norm_num [MeasureGroup.trivial, ImuProcess.trivial] at hcov

end FastLivo
