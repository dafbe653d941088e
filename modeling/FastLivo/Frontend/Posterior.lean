import FastLivo.Frontend.StateEstimation

/-!
# The posterior of the LiDAR update

The gain has six columns, the posterior is the one of the whole state. Iterations before
the last one leave the covariance as it is.
-/

namespace FastLivo.Frontend

open Lib Esikf Matrix

noncomputable section

/-- The jacobian of the rows with respect to the whole error. -/
def jacobian (rows : List Row) : Matrix (Fin rows.length) StateIndex ℝ :=
  padCols poseIndex (hsub rows)

/-- The noise of the rows. -/
def noise (rows : List Row) : Matrix (Fin rows.length) (Fin rows.length) ℝ :=
  diagonal fun i => (rInv rows i)⁻¹

/-- No row has infinite noise. -/
def Positive (rows : List Row) : Prop := ∀ r ∈ rows, 0 < r.rInv

section Rows

variable {C : Carrier} {rows : List Row}

theorem lidarRow_pos (c : LioCall C) (state : ExactState C) (ptpl : PointToPlane) :
    0 < (lidarRow c state ptpl).rInv := by
  have hquad {n : Type} [Fintype n] {A : Matrix n n ℝ} (hA : A.PosSemidef) (x : n → ℝ) :
      0 ≤ x ⬝ᵥ (A *ᵥ x) := by
    simpa using hA.dotProduct_mulVec_nonneg x
  have hvar (B : Mat3) : (B * ptpl.bodyCov * Bᵀ).PosSemidef := by
    have h := ptpl.bodyCov_posSemidef.mul_mul_conjTranspose_same B
    rwa [conjTranspose_eq_transpose_of_trivial] at h
  refine one_div_pos.mpr (add_pos_of_pos_of_nonneg (add_pos_of_pos_of_nonneg (by norm_num) ?_) ?_)
  · exact hquad ptpl.planeVar_posSemidef _
  · exact hquad (hvar _) _

theorem rtkRows_pos (c : LioCall C) (state : ExactState C) : Positive (rtkRows c state) := by
  intro r hr
  obtain ⟨k, rfl⟩ := List.mem_ofFn.mp hr
  exact one_div_pos.mpr (lt_max_of_lt_right (by norm_num))

theorem Positive.rInv_pos (h : Positive rows) (i : Fin rows.length) : 0 < rInv rows i :=
  h _ (rows.get_mem i)

theorem Positive.noise_posDef (h : Positive rows) : (noise rows).PosDef :=
  PosDef.diagonal fun i => inv_pos.mpr (h.rInv_pos i)

theorem Positive.noise_inv (h : Positive rows) : (noise rows)⁻¹ = diagonal (rInv rows) := by
  apply inv_eq_left_inv
  rw [noise, diagonal_mul_diagonal, ← diagonal_one]
  congr 1
  funext i
  exact mul_inv_cancel₀ (h.rInv_pos i).ne'

theorem hTH_eq (rows : List Row) : hTH rows = (hsub rows)ᵀ * diagonal (rInv rows) * hsub rows := by
  have hcols : hsubTRInv rows = (hsub rows)ᵀ * diagonal (rInv rows) := by
    ext c i
    rw [mul_diagonal]
    rfl
  rw [hTH, hcols]

/-- The block of the code is the information of the rows. -/
theorem Positive.pad_hTH (h : Positive rows) :
    pad poseIndex (hTH rows) = (jacobian rows)ᵀ * (noise rows)⁻¹ * jacobian rows := by
  rw [h.noise_inv, hTH_eq, pad_normal]
  rfl

theorem Positive.information (h : Positive rows) : (pad poseIndex (hTH rows)).PosSemidef := by
  rw [hTH_eq, pad_normal]
  exact information_posSemidef _ fun i => (h.rInv_pos i).le

/-- The compact update of the covariance is the posterior. -/
theorem Positive.sub_gain_mul (h : Positive rows) {P : StateMatrix} (hP : P.PosDef) :
    (1 - gain rows P) * P =
      ((jacobian rows)ᵀ * (noise rows)⁻¹ * jacobian rows + P⁻¹)⁻¹ := by
  rw [gain, padCols_submatrix_mul, ← h.pad_hTH]
  exact Lib.sub_gain_mul hP h.information

end Rows

/-! ## Passes -/

section Passes

variable {C : Carrier} (c : LioCall C) (P : StateMatrix)

/-- An iteration that works with the covariance `P` and the given propagated state. -/
structure UsesEntry (q : LioPass C) : Prop where
  cov : covOf q.state = P
  gate : q.useRtk = useRtk c q.state
  /-- LiDAR rows, and RTK rows when the gate passed. -/
  rows : q.rows = q.ptplList.map (lidarRow c q.state) ++
    if q.useRtk then rtkRows c q.state else []
  next : q.next = boxplus q.state (solution q.rows P (boxminus c.statePropagat q.state))

/-- Iterations from the manager `m` to `m'`: each starts where the one before ended, and
the last one alone updates the covariance. -/
structure LioTrace (m m' : VoxelMapManager C) (init : List (LioPass C)) (last : LioPass C) :
    Prop where
  start : (init ++ [last]).head?.map LioPass.state = some m.state
  chain : (init ++ [last]).IsChain fun q r => r.state = q.next
  uses : ∀ q ∈ init ++ [last], UsesEntry c P q
  notUpdated : ∀ q ∈ init, q.covUpdated = false
  updated : last.covUpdated = true
  noise : (noise last.rows).PosDef
  cov : covOf m'.state =
    ((jacobian last.rows)ᵀ * (Frontend.noise last.rows)⁻¹ * jacobian last.rows + P⁻¹)⁻¹

variable {c P} {m : VoxelMapManager C}

theorem UsesEntry.positive {q : LioPass C} (h : UsesEntry c P q) :
    Positive q.rows := by
  rw [h.rows]
  intro r hr
  rcases List.mem_append.mp hr with hr | hr
  · obtain ⟨ptpl, -, rfl⟩ := List.mem_map.mp hr
    exact lidarRow_pos _ _ _
  · split at hr
    · exact rtkRows_pos _ _ r hr
    · cases hr

theorem lioIteration_uses (hm : covOf m.state = P) (iterCount rematchNum : Nat) :
    UsesEntry c P
      (lioIteration c iterCount rematchNum m).2.2 := by
  subst hm
  exact ⟨rfl, rfl, rfl, rfl⟩

/-- An iteration that goes on keeps the covariance and hands its state over. -/
theorem lioIteration_state {iterCount rematchNum : Nat}
    (hgo : (lioIteration c iterCount rematchNum m).2.2.covUpdated =
      false) :
    (lioIteration c iterCount rematchNum m).1.state =
      (lioIteration c iterCount rematchNum m).2.2.next :=
  if_neg (Bool.eq_false_iff.mp hgo)

theorem lioIteration_cov {iterCount rematchNum : Nat}
    (hstop : (lioIteration c iterCount rematchNum m).2.2.covUpdated =
      true) :
    covOf (lioIteration c iterCount rematchNum m).1.state =
      (1 - gain (lioIteration c iterCount rematchNum m).2.2.rows
        (covOf m.state)) * covOf m.state :=
  congrArg covOf (if_pos hstop)

/-- The last iteration the loop has left always updates. -/
theorem lioIteration_last {iterCount : Nat} (hlast : (iterCount : Int) = c.cfg.maxIterations - 1)
    (rematchNum : Nat) :
    (lioIteration c iterCount rematchNum m).2.2.covUpdated = true :=
  decide_eq_true (Or.inr hlast)

/-- A loop that ends with an iteration. -/
theorem LioTrace.single (hP : P.PosDef) (hm : covOf m.state = P) {iterCount rematchNum : Nat}
    (hstop : (lioIteration c iterCount rematchNum m).2.2.covUpdated =
      true) :
    LioTrace c P m
      (lioIteration c iterCount rematchNum m).1 []
      (lioIteration c iterCount rematchNum m).2.2 := by
  have huses := lioIteration_uses (c := c) hm iterCount rematchNum
  refine ⟨rfl, .singleton _, ?_, by simp, hstop, huses.positive.noise_posDef, ?_⟩
  · intro q hq
    obtain rfl := List.mem_singleton.mp hq
    exact huses
  · rw [lioIteration_cov hstop, hm]
    exact huses.positive.sub_gain_mul hP

/-- A loop that goes on after an iteration. -/
theorem LioTrace.cons (hm : covOf m.state = P) {iterCount rematchNum : Nat}
    (hgo : (lioIteration c iterCount rematchNum m).2.2.covUpdated =
      false)
    {m' : VoxelMapManager C} {init : List (LioPass C)} {last : LioPass C}
    (h : LioTrace c P
      (lioIteration c iterCount rematchNum m).1 m' init last) :
    LioTrace c P m m'
      ((lioIteration c iterCount rematchNum m).2.2 :: init) last where
  start := rfl
  chain := by
    refine List.isChain_cons.mpr ⟨fun r hr => ?_, h.chain⟩
    have hstart := h.start
    rw [show (init ++ [last]).head? = some r from hr, lioIteration_state hgo] at hstart
    exact Option.some.inj hstart
  uses := List.forall_mem_cons.mpr ⟨lioIteration_uses hm _ _, h.uses⟩
  notUpdated := List.forall_mem_cons.mpr ⟨hgo, h.notUpdated⟩
  updated := h.updated
  noise := h.noise
  cov := h.cov

theorem lioLoop_stop {iterCount rematchNum : Nat} (left : Nat)
    (hstop : (lioIteration c iterCount rematchNum m).2.2.covUpdated =
      true) :
    lioLoop c (left + 1) iterCount rematchNum m =
      ((lioIteration c iterCount rematchNum m).1,
        [(lioIteration c iterCount rematchNum m).2.2]) :=
  if_pos hstop

theorem lioLoop_next {iterCount rematchNum : Nat} (left : Nat)
    (hgo : (lioIteration c iterCount rematchNum m).2.2.covUpdated =
      false) :
    lioLoop c (left + 1) iterCount rematchNum m =
      ((lioLoop c left (iterCount + 1)
          (lioIteration c iterCount rematchNum m).2.1
          (lioIteration c iterCount rematchNum m).1).1,
        (lioIteration c iterCount rematchNum m).2.2 ::
          (lioLoop c left (iterCount + 1)
            (lioIteration c iterCount rematchNum m).2.1
            (lioIteration c iterCount rematchNum m).1).2) :=
  if_neg (Bool.eq_false_iff.mp hgo)

theorem lioLoop_trace (hP : P.PosDef) (left : Nat) {iterCount rematchNum : Nat}
    (hleft : (iterCount : Int) + (left + 1) = c.cfg.maxIterations) (hm : covOf m.state = P) :
    ∃ init last,
      (lioLoop c (left + 1) iterCount rematchNum m).2 =
        init ++ [last] ∧
      LioTrace c P m
        (lioLoop c (left + 1) iterCount rematchNum m).1 init last := by
  -- A loop that may go on has iterations left: the last one always stops.
  induction left generalizing iterCount rematchNum m with
  | zero =>
    have hlast : (iterCount : Int) = c.cfg.maxIterations - 1 := by omega
    have hstop := lioIteration_last (m := m) hlast rematchNum
    rw [lioLoop_stop _ hstop]
    exact ⟨[], _, rfl, LioTrace.single hP hm hstop⟩
  | succ left ih =>
    by_cases hstop :
        (lioIteration c iterCount rematchNum m).2.2.covUpdated = true
    · rw [lioLoop_stop _ hstop]
      exact ⟨[], _, rfl, LioTrace.single hP hm hstop⟩
    · have hgo := Bool.eq_false_iff.mpr hstop
      have hcov : covOf
          (lioIteration c iterCount rematchNum m).1.state = P := by
        rw [lioIteration_state hgo, (lioIteration_uses hm _ _).next, boxplus_cov]
        exact (lioIteration_uses hm _ _).cov
      have hleft' : ((iterCount + 1 : Nat) : Int) + (left + 1) = c.cfg.maxIterations := by
        push_cast at hleft ⊢
        omega
      obtain ⟨init, last, hpasses, htrace⟩ := ih hleft' hcov
      rw [lioLoop_next _ hgo, hpasses]
      exact ⟨_ :: init, last, rfl, htrace.cons hm hgo⟩

end Passes

theorem stateEstimation_trace {C : Carrier} (c : LioCall C) (m : VoxelMapManager C)
    (hmax : 1 ≤ c.cfg.maxIterations) (hP : (covOf m.state).PosDef) :
    ∃ init last, (stateEstimation c m).2 = init ++ [last] ∧
      LioTrace c (covOf m.state) m (stateEstimation c m).1 init last := by
  obtain ⟨left, hleft⟩ : ∃ left, c.cfg.maxIterations.toNat = left + 1 :=
    ⟨c.cfg.maxIterations.toNat - 1, by omega⟩
  have hcount : ((0 : Nat) : Int) + (left + 1) = c.cfg.maxIterations := by omega
  unfold stateEstimation
  rw [hleft]
  obtain ⟨init, last, hpasses, htrace⟩ :=
    lioLoop_trace (m := prepareLists c m) (P := covOf m.state) hP left hcount rfl
  exact ⟨init, last, hpasses, htrace.start, htrace.chain, htrace.uses, htrace.notUpdated,
    htrace.updated, htrace.noise, htrace.cov⟩

/-- Every call updates the covariance once, in its last iteration, to the posterior of the
rows found there; all its iterations use the covariance and the propagated state given at
entry. -/
theorem stateEstimation_posterior {C : Carrier} (c : LioCall C) (m : VoxelMapManager C)
    (hmax : 1 ≤ c.cfg.maxIterations) (hP : (covOf m.state).PosDef) :
    ∃ init last, (stateEstimation c m).2 = init ++ [last] ∧
      (∀ q ∈ init, q.covUpdated = false) ∧ last.covUpdated = true ∧
      (∀ q ∈ init ++ [last], UsesEntry c (covOf m.state) q) ∧
      (noise last.rows).PosDef ∧
      covOf (stateEstimation c m).1.state =
        ((jacobian last.rows)ᵀ * (noise last.rows)⁻¹ * jacobian last.rows +
          (covOf m.state)⁻¹)⁻¹ := by
  obtain ⟨init, last, hpasses, htrace⟩ := stateEstimation_trace c m hmax hP
  exact ⟨init, last, hpasses, htrace.notUpdated, htrace.updated, htrace.uses, htrace.noise,
    htrace.cov⟩

/-- A call on a map without planes, with a position at the antenna. -/
def LioCall.noPlanes : LioCall Carrier.trivial where
  cfg :=
    { maxIterations := 5, deptErr := 0.02, beamErr := 0.05, extR := 1, extT := 0
      rtkLeverArm := 0, rtkInnovationGate := 16.27 }
  kernel :=
    { buildResidualList := fun _ pvList => (pvList, [])
      nis := fun innovationCov innovation => some (innovation ⬝ᵥ (innovationCov⁻¹ *ᵥ innovation)) }
  statePropagat := {}
  rtkGood := true
  rtk := { valid := true }

/-- `VoxelMapManager` with a new state and one point. -/
def VoxelMapManager.onePoint : VoxelMapManager Carrier.trivial where
  state := {}
  featsDownBody := [{ x := 1 }]

/-- In an iteration the search for residuals is asked about points with the covariances that were
prepared for them, and its answer is what is matched. -/
theorem exists_pvList {C : Carrier} {c : LioCall C} {left iterCount rematchNum : Nat}
    {m : VoxelMapManager C} {p : LioPass C}
    (hbody : m.bodyCovList = m.featsDownBody.map fun q => (prepared c.cfg q).2)
    (h : p ∈ (lioLoop c left iterCount rematchNum m).2) :
    ∃ iter pvList, (∀ pv ∈ pvList, ∃ q, pv.bodyVar = (prepared c.cfg q).2) ∧
      p.ptplList = (c.kernel.buildResidualList iter pvList).2 := by
  induction left generalizing iterCount rematchNum m with
  | zero => exact absurd h List.not_mem_nil
  | succ left ih =>
    have hfirst : ∃ iter pvList, (∀ pv ∈ pvList, ∃ q, pv.bodyVar = (prepared c.cfg q).2) ∧
        (lioIteration c iterCount rematchNum m).2.2.ptplList =
          (c.kernel.buildResidualList iter pvList).2 := by
      refine ⟨iterCount, _, fun pv hpv => ?_, rfl⟩
      obtain ⟨i, hi, rfl⟩ := List.getElem_of_mem hpv
      rw [List.getElem_zipWith, List.getElem_zip, List.getElem_zip]
      simp only [PointWithVar.update, hbody, List.getElem_map]
      exact ⟨_, rfl⟩
    by_cases hstop : (lioIteration c iterCount rematchNum m).2.2.covUpdated = true
    · rw [lioLoop_stop _ hstop] at h
      rw [List.mem_singleton.mp h]
      exact hfirst
    · rw [lioLoop_next _ (Bool.eq_false_iff.mpr hstop)] at h
      rcases List.mem_cons.mp h with rfl | h
      · exact hfirst
      · exact ih (m := (lioIteration c iterCount rematchNum m).1) hbody h

/-- A match of the plane through the origin. -/
def PointToPlane.sample : PointToPlane where
  pointB := ![1, 0, 0]
  normal := ![0, 1, 0]
  center := 0
  planeVar := 0
  bodyCov := 0
  disToPlane := 0
  planeVar_posSemidef := PosSemidef.zero
  bodyCov_posSemidef := PosSemidef.zero

/-- A call that matches one plane. The LiDAR is turned against the IMU. -/
def LioCall.onePlane : LioCall Carrier.trivial where
  cfg :=
    { LioCall.noPlanes.cfg with
      extR := !![0, -1, 0; 1, 0, 0; 0, 0, 1], extT := ![0.1, 0, 0], rtkLeverArm := ![0, 0, 0.1] }
  kernel :=
    { LioCall.noPlanes.kernel with
      buildResidualList := fun _ pvList => (pvList, [PointToPlane.sample]) }
  statePropagat := {}
  rtkGood := true
  rtk := { valid := true }

theorem stateEstimation_posterior_onePlane :
    ∃ init last, (stateEstimation LioCall.onePlane VoxelMapManager.onePoint).2 = init ++ [last] ∧
      (∀ q ∈ init, q.covUpdated = false) ∧ last.covUpdated = true ∧
      (∀ q ∈ init ++ [last], q.ptplList = [PointToPlane.sample]) ∧
      (∀ q ∈ init ++ [last], UsesEntry LioCall.onePlane (covOf VoxelMapManager.onePoint.state) q) ∧
      (noise last.rows).PosDef ∧
      covOf (stateEstimation LioCall.onePlane VoxelMapManager.onePoint).1.state =
        ((jacobian last.rows)ᵀ * (noise last.rows)⁻¹ * jacobian last.rows +
          (covOf VoxelMapManager.onePoint.state)⁻¹)⁻¹ := by
  obtain ⟨init, last, hpasses, hnot, hlast, huses, hnoise, hcov⟩ :=
    stateEstimation_posterior LioCall.onePlane VoxelMapManager.onePoint (by decide) initCov_posDef
  refine ⟨init, last, hpasses, hnot, hlast, fun q hq => ?_, huses, hnoise, hcov⟩
  rw [← hpasses] at hq
  obtain ⟨_, _, -, hmatched⟩ := exists_pvList rfl hq
  exact hmatched

end

end FastLivo.Frontend
