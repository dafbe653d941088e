import FastLivo.Frontend.Propagation

/-!
# What a prediction does to the covariance

`F_x` of both propagations loses nothing: by blocks it is triangular, with rotations and
identities on the diagonal. `cov_w` is a sum of blocks that are covariances.
-/

namespace FastLivo.Frontend

open Lib Esikf Matrix

/-- Row and column of a block. -/
def blockIndex (b : StateBlock) (i : Fin 3) : StateIndex := some (b, i)

theorem blockIndex_injective (b : StateBlock) : (blockIndex b).Injective := by
  intro i j h
  simpa [blockIndex] using h

/-! ## Noise -/

/-- Assigning a diagonal block that was zero adds it. -/
theorem setBlock_eq_add {M : StateMatrix} {b : StateBlock} (B : Mat3)
    (h : ∀ i j, M (some (b, i)) (some (b, j)) = 0) :
    setBlock M b b B = M + pad (blockIndex b) B := by
  ext i j
  rw [Matrix.add_apply]
  rcases i with _ | ⟨c, i⟩
  · rw [setBlock_none_left, pad_of_notMem_left _ (by simp [blockIndex]), add_zero]
  rcases j with _ | ⟨d, j⟩
  · rw [setBlock_none_right, pad_of_notMem_right _ (by simp [blockIndex]), add_zero]
  rw [setBlock_some]
  by_cases hc : c = b
  · by_cases hd : d = b
    · subst hc hd
      rw [if_pos ⟨rfl, rfl⟩, h, zero_add]
      exact (pad_apply (blockIndex_injective _) B i j).symm
    · rw [if_neg fun hh => hd hh.2, pad_of_notMem_right _ (by simp [blockIndex, Ne.symm hd]),
        add_zero]
  · rw [if_neg fun hh => hc hh.1, pad_of_notMem_left _ (by simp [blockIndex, Ne.symm hc]),
      add_zero]

theorem setBlock_posSemidef {M : StateMatrix} (hM : M.PosSemidef) {b : StateBlock} {B : Mat3}
    (hB : B.PosSemidef) (h : ∀ i j, M (some (b, i)) (some (b, j)) = 0) :
    (setBlock M b b B).PosSemidef := by
  rw [setBlock_eq_add B h]
  exact hM.add (pad_posSemidef _ hB)

theorem setExpo_posSemidef {x : ℝ} (hx : 0 ≤ x) : (setExpo 0 x).PosSemidef := by
  have hdiag : setExpo 0 x = diagonal fun i => if i = none then x else 0 := by
    ext i j
    rcases i with _ | i <;> rcases j with _ | j <;> simp [diagonal]
  rw [hdiag]
  refine PosSemidef.diagonal fun i => ?_
  dsimp only
  split <;> simp [hx]

theorem diagonal_sq_posSemidef {d : Vec3} (hd : ∀ i, 0 ≤ d i) (dt : ℝ) :
    (diagonal fun i => d i * dt * dt : Mat3).PosSemidef :=
  PosSemidef.diagonal fun i => by
    rw [mul_assoc]
    exact mul_nonneg (hd i) (mul_self_nonneg dt)

theorem undistortCovW_posSemidef {p : ImuParams} (hp : p.NonNeg) (rImu : Mat3) (dt : ℝ) :
    (undistortCovW p rImu dt).PosSemidef := by
  have hacc : ((dt * dt) • (rImu * diagonal p.covAcc * rImuᵀ)).PosSemidef := by
    have h := (PosSemidef.diagonal (n := Fin 3) hp.covAcc).mul_mul_conjTranspose_same rImu
    rw [conjTranspose_eq_transpose_of_trivial] at h
    exact h.smul (mul_self_nonneg dt)
  have hexpo : (if p.exposureEstimateEn then setExpo 0 (p.covInvExpo * dt * dt)
      else (0 : StateMatrix)).PosSemidef := by
    split
    · rw [mul_assoc]
      exact setExpo_posSemidef (mul_nonneg hp.covInvExpo (mul_self_nonneg dt))
    · exact PosSemidef.zero
  have hzero : ∀ b c i j, (if p.exposureEstimateEn then setExpo 0 (p.covInvExpo * dt * dt)
      else (0 : StateMatrix)) (some (b, i)) (some (c, j)) = 0 := by
    intro b c i j
    split <;> simp
  have hrot := setBlock_posSemidef hexpo (diagonal_sq_posSemidef hp.covGyr dt) (hzero .rot .rot)
  have hvel := setBlock_posSemidef hrot (b := .vel) hacc fun i j => by simp [hzero]
  have hbg := setBlock_posSemidef hvel (b := .biasG) (diagonal_sq_posSemidef hp.covBiasGyr dt)
    fun i j => by simp [hzero]
  exact setBlock_posSemidef hbg (b := .biasA) (diagonal_sq_posSemidef hp.covBiasAcc dt)
    fun i j => by simp [hzero]

theorem forwardCovW_posSemidef {p : ImuParams} (hp : p.NonNeg) (dt : ℝ) :
    (forwardCovW p dt).PosSemidef := by
  have hbg := setBlock_posSemidef PosSemidef.zero (b := .biasG)
    (diagonal_sq_posSemidef hp.covGyr dt) fun i j => rfl
  exact setBlock_posSemidef hbg (b := .vel) (diagonal_sq_posSemidef hp.covAcc dt)
    fun i j => by simp

/-! ## Transition -/

/-- Order in which the blocks of `F_x` are eliminated: each reaches only later ones. -/
def blockRank : Option StateBlock → ℕ
  | none => 0
  | some .pos => 0
  | some .vel => 1
  | some .rot => 2
  | some _ => 3

/-- `block<3, 3>` of a matrix. -/
def blockOf (M : StateMatrix) (b c : StateBlock) : Mat3 :=
  M.submatrix (blockIndex b) (blockIndex c)

theorem vecMul_of_support {F : StateMatrix} {z : StateVector} {b : StateBlock}
    (hz : ∀ i : StateIndex, i.map Prod.fst ≠ some b → z i = 0) (j : StateIndex) :
    (z ᵥ* F) j = ∑ i, z (some (b, i)) * F (some (b, i)) j := by
  rw [vecMul, dotProduct, Fintype.sum_option, Fintype.sum_prod_type, hz none (by simp), zero_mul,
    zero_add]
  refine Finset.sum_eq_single b (fun c _ hc => ?_) (by simp)
  exact Finset.sum_eq_zero fun i _ => by rw [hz _ (by simpa using hc), zero_mul]

/-- A transition with invertible diagonal blocks that reaches only later blocks. -/
theorem vecMul_injective_of_blocks {F : StateMatrix}
    (hzero : ∀ i j : StateIndex, i.map Prod.fst ≠ j.map Prod.fst →
      blockRank (j.map Prod.fst) ≤ blockRank (i.map Prod.fst) → F i j = 0)
    (hnone : F none none = 1) (hblock : ∀ b, ∃ B, blockOf F b b * B = 1) :
    Function.Injective F.vecMul := by
  refine vecMul_injective_of_rank (fun i => i.map Prod.fst) blockRank hzero fun b z hz hzF => ?_
  cases b with
  | none =>
    have hsum : (z ᵥ* F) none = z none := by
      rw [vecMul, dotProduct, Fintype.sum_option, hnone, mul_one]
      simp [fun i => hz (some i) (by simp)]
    funext i
    cases i with
    | none => rw [← hsum, hzF none rfl, Pi.zero_apply]
    | some i => exact hz _ (by simp)
  | some b =>
    obtain ⟨B, hB⟩ := hblock b
    have hvanish : (fun i => z (some (b, i))) ᵥ* blockOf F b b = 0 := by
      funext j
      have hj := hzF (some (b, j)) rfl
      rw [vecMul_of_support hz] at hj
      exact hj
    have hblk : (fun i => z (some (b, i))) = 0 := by
      rw [← vecMul_one (fun i => z (some (b, i))), ← hB, ← vecMul_vecMul, hvanish, zero_vecMul]
    funext i
    by_cases hi : i.map Prod.fst = some b
    · obtain ⟨⟨c, i⟩, rfl, rfl⟩ := Option.map_eq_some_iff.mp hi
      exact congrFun hblk i
    · exact hz i hi

theorem undistortF_injective (p : ImuParams) (rImu : Mat3) (accAvr angvelAvr : Vec3) (dt : ℝ) :
    Function.Injective (undistortF p rImu accAvr angvelAvr dt).vecMul := by
  refine vecMul_injective_of_blocks (fun i j hkey hrank => ?_) ?_ fun b => ?_
  · rcases i with _ | ⟨b, i⟩ <;> rcases j with _ | ⟨c, j⟩
    · exact absurd rfl hkey
    · unfold undistortF
      split <;> split <;> simp
    · unfold undistortF
      split <;> split <;> simp
    · have hbc : b ≠ c := by simpa using hkey
      unfold undistortF
      cases b <;> cases c <;> first
        | exact absurd rfl hbc
        | (simp [blockRank] at hrank; done)
        | (split <;> split <;> simp)
  · unfold undistortF
    split <;> split <;> simp
  · by_cases hb : b = .rot
    · refine ⟨(expVel angvelAvr (-dt))ᵀ, ?_⟩
      subst hb
      rw [← expVel_mul_transpose angvelAvr (-dt)]
      congr 1
      ext i j
      unfold undistortF blockOf blockIndex
      split <;> split <;> simp
    · refine ⟨1, ?_⟩
      rw [Matrix.mul_one]
      ext i j
      unfold undistortF blockOf blockIndex
      split <;> split <;> cases b <;> simp_all [one_apply]

theorem forwardF_injective (biasG : Vec3) (dt : ℝ) :
    Function.Injective (forwardF biasG dt).vecMul := by
  refine vecMul_injective_of_blocks (fun i j hkey hrank => ?_) (by simp [forwardF]) fun b => ?_
  · rcases i with _ | ⟨b, i⟩ <;> rcases j with _ | ⟨c, j⟩
    · exact absurd rfl hkey
    · simp [forwardF]
    · simp [forwardF]
    · have hbc : b ≠ c := by simpa using hkey
      unfold forwardF
      cases b <;> cases c <;> first
        | exact absurd rfl hbc
        | (simp [blockRank] at hrank; done)
        | simp
  · by_cases hb : b = .rot
    · refine ⟨(expVel biasG (-dt))ᵀ, ?_⟩
      subst hb
      rw [← expVel_mul_transpose biasG (-dt)]
      congr 1
    · refine ⟨1, ?_⟩
      rw [Matrix.mul_one]
      ext i j
      unfold forwardF blockOf blockIndex
      cases b <;> simp_all [one_apply]

/-! ## Propagation -/

variable {C : Carrier} {p : ImuParams}

theorem propagateOnce_posDef (hp : p.NonNeg) (meanAcc : Vec3) (head tail : Imu (exactCarrier C))
    (dt : Double) {st : PropState (exactCarrier C)} (h : (covOf st.stateInout).PosDef) :
    (covOf (propagateOnce p meanAcc head tail dt st).stateInout).PosDef :=
  posDef_predict h (undistortCovW_posSemidef hp _ _) (undistortF_injective p _ _ _ _)

theorem forwardOnce_posDef (hp : p.NonNeg) (dt : Double) {s : ExactState C}
    (h : (covOf s).PosDef) : (covOf (forwardOnce p dt s)).PosDef :=
  posDef_predict h (forwardCovW_posSemidef hp _) (forwardF_injective _ _)

theorem propagateAll_posDef (hp : p.NonNeg) (meanAcc : Vec3)
    (steps : List (PropStep (exactCarrier C))) (st : PropState (exactCarrier C))
    (h : (covOf st.stateInout).PosDef) :
    (covOf (propagateAll (exactKernel p) meanAcc steps st).1.stateInout).PosDef := by
  induction steps generalizing st with
  | nil => exact h
  | cons s ss ih => exact ih _ (propagateOnce_posDef hp meanAcc s.head s.tail s.dt h)

theorem undistortForward_posDef (hp : p.NonNeg) (lidarMeas : LidarMeasureGroup (exactCarrier C))
    (meas : MeasureGroup (exactCarrier C)) {state : ExactState C}
    (imu : ImuProcess (exactCarrier C)) (h : (covOf state).PosDef) :
    (covOf (undistortForward (exactKernel p) lidarMeas meas state imu).2.2).PosDef := by
  unfold undistortForward
  by_cases hflg : lidarMeas.lioVioFlg = .lio ∨ lidarMeas.lioVioFlg = .vio
  · simp only [if_pos hflg]
    exact propagateAll_posDef hp _ _ _ h
  · simp only [if_neg hflg]
    exact h

theorem undistortPcl_posDef (hp : p.NonNeg) (lidarMeas : LidarMeasureGroup (exactCarrier C))
    (meas : MeasureGroup (exactCarrier C)) {state : ExactState C}
    (imu : ImuProcess (exactCarrier C)) (h : (covOf state).PosDef) :
    (covOf (undistortPcl (exactKernel p) lidarMeas meas state imu).2.2.1).PosDef := by
  have hforward := undistortForward_posDef hp lidarMeas meas imu h
  unfold undistortPcl
  dsimp only
  split
  · exact hforward
  · split <;> exact hforward

theorem forwardWithoutImu_posDef (hp : p.NonNeg) {cfg : ImuConfig}
    {meas : LidarMeasureGroup (exactCarrier C)} {state : ExactState C}
    {imu : ImuProcess (exactCarrier C)}
    {r : ImuProcess (exactCarrier C) × LidarMeasureGroup (exactCarrier C) × ExactState C ×
      List PointType}
    (hr : forwardWithoutImu cfg (exactKernel p) meas state imu = some r)
    (h : (covOf state).PosDef) : (covOf r.2.2.1).PosDef := by
  unfold forwardWithoutImu at hr
  dsimp only at hr
  split at hr
  · exact absurd hr (by simp)
  · cases hr
    exact forwardOnce_posDef hp _ h

theorem process2_posDef (hp : p.NonNeg) {cfg : ImuConfig} {tGToW : Pose3}
    {meas : LidarMeasureGroup (exactCarrier C)} {state : ExactState C} {cloud : List PointType}
    {imu : ImuProcess (exactCarrier C)}
    {r : ImuProcess (exactCarrier C) × LidarMeasureGroup (exactCarrier C) × ExactState C ×
      List PointType}
    (hr : process2 cfg (exactKernel p) tGToW meas state cloud imu = some r)
    (h : (covOf state).PosDef) : (covOf r.2.2.1).PosDef := by
  unfold process2 at hr
  split at hr
  · exact forwardWithoutImu_posDef hp hr h
  split at hr
  · exact absurd hr (by simp)
  split at hr
  · split at hr
    · cases hr
      exact h
    · split at hr
      · exact absurd hr (by simp)
      · rename_i hinit
        cases hr
        unfold imuInit at hinit
        split at hinit
        · cases hinit
          exact h
        · exact absurd hinit (by simp)
  · cases hr
    exact undistortPcl_posDef hp _ _ _ h

end FastLivo.Frontend
