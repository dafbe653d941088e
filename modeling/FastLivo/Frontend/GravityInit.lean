import FastLivo.Frontend.Propagation
import FastLivo.Lib.Ghost

/-!
# The initialisation of gravity

`Process2` hands its samples to `IMU_init` until more than `MAX_INI_COUNT` were counted. However
the samples are cut into measurements, the running means are the averages of all samples so far,
gravity is the average acceleration turned round and scaled, and the initialisation ends with the
first measurement that makes the samples as many as `MAX_INI_COUNT`.
-/

namespace FastLivo.Frontend

open Lib Esikf

noncomputable section

variable {C : Carrier}

/-- The arguments of a call of `Process2`. -/
structure ProcessCall (C : Carrier) where
  tGToW : Pose3
  lidarMeas : LidarMeasureGroup (exactCarrier C)
  stat : ExactState C
  curPclUn : List PointType

/-- `Process2`, and the state it returns. -/
def processStep (cfg : ImuConfig) (params : ImuParams)
    (s : ImuProcess (exactCarrier C) × ExactState C) (call : ProcessCall C) :
    Option (ImuProcess (exactCarrier C) × ExactState C) :=
  (process2 cfg (exactKernel params) call.tGToW call.lidarMeas call.stat call.curPclUn s.1).map
    fun r => (r.1, r.2.2.1)

/-- The samples that `IMU_init` got, call by call, and the state its last call returned. -/
structure InitLog (C : Carrier) where
  chunks : List (List (Imu (exactCarrier C))) := []
  state : Option (ExactState C) := none

/-- The log of a call. -/
def recordInit (s : ImuProcess (exactCarrier C) × ExactState C) (call : ProcessCall C)
    (t : ImuProcess (exactCarrier C) × ExactState C) (log : InitLog C) : InitLog C :=
  match call.lidarMeas.measures.getLast? with
  | none => log
  | some meas =>
    if s.1.imuNeedInit && !meas.imu.isEmpty then ⟨log.chunks ++ [meas.imu], some t.2⟩ else log

/-- All samples that `IMU_init` got. -/
def InitLog.samples (log : InitLog C) : List (Imu (exactCarrier C)) := log.chunks.flatten

def accOf (imu : Imu (exactCarrier C)) : Vec3 := imu.linearAcceleration

def gyrOf (imu : Imu (exactCarrier C)) : Vec3 := imu.angularVelocity

def meanAccOf (p : ImuProcess (exactCarrier C)) : Vec3 := p.meanAcc

def meanGyrOf (p : ImuProcess (exactCarrier C)) : Vec3 := p.meanGyr

/-- `gravity`, `rot_end` and `bias_g` as `IMU_init` leaves them for a mean acceleration. -/
structure GravitySet (mean : Vec3) (s : ExactState C) : Prop where
  gravity : s.gravity = ((9.81 / norm3 mean) • -mean : Vec3)
  rotEnd : s.rotEnd = (1 : Mat3)
  biasG : s.biasG = (0 : Vec3)

/-! ## Running means -/

/-- The mean of one more sample. -/
theorem smul_meanStep {E : Type*} [AddCommGroup E] [Module ℝ E] {n : ℕ} {mean sum : E}
    (h : (n : ℝ) • mean = sum) (x : E) :
    ((n + 1 : ℕ) : ℝ) • (mean + ((n + 1 : ℕ) : ℝ)⁻¹ • (x - mean)) = sum + x := by
  have hne : ((n + 1 : ℕ) : ℝ) ≠ 0 := Nat.cast_ne_zero.mpr (Nat.succ_ne_zero n)
  rw [smul_add, smul_inv_smul₀ hne, Nat.cast_succ, add_smul, one_smul, h]
  abel

/-- The loop of `IMU_init`, begun with the means of `n` samples and `N = n + 1`. -/
theorem meanLoop_spec (params : ImuParams) (imus : List (Imu (exactCarrier C))) {n : ℕ}
    {acc gyr sumAcc sumGyr : Vec3} (hacc : (n : ℝ) • acc = sumAcc) (hgyr : (n : ℝ) • gyr = sumGyr) :
    ∃ acc' gyr' : Vec3, meanLoop (exactKernel params) imus (acc, gyr, n + 1) =
        (acc', gyr', n + imus.length + 1) ∧
      ((n + imus.length : ℕ) : ℝ) • acc' = sumAcc + (imus.map accOf).sum ∧
      ((n + imus.length : ℕ) : ℝ) • gyr' = sumGyr + (imus.map gyrOf).sum := by
  induction imus generalizing n acc gyr sumAcc sumGyr with
  | nil => exact ⟨acc, gyr, rfl, by simpa using hacc, by simpa using hgyr⟩
  | cons imu imus ih =>
    obtain ⟨acc', gyr', hloop, hacc', hgyr'⟩ :=
      ih (smul_meanStep hacc (accOf imu)) (smul_meanStep hgyr (gyrOf imu))
    have hlength : n + 1 + imus.length = n + (imu :: imus).length := by
      rw [List.length_cons]
      omega
    rw [hlength] at hloop hacc' hgyr'
    refine ⟨acc', gyr', hloop, ?_, ?_⟩
    · rw [hacc', List.map_cons, List.sum_cons, add_assoc]
    · rw [hgyr', List.map_cons, List.sum_cons, add_assoc]

/-! ## The calls -/

/-- After the initialisation the means stay. -/
theorem undistortPcl_means (K : ImuKernel C) (lidarMeas : LidarMeasureGroup C)
    (meas : MeasureGroup C) (state : StatesGroup C) (p : ImuProcess C) :
    let r := undistortPcl K lidarMeas meas state p
    r.1.imuNeedInit = p.imuNeedInit ∧ r.1.initIterNum = p.initIterNum ∧
      r.1.bFirstFrame = p.bFirstFrame ∧ r.1.meanAcc = p.meanAcc ∧ r.1.meanGyr = p.meanGyr := by
  have h : (undistortForward K lidarMeas meas state p).1.imuNeedInit = p.imuNeedInit ∧
      (undistortForward K lidarMeas meas state p).1.initIterNum = p.initIterNum ∧
      (undistortForward K lidarMeas meas state p).1.bFirstFrame = p.bFirstFrame ∧
      (undistortForward K lidarMeas meas state p).1.meanAcc = p.meanAcc ∧
      (undistortForward K lidarMeas meas state p).1.meanGyr = p.meanGyr := by
    unfold undistortForward
    by_cases hlio : lidarMeas.lioVioFlg = .lio
    · simp only [if_pos hlio, and_self]
    · simp only [if_neg hlio, and_self]
  unfold undistortPcl
  rcases hf : undistortForward K lidarMeas meas state p with ⟨p', g', state'⟩
  rw [hf] at h
  simp only at h ⊢
  split
  · exact h
  · split <;> exact h

/-- What a call does. -/
inductive InitEffect (cfg : ImuConfig) (params : ImuParams) (p : ImuProcess (exactCarrier C))
    (log : InitLog C) : ImuProcess (exactCarrier C) → InitLog C → Prop
  /-- The initialisation is over, or there are no samples. -/
  | keeps {q : ImuProcess (exactCarrier C)} (hneed : q.imuNeedInit = p.imuNeedInit)
      (hnum : q.initIterNum = p.initIterNum) (hfirst : q.bFirstFrame = p.bFirstFrame)
      (hacc : q.meanAcc = p.meanAcc) (hgyr : q.meanGyr = p.meanGyr) :
      InitEffect cfg params p log q log
  | inits {imus : List (Imu (exactCarrier C))} {front : Imu (exactCarrier C)}
      {acc gyr : Vec3} {n : ℕ} {q : ImuProcess (exactCarrier C)} {s : ExactState C}
      (hneed : p.imuNeedInit = true) (hfront : imus.head? = some front)
      (hloop : meanLoop (exactKernel params) imus
        (if p.bFirstFrame then (front.linearAcceleration, front.angularVelocity, 1)
          else (p.meanAcc, p.meanGyr, p.initIterNum)) = (acc, gyr, n))
      (hacc : q.meanAcc = acc) (hgyr : q.meanGyr = gyr) (hnum : q.initIterNum = n)
      (hfirst : q.bFirstFrame = false)
      (hends : q.imuNeedInit = !decide (cfg.maxIniCount < n)) (hset : GravitySet acc s) :
      InitEffect cfg params p log q ⟨log.chunks ++ [imus], some s⟩

theorem imuInit_cases {params : ImuParams} {meas : MeasureGroup (exactCarrier C)}
    {state s : ExactState C} {p q : ImuProcess (exactCarrier C)}
    (h : imuInit (exactKernel params) meas state p = some (q, s)) :
    ∃ (front : Imu (exactCarrier C)) (acc gyr : Vec3) (n : ℕ), meas.imu.head? = some front ∧
      meanLoop (exactKernel params) meas.imu
        (if p.bFirstFrame then (front.linearAcceleration, front.angularVelocity, 1)
          else (p.meanAcc, p.meanGyr, p.initIterNum)) = (acc, gyr, n) ∧
      q.meanAcc = acc ∧ q.meanGyr = gyr ∧ q.initIterNum = n ∧ q.bFirstFrame = false ∧
      GravitySet acc s := by
  unfold imuInit at h
  split at h
  · rename_i front back hfront hback
    cases hfirst : p.bFirstFrame with
    | true =>
      simp only [hfirst, if_true] at h
      rcases hloop : meanLoop (exactKernel params) meas.imu
        (front.linearAcceleration, front.angularVelocity, 1) with ⟨acc, gyr, n⟩
      rw [hloop] at h
      obtain ⟨rfl, rfl⟩ := Prod.mk.inj (Option.some.inj h)
      exact ⟨front, acc, gyr, n, hfront, hloop, rfl, rfl, rfl, rfl, rfl, rfl, rfl⟩
    | false =>
      simp only [hfirst, Bool.false_eq_true, if_false] at h
      rcases hloop : meanLoop (exactKernel params) meas.imu
        (p.meanAcc, p.meanGyr, p.initIterNum) with ⟨acc, gyr, n⟩
      rw [hloop] at h
      obtain ⟨rfl, rfl⟩ := Prod.mk.inj (Option.some.inj h)
      exact ⟨front, acc, gyr, n, hfront, hloop, rfl, rfl, rfl, rfl, rfl, rfl, rfl⟩
  · cases h

theorem processStep_cases {cfg : ImuConfig} (hen : cfg.imuEn = true) {params : ImuParams}
    {s t : ImuProcess (exactCarrier C) × ExactState C} {call : ProcessCall C}
    (h : processStep cfg params s call = some t) (log : InitLog C) :
    InitEffect cfg params s.1 log t.1 (recordInit s call t log) := by
  obtain ⟨r, hr, rfl⟩ := Option.map_eq_some_iff.mp h
  unfold process2 at hr
  unfold recordInit
  rw [hen] at hr
  simp only [Bool.not_true, Bool.false_eq_true, if_false] at hr
  cases hback : call.lidarMeas.measures.getLast? with
  | none =>
    rw [hback] at hr
    cases hr
  | some meas =>
    simp only [hback] at hr ⊢
    cases hneed : s.1.imuNeedInit with
    | false =>
      simp only [hneed, Bool.false_eq_true, if_false, Bool.false_and] at hr ⊢
      obtain rfl := Option.some.inj hr
      obtain ⟨hn, hi, hf, ha, hg⟩ := undistortPcl_means (exactKernel params) _ _ call.stat s.1
      exact .keeps hn hi hf ha hg
    | true =>
      simp only [hneed, if_true, Bool.true_and] at hr ⊢
      cases hempty : meas.imu.isEmpty with
      | true =>
        simp only [hempty, if_true, Bool.not_true, Bool.false_eq_true, if_false] at hr ⊢
        obtain rfl := Option.some.inj hr
        exact .keeps rfl rfl rfl rfl rfl
      | false =>
        simp only [hempty, Bool.false_eq_true, if_false, Bool.not_false, if_true] at hr ⊢
        split at hr
        · cases hr
        · rename_i q stat hinit
          obtain rfl := Option.some.inj hr
          obtain ⟨front, acc, gyr, n, hfront, hloop, ha, hg, hn, hf, hset⟩ := imuInit_cases hinit
          exact .inits hneed hfront hloop ha hg hn hf (by rw [← hn]) hset

/-! ## The run -/

/-- What holds between the calls: the log has the samples that the means were made of. -/
structure InitInv (cfg : ImuConfig) (p : ImuProcess (exactCarrier C)) (log : InitLog C) :
    Prop where
  fresh : log.chunks = [] → p.bFirstFrame = true ∧ p.imuNeedInit = true
  counted : log.chunks ≠ [] → p.bFirstFrame = false ∧ p.initIterNum = log.samples.length + 1
  acc : log.chunks ≠ [] →
    (log.samples.length : ℝ) • meanAccOf p = (log.samples.map accOf).sum
  gyr : log.chunks ≠ [] →
    (log.samples.length : ℝ) • meanGyrOf p = (log.samples.map gyrOf).sum
  ends : log.chunks ≠ [] → (p.imuNeedInit = false ↔ cfg.maxIniCount ≤ log.samples.length)
  filled : ∀ chunk ∈ log.chunks, chunk ≠ []
  waited : ∀ kept last, log.chunks = kept ++ [last] → kept ≠ [] →
    (kept.flatten.length : ℤ) < cfg.maxIniCount
  set : log.chunks ≠ [] → ∃ s, log.state = some s ∧ GravitySet (meanAccOf p) s

theorem InitInv.step {cfg : ImuConfig} {params : ImuParams} {p q : ImuProcess (exactCarrier C)}
    {log log' : InitLog C} (h : InitInv cfg p log) (heffect : InitEffect cfg params p log q log') :
    InitInv cfg q log' := by
  cases heffect with
  | keeps hneed hnum hfirst hacc hgyr =>
    have ha : meanAccOf q = meanAccOf p := hacc
    have hg : meanGyrOf q = meanGyrOf p := hgyr
    refine ⟨?_, ?_, ?_, ?_, ?_, h.filled, h.waited, ?_⟩
    · rw [hfirst, hneed]
      exact h.fresh
    · rw [hfirst, hnum]
      exact h.counted
    · rw [ha]
      exact h.acc
    · rw [hg]
      exact h.gyr
    · rw [hneed]
      exact h.ends
    · rw [ha]
      exact h.set
  | @inits imus front acc gyr n q s hneed hfront hloop hacc hgyr hnum hfirst hends hset =>
    have hne : imus ≠ [] := by
      rintro rfl
      cases hfront
    have hsamples : (⟨log.chunks ++ [imus], some s⟩ : InitLog C).samples =
        log.samples ++ imus := by
      rw [InitLog.samples, List.flatten_append, List.flatten_singleton]
      rfl
    -- The call begins with the means of the samples before it, whose count is `N - 1`.
    obtain ⟨acc₀, gyr₀, hacc₀, hgyr₀, hstart⟩ : ∃ acc₀ gyr₀ : Vec3,
        (log.samples.length : ℝ) • acc₀ = (log.samples.map accOf).sum ∧
        (log.samples.length : ℝ) • gyr₀ = (log.samples.map gyrOf).sum ∧
        meanLoop (exactKernel params) imus (acc₀, gyr₀, log.samples.length + 1) =
          (acc, gyr, n) := by
      by_cases hnil : log.chunks = []
      · have hempty : log.samples = [] := by rw [InitLog.samples, hnil]; rfl
        rw [if_pos (h.fresh hnil).1] at hloop
        refine ⟨accOf front, gyrOf front, ?_, ?_, ?_⟩
        · simp [hempty]
        · simp [hempty]
        · rw [hempty]
          exact hloop
      · obtain ⟨hfirst₀, hnum₀⟩ := h.counted hnil
        rw [if_neg (Bool.eq_false_iff.mp hfirst₀), hnum₀] at hloop
        exact ⟨meanAccOf p, meanGyrOf p, h.acc hnil, h.gyr hnil, hloop⟩
    obtain ⟨acc', gyr', hloop', hacc', hgyr'⟩ := meanLoop_spec params imus hacc₀ hgyr₀
    obtain ⟨rfl, hpair⟩ := Prod.mk.inj (hstart.symm.trans hloop')
    obtain ⟨rfl, rfl⟩ := Prod.mk.inj hpair
    have hlength : (log.samples ++ imus).length = log.samples.length + imus.length :=
      List.length_append
    refine ⟨fun hnil => ?_, fun _ => ⟨hfirst, ?_⟩, fun _ => ?_, fun _ => ?_, fun _ => ?_, ?_, ?_,
      fun _ => ⟨s, rfl, ?_⟩⟩
    · exact absurd hnil (by simp)
    · rw [hnum, hsamples, hlength]
    · rw [hsamples, hlength, List.map_append, List.sum_append, ← hacc']
      exact congrArg _ hacc
    · rw [hsamples, hlength, List.map_append, List.sum_append, ← hgyr']
      exact congrArg _ hgyr
    · rw [hends, hsamples, hlength]
      simp only [Bool.not_eq_false', decide_eq_true_eq]
      omega
    · intro chunk hchunk
      rcases List.mem_append.mp hchunk with hold | hlast
      · exact h.filled chunk hold
      · rw [List.mem_singleton.mp hlast]
        exact hne
    · intro kept last hsplit hkept
      obtain ⟨rfl, -⟩ := List.append_inj' hsplit rfl
      have hends₀ := h.ends hkept
      rw [hneed] at hends₀
      have hmore : ¬cfg.maxIniCount ≤ log.samples.length := fun hle => by
        have hfalse := hends₀.mpr hle
        cases hfalse
      exact Int.not_le.mp hmore
    · have ha : meanAccOf q = acc := hacc
      rw [ha]
      exact hset

/-- However the samples are cut into measurements: after every call the means are the averages of
all samples that were initialised with, the last state got gravity from them, and the
initialisation is over exactly if these are `MAX_INI_COUNT` or more, which they were not before
the last measurement. -/
theorem gravity_from_average {cfg : ImuConfig} (hen : cfg.imuEn = true) (params : ImuParams)
    {p₀ p : ImuProcess (exactCarrier C)} {s₀ s : ExactState C} {log : InitLog C}
    (hfirst : p₀.bFirstFrame = true) (hneed : p₀.imuNeedInit = true)
    (h : Reach (withGhost (processStep cfg params) recordInit) (fun _ _ => True)
      ((p₀, s₀), {}) ((p, s), log)) :
    (log.chunks = [] → p.imuNeedInit = true) ∧
    (log.chunks ≠ [] →
      meanAccOf p = (log.samples.length : ℝ)⁻¹ • (log.samples.map accOf).sum ∧
      meanGyrOf p = (log.samples.length : ℝ)⁻¹ • (log.samples.map gyrOf).sum ∧
      (p.imuNeedInit = false ↔ cfg.maxIniCount ≤ log.samples.length) ∧
      ∃ t, log.state = some t ∧
        GravitySet ((log.samples.length : ℝ)⁻¹ • (log.samples.map accOf).sum) t) ∧
    (∀ kept last, log.chunks = kept ++ [last] → kept ≠ [] →
      (kept.flatten.length : ℤ) < cfg.maxIniCount) := by
  have hinv : InitInv cfg p log := by
    refine Reach.invariant (I := fun r : (ImuProcess (exactCarrier C) × ExactState C) × InitLog C =>
      InitInv cfg r.1.1 r.2) ?_ ?_ h
    · exact ⟨fun _ => ⟨hfirst, hneed⟩, absurd rfl, absurd rfl, absurd rfl, absurd rfl, nofun,
        fun kept last hsplit => by simp at hsplit, absurd rfl⟩
    · rintro r r' call _ hinv _ hst
      obtain ⟨hstep, hlog⟩ := withGhost_cases hst
      have heffect := processStep_cases hen hstep r.2
      rw [← hlog] at heffect
      exact hinv.step heffect
  refine ⟨fun hnil => (hinv.fresh hnil).2, fun hne => ?_, hinv.waited⟩
  have hpos : (log.samples.length : ℝ) ≠ 0 := by
    obtain ⟨chunk, hchunk⟩ := List.exists_mem_of_ne_nil _ hne
    obtain ⟨imu, himu⟩ := List.exists_mem_of_ne_nil _ (hinv.filled chunk hchunk)
    have hmem : imu ∈ log.samples := List.mem_flatten.mpr ⟨chunk, hchunk, himu⟩
    exact Nat.cast_ne_zero.mpr (List.length_pos_of_mem hmem).ne'
  have hacc : meanAccOf p = (log.samples.length : ℝ)⁻¹ • (log.samples.map accOf).sum := by
    rw [← hinv.acc hne, inv_smul_smul₀ hpos]
  have hgyr : meanGyrOf p = (log.samples.length : ℝ)⁻¹ • (log.samples.map gyrOf).sum := by
    rw [← hinv.gyr hne, inv_smul_smul₀ hpos]
  refine ⟨hacc, hgyr, hinv.ends hne, ?_⟩
  rw [← hacc]
  exact hinv.set hne

/-- A processor before its first sample. -/
def ImuProcess.unused : ImuProcess (exactCarrier Carrier.trivial) where
  imuNeedInit := true
  meanAcc := (0 : Vec3)
  imuMeanAccNorm := (0 : ℝ)
  lastPropEndTime := 0
  timeLastScan := 0
  firstLidarTime := 0

/-- A measurement with one sample of a level IMU. -/
def ProcessCall.level (acc : ℝ) : ProcessCall Carrier.trivial where
  tGToW := 1
  lidarMeas := { measures := [{ imu := [{ linearAcceleration := (![0, 0, acc] : Vec3) }] }] }
  stat := {}
  curPclUn := []

/-- Two samples in two measurements. -/
theorem gravity_from_average_level : ∃ (p : ImuProcess (exactCarrier Carrier.trivial))
    (log : InitLog Carrier.trivial), log.chunks.length = 2 ∧ p.imuNeedInit = false ∧
      meanAccOf p = (2 : ℝ)⁻¹ • (![0, 0, 9] + ![0, 0, 11]) := by
  let params : ImuParams := ⟨0, 0, 0, 0, 0, false, false, false, 1, 0, fun _ => 0⟩
  have hfirst : Reach (withGhost (processStep ⟨true, 2, false⟩ params) recordInit)
      (fun _ _ => True) ((ImuProcess.unused, {}), {}) _ :=
    .next (.level 9) .start trivial rfl
  obtain ⟨p, s, log, hrun, hchunks⟩ : ∃ p s log,
      Reach (withGhost (processStep ⟨true, 2, false⟩ params) recordInit) (fun _ _ => True)
        ((ImuProcess.unused, {}), {}) ((p, s), log) ∧
      log.chunks = [[{ linearAcceleration := (![0, 0, 9] : Vec3) }],
        [{ linearAcceleration := (![0, 0, 11] : Vec3) }]] :=
    ⟨_, _, _, hfirst.next (.level 11) trivial rfl, rfl⟩
  have hne : log.chunks ≠ [] := by
    rw [hchunks]
    exact List.cons_ne_nil _ _
  obtain ⟨hacc, -, hends, -⟩ := (gravity_from_average rfl params rfl rfl hrun).2.1 hne
  have hsamples : log.samples = [{ linearAcceleration := (![0, 0, 9] : Vec3) },
      { linearAcceleration := (![0, 0, 11] : Vec3) }] := by
    rw [InitLog.samples, hchunks]
    rfl
  rw [hsamples] at hacc hends
  refine ⟨p, log, by rw [hchunks]; rfl, hends.mpr (by simp), ?_⟩
  rw [hacc]
  simp [accOf]

end

end FastLivo.Frontend
