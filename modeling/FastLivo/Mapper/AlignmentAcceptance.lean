import FastLivo.Frontend.StatesGroup
import FastLivo.Mapper.Callbacks
import FastLivo.Mapper.RigidAlignment

/-!
# Accepted alignments

`InitializeRTK` accepts an alignment for its number of pairs, the length of the trajectory and
finite entries. What it installs then has the least error, but only the singular values decide
whether the rotation is the only one: on a straight line it is not.
-/

namespace FastLivo

open Lib Esikf Matrix Frontend

noncomputable section

variable {C : Carrier}

/-- No motion with another rotation has as small an error. -/
def UniqueRotation (target source : List Vec3) (T : Pose3) : Prop :=
  ∀ S : Pose3, squaredError target source S ≤ squaredError target source T →
    S.rotation = T.rotation

/-- Target and source positions that `InitializeRTK` matches. -/
def rtkPairs (cfg : Config (exactCarrier C)) (r : RtkFrontend (exactCarrier C)) :
    List (Vec3 × Vec3) :=
  matchRtk cfg.onlineRtkSyncThreshold r.rtkBuffer r.livoStateBuffer

/-- `pts_target_rtk`. -/
def ptsTargetRtk (cfg : Config (exactCarrier C)) (r : RtkFrontend (exactCarrier C)) : List Vec3 :=
  (rtkPairs cfg r).map Prod.fst

/-- `pts_source_livo`. -/
def ptsSourceLivo (cfg : Config (exactCarrier C)) (r : RtkFrontend (exactCarrier C)) : List Vec3 :=
  (rtkPairs cfg r).map Prod.snd

theorem ptsTargetRtk_length (cfg : Config (exactCarrier C)) (r : RtkFrontend (exactCarrier C)) :
    (ptsTargetRtk cfg r).length = (ptsSourceLivo cfg r).length := by
  rw [ptsTargetRtk, ptsSourceLivo, List.length_map, List.length_map]

/-- What an accepted alignment passed, and what it installed. -/
theorem initializeRTK_true {cfg : Config C} {K : Kernel C} {r : RtkFrontend C}
    (h : (initializeRTK cfg K r).1 = true) :
    let pairs := matchRtk cfg.onlineRtkSyncThreshold r.rtkBuffer r.livoStateBuffer
    cfg.onlineRtkMinMatches ≤ pairs.length ∧
      cfg.onlineRtkMinDistance ≤ maxBaseline K (pairs.map (·.2)) ∧
      (initializeRTK cfg K r).2.tWToG = K.computeSVD (pairs.map (·.1)) (pairs.map (·.2)) := by
  intro pairs
  unfold initializeRTK at h ⊢
  split at h
  · cases h
  rename_i hcounts
  rw [if_neg hcounts]
  dsimp only at h ⊢
  split at h
  · cases h
  rename_i hmatches
  rw [if_neg hmatches]
  split at h
  · cases h
  rename_i hbaseline
  rw [if_neg hbaseline]
  exact ⟨not_lt.mp hmatches, not_lt.mp hbaseline, rfl⟩

theorem initializeRTK_of_checks {cfg : Config C} {K : Kernel C} {r : RtkFrontend C}
    (hrtk : cfg.onlineRtkMinMatches ≤ r.rtkBuffer.length)
    (hlivo : cfg.onlineRtkMinMatches ≤ r.livoStateBuffer.length)
    (hmatches : cfg.onlineRtkMinMatches ≤
      (matchRtk cfg.onlineRtkSyncThreshold r.rtkBuffer r.livoStateBuffer).length)
    (hbaseline : cfg.onlineRtkMinDistance ≤ maxBaseline K
      ((matchRtk cfg.onlineRtkSyncThreshold r.rtkBuffer r.livoStateBuffer).map (·.2)))
    (hfinite : ∀ T, K.allFinite T = true) : (initializeRTK cfg K r).1 = true := by
  unfold initializeRTK
  rw [if_neg (not_or.mpr ⟨not_lt.mpr hrtk, not_lt.mpr hlivo⟩)]
  dsimp only
  rw [if_neg (not_lt.mpr hmatches), if_neg (not_lt.mpr hbaseline)]
  exact hfinite _

section Unique

variable {L : AlignmentLibs} {target source : List Vec3}

/-- Without points every motion has the same error. -/
theorem computeSVD_minimal (hlength : target.length = source.length)
    (hsvd : (L.jacobiSvd (alignmentW target source)).Valid (alignmentW target source))
    (T : Pose3) :
    squaredError target source (computeSVD L target source) ≤ squaredError target source T := by
  rcases eq_or_ne target [] with rfl | hne
  · exact le_rfl
  · exact computeSVD_least hne hlength hsvd T

/-- A motion of least error has the only such rotation exactly where there is a gap. -/
theorem uniqueRotation_iff {U V : Mat3} {σ : Vec3} {T : Pose3}
    (h : IsSvd (crossCovariance (target.zip source)) U V σ)
    (hleast : ∀ S, squaredError target source T ≤ squaredError target source S) :
    UniqueRotation target source T ↔ 0 < svdGap U V σ := by
  have hbest := h.isRotation_best
  let best : Pose3 := ⟨⟨bestRotation U V, mem_rot3 hbest.mul_transpose hbest.det⟩,
    centringTranslation (target.zip source) (bestRotation U V)⟩
  have hle : ∀ S, squaredError target source best ≤ squaredError target source S :=
    fun S => h.alignmentError_le (Rot3.isRotation S.rotation) S.translation
  rw [← h.unique_iff]
  constructor
  · intro hunique S t hS herror
    let moved : Pose3 := ⟨⟨S, mem_rot3 hS.mul_transpose hS.det⟩, t⟩
    have hmoved : squaredError target source moved = squaredError target source best := herror
    have hsame : moved.rotation = best.rotation :=
      (hunique moved (hmoved.trans_le (hle T))).trans (hunique best (hle T)).symm
    exact congrArg Rot3.matrix hsame
  · intro hunique S hS
    have hbestOf : ∀ Q, squaredError target source Q ≤ squaredError target source T →
        Q.rotation.matrix = bestRotation U V := fun Q hQ =>
      hunique _ _ (Rot3.isRotation Q.rotation) (le_antisymm (hQ.trans (hleast best)) (hle Q))
    exact Rot3.ext ((hbestOf S hS).trans (hbestOf T le_rfl).symm)

end Unique

/-- An accepted alignment has enough pairs, a long enough trajectory and the least error. Its
rotation is the only one of least error exactly where the second singular value and the signed
third one do not cancel, and then the cross-covariance has rank two or three. -/
theorem initializeRTK_alignment (cfg : Config (exactCarrier C)) (K : Kernel (exactCarrier C))
    (L : AlignmentLibs) (r : RtkFrontend (exactCarrier C)) (hK : K.computeSVD = computeSVD L)
    (hsvd : (L.jacobiSvd (alignmentW (ptsTargetRtk cfg r) (ptsSourceLivo cfg r))).Valid
      (alignmentW (ptsTargetRtk cfg r) (ptsSourceLivo cfg r)))
    (haccept : (initializeRTK cfg K r).1 = true) :
    let svd := L.jacobiSvd (alignmentW (ptsTargetRtk cfg r) (ptsSourceLivo cfg r))
    let tWToG : Pose3 := (initializeRTK cfg K r).2.tWToG
    let gap := svdGap svd.matrixU svd.matrixV svd.singularValues
    cfg.onlineRtkMinMatches ≤ (ptsSourceLivo cfg r).length ∧
      cfg.onlineRtkMinDistance ≤ maxBaseline K (ptsSourceLivo cfg r) ∧
      (∀ T, squaredError (ptsTargetRtk cfg r) (ptsSourceLivo cfg r) tWToG ≤
        squaredError (ptsTargetRtk cfg r) (ptsSourceLivo cfg r) T) ∧
      (UniqueRotation (ptsTargetRtk cfg r) (ptsSourceLivo cfg r) tWToG ↔ 0 < gap) ∧
      (0 < gap → 2 ≤ (alignmentW (ptsTargetRtk cfg r) (ptsSourceLivo cfg r)).rank) := by
  intro svd tWToG gap
  obtain ⟨hmatches, hbaseline, hinstalled⟩ := initializeRTK_true haccept
  have hlength := ptsTargetRtk_length cfg r
  have htWToG : tWToG = computeSVD L (ptsTargetRtk cfg r) (ptsSourceLivo cfg r) := by
    rw [hK] at hinstalled
    exact hinstalled
  have hleast : ∀ T, squaredError (ptsTargetRtk cfg r) (ptsSourceLivo cfg r) tWToG ≤
      squaredError (ptsTargetRtk cfg r) (ptsSourceLivo cfg r) T := by
    intro T
    rw [htWToG]
    exact computeSVD_minimal hlength hsvd T
  refine ⟨?_, hbaseline, hleast, ?_, fun hgap => IsSvd.two_le_rank hsvd hgap⟩
  · rw [ptsSourceLivo, List.length_map]
    exact hmatches
  · exact uniqueRotation_iff (isSvd_crossCovariance hlength hsvd) hleast

/-! ## A straight line -/

/-- A distance without its fraction. -/
def wholeMetres (p q : Vec3) : Double := ⌊√((p - q) ⬝ᵥ (p - q))⌋

/-- `Kernel` over the reals that leaves everything but alignments alone. -/
def Kernel.aligning (L : AlignmentLibs) : Kernel (exactCarrier Carrier.trivial) where
  meanAcc0 := (0 : Vec3)
  norm _ := (0 : ℝ)
  meanStep mean _ _ := mean
  gravityOf v := v
  propagate _ _ _ _ st := st
  undistort _ _ _ q := q
  forward _ st := st
  forwardPoint _ _ q := q
  transform _ v := v
  rotate _ v := v
  rotateCov _ cov := cov
  extrapolate p _ _ := p
  addDiagonal cov _ := cov
  gravityAlignment st := st
  beginScan vm _ _ := vm
  downSizeFilterSurf pts := pts
  transformLidar _ pts := pts
  setFeatsDown vm _ _ := vm
  buildVoxelMap vm := vm
  stateEstimation vm _ _ _ := vm
  state _ := {}
  pvList _ := ()
  refreshPvList vm _ _ := vm
  updateVoxelMap vm := vm
  mapSliding vm := vm
  rgbPointBodyToWorld _ p := p
  processFrame vio _ mat pv vm _ st _ := (vio, mat, pv, vm, st)
  imgCp _ := ()
  colorize _ pts := pts.map fun _ => ()
  bodyRGB _ pts := pts
  body _ pts := pts
  propImuOnce _ st _ _ _ := st
  antenna st := posOf st
  geoReset g _ := g
  geoForward _ _ := (0 : Vec3)
  velENU := fun (e n d : ℝ) => ![e, n, -d]
  diagonal _ _ _ := (1 : Mat3)
  sqrt x := x
  dist := wholeMetres
  computeSVD := FastLivo.computeSVD L
  inverse T := (T⁻¹ : Pose3)
  allFinite _ := true

/-- The decomposition of the matrix of two points on the first axis. -/
def lineLibs : AlignmentLibs := { crossLibs with jacobiSvd := fun _ => ⟨1, 1, ![1 + 1, 0, 0]⟩ }

/-- Two metres driven straight ahead. -/
def straightDrive : RtkFrontend (exactCarrier Carrier.trivial) where
  rtkBuffer := [{ timestamp := 0, p := ![-1, 0, 0] }, { timestamp := 1, p := ![1, 0, 0] }]
  livoStateBuffer := [(0, ![-1, 0, 0]), (1, ![1, 0, 0])]
  gpsTrans := ()

def twoMatches : Config (exactCarrier Carrier.trivial) where
  onlineRtkMinMatches := 2
  onlineRtkMinDistance := 2
  uninit := ⟨0, 0, 0, (0 : ℝ), 0⟩

theorem straightDrive_pairs :
    rtkPairs twoMatches straightDrive =
      [(![-1, 0, 0], ![-1, 0, 0]), (![1, 0, 0], ![1, 0, 0])] := by
  norm_num [rtkPairs, matchRtk, twoMatches, straightDrive]
  rfl

theorem wholeMetres_line : wholeMetres ![1, 0, 0] ![-1, 0, 0] = 2 := by
  have hsq : ((![1, 0, 0] : Vec3) - ![-1, 0, 0]) ⬝ᵥ (![1, 0, 0] - ![-1, 0, 0]) = 2 * 2 := by
    simp [dotProduct, Fin.sum_univ_three]
    norm_num
  rw [wholeMetres, hsq, Real.sqrt_mul_self (by norm_num)]
  norm_num

theorem straightDrive_accepted :
    (initializeRTK twoMatches (Kernel.aligning lineLibs) straightDrive).1 = true := by
  refine initializeRTK_of_checks le_rfl le_rfl ?_ ?_ fun _ => rfl
  · exact (congrArg List.length straightDrive_pairs).ge
  · have hsource : ptsSourceLivo twoMatches straightDrive = [![-1, 0, 0], ![1, 0, 0]] := by
      rw [ptsSourceLivo, straightDrive_pairs]
      rfl
    change (2 : Double) ≤
      maxBaseline (Kernel.aligning lineLibs) (ptsSourceLivo twoMatches straightDrive)
    rw [hsource]
    exact wholeMetres_line.ge.trans (le_max_right _ _)

theorem straightDrive_alignmentW :
    alignmentW (ptsTargetRtk twoMatches straightDrive) (ptsSourceLivo twoMatches straightDrive) =
      diagonal ![1 + 1, 0, 0] := by
  rw [ptsTargetRtk, ptsSourceLivo, straightDrive_pairs]
  ext i j
  fin_cases i <;> fin_cases j <;> simp [alignmentW, vecMulVec]

theorem straightDrive_valid :
    (lineLibs.jacobiSvd (alignmentW (ptsTargetRtk twoMatches straightDrive)
      (ptsSourceLivo twoMatches straightDrive))).Valid
        (alignmentW (ptsTargetRtk twoMatches straightDrive)
          (ptsSourceLivo twoMatches straightDrive)) := by
  rw [straightDrive_alignmentW]
  refine ⟨by simp [lineLibs], by simp [lineLibs], ⟨?_, le_rfl, le_rfl⟩, by simp [lineLibs]⟩
  simp [lineLibs]

theorem initializeRTK_alignment_straight :
    UniqueRotation (ptsTargetRtk twoMatches straightDrive) (ptsSourceLivo twoMatches straightDrive)
      (initializeRTK twoMatches (Kernel.aligning lineLibs) straightDrive).2.tWToG ↔
        0 < svdGap 1 1 ![1 + 1, 0, 0] :=
  (initializeRTK_alignment twoMatches (Kernel.aligning lineLibs) lineLibs straightDrive rfl
    straightDrive_valid straightDrive_accepted).2.2.2.1

/-- A straight line is accepted, and leaves the roll around it open. -/
theorem initializeRTK_straight_undetermined :
    (initializeRTK twoMatches (Kernel.aligning lineLibs) straightDrive).1 = true ∧
      ¬UniqueRotation (ptsTargetRtk twoMatches straightDrive)
        (ptsSourceLivo twoMatches straightDrive)
        (initializeRTK twoMatches (Kernel.aligning lineLibs) straightDrive).2.tWToG ∧
      (alignmentW (ptsTargetRtk twoMatches straightDrive)
        (ptsSourceLivo twoMatches straightDrive)).rank < 2 := by
  refine ⟨straightDrive_accepted, fun hunique => ?_, ?_⟩
  · have hlength := ptsTargetRtk_length twoMatches straightDrive
    have hinstalled := (initializeRTK_true straightDrive_accepted).2.2
    have hgap := (uniqueRotation_iff (isSvd_crossCovariance hlength straightDrive_valid) fun T => ?_).mp
      hunique
    · simp [svdGap_eq, lineLibs] at hgap
    · exact (congrArg (squaredError _ _) hinstalled).trans_le
        (computeSVD_minimal hlength straightDrive_valid T)
  · rw [straightDrive_alignmentW, rank_diagonal, Nat.lt_succ_iff, Fintype.card_le_one_iff]
    rintro ⟨i, hi⟩ ⟨j, hj⟩
    fin_cases i <;> fin_cases j <;> simp at hi hj ⊢

end

end FastLivo
