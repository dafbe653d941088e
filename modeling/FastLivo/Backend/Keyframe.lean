import FastLivo.Backend.RtkQueue
import FastLivo.Frontend.So3
import FastLivo.Lib.Special

/-!
# Keyframes of the global backend

The configuration of `optimization`, the two tests that admit a keyframe, and the scan
context descriptors of its loop search.
-/

namespace FastLivo.Backend

open Lib Esikf Frontend Matrix

noncomputable section

/-- `pcl::PointXYZRGB`. -/
structure PointXYZRGB where
  x : ℝ
  y : ℝ
  z : ℝ
  rgb : Nat

/-- `BackendKeyframeInput`. -/
structure BackendKeyframeInput where
  stamp : Double
  localPose : Pose3
  cloud : List PointXYZRGB

/-- Parameters of `optimization`. The two bounds are as they are read, before the
constructor raises them to one. -/
structure BackendConfig where
  rtk : RtkConfig := {}
  gpsEnabled : Bool := true
  rtkHeadingOffset : ℝ := 0
  imuToAntenna : Vec3 := 0
  keyframeDistance : Special ℝ := .number 0.5
  keyframeAngle : Special ℝ := .number 0.1
  keyframeTime : Special Double := .number 1
  odomRotationVariance : ℝ := 1e-5
  odomTranslationVariance : ℝ := 1e-3
  maxPendingKeyframesParam : Int := 30
  loopEnabled : Bool := true
  scRings : Nat := 20
  scSectors : Nat := 60
  scMaxRadius : ℝ := 80.0
  scSensorHeight : ℝ := 2.0
  scExcludeRecentParam : Int := 30
  scDistanceThreshold : ℝ := 0.18
  gicpFitnessThreshold : ℝ := 0.3
  loopRotationVariance : ℝ := 1e-3
  loopTranslationVariance : ℝ := 5e-2

/-- `max_pending_keyframes_`. -/
def BackendConfig.maxPendingKeyframes (cfg : BackendConfig) : Nat :=
  (max 1 cfg.maxPendingKeyframesParam).toNat

/-- `sc_exclude_recent_`. -/
def BackendConfig.scExcludeRecent (cfg : BackendConfig) : Nat :=
  (max 1 cfg.scExcludeRecentParam).toNat

theorem maxPendingKeyframes_pos (cfg : BackendConfig) : 1 ≤ cfg.maxPendingKeyframes := by
  unfold BackendConfig.maxPendingKeyframes
  omega

theorem scExcludeRecent_pos (cfg : BackendConfig) : 1 ≤ cfg.scExcludeRecent := by
  unfold BackendConfig.scExcludeRecent
  omega

/-! ## Admission -/

/-- `geometry_msgs::msg::Pose`. -/
structure PoseMsg where
  position : Fin 3 → Special ℝ
  orientation : Fin 4 → Special ℝ

/-- What `poseMsgToGtsam` makes of the pose of an odometry: GTSAM computes with a pose as long as
all its entries are numbers. -/
inductive LocalPose
  | pose (p : Pose3)
  | special (m : PoseMsg)
      (h : (∃ i, ∀ x, m.position i ≠ .number x) ∨ ∃ i, ∀ x, m.orientation i ≠ .number x)

/-- Pose and stamp of a keyframe. -/
abbrev KeyPose := LocalPose × Double

/-- What the tests of a keyframe take from GTSAM. -/
structure PoseLibs where
  /-- `gtsam::Rot3::Logmap`. -/
  logmap : Rot3 → Vec3
  /-- The norms of the translation of `between` and of the `Logmap` of its rotation, when an entry
  of one of the poses is not a number. -/
  specialMotion : LocalPose → LocalPose → Special ℝ × Special ℝ

/-- `distance` and `angle` between two poses. -/
def relativeMotion (P : PoseLibs) : LocalPose → LocalPose → Special ℝ × Special ℝ
  | .pose last, .pose pose =>
    let relative := last.between pose
    (.number (norm3 relative.translation), .number (norm3 (P.logmap relative.rotation)))
  | last, pose => P.specialMotion last pose

/-- The test of `syncedCallback` that turns a frame away. -/
def staysClose (cfg : BackendConfig) (P : PoseLibs) (last next : KeyPose) : Bool :=
  let (distance, angle) := relativeMotion P last.1 next.1
  let elapsed := next.2 - last.2
  decide (distance < cfg.keyframeDistance) && decide (angle < cfg.keyframeAngle) &&
    decide (.number elapsed < cfg.keyframeTime)

/-- The test of `shouldCreateKeyframe` against the last node. -/
def movedFar (cfg : BackendConfig) (P : PoseLibs) (last next : KeyPose) : Bool :=
  let (distance, angle) := relativeMotion P last.1 next.1
  let elapsed := next.2 - last.2
  decide (cfg.keyframeDistance ≤ distance) || decide (cfg.keyframeAngle ≤ angle) ||
    decide (cfg.keyframeTime ≤ .number elapsed)

/-- Distance, angle or time between two keyframes reach their threshold. -/
def Separated (cfg : BackendConfig) (P : PoseLibs) (last next : KeyPose) : Prop :=
  cfg.keyframeDistance ≤ (relativeMotion P last.1 next.1).1 ∨
    cfg.keyframeAngle ≤ (relativeMotion P last.1 next.1).2 ∨
    cfg.keyframeTime ≤ .number (next.2 - last.2)

/-- No comparison of two keyframes is with something that is not a number, unless one of the others
reaches its threshold. -/
def Comparable (cfg : BackendConfig) (P : PoseLibs) (last next : KeyPose) : Prop :=
  Separated cfg P last next ∨
    ((relativeMotion P last.1 next.1).1 ≠ .nan ∧ cfg.keyframeDistance ≠ .nan) ∧
      ((relativeMotion P last.1 next.1).2 ≠ .nan ∧ cfg.keyframeAngle ≠ .nan) ∧
      cfg.keyframeTime ≠ .nan

section Tests

variable {cfg : BackendConfig} {P : PoseLibs} {last next : KeyPose}

theorem movedFar_iff : movedFar cfg P last next = true ↔ Separated cfg P last next := by
  simp only [movedFar, Separated, Bool.or_eq_true, decide_eq_true_eq, or_assoc]

theorem staysClose_iff : staysClose cfg P last next = true ↔
    (relativeMotion P last.1 next.1).1 < cfg.keyframeDistance ∧
      (relativeMotion P last.1 next.1).2 < cfg.keyframeAngle ∧
      .number (next.2 - last.2) < cfg.keyframeTime := by
  simp only [staysClose, Bool.and_eq_true, decide_eq_true_eq, and_assoc]

/-- No frame passes both tests. -/
theorem not_staysClose_of_separated (h : Separated cfg P last next) :
    ¬staysClose cfg P last next = true := by
  intro hclose
  obtain ⟨hdistance, hangle, htime⟩ := staysClose_iff.mp hclose
  rcases h with hfar | hfar | hfar
  · exact Special.not_lt_of_le hfar hdistance
  · exact Special.not_lt_of_le hfar hangle
  · exact Special.not_lt_of_le hfar htime

/-- Keyframes pass one of the tests if and only if they are comparable. -/
theorem separated_or_staysClose_iff :
    (Separated cfg P last next ∨ staysClose cfg P last next = true) ↔
      Comparable cfg P last next := by
  constructor
  · intro h
    rcases h with hfar | hclose
    · exact Or.inl hfar
    · obtain ⟨hdistance, hangle, htime⟩ := staysClose_iff.mp hclose
      obtain ⟨hd, hd'⟩ := Special.ne_nan_of_lt hdistance
      obtain ⟨ha, ha'⟩ := Special.ne_nan_of_lt hangle
      exact Or.inr ⟨⟨hd, hd'⟩, ⟨ha, ha'⟩, (Special.ne_nan_of_lt htime).2⟩
  · intro h
    rcases h with hfar | ⟨⟨hd, hd'⟩, ⟨ha, ha'⟩, ht⟩
    · exact Or.inl hfar
    · by_cases hclose : staysClose cfg P last next = true
      · exact Or.inr hclose
      · left
        by_contra hnear
        obtain ⟨hdistance, hrest⟩ := not_or.mp hnear
        obtain ⟨hangle, htime⟩ := not_or.mp hrest
        apply hclose
        refine staysClose_iff.mpr ⟨?_, ?_, ?_⟩
        · exact Special.lt_of_not_le hd hd' hdistance
        · exact Special.lt_of_not_le ha ha' hangle
        · exact Special.lt_of_not_le (Special.number_ne_nan _) ht htime

/-- Poses whose entries are numbers are comparable when the thresholds are ordered. -/
theorem comparable_pose {p q : Pose3} {s t : Double} (hdistance : cfg.keyframeDistance ≠ .nan)
    (hangle : cfg.keyframeAngle ≠ .nan) (htime : cfg.keyframeTime ≠ .nan) :
    Comparable cfg P (.pose p, s) (.pose q, t) :=
  Or.inr ⟨⟨Special.number_ne_nan _, hdistance⟩, ⟨Special.number_ne_nan _, hangle⟩, htime⟩

end Tests

/-! ## Scan context -/

/-- `ScanContextEntry`. -/
structure ScanContextEntry (cfg : BackendConfig) where
  descriptor : Matrix (Fin cfg.scRings) (Fin cfg.scSectors) ℝ
  ringKey : Fin cfg.scRings → ℝ

/-- The cell of a point, `none` when it is ignored. -/
def scanCell (cfg : BackendConfig) (point : PointXYZRGB) : Option (Nat × Nat) :=
  let radius := Real.sqrt (point.x * point.x + point.y * point.y)
  if radius < 1e-3 ∨ cfg.scMaxRadius < radius then none
  else
    let angle := atan2 point.y point.x
    let angle := if angle < 0 then angle + 2.0 * kPi else angle
    some (min (cfg.scRings - 1) ⌊radius / cfg.scMaxRadius * cfg.scRings⌋₊,
      min (cfg.scSectors - 1) ⌊angle / (2.0 * kPi) * cfg.scSectors⌋₊)

/-- `makeScanContext`. -/
def makeScanContext (cfg : BackendConfig) (cloud : List PointXYZRGB) : ScanContextEntry cfg :=
  let descriptor := cloud.foldl (fun (d : Matrix (Fin cfg.scRings) (Fin cfg.scSectors) ℝ) point =>
    of fun ring sector =>
      if scanCell cfg point = some (ring.val, sector.val) then
        max (d ring sector) (point.z + cfg.scSensorHeight)
      else d ring sector) 0
  ⟨descriptor, fun ring => (∑ sector, descriptor ring sector) / cfg.scSectors⟩

/-- `norm()` of a column. -/
def columnNorm {n : Nat} (column : Fin n → ℝ) : ℝ := Real.sqrt (column ⬝ᵥ column)

/-- `(sector + shift) % sc_sectors_`. -/
def shiftedSector {n : Nat} (sector : Fin n) (shift : Nat) : Fin n :=
  ⟨(sector + shift) % n, Nat.mod_lt _ sector.pos⟩

/-- Sum of the cosines of the columns at a shift, and their number. Pairs with an empty
column do not count. -/
def cosineSum {rings sectors : Nat} (query candidate : Matrix (Fin rings) (Fin sectors) ℝ)
    (shift : Nat) : ℝ × Nat :=
  (List.finRange sectors).foldl (fun (acc : ℝ × Nat) sector =>
    let queryColumn := query.col sector
    let candidateColumn := candidate.col (shiftedSector sector shift)
    let denominator := columnNorm queryColumn * columnNorm candidateColumn
    if denominator < 1e-6 then acc
    else (acc.1 + queryColumn ⬝ᵥ candidateColumn / denominator, acc.2 + 1)) (0, 0)

/-- `scanContextDistance`. -/
def scanContextDistance {rings sectors : Nat}
    (query candidate : Matrix (Fin rings) (Fin sectors) ℝ) : ℝ :=
  (List.range sectors).foldl (fun best shift =>
    let (sum, validColumns) := cosineSum query candidate shift
    if validColumns = 0 then best else min best (1 - sum / validColumns)) 1

end

end FastLivo.Backend
