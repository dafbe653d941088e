import FastLivo.Preprocess.RingBuffers
import Mathlib.Data.Rat.Floor

/-!
# Where pre-processing stays inside of its message

For each lidar type the messages that are processed without an access to an empty cloud or beyond
the bounds of one, of a buffer or of the clocks of the rings.
-/

set_option linter.unusedSectionVars false

namespace FastLivo.Preprocess

open Lib

variable {K : Type} [Zero K] [Add K] [Sub K] [Mul K] [Div K] [Neg K] [LT K] [LE K] [DecidableLT K]
  [DecidableLE K] [OfScientific K] (ops : FloatOps K) (cfg : Config K)

/-! ## What the rings hold -/

/-- The coordinates of a point. -/
def SensorPoint.vec (p : SensorPoint K) : Vec3 K := ⟨p.x, p.y, p.z⟩

def CustomPoint.vec (p : CustomPoint K) : Vec3 K := ⟨p.x, p.y, p.z⟩

/-- The points of a cloud on a ring. -/
def ringPoints (points : List (SensorPoint K)) (j : ℕ) : List (Vec3 K) :=
  (points.filter (·.ring = j)).map SensorPoint.vec

/-- The points of a cloud on a ring, without those in the blind zone. -/
def visiblePoints (points : List (SensorPoint K)) (j : ℕ) : List (Vec3 K) :=
  (points.filter fun p => p.ring = j ∧ ¬p.vec.dot p.vec < cfg.blindSqr).map SensorPoint.vec

/-- The points that `avia_handler` takes. -/
def CustomPoint.Taken (p : CustomPoint K) : Prop := p.line.toNat < cfg.nScans ∧ p.tag &&& 0x30 = 0x10

instance (p : CustomPoint K) : Decidable (p.Taken cfg) :=
  inferInstanceAs (Decidable (_ ∧ _))

/-- What `pl_full` holds of a message: the first point is never written. -/
def stored (msg : CustomMsg K) (k : ℕ) : Vec3 K :=
  match msg.points[k]? with
  | some p => if 1 ≤ k ∧ p.Taken cfg then p.vec else .zero
  | none => .zero

/-- Coordinates that are not the same. -/
def Moved (v w : Vec3 K) : Prop :=
  1e-7 < fabs (v.x - w.x) ∨ 1e-7 < fabs (v.y - w.y) ∨ 1e-7 < fabs (v.z - w.z)

instance (v w : Vec3 K) : Decidable (Moved v w) := inferInstanceAs (Decidable (_ ∨ _))

/-- The points of a line that `avia_handler` keeps, up to before an index: those that it takes and
that are not where the point before is stored. -/
def linePoints (msg : CustomMsg K) (last line : ℕ) : List (Vec3 K) :=
  (List.range' 1 (last - 1)).filterMap fun k => msg.points[k]?.bind fun p =>
    if p.line.toNat = line ∧ p.Taken cfg ∧ Moved p.vec (stored cfg msg (k - 1)) then some p.vec
    else none

/-! ## Messages inside -/

/-- The rings of so many points that `give_feature` gets all fit. -/
def RingsFit (rangeOf : Vec3 K → K) (minSize : ℕ) (content : ℕ → List (Vec3 K)) : Prop :=
  cfg.nScans ≤ maxBuffers ∧ ∀ j < cfg.nScans, minSize ≤ (content j).length →
    content j ≠ [] ∧ (ScanRing.mk (content j) rangeOf).Fits ops cfg

/-- Whether the last point of a cloud has a time. -/
def timesGiven (plsize : ℕ) (cloud : List (SensorPoint K)) : Prop :=
  ∃ last ∈ cloud[plsize - 1]?, 0 < last.time

/-- The clouds with features of `velodyne_handler` and `xt32_handler`. The clock of a ring that has
no times keeps its first point away. -/
def ClockedInside (plsize : ℕ) (cloud : List (SensorPoint K)) : Prop :=
  (timesGiven plsize cloud ∧ RingsFit ops cfg (vecRange ops) 2 (ringPoints (cloud.take plsize))) ∨
    (¬timesGiven plsize cloud ∧
      (∀ p ∈ cloud.take plsize, p.ring < cfg.nScans → p.ring < maxLineNum) ∧
      RingsFit ops cfg (vecRange ops) 2 fun j => (ringPoints (cloud.take plsize) j).drop 1)

/-- The clouds that are processed inside. -/
def CloudInside (cloud : List (SensorPoint K)) (plsize : ℕ) : Prop :=
  match cfg.lidarType with
  | .oust64 => cfg.featureEnabled = true →
      RingsFit ops cfg (vecRange ops) 0 (visiblePoints cfg (cloud.take plsize))
  | .velo16 => plsize = 0 ∨
      if cfg.featureEnabled then ClockedInside ops cfg plsize cloud
      else timesGiven plsize cloud ∨ ∀ p ∈ cloud.take plsize, p.ring < maxLineNum
  | .xt32 => plsize ≠ 0 ∧ (cfg.featureEnabled = true → ClockedInside ops cfg plsize cloud)
  | .pandar128 | .robosense => cloud ≠ []
  | .l515 | .avia => True

/-- The messages of a Livox that are processed inside. -/
def CustomInside (msg : CustomMsg K) (plsize : ℕ) : Prop :=
  if cfg.featureEnabled then (plsize ≤ 1 ∨ plsize ≤ msg.points.length) ∧
    RingsFit ops cfg vecSquare 6 (linePoints cfg msg plsize)
  else cfg.nScans ≤ maxBuffers ∧ plsize ≤ msg.points.length

/-- The messages that are processed inside. One with a size that is negative as an `int` is not
processed. -/
def Message.Inside : Message K → Prop
  | .custom msg => ∀ plsize ∈ intSize msg.pointNum.toNat, CustomInside ops cfg msg plsize
  | .cloud points => ∀ plsize ∈ intSize points.length, CloudInside ops cfg points plsize

variable {ops cfg}

/-! ## `avia_handler` -/

theorem aviaTime_inside {plFull : List (PointType K)} {i : ℕ} (hi : i < plFull.length) (time : K) :
    ∃ t, aviaTime plFull i time = some t := by
  have hread : plFull[i - 1]? = some plFull[i - 1] := List.getElem?_eq_getElem (by omega)
  rw [aviaTime, hread]
  split
  · exact ⟨_, rfl⟩
  · exact ⟨_, rfl⟩

variable [NatCast K]

/-- A turn of the loop without features reads the point, and writes where it has room. -/
theorem aviaTurn_spec (msg : CustomMsg K) {s : AviaState K} {i : ℕ} (hi : i < s.plFull.length) :
    ((aviaTurn cfg msg s i).isSome ↔ i < msg.points.length) ∧
      ∀ t, aviaTurn cfg msg s i = some t → t.plFull.length = s.plFull.length := by
  rw [aviaTurn]
  by_cases hpoint : i < msg.points.length
  · rw [List.getElem?_eq_getElem hpoint, Option.bind_eq_bind, Option.bind_some]
    obtain ⟨time, htime⟩ := aviaTime_inside hi (msg.points[i]).toPointType.curvature
    split
    · rw [htime, Option.bind_eq_bind, Option.bind_some]
      dsimp only
      split
      · exact ⟨⟨fun _ => hpoint, fun _ => rfl⟩, fun t ht => Option.some.inj ht ▸ List.length_set⟩
      · exact ⟨⟨fun _ => hpoint, fun _ => rfl⟩, fun t ht => Option.some.inj ht ▸ List.length_set⟩
    · exact ⟨⟨fun _ => hpoint, fun _ => rfl⟩, fun t ht => Option.some.inj ht ▸ rfl⟩
  · rw [List.getElem?_eq_none (by omega)]
    exact ⟨⟨fun hnone => absurd hnone Bool.false_ne_true, fun hlt => absurd hlt hpoint⟩,
      fun t hnone => by cases hnone⟩

/-- What the loop with features has stored and kept before an index. -/
structure AviaFeatures (cfg : Config K) (msg : CustomMsg K) (plsize i : ℕ)
    (s : List (PointType K) × List (List (PointType K))) : Prop where
  length : s.1.length = plsize
  stored : ∀ p, s.1[i - 1]? = some p → p.vec = stored cfg msg (i - 1)
  rest : ∀ k p, i ≤ k → s.1[k]? = some p → p.vec = .zero
  buffers : BuffersOf cfg.nScans (linePoints cfg msg i) s.2

theorem stored_of_taken {msg : CustomMsg K} {i : ℕ} {p : CustomPoint K} (hi : 1 ≤ i)
    (hp : msg.points[i]? = some p) :
    stored cfg msg i = if p.Taken cfg then p.vec else .zero := by
  rw [stored, hp]
  simp only [hi, true_and]

variable (cfg) in
/-- The points of a line up to the next index. -/
theorem linePoints_succ {msg : CustomMsg K} {i : ℕ} {p : CustomPoint K} (hi : 1 ≤ i)
    (hp : msg.points[i]? = some p) (line : ℕ) :
    linePoints cfg msg (i + 1) line = linePoints cfg msg i line ++
      if p.line.toNat = line ∧ p.Taken cfg ∧ Moved p.vec (stored cfg msg (i - 1)) then [p.vec]
      else [] := by
  rw [linePoints, show i + 1 - 1 = i - 1 + 1 by omega, List.range'_1_concat, List.filterMap_append,
    linePoints, show 1 + (i - 1) = i by omega, List.filterMap_cons, hp, Option.bind_some]
  split_ifs
  · rfl
  · rfl

section Turn

variable {msg : CustomMsg K} {i : ℕ} {p : CustomPoint K}
  {s : List (PointType K) × List (List (PointType K))}

theorem aviaFeatureTurn_skip (hp : msg.points[i]? = some p) (hskip : ¬p.Taken cfg) :
    aviaFeatureTurn cfg msg s i = some s := by
  rw [aviaFeatureTurn, hp]
  exact if_neg hskip

theorem aviaFeatureTurn_taken (hp : msg.points[i]? = some p) (htaken : p.Taken cfg)
    {before : PointType K} (hread : s.1[i - 1]? = some before) :
    aviaFeatureTurn cfg msg s i = if Moved p.vec before.vec then
      (pushBuffer s.2 p.line.toNat p.toPointType).map (s.1.set i p.toPointType, ·)
    else some (s.1.set i p.toPointType, s.2) := by
  rw [aviaFeatureTurn, hp]
  refine (if_pos htaken).trans ?_
  rw [hread]
  cases pushBuffer s.2 p.line.toNat p.toPointType with
  | none => rfl
  | some buffers => rfl

/-- A point that is taken is stored. -/
theorem AviaFeatures.store {plsize : ℕ} (h : AviaFeatures cfg msg plsize i s) (hfirst : 1 ≤ i)
    (hlast : i < plsize) (hp : msg.points[i]? = some p) (htaken : p.Taken cfg)
    {buffers : List (List (PointType K))}
    (hbuffers : BuffersOf cfg.nScans (linePoints cfg msg (i + 1)) buffers) :
    AviaFeatures cfg msg plsize (i + 1) (s.1.set i p.toPointType, buffers) where
  length := by rw [List.length_set, h.length]
  stored := by
    intro q hq
    rw [Nat.add_sub_cancel, List.getElem?_set_self (h.length ▸ hlast)] at hq
    rw [Nat.add_sub_cancel, stored_of_taken hfirst hp, if_pos htaken, ← Option.some.inj hq]
    rfl
  rest := by
    intro k q hk hq
    rw [List.getElem?_set_ne (by omega)] at hq
    exact h.rest k q (by omega) hq
  buffers := hbuffers

/-- A turn of the loop with features. -/
theorem aviaFeatureTurn_spec (hscans : cfg.nScans ≤ maxBuffers) {plsize : ℕ} (hfirst : 1 ≤ i)
    (hlast : i < plsize) (h : AviaFeatures cfg msg plsize i s) :
    ((aviaFeatureTurn cfg msg s i).isSome ↔ i < msg.points.length) ∧
      ∀ t, aviaFeatureTurn cfg msg s i = some t → AviaFeatures cfg msg plsize (i + 1) t := by
  by_cases hpoint : i < msg.points.length
  · suffices hturn : ∃ t, aviaFeatureTurn cfg msg s i = some t ∧
        AviaFeatures cfg msg plsize (i + 1) t by
      obtain ⟨t, ht, hnext⟩ := hturn
      rw [ht]
      exact ⟨⟨fun _ => hpoint, fun _ => rfl⟩, fun u hu => Option.some.inj hu ▸ hnext⟩
    obtain ⟨p, hp⟩ : ∃ p, msg.points[i]? = some p := ⟨_, List.getElem?_eq_getElem hpoint⟩
    have hlines := funext (linePoints_succ cfg hfirst hp)
    by_cases htaken : p.Taken cfg
    · obtain ⟨before, hread⟩ : ∃ before, s.1[i - 1]? = some before :=
        ⟨_, List.getElem?_eq_getElem (by rw [h.length]; omega)⟩
      rw [aviaFeatureTurn_taken hp htaken hread, h.stored before hread]
      by_cases hmoved : Moved p.vec (stored cfg msg (i - 1))
      · obtain ⟨buffers, hpush, hbuffers⟩ := h.buffers.push
          (show p.line.toNat < maxBuffers from Nat.lt_of_lt_of_le htaken.1 hscans) p.toPointType
        rw [if_pos hmoved, hpush]
        refine ⟨_, rfl, h.store hfirst hlast hp htaken ?_⟩
        convert hbuffers using 1
        rw [hlines]
        funext j
        by_cases hj : j = p.line.toNat
        · rw [if_pos ⟨hj.symm, htaken, hmoved⟩, if_pos hj]
          rfl
        · rw [if_neg (fun hall => hj hall.1.symm), if_neg hj, List.append_nil]
      · rw [if_neg hmoved]
        refine ⟨_, rfl, h.store hfirst hlast hp htaken ?_⟩
        rw [hlines]
        simpa [hmoved] using h.buffers
    · refine ⟨s, aviaFeatureTurn_skip hp htaken, h.length, fun q hq => ?_,
        fun k q hk hq => h.rest k q (by omega) hq, ?_⟩
      · rw [Nat.add_sub_cancel] at hq ⊢
        rw [stored_of_taken hfirst hp, if_neg htaken, h.rest i q (Nat.le_refl i) hq]
      · rw [hlines]
        simpa [htaken] using h.buffers
  · rw [aviaFeatureTurn, List.getElem?_eq_none (by omega)]
    exact ⟨⟨fun hnone => absurd hnone Bool.false_ne_true, fun hlt => absurd hlt hpoint⟩,
      fun t hnone => by cases hnone⟩

end Turn

theorem isSome_map_iff {α β : Type} {x : Option α} {g : α → β} :
    (x.bind fun a => some (g a)).isSome ↔ x.isSome := by
  cases x with
  | none => rfl
  | some a => rfl

/-- The loop with features, and the rings it fills. -/
theorem isSome_aviaFeatures_iff (msg : CustomMsg K) (plsize : ℕ) :
    ((clearBuffers cfg).bind fun buffers =>
      ((List.range' 1 (plsize - 1)).foldlM (aviaFeatureTurn cfg msg)
        (List.replicate plsize .blank, buffers)).bind fun s =>
      (ringFeatures ops cfg planarSquare 6 s.2).bind fun clouds => some clouds.surf).isSome ↔
    cfg.nScans ≤ maxBuffers ∧ ((plsize ≤ 1 ∨ plsize ≤ msg.points.length) ∧
      ∀ j < cfg.nScans, 6 ≤ (linePoints cfg msg plsize j).length → linePoints cfg msg plsize j ≠ [] ∧
        (ScanRing.mk (linePoints cfg msg plsize j) vecSquare).Fits ops cfg) := by
  refine isSome_bind_iff isSome_clearBuffers_iff fun buffers hclear => ?_
  have hscans : cfg.nScans ≤ maxBuffers :=
    isSome_clearBuffers_iff.mp (Option.isSome_of_eq_some hclear)
  have hstart : AviaFeatures cfg msg plsize 1 (List.replicate plsize .blank, buffers) := by
    refine ⟨List.length_replicate, fun p hp => ?_, fun k p _ hp => ?_, buffersOf_clear hclear _⟩
    · rw [List.eq_of_mem_replicate (List.mem_of_getElem? hp), stored]
      split
      · rfl
      · rfl
    · rw [List.eq_of_mem_replicate (List.mem_of_getElem? hp)]
      rfl
  have hloop := foldlM_range'_spec 1 (plsize - 1) (AviaFeatures cfg msg plsize)
    (· < msg.points.length) (fun i hfirst hlast s hs =>
      aviaFeatureTurn_spec hscans hfirst (by omega) hs) hstart
  refine isSome_bind_iff (hloop.1.trans ?_) fun s hs => isSome_map_iff.trans ?_
  · constructor
    · intro hall
      by_cases hone : plsize ≤ 1
      · exact .inl hone
      · have := hall (plsize - 1) (by omega) (by omega)
        exact .inr (by omega)
    · rintro hsize i hfirst hlast
      omega
  · have hbuffers := (hloop.2 s hs).buffers
    by_cases hone : plsize ≤ 1
    · have hempty : linePoints cfg msg plsize = linePoints cfg msg (1 + (plsize - 1)) := by
        funext j
        rw [linePoints, linePoints, show 1 + (plsize - 1) - 1 = plsize - 1 by omega]
      rw [hempty]
      exact isSome_ringFeatures_iff hbuffers hscans planarSquare_eq 6
    · rw [show 1 + (plsize - 1) = plsize by omega] at hbuffers
      exact isSome_ringFeatures_iff hbuffers hscans planarSquare_eq 6

/-- The messages that `avia_handler` processes inside. -/
theorem isSome_aviaHandler_iff (msg : CustomMsg K) : (aviaHandler ops cfg msg).isSome ↔
    ∀ plsize ∈ intSize msg.pointNum.toNat, CustomInside ops cfg msg plsize := by
  rw [aviaHandler]
  cases hsize : intSize msg.pointNum.toNat with
  | none => exact ⟨fun _ plsize hmem => absurd hmem (Option.not_mem_none plsize), fun _ => rfl⟩
  | some plsize =>
    rw [show (∀ n ∈ some plsize, CustomInside ops cfg msg n) ↔ CustomInside ops cfg msg plsize by
      simp, CustomInside]
    by_cases hfeatures : cfg.featureEnabled = true
    · simp only [if_pos hfeatures]
      refine (isSome_aviaFeatures_iff msg plsize).trans ?_
      rw [RingsFit]
      exact and_left_comm
    · simp only [if_neg hfeatures]
      refine isSome_bind_iff isSome_clearBuffers_iff fun buffers hclear => ?_
      have hloop := foldlM_range'_spec (f := aviaTurn cfg msg) 0 plsize
        (fun _ s => s.plFull.length = plsize) (· < msg.points.length)
        (fun i _ hlast s hs => ⟨(aviaTurn_spec msg (by omega)).1, fun t ht =>
          ((aviaTurn_spec msg (by omega)).2 t ht).trans hs⟩)
        (s := ⟨List.replicate plsize .blank, 0, []⟩) List.length_replicate
      rw [← List.range_eq_range'] at hloop
      refine isSome_map_iff.trans (hloop.1.trans ⟨fun hall => ?_, fun hle i _ hlast => ?_⟩)
      · by_cases hzero : plsize = 0
        · omega
        · have := hall (plsize - 1) (by omega) (by omega)
          omega
      · omega

/-! ## `oust64_handler` -/

/-- Indices below a size are those of a cloud, up to before it. -/
theorem take_succ {cloud : List (SensorPoint K)} {i : ℕ} {p : SensorPoint K}
    (hp : cloud[i]? = some p) : cloud.take (i + 1) = cloud.take i ++ [p] := by
  rw [List.take_add_one, hp]
  rfl

/-- A turn of the loop with features. -/
theorem oust64FeatureTurn_spec (hscans : cfg.nScans ≤ maxBuffers) {cloud : List (SensorPoint K)}
    {i : ℕ} (hi : i < cloud.length) {buffers : List (List (PointType K))}
    (h : BuffersOf cfg.nScans (visiblePoints cfg (cloud.take i)) buffers) :
    ∃ buffers', oust64FeatureTurn cfg cloud buffers i = some buffers' ∧
      BuffersOf cfg.nScans (visiblePoints cfg (cloud.take (i + 1))) buffers' := by
  obtain ⟨p, hp⟩ : ∃ p, cloud[i]? = some p := ⟨_, List.getElem?_eq_getElem hi⟩
  rw [oust64FeatureTurn, hp, take_succ hp, Option.bind_eq_bind, Option.bind_some]
  by_cases hblind : p.vec.dot p.vec < cfg.blindSqr
  · refine ⟨buffers, if_pos hblind, h.length, fun j hj pl hpl => ?_⟩
    rw [h.ring j hj pl hpl, visiblePoints, visiblePoints, List.filter_append]
    simp [hblind]
  · by_cases hring : p.ring < cfg.nScans
    · obtain ⟨buffers', hpush, h'⟩ := h.push (show p.ring < maxBuffers by omega)
        (p.toPointType p.intensity (p.time / 1e6))
      refine ⟨buffers', (if_neg hblind).trans ((if_pos hring).trans hpush), h'.length,
        fun j hj pl hpl => ?_⟩
      rw [h'.ring j hj pl hpl, visiblePoints, visiblePoints, List.filter_append]
      by_cases hj' : j = p.ring
      · simp [hblind, hj']
        rfl
      · simp [Ne.symm hj', hj']
    · refine ⟨buffers, (if_neg hblind).trans (if_neg hring), h.length, fun j hj pl hpl => ?_⟩
      rw [h.ring j hj pl hpl, visiblePoints, visiblePoints, List.filter_append]
      have hne : p.ring ≠ j := by omega
      simp [hne]

/-- Loops over the points that are sampled read inside. -/
theorem isSome_sampledPoints (keep : PointType K → Bool) (point : SensorPoint K → PointType K)
    {plsize : ℕ} {cloud : List (SensorPoint K)} (hsize : plsize ≤ cloud.length) :
    (sampledPoints cfg keep point plsize cloud).isSome := by
  refine (isSome_foldlM_iff (fun _ => True) (fun _ => True) (fun i hi surf _ => ?_)
    (fun _ _ _ _ _ _ => trivial) trivial).mpr fun _ _ => trivial
  have hlt := List.mem_range.mp hi
  rw [List.getElem?_eq_getElem (show i < cloud.length by omega)]
  refine ⟨fun _ => trivial, fun _ => ?_⟩
  split
  · rw [Option.bind_eq_bind, Option.bind_some]
    split
    · rfl
    · rfl
  · rfl

theorem intSize_le {n plsize : ℕ} (h : intSize n = some plsize) : plsize ≤ n := by
  rw [intSize] at h
  split at h
  · have := Option.some.inj h
    omega
  · cases h

/-- The clouds that `oust64_handler` processes inside. -/
theorem isSome_oust64Handler_iff {cloud : List (SensorPoint K)} {plsize : ℕ}
    (hsize : intSize cloud.length = some plsize) : (oust64Handler ops cfg cloud).isSome ↔
      (cfg.featureEnabled = true →
        RingsFit ops cfg (vecRange ops) 0 (visiblePoints cfg (cloud.take plsize))) := by
  rw [oust64Handler, hsize]
  by_cases hfeatures : cfg.featureEnabled = true
  · simp only [hfeatures, forall_const]
    refine isSome_bind_iff isSome_clearBuffers_iff fun buffers hclear => ?_
    have hscans : cfg.nScans ≤ maxBuffers :=
      isSome_clearBuffers_iff.mp (Option.isSome_of_eq_some hclear)
    have hle := intSize_le hsize
    have hloop := foldlM_range'_spec (f := oust64FeatureTurn cfg cloud) 0 plsize
      (fun i => BuffersOf cfg.nScans (visiblePoints cfg (cloud.take i))) (fun _ => True)
      (fun i _ hlast s hs => by
        obtain ⟨t, ht, hnext⟩ := oust64FeatureTurn_spec hscans (show i < cloud.length by omega) hs
        rw [ht]
        exact ⟨⟨fun _ => trivial, fun _ => rfl⟩, fun u hu => Option.some.inj hu ▸ hnext⟩)
      (show BuffersOf cfg.nScans (visiblePoints cfg (cloud.take 0)) buffers from
        buffersOf_clear hclear _)
    rw [← List.range_eq_range', Nat.zero_add] at hloop
    obtain ⟨rings, hrings⟩ := Option.isSome_iff_exists.mp (hloop.1.mpr fun _ _ _ => trivial)
    rw [hrings, Option.bind_eq_bind, Option.bind_some]
    exact isSome_map_iff.trans
      (isSome_ringFeatures_iff (hloop.2 rings hrings) hscans planarRange_eq 0)
  · simp only [if_neg hfeatures]
    refine ⟨fun _ hon => absurd hon hfeatures, fun _ => ?_⟩
    rw [Option.isSome_map]
    exact isSome_sampledPoints _ _ (Nat.le_refl _)

/-! ## The clocks of the rings -/

/-- The clocks, and whether they have seen a point of their ring. -/
structure ClocksOf (n : ℕ) (content : ℕ → List (Vec3 K)) (clocks : List (RingClock K)) : Prop where
  length : clocks.length = maxLineNum
  first : ∀ j < n, ∀ clock, clocks[j]? = some clock → (clock.isFirst = true ↔ content j = [])

theorem clocksOf_initial (n : ℕ) : ClocksOf n (fun _ => []) (initialClocks (K := K)) := by
  refine ⟨List.length_replicate, fun j _ clock hclock => ?_⟩
  rw [List.eq_of_mem_replicate (List.mem_of_getElem? hclock)]
  exact ⟨fun _ => rfl, fun _ => rfl⟩

variable (ops) in
/-- The time of a point reads and writes the clock of its ring. -/
theorem azimuthTime_spec {clocks : List (RingClock K)} (hlength : clocks.length = maxLineNum)
    (layer : ℕ) (p : SensorPoint K) :
    ((azimuthTime ops clocks layer p).isSome ↔ layer < maxLineNum) ∧
      ∀ clocks' time, azimuthTime ops clocks layer p = some (clocks', time) →
        clocks'.length = maxLineNum ∧ (∀ j, j ≠ layer → clocks'[j]? = clocks[j]?) ∧
        (∀ clock, clocks'[layer]? = some clock → clock.isFirst = false) ∧
        ∀ clock, clocks[layer]? = some clock → (clock.isFirst = true ↔ time = none) := by
  rw [azimuthTime]
  by_cases hlayer : layer < maxLineNum
  · have hlt : layer < clocks.length := hlength ▸ hlayer
    rw [List.getElem?_eq_getElem hlt, Option.bind_eq_bind, Option.bind_some]
    by_cases hfirst : clocks[layer].isFirst = true
    · simp only [if_pos hfirst]
      refine ⟨⟨fun _ => hlayer, fun _ => rfl⟩, fun clocks' time heq => ?_⟩
      obtain ⟨rfl, rfl⟩ := Prod.ext_iff.mp (Option.some.inj heq)
      refine ⟨List.length_set.trans hlength, fun j hj => List.getElem?_set_ne (Ne.symm hj),
        fun clock hclock => ?_, fun clock hclock => ?_⟩
      · rw [List.getElem?_set_self hlt] at hclock
        rw [← Option.some.inj hclock]
      · rw [← Option.some.inj hclock]
        exact ⟨fun _ => rfl, fun _ => hfirst⟩
    · simp only [if_neg hfirst]
      refine ⟨⟨fun _ => hlayer, fun _ => rfl⟩, fun clocks' time heq => ?_⟩
      obtain ⟨rfl, rfl⟩ := Prod.ext_iff.mp (Option.some.inj heq)
      refine ⟨List.length_set.trans hlength, fun j hj => List.getElem?_set_ne (Ne.symm hj),
        fun clock hclock => ?_, fun clock hclock => ?_⟩
      · rw [List.getElem?_set_self hlt] at hclock
        rw [← Option.some.inj hclock]
        exact Bool.eq_false_iff.mpr hfirst
      · rw [← Option.some.inj hclock]
        exact ⟨fun hyes => absurd hyes hfirst, fun hnone => by cases hnone⟩
  · rw [List.getElem?_eq_none (by omega)]
    exact ⟨⟨fun hnone => absurd hnone Bool.false_ne_true, fun hlt => absurd hlt hlayer⟩,
      fun clocks' time hnone => by cases hnone⟩

theorem ringPoints_succ {cloud : List (SensorPoint K)} {i : ℕ} {p : SensorPoint K}
    (hp : cloud[i]? = some p) (j : ℕ) : ringPoints (cloud.take (i + 1)) j =
      ringPoints (cloud.take i) j ++ if p.ring = j then [p.vec] else [] := by
  rw [take_succ hp, ringPoints, ringPoints, List.filter_append, List.map_append]
  by_cases hj : p.ring = j
  · simp [hj]
  · simp [hj]

variable (ops) in
/-- A turn of the loop with features and given times. -/
theorem timedFeatureTurn_spec (hscans : cfg.nScans ≤ maxBuffers) {cloud : List (SensorPoint K)}
    (givenTime : SensorPoint K → K) {i : ℕ} (hi : i < cloud.length)
    {s : List (RingClock K) × List (List (PointType K))}
    (h : BuffersOf cfg.nScans (ringPoints (cloud.take i)) s.2) :
    ∃ t, clockedFeatureTurn ops cfg true givenTime cloud s i = some t ∧
      BuffersOf cfg.nScans (ringPoints (cloud.take (i + 1))) t.2 := by
  obtain ⟨p, hp⟩ : ∃ p, cloud[i]? = some p := ⟨_, List.getElem?_eq_getElem hi⟩
  rw [clockedFeatureTurn, hp, Option.bind_eq_bind, Option.bind_some]
  by_cases hring : cfg.nScans ≤ p.ring
  · refine ⟨s, if_pos hring, h.length, fun j hj pl hpl => ?_⟩
    have hne : p.ring ≠ j := by omega
    rw [h.ring j hj pl hpl, ringPoints_succ hp, if_neg hne, List.append_nil]
  · obtain ⟨buffers, hpush, h'⟩ := h.push (show p.ring < maxBuffers by omega)
      (p.toPointType p.intensity (givenTime p))
    rw [if_neg hring, pointTime, if_pos rfl, Option.bind_eq_bind, Option.bind_some]
    dsimp only
    rw [hpush]
    refine ⟨_, rfl, h'.length, fun j hj pl hpl => ?_⟩
    rw [h'.ring j hj pl hpl, ringPoints_succ hp]
    by_cases hj' : j = p.ring
    · rw [if_pos hj', if_pos hj'.symm]
      rfl
    · rw [if_neg hj', if_neg (Ne.symm hj'), List.append_nil]

variable (ops) in
/-- A turn of the loop with features and times from the azimuth: the first point of a ring starts
its clock and is not kept. -/
theorem untimedFeatureTurn_spec (hscans : cfg.nScans ≤ maxBuffers) {cloud : List (SensorPoint K)}
    (givenTime : SensorPoint K → K) {i : ℕ} {p : SensorPoint K} (hp : cloud[i]? = some p)
    {s : List (RingClock K) × List (List (PointType K))}
    (hclocks : ClocksOf cfg.nScans (ringPoints (cloud.take i)) s.1)
    (h : BuffersOf cfg.nScans (fun j => (ringPoints (cloud.take i) j).drop 1) s.2) :
    ((clockedFeatureTurn ops cfg false givenTime cloud s i).isSome ↔
      (p.ring < cfg.nScans → p.ring < maxLineNum)) ∧
      ∀ t, clockedFeatureTurn ops cfg false givenTime cloud s i = some t →
        ClocksOf cfg.nScans (ringPoints (cloud.take (i + 1))) t.1 ∧
        BuffersOf cfg.nScans (fun j => (ringPoints (cloud.take (i + 1)) j).drop 1) t.2 := by
  rw [clockedFeatureTurn, hp, Option.bind_eq_bind, Option.bind_some]
  by_cases hring : cfg.nScans ≤ p.ring
  · rw [if_pos hring]
    refine ⟨⟨fun _ hlt => absurd hlt (by omega), fun _ => rfl⟩, fun t ht => ?_⟩
    obtain rfl := Option.some.inj ht
    have hsame : ∀ j < cfg.nScans,
        ringPoints (cloud.take (i + 1)) j = ringPoints (cloud.take i) j := by
      intro j hj
      have hne : p.ring ≠ j := by omega
      rw [ringPoints_succ hp, if_neg hne, List.append_nil]
    refine ⟨⟨hclocks.length, fun j hj => ?_⟩, h.length, fun j hj => ?_⟩
    · rw [hsame j hj]
      exact hclocks.first j hj
    · rw [hsame j hj]
      exact h.ring j hj
  · have hlt : p.ring < cfg.nScans := by omega
    obtain ⟨hsome, hspec⟩ := azimuthTime_spec ops hclocks.length p.ring p
    rw [if_neg hring, pointTime, if_neg Bool.false_ne_true]
    by_cases hclock : p.ring < maxLineNum
    · obtain ⟨⟨clocks, time⟩, htime⟩ := Option.isSome_iff_exists.mp (hsome.mpr hclock)
      obtain ⟨hlength, hrest, hseen, hnone⟩ := hspec clocks time htime
      obtain ⟨clock, hget⟩ : ∃ clock, s.1[p.ring]? = some clock :=
        ⟨_, List.getElem?_eq_getElem (hclocks.length ▸ hclock)⟩
      have hempty := (hclocks.first p.ring hlt clock hget).symm.trans (hnone clock hget)
      have hclocks' : ClocksOf cfg.nScans (ringPoints (cloud.take (i + 1))) clocks := by
        refine ⟨hlength, fun j hj clock' hclock' => ?_⟩
        rw [ringPoints_succ hp]
        by_cases hj' : j = p.ring
        · subst hj'
          rw [hseen clock' hclock', if_pos rfl]
          exact ⟨fun hno => absurd hno Bool.false_ne_true, fun hno => absurd hno (by simp)⟩
        · rw [if_neg (Ne.symm hj'), List.append_nil]
          exact hclocks.first j hj clock' (hrest j hj' ▸ hclock')
      rw [htime, Option.bind_eq_bind, Option.bind_some]
      cases time with
      | none =>
        refine ⟨⟨fun _ _ => hclock, fun _ => rfl⟩, fun t ht => ?_⟩
        obtain rfl := Option.some.inj ht
        refine ⟨hclocks', h.length, fun j hj pl hpl => ?_⟩
        rw [h.ring j hj pl hpl, ringPoints_succ hp]
        by_cases hj' : j = p.ring
        · rw [hj', if_pos rfl, hempty.mpr rfl]
          rfl
        · rw [if_neg (Ne.symm hj'), List.append_nil]
      | some time =>
        obtain ⟨buffers, hpush, h'⟩ := h.push (show p.ring < maxBuffers by omega)
          (p.toPointType p.intensity time)
        dsimp only
        rw [hpush]
        refine ⟨⟨fun _ _ => hclock, fun _ => rfl⟩, fun t ht => ?_⟩
        obtain rfl := Option.some.inj ht
        refine ⟨hclocks', h'.length, fun j hj pl hpl => ?_⟩
        rw [h'.ring j hj pl hpl, ringPoints_succ hp]
        by_cases hj' : j = p.ring
        · have hne : ringPoints (cloud.take i) p.ring ≠ [] := fun hnil => by
            cases hempty.mp hnil
          have hone : 1 ≤ (ringPoints (cloud.take i) p.ring).length := List.length_pos_iff.mpr hne
          rw [hj', if_pos rfl, if_pos rfl, List.drop_append_of_le_length hone]
          rfl
        · rw [if_neg hj', if_neg (Ne.symm hj'), List.append_nil]
    · have hfail : azimuthTime ops s.1 p.ring p = none :=
        Option.not_isSome_iff_eq_none.mp (hsome.not.mpr hclock)
      rw [hfail]
      exact ⟨⟨fun hnone => absurd hnone Bool.false_ne_true, fun hall => absurd (hall hlt) hclock⟩,
        fun t hnone => by cases hnone⟩

/-! ## `velodyne_handler` and `xt32_handler` -/

theorem forall_take_iff {cloud : List (SensorPoint K)} {plsize : ℕ} (hsize : plsize ≤ cloud.length)
    (P : SensorPoint K → Prop) :
    (∀ i, 0 ≤ i → i < 0 + plsize → ∀ p, cloud[i]? = some p → P p) ↔
      ∀ p ∈ cloud.take plsize, P p := by
  constructor
  · intro hall p hp
    obtain ⟨i, hi, rfl⟩ := List.mem_iff_getElem.mp hp
    rw [List.length_take] at hi
    rw [List.getElem_take]
    exact hall i (Nat.zero_le i) (by omega) _ (List.getElem?_eq_getElem (by omega))
  · intro hall i _ hi p hp
    have hlt : i < plsize := by omega
    refine hall p (List.mem_of_getElem? (i := i) ?_)
    rw [List.getElem?_take, if_pos hlt, hp]

variable (ops cfg) in
/-- The features of clouds with given times and of such without. -/
theorem isSome_clockedFeatures_iff {cloud : List (SensorPoint K)} {plsize : ℕ}
    (hsize : plsize ≤ cloud.length) (givenTime : SensorPoint K → K) :
    ((clockedFeatures ops cfg true givenTime plsize cloud).isSome ↔
      RingsFit ops cfg (vecRange ops) 2 (ringPoints (cloud.take plsize))) ∧
    ((clockedFeatures ops cfg false givenTime plsize cloud).isSome ↔
      (∀ p ∈ cloud.take plsize, p.ring < cfg.nScans → p.ring < maxLineNum) ∧
      RingsFit ops cfg (vecRange ops) 2 fun j => (ringPoints (cloud.take plsize) j).drop 1) := by
  constructor
  · refine isSome_bind_iff isSome_clearBuffers_iff fun buffers hclear => ?_
    have hscans : cfg.nScans ≤ maxBuffers :=
      isSome_clearBuffers_iff.mp (Option.isSome_of_eq_some hclear)
    have hloop := foldlM_range'_spec (f := clockedFeatureTurn ops cfg true givenTime cloud)
      0 plsize (fun i s => BuffersOf cfg.nScans (ringPoints (cloud.take i)) s.2)
      (fun _ => True) (fun i _ hlast s hs => by
        obtain ⟨t, ht, hnext⟩ := timedFeatureTurn_spec ops hscans givenTime
          (show i < cloud.length by omega) hs
        rw [ht]
        exact ⟨⟨fun _ => trivial, fun _ => rfl⟩, fun u hu => Option.some.inj hu ▸ hnext⟩)
      (s := (initialClocks, buffers)) (buffersOf_clear hclear _)
    rw [← List.range_eq_range', Nat.zero_add] at hloop
    obtain ⟨s, hs⟩ := Option.isSome_iff_exists.mp (hloop.1.mpr fun _ _ _ => trivial)
    rw [hs, Option.bind_eq_bind, Option.bind_some]
    exact isSome_map_iff.trans
      (isSome_ringFeatures_iff (hloop.2 s hs) hscans planarRange_eq 2)
  · refine (isSome_bind_iff isSome_clearBuffers_iff fun buffers hclear => ?_).trans and_left_comm
    have hscans : cfg.nScans ≤ maxBuffers :=
      isSome_clearBuffers_iff.mp (Option.isSome_of_eq_some hclear)
    have hloop := foldlM_range'_spec (f := clockedFeatureTurn ops cfg false givenTime cloud)
      0 plsize (fun i s => ClocksOf cfg.nScans (ringPoints (cloud.take i)) s.1 ∧
        BuffersOf cfg.nScans (fun j => (ringPoints (cloud.take i) j).drop 1) s.2)
      (fun i => ∀ p, cloud[i]? = some p → p.ring < cfg.nScans → p.ring < maxLineNum)
      (fun i _ hlast s hs => by
        obtain ⟨p, hp⟩ : ∃ p, cloud[i]? = some p := ⟨_, List.getElem?_eq_getElem (by omega)⟩
        obtain ⟨hturn, hnext⟩ := untimedFeatureTurn_spec ops hscans givenTime hp hs.1 hs.2
        refine ⟨hturn.trans ⟨fun hring q hq => ?_, fun hall => hall p hp⟩, hnext⟩
        rw [hp] at hq
        exact Option.some.inj hq ▸ hring)
      (s := (initialClocks, buffers)) ⟨clocksOf_initial _, buffersOf_clear hclear _⟩
    rw [← List.range_eq_range', Nat.zero_add] at hloop
    refine isSome_bind_iff (hloop.1.trans ?_) fun s hs => isSome_map_iff.trans
      (isSome_ringFeatures_iff (hloop.2 s hs).2 hscans planarRange_eq 2)
    have hpoints := forall_take_iff hsize fun p => p.ring < cfg.nScans → p.ring < maxLineNum
    rwa [Nat.zero_add] at hpoints

/-- The last point of a cloud that is not empty. -/
theorem lastPoint_eq {cloud : List (SensorPoint K)} {plsize : ℕ} (hsize : plsize ≤ cloud.length)
    (hpos : plsize ≠ 0) : ∃ last, lastPoint plsize cloud = some last ∧
      (timesGiven plsize cloud ↔ 0 < last.time) := by
  have hget : cloud[plsize - 1]? = some cloud[plsize - 1] := List.getElem?_eq_getElem (by omega)
  refine ⟨cloud[plsize - 1], by rw [lastPoint, if_neg hpos, hget], ?_⟩
  rw [timesGiven, hget]
  simp

theorem isSome_clockedFeatures_iff_inside {cloud : List (SensorPoint K)} {plsize : ℕ}
    (hsize : plsize ≤ cloud.length) (givenTime : SensorPoint K → K) {last : SensorPoint K}
    (hgiven : timesGiven plsize cloud ↔ 0 < last.time) :
    (clockedFeatures ops cfg (decide (0 < last.time)) givenTime plsize cloud).isSome ↔
      ClockedInside ops cfg plsize cloud := by
  obtain ⟨htimed, huntimed⟩ := isSome_clockedFeatures_iff ops cfg hsize givenTime
  rw [ClockedInside, hgiven]
  by_cases htime : 0 < last.time
  · rw [decide_eq_true htime, htimed]
    simp [htime]
  · rw [decide_eq_false htime, huntimed]
    simp [htime]

variable (ops cfg) in
theorem velodyneTurn_spec (given : Bool) {cloud : List (SensorPoint K)} {i : ℕ}
    {p : SensorPoint K} (hp : cloud[i]? = some p) {s : List (RingClock K) × List (PointType K)}
    (hlength : s.1.length = maxLineNum) :
    ((velodyneTurn ops cfg given cloud s i).isSome ↔ given = true ∨ p.ring < maxLineNum) ∧
      ∀ t, velodyneTurn ops cfg given cloud s i = some t → t.1.length = maxLineNum := by
  have hrun : ∀ clocks time, clocks.length = maxLineNum →
      pointTime ops given (fun p => p.time / 1000.0) s.1 p = some (clocks, time) →
      ∃ t, velodyneTurn ops cfg given cloud s i = some t ∧ t.1.length = maxLineNum := by
    intro clocks time hclocks htime
    rw [velodyneTurn, hp, Option.bind_eq_bind, Option.bind_some, htime, Option.bind_eq_bind,
      Option.bind_some]
    cases time with
    | none => exact ⟨_, rfl, hclocks⟩
    | some time =>
      dsimp only
      split
      · exact ⟨_, rfl, hclocks⟩
      · exact ⟨_, rfl, hclocks⟩
  cases given with
  | true =>
    obtain ⟨t, ht, hlength'⟩ := hrun s.1 _ hlength rfl
    rw [ht]
    exact ⟨⟨fun _ => .inl rfl, fun _ => rfl⟩, fun u hu => Option.some.inj hu ▸ hlength'⟩
  | false =>
    obtain ⟨hsome, hspec⟩ := azimuthTime_spec ops hlength p.ring p
    by_cases hclock : p.ring < maxLineNum
    · obtain ⟨⟨clocks, time⟩, htime⟩ := Option.isSome_iff_exists.mp (hsome.mpr hclock)
      obtain ⟨t, ht, hlength'⟩ := hrun clocks time (hspec clocks time htime).1 htime
      rw [ht]
      exact ⟨⟨fun _ => .inr hclock, fun _ => rfl⟩, fun u hu => Option.some.inj hu ▸ hlength'⟩
    · have hfail : azimuthTime ops s.1 p.ring p = none :=
        Option.not_isSome_iff_eq_none.mp (hsome.not.mpr hclock)
      rw [velodyneTurn, hp, Option.bind_eq_bind, Option.bind_some, pointTime,
        if_neg Bool.false_ne_true, hfail]
      refine ⟨⟨fun hnone => absurd hnone Bool.false_ne_true, ?_⟩, fun t hnone => by cases hnone⟩
      rintro (hgiven | hlt)
      · exact absurd hgiven Bool.false_ne_true
      · exact absurd hlt hclock

/-- The clouds that `velodyne_handler` processes inside. -/
theorem isSome_velodyneHandler_iff {cloud : List (SensorPoint K)} {plsize : ℕ}
    (hsize : intSize cloud.length = some plsize) : (velodyneHandler ops cfg cloud).isSome ↔
      plsize = 0 ∨ if cfg.featureEnabled then ClockedInside ops cfg plsize cloud
        else timesGiven plsize cloud ∨ ∀ p ∈ cloud.take plsize, p.ring < maxLineNum := by
  have hle := intSize_le hsize
  rw [velodyneHandler, hsize]
  by_cases hzero : plsize = 0
  · simp only [if_pos hzero]
    exact ⟨fun _ => .inl hzero, fun _ => rfl⟩
  · obtain ⟨last, hlast, hgiven⟩ := lastPoint_eq hle hzero
    simp only [hlast, Option.bind_eq_bind, Option.bind_some, hzero, false_or]
    by_cases hfeatures : cfg.featureEnabled = true
    · simp only [if_pos hfeatures]
      exact isSome_clockedFeatures_iff_inside hle _ hgiven
    · simp only [if_neg hfeatures]
      have hloop := foldlM_range'_spec
        (f := velodyneTurn ops cfg (decide (0 < last.time)) cloud) 0 plsize
        (fun _ s => s.1.length = maxLineNum) (fun i => ∀ p, cloud[i]? = some p →
          (decide (0 < last.time) = true ∨ p.ring < maxLineNum)) (fun i _ hlast s hs => by
          obtain ⟨p, hp⟩ : ∃ p, cloud[i]? = some p := ⟨_, List.getElem?_eq_getElem (by omega)⟩
          obtain ⟨hturn, hnext⟩ := velodyneTurn_spec ops cfg
            (decide (0 < last.time)) hp hs
          refine ⟨hturn.trans ⟨fun hring q hq => ?_, fun hall => hall p hp⟩, hnext⟩
          rw [hp] at hq
          exact Option.some.inj hq ▸ hring)
        (s := (initialClocks, [])) List.length_replicate
      rw [← List.range_eq_range', forall_take_iff hle] at hloop
      refine isSome_map_iff.trans (hloop.1.trans ?_)
      rw [hgiven, decide_eq_true_iff]
      by_cases htime : 0 < last.time
      · simp [htime]
      · simp [htime]

/-- The clouds that `xt32_handler` processes inside. -/
theorem isSome_xt32Handler_iff {cloud : List (SensorPoint K)} {plsize : ℕ}
    (hsize : intSize cloud.length = some plsize) : (xt32Handler ops cfg cloud).isSome ↔
      plsize ≠ 0 ∧ (cfg.featureEnabled = true → ClockedInside ops cfg plsize cloud) := by
  have hle := intSize_le hsize
  rw [xt32Handler, hsize]
  by_cases hzero : plsize = 0
  · simp only [lastPoint, if_pos hzero]
    exact ⟨fun hnone => absurd hnone Bool.false_ne_true, fun hall => absurd hzero hall.1⟩
  · obtain ⟨last, hlast, hgiven⟩ := lastPoint_eq hle hzero
    obtain ⟨head, hhead⟩ : ∃ head, cloud[0]? = some head := ⟨_, List.getElem?_eq_getElem (by omega)⟩
    simp only [hlast, hhead, Option.bind_eq_bind, Option.bind_some]
    by_cases hfeatures : cfg.featureEnabled = true
    · simp only [hfeatures, forall_const]
      refine (isSome_clockedFeatures_iff_inside hle _ hgiven).trans ?_
      exact ⟨fun hinside => ⟨hzero, hinside⟩, fun hall => hall.2⟩
    · simp only [if_neg hfeatures]
      exact ⟨fun _ => ⟨hzero, fun hon => absurd hon hfeatures⟩, fun _ => isSome_sampledPoints _ _ hle⟩

theorem isSome_pandar128Handler_iff {cloud : List (SensorPoint K)} :
    (pandar128Handler cfg cloud).isSome ↔ cloud ≠ [] := by
  cases cloud with
  | nil => exact ⟨fun hnone => absurd hnone Bool.false_ne_true, fun hne => absurd rfl hne⟩
  | cons head rest =>
    refine ⟨fun _ => List.cons_ne_nil head rest, fun _ => ?_⟩
    rw [pandar128Handler]
    cases hsize : intSize (head :: rest).length with
    | none => rfl
    | some plsize => exact isSome_map_iff.mpr (isSome_sampledPoints _ _ (intSize_le hsize))

theorem isSome_robosenseHandler_iff {cloud : List (SensorPoint K)} :
    (robosenseHandler cfg cloud).isSome ↔ cloud ≠ [] := by
  cases cloud with
  | nil => exact ⟨fun hnone => absurd hnone Bool.false_ne_true, fun hne => absurd rfl hne⟩
  | cons head rest =>
    refine ⟨fun _ => List.cons_ne_nil head rest, fun _ => ?_⟩
    rw [robosenseHandler]
    cases hsize : intSize (head :: rest).length with
    | none => rfl
    | some plsize => exact isSome_map_iff.mpr (isSome_sampledPoints _ _ (intSize_le hsize))

theorem isSome_l515Handler (cloud : List (SensorPoint K)) : (l515Handler cfg cloud).isSome := by
  rw [l515Handler]
  cases intSize cloud.length with
  | none => rfl
  | some plsize => exact isSome_sampledPoints _ _ (Nat.le_refl _)

/-! ## `process` -/

theorem isSome_processCloud_iff {cloud : List (SensorPoint K)} {plsize : ℕ}
    (hsize : intSize cloud.length = some plsize) :
    (processCloud ops cfg cloud).isSome ↔ CloudInside ops cfg cloud plsize := by
  rw [processCloud, CloudInside]
  cases cfg.lidarType with
  | avia => exact ⟨fun _ => trivial, fun _ => rfl⟩
  | velo16 => exact isSome_velodyneHandler_iff hsize
  | oust64 => exact isSome_oust64Handler_iff hsize
  | l515 => exact ⟨fun _ => trivial, fun _ => isSome_l515Handler cloud⟩
  | xt32 => exact isSome_xt32Handler_iff hsize
  | pandar128 => exact isSome_pandar128Handler_iff
  | robosense => exact isSome_robosenseHandler_iff

/-- Clouds of a size that is negative as an `int` are not processed. -/
theorem processCloud_negative {cloud : List (SensorPoint K)}
    (hsize : intSize cloud.length = none) : processCloud ops cfg cloud = some [] := by
  rw [processCloud]
  cases cfg.lidarType with
  | avia => rfl
  | velo16 => rw [velodyneHandler, hsize]
  | oust64 => rw [oust64Handler, hsize]
  | l515 => rw [l515Handler, hsize]
  | xt32 => rw [xt32Handler, hsize]
  | pandar128 => rw [pandar128Handler, hsize]
  | robosense => rw [robosenseHandler, hsize]

/-- A handler that takes the size of its cloud as an `int`. -/
theorem isSome_iff_intSize {α : Type} {n : ℕ} {x : Option α} {P : ℕ → Prop}
    (hnone : intSize n = none → x.isSome)
    (hsome : ∀ plsize, intSize n = some plsize → (x.isSome ↔ P plsize)) :
    x.isSome ↔ ∀ plsize ∈ intSize n, P plsize := by
  cases hsize : intSize n with
  | none => exact ⟨fun _ plsize hmem => absurd hmem (Option.not_mem_none plsize),
      fun _ => hnone hsize⟩
  | some plsize =>
    rw [hsome plsize hsize]
    exact ⟨fun hinside k hk => Option.some.inj hk ▸ hinside, fun hall => hall plsize rfl⟩

/-- Pre-processing makes no access outside exactly on the messages that are inside. -/
theorem process_inside_iff (ops : FloatOps K) (cfg : Config K) (message : Message K) :
    (process ops cfg message).isSome ↔ message.Inside ops cfg := by
  cases message with
  | custom msg => exact isSome_aviaHandler_iff msg
  | cloud points =>
    refine isSome_iff_intSize (x := processCloud ops cfg points) (fun hsize => ?_) fun _ hsize =>
      isSome_processCloud_iff hsize
    rw [processCloud_negative hsize]
    rfl

/-! ## The handlers -/

/-- The handlers, whatever they are called with, and `give_feature` on whatever ring. -/
theorem handlers_inside_iff (ops : FloatOps K) (cfg : Config K) :
    (∀ msg, (aviaHandler ops cfg msg).isSome ↔
      ∀ plsize ∈ intSize msg.pointNum.toNat, CustomInside ops cfg msg plsize) ∧
    (∀ cloud, (oust64Handler ops cfg cloud).isSome ↔
      ∀ plsize ∈ intSize cloud.length, cfg.featureEnabled = true →
        RingsFit ops cfg (vecRange ops) 0 (visiblePoints cfg (cloud.take plsize))) ∧
    (∀ cloud, (velodyneHandler ops cfg cloud).isSome ↔
      ∀ plsize ∈ intSize cloud.length, plsize = 0 ∨
        if cfg.featureEnabled then ClockedInside ops cfg plsize cloud
        else timesGiven plsize cloud ∨ ∀ p ∈ cloud.take plsize, p.ring < maxLineNum) ∧
    (∀ cloud, (xt32Handler ops cfg cloud).isSome ↔
      ∀ plsize ∈ intSize cloud.length,
        plsize ≠ 0 ∧ (cfg.featureEnabled = true → ClockedInside ops cfg plsize cloud)) ∧
    (∀ cloud : List (SensorPoint K), ((pandar128Handler cfg cloud).isSome ↔ cloud ≠ []) ∧
      ((robosenseHandler cfg cloud).isSome ↔ cloud ≠ []) ∧ (l515Handler cfg cloud).isSome) ∧
    ∀ (ring : ScanRing K) (pl : List (PointType K)) (types : List (OrgType K)) (clouds : Clouds K),
      ShapeOf ops ring pl types →
        ((giveFeature ops cfg pl types clouds).isSome ↔ ring.Fits ops cfg) := by
  refine ⟨isSome_aviaHandler_iff, fun cloud => ?_, fun cloud => ?_, fun cloud => ?_,
    fun cloud => ⟨isSome_pandar128Handler_iff, isSome_robosenseHandler_iff,
      isSome_l515Handler cloud⟩, fun ring pl types clouds h => isSome_giveFeature_iff h clouds⟩
  · refine isSome_iff_intSize (fun hsize => ?_) fun _ => isSome_oust64Handler_iff
    rw [oust64Handler, hsize]
    rfl
  · refine isSome_iff_intSize (fun hsize => ?_) fun _ => isSome_velodyneHandler_iff
    rw [velodyneHandler, hsize]
    rfl
  · refine isSome_iff_intSize (fun hsize => ?_) fun _ => isSome_xt32Handler_iff
    rw [xt32Handler, hsize]
    rfl

/-- The configuration of the constructor, with features or without. -/
def plainConfig (featureEnabled : Bool) : Config ℚ :=
  { Config.initial (fun _ => 0) 0 with featureEnabled := featureEnabled }

/-- Operations for clouds on which no handler computes a root or an angle. -/
def plainOps : FloatOps ℚ := ⟨id, fun _ _ => 0, 0⟩

/-- A ring along a wall with grooves. -/
def wallRing (spacing groove : ℚ) : List (PointType ℚ) :=
  (List.range 12).map fun (k : ℕ) => ⟨1, spacing * k, if k % 2 = 0 then 0 else groove, 0, 0⟩

/-- Along a wall no plane goes up to the last point, along a narrow one the whole ring is a plane. -/
theorem handlers_inside_iff_walls :
    (ScanRing.mk ((wallRing 0.02 0.0045).map PointType.vec) vecSquare).Fits plainOps
        (plainConfig true) ∧
      ¬(ScanRing.mk ((wallRing 0.008 0.0001).map PointType.vec) vecSquare).Fits plainOps
        (plainConfig true) := by
  constructor
  · have hshape : ShapeOf plainOps _ _ _ := shapeOf_orgTypes planarSquare_eq (wallRing 0.02 0.0045)
    exact ((handlers_inside_iff plainOps (plainConfig true)).2.2.2.2.2 _ _ _ ⟨[], []⟩ hshape).mp
      (by decide +kernel)
  · intro hfits
    have hshape : ShapeOf plainOps _ _ _ :=
      shapeOf_orgTypes planarSquare_eq (wallRing 0.008 0.0001)
    have hinside := ((handlers_inside_iff plainOps (plainConfig true)).2.2.2.2.2 _ _ _ ⟨[], []⟩
      hshape).mpr hfits
    exact absurd hinside (by decide +kernel)

/-- A cloud without points, and one with a point on a ring that has no clock. With features, a
cloud without points has rings without points. -/
theorem handlers_read_outside :
    pandar128Handler (plainConfig false) [] = none ∧
      robosenseHandler (plainConfig false) [] = none ∧
      xt32Handler plainOps (plainConfig false) [] = none ∧
      velodyneHandler plainOps (plainConfig false) [⟨1, 0, 0, 0, 0, maxLineNum⟩] = none ∧
      oust64Handler plainOps (plainConfig true) [] = none :=
  ⟨rfl, rfl, rfl, by decide, by decide⟩

end FastLivo.Preprocess
