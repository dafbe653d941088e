import FastLivo.Lib.OptionList
import FastLivo.VoxelMap.Growth
import FastLivo.VoxelMap.Residual

/-!
# The neighbour voxel

A point without a match in its own voxel is matched in a neighbour. `BuildResidualListOMP` picks
it by `loc_xyz`, which counts voxels, and compares that with a centre in metres.
-/

namespace FastLivo.VoxelMap

open Lib Esikf

noncomputable section

/-- `near_position` on an axis. -/
def nearAxis (loc center quater : ℝ) (position : ℤ) : ℤ :=
  if center + quater < loc then position + 1
  else if loc < center - quater then position - 1
  else position

/-- `near_position`. -/
def nearPosition (n : OctoNode ℝ) (loc : Fin 3 → ℝ) (position : VoxelLocation) : VoxelLocation :=
  fun j => nearAxis (loc j) (n.voxelCenter j) n.quaterLength (position j)

/-- What the loop of `BuildResidualListOMP` finds for a point, and the voxels it probed. -/
structure Matched where
  probed : List VoxelLocation
  residual : Residual

/-- The loop of `BuildResidualListOMP` on one point. Its `voxel_size` is the `double`, where the
map is built with the `float`. -/
def matchPoint (r : Rounding ℝ) (voxelSize : ℝ) (cfg : MatchConfig) (m : Voxels ℝ)
    (pv : Frontend.PointWithVar) : Option Matched :=
  let locXyz := fun j => locXyz r voxelSize (pv.pointW j)
  let start : Residual := { normal := pv.normal }
  (planeKey r voxelSize pv.pointW).map fun position =>
    match m position with
    | .null => ⟨[position], start⟩
    | .node currentOcto leaves =>
      let s := buildSingleResidual cfg pv (.node currentOcto leaves) 0 start
      if s.isSucess then ⟨[position], s⟩
      else
        let near := nearPosition currentOcto locXyz position
        ⟨[position, near], buildSingleResidual cfg pv (m near) 0 s⟩

/-- `BuildResidualListOMP`: `pv_list` with its normals, and `ptpl_list`. -/
def buildResidualListOMP (r : Rounding ℝ) (voxelSize : ℝ) (cfg : MatchConfig) (m : Voxels ℝ)
    (pvList : List Frontend.PointWithVar) :
    Option (List Frontend.PointWithVar × List PointToPlane) :=
  (pvList.mapM (matchPoint r voxelSize cfg m)).map fun found =>
    (pvList.zipWith (fun pv f => { pv with normal := f.residual.normal }) found,
      (found.filter fun f => f.residual.isSucess).map fun f => f.residual.singlePtpl)

/-! ## Matches -/

/-- A search that failed has changed nothing that the next one builds on. -/
theorem prob_of_failed (cfg : MatchConfig) (pv : Frontend.PointWithVar) (t : VoxelOctoTree ℝ)
    (s : Residual) (hsucess : s.isSucess = false) (hprob : s.prob = 0)
    (hfailed : (buildSingleResidual cfg pv t 0 s).isSucess = false) :
    (buildSingleResidual cfg pv t 0 s).prob = 0 := by
  rw [buildSingleResidual, buildSingleResidualIn_eq t 0 hsucess hprob] at hfailed ⊢
  have hchosen := bestOf_chosen (score cfg pv) 0 (planesIn cfg.maxLayer t (fun _ => leafnums) 0)
  rcases hchosen.pick with ⟨-, hscore⟩ | ⟨e, he, -, hscore⟩
  · exact hscore
  · have hfound := hchosen.found.mpr ⟨e, he, by rw [hscore]; rfl⟩
    exact absurd hfound (Bool.eq_false_iff.mp hfailed)

/-- A point is matched to a most probable plane of a voxel that was probed. -/
theorem matchPoint_match {r : Rounding ℝ} {voxelSize : ℝ} {cfg : MatchConfig} {m : Voxels ℝ}
    {pv : Frontend.PointWithVar} {f : Matched} (h : matchPoint r voxelSize cfg m pv = some f)
    (hsucess : f.residual.isSucess = true) :
    ∃ position ∈ f.probed, ∃ e, MostProbable cfg pv (m position) 0 e ∧
      f.residual.singlePtpl = planeMatch pv e.2 e.1 := by
  obtain ⟨position, -, hf⟩ := Option.map_eq_some_iff.mp h
  cases hvoxel : m position with
  | null =>
    rw [hvoxel] at hf
    obtain rfl := hf
    cases hsucess
  | node currentOcto leaves =>
    rw [hvoxel] at hf
    dsimp only at hf
    split at hf
    · rename_i hown
      obtain rfl := hf
      obtain ⟨e, hbest, hptpl, -⟩ := (buildSingleResidualIn_spec cfg pv (.node currentOcto leaves)
        (fun _ => leafnums) 0 _ (fun _ => mem_leafnums) rfl rfl).2 hown
      exact ⟨position, List.mem_singleton_self _, e, by rwa [hvoxel], hptpl⟩
    · rename_i hown
      obtain rfl := hf
      have hfailed := Bool.eq_false_iff.mpr hown
      have hprob := prob_of_failed cfg pv _ _ rfl rfl hfailed
      obtain ⟨e, hbest, hptpl, -⟩ := (buildSingleResidualIn_spec cfg pv _ (fun _ => leafnums) 0 _
        (fun _ => mem_leafnums) hfailed hprob).2 hsucess
      exact ⟨_, List.mem_cons_of_mem _ (List.mem_singleton_self _), e, hbest, hptpl⟩

/-- Every entry of `ptpl_list` is the match of a point of `pv_list`. -/
theorem mem_buildResidualListOMP {r : Rounding ℝ} {voxelSize : ℝ} {cfg : MatchConfig}
    {m : Voxels ℝ} {pvList pvList' : List Frontend.PointWithVar} {ptplList : List PointToPlane}
    (h : buildResidualListOMP r voxelSize cfg m pvList = some (pvList', ptplList)) {ptpl : PointToPlane}
    (hptpl : ptpl ∈ ptplList) :
    ∃ pv ∈ pvList, ∃ position e, MostProbable cfg pv (m position) 0 e ∧
      ptpl = planeMatch pv e.2 e.1 := by
  obtain ⟨found, hfound, hlists⟩ := Option.map_eq_some_iff.mp h
  obtain ⟨-, rfl⟩ := Prod.mk.inj hlists
  obtain ⟨f, hf, rfl⟩ := List.mem_map.mp hptpl
  obtain ⟨hmem, hsucess⟩ := List.mem_filter.mp hf
  obtain ⟨pv, hpv, hmatch⟩ := mem_of_mapM hfound hmem
  obtain ⟨position, -, e, hbest, hptpl⟩ := matchPoint_match hmatch hsucess
  exact ⟨pv, hpv, position, e, hbest, hptpl⟩

/-! ## The side of a voxel -/

/-- The side of the centre on which a coordinate lies beyond the quarter length. -/
def side (center quater x : ℝ) : ℤ :=
  if center + quater < x then 1 else if x < center - quater then -1 else 0

/-- The neighbour of a voxel towards a point: on each axis the voxel on the side on which the
point lies beyond the quarter length of the centre, in metres. -/
def neighbour (voxelSize : ℝ) (x : Fin 3 → ℝ) (position : VoxelLocation) : VoxelLocation :=
  fun j => position j + side ((0.5 + position j) * voxelSize) (0.25 * voxelSize) (x j)

/-- The voxel sizes for which a point is sent to its own side on an axis, from the index of its
voxel there, how far into the voxel it lies, as a part of the side, and `loc_xyz`. -/
def FittingSizes (index : ℤ) (part loc : ℝ) : Set ℝ :=
  if 0 ≤ index then
    if 0.75 < part then Set.Iio (loc / (index + 0.75))
    else if part < 0.25 then Set.Ioi (loc / (index + 0.25))
    else Set.Icc (loc / (index + 0.75)) (loc / (index + 0.25))
  else
    if part < 0.25 then Set.Iio (-loc / (-index - 0.25))
    else if 0.75 < part then Set.Ioi (-loc / (-index - 0.75))
    else Set.Icc (-loc / (-index - 0.25)) (-loc / (-index - 0.75))

/-- `loc_xyz` in exact arithmetic. -/
def exactLoc (index : ℤ) (part : ℝ) : ℝ := if 0 ≤ index then index + part else index + part - 1

variable {cfg : MatchConfig} {m : Voxels ℝ} {pv : Frontend.PointWithVar}
  {position : VoxelLocation} {n : OctoNode ℝ} {leaves : Octant → VoxelOctoTree ℝ}

/-- `loc_xyz` is compared with the quarter lengths in metres. -/
theorem nearPosition_eq (hroot : RootOf cfg.toTreeConfig position n) (loc : Fin 3 → ℝ) :
    nearPosition n loc position = neighbour cfg.maxVoxelSize loc position := by
  funext j
  have hcenter : n.voxelCenter j = (0.5 + position j) * cfg.maxVoxelSize := by
    rw [hroot.voxelCenter]
    norm_num
  have hquater : n.quaterLength = 0.25 * cfg.maxVoxelSize := by
    rw [hroot.quaterLength]
    ring
  unfold nearPosition nearAxis neighbour side
  rw [hcenter, hquater]
  split
  · rfl
  · split
    · rfl
    · exact (add_zero _).symm

/-- Two coordinates lie on one side when both quarter lengths have them on one side. -/
theorem side_eq_iff {center quater x y : ℝ} (hquater : 0 < quater) :
    side center quater y = side center quater x ↔
      (center + quater < y ↔ center + quater < x) ∧ (y < center - quater ↔ x < center - quater) := by
  have hone : ∀ z, side center quater z = 1 ↔ center + quater < z := by
    intro z
    unfold side
    split
    · simpa
    · split <;> simp_all
  have hminus : ∀ z, side center quater z = -1 ↔ z < center - quater := by
    intro z
    unfold side
    split
    · have hnot : ¬z < center - quater := by linarith
      simpa using hnot
    · split <;> simp_all
  constructor
  · intro h
    rw [← hone, ← hone, ← hminus, ← hminus, h]
    exact ⟨Iff.rfl, Iff.rfl⟩
  · rintro ⟨habove, hbelow⟩
    unfold side
    simp only [habove, hbelow]

theorem locXyz_exact {size : ℝ} (hpos : 0 < size) (x : ℝ) :
    locXyz .exact size x = if x < 0 then x / size - 1 else x / size := by
  have hsign : x / size < 0 ↔ x < 0 := by rw [div_lt_iff₀ hpos, zero_mul]
  show (if x / size < 0 then x / size - 1 else x / size) = _
  simp only [hsign]

/-- The voxel of a coordinate. -/
theorem index_of_key {size : ℝ} (hpos : 0 < size) {x : Fin 3 → ℝ}
    (hkey : planeKey .exact size x = some position) (j : Fin 3) :
    (x j < 0 ↔ position j < 0) ∧ position j ≤ x j / size ∧ x j / size ≤ position j + 1 := by
  have hj := (toInt64_eq_some.mp (keyOf_eq_some.mp hkey j)).1
  rw [locXyz_exact hpos] at hj
  by_cases hneg : x j < 0
  · have hquot : x j / size < 0 := div_neg_of_neg_of_pos hneg hpos
    rw [if_pos hneg, if_neg (by linarith)] at hj
    obtain ⟨hlow, hhigh⟩ := Int.ceil_eq_iff.mp hj
    refine ⟨⟨fun _ => ?_, fun _ => hneg⟩, by linarith, by linarith⟩
    have hlt : (position j : ℝ) < 0 := by linarith
    exact_mod_cast hlt
  · have hquot : 0 ≤ x j / size := div_nonneg (not_lt.mp hneg) hpos.le
    rw [if_neg hneg, if_pos hquot] at hj
    obtain ⟨hlow, hhigh⟩ := Int.floor_eq_iff.mp hj
    refine ⟨⟨fun hx => absurd hx hneg, fun hindex => ?_⟩, hlow, hhigh.le⟩
    have hle : (position j : ℝ) ≤ -1 := by exact_mod_cast Int.le_sub_one_of_lt hindex
    linarith

/-- Two comparisons with the ends of an interval. -/
theorem mem_sides_iff {a b size : ℝ} (hab : size < a → size ≤ b) {p q : Prop} [Decidable p]
    [Decidable q] (hpq : p → ¬q) : ((size < a ↔ p) ∧ (b < size ↔ q)) ↔
      size ∈ if p then Set.Iio a else if q then Set.Ioi b else Set.Icc a b := by
  by_cases hp : p
  · rw [if_pos hp]
    simp only [hp, hpq hp, iff_true, iff_false, not_lt, Set.mem_Iio, and_iff_left_iff_imp]
    exact hab
  · rw [if_neg hp]
    by_cases hq : q
    · rw [if_pos hq]
      simp only [hp, hq, iff_true, iff_false, not_lt, Set.mem_Ioi, and_iff_right_iff_imp]
      exact fun hlt => le_of_not_gt fun hbelow => (hab hbelow).not_gt hlt
    · rw [if_neg hq]
      simp only [hp, hq, iff_false, not_lt, Set.mem_Icc]

/-- Of two quotients of one number the one by the larger divisor is the smaller one, or both are
negative. -/
theorem le_div_of_lt_div {size t c d : ℝ} (hpos : 0 < size) (hd : 0 < d) (hcd : d ≤ c)
    (h : size < t / c) : size ≤ t / d := by
  have hc : 0 < c := hd.trans_le hcd
  have ht : 0 ≤ t := by
    by_contra hneg
    exact absurd (div_neg_of_neg_of_pos (not_le.mp hneg) hc) (hpos.trans h).not_gt
  exact h.le.trans (div_le_div_of_nonneg_left ht hd hcd)

/-- `loc_xyz` lies on the side of the coordinate exactly for the sizes that fit. -/
theorem side_loc_iff {size : ℝ} (hpos : 0 < size) (k : ℤ) (x loc : ℝ) :
    side ((0.5 + k) * size) (0.25 * size) loc = side ((0.5 + k) * size) (0.25 * size) x ↔
      size ∈ FittingSizes k (x / size - k) loc := by
  set part := x / size - k with hpart
  have hx : x = (k + part) * size := by
    rw [hpart]
    field_simp
    ring
  have hhigh : (0.5 + (k : ℝ)) * size + 0.25 * size = (k + 0.75) * size := by ring
  have hlow : (0.5 + (k : ℝ)) * size - 0.25 * size = (k + 0.25) * size := by ring
  have habove : (k + 0.75) * size < x ↔ 0.75 < part := by
    rw [hx, mul_lt_mul_iff_left₀ hpos, add_lt_add_iff_left]
  have hbelow : x < (k + 0.25) * size ↔ part < 0.25 := by
    rw [hx, mul_lt_mul_iff_left₀ hpos, add_lt_add_iff_left]
  rw [side_eq_iff (by positivity), hhigh, hlow, habove, hbelow]
  unfold FittingSizes
  by_cases hk : 0 ≤ k
  · have hcast : (0 : ℝ) ≤ k := by exact_mod_cast hk
    rw [if_pos hk, mul_comm _ size, mul_comm _ size, ← lt_div_iff₀ (by linarith),
      ← div_lt_iff₀ (by linarith)]
    exact mem_sides_iff (le_div_of_lt_div hpos (by linarith) (by linarith)) fun hfar => by linarith
  · have hcast : (k : ℝ) ≤ -1 := by exact_mod_cast (by omega : k ≤ -1)
    have hloc_above : (k + 0.75) * size < loc ↔ -loc / (-k - 0.75) < size := by
      rw [div_lt_iff₀ (by linarith)]
      constructor <;> intro h <;> linarith
    have hloc_below : loc < (k + 0.25) * size ↔ size < -loc / (-k - 0.25) := by
      rw [lt_div_iff₀ (by linarith)]
      constructor <;> intro h <;> linarith
    rw [if_neg hk, hloc_above, hloc_below, and_comm]
    exact mem_sides_iff (le_div_of_lt_div hpos (by linarith) (by linarith)) fun hnear => by linarith

/-- Without rounding `loc_xyz` counts voxels, one less below zero. -/
theorem locXyz_eq_exactLoc {size : ℝ} (hpos : 0 < size) {x : Fin 3 → ℝ}
    (hkey : planeKey .exact size x = some position) (j : Fin 3) :
    locXyz .exact size (x j) = exactLoc (position j) (x j / size - position j) := by
  have hsign := (index_of_key hpos hkey j).1
  rw [locXyz_exact hpos, exactLoc, add_sub_cancel]
  by_cases hneg : x j < 0
  · rw [if_pos hneg, if_neg (not_le.mpr (hsign.mp hneg))]
  · rw [if_neg hneg, if_pos (not_lt.mp fun hk => hneg (hsign.mpr hk))]

/-- A metre fits wherever no coordinate is negative. -/
theorem metre_mem_fittingSizes {index : ℤ} (hindex : 0 ≤ index) (part : ℝ) :
    1 ∈ FittingSizes index part (exactLoc index part) := by
  have hcast : (0 : ℝ) ≤ index := by exact_mod_cast hindex
  unfold FittingSizes exactLoc
  rw [if_pos hindex, if_pos hindex]
  split
  · rw [Set.mem_Iio, lt_div_iff₀ (by linarith)]
    linarith
  · split
    · rw [Set.mem_Ioi, div_lt_iff₀ (by linarith)]
      linarith
    · rw [Set.mem_Icc, div_le_iff₀ (by linarith), le_div_iff₀ (by linarith)]
      constructor <;> linarith

/-- For a point without a match in its own voxel, the neighbour towards the point is probed
exactly when the own voxel is in the map and the voxel size fits on every axis. -/
theorem neighbour_probed_iff {r : Rounding ℝ} {voxelSize : ℝ}
    (h : MapRun r cfg.toTreeConfig (fun _ _ => True) m)
    (hkey : planeKey r voxelSize pv.pointW = some position)
    (hnone : (buildSingleResidual cfg pv (m position) 0 { normal := pv.normal }).isSucess = false) :
    ((matchPoint r voxelSize cfg m pv).map Matched.probed =
        some [position, neighbour cfg.maxVoxelSize pv.pointW position] ↔
      m position ≠ .null ∧ ∀ j, cfg.maxVoxelSize ∈ FittingSizes (position j)
        (pv.pointW j / cfg.maxVoxelSize - position j) (locXyz r voxelSize (pv.pointW j))) ∧
    (r = .exact → voxelSize = cfg.maxVoxelSize →
      ((matchPoint r voxelSize cfg m pv).map Matched.probed =
          some [position, neighbour cfg.maxVoxelSize pv.pointW position] ↔
        m position ≠ .null ∧ ∀ j, cfg.maxVoxelSize ∈ FittingSizes (position j)
          (pv.pointW j / cfg.maxVoxelSize - position j)
          (exactLoc (position j) (pv.pointW j / cfg.maxVoxelSize - position j)))) := by
  have hprobed : (matchPoint r voxelSize cfg m pv).map Matched.probed =
        some [position, neighbour cfg.maxVoxelSize pv.pointW position] ↔
      m position ≠ .null ∧ ∀ j, cfg.maxVoxelSize ∈ FittingSizes (position j)
        (pv.pointW j / cfg.maxVoxelSize - position j) (locXyz r voxelSize (pv.pointW j)) := by
    rw [matchPoint, hkey, Option.map_some, Option.map_some, Option.some_inj]
    cases hvoxel : m position with
    | null => simp
    | node n leaves =>
      have hinv : VoxelInv cfg.toTreeConfig True (fun _ _ => True) position (m position) :=
        h.voxelInv (fun _ _ _ => trivial) (fun _ _ _ _ _ _ => trivial)
          (fun _ _ _ _ _ _ hno => absurd trivial hno) position
      rw [hvoxel] at hnone
      dsimp only
      rw [if_neg (Bool.eq_false_iff.mp hnone), nearPosition_eq (hinv.root n leaves hvoxel)]
      simp only [List.cons.injEq, true_and, and_true, ne_eq, reduceCtorEq, not_false_eq_true]
      constructor
      · intro hnear j
        exact (side_loc_iff cfg.maxVoxelSize_pos _ _ _).mp (add_left_cancel (congrFun hnear j))
      · intro hfits
        funext j
        exact congrArg (position j + ·)
          ((side_loc_iff cfg.maxVoxelSize_pos _ _ _).mpr (hfits j))
  refine ⟨hprobed, fun hr hsize => ?_⟩
  subst hr hsize
  rw [hprobed]
  simp only [locXyz_eq_exactLoc cfg.maxVoxelSize_pos hkey]

/-! ## A voxel with one point -/

/-- A point near a lower corner of its voxel. -/
def pointNearCorner : Frontend.PointWithVar where
  pointW := fun _ => 0.1

/-- The voxel at the origin. -/
theorem key_zero {size c : ℝ} (hc : 0 ≤ c) (hsize : c < size) :
    planeKey .exact size (fun _ => c) = some fun _ => 0 := by
  have hpos : 0 < size := hc.trans_lt hsize
  have hquot : c / size < 1 := by rwa [div_lt_one hpos]
  have hnonneg : 0 ≤ c / size := div_nonneg hc hpos.le
  rw [planeKey, keyOf_eq_some]
  intro j
  rw [toInt64_eq_some, locXyz_exact hpos, if_neg (not_lt.mpr hc), if_pos hnonneg,
    Int.floor_eq_zero_iff]
  constructor
  · exact ⟨hnonneg, hquot⟩
  · unfold FitsInt64
    omega

theorem key_near_corner {size : ℝ} (hsize : 0.1 < size) :
    planeKey .exact size pointNearCorner.pointW = some fun _ => 0 :=
  key_zero (by norm_num : (0 : ℝ) ≤ 0.1) hsize

/-- The map of one point. -/
theorem buildVoxelMap_singleton {cfg : TreeConfig ℝ} (pv : PointWithVar ℝ)
    (hfirst : 1 ≤ cfg.layerInitNum 0) (hkey : planeKey .exact cfg.maxVoxelSize pv.pointW = some position) :
    ∃ m : Voxels ℝ, buildVoxelMap .exact cfg [pv] = some m ∧
      m position = .node ((newVoxel cfg position).push pv) noLeaves := by
  rw [buildVoxelMap, exec_cons, buildPoint, hkey]
  refine ⟨_, rfl, ?_⟩
  dsimp only
  rw [assign_self]
  exact if_neg (not_lt.mpr hfirst)

/-- A voxel with one point has no plane. -/
theorem singleton_no_match {q : PointWithVar ℝ} {s : Residual} (hs : s.isSucess = false)
    (hvoxel : m position = .node ((newVoxel cfg.toTreeConfig position).push q) noLeaves) :
    (buildSingleResidual cfg pv (m position) 0 s).isSucess = false := by
  have hsame : buildSingleResidual cfg pv (m position) 0 s = s := by
    rw [hvoxel, buildSingleResidual, buildSingleResidualIn]
    rw [if_neg (show ¬((newVoxel cfg.toTreeConfig position).push q).plane.isPlane = true from
      Bool.false_ne_true)]
    split
    · rfl
    · rfl
  rw [hsame, hs]

/-- Near the lower corner of a voxel the neighbour below is not probed. -/
theorem neighbour_missed : ¬∀ (cfg : MatchConfig) (m : Voxels ℝ) (pv : Frontend.PointWithVar)
    (position : VoxelLocation), MapRun .exact cfg.toTreeConfig (fun _ _ => True) m →
    planeKey .exact cfg.maxVoxelSize pv.pointW = some position →
    (buildSingleResidual cfg pv (m position) 0 { normal := pv.normal }).isSucess = false →
    (matchPoint .exact cfg.maxVoxelSize cfg m pv).map Matched.probed =
      some [position, neighbour cfg.maxVoxelSize pv.pointW position] := by
  intro h
  have hkey : planeKey .exact MatchConfig.sample.maxVoxelSize pointNearCorner.pointW = some fun _ => 0 :=
    key_near_corner (by norm_num [MatchConfig.sample])
  obtain ⟨m, hbuilt, hvoxel⟩ := buildVoxelMap_singleton ⟨pointNearCorner.pointW, 0⟩ (by decide) hkey
  have hrun : MapRun .exact MatchConfig.sample.toTreeConfig (fun _ _ => True) m :=
    ⟨_, _, hbuilt, .start⟩
  have hnone : (buildSingleResidual .sample pointNearCorner (m fun _ => 0) 0
      { normal := pointNearCorner.normal }).isSucess = false := singleton_no_match rfl hvoxel
  have hprobed := h .sample m pointNearCorner (fun _ => 0) hrun hkey hnone
  have hfits := (((neighbour_probed_iff hrun hkey hnone).2 rfl rfl).mp hprobed).2 0
  norm_num [FittingSizes, exactLoc, pointNearCorner, MatchConfig.sample] at hfits

/-- Voxels of a metre. -/
def MatchConfig.metre : MatchConfig :=
  { MatchConfig.sample with maxVoxelSize := 1, maxVoxelSize_pos := one_pos }

/-- With voxels of a metre it is. -/
theorem neighbour_probed_iff_metre : ∃ m : Voxels ℝ,
    (matchPoint .exact 1 .metre m pointNearCorner).map Matched.probed =
      some [fun _ => 0, fun _ => -1] := by
  have hkey : planeKey .exact MatchConfig.metre.maxVoxelSize pointNearCorner.pointW = some fun _ => 0 :=
    key_near_corner (by norm_num [MatchConfig.metre])
  obtain ⟨m, hbuilt, hvoxel⟩ := buildVoxelMap_singleton ⟨pointNearCorner.pointW, 0⟩ (by decide) hkey
  have hnear : neighbour MatchConfig.metre.maxVoxelSize pointNearCorner.pointW (fun _ => 0) =
      fun _ => -1 := by
    funext j
    norm_num [neighbour, side, pointNearCorner, MatchConfig.metre]
  have hnone : (buildSingleResidual .metre pointNearCorner (m fun _ => 0) 0
      { normal := pointNearCorner.normal }).isSucess = false := singleton_no_match rfl hvoxel
  refine ⟨m, ?_⟩
  rw [← hnear]
  refine ((neighbour_probed_iff ⟨_, _, hbuilt, .start⟩ hkey hnone).2 rfl rfl).mpr
    ⟨?_, fun j => ?_⟩
  · rw [hvoxel]
    intro hnull
    cases hnull
  · exact metre_mem_fittingSizes le_rfl _

end

end FastLivo.VoxelMap
