import FastLivo.Lib.Assign
import FastLivo.Lib.Binary
import FastLivo.Lib.Int64
import Mathlib.Data.Fintype.Pi

/-!
# Voxel keys

The plane map and the visual map file a point under the key of its voxel. The key is computed
where a map is written, in `BuildVoxelMap`, `UpdateVoxelMap` and `insertPointIntoVoxelMap`,
and again where the visual map is read, in `retrieveFromVisualSparseMap`.
-/

namespace FastLivo.VoxelMap

open Lib

/-- `VOXEL_LOCATION`. -/
abbrev VoxelLocation := Fin 3 → ℤ

/-- The three axes of a key, unless a conversion is undefined. -/
def keyOf {K : Type*} (axis : K → Option ℤ) (x : Fin 3 → K) : Option VoxelLocation :=
  if h : ∀ j, (axis (x j)).isSome then some fun j => (axis (x j)).get (h j) else none

theorem keyOf_eq_some {K : Type*} {axis : K → Option ℤ} {x : Fin 3 → K} {key : VoxelLocation} :
    keyOf axis x = some key ↔ ∀ j, axis (x j) = some (key j) := by
  unfold keyOf
  constructor
  · intro h j
    split at h
    · obtain rfl := Option.some.inj h
      exact (Option.some_get _).symm
    · cases h
  · intro h
    have hsome : ∀ j, (axis (x j)).isSome := fun j => by rw [h j]; rfl
    rw [dif_pos hsome]
    congr 1
    funext j
    simp [h j]

variable {K : Type*} [Field K] [LinearOrder K] [FloorRing K]

/-- What floating point makes of exact results. -/
structure Rounding (K : Type*) [Field K] [LinearOrder K] where
  /-- A result of type `double`. -/
  double : K → K
  /-- A conversion to `float`. -/
  single : K → K
  double_nonneg : ∀ x, 0 ≤ x → 0 ≤ double x
  single_nonneg : ∀ x, 0 ≤ x → 0 ≤ single x

/-- Exact arithmetic. -/
def Rounding.exact : Rounding K := ⟨id, id, fun _ h => h, fun _ h => h⟩

/-- The formats of the machine. -/
def Rounding.ieee : Rounding ℚ :=
  ⟨binary64, binary32, fun _ => roundTo_nonneg _ _, fun _ => roundTo_nonneg _ _⟩

/-- Conversion to `int64_t`, which truncates. -/
def toInt64 (x : K) : Option ℤ :=
  let n := if 0 ≤ x then ⌊x⌋ else ⌈x⌉
  if FitsInt64 n then some n else none

/-- Conversion of an integral value to `int`. -/
def toInt32 (n : ℤ) : Option ℤ := if -2147483648 ≤ n ∧ n < 2147483648 then some n else none

/-! ## Where a map is written -/

/-- `loc_xyz[j]`, a `float`. -/
def locXyz (r : Rounding K) (voxelSize x : K) : K :=
  let loc := r.single (r.double (x / voxelSize))
  if loc < 0 then r.single (r.double (loc - 1)) else loc

/-- `position` in `BuildVoxelMap` and `UpdateVoxelMap`. -/
def planeKey (r : Rounding K) (voxelSize : K) (x : Fin 3 → K) : Option VoxelLocation :=
  keyOf (fun x => toInt64 (locXyz r voxelSize x)) x

/-- The voxel size of the visual map. -/
def visualVoxelSize : K := 1 / (2 : ℕ)

/-- `position` in `insertPointIntoVoxelMap`. -/
def visualKey (r : Rounding K) (x : Fin 3 → K) : Option VoxelLocation :=
  keyOf (fun x => toInt64 (locXyz r visualVoxelSize x)) x

/-! ## Where the visual map is read -/

/-- `loc_xyz[j]`, an `int`. -/
def retrieveAxis (r : Rounding K) (x : K) : Option ℤ :=
  (toInt32 ⌊r.double (x / visualVoxelSize)⌋).bind fun loc =>
    if loc < 0 then toInt32 (loc - 1) else some loc

/-- `position` of a scan point. -/
def scanKey (r : Rounding K) (x : Fin 3 → K) : Option VoxelLocation := keyOf (retrieveAxis r) x

/-- `sample_pos` of a sample on a ray. -/
def sampleKey (r : Rounding K) (x : Fin 3 → K) : Option VoxelLocation := keyOf (retrieveAxis r) x

/-! ## The visual map -/

/-- `feat_map`: the `voxel_points` of each key, by address. -/
abbrev FeatMap := VoxelLocation → List ℕ

/-- `insertPointIntoVoxelMap` of the point at an address with its position. -/
def insertPointIntoVoxelMap (r : Rounding K) (m : FeatMap) (pt : ℕ) (pos : Fin 3 → K) :
    Option FeatMap :=
  (visualKey r pos).map fun key => assign m key (m key ++ [pt])

/-! ## Agreement -/

/-- The keys of a position are one key, under which a query finds the point that was stored. -/
def KeysAgree (r : Rounding K) (x : Fin 3 → K) : Prop :=
  ∃ key, visualKey r x = some key ∧ scanKey r x = some key ∧ sampleKey r x = some key ∧
    planeKey r visualVoxelSize x = some key ∧
    ∀ m pt, ∃ m', insertPointIntoVoxelMap r m pt x = some m' ∧ pt ∈ m' key

variable {x : Fin 3 → K} {r : Rounding K} {key : VoxelLocation}

/-- The keys agree when those of each axis do. -/
theorem keysAgree_iff_axes :
    KeysAgree r x ↔ ∀ j, ∃ n, toInt64 (locXyz r visualVoxelSize (x j)) = some n ∧
      retrieveAxis r (x j) = some n := by
  constructor
  · rintro ⟨key, hvisual, hscan, -⟩ j
    exact ⟨key j, keyOf_eq_some.mp hvisual j, keyOf_eq_some.mp hscan j⟩
  · intro h
    choose key hvisual hscan using h
    have hstored : visualKey r x = some key := keyOf_eq_some.mpr hvisual
    refine ⟨key, hstored, keyOf_eq_some.mpr hscan, keyOf_eq_some.mpr hscan, hstored, ?_⟩
    intro m pt
    refine ⟨assign m key (m key ++ [pt]), ?_, ?_⟩
    · rw [insertPointIntoVoxelMap, hstored, Option.map_some]
    · rw [assign_self]
      exact List.mem_append_right _ (List.mem_singleton_self _)

theorem toInt64_eq_some {y : K} {n : ℤ} :
    toInt64 y = some n ↔ (if 0 ≤ y then ⌊y⌋ else ⌈y⌉) = n ∧ FitsInt64 n := by
  unfold toInt64
  dsimp only
  constructor
  · intro h
    obtain ⟨hfits, hn⟩ := Option.ite_none_right_eq_some.mp h
    obtain rfl := Option.some.inj hn
    exact ⟨rfl, hfits⟩
  · rintro ⟨rfl, hfits⟩
    rw [if_pos hfits]

theorem retrieveAxis_eq_some {y : K} {n : ℤ} :
    retrieveAxis r y = some n ↔
      (if ⌊r.double (y / visualVoxelSize)⌋ < 0 then ⌊r.double (y / visualVoxelSize)⌋ - 1
        else ⌊r.double (y / visualVoxelSize)⌋) = n ∧ -2147483648 ≤ n ∧
        ⌊r.double (y / visualVoxelSize)⌋ < 2147483648 := by
  unfold retrieveAxis toInt32
  generalize ⌊r.double (y / visualVoxelSize)⌋ = loc
  by_cases hfits : -2147483648 ≤ loc ∧ loc < 2147483648
  · rw [if_pos hfits, Option.bind_some]
    split
    · rw [Option.ite_none_right_eq_some]
      constructor
      · rintro ⟨hlow, ⟨⟩⟩
        exact ⟨rfl, hlow.1, hfits.2⟩
      · rintro ⟨rfl, hlow, -⟩
        exact ⟨⟨hlow, by omega⟩, rfl⟩
    · rw [Option.some_inj]
      constructor
      · rintro rfl
        exact ⟨rfl, hfits⟩
      · exact And.left
  · rw [if_neg hfits, Option.bind_none]
    refine iff_of_false nofun ?_
    split <;> omega

/-- What `loc_xyz` of a write holds on an axis: the place in the voxel that a read rounds down
to, or the boundary that a read goes below once more. -/
def AxisHeld (r : Rounding K) (x : K) : Prop :=
  let loc := r.single (r.double (x / visualVoxelSize))
  let n := ⌊r.double (x / visualVoxelSize)⌋
  (0 ≤ loc ∧ n ≤ loc ∧ loc < n + 1 ∨
    loc < 0 ∧ n - 1 < r.single (r.double (loc - 1)) + 1 ∧ r.single (r.double (loc - 1)) ≤ n - 1) ∧
    -2147483648 < n ∧ n < 2147483648

variable [IsStrictOrderedRing K]

theorem axes_agree_iff (r : Rounding K) (x : K) :
    (∃ n, toInt64 (locXyz r visualVoxelSize x) = some n ∧ retrieveAxis r x = some n) ↔
      AxisHeld r x := by
  unfold AxisHeld locXyz
  simp only [toInt64_eq_some, retrieveAxis_eq_some]
  have hsign : r.single (r.double (x / visualVoxelSize)) < 0 →
      ⌊r.double (x / visualVoxelSize)⌋ < 0 := by
    intro hneg
    by_contra hpos
    exact absurd (r.single_nonneg _ (Int.floor_nonneg.mp (not_lt.mp hpos))) (not_le.mpr hneg)
  generalize r.single (r.double (x / visualVoxelSize)) = loc at hsign ⊢
  generalize ⌊r.double (x / visualVoxelSize)⌋ = n at hsign ⊢
  by_cases hneg : loc < 0
  · have hn := hsign hneg
    simp only [hneg, hn, if_true, not_le.mpr hneg, false_and, true_and, false_or]
    generalize r.single (r.double (loc - 1)) = lower
    constructor
    · rintro ⟨_, ⟨htrunc, -⟩, rfl, hlow, hhigh⟩
      split at htrunc
      · rename_i hpos
        have := Int.floor_nonneg.mpr hpos
        omega
      · obtain ⟨habove, hbelow⟩ := Int.ceil_eq_iff.mp htrunc
        push_cast at habove hbelow
        exact ⟨⟨by linarith, hbelow⟩, by omega, hhigh⟩
    · rintro ⟨⟨habove, hbelow⟩, hlow, hhigh⟩
      have hlast : (n : K) - 1 < 0 := by
        have hcast : ((n - 1 : ℤ) : K) < 0 := Int.cast_lt_zero.mpr (by omega)
        rwa [Int.cast_sub, Int.cast_one] at hcast
      refine ⟨n - 1, ⟨?_, by unfold FitsInt64; omega⟩, rfl, by omega, hhigh⟩
      rw [if_neg (not_le.mpr (hbelow.trans_lt hlast)), Int.ceil_eq_iff]
      push_cast
      exact ⟨by linarith, hbelow⟩
  · have hpos := not_lt.mp hneg
    simp only [hneg, hpos, if_true, if_false, false_and, true_and, or_false]
    constructor
    · rintro ⟨k, ⟨rfl, -⟩, hread, hlow, hhigh⟩
      have hfloor := Int.floor_nonneg.mpr hpos
      split at hread
      · omega
      · rw [hread]
        exact ⟨⟨Int.floor_le _, Int.lt_floor_add_one _⟩, by omega, by omega⟩
    · rintro ⟨⟨hle, hlt⟩, hlow, hhigh⟩
      have hn : 0 ≤ n := by
        have hcast : ((-1 : ℤ) : K) < (n : K) := by
          push_cast
          linarith
        have := Int.cast_lt.mp hcast
        omega
      have hfloor : ⌊loc⌋ = n := Int.floor_eq_iff.mpr ⟨hle, hlt⟩
      exact ⟨n, ⟨hfloor, by unfold FitsInt64; omega⟩, if_neg (by omega), by omega, hhigh⟩

/-- A coordinate that `float` holds exactly is held if it is not negative, or on a boundary. -/
theorem axisHeld_iff_of_exact {x : K} (hdouble : r.double (x / visualVoxelSize) = x / visualVoxelSize)
    (hsingle : r.single (x / visualVoxelSize) = x / visualVoxelSize)
    (hbelow : r.single (r.double (x / visualVoxelSize - 1)) = x / visualVoxelSize - 1) :
    AxisHeld r x ↔ (0 ≤ x ∨ ∃ n : ℤ, x / visualVoxelSize = n) ∧
      -2147483648 < ⌊x / visualVoxelSize⌋ ∧ ⌊x / visualVoxelSize⌋ < 2147483648 := by
  have hsize : (0 : K) < visualVoxelSize := by
    unfold visualVoxelSize
    positivity
  have hsign : 0 ≤ x ↔ 0 ≤ x / visualVoxelSize := by rw [le_div_iff₀ hsize, zero_mul]
  unfold AxisHeld
  rw [hdouble, hsingle]
  dsimp only
  rw [hbelow, hsign]
  generalize x / visualVoxelSize = y
  refine and_congr_left fun _ => ?_
  have hfloor := Int.floor_le y
  have hceil := Int.lt_floor_add_one y
  constructor
  · rintro (⟨hpos, -⟩ | ⟨-, -, hle⟩)
    · exact .inl hpos
    · exact .inr ⟨⌊y⌋, by linarith⟩
  · rintro (hpos | ⟨n, rfl⟩)
    · exact .inl ⟨hpos, hfloor, hceil⟩
    · rw [Int.floor_intCast]
      rcases le_or_gt 0 (n : K) with hpos | hneg
      · exact .inl ⟨hpos, le_refl _, by linarith⟩
      · exact .inr ⟨hneg, by linarith, le_refl _⟩

/-! ## Held by the formats of the machine -/

/-- The `float` of a coordinate, as a part of the voxel size. -/
def nearestFloat (x : ℚ) : ℚ := binary32 (binary64 (x / visualVoxelSize))

/-- The boundary that a read rounds the coordinate down to. -/
def boundaryBelow (x : ℚ) : ℤ := ⌊binary64 (x / visualVoxelSize)⌋

/-- Half of the last place of a `float` right above a negative integer less one. -/
def halfPlace (n : ℤ) : ℚ := (2 ^ Nat.log 2 n.natAbs : ℕ) / (2 ^ 24 : ℕ)

section Below

variable {n : ℤ} (hneg : n < 0) (hlow : -8388608 < n)
include hneg hlow

/-- A negative integer less one, in the last places of a `float` right above it. -/
theorem exists_places : ∃ (e N : ℤ), -149 ≤ e - 23 ∧ (2 : ℚ) ^ e ≤ -n ∧
    halfPlace n = 2 ^ (e - 24) ∧ (N : ℚ) * 2 ^ (e - 23) = n - 1 ∧ N % 2 = 0 ∧
    -16777216 ≤ N ∧ N ≤ -8388610 := by
  have habs : n.natAbs ≠ 0 := by omega
  obtain ⟨e, he⟩ : ∃ e, e = Nat.log 2 n.natAbs := ⟨_, rfl⟩
  have hle : 2 ^ e ≤ n.natAbs := he ▸ Nat.pow_log_le_self 2 habs
  have hlt : n.natAbs < 2 ^ (e + 1) := he ▸ Nat.lt_pow_succ_log_self one_lt_two _
  have hlog : e < 23 := he ▸ Nat.log_lt_of_lt_pow habs (by omega)
  obtain ⟨k, hk⟩ := Nat.exists_eq_add_of_lt hlog
  have hbits : (2 : ℤ) ^ e * 2 ^ (k + 1) = 8388608 := by
    rw [← pow_add, ← Nat.add_assoc, ← hk]
    norm_num
  have hplaces : (2 : ℤ) ≤ 2 ^ (k + 1) := by
    have hone : (1 : ℤ) ≤ 2 ^ k := one_le_pow₀ one_le_two
    rw [pow_succ]
    omega
  have hpow : (2 : ℤ) ^ e ≤ -n := by
    have hcast : ((2 ^ e : ℕ) : ℤ) ≤ (n.natAbs : ℤ) := Int.ofNat_le.mpr hle
    rw [Int.ofNat_natAbs_of_nonpos hneg.le] at hcast
    exact_mod_cast hcast
  have hnext : -n < 2 * 2 ^ e := by
    have hcast : (n.natAbs : ℤ) < ((2 ^ (e + 1) : ℕ) : ℤ) := Int.ofNat_lt.mpr hlt
    rw [Int.ofNat_natAbs_of_nonpos hneg.le, pow_succ, mul_comm] at hcast
    exact_mod_cast hcast
  refine ⟨e, (n - 1) * 2 ^ (k + 1), by omega, ?_, ?_, ?_, ?_, ?_, ?_⟩
  · rw [zpow_natCast]
    exact_mod_cast hpow
  · rw [halfPlace, ← he, zpow_sub₀ two_ne_zero, zpow_natCast, Nat.cast_pow]
    norm_num
  · have hunit : (2 : ℚ) ^ (k + 1) * 2 ^ ((e : ℤ) - 23) = 1 := by
      rw [← zpow_natCast, ← zpow_add₀ two_ne_zero, show ((k + 1 : ℕ) : ℤ) + ((e : ℤ) - 23) = 0 by
        omega, zpow_zero]
    rw [Int.cast_mul, mul_assoc, Int.cast_pow, Int.cast_ofNat, hunit, mul_one, Int.cast_sub,
      Int.cast_one]
  · rw [pow_succ, ← mul_assoc, Int.mul_emod_left]
  · nlinarith
  · nlinarith

/-- A `float` from a negative integer to the next one is that integer, or it is no nearer than half
of a last place. -/
theorem float_gap {f : ℚ} (hfloat : binary32 f = f) {e : ℤ} (hpow : (2 : ℚ) ^ e ≤ -n)
    (hhalf : halfPlace n = 2 ^ (e - 24)) (habove : n + halfPlace n < f) :
    n + 2 ^ (e - 23) ≤ f := by
  have hplace : (2 : ℚ) ^ (e - 23) = 2 * 2 ^ (e - 24) := by
    rw [show e - 23 = 1 + (e - 24) by ring, zpow_add₀ two_ne_zero, zpow_one]
  have hpos : (0 : ℚ) < 2 ^ (e - 24) := zpow_pos two_pos _
  rcases le_or_gt ((2 : ℚ) ^ (e - 1)) |f| with hlarge | hsmall
  · -- both are multiples of half a last place
    obtain ⟨z, hz⟩ := exists_multiple hfloat hlarge
    have hfixed : binary32 (n : ℚ) = n := binary32_intCast (abs_lt.mpr ⟨by omega, by omega⟩)
    have hcast : (n : ℚ) < 0 := Int.cast_lt_zero.mpr hneg
    obtain ⟨m, hm⟩ := exists_multiple hfixed (hpow.trans_eq (abs_of_neg hcast).symm)
    rw [show e - 1 + 1 - ((24 : ℕ) : ℤ) = e - 24 by push_cast; ring] at hz
    rw [show e + 1 - ((24 : ℕ) : ℤ) = e - 23 by push_cast; ring, hplace] at hm
    rw [hhalf, hz, hm] at habove
    have hless : ((2 * m + 1 : ℤ) : ℚ) < z := by
      push_cast
      nlinarith
    have hnext : 2 * m + 2 ≤ z := by
      have := Int.cast_lt.mp hless
      omega
    have hnext' : (2 * m + 2 : ℚ) ≤ z := by exact_mod_cast hnext
    rw [hplace, hz, hm]
    nlinarith
  · -- a float that small is far from the integer
    have hhalved : (2 : ℚ) ^ e = 2 * 2 ^ (e - 1) := by
      rw [show e = 1 + (e - 1) by ring, zpow_add₀ two_ne_zero, zpow_one, add_sub_cancel_left]
    have hsmaller : (2 : ℚ) ^ (e - 23) ≤ 2 ^ (e - 1) := zpow_le_zpow_right₀ one_le_two (by omega)
    have hbelow := (abs_lt.mp hsmall).1
    linarith

/-- A `float` from a negative integer to the next one, less one, is rounded down to the integer less
one up to half of a last place. -/
theorem rounds_down_iff {f : ℚ} (hfloat : binary32 f = f) :
    binary32 (binary64 (f - 1)) ≤ n - 1 ↔ f ≤ n + halfPlace n := by
  obtain ⟨e, N, he, hpow, hhalf, hN, heven, hleast, hmost⟩ := exists_places hneg hlow
  have hplace : (2 : ℚ) ^ (e - 23) = 2 * 2 ^ (e - 24) := by
    rw [show e - 23 = 1 + (e - 24) by ring, zpow_add₀ two_ne_zero, zpow_one]
  constructor
  · intro hdown
    by_contra habove
    have hnext := float_gap hneg hlow hfloat hpow hhalf (not_le.mp habove)
    have hstep : ((N + 1 : ℤ) : ℚ) * 2 ^ (e - 23) ≤ f - 1 := by
      push_cast
      linarith
    have hdouble : binary64 (((N + 1 : ℤ) : ℚ) * 2 ^ (e - 23)) = ((N + 1 : ℤ) : ℚ) * 2 ^ (e - 23) :=
      roundTo_multiple (abs_lt.mpr ⟨by omega, by omega⟩) (by omega)
    have hsingle : binary32 (((N + 1 : ℤ) : ℚ) * 2 ^ (e - 23)) = ((N + 1 : ℤ) : ℚ) * 2 ^ (e - 23) :=
      roundTo_multiple (abs_lt.mpr ⟨by omega, by omega⟩) he
    have hround := binary32_mono (binary64_mono hstep)
    rw [hdouble, hsingle] at hround
    have hpos : (0 : ℚ) < 2 ^ (e - 23) := zpow_pos two_pos _
    push_cast at hround
    linarith
  · intro hnear
    have hmiddle : f - 1 ≤ (N + 1 / 2) * 2 ^ (e - 23) := by
      rw [add_mul, hN, hplace]
      linarith
    have hodd : ((N + 1 / 2) * 2 ^ (e - 23) : ℚ) = ((2 * N + 1 : ℤ) : ℚ) * 2 ^ (e - 24) := by
      rw [hplace]
      push_cast
      ring
    have hdouble : binary64 ((N + 1 / 2) * 2 ^ (e - 23) : ℚ) = (N + 1 / 2) * 2 ^ (e - 23) := by
      rw [hodd]
      exact roundTo_multiple (abs_lt.mpr ⟨by omega, by omega⟩) (by omega)
    have hsize : |(N + 1 / 2 : ℚ)| = -N - 1 / 2 := by
      have hcast : (N : ℚ) ≤ -8388610 := by exact_mod_cast hmost
      rw [abs_of_nonpos (by linarith)]
      ring
    have hsingle : binary32 ((N + 1 / 2) * 2 ^ (e - 23) : ℚ) = N * 2 ^ (e - 23) := by
      refine roundTo_middle heven ?_ ?_ he
      · rw [hsize]
        have hcast : (N : ℚ) ≤ -8388610 := by exact_mod_cast hmost
        norm_num
        linarith
      · rw [hsize]
        have hcast : (-16777216 : ℚ) ≤ N := by exact_mod_cast hleast
        norm_num
        linarith
    have hround := binary32_mono (binary64_mono hmiddle)
    rwa [hdouble, hsingle, hN] at hround

end Below

/-- An axis is held where the `float` stays below the next boundary, and for a negative coordinate
where it stays on the boundary itself, up to half of a last place. -/
theorem axisHeld_ieee_iff {x : ℚ} (hlow : -8388608 < boundaryBelow x) (hhigh : boundaryBelow x < 8388608) :
    AxisHeld .ieee x ↔ if 0 ≤ boundaryBelow x then nearestFloat x < boundaryBelow x + 1
      else nearestFloat x ≤ boundaryBelow x + halfPlace (boundaryBelow x) := by
  have hfloat : binary32 (nearestFloat x) = nearestFloat x := binary32_idem _
  have hwhole (m : ℤ) (hleast : -16777216 < m) (hmost : m < 16777216) : binary32 (m : ℚ) = m :=
    binary32_intCast (abs_lt.mpr ⟨by omega, by omega⟩)
  have hfloor : (boundaryBelow x : ℚ) ≤ nearestFloat x := by
    have hround := binary32_mono (Int.floor_le (binary64 (x / visualVoxelSize)))
    rwa [hwhole _ (by unfold boundaryBelow at hlow; omega) (by unfold boundaryBelow at hhigh; omega)]
      at hround
  have hceil : nearestFloat x ≤ boundaryBelow x + 1 := by
    have hround := binary32_mono (Int.lt_floor_add_one (binary64 (x / visualVoxelSize))).le
    have hcast := hwhole (boundaryBelow x + 1) (by omega) (by omega)
    push_cast at hcast
    exact hround.trans_eq hcast
  show (0 ≤ nearestFloat x ∧ (boundaryBelow x : ℚ) ≤ nearestFloat x ∧
      nearestFloat x < boundaryBelow x + 1 ∨ nearestFloat x < 0 ∧
        (boundaryBelow x : ℚ) - 1 < binary32 (binary64 (nearestFloat x - 1)) + 1 ∧
          binary32 (binary64 (nearestFloat x - 1)) ≤ boundaryBelow x - 1) ∧
      -2147483648 < boundaryBelow x ∧ boundaryBelow x < 2147483648 ↔ _
  have hrange : -2147483648 < boundaryBelow x ∧ boundaryBelow x < 2147483648 := by omega
  rw [and_iff_left hrange]
  generalize nearestFloat x = f at hfloat hfloor hceil ⊢
  generalize boundaryBelow x = n at hlow hhigh hwhole hfloor hceil ⊢
  by_cases hsign : 0 ≤ n
  · have hpos : 0 ≤ f := (Int.cast_nonneg hsign).trans hfloor
    rw [if_pos hsign]
    constructor
    · rintro (⟨-, -, hlt⟩ | ⟨hneg, -⟩)
      · exact hlt
      · exact absurd hneg (not_lt.mpr hpos)
    · exact fun hlt => .inl ⟨hpos, hfloor, hlt⟩
  · have hneg : n < 0 := not_le.mp hsign
    have hdown := rounds_down_iff hneg hlow hfloat
    have hcast : (n : ℚ) + 1 ≤ 0 := by exact_mod_cast hneg
    have hplace : halfPlace n < 1 := by
      obtain ⟨e, N, -, hpow, hhalf, -⟩ := exists_places hneg hlow
      have hbound : (-n : ℚ) ≤ 8388607 := by exact_mod_cast (show -n ≤ 8388607 by omega)
      rw [hhalf, zpow_sub₀ two_ne_zero]
      norm_num
      linarith
    rw [if_neg hsign]
    constructor
    · rintro (⟨hpos, -, hlt⟩ | ⟨-, -, hle⟩)
      · linarith
      · exact hdown.mp hle
    · intro hnear
      have hbelow : ((n - 1 : ℤ) : ℚ) ≤ f - 1 := by
        push_cast
        linarith
      have hround := binary32_mono (binary64_mono hbelow)
      rw [binary64_intCast (abs_lt.mpr ⟨by omega, by omega⟩), hwhole (n - 1) (by omega) (by omega)]
        at hround
      push_cast at hround
      exact .inr ⟨by linarith, by linarith, hdown.mpr hnear⟩

/-- The keys agree exactly where every axis is held. For coordinates within 2 ^ 23 voxels that is
where the `float` keeps the voxel of a coordinate, and a negative one the boundary below: exactly, the
coordinate is not negative, or on a boundary. -/
theorem keysAgree_iff (x : Fin 3 → ℚ) :
    (KeysAgree .ieee x ↔ ∀ j, AxisHeld .ieee (x j)) ∧
    (∀ j, -8388608 < boundaryBelow (x j) → boundaryBelow (x j) < 8388608 →
      (AxisHeld .ieee (x j) ↔
        if 0 ≤ boundaryBelow (x j) then nearestFloat (x j) < boundaryBelow (x j) + 1
        else nearestFloat (x j) ≤ boundaryBelow (x j) + halfPlace (boundaryBelow (x j)))) ∧
    ∀ j, binary64 (x j / visualVoxelSize) = x j / visualVoxelSize →
      binary32 (x j / visualVoxelSize) = x j / visualVoxelSize →
      binary32 (binary64 (x j / visualVoxelSize - 1)) = x j / visualVoxelSize - 1 →
      (AxisHeld .ieee (x j) ↔ (0 ≤ x j ∨ ∃ n : ℤ, x j / visualVoxelSize = n) ∧
        -2147483648 < ⌊x j / visualVoxelSize⌋ ∧ ⌊x j / visualVoxelSize⌋ < 2147483648) := by
  refine ⟨?_, fun j hlow hhigh => axisHeld_ieee_iff hlow hhigh,
    fun j hdouble hsingle hbelow => axisHeld_iff_of_exact hdouble hsingle hbelow⟩
  rw [keysAgree_iff_axes]
  exact forall_congr' fun j => axes_agree_iff .ieee (x j)

/-- A quarter metre below the origin, a point is stored under another key than it is sought. -/
theorem keys_differ : ¬KeysAgree .ieee fun _ => (-1 / 4 : ℚ) := by
  intro h
  obtain ⟨n, hstored, hsought⟩ := keysAgree_iff_axes.mp h 0
  have hkey : toInt64 (locXyz .ieee visualVoxelSize (-1 / 4 : ℚ)) = some (-1) := by decide +kernel
  have hquery : retrieveAxis .ieee (-1 / 4 : ℚ) = some (-2) := by decide +kernel
  rw [hkey] at hstored
  rw [hquery] at hsought
  exact absurd (Option.some.inj (hstored.trans hsought.symm)) (by decide)

end FastLivo.VoxelMap
