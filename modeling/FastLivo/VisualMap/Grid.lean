import Mathlib.Algebra.Order.Floor.Ring
import Mathlib.Algebra.Order.Ring.Cast
import Mathlib.Data.Rat.Floor
import Mathlib.Tactic.Linarith

/-!
# The grid over the image

`initializeVIO` lays a grid of square cells over the image, with one entry of the arrays for each.
The numbers of columns and rows are quotients that are rounded down before `ceil` sees them.
-/

namespace FastLivo.VisualMap

/-- What the grid is made of: the image of the camera, and parameters. -/
structure GridConfig where
  width : ℕ
  height : ℕ
  gridSize : ℤ
  gridNHeight : ℤ
  patchSize : ℕ
  patchPyrimidLevel : ℕ

/-- The members of `VIOManager` that `initializeVIO` leaves. -/
structure Grid where
  width : ℕ
  height : ℕ
  gridSize : ℤ
  gridNWidth : ℤ
  gridNHeight : ℤ
  border : ℤ
deriving DecidableEq

/-- `length` of the arrays. -/
def Grid.length (g : Grid) : ℤ := g.gridNWidth * g.gridNHeight

/-- The border leaves cells to which a whole number of sizes fits only. -/
def Grid.Fits (g : Grid) : Prop :=
  (g.width : ℤ) ≤ 2 * g.border ∨ (g.height : ℤ) ≤ 2 * g.border ∨
    ((g.width : ℤ) % g.gridSize ≤ g.border ∧ (g.height : ℤ) % g.gridSize ≤ g.border ∧
      (0 < g.gridSize ∨ -g.gridSize ≤ g.border ∨ (g.width : ℤ) / -g.gridSize = 1))

/-- `ceil(static_cast<double>(size / grid_size))`: the division is one of integers. -/
def cells (size : ℕ) (gridSize : ℤ) : ℤ := ⌈((Int.tdiv size gridSize : ℤ) : ℚ)⌉

/-- A border and a number of cells that an `int` holds. -/
def Grid.InRange (g : Grid) : Prop :=
  g.border < 2147483648 ∧ -2147483648 ≤ g.length ∧ g.length < 2147483648

instance decidableInRange (g : Grid) : Decidable g.InRange :=
  inferInstanceAs (Decidable (_ ∧ _ ∧ _))

/-- `initializeVIO`, as far as the grid goes, unless it divides by zero or overflows. -/
def initializeVIO (cfg : GridConfig) : Option Grid :=
  let patchSizeHalf := cfg.patchSize / 2
  let border : ℤ := (patchSizeHalf + 1) * (2 ^ cfg.patchPyrimidLevel : ℕ)
  let grid (gridSize : ℤ) : Grid := ⟨cfg.width, cfg.height, gridSize, cells cfg.width gridSize,
    cells cfg.height gridSize, border⟩
  if 10 < cfg.gridSize then
    if (grid cfg.gridSize).InRange then some (grid cfg.gridSize) else none
  else if cfg.gridNHeight = 0 then none
  else
    let gridSize := Int.tdiv cfg.height cfg.gridNHeight
    if gridSize = 0 then none
    else if (grid gridSize).InRange then some (grid gridSize) else none

section Pixels

variable {K : Type*} [Field K] [LinearOrder K] [FloorRing K]

/-- Conversion to `int`. -/
def truncate (x : K) : ℤ := if 0 ≤ x then ⌊x⌋ else ⌈x⌉

/-- `isInFrame(pc.cast<int>(), border)`. -/
def Grid.InFrame (g : Grid) (pc : K × K) : Prop :=
  (g.border ≤ truncate pc.1 ∧ truncate pc.1 < g.width - g.border) ∧
    g.border ≤ truncate pc.2 ∧ truncate pc.2 < g.height - g.border

/-- The column and the row of a pixel. -/
def Grid.cell (g : Grid) (pc : K × K) : ℤ × ℤ :=
  (truncate (pc.1 / g.gridSize), truncate (pc.2 / g.gridSize))

/-- `index`, in `retrieveFromVisualSparseMap` and `generateVisualMapPoints`. -/
def Grid.index (g : Grid) (pc : K × K) : ℤ :=
  truncate (pc.2 / g.gridSize) * g.gridNWidth + truncate (pc.1 / g.gridSize)

/-- Every pixel in the frame has an entry, and pixels in different cells have different ones. -/
structure Grid.Sound (g : Grid) (K : Type*) [Field K] [LinearOrder K] [FloorRing K] : Prop where
  inside : ∀ pc : K × K, g.InFrame pc → 0 ≤ g.index pc ∧ g.index pc < g.length
  apart : ∀ pc pc' : K × K, g.InFrame pc → g.InFrame pc' → g.cell pc ≠ g.cell pc' →
    g.index pc ≠ g.index pc'

end Pixels

/-! ## Whole pixels -/

theorem cells_eq (size : ℕ) (gridSize : ℤ) : cells size gridSize = Int.tdiv size gridSize :=
  Int.ceil_intCast _

section Whole

variable {K : Type*} [Field K] [LinearOrder K] [IsStrictOrderedRing K] [FloorRing K]

omit [IsStrictOrderedRing K] in
theorem truncate_of_nonneg {x : K} (hx : 0 ≤ x) : truncate x = ⌊x⌋ := if_pos hx

@[simp] theorem truncate_intCast (n : ℤ) : truncate (n : K) = n := by
  unfold truncate
  rw [Int.floor_intCast, Int.ceil_intCast, ite_self]

omit [IsStrictOrderedRing K] in
theorem nonneg_of_truncate {x : K} {n : ℤ} (hn : 0 < n) (h : n ≤ truncate x) : 0 ≤ x := by
  by_contra hneg
  have hceil : truncate x = ⌈x⌉ := if_neg hneg
  have hle : ⌈x⌉ ≤ 0 := Int.ceil_le.mpr (by
    rw [Int.cast_zero]
    exact (not_le.mp hneg).le)
  omega

/-- The cell of a pixel is that of the whole pixel. -/
theorem truncate_div {x : K} (hx : 0 ≤ x) (g : ℤ) :
    truncate (x / g) = (truncate x).tdiv g := by
  rw [truncate_of_nonneg hx]
  have hfloor : 0 ≤ ⌊x⌋ := Int.floor_nonneg.mpr hx
  rcases lt_trichotomy g 0 with hg | rfl | hg
  · obtain ⟨a, rfl⟩ : ∃ a : ℤ, g = -a := ⟨-g, (neg_neg g).symm⟩
    have ha : 0 ≤ a := by omega
    have hpos : (0 : K) ≤ x / a := div_nonneg hx (Int.cast_nonneg ha)
    rw [Int.tdiv_neg, Int.tdiv_eq_ediv_of_nonneg hfloor, Int.cast_neg, div_neg,
      ← Int.floor_div_cast_of_nonneg ha]
    unfold truncate
    split
    · rename_i hneg
      have hzero : x / (a : K) = 0 := le_antisymm (neg_nonneg.mp hneg) hpos
      rw [hzero, neg_zero, Int.floor_zero, neg_zero]
    · rw [Int.ceil_neg]
  · rw [Int.cast_zero, div_zero, Int.tdiv_zero]
    exact truncate_of_nonneg (le_refl _) |>.trans Int.floor_zero
  · rw [truncate_of_nonneg (div_nonneg hx (Int.cast_nonneg hg.le)),
      Int.tdiv_eq_ediv_of_nonneg hfloor, Int.floor_div_cast_of_nonneg hg.le]

/-- `isInFrame` of a whole pixel. -/
def Grid.Whole (g : Grid) (u v : ℤ) : Prop :=
  (g.border ≤ u ∧ u < g.width - g.border) ∧ g.border ≤ v ∧ v < g.height - g.border

theorem Grid.inFrame_intCast (g : Grid) (u v : ℤ) :
    g.InFrame ((u : K), (v : K)) ↔ g.Whole u v := by
  unfold Grid.InFrame Grid.Whole
  rw [truncate_intCast, truncate_intCast]

theorem Grid.cell_eq {g : Grid} (hb : 0 < g.border) {pc : K × K} (h : g.InFrame pc) :
    g.cell pc = ((truncate pc.1).tdiv g.gridSize, (truncate pc.2).tdiv g.gridSize) := by
  unfold Grid.cell
  rw [truncate_div (nonneg_of_truncate hb h.1.1), truncate_div (nonneg_of_truncate hb h.2.1)]

omit [IsStrictOrderedRing K] in
theorem Grid.index_eq (g : Grid) (pc : K × K) :
    g.index pc = (g.cell pc).2 * g.gridNWidth + (g.cell pc).1 := rfl

/-- The pixels of the frame are as good as the whole ones. -/
theorem Grid.sound_iff_whole {g : Grid} (hb : 0 < g.border) :
    g.Sound K ↔
      (∀ u v, g.Whole u v → 0 ≤ v.tdiv g.gridSize * g.gridNWidth + u.tdiv g.gridSize ∧
        v.tdiv g.gridSize * g.gridNWidth + u.tdiv g.gridSize < g.length) ∧
      ∀ u v u' v', g.Whole u v → g.Whole u' v' →
        v.tdiv g.gridSize * g.gridNWidth + u.tdiv g.gridSize =
          v'.tdiv g.gridSize * g.gridNWidth + u'.tdiv g.gridSize →
        u.tdiv g.gridSize = u'.tdiv g.gridSize ∧ v.tdiv g.gridSize = v'.tdiv g.gridSize := by
  have hcell : ∀ u v : ℤ, g.Whole u v →
      g.cell ((u : K), (v : K)) = (u.tdiv g.gridSize, v.tdiv g.gridSize) := by
    intro u v h
    rw [Grid.cell_eq hb ((g.inFrame_intCast u v).mpr h), truncate_intCast, truncate_intCast]
  constructor
  · intro hs
    constructor
    · intro u v h
      have hin := hs.inside _ ((g.inFrame_intCast (K := K) u v).mpr h)
      rwa [Grid.index_eq, hcell u v h] at hin
    · intro u v u' v' h h' he
      by_contra hne
      apply hs.apart _ _ ((g.inFrame_intCast (K := K) u v).mpr h)
        ((g.inFrame_intCast (K := K) u' v').mpr h')
      · rw [hcell u v h, hcell u' v' h']
        exact fun heq => hne (Prod.mk.inj heq)
      · rw [Grid.index_eq, Grid.index_eq, hcell u v h, hcell u' v' h']
        exact he
  · intro ⟨hin, hap⟩
    constructor
    · intro pc h
      rw [Grid.index_eq, Grid.cell_eq hb h]
      exact hin _ _ h
    · intro pc pc' h h' hne he
      rw [Grid.index_eq, Grid.index_eq, Grid.cell_eq hb h, Grid.cell_eq hb h'] at he
      rw [Grid.cell_eq hb h, Grid.cell_eq hb h'] at hne
      obtain ⟨hu, hv⟩ := hap _ _ _ _ h h' he
      exact hne (Prod.ext hu hv)

end Whole

/-! ## Which grids fit -/

/-- What `initializeVIO` computes. -/
structure Grid.Initialized (g : Grid) : Prop where
  border_pos : 0 < g.border
  size_ne : g.gridSize ≠ 0
  width_eq : g.gridNWidth = (g.width : ℤ).tdiv g.gridSize
  height_eq : g.gridNHeight = (g.height : ℤ).tdiv g.gridSize

theorem initializeVIO_eq {cfg : GridConfig} {g : Grid} (h : initializeVIO cfg = some g) :
    ∃ gridSize : ℤ, gridSize ≠ 0 ∧ g = ⟨cfg.width, cfg.height, gridSize, cells cfg.width gridSize,
      cells cfg.height gridSize, (↑(cfg.patchSize / 2) + 1) * (2 ^ cfg.patchPyrimidLevel : ℕ)⟩ := by
  unfold initializeVIO at h
  dsimp only at h
  split at h
  · rename_i hsize
    obtain ⟨-, heq⟩ := Option.ite_none_right_eq_some.mp h
    exact ⟨cfg.gridSize, fun h0 => by omega, (Option.some.inj heq).symm⟩
  · split at h
    · cases h
    · split at h
      · cases h
      · rename_i hne
        obtain ⟨-, heq⟩ := Option.ite_none_right_eq_some.mp h
        exact ⟨_, hne, (Option.some.inj heq).symm⟩

theorem initializeVIO_spec {cfg : GridConfig} {g : Grid} (h : initializeVIO cfg = some g) :
    g.Initialized := by
  have hborder : (0 : ℤ) < (↑(cfg.patchSize / 2) + 1) * (2 ^ cfg.patchPyrimidLevel : ℕ) := by
    apply mul_pos
    · omega
    · exact Int.natCast_pos.mpr (Nat.two_pow_pos _)
  obtain ⟨gridSize, hne, rfl⟩ := initializeVIO_eq h
  exact ⟨hborder, hne, cells_eq _ _, cells_eq _ _⟩

theorem initializeVIO_border {cfg : GridConfig} {g : Grid} (h : initializeVIO cfg = some g) :
    g.border = (↑(cfg.patchSize / 2) + 1) * (2 ^ cfg.patchPyrimidLevel : ℕ) := by
  obtain ⟨gridSize, -, rfl⟩ := initializeVIO_eq h
  rfl

/-- The cells before the border are the whole ones, where what is left over is no wider. -/
theorem div_lt_div_of_mod_le {n size a b : ℤ} (ha : 0 < a) (hmod : size % a ≤ b)
    (hn : n < size - b) : n / a < size / a := by
  rw [Int.ediv_lt_iff_lt_mul ha]
  have hsplit := Int.mul_ediv_add_emod size a
  rw [Int.mul_comm] at hsplit
  omega

theorem div_eq_of_lt_mod {n size a b : ℤ} (ha : 0 < a) (hmod : b < size % a)
    (hn : n = size - b - 1) (hb : 0 ≤ b) : n / a = size / a := by
  have hsplit := Int.mul_ediv_add_emod size a
  have hlt := Int.emod_lt_of_pos size ha
  rw [Int.ediv_eq_iff_of_pos ha]
  constructor
  · rw [Int.mul_comm] at hsplit
    omega
  · rw [Int.mul_comm] at hsplit
    omega

theorem rowMajor_lt {r c rows cols : ℤ} (hr : r < rows) (hc : c < cols) (hc0 : 0 ≤ c) :
    r * cols + c < cols * rows := by
  have hle : (r + 1) * cols ≤ rows * cols :=
    Int.mul_le_mul_of_nonneg_right (Int.add_one_le_iff.mpr hr) (hc0.trans hc.le)
  rw [Int.add_mul, Int.one_mul] at hle
  rw [Int.mul_comm cols]
  omega

theorem rowMajor_inj {r c r' c' cols : ℤ} (hc0 : 0 ≤ c) (hc : c < cols) (hc0' : 0 ≤ c')
    (hc' : c' < cols) (h : r * cols + c = r' * cols + c') : c = c' ∧ r = r' := by
  have hmod : c = c' := by
    have hm := congrArg (· % cols) h
    rwa [Int.add_comm, Int.add_mul_emod_self_right, Int.add_comm, Int.add_mul_emod_self_right,
      Int.emod_eq_of_lt hc0 hc, Int.emod_eq_of_lt hc0' hc'] at hm
  refine ⟨hmod, Int.eq_of_mul_eq_mul_right (a := cols) ?_ ?_⟩
  · omega
  · omega

/-- The pixels within the border of an image, numbered by their cells: every one has an entry, and
those in different cells have different ones. -/
structure Numbered (W H b a : ℤ) (index : ℤ → ℤ → ℤ) : Prop where
  inside : ∀ u v, b ≤ u → u < W - b → b ≤ v → v < H - b →
    0 ≤ index u v ∧ index u v < W / a * (H / a)
  apart : ∀ u v u' v', b ≤ u → u < W - b → b ≤ v → v < H - b → b ≤ u' → u' < W - b → b ≤ v' →
    v' < H - b → index u v = index u' v' → u / a = u' / a ∧ v / a = v' / a

section Counts

variable {W H b a : ℤ}

theorem column_lt (ha : 0 < a) (hb : 0 < b) (hcol : W % a ≤ b) {u : ℤ} (hu : b ≤ u)
    (hu' : u < W - b) : 0 ≤ u / a ∧ u / a < W / a :=
  ⟨Int.ediv_nonneg (by omega) ha.le, div_lt_div_of_mod_le ha hcol hu'⟩

/-! ### Columns that are numbered upwards -/

/-- The last rows must be whole, or be covered by the border. -/
theorem Numbered.rows_upward (ha : 0 < a) (hb : 0 < b) (hW : 2 * b < W) (hH : 2 * b < H)
    (h : Numbered W H b a fun u v => v / a * (W / a) + u / a) : H % a ≤ b := by
  by_contra hlt
  have hrow : (H - b - 1) / a = H / a := div_eq_of_lt_mod ha (not_le.mp hlt) rfl hb.le
  have hlast : (H - b - 1) / a * (W / a) + b / a < W / a * (H / a) :=
    (h.inside b (H - b - 1) le_rfl (by omega) (by omega) (by omega)).2
  have hcol : 0 ≤ b / a := Int.ediv_nonneg hb.le ha.le
  rw [hrow, Int.mul_comm] at hlast
  omega

/-- Otherwise the pixels past the last column belong to the next row. -/
theorem Numbered.columns_upward (ha : 0 < a) (hb : 0 < b) (hW : 2 * b < W) (hH : 2 * b < H)
    (h : Numbered W H b a fun u v => v / a * (W / a) + u / a) : W % a ≤ b := by
  have hcols : 0 ≤ W / a := Int.ediv_nonneg (by omega) ha.le
  by_contra hlt
  have hba : b < a := (not_le.mp hlt).trans (Int.emod_lt_of_pos W ha)
  have hcol : (W - b - 1) / a = W / a := div_eq_of_lt_mod ha (not_le.mp hlt) rfl hb.le
  have hzero : b / a = 0 := Int.ediv_eq_zero_of_lt hb.le hba
  have hone : a / a = 1 := Int.ediv_self ha.ne'
  have hrow : 0 ≤ (H - b - 1) / a := Int.ediv_nonneg (by omega) ha.le
  have hlast : (H - b - 1) / a * (W / a) + (W - b - 1) / a < W / a * (H / a) :=
    (h.inside (W - b - 1) (H - b - 1) (by omega) (by omega) (by omega) (by omega)).2
  rw [hcol] at hlast
  have hpos : 0 < W / a := by
    rcases hcols.lt_or_eq with h | h
    · exact h
    · rw [← h] at hlast
      omega
  have htwo : (1 + 1) * a ≤ H := by
    have hmul : ((H - b - 1) / a + 1) * (W / a) < H / a * (W / a) := by
      rw [Int.add_mul, Int.one_mul, Int.mul_comm (H / a)]
      exact hlast
    have hlt' := lt_of_mul_lt_mul_right hmul hcols
    rw [← Int.le_ediv_iff_mul_le ha]
    omega
  have hsame := h.apart (W - b - 1) b b a (by omega) (by omega) le_rfl (by omega) le_rfl (by omega)
    hba.le (by omega) (by
      rw [hcol, hzero, hone]
      omega)
  rw [hzero, hone] at hsame
  omega

theorem numbered_upward (ha : 0 < a) (hb : 0 < b) (hW : 2 * b < W) (hcol : W % a ≤ b)
    (hrow : H % a ≤ b) : Numbered W H b a fun u v => v / a * (W / a) + u / a := by
  have hcols : 0 ≤ W / a := Int.ediv_nonneg (by omega) ha.le
  constructor
  · intro u v hu hu' hv hv'
    have hv0 : 0 ≤ v / a := Int.ediv_nonneg (by omega) ha.le
    obtain ⟨hu0, hlast⟩ := column_lt ha hb hcol hu hu'
    constructor
    · exact Int.add_nonneg (Int.mul_nonneg hv0 hcols) hu0
    · exact rowMajor_lt (div_lt_div_of_mod_le ha hrow hv') hlast hu0
  · intro u v u' v' h1 h2 _ _ h3 h4 _ _ he
    obtain ⟨hu0, hu⟩ := column_lt ha hb hcol h1 h2
    obtain ⟨hu0', hu'⟩ := column_lt ha hb hcol h3 h4
    exact rowMajor_inj hu0 hu hu0' hu' he

/-! ### Columns that are numbered downwards -/

/-- Where the border leaves pixels of the first column, there is one column, and whole rows. -/
theorem Numbered.narrow_downward (ha : 0 < a) (hb : 0 < b) (hW : 2 * b < W) (hH : 2 * b < H)
    (hba : b < a) (h : Numbered W H b a fun u v => v / a * (W / a) - u / a) :
    W / a = 1 ∧ W % a ≤ b ∧ H % a ≤ b := by
  have hcols : 0 ≤ W / a := Int.ediv_nonneg (by omega) ha.le
  have hzero : b / a = 0 := Int.ediv_eq_zero_of_lt hb.le hba
  have hfirst : 0 ≤ b / a * (W / a) - (W - b - 1) / a ∧
      b / a * (W / a) - (W - b - 1) / a < W / a * (H / a) :=
    h.inside (W - b - 1) b (by omega) (by omega) le_rfl (by omega)
  rw [hzero, Int.zero_mul] at hfirst
  have hpos : 0 < W / a := by
    rcases hcols.lt_or_eq with h | h
    · exact h
    · rw [← h, Int.zero_mul] at hfirst
      omega
  have hnear : W - b - 1 < a := by
    by_contra hge
    have hone : 1 ≤ (W - b - 1) / a := by
      rw [Int.le_ediv_iff_mul_le ha]
      omega
    omega
  have hfar : a ≤ W := by
    have hmul := (Int.le_ediv_iff_mul_le ha).mp (Int.add_one_le_iff.mpr hpos)
    omega
  have hone : W / a = 1 := by
    rw [Int.ediv_eq_iff_of_pos ha]
    omega
  have hmod := Int.mul_ediv_add_emod W a
  rw [hone] at hmod
  refine ⟨hone, by omega, ?_⟩
  by_contra hlt
  have hrow : (H - b - 1) / a = H / a := div_eq_of_lt_mod ha (not_le.mp hlt) rfl hb.le
  have hlast : (H - b - 1) / a * (W / a) - b / a < W / a * (H / a) :=
    (h.inside b (H - b - 1) le_rfl (by omega) (by omega) (by omega)).2
  rw [hrow, hzero, hone] at hlast
  omega

theorem numbered_downward (ha : 0 < a) (hb : 0 < b) (hW : 2 * b < W) (hcol : W % a ≤ b)
    (hrow : H % a ≤ b) (hcase : a ≤ b ∨ W / a = 1) :
    Numbered W H b a fun u v => v / a * (W / a) - u / a := by
  have hcols : 0 ≤ W / a := Int.ediv_nonneg (by omega) ha.le
  constructor
  · intro u v hu hu' hv hv'
    obtain ⟨hu0, hlast⟩ := column_lt ha hb hcol hu hu'
    have hv0 : 0 ≤ v / a := Int.ediv_nonneg (by omega) ha.le
    have hlength := rowMajor_lt (div_lt_div_of_mod_le ha hrow hv') hlast hu0
    refine ⟨?_, by omega⟩
    rcases hcase with hba | hone
    · have hv1 : 1 ≤ v / a := by
        rw [Int.le_ediv_iff_mul_le ha]
        omega
      have hmul : 1 * (W / a) ≤ v / a * (W / a) := Int.mul_le_mul_of_nonneg_right hv1 hcols
      omega
    · rw [hone, Int.mul_one]
      omega
  · intro u v u' v' h1 h2 _ _ h3 h4 _ _ he
    obtain ⟨hu0, hu⟩ := column_lt ha hb hcol h1 h2
    obtain ⟨hu0', hu'⟩ := column_lt ha hb hcol h3 h4
    have hback : u / a = u' / a ∧ v' / a = v / a := rowMajor_inj hu0 hu hu0' hu' (by omega)
    exact ⟨hback.1, hback.2.symm⟩

end Counts

/-! ### The grid of an image -/

section Image

variable {K : Type*} [Field K] [LinearOrder K] [IsStrictOrderedRing K] [FloorRing K] {g : Grid}

/-- A grid is sound if its entries number the pixels within the border. -/
theorem Grid.sound_iff_numbered (hb : 0 < g.border) {a : ℤ} (index : ℤ → ℤ → ℤ)
    (hlength : g.length = (g.width : ℤ) / a * ((g.height : ℤ) / a))
    (hcell : ∀ u u', g.border ≤ u → g.border ≤ u' →
      (u.tdiv g.gridSize = u'.tdiv g.gridSize ↔ u / a = u' / a))
    (hindex : ∀ u v, g.border ≤ u → g.border ≤ v →
      v.tdiv g.gridSize * g.gridNWidth + u.tdiv g.gridSize = index u v) :
    g.Sound K ↔ Numbered g.width g.height g.border a index := by
  rw [Grid.sound_iff_whole hb, hlength]
  constructor
  · intro ⟨hin, hap⟩
    constructor
    · intro u v hu hu' hv hv'
      rw [← hindex u v hu hv]
      exact hin u v ⟨⟨hu, hu'⟩, hv, hv'⟩
    · intro u v u' v' hu hu2 hv hv2 hu' hu2' hv' hv2' he
      rw [← hindex u v hu hv, ← hindex u' v' hu' hv'] at he
      rw [← hcell u u' hu hu', ← hcell v v' hv hv']
      exact hap u v u' v' ⟨⟨hu, hu2⟩, hv, hv2⟩ ⟨⟨hu', hu2'⟩, hv', hv2'⟩ he
  · intro hn
    constructor
    · intro u v ⟨⟨hu, hu'⟩, hv, hv'⟩
      rw [hindex u v hu hv]
      exact hn.inside u v hu hu' hv hv'
    · intro u v u' v' ⟨⟨hu, hu2⟩, hv, hv2⟩ ⟨⟨hu', hu2'⟩, hv', hv2'⟩ he
      rw [hindex u v hu hv, hindex u' v' hu' hv'] at he
      rw [hcell u u' hu hu', hcell v v' hv hv']
      exact hn.apart u v u' v' hu hu2 hv hv2 hu' hu2' hv' hv2' he

theorem Grid.Initialized.sound_iff_of_pos (hg : g.Initialized) (hW : 2 * g.border < g.width)
    (hH : 2 * g.border < g.height) (hs : 0 < g.gridSize) :
    g.Sound K ↔ (g.width : ℤ) % g.gridSize ≤ g.border ∧ (g.height : ℤ) % g.gridSize ≤ g.border := by
  have hb := hg.border_pos
  have hdiv : ∀ n : ℤ, 0 ≤ n → n.tdiv g.gridSize = n / g.gridSize :=
    fun n hn => Int.tdiv_eq_ediv_of_nonneg hn
  have hwidth := hg.width_eq.trans (hdiv _ (Int.natCast_nonneg g.width))
  have hheight := hg.height_eq.trans (hdiv _ (Int.natCast_nonneg g.height))
  have hsound := Grid.sound_iff_numbered (K := K) hb
    (fun u v => v / g.gridSize * ((g.width : ℤ) / g.gridSize) + u / g.gridSize)
    (congrArg₂ (· * ·) hwidth hheight)
    (fun u u' hu hu' => by rw [hdiv u (by omega), hdiv u' (by omega)])
    (fun u v hu hv => by rw [hdiv u (by omega), hdiv v (by omega), hwidth])
  rw [hsound]
  constructor
  · intro h
    exact ⟨h.columns_upward hs hb hW hH, h.rows_upward hs hb hW hH⟩
  · intro ⟨hcol, hrow⟩
    exact numbered_upward hs hb hW hcol hrow

theorem Grid.Initialized.sound_iff_of_neg (hg : g.Initialized) (hW : 2 * g.border < g.width)
    (hH : 2 * g.border < g.height) (hs : g.gridSize < 0) :
    g.Sound K ↔ (g.width : ℤ) % g.gridSize ≤ g.border ∧ (g.height : ℤ) % g.gridSize ≤ g.border ∧
      (-g.gridSize ≤ g.border ∨ (g.width : ℤ) / -g.gridSize = 1) := by
  have hb := hg.border_pos
  obtain ⟨a, ha⟩ : ∃ a, g.gridSize = -a := ⟨-g.gridSize, (neg_neg _).symm⟩
  have hpos : 0 < a := by omega
  have hdiv : ∀ n : ℤ, 0 ≤ n → n.tdiv g.gridSize = -(n / a) := by
    intro n hn
    rw [ha, Int.tdiv_neg, Int.tdiv_eq_ediv_of_nonneg hn]
  have hwidth := hg.width_eq.trans (hdiv _ (Int.natCast_nonneg g.width))
  have hheight := hg.height_eq.trans (hdiv _ (Int.natCast_nonneg g.height))
  have hlength : g.length = (g.width : ℤ) / a * ((g.height : ℤ) / a) := by
    unfold Grid.length
    rw [hwidth, hheight, neg_mul_neg]
  have hsound := Grid.sound_iff_numbered (K := K) hb
    (fun u v => v / a * ((g.width : ℤ) / a) - u / a) hlength
    (fun u u' hu hu' => by rw [hdiv u (by omega), hdiv u' (by omega), neg_inj])
    (fun u v hu hv => by
      rw [hdiv u (by omega), hdiv v (by omega), hwidth, neg_mul_neg, Int.sub_eq_add_neg])
  rw [hsound, ha, neg_neg, Int.emod_neg, Int.emod_neg]
  constructor
  · intro h
    rcases le_or_gt a g.border with hle | hlt
    · have hmW := Int.emod_lt_of_pos (g.width : ℤ) hpos
      have hmH := Int.emod_lt_of_pos (g.height : ℤ) hpos
      exact ⟨by omega, by omega, Or.inl hle⟩
    · obtain ⟨hone, hcol, hrow⟩ := h.narrow_downward hpos hb hW hH hlt
      exact ⟨hcol, hrow, Or.inr hone⟩
  · intro ⟨hcol, hrow, hcase⟩
    exact numbered_downward hpos hb hW hcol hrow hcase

end Image

/-- Where no pixel passes the test there is nothing to show. -/
theorem Grid.sound_of_small {K : Type*} [Field K] [LinearOrder K] [FloorRing K] {g : Grid}
    (h : (g.width : ℤ) ≤ 2 * g.border ∨ (g.height : ℤ) ≤ 2 * g.border) : g.Sound K := by
  have hnone : ∀ pc : K × K, ¬g.InFrame pc := by
    intro pc hin
    obtain ⟨⟨h1, h2⟩, h3, h4⟩ := hin
    omega
  constructor
  · intro pc hin
    exact absurd hin (hnone pc)
  · intro pc pc' hin
    exact absurd hin (hnone pc)

/-- A grid that `initializeVIO` accepts indexes the pixels of the frame if and only if it fits. -/
theorem grid_sound_iff {K : Type*} [Field K] [LinearOrder K] [IsStrictOrderedRing K] [FloorRing K]
    (cfg : GridConfig) (g : Grid) (h : initializeVIO cfg = some g) : g.Sound K ↔ g.Fits := by
  have hg := initializeVIO_spec h
  have hne := hg.size_ne
  unfold Grid.Fits
  by_cases hsmall : (g.width : ℤ) ≤ 2 * g.border ∨ (g.height : ℤ) ≤ 2 * g.border
  · rw [← or_assoc]
    exact iff_of_true (Grid.sound_of_small hsmall) (Or.inl hsmall)
  · rw [← or_assoc, or_iff_right hsmall]
    rw [not_or, not_le, not_le] at hsmall
    rcases lt_or_gt_of_ne hne with hs | hs
    · rw [hg.sound_iff_of_neg hsmall.1 hsmall.2 hs]
      simp only [hs.le.not_gt, false_or]
    · rw [hg.sound_iff_of_pos hsmall.1 hsmall.2 hs]
      simp only [hs, true_or, and_true]

/-- The camera and the grid of a configuration with an image that fits. -/
theorem grid_sound_iff_fits :
    (⟨640, 512, 30, 21, 17, 80⟩ : Grid).Sound ℚ ↔ (⟨640, 512, 30, 21, 17, 80⟩ : Grid).Fits :=
  grid_sound_iff ⟨640, 512, 5, 17, 8, 4⟩ _ (by decide +kernel)

/-- In 640 columns there are 6 cells of 100, and the pixels to the right of them are counted in the
next row; below the last row there is no entry left. -/
theorem last_row_outside :
    ∃ cfg g, initializeVIO cfg = some g ∧ ∃ pc : ℚ × ℚ, g.InFrame pc ∧ g.length ≤ g.index pc := by
  refine ⟨⟨640, 480, 100, 17, 8, 3⟩, ⟨640, 480, 100, 6, 4, 40⟩, ?_, ((100 : ℤ), (439 : ℤ)), ?_, ?_⟩
  · decide +kernel
  · rw [Grid.inFrame_intCast]
    unfold Grid.Whole
    decide
  · have hin : (⟨640, 480, 100, 6, 4, 40⟩ : Grid).InFrame (((100 : ℤ) : ℚ), ((439 : ℤ) : ℚ)) := by
      rw [Grid.inFrame_intCast]
      unfold Grid.Whole
      decide
    rw [Grid.index_eq, Grid.cell_eq (by decide) hin, truncate_intCast, truncate_intCast]
    decide

end FastLivo.VisualMap
