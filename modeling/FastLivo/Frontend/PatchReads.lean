import FastLivo.Frontend.MeasurementJacobians
import FastLivo.Frontend.WarpCache

/-!
# The pixels that a patch reads

The update reads a window of the image around the projection of a point, in steps of the scale.
The border that the points were chosen with is one of the image, in steps of another scale, and
the projection moves with the state from one iteration to the next.
-/

namespace FastLivo.Frontend

open Lib Esikf Matrix

noncomputable section

/-! ## Places -/

/-- The pixel in a row and a column. -/
def GreyImage.pixel (img : GreyImage) (q : ℤ × ℤ) : ℝ := (img.data (q.1 * img.width + q.2)).toNat

/-- Row and column of a pixel of the image that the pixel `x`, `y` of a patch reads: `d` counts
from it in steps of the scale. -/
def place (scale patchSizeHalf : ℤ) (s : Subpixel) (x y : ℤ) (d : ℤ × ℤ) : ℤ × ℤ :=
  (s.vRefI + x * scale - patchSizeHalf * scale + d.1 * scale,
    s.uRefI - patchSizeHalf * scale + y * scale + d.2 * scale)

/-- The steps of the bilinear value. -/
def valueSteps : List (ℤ × ℤ) := [(0, 0), (0, 1), (1, 0), (1, 1)]

/-- The steps of the bilinear value, of `du` and of `dv`. -/
def gradientSteps : List (ℤ × ℤ) :=
  valueSteps ++ [(0, -1), (0, 2), (1, -1), (1, 2), (-1, 0), (-1, 1), (2, 0), (2, 1)]

theorem pixelAt_place (img : GreyImage) (scale half : ℤ) (s : Subpixel) (x y : ℤ) (d : ℤ × ℤ)
    {k : ℤ} (hk : k = d.1 * scale * img.width + d.2 * scale) :
    pixelAt img (imgPtr img scale half s x y) k = img.pixel (place scale half s x y d) := by
  have hindex : imgPtr img scale half s x y + k =
      (place scale half s x y d).1 * img.width + (place scale half s x y d).2 := by
    unfold imgPtr place
    rw [hk]
    ring
  unfold pixelAt GreyImage.pixel
  rw [hindex]

section Values

variable (img : GreyImage) (scale half : ℤ) (s : Subpixel) (x y : ℤ)

/-- The bilinear value by rows and columns. -/
theorem curValue_eq : curValue img scale s (imgPtr img scale half s x y) =
    s.wRefTl * img.pixel (place scale half s x y (0, 0)) +
      s.wRefTr * img.pixel (place scale half s x y (0, 1)) +
      s.wRefBl * img.pixel (place scale half s x y (1, 0)) +
      s.wRefBr * img.pixel (place scale half s x y (1, 1)) := by
  unfold curValue
  rw [pixelAt_place img scale half s x y (0, 0) (by ring),
    pixelAt_place img scale half s x y (0, 1) (by ring),
    pixelAt_place img scale half s x y (1, 0) (by ring),
    pixelAt_place img scale half s x y (1, 1) (by ring)]

theorem du_eq : du img scale s (imgPtr img scale half s x y) =
    0.5 * ((s.wRefTl * img.pixel (place scale half s x y (0, 1)) +
        s.wRefTr * img.pixel (place scale half s x y (0, 2)) +
        s.wRefBl * img.pixel (place scale half s x y (1, 1)) +
        s.wRefBr * img.pixel (place scale half s x y (1, 2))) -
      (s.wRefTl * img.pixel (place scale half s x y (0, -1)) +
        s.wRefTr * img.pixel (place scale half s x y (0, 0)) +
        s.wRefBl * img.pixel (place scale half s x y (1, -1)) +
        s.wRefBr * img.pixel (place scale half s x y (1, 0)))) := by
  unfold du
  rw [pixelAt_place img scale half s x y (0, 1) (by ring),
    pixelAt_place img scale half s x y (0, 2) (by ring),
    pixelAt_place img scale half s x y (1, 1) (by ring),
    pixelAt_place img scale half s x y (1, 2) (by ring),
    pixelAt_place img scale half s x y (0, -1) (by ring),
    pixelAt_place img scale half s x y (0, 0) (by ring),
    pixelAt_place img scale half s x y (1, -1) (by ring),
    pixelAt_place img scale half s x y (1, 0) (by ring)]

theorem dv_eq : dv img scale s (imgPtr img scale half s x y) =
    0.5 * ((s.wRefTl * img.pixel (place scale half s x y (1, 0)) +
        s.wRefTr * img.pixel (place scale half s x y (1, 1)) +
        s.wRefBl * img.pixel (place scale half s x y (2, 0)) +
        s.wRefBr * img.pixel (place scale half s x y (2, 1))) -
      (s.wRefTl * img.pixel (place scale half s x y (-1, 0)) +
        s.wRefTr * img.pixel (place scale half s x y (-1, 1)) +
        s.wRefBl * img.pixel (place scale half s x y (0, 0)) +
        s.wRefBr * img.pixel (place scale half s x y (0, 1)))) := by
  unfold dv
  rw [pixelAt_place img scale half s x y (1, 0) (by ring),
    pixelAt_place img scale half s x y (1, 1) (by ring),
    pixelAt_place img scale half s x y (2, 0) (by ring),
    pixelAt_place img scale half s x y (2, 1) (by ring),
    pixelAt_place img scale half s x y (-1, 0) (by ring),
    pixelAt_place img scale half s x y (-1, 1) (by ring),
    pixelAt_place img scale half s x y (0, 0) (by ring),
    pixelAt_place img scale half s x y (0, 1) (by ring)]

end Values

/-- Images that agree on the steps of a pixel give it one gradient. -/
theorem imageGradient_congr {img img' : GreyImage} {scale half : ℤ} {s : Subpixel} {x y : ℤ}
    (h : ∀ d ∈ gradientSteps, img.pixel (place scale half s x y d) =
      img'.pixel (place scale half s x y d)) :
    imageGradient img scale s (imgPtr img scale half s x y) =
      imageGradient img' scale s (imgPtr img' scale half s x y) := by
  unfold imageGradient
  rw [du_eq, dv_eq, du_eq, dv_eq, h (0, 1) (by decide), h (0, 2) (by decide), h (1, 1) (by decide),
    h (1, 2) (by decide), h (0, -1) (by decide), h (0, 0) (by decide), h (1, -1) (by decide),
    h (1, 0) (by decide), h (2, 0) (by decide), h (2, 1) (by decide), h (-1, 0) (by decide),
    h (-1, 1) (by decide)]

theorem curValue_congr {img img' : GreyImage} {scale half : ℤ} {s : Subpixel} {x y : ℤ}
    (h : ∀ d ∈ valueSteps, img.pixel (place scale half s x y d) =
      img'.pixel (place scale half s x y d)) :
    curValue img scale s (imgPtr img scale half s x y) =
      curValue img' scale s (imgPtr img' scale half s x y) := by
  rw [curValue_eq, curValue_eq, h (0, 0) (by decide), h (0, 1) (by decide), h (1, 0) (by decide),
    h (1, 1) (by decide)]

/-! ## Patches -/

/-- The places that a patch around an image point reads. -/
def patchPlaces (steps : List (ℤ × ℤ)) (patchSize : ℕ) (scale : ℤ) (pc : ℝ × ℝ) : Set (ℤ × ℤ) :=
  {q | ∃ x y : ℕ, x < patchSize ∧ y < patchSize ∧ ∃ d ∈ steps,
    q = place scale (patchSize / 2 : ℕ) (subpixel scale pc) x y d}

/-- A row and a column of an image. -/
def Inside (width height : ℤ) (q : ℤ × ℤ) : Prop := (0 ≤ q.1 ∧ q.1 < height) ∧ 0 ≤ q.2 ∧ q.2 < width

/-- From the projection, rounded to `float` and down to the scale, the patch and the steps around it
stay within the size. -/
def Window (before behind : ℤ) (patchSize : ℕ) (scale size : ℤ) (t : ℝ) : Prop :=
  ((patchSize / 2 : ℕ) + before) * scale ≤ ⌊binary32 (t / scale)⌋ * scale ∧
    ⌊binary32 (t / scale)⌋ * scale + (patchSize - (patchSize / 2 : ℕ) - 1 + behind) * scale < size

/-- How far the steps reach, in either direction. -/
structure Spans (steps : List (ℤ × ℤ)) (before behind : ℤ) : Prop where
  le : ∀ d ∈ steps, (-before ≤ d.1 ∧ d.1 ≤ behind) ∧ -before ≤ d.2 ∧ d.2 ≤ behind
  top : ∃ d ∈ steps, d.1 = -before
  bottom : ∃ d ∈ steps, d.1 = behind
  left : ∃ d ∈ steps, d.2 = -before
  right : ∃ d ∈ steps, d.2 = behind

theorem valueSteps_spans : Spans valueSteps 0 1 where
  le := by decide
  top := by decide
  bottom := by decide
  left := by decide
  right := by decide

theorem gradientSteps_spans : Spans gradientSteps 1 2 where
  le := by decide
  top := by decide
  bottom := by decide
  left := by decide
  right := by decide

/-- The pixels of a line and their steps. -/
theorem Window.inside {before behind : ℤ} {patchSize : ℕ} {scale size : ℤ} {t : ℝ}
    (h : Window before behind patchSize scale size t) (hs : 0 < scale) {x : ℕ} (hx : x < patchSize)
    {d : ℤ} (hd : -before ≤ d) (hd' : d ≤ behind) :
    0 ≤ ⌊binary32 (t / scale)⌋ * scale + x * scale - (patchSize / 2 : ℕ) * scale + d * scale ∧
      ⌊binary32 (t / scale)⌋ * scale + x * scale - (patchSize / 2 : ℕ) * scale + d * scale <
        size := by
  obtain ⟨hfirst, hlast⟩ := h
  have hlow : (-((patchSize / 2 : ℕ) : ℤ) - before) * scale ≤ (x - (patchSize / 2 : ℕ) + d) * scale :=
    mul_le_mul_of_nonneg_right (by omega) hs.le
  have hhigh : (x - (patchSize / 2 : ℕ) + d) * scale ≤
      (patchSize - (patchSize / 2 : ℕ) - 1 + behind) * scale :=
    mul_le_mul_of_nonneg_right (by omega) hs.le
  constructor
  · linarith
  · linarith

/-- A patch reads inside the image if and only if its window lies in it. -/
theorem patchPlaces_inside_iff {steps : List (ℤ × ℤ)} {before behind : ℤ}
    (h : Spans steps before behind) {patchSize : ℕ} (hP : 0 < patchSize) {scale : ℤ}
    (hs : 0 < scale) (width height : ℤ) (pc : ℝ × ℝ) :
    (∀ q ∈ patchPlaces steps patchSize scale pc, Inside width height q) ↔
      Window before behind patchSize scale height pc.2 ∧
        Window before behind patchSize scale width pc.1 := by
  have hlast : ((patchSize - 1 : ℕ) : ℤ) = patchSize - 1 := by omega
  constructor
  · intro hin
    -- the outermost steps of the first and of the last pixel
    have hfirst : ∀ d ∈ steps, Inside width height
        (place scale (patchSize / 2 : ℕ) (subpixel scale pc) 0 0 d) :=
      fun d hd => hin _ ⟨0, 0, hP, hP, d, hd, rfl⟩
    have hfinal : ∀ d ∈ steps, Inside width height (place scale (patchSize / 2 : ℕ)
        (subpixel scale pc) (patchSize - 1 : ℕ) (patchSize - 1 : ℕ) d) :=
      fun d hd => hin _ ⟨patchSize - 1, patchSize - 1, by omega, by omega, d, hd, rfl⟩
    obtain ⟨dt, hdt, htop⟩ := h.top
    obtain ⟨db, hdb, hbottom⟩ := h.bottom
    obtain ⟨dl, hdl, hleft⟩ := h.left
    obtain ⟨dr, hdr, hright⟩ := h.right
    have h1 := (hfirst dt hdt).1.1
    have h2 := (hfinal db hdb).1.2
    have h3 := (hfirst dl hdl).2.1
    have h4 := (hfinal dr hdr).2.2
    unfold place subpixel at h1 h2 h3 h4
    dsimp only at h1 h2 h3 h4
    rw [htop] at h1
    rw [hbottom, hlast] at h2
    rw [hleft] at h3
    rw [hright, hlast] at h4
    unfold Window
    refine ⟨⟨?_, ?_⟩, ?_, ?_⟩
    · linarith
    · linarith
    · linarith
    · linarith
  · intro ⟨hrows, hcols⟩ q ⟨x, y, hx, hy, d, hd, hq⟩
    obtain ⟨⟨hd1, hd2⟩, hd3, hd4⟩ := h.le d hd
    have hrow := hrows.inside hs hx hd1 hd2
    have hcol := hcols.inside hs hy hd3 hd4
    rw [hq]
    unfold place subpixel Inside
    dsimp only
    refine ⟨hrow, ?_, ?_⟩
    · linarith [hcol.1]
    · linarith [hcol.2]

/-! ## Iterations -/

variable {C : Carrier}

/-- `pc` of a point in a state. -/
def Photo.projection (cfg : VioConfig) (ph : Photo) (state : ExactState C) (pt : TrackedPoint) :
    ℝ × ℝ :=
  ph.cam.world2cam (pointInCamera cfg state pt.pos)

/-- `updateState` reads the gradient and the value at the scale of the level and of the search
level; `updateStateInverse` reads the value in the image and, once for a level, the gradient around
the pixel of the reference feature in its image, both at the scale of the level. -/
def Photo.ReadsInside (cfg : VioConfig) (ph : Photo) (height : ℤ) (p : VioPass C) : Prop :=
  ∀ pt ∈ ph.points,
    if cfg.inverseCompositionEn then
      (∀ q ∈ patchPlaces gradientSteps ph.patchSize (2 ^ p.level) pt.refPatch.px,
        Inside pt.refPatch.img.width height q) ∧
      ∀ q ∈ patchPlaces valueSteps ph.patchSize (2 ^ p.level) (ph.projection cfg p.state pt),
        Inside ph.img.width height q
    else
      ∀ q ∈ patchPlaces gradientSteps ph.patchSize (2 ^ (p.level + pt.searchLevel))
        (ph.projection cfg p.state pt), Inside ph.img.width height q

/-- The projections of an iteration are as far from the edge of the image as the scale asks. -/
def Photo.Clear (cfg : VioConfig) (ph : Photo) (height : ℤ) (p : VioPass C) : Prop :=
  ∀ pt ∈ ph.points,
    if cfg.inverseCompositionEn then
      (Window 1 2 ph.patchSize (2 ^ p.level) height pt.refPatch.px.2 ∧
        Window 1 2 ph.patchSize (2 ^ p.level) pt.refPatch.img.width pt.refPatch.px.1) ∧
      Window 0 1 ph.patchSize (2 ^ p.level) height (ph.projection cfg p.state pt).2 ∧
        Window 0 1 ph.patchSize (2 ^ p.level) ph.img.width (ph.projection cfg p.state pt).1
    else
      Window 1 2 ph.patchSize (2 ^ (p.level + pt.searchLevel)) height
        (ph.projection cfg p.state pt).2 ∧
      Window 1 2 ph.patchSize (2 ^ (p.level + pt.searchLevel)) ph.img.width
        (ph.projection cfg p.state pt).1

theorem Photo.readsInside_iff (cfg : VioConfig) (ph : Photo) (height : ℤ) (p : VioPass C) :
    ph.ReadsInside cfg height p ↔ ph.Clear cfg height p := by
  have hscale : ∀ n : ℕ, (0 : ℤ) < 2 ^ n := fun n => pow_pos two_pos n
  unfold Photo.ReadsInside Photo.Clear
  apply forall₂_congr
  intro pt _
  split
  · rw [patchPlaces_inside_iff gradientSteps_spans ph.patchSize_pos (hscale _),
      patchPlaces_inside_iff valueSteps_spans ph.patchSize_pos (hscale _)]
  · rw [patchPlaces_inside_iff gradientSteps_spans ph.patchSize_pos (hscale _)]

/-- A row of `updateState` depends on no other pixels. -/
theorem updateStatePixel_congr (cfg : VioConfig) (ph : Photo) (level : ℕ) (state : ExactState C)
    (pt : TrackedPoint) {x y : ℕ} (hx : x < ph.patchSize) (hy : y < ph.patchSize) {img : GreyImage}
    (h : ∀ q ∈ patchPlaces gradientSteps ph.patchSize (2 ^ (level + pt.searchLevel))
      (ph.projection cfg state pt), ph.img.pixel q = img.pixel q) :
    updateStatePixel cfg ph level state pt x y =
      updateStatePixel cfg { ph with img := img } level state pt x y := by
  have hplaces : ∀ d ∈ gradientSteps, ph.img.pixel (place (2 ^ (level + pt.searchLevel))
      ph.patchSizeHalf (subpixel (2 ^ (level + pt.searchLevel)) (ph.projection cfg state pt)) x y d) =
      img.pixel (place (2 ^ (level + pt.searchLevel)) ph.patchSizeHalf
        (subpixel (2 ^ (level + pt.searchLevel)) (ph.projection cfg state pt)) x y d) :=
    fun d hd => h _ ⟨x, y, hx, hy, d, hd, rfl⟩
  have hgradient := imageGradient_congr hplaces
  have hvalue := curValue_congr fun d hd => hplaces d (List.mem_append_left _ hd)
  unfold Photo.projection at hgradient hvalue
  unfold updateStatePixel Photo.patchSizeHalf
  dsimp only
  unfold Photo.patchSizeHalf at hgradient hvalue
  rw [hgradient, hvalue]

/-- A residual of `updateStateInverse` depends on no other pixels. -/
theorem inverseResidual_congr (cfg : VioConfig) (ph : Photo) (level : ℕ) (state : ExactState C)
    (pt : TrackedPoint) {x y : ℕ} (hx : x < ph.patchSize) (hy : y < ph.patchSize) {img : GreyImage}
    (h : ∀ q ∈ patchPlaces valueSteps ph.patchSize (2 ^ level) (ph.projection cfg state pt),
      ph.img.pixel q = img.pixel q) :
    inverseResidual cfg ph level state pt x y =
      inverseResidual cfg { ph with img := img } level state pt x y :=
  congrArg (· - pt.warpPatch level x y)
    (curValue_congr fun d hd => h _ ⟨x, y, hx, hy, d, hd, rfl⟩)

/-- A row of `precomputeReferencePatches` depends on no other pixels of the reference image. -/
theorem referencePixel_congr (ph : Photo) (level : ℕ) (pt : TrackedPoint) {x y : ℕ}
    (hx : x < ph.patchSize) (hy : y < ph.patchSize) {img : GreyImage}
    (h : ∀ q ∈ patchPlaces gradientSteps ph.patchSize (2 ^ level) pt.refPatch.px,
      pt.refPatch.img.pixel q = img.pixel q) :
    referencePixel ph level pt x y =
      referencePixel ph level { pt with refPatch := { pt.refPatch with img := img } } x y := by
  have hplaces : ∀ d ∈ gradientSteps, pt.refPatch.img.pixel (place (2 ^ level) ph.patchSizeHalf
      (subpixel (2 ^ level) pt.refPatch.px) x y d) =
      img.pixel (place (2 ^ level) ph.patchSizeHalf (subpixel (2 ^ level) pt.refPatch.px) x y d) :=
    fun d hd => h _ ⟨x, y, hx, hy, d, hd, rfl⟩
  have hgradient := imageGradient_congr hplaces
  unfold referencePixel
  dsimp only
  rw [hgradient]

/-- The iterations of an update. -/
def updatePasses (cfg : VioConfig) (ph : Photo) (statePropagat : ExactState C) (m : VIOManager C) :
    List (VioPass C) :=
  (computeJacobianAndUpdateEKF cfg (ph.frame cfg) statePropagat { m with passes := [] }).passes

/-- In every iteration of an update all the pixels lie in the image if and only if in every
iteration the projections are clear of its edge. -/
theorem reads_inside_iff (cfg : VioConfig) (ph : Photo) (height : ℤ)
    (statePropagat : ExactState C) (m : VIOManager C) :
    (∀ p ∈ updatePasses cfg ph statePropagat m, ph.ReadsInside cfg height p) ↔
      ∀ p ∈ updatePasses cfg ph statePropagat m, ph.Clear cfg height p :=
  forall₂_congr fun p _ => ph.readsInside_iff cfg height p

/-! ## What the border is good for -/

/-- The border keeps a window clear whose scale is below the one that the border is made of. At that
scale itself the rounding to `float` can reach the border. -/
theorem window_of_border {patchSize pyrimid n : ℕ} (heven : patchSize = 2 * (patchSize / 2))
    (hn : n < pyrimid) {t : ℝ} {size : ℤ} (hsize : size < 2 ^ 24)
    (hlow : ((patchSize / 2 : ℕ) + 1) * (2 ^ pyrimid : ℕ) ≤ VisualMap.truncate t)
    (hhigh : VisualMap.truncate t < size - ((patchSize / 2 : ℕ) + 1) * (2 ^ pyrimid : ℕ)) :
    Window 1 2 patchSize (2 ^ n) size t := by
  obtain ⟨half, hhalf⟩ : ∃ half : ℤ, half = (patchSize / 2 : ℕ) := ⟨_, rfl⟩
  have hhalfNonneg : 0 ≤ half := by omega
  unfold Window
  rw [← hhalf] at hlow hhigh ⊢
  have hs : (0 : ℤ) < 2 ^ n := pow_pos two_pos n
  have hsR : (0 : ℝ) < 2 ^ n := pow_pos two_pos n
  have hscale : (half + 1) * 2 ^ n < (half + 1) * ((2 ^ pyrimid : ℕ) : ℤ) := by
    rw [Nat.cast_pow, Nat.cast_ofNat]
    exact mul_lt_mul_of_pos_left (pow_lt_pow_right₀ one_lt_two hn) (by omega)
  have hfits : half + 1 ≤ (half + 1) * 2 ^ n := le_mul_of_one_le_right (by omega) (by omega)
  have hpower : (2 ^ n : ℤ) ≤ (half + 1) * 2 ^ n := le_mul_of_one_le_left hs.le (by omega)
  have hlevel : n ≤ 149 := by
    have hbits : (2 : ℤ) ^ n < 2 ^ 24 := by linarith
    exact ((pow_lt_pow_iff_right₀ one_lt_two).mp hbits).le.trans (by decide)
  have ht : 0 ≤ t := VisualMap.nonneg_of_truncate (by omega) hlow
  rw [VisualMap.truncate_of_nonneg ht] at hlow hhigh
  -- between numbers of the format the rounding keeps its place
  have hfirst : half + 1 ≤ ⌊binary32 (t / 2 ^ n)⌋ := by
    have hexact : binary32 ((half + 1 : ℤ) : ℝ) = (half + 1 : ℤ) :=
      binary32_intCast (abs_lt.mpr ⟨by omega, by omega⟩)
    have hbelow : (((half + 1) * 2 ^ n : ℤ) : ℝ) ≤ t := Int.le_floor.mp (by omega)
    rw [Int.le_floor, ← hexact]
    apply binary32_mono
    rw [le_div_iff₀ hsR]
    exact_mod_cast hbelow
  have hlast : ⌊binary32 (t / 2 ^ n)⌋ * 2 ^ n ≤ size - (half + 1) * ((2 ^ pyrimid : ℕ) : ℤ) := by
    set edge : ℤ := size - (half + 1) * ((2 ^ pyrimid : ℕ) : ℤ)
    have hexact : binary32 ((edge : ℝ) / 2 ^ n) = edge / 2 ^ n :=
      binary32_div_two_pow (abs_lt.mpr ⟨by omega, by omega⟩) hlevel
    have hround : binary32 (t / 2 ^ n) ≤ edge / 2 ^ n := by
      rw [← hexact]
      apply binary32_mono
      exact div_le_div_of_nonneg_right (Int.floor_lt.mp hhigh).le hsR.le
    have hfloor := (Int.floor_le _).trans hround
    rw [le_div_iff₀ hsR] at hfloor
    exact_mod_cast hfloor
  rw [Int.cast_pow, Int.cast_ofNat]
  constructor
  · exact mul_le_mul_of_nonneg_right hfirst hs.le
  · have hbehind : (patchSize : ℤ) - half - 1 + 2 = half + 1 := by omega
    rw [hbehind]
    linarith

/-- Points that pass the test of the border in the state of an iteration are clear at the search
level 0, in an image whose sides a `float` counts. -/
theorem Photo.clear_of_inFrame {cfg : VioConfig} {ph : Photo} {g : VisualMap.Grid}
    {gridCfg : VisualMap.GridConfig} {p : VioPass C} (hinverse : cfg.inverseCompositionEn = false)
    (hg : VisualMap.initializeVIO gridCfg = some g) (hwidth : ph.img.width = g.width)
    (hsides : g.width < 2 ^ 24 ∧ g.height < 2 ^ 24)
    (hpatch : gridCfg.patchSize = ph.patchSize) (heven : ph.patchSize = 2 * (ph.patchSize / 2))
    (hlevel : p.level < gridCfg.patchPyrimidLevel)
    (hpoints : ∀ pt ∈ ph.points, pt.searchLevel = 0 ∧ g.InFrame (ph.projection cfg p.state pt)) :
    ph.Clear cfg g.height p := by
  have hborder := VisualMap.initializeVIO_border hg
  rw [hpatch] at hborder
  intro pt hpt
  obtain ⟨hsearch, ⟨hu, hu'⟩, hv, hv'⟩ := hpoints pt hpt
  rw [hborder] at hu hu' hv hv'
  rw [if_neg (by rw [hinverse]; exact Bool.false_ne_true), hwidth]
  constructor
  · exact window_of_border heven (by omega) (by exact_mod_cast hsides.2) hv hv'
  · exact window_of_border heven (by omega) (by exact_mod_cast hsides.1) hu hu'

/-! ## A point near the border -/

/-- Every iteration is kept in the trace. -/
theorem photometricStep_passes {ι k : Type} [Fintype ι] [Fintype k] (e : k → StateIndex)
    (cfg : VioConfig) (statePropagat : ExactState C) (level : ℕ) (H : ExactState C → Matrix ι k ℝ)
    (z : ExactState C → ι → ℝ) (s : VioLoop C) :
    ∃ accepted, (photometricStep e cfg statePropagat level H z s).passes =
      s.passes ++ [⟨level, s.state, accepted⟩] := by
  unfold photometricStep
  dsimp only
  split
  · exact ⟨true, rfl⟩
  · exact ⟨false, rfl⟩

section Trace

variable {cfg : VioConfig} {f : VioFrame C} (statePropagat : ExactState C)

theorem runLevel_passes {ι k : Type} [Fintype ι] [Fintype k] (e : k → StateIndex) (level : ℕ)
    (H : ExactState C → Matrix ι k ℝ) (z : ExactState C → ι → ℝ) (hmax : 1 ≤ cfg.maxIterations)
    (hpoints : f.totalPoints ≠ 0) (m : VIOManager C) :
    (∀ p ∈ m.passes,
      p ∈ (runLevel cfg f (photometricStep e cfg statePropagat level H z) m).passes) ∧
      ∃ accepted, ⟨level, m.state, accepted⟩ ∈
        (runLevel cfg f (photometricStep e cfg statePropagat level H z) m).passes := by
  obtain ⟨left, hleft⟩ : ∃ left, cfg.maxIterations.toNat = left + 1 :=
    ⟨cfg.maxIterations.toNat - 1, by omega⟩
  unfold runLevel
  rw [if_neg hpoints, hleft]
  apply vioLoop_invariant cfg (photometricStep e cfg statePropagat level H z)
    (I := fun s => (∀ p ∈ m.passes, p ∈ s.passes) ∧
      (s.state = m.state ∨ ∃ accepted, ⟨level, m.state, accepted⟩ ∈ s.passes))
    (J := fun s => (∀ p ∈ m.passes, p ∈ s.passes) ∧
      ∃ accepted, ⟨level, m.state, accepted⟩ ∈ s.passes)
  · intro s ⟨hkept, hfirst⟩
    obtain ⟨accepted, hpasses⟩ := photometricStep_passes e cfg statePropagat level H z s
    rw [hpasses]
    refine ⟨fun p hp => List.mem_append_left _ (hkept p hp), ?_⟩
    rcases hfirst with hstate | ⟨accepted', hmem⟩
    · rw [← hstate]
      exact ⟨accepted, List.mem_append_right _ List.mem_cons_self⟩
    · exact ⟨accepted', List.mem_append_left _ hmem⟩
  · intro s ⟨hkept, hfirst⟩
    exact ⟨hkept, Or.inr hfirst⟩
  · exact ⟨fun p hp => hp, Or.inl rfl⟩

theorem updateLevel_passes (hmax : 1 ≤ cfg.maxIterations) (hpoints : f.totalPoints ≠ 0) (level : ℕ)
    (m : VIOManager C) :
    (∀ p ∈ m.passes, p ∈ (updateLevel cfg f statePropagat level m).passes) ∧
      ∃ accepted, ⟨level, m.state, accepted⟩ ∈
        (updateLevel cfg f statePropagat level m).passes := by
  unfold updateLevel
  split
  · exact runLevel_passes statePropagat _ _ _ _ hmax hpoints m
  · exact runLevel_passes statePropagat _ _ _ _ hmax hpoints m

theorem levelLoop_passes (hmax : 1 ≤ cfg.maxIterations) (hpoints : f.totalPoints ≠ 0) (n : ℕ)
    (m : VIOManager C) :
    ∀ p ∈ m.passes, p ∈ (levelLoop cfg f statePropagat n m).passes := by
  induction n generalizing m with
  | zero => exact fun p hp => hp
  | succ n ih =>
    intro p hp
    exact ih _ p ((updateLevel_passes statePropagat hmax hpoints n m).1 p hp)

/-- The first iteration is one of the coarsest level, in the state that the update starts in. -/
theorem first_pass (hmax : 1 ≤ cfg.maxIterations) {n : ℕ}
    (hlevels : cfg.patchPyrimidLevel = n + 1) {ph : Photo} (hpoints : ph.points ≠ [])
    (m : VIOManager C) :
    ∃ accepted, ⟨n, m.state, accepted⟩ ∈ updatePasses cfg ph statePropagat m := by
  have htotal : (ph.frame cfg : VioFrame C).totalPoints ≠ 0 :=
    fun h => hpoints (List.length_eq_zero_iff.mp h)
  have hn : cfg.patchPyrimidLevel.toNat = n + 1 := by omega
  unfold updatePasses computeJacobianAndUpdateEKF
  rw [if_neg htotal, hn]
  obtain ⟨accepted, hmem⟩ := (updateLevel_passes statePropagat hmax htotal n
    { m with passes := [] }).2
  exact ⟨accepted, levelLoop_passes statePropagat hmax htotal n _ _ hmem⟩

end Trace

/-- A point at the pixel (85, 240), with the greatest search level. -/
def TrackedPoint.nearBorder : TrackedPoint :=
  { TrackedPoint.flat with pos := ![-235, 0, 1], searchLevel := 2 }

/-- A frame with this point and patches of 8 by 8 pixels. -/
def Photo.nearBorder : Photo :=
  { Photo.flat with patchSize := 8, points := [TrackedPoint.nearBorder], patchSize_pos := by decide }

/-- The warp of a point that is four times as near as it was in the reference image. -/
theorem getBestSearchLevel_near : getBestSearchLevel !![4, 0; 0, 4] 2 = 2 := by
  have hdet : (!![4, 0; 0, 4] : Matrix (Fin 2) (Fin 2) ℝ).det = 16 := by
    rw [det_fin_two_of]
    norm_num
  unfold getBestSearchLevel
  rw [hdet]
  unfold searchLevelFrom
  rw [if_pos (by norm_num)]
  unfold searchLevelFrom
  rw [if_pos (by norm_num)]
  rfl

theorem projection_nearBorder :
    Photo.nearBorder.projection VioConfig.sample VIOManager.start.state TrackedPoint.nearBorder =
      (((85 : ℤ) : ℝ), ((240 : ℤ) : ℝ)) := by
  have hpos : posOf VIOManager.start.state = 0 := rfl
  have hrot : rotOf VIOManager.start.state = 1 := rfl
  have hrci : VioConfig.sample.rci = 1 := rfl
  have hpci : VioConfig.sample.pci = 0 := rfl
  unfold Photo.projection
  rw [pointInCamera_eq, hpos, hrot, hrci, hpci, sub_zero, transpose_one, one_mulVec, one_mulVec,
    add_zero]
  show ((-235 / 1 + 320.0 : ℝ), (0 / 1 + 240.0 : ℝ)) = _
  norm_num

/-- The points pass the test of the border in the state that the update starts in, and their search
levels are ones that warps have; the first iteration reads pixels to the left of the image. -/
theorem reads_left_of_image :
    ∃ gridCfg, ∃ g : VisualMap.Grid, ∃ ph, ∃ m : VIOManager Carrier.trivial,
      VisualMap.initializeVIO gridCfg = some g ∧ gridCfg.patchSize = ph.patchSize ∧
      (gridCfg.patchPyrimidLevel : ℤ) = VioConfig.sample.patchPyrimidLevel ∧
      ph.img.width = (g.width : ℤ) ∧
      (∀ pt ∈ ph.points, g.InFrame (ph.projection VioConfig.sample m.state pt) ∧
        ∃ A, pt.searchLevel = getBestSearchLevel A 2) ∧
      ¬∀ p ∈ updatePasses VioConfig.sample ph m.state m,
        ph.ReadsInside VioConfig.sample g.height p := by
  refine ⟨⟨640, 480, 5, 17, 8, 4⟩, ⟨640, 480, 28, 22, 17, 80⟩, Photo.nearBorder, VIOManager.start,
    by decide +kernel, rfl, rfl, rfl, ?_, ?_⟩
  · intro pt hpt
    rw [List.mem_singleton.mp hpt]
    refine ⟨?_, !![4, 0; 0, 4], getBestSearchLevel_near.symm⟩
    rw [projection_nearBorder, VisualMap.Grid.inFrame_intCast]
    unfold VisualMap.Grid.Whole
    decide
  · intro hin
    obtain ⟨accepted, hfirst⟩ : ∃ accepted, ⟨3, VIOManager.start.state, accepted⟩ ∈
        updatePasses VioConfig.sample Photo.nearBorder VIOManager.start.state VIOManager.start :=
      first_pass _ (by decide) rfl (List.cons_ne_nil _ _) _
    have hclear := (Photo.readsInside_iff _ _ _ _).mp (hin _ hfirst) _ List.mem_cons_self
    have hforward : ¬VioConfig.sample.inverseCompositionEn = true := Bool.false_ne_true
    rw [if_neg hforward, projection_nearBorder] at hclear
    have hlow : (((8 / 2 : ℕ) : ℤ) + 1) * 2 ^ (3 + 2) ≤
        ⌊binary32 (((85 : ℤ) : ℝ) / ((2 ^ (3 + 2) : ℤ) : ℝ))⌋ * 2 ^ (3 + 2) := hclear.2.1
    have hexact : binary32 (((85 : ℤ) : ℝ) / 2 ^ 5) = ((85 : ℤ) : ℝ) / 2 ^ 5 :=
      binary32_div_two_pow (by decide) (by decide)
    have hfloor : ⌊binary32 (((85 : ℤ) : ℝ) / ((2 ^ (3 + 2) : ℤ) : ℝ))⌋ = 2 := by
      have hscale : ((2 ^ (3 + 2) : ℤ) : ℝ) = 2 ^ 5 := by norm_num
      rw [hscale, hexact, Int.floor_eq_iff]
      norm_num
    rw [hfloor] at hlow
    omega

end

end FastLivo.Frontend
