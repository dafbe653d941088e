import FastLivo.Frontend.Vio
import FastLivo.Lib.Binary

/-!
# Pixels of the photometric update

What `updateState`, `precomputeReferencePatches` and `updateStateInverse` compute for a pixel of
a patch: the bilinear value, the image gradient and the row of the jacobian. The camera is a
parameter.
-/

namespace FastLivo.Frontend

open Lib Esikf Matrix

noncomputable section

/-! ## Camera and image -/

/-- `vk::AbstractCamera`: the bearing of an image point is the direction of the points in front of
the camera that are projected to it. -/
structure Camera where
  fx : ℝ
  fy : ℝ
  world2cam : Vec3 → ℝ × ℝ
  cam2world : ℝ × ℝ → Vec3
  cam2world_world2cam : ∀ p, 0 < zCoord p → cam2world (world2cam p) = normalized p

/-- An 8-bit image: its pixels by their place behind `img.data`. -/
structure GreyImage where
  width : ℤ
  data : ℤ → UInt8

/-- `computeProjectionJacobian`. -/
def computeProjectionJacobian (cam : Camera) (p : Vec3) : Matrix (Fin 2) (Fin 3) ℝ :=
  let x := p ⟨0, by decide⟩
  let y := p ⟨1, by decide⟩
  let zInv := 1 / zCoord p
  let zInv2 := zInv * zInv
  !![cam.fx * zInv, 0, -cam.fx * x * zInv2;
     0, cam.fy * zInv, -cam.fy * y * zInv2]

/-- The pixel an image point lies in at a scale, with the weights of the four around it. -/
structure Subpixel where
  uRefI : ℤ
  vRefI : ℤ
  wRefTl : ℝ
  wRefTr : ℝ
  wRefBl : ℝ
  wRefBr : ℝ

/-- The image point and its quotients are narrowed to `float`; `floorf` sees the narrowed quotient.
The weights are exact. -/
def subpixel (scale : ℤ) (pc : ℝ × ℝ) : Subpixel :=
  let uRef := binary32 pc.1
  let vRef := binary32 pc.2
  let uRefI := ⌊binary32 (pc.1 / scale)⌋ * scale
  let vRefI := ⌊binary32 (pc.2 / scale)⌋ * scale
  let subpixURef := (uRef - uRefI) / scale
  let subpixVRef := (vRef - vRefI) / scale
  { uRefI := uRefI
    vRefI := vRefI
    wRefTl := (1 - subpixURef) * (1 - subpixVRef)
    wRefTr := subpixURef * (1 - subpixVRef)
    wRefBl := (1 - subpixURef) * subpixVRef
    wRefBr := subpixURef * subpixVRef }

/-- `img_ptr` for a pixel of the patch. -/
def imgPtr (img : GreyImage) (scale patchSizeHalf : ℤ) (s : Subpixel) (x y : ℤ) : ℤ :=
  (s.vRefI + x * scale - patchSizeHalf * scale) * img.width + s.uRefI - patchSizeHalf * scale +
    y * scale

section Pixel

variable (img : GreyImage) (scale : ℤ) (s : Subpixel) (ptr : ℤ)

/-- `img_ptr[k]`. -/
def pixelAt (k : ℤ) : ℝ := (img.data (ptr + k)).toNat

/-- The bilinear value. -/
def curValue : ℝ :=
  s.wRefTl * pixelAt img ptr 0 + s.wRefTr * pixelAt img ptr scale +
    s.wRefBl * pixelAt img ptr (scale * img.width) +
    s.wRefBr * pixelAt img ptr (scale * img.width + scale)

/-- `du`. -/
def du : ℝ :=
  0.5 * ((s.wRefTl * pixelAt img ptr scale + s.wRefTr * pixelAt img ptr (scale * 2) +
      s.wRefBl * pixelAt img ptr (scale * img.width + scale) +
      s.wRefBr * pixelAt img ptr (scale * img.width + scale * 2)) -
    (s.wRefTl * pixelAt img ptr (-scale) + s.wRefTr * pixelAt img ptr 0 +
      s.wRefBl * pixelAt img ptr (scale * img.width - scale) +
      s.wRefBr * pixelAt img ptr (scale * img.width)))

/-- `dv`. -/
def dv : ℝ :=
  0.5 * ((s.wRefTl * pixelAt img ptr (scale * img.width) +
      s.wRefTr * pixelAt img ptr (scale + scale * img.width) +
      s.wRefBl * pixelAt img ptr (img.width * scale * 2) +
      s.wRefBr * pixelAt img ptr (img.width * scale * 2 + scale)) -
    (s.wRefTl * pixelAt img ptr (-scale * img.width) +
      s.wRefTr * pixelAt img ptr (-scale * img.width + scale) +
      s.wRefBl * pixelAt img ptr 0 + s.wRefBr * pixelAt img ptr scale))

/-- `du` and `dv`. -/
def imageGradient : Fin 2 → ℝ := ![du img scale s ptr, dv img scale s ptr]

end Pixel

/-! ## Tracked points -/

/-- The reference observation of a point: the members of `Feature` that the update reads. -/
structure RefFeature where
  img : GreyImage
  px : ℝ × ℝ
  f : Vec3
  tFW : Pose3

/-- A point of the submap with its entries of the lists beside it. -/
structure TrackedPoint where
  pos : Vec3
  searchLevel : ℕ
  invRefExpo : ℝ
  /-- `warp_patch`: at a level, a row and a column. -/
  warpPatch : ℕ → ℕ → ℕ → ℝ
  refPatch : RefFeature

/-- `Jdphi_dR` of `initializeVIO`. -/
def VioConfig.jdphiDR (cfg : VioConfig) : Mat3 := cfg.rci

/-- `Pic` of `initializeVIO`. -/
def VioConfig.pic (cfg : VioConfig) : Vec3 := -cfg.rciᵀ *ᵥ cfg.pci

/-- `Jdp_dR` of `initializeVIO`. -/
def VioConfig.jdpDR (cfg : VioConfig) : Mat3 := -cfg.rci * skew cfg.pic

/-- What a frame gives the update beside the parameters. -/
structure Photo where
  cam : Camera
  img : GreyImage
  patchSize : ℕ
  points : List TrackedPoint
  patchSize_pos : 0 < patchSize

/-- `patch_size_half`. -/
def Photo.patchSizeHalf (ph : Photo) : ℤ := (ph.patchSize / 2 : ℕ)

variable {C : Carrier}

/-- `pf`: the point in the camera frame of a state. -/
def pointInCamera (cfg : VioConfig) (state : ExactState C) (p : Vec3) : Vec3 :=
  let rwi : Mat3 := state.rotEnd
  let pwi : Vec3 := state.posEnd
  let rcw := cfg.rci * rwiᵀ
  let pcw := -(cfg.rci * rwiᵀ) *ᵥ pwi + cfg.pci
  rcw *ᵥ p + pcw

/-- A pixel of `updateState`. -/
def updateStatePixel (cfg : VioConfig) (ph : Photo) (level : ℕ) (state : ExactState C)
    (pt : TrackedPoint) (x y : ℕ) : PixelRow :=
  let rwi : Mat3 := state.rotEnd
  let invExpoTime : ℝ := state.invExpoTime
  let jdpDt := cfg.rci * rwiᵀ
  let scale : ℤ := 2 ^ (level + pt.searchLevel)
  let invScale : ℝ := 1 / scale
  let pf := pointInCamera cfg state pt.pos
  let pc := ph.cam.world2cam pf
  let jdpi := computeProjectionJacobian ph.cam pf
  let pHat := skew pf
  let s := subpixel scale pc
  let ptr := imgPtr ph.img scale ph.patchSizeHalf s x y
  let jimg := invScale • invExpoTime • imageGradient ph.img scale s ptr
  let jdphi := (jimg ᵥ* jdpi) ᵥ* pHat
  let jdp := -jimg ᵥ* jdpi
  let value := curValue ph.img scale s ptr
  { jdR := jdphi ᵥ* cfg.jdphiDR + jdp ᵥ* cfg.jdpDR
    jdt := jdp ᵥ* jdpDt
    curValue := value
    res := invExpoTime * value - pt.invRefExpo * pt.warpPatch level x y }

/-- A pixel of `precomputeReferencePatches`: `JdR` and `Jdt` of `H_sub_inv`. -/
def referencePixel (ph : Photo) (level : ℕ) (pt : TrackedPoint) (x y : ℕ) : Vec3 × Vec3 :=
  let ref := pt.refPatch
  let scale : ℤ := 2 ^ level
  let depth := norm3 (pt.pos - ref.tFW⁻¹.translation)
  let pf := depth • ref.f
  let pc := ref.px
  let rRefW := ref.tFW.rotation.matrix
  let jdpi := computeProjectionJacobian ph.cam pf
  let pWHat := skew pt.pos
  let s := subpixel scale pc
  let ptr := imgPtr ref.img scale ph.patchSizeHalf s x y
  let jimg := (1 / (scale : ℝ)) • imageGradient ref.img scale s ptr
  (((jimg ᵥ* jdpi) ᵥ* rRefW) ᵥ* pWHat, (-jimg ᵥ* jdpi) ᵥ* rRefW)

/-- A residual of `updateStateInverse`. -/
def inverseResidual (cfg : VioConfig) (ph : Photo) (level : ℕ) (state : ExactState C)
    (pt : TrackedPoint) (x y : ℕ) : ℝ :=
  let scale : ℤ := 2 ^ level
  let pc := ph.cam.world2cam (pointInCamera cfg state pt.pos)
  let s := subpixel scale pc
  curValue ph.img scale s (imgPtr ph.img scale ph.patchSizeHalf s x y) - pt.warpPatch level x y

/-- The frame of the update. -/
def Photo.frame (cfg : VioConfig) (ph : Photo) : VioFrame C where
  totalPoints := ph.points.length
  patchSize := ph.patchSize
  patchSize_pos := ph.patchSize_pos
  pixel level state i := updateStatePixel cfg ph level state (ph.points.get i.1) i.2.1 i.2.2
  refPixel level i := referencePixel ph level (ph.points.get i.1) i.2.1 i.2.2
  residual level state i := inverseResidual cfg ph level state (ph.points.get i.1) i.2.1 i.2.2

end

end FastLivo.Frontend
