import FastLivo.Frontend.MeasurementJacobians
import FastLivo.Frontend.VioRollback

/-!
# The inverse compositional rows

At a reference observation that is taken at the current pose, the rows of the two variants differ
in the columns of the position alone: `updateStateInverse` takes them in the frame of the body,
`updateState` and `operator+=` in the one of the world.
-/

namespace FastLivo.Frontend

open Lib Esikf Matrix

noncomputable section

variable {C : Carrier}

/-- The reference observation of a point is taken at the current pose, with the current image and
unit inverse exposure. -/
structure AtReference (cfg : VioConfig) (ph : Photo) (s : ExactState C) (pt : TrackedPoint) :
    Prop where
  searchLevel : pt.searchLevel = 0
  expo : expoOf s = 1
  img : pt.refPatch.img = ph.img
  px : pt.refPatch.px = ph.cam.world2cam (pointInCamera cfg s pt.pos)
  f : pt.refPatch.f = ph.cam.cam2world pt.refPatch.px
  rotation : pt.refPatch.tFW.rotation.matrix = cfg.rci * (rotOf s)ᵀ
  translation : pt.refPatch.tFW.translation = -(cfg.rci * (rotOf s)ᵀ) *ᵥ posOf s + cfg.pci
  /-- The point is seen, so it is in front of the camera. -/
  inFront : 0 < zCoord (pointInCamera cfg s pt.pos)

section Reference

variable {cfg : VioConfig} {ph : Photo} {s : ExactState C} {pt : TrackedPoint}

theorem norm3_rotation (R : Rot3) (v : Vec3) : norm3 (R.matrix *ᵥ v) = norm3 v := by
  unfold norm3
  rw [dotProduct_mulVec, ← mulVec_transpose, mulVec_mulVec, R.transpose_mul_matrix, one_mulVec]

/-- The point at its depth on the bearing of the reference is the point in the camera frame. -/
theorem AtReference.point (h : AtReference cfg ph s pt) :
    norm3 (pt.pos - pt.refPatch.tFW⁻¹.translation) • pt.refPatch.f = pointInCamera cfg s pt.pos := by
  have hpf : pointInCamera cfg s pt.pos =
      pt.refPatch.tFW.rotation.matrix *ᵥ (pt.pos - pt.refPatch.tFW⁻¹.translation) := by
    rw [Pose3.inv_translation, Rot3.matrix_inv, sub_neg_eq_add, mulVec_add, mulVec_mulVec,
      Rot3.matrix_mul_transpose, one_mulVec, h.rotation, h.translation]
    rfl
  rw [h.f, h.px, ph.cam.cam2world_world2cam _ h.inFront, ← norm3_rotation pt.refPatch.tFW.rotation,
    ← hpf, norm3_smul_normalized (norm3_pos_of_zCoord h.inFront)]

/-- The precomputed row, in terms of the current frame. -/
theorem AtReference.row (h : AtReference cfg ph s pt) (level x y : ℕ) :
    referencePixel ph level pt x y =
      (((pixelGradient cfg ph level s pt x y ᵥ* (cfg.rci * (rotOf s)ᵀ)) ᵥ* skew pt.pos),
        -(pixelGradient cfg ph level s pt x y ᵥ* (cfg.rci * (rotOf s)ᵀ))) := by
  unfold referencePixel
  extract_lets ref scale depth pf pc rRefW jdpi pWHat sub ptr jimg
  have hpf : pf = pointInCamera cfg s pt.pos := h.point
  have hgradient : pixelGradient cfg ph level s pt x y = jimg ᵥ* jdpi := by
    have himg : ref.img = ph.img := h.img
    have hpc : pc = ph.cam.world2cam pf := by rw [hpf]; exact h.px
    unfold pixelGradient jimg jdpi ptr sub
    rw [h.searchLevel, h.expo, himg, hpc, hpf]
    dsimp only
    rw [one_smul]
    rfl
  have hrotation : rRefW = cfg.rci * (rotOf s)ᵀ := h.rotation
  rw [hgradient, ← hrotation, neg_vecMul, neg_vecMul]

end Reference

/-! ## Both variants -/

section Rows

variable {cfg : VioConfig} {ph : Photo} {s : ExactState C}

end Rows

/-! ## An edge seen after a turn -/

section Edge

/-- An image that is bright to the right of its middle column. -/
def GreyImage.edge : GreyImage where
  width := 640
  data k := if 320 < k % 640 then 200 else 0

/-- A point in the middle of the image, seen with an attitude. -/
def TrackedPoint.edge (R : Rot3) : TrackedPoint where
  pos := R.matrix *ᵥ ![0, 0, 1]
  searchLevel := 0
  invRefExpo := 1
  warpPatch _ _ _ := 0
  refPatch :=
    { img := GreyImage.edge
      px := (320.0, 240.0)
      f := Camera.pinhole.cam2world (320.0, 240.0)
      tFW := ⟨R⁻¹, 0⟩ }

def Photo.edge (R : Rot3) : Photo where
  cam := Camera.pinhole
  img := GreyImage.edge
  patchSize := 1
  points := [TrackedPoint.edge R]
  patchSize_pos := Nat.one_pos

/-- The sample state with an attitude. -/
def StatesGroup.turned (R : Rot3) : ExactState Carrier.trivial :=
  { VIOManager.start.state with rotEnd := R.matrix }

end Edge

end

end FastLivo.Frontend
