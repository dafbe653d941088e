import FastLivo.Esikf.Numerics
import FastLivo.Frontend.So3
import FastLivo.Frontend.StateEstimation
import Mathlib.LinearAlgebra.Matrix.PosDef

/-!
# The covariance that a point is measured with

`calcBodyCov` builds a frame on the direction of a point. What it computes does not depend on that
frame: one variance along the direction, and another one across it.
-/

namespace FastLivo.Frontend

open Lib Esikf Matrix

noncomputable section

/-! ## Frames -/

/-- The outer products of an orthonormal frame add up to the identity. -/
theorem sum_vecMulVec_frame {u b c : Vec3} (huu : u ⬝ᵥ u = 1) (hbb : b ⬝ᵥ b = 1)
    (hcc : c ⬝ᵥ c = 1) (hub : u ⬝ᵥ b = 0) (huc : u ⬝ᵥ c = 0) (hbc : b ⬝ᵥ c = 0) :
    vecMulVec u u + vecMulVec b b + vecMulVec c c = 1 := by
  let Q : Mat3 := of ![u, b, c]
  have hrows : Q * Qᵀ = 1 := by
    have hentry (i j : Fin 3) : (Q * Qᵀ) i j = ![u, b, c] i ⬝ᵥ ![u, b, c] j := rfl
    ext i j
    rw [hentry, one_apply]
    fin_cases i <;> fin_cases j <;>
      simp [huu, hbb, hcc, hub, huc, hbc, dotProduct_comm b u, dotProduct_comm c u,
        dotProduct_comm c b]
  have hcols := mul_eq_one_comm.mp hrows
  rw [← hcols]
  ext i j
  simp [Q, mul_apply, vecMulVec_apply, Fin.sum_univ_three]

theorem skew_mul_transpose (v : Vec3) : skew v * (skew v)ᵀ = (v ⬝ᵥ v) • 1 - vecMulVec v v := by
  ext i j
  fin_cases i <;> fin_cases j <;>
    simp [skew, mul_apply, Fin.sum_univ_three, dotProduct, vecMulVec_apply] <;> ring

theorem mul_diagonal_transpose {r s : ℝ} {A M : Matrix (Fin 3) Bool ℝ} (hA : A = r • M) :
    A * (diagonal fun _ => s : Matrix Bool Bool ℝ) * Aᵀ = (r * r * s) • (M * Mᵀ) := by
  have hmiddle : A * (diagonal fun _ => s : Matrix Bool Bool ℝ) = (s * r) • M := by
    rw [hA, ← smul_one_eq_diagonal, Matrix.mul_smul, Matrix.mul_one, smul_smul]
  rw [hmiddle, hA, transpose_smul, Matrix.mul_smul, Matrix.smul_mul, smul_smul]
  ring_nf

theorem skew_mulVec_self (v : Vec3) : skew v *ᵥ v = 0 := by
  rw [skew_mulVec, cross_self]

theorem norm3_normalized {v : Vec3} (h : 0 < norm3 v) : normalized v ⬝ᵥ normalized v = 1 :=
  unit_axis h

theorem norm3_pos_of_ne {v : Vec3} (i : Fin 3) (h : v i ≠ 0) : 0 < norm3 v := by
  refine Real.sqrt_pos.mpr ?_
  refine lt_of_lt_of_le (mul_self_pos.mpr h) ?_
  exact Finset.single_le_sum (fun j _ => mul_self_nonneg (v j)) (Finset.mem_univ i)

/-! ## `calcBodyCov` -/

/-- One variance along a direction, and another one across it. -/
def directedCov (along across : ℝ) (u : Vec3) : Mat3 :=
  across • 1 + (along - across) • vecMulVec u u

/-- The point that `calcBodyCov` leaves. -/
def raisedPoint (pb : Vec3) : Vec3 := if zCoord pb = 0 then setZ pb 0.0001 else pb

theorem zCoord_raisedPoint (pb : Vec3) : zCoord (raisedPoint pb) ≠ 0 := by
  unfold raisedPoint
  split
  · have hz : zCoord (setZ pb 0.0001) = 0.0001 := rfl
    rw [hz]
    norm_num
  · assumption

/-- The variance across the direction of a point. -/
def acrossVar (degreeInc : ℝ) (p : Vec3) : ℝ :=
  p ⬝ᵥ p * (Real.sin (degreeInc * 0.017453293) * Real.sin (degreeInc * 0.017453293))

theorem calcBodyCov_eq (pb : Vec3) (rangeInc degreeInc : ℝ) :
    (calcBodyCov pb rangeInc degreeInc).2 =
      directedCov (rangeInc * rangeInc) (acrossVar degreeInc (raisedPoint pb))
        (normalized (raisedPoint pb)) := by
  have hz := zCoord_raisedPoint pb
  set p := raisedPoint pb with hp
  have hpos : 0 < norm3 p := norm3_pos_of_ne 2 hz
  -- The frame: the direction and the two base vectors.
  let u := normalized p
  let v := setZ 1 (-((xCoord u + yCoord u) / zCoord u))
  let b := normalized v
  let c := normalized (skew b *ᵥ u)
  have huu : u ⬝ᵥ u = 1 := norm3_normalized hpos
  have huz : u 2 ≠ 0 := mul_ne_zero (inv_ne_zero hpos.ne') hz
  have hbb : b ⬝ᵥ b = 1 := norm3_normalized (norm3_pos_of_ne 0 one_ne_zero)
  have huv : u ⬝ᵥ v = 0 := by
    show u ⬝ᵥ ![1, 1, -((u 0 + u 1) / u 2)] = 0
    rw [dotProduct, Fin.sum_univ_three]
    simp only [cons_val]
    field_simp
    ring
  have hub : u ⬝ᵥ b = 0 := by
    show u ⬝ᵥ ((norm3 v)⁻¹ • v) = 0
    rw [dotProduct_smul, huv, smul_zero]
  have hcross : (skew b *ᵥ u) ⬝ᵥ (skew b *ᵥ u) = 1 := by
    rw [skew_mulVec, cross_dot_cross, hbb, huu, dotProduct_comm b u, hub]
    ring
  have hc : c = skew b *ᵥ u := by
    have hnorm : norm3 (skew b *ᵥ u) = 1 := by
      rw [norm3, hcross, Real.sqrt_one]
    show (norm3 (skew b *ᵥ u))⁻¹ • (skew b *ᵥ u) = _
    rw [hnorm, inv_one, one_smul]
  have hframe : vecMulVec b b + vecMulVec c c = 1 - vecMulVec u u := by
    rw [eq_sub_iff_add_eq', ← add_assoc]
    refine sum_vecMulVec_frame huu hbb (hc ▸ hcross) hub ?_ ?_
    · rw [hc, skew_mulVec, dot_cross_self]
    · rw [hc, skew_mulVec, dot_self_cross]
  have hbases (N : Matrix (Fin 3) Bool ℝ) (hN : N = of fun i j => if j then c i else b i) :
      N * Nᵀ = vecMulVec b b + vecMulVec c c := by
    rw [hN]
    ext i j
    simp [mul_apply, vecMulVec_apply, add_comm]
  have hacross : skew u * (1 - vecMulVec u u) * (skew u)ᵀ = 1 - vecMulVec u u := by
    have hzero : skew u * vecMulVec u u = 0 := by
      rw [mul_vecMulVec, skew_mulVec_self, zero_vecMulVec]
    rw [Matrix.mul_sub, Matrix.mul_one, hzero, sub_zero, skew_mul_transpose, huu, one_smul]
  let N : Matrix (Fin 3) Bool ℝ := of fun i j => if j then c i else b i
  let s := Real.sin (degreeInc * 0.017453293) * Real.sin (degreeInc * 0.017453293)
  let A : Matrix (Fin 3) Bool ℝ := norm3 p • (skew u * N)
  have hcov : (calcBodyCov pb rangeInc degreeInc).2 = (rangeInc * rangeInc) • vecMulVec u u +
      A * (diagonal fun _ => s : Matrix Bool Bool ℝ) * Aᵀ := rfl
  have houter : skew u * N * (skew u * N)ᵀ = 1 - vecMulVec u u := by
    rw [transpose_mul, Matrix.mul_assoc, ← Matrix.mul_assoc N, hbases N rfl, hframe,
      ← Matrix.mul_assoc, hacross]
  rw [hcov, mul_diagonal_transpose rfl, houter, norm3_sq, directedCov, acrossVar]
  module

/-! ## Directed covariances -/

variable {along across : ℝ} {u v w : Vec3}

theorem directedCov_posSemidef (halong : 0 ≤ along) (hacross : 0 ≤ across) (hu : u ⬝ᵥ u = 1) :
    (directedCov along across u).PosSemidef := by
  have hsplit : directedCov along across u =
      across • (skew u * (skew u)ᵀ) + along • vecMulVec u u := by
    rw [skew_mul_transpose, hu, directedCov]
    module
  have hskew : (skew u * (skew u)ᵀ).PosSemidef := by
    have h := posSemidef_self_mul_conjTranspose (skew u)
    rwa [conjTranspose_eq_transpose_of_trivial] at h
  have houter : (vecMulVec u u).PosSemidef := by
    have h := posSemidef_vecMulVec_self_star u
    rwa [star_trivial] at h
  rw [hsplit]
  exact (hskew.smul hacross).add (houter.smul halong)

/-- What `calcBodyCov` computes is a covariance. -/
theorem calcBodyCov_posSemidef (pb : Vec3) (rangeInc degreeInc : ℝ) :
    (calcBodyCov pb rangeInc degreeInc).2.PosSemidef := by
  rw [calcBodyCov_eq]
  refine directedCov_posSemidef (mul_self_nonneg _) ?_
    (norm3_normalized (norm3_pos_of_ne 2 (zCoord_raisedPoint pb)))
  refine mul_nonneg ?_ (mul_self_nonneg _)
  exact Finset.sum_nonneg fun i _ => mul_self_nonneg _

/-- A rotation turns the direction. -/
theorem mul_directedCov_mul {E : Mat3} (hE : E * Eᵀ = 1) (u : Vec3) :
    E * directedCov along across u * Eᵀ = directedCov along across (E *ᵥ u) := by
  rw [directedCov, directedCov, Matrix.mul_add, Matrix.add_mul, Matrix.mul_smul, Matrix.mul_smul,
    Matrix.smul_mul, Matrix.smul_mul, Matrix.mul_one, hE, mul_vecMulVec, vecMulVec_mul,
    vecMul_transpose]

theorem vecMulVec_self_eq_iff : vecMulVec v v = vecMulVec w w ↔ v = w ∨ v = -w := by
  constructor
  · intro h
    have hentry (i j : Fin 3) : v i * v j = w i * w j := congrFun (congrFun h i) j
    by_cases hv : v = 0
    · left
      rw [hv]
      funext i
      have hzero := hentry i i
      rw [hv, Pi.zero_apply, zero_mul] at hzero
      exact (mul_self_eq_zero.mp hzero.symm).symm
    · obtain ⟨i, hi⟩ := Function.ne_iff.mp hv
      rcases mul_self_eq_mul_self_iff.mp (hentry i i) with heq | heq
      · left
        funext j
        have hj := hentry i j
        rw [← heq] at hj
        exact mul_left_cancel₀ hi hj
      · right
        funext j
        have hj := hentry i j
        have hneg : w i = -v i := by rw [heq, neg_neg]
        rw [hneg, neg_mul, ← mul_neg] at hj
        exact mul_left_cancel₀ hi hj
  · rintro (rfl | rfl)
    · rfl
    · rw [vecMulVec_neg, neg_vecMulVec, neg_neg]

/-- Two directions have one covariance, unless it has no direction. -/
theorem directedCov_eq_iff :
    directedCov along across v = directedCov along across w ↔ along = across ∨ v = w ∨ v = -w := by
  rw [directedCov, directedCov, add_right_inj, ← vecMulVec_self_eq_iff]
  constructor
  · intro h
    by_cases heq : along = across
    · exact .inl heq
    · exact .inr (smul_right_injective _ (sub_ne_zero.mpr heq) h)
  · rintro (h | h)
    · rw [h, sub_self, zero_smul, zero_smul]
    · rw [h]

/-! ## Lever arms -/

theorem skew_neg (v : Vec3) : skew (-v) = -skew v := skewLinear.map_neg v

theorem dotProduct_skew_mul (S : Mat3) (v x : Vec3) :
    x ⬝ᵥ ((skew v * S * (skew v)ᵀ) *ᵥ x) = (v ⨯₃ x) ⬝ᵥ (S *ᵥ (v ⨯₃ x)) := by
  have hturned : (skew v)ᵀ *ᵥ x = -(v ⨯₃ x) := by
    rw [skew_transpose, neg_mulVec, skew_mulVec]
  rw [← mulVec_mulVec, ← mulVec_mulVec, dotProduct_mulVec, ← mulVec_transpose, hturned, mulVec_neg,
    neg_dotProduct_neg]

/-- A vector that has no product with another one is a multiple of it. -/
theorem eq_smul_of_cross_eq_zero (hv : v ≠ 0) (h : w ⨯₃ v = 0) : ∃ c : ℝ, w = c • v := by
  have hdot : v ⬝ᵥ v ≠ 0 := fun hzero => hv (dotProduct_self_eq_zero.mp hzero)
  have htriple := cross_cross_eq_smul_sub_smul w v v
  rw [h, LinearMap.map_zero₂, eq_comm, sub_eq_zero] at htriple
  refine ⟨(w ⬝ᵥ v) / (v ⬝ᵥ v), ?_⟩
  rw [div_eq_inv_mul, mul_smul, htriple, smul_smul, inv_mul_cancel₀ hdot, one_smul]

theorem exists_cross_ne_zero (hv : v ≠ 0) : ∃ x, v ⨯₃ x ≠ 0 := by
  by_contra hall
  rw [not_exists] at hall
  have hfirst := not_not.mp (hall ![1, 0, 0])
  have hsecond := not_not.mp (hall ![0, 1, 0])
  rw [cross_apply] at hfirst hsecond
  refine hv (funext fun i => ?_)
  have hone := congrFun hfirst 1
  have htwo := congrFun hfirst 2
  have hthree := congrFun hsecond 2
  simp only [cons_val, Pi.zero_apply] at hone htwo hthree
  fin_cases i
  · show v 0 = 0
    linarith
  · show v 1 = 0
    linarith
  · show v 2 = 0
    linarith

/-- The covariance that a lever arm gives an attitude determines the arm, up to its sign. -/
theorem skew_mul_skew_eq_iff {S : Mat3} (hS : S.PosDef) (hv : v ≠ 0) :
    skew v * S * (skew v)ᵀ = skew w * S * (skew w)ᵀ ↔ w = v ∨ w = -v := by
  constructor
  · intro h
    have hform (x : Vec3) : (v ⨯₃ x) ⬝ᵥ (S *ᵥ (v ⨯₃ x)) = (w ⨯₃ x) ⬝ᵥ (S *ᵥ (w ⨯₃ x)) := by
      rw [← dotProduct_skew_mul, ← dotProduct_skew_mul, h]
    have hcross : w ⨯₃ v = 0 := by
      by_contra hne
      have hpos := hS.dotProduct_mulVec_pos hne
      rw [star_trivial, ← hform v, cross_self, zero_dotProduct] at hpos
      exact lt_irrefl _ hpos
    obtain ⟨c, rfl⟩ := eq_smul_of_cross_eq_zero hv hcross
    obtain ⟨x, hx⟩ := exists_cross_ne_zero hv
    have hpos := hS.dotProduct_mulVec_pos hx
    have hscaled := hform x
    rw [star_trivial] at hpos
    rw [LinearMap.map_smul₂, mulVec_smul, smul_dotProduct, dotProduct_smul, smul_eq_mul,
      smul_eq_mul, ← mul_assoc] at hscaled
    have hsquare : c * c = 1 := mul_right_cancel₀ hpos.ne' ((hscaled.symm).trans (one_mul _).symm)
    rcases mul_self_eq_one_iff.mp hsquare with rfl | rfl
    · exact .inl (one_smul ℝ v)
    · exact .inr (neg_one_smul ℝ v)
  · rintro (rfl | rfl)
    · rfl
    · rw [skew_neg, transpose_neg, Matrix.neg_mul, neg_mul_neg]

end

end FastLivo.Frontend
