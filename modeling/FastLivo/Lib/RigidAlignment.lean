import FastLivo.Lib.TraceBound
import Mathlib.LinearAlgebra.AffineSpace.FiniteDimensional
import Mathlib.LinearAlgebra.CrossProduct
import Mathlib.LinearAlgebra.Matrix.Rank
import Mathlib.Tactic.Module

/-!
# Rigid alignment of pairs of points

The squared error of a rigid motion that should take the second point of each pair to the first
one. For a rotation it depends on the trace against the cross-covariance of the pairs and on how
the centres meet; a singular value decomposition gives the rotation that makes it least.
-/

namespace FastLivo.Lib

open Matrix

section Error

variable {n : Type*} [Fintype n]

/-- Summed squared distances of the first points from the moved second ones. -/
def alignmentError (pairs : List ((n → ℝ) × (n → ℝ))) (R : Matrix n n ℝ) (t : n → ℝ) : ℝ :=
  (pairs.map fun p => (p.1 - (R *ᵥ p.2 + t)) ⬝ᵥ (p.1 - (R *ᵥ p.2 + t))).sum

noncomputable def centroid (points : List (n → ℝ)) : n → ℝ :=
  (points.length : ℝ)⁻¹ • points.sum

/-- The pairs seen from their centres. -/
noncomputable def centred (pairs : List ((n → ℝ) × (n → ℝ))) : List ((n → ℝ) × (n → ℝ)) :=
  pairs.map fun p => (p.1 - centroid (pairs.map Prod.fst), p.2 - centroid (pairs.map Prod.snd))

noncomputable def crossCovariance (pairs : List ((n → ℝ) × (n → ℝ))) : Matrix n n ℝ :=
  ((centred pairs).map fun p => vecMulVec p.1 p.2).sum

/-- The part of the error that no motion changes. -/
noncomputable def spread (pairs : List ((n → ℝ) × (n → ℝ))) : ℝ :=
  ((centred pairs).map fun p => p.1 ⬝ᵥ p.1 + p.2 ⬝ᵥ p.2).sum

/-- How far the centres are apart after the motion. -/
noncomputable def offCentre (pairs : List ((n → ℝ) × (n → ℝ))) (R : Matrix n n ℝ) (t : n → ℝ) :
    n → ℝ :=
  centroid (pairs.map Prod.fst) - (R *ᵥ centroid (pairs.map Prod.snd) + t)

/-! ## Sums over lists -/

section Sums

variable {α : Type*} (l : List α)

theorem dotProduct_sum_map (v : n → ℝ) (f : α → n → ℝ) :
    v ⬝ᵥ (l.map f).sum = (l.map fun x => v ⬝ᵥ f x).sum := by
  induction l with
  | nil => exact dotProduct_zero v
  | cons x l ih => simp only [List.map_cons, List.sum_cons, dotProduct_add, ih]

theorem mulVec_sum_map (R : Matrix n n ℝ) (f : α → n → ℝ) :
    R *ᵥ (l.map f).sum = (l.map fun x => R *ᵥ f x).sum := by
  induction l with
  | nil => exact mulVec_zero R
  | cons x l ih => simp only [List.map_cons, List.sum_cons, mulVec_add, ih]

theorem trace_mul_sum_map (R : Matrix n n ℝ) (f : α → Matrix n n ℝ) :
    (R * (l.map f).sum).trace = (l.map fun x => (R * f x).trace).sum := by
  induction l with
  | nil => simp
  | cons x l ih => simp only [List.map_cons, List.sum_cons, Matrix.mul_add, trace_add, ih]

omit [Fintype n] in
theorem sum_map_sub {A : Type*} [AddCommGroup A] (f g : α → A) :
    (l.map fun x => f x - g x).sum = (l.map f).sum - (l.map g).sum := by
  induction l with
  | nil => simp
  | cons x l ih =>
    simp only [List.map_cons, List.sum_cons, ih]
    abel

omit [Fintype n] in
theorem sum_sub_centroid (points : List (n → ℝ)) :
    (points.map fun p => p - centroid points).sum = 0 := by
  rcases eq_or_ne points [] with rfl | hne
  · rfl
  · have hlength : (points.length : ℝ) ≠ 0 := by
      simpa [List.length_eq_zero_iff] using hne
    rw [sum_map_sub points (fun p => p), List.map_id', List.map_const', List.sum_replicate, centroid,
      ← Nat.cast_smul_eq_nsmul ℝ, smul_inv_smul₀ hlength, sub_self]

end Sums

variable (pairs : List ((n → ℝ) × (n → ℝ)))

omit [Fintype n] in
theorem sum_centred_fst : ((centred pairs).map Prod.fst).sum = 0 := by
  have h := sum_sub_centroid (pairs.map Prod.fst)
  rw [List.map_map] at h
  rw [centred, List.map_map]
  exact h

omit [Fintype n] in
theorem sum_centred_snd : ((centred pairs).map Prod.snd).sum = 0 := by
  have h := sum_sub_centroid (pairs.map Prod.snd)
  rw [List.map_map] at h
  rw [centred, List.map_map]
  exact h

variable [DecidableEq n]

/-- The error of one pair, seen from the centres. -/
theorem pair_error {R : Matrix n n ℝ} (hR : Rᵀ * R = 1) (a b e : n → ℝ) :
    (a - R *ᵥ b + e) ⬝ᵥ (a - R *ᵥ b + e) =
      a ⬝ᵥ a + b ⬝ᵥ b - 2 * (Rᵀ * vecMulVec a b).trace +
        (2 * (e ⬝ᵥ (a - R *ᵥ b)) + e ⬝ᵥ e) := by
  have hlength : R *ᵥ b ⬝ᵥ R *ᵥ b = b ⬝ᵥ b := by
    rw [dotProduct_mulVec, vecMul_mulVec, hR, vecMul_one]
  have htrace : (Rᵀ * vecMulVec a b).trace = a ⬝ᵥ R *ᵥ b := by
    rw [mul_vecMulVec, trace_vecMulVec, mulVec_transpose, dotProduct_mulVec]
  have hcross : R *ᵥ b ⬝ᵥ a = a ⬝ᵥ R *ᵥ b := dotProduct_comm _ _
  have ha : a ⬝ᵥ e = e ⬝ᵥ a := dotProduct_comm _ _
  have hb : R *ᵥ b ⬝ᵥ e = e ⬝ᵥ R *ᵥ b := dotProduct_comm _ _
  rw [htrace]
  simp only [add_dotProduct, sub_dotProduct, dotProduct_add, dotProduct_sub]
  rw [hlength, hcross, ha, hb]
  ring

/-- The error in three parts: what stays, what the rotation gains, and the distance of the
centres. -/
theorem alignmentError_eq {R : Matrix n n ℝ} (hR : Rᵀ * R = 1) (t : n → ℝ) :
    alignmentError pairs R t =
      spread pairs - 2 * (Rᵀ * crossCovariance pairs).trace +
        pairs.length * (offCentre pairs R t ⬝ᵥ offCentre pairs R t) := by
  have hcentred : alignmentError pairs R t = ((centred pairs).map fun p =>
      p.1 ⬝ᵥ p.1 + p.2 ⬝ᵥ p.2 - 2 * (Rᵀ * vecMulVec p.1 p.2).trace +
        (2 * (offCentre pairs R t ⬝ᵥ (p.1 - R *ᵥ p.2)) +
          offCentre pairs R t ⬝ᵥ offCentre pairs R t)).sum := by
    unfold alignmentError centred
    rw [List.map_map]
    congr 1
    refine List.map_congr_left fun p _ => ?_
    rw [Function.comp_apply, ← pair_error hR]
    have hpair : p.1 - (R *ᵥ p.2 + t) =
        p.1 - centroid (pairs.map Prod.fst) - R *ᵥ (p.2 - centroid (pairs.map Prod.snd)) +
          offCentre pairs R t := by
      rw [mulVec_sub, offCentre]
      abel
    rw [hpair]
  have hzero : ((centred pairs).map fun p => offCentre pairs R t ⬝ᵥ (p.1 - R *ᵥ p.2)).sum = 0 := by
    have hmoved : ((centred pairs).map fun p => R *ᵥ p.2).sum = 0 := by
      rw [← mulVec_sum_map, sum_centred_snd, mulVec_zero]
    rw [← dotProduct_sum_map, sum_map_sub, hmoved, sub_zero]
    have hfst := sum_centred_fst pairs
    rw [hfst, dotProduct_zero]
  have hconst : ((centred pairs).map fun _ => offCentre pairs R t ⬝ᵥ offCentre pairs R t).sum =
      pairs.length * (offCentre pairs R t ⬝ᵥ offCentre pairs R t) := by
    rw [List.map_const', List.sum_replicate, centred, List.length_map, nsmul_eq_mul]
  have htrace : ((centred pairs).map fun p => 2 * (Rᵀ * vecMulVec p.1 p.2).trace).sum =
      2 * (Rᵀ * crossCovariance pairs).trace := by
    rw [List.sum_map_mul_left, crossCovariance, trace_mul_sum_map]
  have hcentre : ((centred pairs).map fun p =>
      2 * (offCentre pairs R t ⬝ᵥ (p.1 - R *ᵥ p.2)) + offCentre pairs R t ⬝ᵥ offCentre pairs R t).sum =
      pairs.length * (offCentre pairs R t ⬝ᵥ offCentre pairs R t) := by
    rw [List.sum_map_add, List.sum_map_mul_left, hzero, hconst, mul_zero, zero_add]
  rw [hcentred, List.sum_map_add, sum_map_sub, htrace, hcentre, spread]

end Error

/-! ## Singular value decompositions -/

/-- A matrix with determinant one whose inverse is its transpose. -/
structure IsRotation (R : Matrix (Fin 3) (Fin 3) ℝ) : Prop where
  mul_transpose : R * Rᵀ = 1
  det : R.det = 1

theorem IsRotation.transpose_mul {R : Matrix (Fin 3) (Fin 3) ℝ} (h : IsRotation R) : Rᵀ * R = 1 :=
  mul_eq_one_comm.mp h.mul_transpose

/-- `W = U * diagonal σ * Vᵀ` with singular values that do not increase. -/
structure IsSvd (W U V : Matrix (Fin 3) (Fin 3) ℝ) (σ : Fin 3 → ℝ) : Prop where
  left : U * Uᵀ = 1
  right : V * Vᵀ = 1
  weights : Weights σ
  product : W = U * diagonal σ * Vᵀ

section Svd

variable {W U V R : Matrix (Fin 3) (Fin 3) ℝ} {σ : Fin 3 → ℝ}

/-- The product of the two bases, its last direction turned where it would be a reflection. -/
noncomputable def bestRotation (U V : Matrix (Fin 3) (Fin 3) ℝ) : Matrix (Fin 3) (Fin 3) ℝ :=
  U * diagonal ![1, 1, (U * Vᵀ).det] * Vᵀ

/-- What is left of the second singular value when the third counts with the sign of the bases. -/
noncomputable def svdGap (U V : Matrix (Fin 3) (Fin 3) ℝ) (σ : Fin 3 → ℝ) : ℝ :=
  ![0, 1, (U * Vᵀ).det] ⬝ᵥ σ

theorem svdGap_eq (U V : Matrix (Fin 3) (Fin 3) ℝ) (σ : Fin 3 → ℝ) :
    svdGap U V σ = σ 1 + (U * Vᵀ).det * σ 2 := by
  simp [svdGap, dotProduct, Fin.sum_univ_three]

namespace IsSvd

variable (h : IsSvd W U V σ)

include h

theorem det_bases : (U * Vᵀ).det = 1 ∨ (U * Vᵀ).det = -1 := by
  refine det_orthogonal ?_
  rw [transpose_mul, transpose_transpose, Matrix.mul_assoc, ← Matrix.mul_assoc Vᵀ,
    transpose_mul_of_mul_transpose h.right, Matrix.one_mul, h.left]

/-- The bases undo each other. -/
theorem conj_conj (Q : Matrix (Fin 3) (Fin 3) ℝ) : Uᵀ * (U * Q * Vᵀ) * V = Q := by
  have hU := transpose_mul_of_mul_transpose h.left
  have hV := transpose_mul_of_mul_transpose h.right
  calc Uᵀ * (U * Q * Vᵀ) * V = Uᵀ * U * Q * (Vᵀ * V) := by simp only [Matrix.mul_assoc]
    _ = Q := by rw [hU, hV, Matrix.one_mul, Matrix.mul_one]

theorem conj_cancel (R : Matrix (Fin 3) (Fin 3) ℝ) : U * (Uᵀ * R * V) * Vᵀ = R :=
  calc U * (Uᵀ * R * V) * Vᵀ = U * Uᵀ * R * (V * Vᵀ) := by simp only [Matrix.mul_assoc]
    _ = R := by rw [h.left, h.right, Matrix.one_mul, Matrix.mul_one]

theorem conj_orthogonal (hR : R * Rᵀ = 1) : (Uᵀ * R * V) * (Uᵀ * R * V)ᵀ = 1 := by
  have hU := transpose_mul_of_mul_transpose h.left
  calc (Uᵀ * R * V) * (Uᵀ * R * V)ᵀ = Uᵀ * (R * (V * Vᵀ) * Rᵀ) * U := by
        simp only [transpose_mul, transpose_transpose, Matrix.mul_assoc]
    _ = 1 := by rw [h.right, Matrix.mul_one, hR, Matrix.mul_one, hU]

omit h in
theorem det_conj (U V : Matrix (Fin 3) (Fin 3) ℝ) (hdet : R.det = 1) : (Uᵀ * R * V).det = (U * Vᵀ).det := by
  rw [det_mul, det_mul, det_mul, det_transpose, det_transpose, hdet, mul_one]

/-- The trace against the decomposed matrix weights the diagonal in its bases. -/
theorem trace_eq (R : Matrix (Fin 3) (Fin 3) ℝ) :
    (Rᵀ * W).trace = weightedTrace σ (Uᵀ * R * V) := by
  have hcycle : (Rᵀ * W).trace = (diagonal σ * (Uᵀ * R * V)ᵀ).trace := by
    rw [h.product, trace_mul_comm]
    simp only [transpose_mul, transpose_transpose, Matrix.mul_assoc]
    rw [trace_mul_comm U]
    simp only [Matrix.mul_assoc]
  rw [hcycle, trace, weightedTrace]
  refine Finset.sum_congr rfl fun i _ => ?_
  rw [diag_apply, diagonal_mul, transpose_apply]

theorem gap_nonneg : 0 ≤ svdGap U V σ := by
  obtain ⟨-, h12, hlast⟩ := h.weights
  rw [svdGap_eq]
  rcases h.det_bases with hdet | hdet <;> rw [hdet] <;> linarith

/-- A diagonal of signs in the bases is a rotation when its sign is that of the bases. -/
theorem isRotation_diagonal {v : Fin 3 → ℝ} (hv : ∀ i, v i * v i = 1)
    (hdet : v 0 * v 1 * v 2 = (U * Vᵀ).det) : IsRotation (U * diagonal v * Vᵀ) where
  mul_transpose := by
    have hV := transpose_mul_of_mul_transpose h.right
    calc (U * diagonal v * Vᵀ) * (U * diagonal v * Vᵀ)ᵀ
        = U * (diagonal v * (Vᵀ * V) * (diagonal v)ᵀ) * Uᵀ := by
          simp only [transpose_mul, transpose_transpose, Matrix.mul_assoc]
      _ = 1 := by rw [hV, Matrix.mul_one, diagonal_orthogonal hv, Matrix.mul_one, h.left]
  det := by
    have hsq : (U * Vᵀ).det * (U * Vᵀ).det = 1 := by
      rcases h.det_bases with hd | hd <;> rw [hd] <;> norm_num
    rw [det_mul, det_transpose] at hsq
    rw [det_mul, det_transpose] at hdet
    rw [det_mul, det_mul, det_diagonal, det_transpose, Fin.prod_univ_three, hdet]
    linarith

theorem isRotation_best : IsRotation (bestRotation U V) := by
  refine h.isRotation_diagonal (fun i => ?_) (by simp)
  rcases h.det_bases with hd | hd <;> rw [hd] <;> fin_cases i <;> simp

theorem trace_best :
    ((bestRotation U V)ᵀ * W).trace = σ 0 + σ 1 + (U * Vᵀ).det * σ 2 := by
  rw [h.trace_eq, bestRotation, h.conj_conj, weightedTrace_diagonal]
  simp
  ring

/-- No rotation has a larger trace against the matrix. -/
theorem trace_le (hR : IsRotation R) : (Rᵀ * W).trace ≤ ((bestRotation U V)ᵀ * W).trace := by
  rw [h.trace_best, h.trace_eq, ← det_conj U V hR.det]
  exact weightedTrace_le (h.conj_orthogonal hR.mul_transpose) h.weights

/-- With a gap no other rotation has the same trace. -/
theorem eq_best (hgap : 0 < svdGap U V σ) (hR : IsRotation R)
    (hmax : (Rᵀ * W).trace = ((bestRotation U V)ᵀ * W).trace) : R = bestRotation U V := by
  have horth := h.conj_orthogonal hR.mul_transpose
  have hdet := det_conj U V hR.det
  rw [h.trace_best, h.trace_eq, ← hdet] at hmax
  rw [svdGap_eq, ← hdet] at hgap
  have hQ := eq_of_weightedTrace horth h.weights hgap hmax
  calc R = U * (Uᵀ * R * V) * Vᵀ := (h.conj_cancel R).symm
    _ = bestRotation U V := by rw [hQ, hdet, bestRotation]

/-- Without a gap there is another one. -/
theorem exists_other (hgap : svdGap U V σ = 0) :
    ∃ S, IsRotation S ∧ S ≠ bestRotation U V ∧
      (Sᵀ * W).trace = ((bestRotation U V)ᵀ * W).trace := by
  refine ⟨U * diagonal ![1, -1, -(U * Vᵀ).det] * Vᵀ, ?_, ?_, ?_⟩
  · refine h.isRotation_diagonal (fun i => ?_) (by simp)
    rcases h.det_bases with hd | hd <;> rw [hd] <;> fin_cases i <;> simp
  · intro heq
    have hsame := congrArg (fun S => (Uᵀ * S * V) 1 1) heq
    simp only [bestRotation, h.conj_conj, diagonal_apply_eq] at hsame
    norm_num at hsame
  · rw [svdGap_eq] at hgap
    rw [h.trace_best, h.trace_eq, h.conj_conj, weightedTrace_other hgap]

/-- A gap needs two singular values that do not vanish. -/
theorem two_le_rank (hgap : 0 < svdGap U V σ) : 2 ≤ W.rank := by
  obtain ⟨h01, h12, hlast⟩ := h.weights
  have hsecond : 0 < σ 1 := by
    rw [svdGap_eq] at hgap
    rcases h.det_bases with hd | hd <;> rw [hd] at hgap <;> linarith
  have hU : IsUnit U.det := by
    rcases det_orthogonal h.left with hd | hd <;> rw [hd] <;> norm_num
  have hV : IsUnit Vᵀ.det := by
    rw [det_transpose]
    rcases det_orthogonal h.right with hd | hd <;> rw [hd] <;> norm_num
  rw [h.product, rank_mul_eq_left_of_isUnit_det _ _ hV, rank_mul_eq_right_of_isUnit_det _ _ hU,
    rank_diagonal, Nat.succ_le_iff, Fintype.one_lt_card_iff]
  exact ⟨⟨0, by linarith⟩, ⟨1, by linarith⟩, by simp⟩

end IsSvd

/-! ## The least error -/

variable {pairs : List ((Fin 3 → ℝ) × (Fin 3 → ℝ))}

/-- The translation that takes centre to centre. -/
noncomputable def centringTranslation (pairs : List ((Fin 3 → ℝ) × (Fin 3 → ℝ)))
    (R : Matrix (Fin 3) (Fin 3) ℝ) : Fin 3 → ℝ :=
  centroid (pairs.map Prod.fst) - R *ᵥ centroid (pairs.map Prod.snd)

theorem offCentre_centring (pairs : List ((Fin 3 → ℝ) × (Fin 3 → ℝ)))
    (R : Matrix (Fin 3) (Fin 3) ℝ) : offCentre pairs R (centringTranslation pairs R) = 0 := by
  rw [offCentre, centringTranslation]
  abel

theorem alignmentError_centring (hR : IsRotation R) :
    alignmentError pairs R (centringTranslation pairs R) =
      spread pairs - 2 * (Rᵀ * crossCovariance pairs).trace := by
  rw [alignmentError_eq pairs hR.transpose_mul, offCentre_centring, dotProduct_zero, mul_zero,
    add_zero]

theorem spread_sub_le (pairs : List ((Fin 3 → ℝ) × (Fin 3 → ℝ))) (hR : IsRotation R)
    (t : Fin 3 → ℝ) :
    spread pairs - 2 * (Rᵀ * crossCovariance pairs).trace ≤ alignmentError pairs R t := by
  have hsq : 0 ≤ offCentre pairs R t ⬝ᵥ offCentre pairs R t :=
    Finset.sum_nonneg fun i _ => mul_self_nonneg _
  rw [alignmentError_eq pairs hR.transpose_mul]
  have := mul_nonneg (Nat.cast_nonneg (α := ℝ) pairs.length) hsq
  linarith

/-- The best rotation with the translation of the centres makes the error least. -/
theorem IsSvd.alignmentError_le (h : IsSvd (crossCovariance pairs) U V σ) (hR : IsRotation R)
    (t : Fin 3 → ℝ) :
    alignmentError pairs (bestRotation U V) (centringTranslation pairs (bestRotation U V)) ≤
      alignmentError pairs R t := by
  have hle := h.trace_le hR
  have hlow := spread_sub_le pairs hR t
  rw [alignmentError_centring h.isRotation_best]
  linarith

/-- Its rotation is the only one exactly where there is a gap. -/
theorem IsSvd.unique_iff (h : IsSvd (crossCovariance pairs) U V σ) :
    (∀ S t, IsRotation S → alignmentError pairs S t =
        alignmentError pairs (bestRotation U V) (centringTranslation pairs (bestRotation U V)) →
      S = bestRotation U V) ↔ 0 < svdGap U V σ := by
  rw [alignmentError_centring h.isRotation_best]
  constructor
  · intro hunique
    by_contra hgap
    obtain ⟨S, hS, hne, htrace⟩ := h.exists_other (le_antisymm (not_lt.mp hgap) h.gap_nonneg)
    refine hne (hunique S (centringTranslation pairs S) hS ?_)
    rw [alignmentError_centring hS, htrace]
  · intro hgap S t hS herror
    have hlow := spread_sub_le pairs hS t
    refine h.eq_best hgap hS (le_antisymm (h.trace_le hS) ?_)
    linarith

/-! ## Exact motions -/

theorem alignmentError_nonneg (pairs : List ((Fin 3 → ℝ) × (Fin 3 → ℝ)))
    (R : Matrix (Fin 3) (Fin 3) ℝ) (t : Fin 3 → ℝ) : 0 ≤ alignmentError pairs R t := by
  refine List.sum_nonneg fun x hx => ?_
  obtain ⟨p, -, rfl⟩ := List.mem_map.mp hx
  exact Finset.sum_nonneg fun i _ => mul_self_nonneg _

/-- Without error every point is met. -/
theorem alignmentError_eq_zero_iff {t : Fin 3 → ℝ} :
    alignmentError pairs R t = 0 ↔ ∀ p ∈ pairs, p.1 = R *ᵥ p.2 + t := by
  induction pairs with
  | nil => simp [alignmentError]
  | cons p pairs ih =>
    have hsq : 0 ≤ (p.1 - (R *ᵥ p.2 + t)) ⬝ᵥ (p.1 - (R *ᵥ p.2 + t)) :=
      Finset.sum_nonneg fun i _ => mul_self_nonneg _
    have hsum : alignmentError (p :: pairs) R t =
        (p.1 - (R *ᵥ p.2 + t)) ⬝ᵥ (p.1 - (R *ᵥ p.2 + t)) + alignmentError pairs R t := rfl
    rw [hsum, add_eq_zero_iff_of_nonneg hsq (alignmentError_nonneg pairs R t), ih,
      dotProduct_self_eq_zero, sub_eq_zero, List.forall_mem_cons]

/-- Cross products turn with the vectors. -/
theorem IsRotation.cross (hR : IsRotation R) (x y : Fin 3 → ℝ) :
    R *ᵥ (x ⨯₃ y) = (R *ᵥ x) ⨯₃ (R *ᵥ y) := by
  have hadj : R.adjugate = Rᵀ := by
    rw [adjugate_orthogonal hR.mul_transpose, hR.det, one_smul]
  have hcofactor : R.adjugateᵀ *ᵥ (x ⨯₃ y) = (R *ᵥ x) ⨯₃ (R *ᵥ y) := by
    ext i
    fin_cases i <;>
      simp [adjugate_fin_three, cross_apply, mulVec, dotProduct, Fin.sum_univ_three] <;> ring
  rwa [hadj, transpose_transpose] at hcofactor

/-- A rotation that leaves two directions where they are does nothing. -/
theorem IsRotation.eq_one (hR : IsRotation R) {x y : Fin 3 → ℝ} (hx : R *ᵥ x = x) (hy : R *ᵥ y = y)
    (hxy : x ⨯₃ y ≠ 0) : R = 1 := by
  have hcross : R *ᵥ (x ⨯₃ y) = x ⨯₃ y := by rw [hR.cross, hx, hy]
  let M : Matrix (Fin 3) (Fin 3) ℝ := of ![x ⨯₃ y, x, y]
  have hdet : IsUnit M.det := by
    have htriple : M.det = (x ⨯₃ y) ⬝ᵥ (x ⨯₃ y) := (triple_product_eq_det _ _ _).symm
    rw [htriple]
    exact isUnit_iff_ne_zero.mpr (dotProduct_self_eq_zero.not.mpr hxy)
  have hfixed : M * Rᵀ = M := by
    ext i j
    have hrow : (M * Rᵀ) i j = (R *ᵥ M i) j := by
      rw [mul_apply, mulVec, dotProduct]
      exact Finset.sum_congr rfl fun k _ => mul_comm _ _
    rw [hrow]
    fin_cases i
    · exact congrFun hcross j
    · exact congrFun hx j
    · exact congrFun hy j
  have hone : Rᵀ = 1 := by
    rw [← nonsing_inv_mul_cancel_left M Rᵀ hdet, hfixed, nonsing_inv_mul M hdet]
  rw [← transpose_transpose R, hone, transpose_one]

/-- Points whose steps from the first one are all parallel lie on a line. -/
theorem collinear_of_cross {points : List (Fin 3 → ℝ)} {p : Fin 3 → ℝ} (hp : p ∈ points)
    (h : ∀ x ∈ points, ∀ y ∈ points, (x - p) ⨯₃ (y - p) = 0) : Collinear ℝ {x | x ∈ points} := by
  rw [collinear_iff_of_mem (show p ∈ {x | x ∈ points} from hp)]
  by_cases hall : ∀ x ∈ points, x - p = 0
  · exact ⟨0, fun x hx => ⟨0, by simpa using sub_eq_zero.mp (hall x hx)⟩⟩
  · push Not at hall
    obtain ⟨x, hx, hne⟩ := hall
    refine ⟨x - p, fun y hy => ?_⟩
    have hdependent := crossProduct_ne_zero_iff_linearIndependent.not.mp
      (not_not.mpr (h x hx y hy))
    rw [LinearIndependent.pair_iff' hne] at hdependent
    push Not at hdependent
    obtain ⟨r, hr⟩ := hdependent
    exact ⟨r, by rw [hr, vadd_eq_add, sub_add_cancel]⟩

/-- Two motions that agree on points off a line are one. -/
theorem IsRotation.eq_of_agree {S : Matrix (Fin 3) (Fin 3) ℝ} {s t : Fin 3 → ℝ}
    {points : List (Fin 3 → ℝ)} (hR : IsRotation R) (hS : IsRotation S)
    (hline : ¬Collinear ℝ {x | x ∈ points}) (h : ∀ x ∈ points, R *ᵥ x + t = S *ᵥ x + s) :
    R = S ∧ t = s := by
  have hrot : IsRotation (Sᵀ * R) :=
    { mul_transpose := by
        rw [Matrix.transpose_mul, transpose_transpose, Matrix.mul_assoc, ← Matrix.mul_assoc R,
          hR.mul_transpose, Matrix.one_mul, hS.transpose_mul]
      det := by rw [det_mul, det_transpose, hS.det, hR.det, one_mul] }
  obtain ⟨p, hp⟩ : ∃ p, p ∈ points := by
    by_contra hnone
    refine hline ?_
    have hempty : {x | x ∈ points} = ∅ := Set.eq_empty_of_forall_notMem fun x hx => hnone ⟨x, hx⟩
    rw [hempty]
    exact collinear_empty ℝ _
  have hfixed : ∀ x ∈ points, (Sᵀ * R) *ᵥ (x - p) = x - p := by
    intro x hx
    have hstep : R *ᵥ (x - p) = S *ᵥ (x - p) := by
      rw [mulVec_sub, mulVec_sub]
      have hxs := h x hx
      have hps := h p hp
      linear_combination hxs - hps
    rw [← mulVec_mulVec, hstep, mulVec_mulVec, hS.transpose_mul, one_mulVec]
  have hone : Sᵀ * R = 1 := by
    by_contra hne
    refine hline (collinear_of_cross hp fun x hx y hy => ?_)
    by_contra hxy
    exact hne (hrot.eq_one (hfixed x hx) (hfixed y hy) hxy)
  have hsame : R = S := by
    rw [← Matrix.one_mul R, ← hS.mul_transpose, Matrix.mul_assoc, hone, Matrix.mul_one]
  refine ⟨hsame, ?_⟩
  have hps := h p hp
  rw [hsame] at hps
  exact add_left_cancel hps

end Svd

end FastLivo.Lib
