import Mathlib.Algebra.CharP.Two
import Mathlib.Algebra.Field.ZMod
import Mathlib.Algebra.Polynomial.FieldDivision

/-!
# Bit strings as polynomials over GF(2)

A bit string is a polynomial whose highest power is the first bit. A register that holds its lowest
power in the highest bit divides by a generator polynomial as it is shifted to the right. A
generator with a constant term tells any two multiples of it apart that differ within as many bits
as it has.
-/

namespace FastLivo.Lib

open Polynomial

/-- The first `n` bits, the first one as the highest power. -/
noncomputable def bitPoly (n : ℕ) (f : ℕ → Bool) : (ZMod 2)[X] :=
  ∑ i ∈ Finset.range n, if f i then X ^ (n - 1 - i) else 0

section BitPoly

variable {n m : ℕ} {f g : ℕ → Bool}

theorem bitPoly_congr (h : ∀ i < n, f i = g i) : bitPoly n f = bitPoly n g :=
  Finset.sum_congr rfl fun i hi => by rw [h i (Finset.mem_range.mp hi)]

theorem bitPoly_eq_zero (h : ∀ i < n, f i = false) : bitPoly n f = 0 :=
  Finset.sum_eq_zero fun i hi => by
    rw [h i (Finset.mem_range.mp hi), if_neg Bool.false_ne_true]

/-- Exclusive or is addition. -/
theorem bitPoly_xor (n : ℕ) (f g : ℕ → Bool) :
    bitPoly n (fun i => f i ^^ g i) = bitPoly n f + bitPoly n g := by
  unfold bitPoly
  rw [← Finset.sum_add_distrib]
  refine Finset.sum_congr rfl fun i _ => ?_
  show (if f i ^^ g i then X ^ (n - 1 - i) else 0) = _
  generalize f i = a
  generalize g i = b
  cases a <;> cases b <;> simp [CharTwo.add_self_eq_zero]

/-- A string of two parts. -/
theorem bitPoly_append (m n : ℕ) (f : ℕ → Bool) :
    bitPoly (m + n) f = bitPoly m f * X ^ n + bitPoly n fun i => f (m + i) := by
  unfold bitPoly
  rw [Finset.sum_range_add, Finset.sum_mul]
  congr 1
  · refine Finset.sum_congr rfl fun i hi => ?_
    have hlt := Finset.mem_range.mp hi
    rw [ite_mul, zero_mul, ← pow_add]
    congr 2
    omega
  · refine Finset.sum_congr rfl fun i _ => ?_
    congr 2
    omega

theorem coeff_bitPoly (n : ℕ) (f : ℕ → Bool) (j : ℕ) :
    (bitPoly n f).coeff j = if j < n ∧ f (n - 1 - j) = true then 1 else 0 := by
  have hterm (i : ℕ) : (if f i then X ^ (n - 1 - i) else 0 : (ZMod 2)[X]).coeff j =
      if f i = true ∧ j = n - 1 - i then 1 else 0 := by
    cases f i <;> simp [coeff_X_pow]
  rw [bitPoly, finsetSum_coeff]
  simp only [hterm]
  by_cases hj : j < n
  · rw [Finset.sum_eq_single_of_mem (n - 1 - j) (Finset.mem_range.mpr (by omega))]
    · refine if_congr ⟨fun h => ⟨hj, h.1⟩, fun h => ⟨h.2, by omega⟩⟩ rfl rfl
    · intro i hi hne
      have hlt := Finset.mem_range.mp hi
      exact if_neg fun h => hne (by omega)
  · rw [if_neg fun h => hj h.1]
    refine Finset.sum_eq_zero fun i hi => if_neg fun h => ?_
    have hlt := Finset.mem_range.mp hi
    omega

theorem degree_bitPoly_lt (n : ℕ) (f : ℕ → Bool) : (bitPoly n f).degree < n := by
  rw [degree_lt_iff_coeff_zero]
  intro j hj
  rw [coeff_bitPoly, if_neg fun h => absurd h.1 (not_lt.mpr hj)]

/-- The polynomial determines the bits. -/
theorem eq_of_bitPoly_eq (h : bitPoly n f = bitPoly n g) : ∀ i < n, f i = g i := by
  intro i hi
  have hcoeff := congrArg (fun p => coeff p (n - 1 - i)) h
  have hback : n - 1 - (n - 1 - i) = i := by omega
  have hlt : n - 1 - i < n := by omega
  simp only [coeff_bitPoly, hback, hlt, true_and] at hcoeff
  cases hf : f i <;> cases hg : g i <;> simp [hf, hg] at hcoeff ⊢

end BitPoly

/-! ## Registers -/

section Register

variable {w : ℕ}

/-- A register: its lowest bit is the highest power. -/
noncomputable def regPoly (r : BitVec w) : (ZMod 2)[X] := bitPoly w r.getLsbD

/-- The generator of the feedback word. -/
noncomputable def generator (q : BitVec w) : (ZMod 2)[X] := X ^ w + regPoly q

/-- One step: shift right, and subtract the generator if a bit falls out. -/
def crcShift (q r : BitVec w) : BitVec w := if r.getLsbD 0 then (r >>> 1) ^^^ q else r >>> 1

theorem regPoly_injective {r s : BitVec w} (h : regPoly r = regPoly s) : r = s :=
  BitVec.eq_of_getLsbD_eq fun i hi => eq_of_bitPoly_eq h i hi

theorem regPoly_xor (r s : BitVec w) : regPoly (r ^^^ s) = regPoly r + regPoly s := by
  rw [regPoly, regPoly, regPoly, ← bitPoly_xor]
  exact bitPoly_congr fun i _ => BitVec.getLsbD_xor

theorem degree_regPoly_lt (r : BitVec w) : (regPoly r).degree < w := degree_bitPoly_lt w _

theorem generator_monic (q : BitVec w) : (generator q).Monic := monic_X_pow_add (degree_regPoly_lt q)

theorem degree_generator (q : BitVec w) : (generator q).degree = w := by
  rw [generator, degree_add_eq_left_of_degree_lt] <;> rw [degree_X_pow]
  exact degree_regPoly_lt q

/-- A shift to the right multiplies by a power of `X` and loses the bits that fall out. -/
theorem regPoly_shift (r : BitVec w) {k : ℕ} (hk : k ≤ w) :
    regPoly r * X ^ k = bitPoly k r.getLsbD * X ^ w + regPoly (r >>> k) := by
  obtain ⟨m, rfl⟩ := Nat.exists_eq_add_of_le hk
  have hshift : regPoly (r >>> k) = bitPoly m (fun i => r.getLsbD (k + i)) * X ^ k := by
    have hlow : regPoly (r >>> k) = bitPoly (m + k) fun i => r.getLsbD (k + i) := by
      rw [regPoly, Nat.add_comm m k]
      exact bitPoly_congr fun i _ => BitVec.getLsbD_ushiftRight r k i
    rw [hlow, bitPoly_append, bitPoly_eq_zero (n := k), add_zero]
    intro i _
    exact BitVec.getLsbD_of_ge _ _ (by omega)
  rw [regPoly, bitPoly_append, hshift, add_mul, mul_assoc, ← pow_add, Nat.add_comm m k]

/-- A step multiplies by `X` modulo the generator. -/
theorem generator_dvd_shift (q r : BitVec w) (hw : 0 < w) :
    generator q ∣ regPoly (crcShift q r) - regPoly r * X := by
  have hshift : regPoly r * X ^ 1 = bitPoly 1 r.getLsbD * X ^ w + regPoly (r >>> 1) :=
    regPoly_shift r hw
  have hone : bitPoly 1 r.getLsbD = if r.getLsbD 0 then 1 else 0 := by
    rw [bitPoly, Finset.sum_range_one, Nat.sub_zero, Nat.sub_self, pow_zero]
  rw [pow_one, hone] at hshift
  rw [hshift, crcShift]
  cases r.getLsbD 0 with
  | false =>
    rw [if_neg Bool.false_ne_true, if_neg Bool.false_ne_true, zero_mul, zero_add, sub_self]
    exact dvd_zero _
  | true =>
    rw [if_pos rfl, if_pos rfl, one_mul, regPoly_xor, CharTwo.sub_eq_add, generator]
    have hsum : regPoly (r >>> 1) + regPoly q + (X ^ w + regPoly (r >>> 1)) =
        X ^ w + regPoly q + (regPoly (r >>> 1) + regPoly (r >>> 1)) := by ring
    rw [hsum, CharTwo.add_self_eq_zero, add_zero]

theorem generator_dvd_shifts (q r : BitVec w) (hw : 0 < w) (n : ℕ) :
    generator q ∣ regPoly ((crcShift q)^[n] r) - regPoly r * X ^ n := by
  induction n with
  | zero =>
    rw [Function.iterate_zero_apply, pow_zero, mul_one, sub_self]
    exact dvd_zero _
  | succ n ih =>
    rw [Function.iterate_succ_apply']
    have hstep := generator_dvd_shift q ((crcShift q)^[n] r) hw
    have hsum : regPoly (crcShift q ((crcShift q)^[n] r)) - regPoly r * X ^ (n + 1) =
        regPoly (crcShift q ((crcShift q)^[n] r)) - regPoly ((crcShift q)^[n] r) * X +
          (regPoly ((crcShift q)^[n] r) - regPoly r * X ^ n) * X := by ring
    rw [hsum]
    exact dvd_add hstep (ih.mul_right X)

end Register

/-! ## Bursts -/

/-- Two multiples of a polynomial with a constant term that differ within as many bits as its
degree are equal. -/
theorem eq_of_burst {P : (ZMod 2)[X]} {w : ℕ} (hdegree : P.degree = w) (hconst : P.coeff 0 ≠ 0)
    {N k : ℕ} {f g : ℕ → Bool} (hf : P ∣ bitPoly N f) (hg : P ∣ bitPoly N g)
    (hburst : ∀ i < N, f i ≠ g i → k ≤ i ∧ i < k + w) : ∀ i < N, f i = g i := by
  let d : ℕ → Bool := fun i => f i ^^ g i
  have hclear {i : ℕ} (hi : i < N) (hout : ¬(k ≤ i ∧ i < k + w)) : d i = false := by
    have heq : f i = g i := by
      by_contra hne
      exact hout (hburst i hi hne)
    show (f i ^^ g i) = false
    rw [heq, Bool.xor_self]
  have hdvd : P ∣ bitPoly N d := by
    rw [bitPoly_xor]
    exact dvd_add hf hg
  -- The bits before the burst, the burst and the bits behind it.
  obtain ⟨m, hm⟩ := Nat.exists_eq_add_of_le (Nat.min_le_right k N)
  obtain ⟨r, hr⟩ := Nat.exists_eq_add_of_le (Nat.min_le_right w m)
  have hsplit : bitPoly N d = bitPoly (min w m) (fun i => d (min k N + i)) * X ^ r := by
    calc bitPoly N d
        = bitPoly (min k N) d * X ^ m + bitPoly m (fun i => d (min k N + i)) := by
          rw [← bitPoly_append, ← hm]
      _ = bitPoly m (fun i => d (min k N + i)) := by
          rw [bitPoly_eq_zero (n := min k N), zero_mul, zero_add]
          intro i hi
          exact hclear (by omega) (by omega)
      _ = bitPoly (min w m) (fun i => d (min k N + i)) * X ^ r +
            bitPoly r (fun i => d (min k N + (min w m + i))) := by
          rw [← bitPoly_append, ← hr]
      _ = bitPoly (min w m) (fun i => d (min k N + i)) * X ^ r := by
          rw [bitPoly_eq_zero (n := r), add_zero]
          intro i hi
          exact hclear (by omega) (by omega)
  have hcoprime : IsCoprime P (X ^ r) := by
    refine (IsCoprime.symm ?_).pow_right
    refine (irreducible_X (R := ZMod 2)).coprime_iff_not_dvd.mpr fun hX => hconst ?_
    exact X_dvd_iff.mp hX
  rw [hsplit] at hdvd
  have hzero : bitPoly (min w m) (fun i => d (min k N + i)) = 0 := by
    refine eq_zero_of_dvd_of_degree_lt (hcoprime.dvd_of_dvd_mul_right hdvd) ?_
    rw [hdegree]
    exact (degree_bitPoly_lt _ _).trans_le (Nat.cast_le.mpr (Nat.min_le_left w m))
  have hall (i : ℕ) (hi : i < N) : d i = false := by
    by_cases hin : k ≤ i ∧ i < k + w
    · have hbit := eq_of_bitPoly_eq (g := fun _ => false)
        (hzero.trans (bitPoly_eq_zero fun _ _ => rfl).symm) (i - min k N) (by omega)
      have hindex : min k N + (i - min k N) = i := by omega
      rwa [hindex] at hbit
    · exact hclear hi hin
  intro i hi
  have hxor : (f i ^^ g i) = false := hall i hi
  cases hfi : f i <;> cases hgi : g i <;> simp [hfi, hgi] at hxor ⊢

end FastLivo.Lib
