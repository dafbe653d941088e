import FastLivo.Lib.BitPolynomial
import Mathlib.Data.List.GetD
import Mathlib.Tactic.IntervalCases

/-!
# The checksum of CHCNAV messages

`hc__cgi_check_crc32` compares the last four bytes of a frame with a CRC-32 of the bytes before
them. The loop over the bytes is polynomial division, so a frame passes if the generator divides
it, and frames that pass never differ by a burst of 32 bits or fewer.
-/

namespace FastLivo.Chcnav

open Polynomial FastLivo.Lib

/-! ## The code -/

/-- One round of the loop in `return_crc32_value`. -/
def crcRound (ulCRC : UInt32) : UInt32 :=
  if ulCRC &&& 1 ≠ 0 then (ulCRC >>> 1) ^^^ 0xEDB88320 else ulCRC >>> 1

/-- `return_crc32_value`. -/
def returnCrc32Value (i : UInt32) : UInt32 := crcRound^[8] i

/-- The body of the loop in `get_crc32_value`. -/
def crcByte (ulCRC : UInt32) (byte : UInt8) : UInt32 :=
  let ulTemp1 := (ulCRC >>> 8) &&& 0x00FFFFFF
  let ulTemp2 := returnCrc32Value ((ulCRC ^^^ byte.toUInt32) &&& 0xff)
  ulTemp1 ^^^ ulTemp2

/-- The loop in `get_crc32_value`; `none` when it reads behind the buffer. -/
def crcLoop : ℕ → List UInt8 → UInt32 → Option UInt32
  | 0, _, ulCRC => some ulCRC
  | _ + 1, [], _ => none
  | ulCount + 1, byte :: rest, ulCRC => crcLoop ulCount rest (crcByte ulCRC byte)

/-- `get_crc32_value`. `ucBuffer` is `none` for a null pointer. -/
def getCrc32Value (ulCount : UInt32) (ucBuffer : Option (List UInt8)) (ulCRC : UInt32) :
    Option UInt32 :=
  match ucBuffer with
  | none => some 0
  | some bytes => crcLoop ulCount.toNat bytes ulCRC

/-- `*(unsigned int *)(&ucBuffer[index])` on a little-endian machine. -/
def wordAt (ucBuffer : List UInt8) (index : ℕ) : Option UInt32 := do
  let b0 ← ucBuffer[index]?
  let b1 ← ucBuffer[index + 1]?
  let b2 ← ucBuffer[index + 2]?
  let b3 ← ucBuffer[index + 3]?
  pure (b0.toUInt32 ||| b1.toUInt32 <<< 8 ||| b2.toUInt32 <<< 16 ||| b3.toUInt32 <<< 24)

/-- `hc__cgi_check_crc32`. -/
def hcCgiCheckCrc32 (ucBuffer : List UInt8) (len : UInt32) : Option Int := do
  let crcOrigin ← wordAt ucBuffer (len - 4).toNat
  let crcResult ← getCrc32Value (len - 4) (some ucBuffer) 0
  pure (if crcOrigin = crcResult then 0 else -1)

/-! ## Bits and polynomials -/

/-- Bit `i` of a byte string, the least significant bit of each byte first. -/
def bitAt (bytes : List UInt8) (i : ℕ) : Bool := (bytes.getD (i / 8) 0).toBitVec.getLsbD (i % 8)

/-- The polynomial of CRC-32. -/
noncomputable def crc32Polynomial : (ZMod 2)[X] :=
  X ^ 32 + X ^ 26 + X ^ 23 + X ^ 22 + X ^ 16 + X ^ 12 + X ^ 11 + X ^ 10 + X ^ 8 + X ^ 7 + X ^ 5 +
    X ^ 4 + X ^ 2 + X + 1

/-- Two strings differ, and only within 32 consecutive bits. -/
def Burst (frame other : List UInt8) : Prop :=
  other ≠ frame ∧ ∃ k, ∀ i, bitAt frame i ≠ bitAt other i → k ≤ i ∧ i < k + 32

/-- The feedback word is the reflected polynomial. -/
theorem generator_feedback : generator 0xEDB88320#32 = crc32Polynomial := by
  have hbits : regPoly 0xEDB88320#32 = X ^ 26 + X ^ 23 + X ^ 22 + X ^ 16 + X ^ 12 + X ^ 11 +
      X ^ 10 + X ^ 8 + X ^ 7 + X ^ 5 + X ^ 4 + X ^ 2 + X + 1 := by
    simp [regPoly, bitPoly, Finset.sum_range_succ]
  rw [generator, hbits, crc32Polynomial]
  ring

theorem crc32Polynomial_monic : crc32Polynomial.Monic :=
  generator_feedback ▸ generator_monic 0xEDB88320#32

theorem degree_crc32Polynomial : crc32Polynomial.degree = (32 : ℕ) :=
  generator_feedback ▸ degree_generator 0xEDB88320#32

theorem crc32Polynomial_coeff_zero : crc32Polynomial.coeff 0 ≠ 0 := by
  have hone : crc32Polynomial.coeff 0 = 1 := by
    simp [crc32Polynomial, coeff_X_pow, coeff_X, coeff_one]
  rw [hone]
  exact one_ne_zero

/-! ## One byte -/

theorem toBitVec_crcRound (c : UInt32) :
    (crcRound c).toBitVec = crcShift 0xEDB88320#32 c.toBitVec := by
  have hlow : c &&& 1 ≠ 0 ↔ c.toBitVec.getLsbD 0 = true := by
    rw [Ne, ← UInt32.toBitVec_inj, UInt32.toBitVec_and]
    have hbit : c.toBitVec &&& 1#32 = BitVec.setWidth 32 (BitVec.ofBool (c.toBitVec.getLsbD 0)) :=
      BitVec.and_one_eq_setWidth_ofBool_getLsbD
    show ¬c.toBitVec &&& 1#32 = 0#32 ↔ _
    rw [hbit]
    cases c.toBitVec.getLsbD 0 <;> decide
  rw [crcRound, crcShift]
  simp only [hlow]
  split <;> rfl

theorem toBitVec_returnCrc32Value (c : UInt32) :
    (returnCrc32Value c).toBitVec = (crcShift 0xEDB88320#32)^[8] c.toBitVec :=
  Function.Semiconj.iterate_right (f := UInt32.toBitVec) toBitVec_crcRound 8 c

/-- A mask of the low bits. -/
theorem getLsbD_and_mask (r : BitVec 32) (k i : ℕ) :
    (r &&& BitVec.ofNat 32 (2 ^ k - 1)).getLsbD i = (decide (i < k) && r.getLsbD i) := by
  rw [BitVec.getLsbD_and, BitVec.getLsbD_ofNat, Nat.testBit_two_pow_sub_one]
  by_cases hi : i < 32
  · rw [decide_eq_true hi, Bool.true_and, Bool.and_comm]
  · rw [BitVec.getLsbD_of_ge r i (not_lt.mp hi), Bool.false_and, Bool.and_false]

/-- The register after exclusive or with the byte, split as the loop splits it. -/
theorem toBitVec_crcByte (c : UInt32) (b : UInt8) :
    (crcByte c b).toBitVec = (c.toBitVec >>> 8) ^^^
      (crcShift 0xEDB88320#32)^[8] ((c.toBitVec ^^^ b.toBitVec.setWidth 32) &&& 0xff#32) := by
  have hlow : ((c ^^^ b.toUInt32) &&& 0xff).toBitVec =
      (c.toBitVec ^^^ b.toBitVec.setWidth 32) &&& 0xff#32 := rfl
  have hmask : ((c >>> 8) &&& 0x00FFFFFF).toBitVec = c.toBitVec >>> 8 := by
    show (c.toBitVec >>> 8) &&& 0x00FFFFFF#32 = c.toBitVec >>> 8
    refine BitVec.eq_of_getLsbD_eq fun i hi => ?_
    have hand := getLsbD_and_mask (c.toBitVec >>> 8) 24 i
    rw [BitVec.getLsbD_ushiftRight] at hand ⊢
    refine hand.trans ?_
    by_cases hlt : i < 24
    · rw [decide_eq_true hlt, Bool.true_and]
    · rw [BitVec.getLsbD_of_ge c.toBitVec (8 + i) (by omega), Bool.and_false]
  rw [crcByte, UInt32.toBitVec_xor, toBitVec_returnCrc32Value, hlow, hmask]

/-- A byte multiplies the register by `X ^ 8` and adds its bits behind it. -/
theorem crcByte_dvd (c : UInt32) (b : UInt8) :
    crc32Polynomial ∣ regPoly (crcByte c b).toBitVec -
      (regPoly c.toBitVec * X ^ 8 + bitPoly 8 b.toBitVec.getLsbD * X ^ 32) := by
  let low := (c.toBitVec ^^^ b.toBitVec.setWidth 32) &&& 0xff#32
  have hshift : regPoly c.toBitVec * X ^ 8 =
      bitPoly 8 c.toBitVec.getLsbD * X ^ 32 + regPoly (c.toBitVec >>> 8) :=
    regPoly_shift c.toBitVec (by omega)
  have hlow : regPoly low * X ^ 8 =
      (bitPoly 8 c.toBitVec.getLsbD + bitPoly 8 b.toBitVec.getLsbD) * X ^ 32 := by
    have hsplit : regPoly low * X ^ 8 = bitPoly 8 low.getLsbD * X ^ 32 + regPoly (low >>> 8) :=
      regPoly_shift low (by omega)
    have hbits : bitPoly 8 low.getLsbD =
        bitPoly 8 c.toBitVec.getLsbD + bitPoly 8 b.toBitVec.getLsbD := by
      rw [← bitPoly_xor]
      refine bitPoly_congr fun i hi => ?_
      refine (getLsbD_and_mask (c.toBitVec ^^^ b.toBitVec.setWidth 32) 8 i).trans ?_
      rw [decide_eq_true hi, Bool.true_and, BitVec.getLsbD_xor, BitVec.getLsbD_setWidth,
        decide_eq_true (hi.trans (by omega)), Bool.true_and]
    have hnone : regPoly (low >>> 8) = 0 := by
      refine bitPoly_eq_zero fun i hi => ?_
      rw [BitVec.getLsbD_ushiftRight]
      refine (getLsbD_and_mask (c.toBitVec ^^^ b.toBitVec.setWidth 32) 8 (8 + i)).trans ?_
      rw [decide_eq_false (by omega), Bool.false_and]
    rw [hsplit, hbits, hnone, add_zero]
  have hdvd := generator_dvd_shifts 0xEDB88320#32 low (by omega) 8
  rw [generator_feedback, hlow] at hdvd
  have hsum : regPoly (crcByte c b).toBitVec -
      (regPoly c.toBitVec * X ^ 8 + bitPoly 8 b.toBitVec.getLsbD * X ^ 32) =
      regPoly ((crcShift 0xEDB88320#32)^[8] low) -
        (bitPoly 8 c.toBitVec.getLsbD + bitPoly 8 b.toBitVec.getLsbD) * X ^ 32 := by
    rw [toBitVec_crcByte, regPoly_xor, hshift]
    ring
  rwa [hsum]

/-! ## The loop -/

section Loop

variable {frame other : List UInt8} {n : ℕ}

theorem bitAt_cons_low (b : UInt8) (rest : List UInt8) {i : ℕ} (hi : i < 8) :
    bitAt (b :: rest) i = b.toBitVec.getLsbD i := by
  rw [bitAt, Nat.div_eq_of_lt hi, Nat.mod_eq_of_lt hi, List.getD_cons_zero]

theorem bitAt_cons_high (b : UInt8) (rest : List UInt8) (i : ℕ) :
    bitAt (b :: rest) (8 + i) = bitAt rest i := by
  have hdiv : (8 + i) / 8 = i / 8 + 1 := by omega
  have hmod : (8 + i) % 8 = i % 8 := by omega
  rw [bitAt, hdiv, hmod, List.getD_cons_succ, bitAt]

/-- The bits of a string behind its first byte. -/
theorem bitPoly_bitAt_cons (b : UInt8) (rest : List UInt8) (n : ℕ) :
    bitPoly (8 * (n + 1)) (bitAt (b :: rest)) =
      bitPoly 8 b.toBitVec.getLsbD * X ^ (8 * n) + bitPoly (8 * n) (bitAt rest) := by
  have hlen : 8 * (n + 1) = 8 + 8 * n := by omega
  have hlow : bitPoly 8 (bitAt (b :: rest)) = bitPoly 8 b.toBitVec.getLsbD :=
    bitPoly_congr fun i hi => bitAt_cons_low b rest hi
  have hhigh : bitPoly (8 * n) (fun i => bitAt (b :: rest) (8 + i)) = bitPoly (8 * n) (bitAt rest) :=
    bitPoly_congr fun i _ => bitAt_cons_high b rest i
  rw [hlen, bitPoly_append, hlow, hhigh]

/-- The loop reads the first `n` bytes, and its register is congruent to them modulo the
polynomial. -/
theorem crcLoop_dvd (hn : n ≤ frame.length) (c : UInt32) : ∃ crc, crcLoop n frame c = some crc ∧
    crc32Polynomial ∣ regPoly crc.toBitVec -
      (regPoly c.toBitVec * X ^ (8 * n) + bitPoly (8 * n) (bitAt frame) * X ^ 32) := by
  induction n generalizing frame c with
  | zero =>
    refine ⟨c, rfl, ?_⟩
    have hempty : bitPoly (8 * 0) (bitAt frame) = 0 := Finset.sum_range_zero _
    rw [hempty, Nat.mul_zero, pow_zero, mul_one, zero_mul, add_zero, sub_self]
    exact dvd_zero _
  | succ n ih =>
    cases frame with
    | nil => exact absurd hn (Nat.not_succ_le_zero n)
    | cons b rest =>
      obtain ⟨crc, hrun, hdvd⟩ := ih (Nat.le_of_succ_le_succ hn) (crcByte c b)
      refine ⟨crc, hrun, ?_⟩
      have hsum : regPoly crc.toBitVec - (regPoly c.toBitVec * X ^ (8 * (n + 1)) +
            bitPoly (8 * (n + 1)) (bitAt (b :: rest)) * X ^ 32) =
          regPoly crc.toBitVec - (regPoly (crcByte c b).toBitVec * X ^ (8 * n) +
            bitPoly (8 * n) (bitAt rest) * X ^ 32) +
          (regPoly (crcByte c b).toBitVec - (regPoly c.toBitVec * X ^ 8 +
            bitPoly 8 b.toBitVec.getLsbD * X ^ 32)) * X ^ (8 * n) := by
        rw [bitPoly_bitAt_cons]
        ring
      rw [hsum]
      exact dvd_add hdvd ((crcByte_dvd c b).mul_right _)

/-- A register congruent to a polynomial holds its remainder. -/
theorem regPoly_eq_modByMonic {r : BitVec 32} {p : (ZMod 2)[X]}
    (h : crc32Polynomial ∣ regPoly r - p) : regPoly r = p %ₘ crc32Polynomial := by
  have hself : regPoly r %ₘ crc32Polynomial = regPoly r :=
    (modByMonic_eq_self_iff crc32Polynomial_monic).mpr (by
      rw [degree_crc32Polynomial]
      exact degree_regPoly_lt r)
  have hzero := (modByMonic_eq_zero_iff_dvd crc32Polynomial_monic).mpr h
  rw [sub_modByMonic, sub_eq_zero, hself] at hzero
  exact hzero

/-- Strings of one length with the same bits are equal. -/
theorem eq_of_bitAt_eq (hlen : other.length = frame.length)
    (hbits : ∀ i < 8 * frame.length, bitAt frame i = bitAt other i) : other = frame := by
  refine List.ext_getElem hlen fun j hj hj' => ?_
  rw [← UInt8.toBitVec_inj]
  refine BitVec.eq_of_getLsbD_eq fun k hk => ?_
  have hbit := hbits (8 * j + k) (by omega)
  have hdiv : (8 * j + k) / 8 = j := by omega
  have hmod : (8 * j + k) % 8 = k := by omega
  rw [bitAt, bitAt, hdiv, hmod, List.getD_eq_getElem _ _ hj, List.getD_eq_getElem _ _ hj'] at hbit
  exact hbit.symm

theorem bitAt_zipWith_xor (hlen : other.length = frame.length) (i : ℕ) :
    bitAt (List.zipWith (· ^^^ ·) frame other) i = (bitAt frame i ^^ bitAt other i) := by
  have hlength : (List.zipWith (· ^^^ ·) frame other).length = frame.length := by
    rw [List.length_zipWith, hlen, Nat.min_self]
  by_cases hi : i / 8 < frame.length
  · rw [bitAt, bitAt, bitAt, List.getD_eq_getElem _ _ (hlength ▸ hi), List.getElem_zipWith,
      List.getD_eq_getElem _ _ hi, List.getD_eq_getElem _ _ (hlen ▸ hi), UInt8.toBitVec_xor,
      BitVec.getLsbD_xor]
  · have hout := not_lt.mp hi
    rw [bitAt, bitAt, bitAt, List.getD_eq_default _ _ (hlength ▸ hout),
      List.getD_eq_default _ _ hout, List.getD_eq_default _ _ (hlen ▸ hout)]
    simp

end Loop

/-! ## The last four bytes -/

/-- A byte moved to place `p` of a word fills that place alone. -/
theorem getLsbD_shiftLeft_byte (b : UInt8) {p q k : ℕ} (hq : q < 4) (hk : k < 8) :
    (b.toBitVec.setWidth 32 <<< (8 * p)).getLsbD (8 * q + k) =
      (decide (p = q) && b.toBitVec.getLsbD k) := by
  rw [BitVec.getLsbD_shiftLeft, BitVec.getLsbD_setWidth, decide_eq_true (by omega : 8 * q + k < 32),
    decide_eq_true (by omega : 8 * q + k - 8 * p < 32), Bool.true_and, Bool.true_and]
  rcases Nat.lt_trichotomy p q with hlt | rfl | hgt
  · rw [BitVec.getLsbD_of_ge _ _ (by omega), decide_eq_false hlt.ne, Bool.and_false, Bool.false_and]
  · rw [decide_eq_false (by omega), Nat.add_sub_cancel_left, decide_eq_true rfl, Bool.not_false]
  · rw [decide_eq_true (by omega), decide_eq_false hgt.ne', Bool.not_true, Bool.false_and,
      Bool.false_and]

/-- The word of four bytes, the lowest first. -/
theorem getLsbD_word (b0 b1 b2 b3 : UInt8) {q k : ℕ} (hq : q < 4) (hk : k < 8) :
    (b0.toUInt32 ||| b1.toUInt32 <<< 8 ||| b2.toUInt32 <<< 16 |||
      b3.toUInt32 <<< 24).toBitVec.getLsbD (8 * q + k) =
      ([b0, b1, b2, b3].getD q 0).toBitVec.getLsbD k := by
  have hword : (b0.toUInt32 ||| b1.toUInt32 <<< 8 ||| b2.toUInt32 <<< 16 |||
      b3.toUInt32 <<< 24).toBitVec =
        b0.toBitVec.setWidth 32 <<< (8 * 0) ||| b1.toBitVec.setWidth 32 <<< (8 * 1) |||
          b2.toBitVec.setWidth 32 <<< (8 * 2) ||| b3.toBitVec.setWidth 32 <<< (8 * 3) := by
    rw [Nat.mul_zero, BitVec.shiftLeft_zero]
    rfl
  rw [hword, BitVec.getLsbD_or, BitVec.getLsbD_or, BitVec.getLsbD_or,
    getLsbD_shiftLeft_byte b0 hq hk, getLsbD_shiftLeft_byte b1 hq hk,
    getLsbD_shiftLeft_byte b2 hq hk, getLsbD_shiftLeft_byte b3 hq hk]
  interval_cases q <;> simp

section Gate

variable {frame other : List UInt8} {len : UInt32}

theorem wordAt_eq_some {i : ℕ} (hi : i + 4 ≤ frame.length) : ∃ word, wordAt frame i = some word ∧
    regPoly word.toBitVec = bitPoly 32 fun j => bitAt frame (8 * i + j) := by
  have hread {j : ℕ} (hj : j < frame.length) : frame[j]? = some (frame.getD j 0) := by
    rw [List.getD_eq_getElem _ _ hj, List.getElem?_eq_getElem hj]
  refine ⟨(frame.getD i 0).toUInt32 ||| (frame.getD (i + 1) 0).toUInt32 <<< 8 |||
    (frame.getD (i + 2) 0).toUInt32 <<< 16 ||| (frame.getD (i + 3) 0).toUInt32 <<< 24, ?_, ?_⟩
  · rw [wordAt, hread (by omega), hread (by omega), hread (by omega), hread (by omega)]
    rfl
  · refine bitPoly_congr fun j hj => ?_
    have hsplit : j = 8 * (j / 8) + j % 8 := (Nat.div_add_mod j 8).symm
    have hdiv : (8 * i + j) / 8 = i + j / 8 := by omega
    have hmod : (8 * i + j) % 8 = j % 8 := by omega
    have hq : j / 8 < 4 := by omega
    rw [bitAt, hdiv, hmod]
    conv_lhs => rw [hsplit]
    rw [getLsbD_word _ _ _ _ hq (Nat.mod_lt j (by omega))]
    generalize j / 8 = q at hq
    interval_cases q <;> rfl

/-- The loop over a whole string leaves the remainder. -/
theorem getCrc32Value_eq (hlen : frame.length = len.toNat) :
    ∃ crc, getCrc32Value len (some frame) 0 = some crc ∧ regPoly crc.toBitVec =
      (bitPoly (8 * len.toNat) (bitAt frame) * X ^ 32) %ₘ crc32Polynomial := by
  obtain ⟨crc, hcrc, hdvd⟩ := crcLoop_dvd hlen.ge 0
  have hzero : regPoly (0 : UInt32).toBitVec = 0 := bitPoly_eq_zero fun i _ => BitVec.getLsbD_zero
  rw [hzero, zero_mul, zero_add] at hdvd
  exact ⟨crc, hcrc, regPoly_eq_modByMonic hdvd⟩

/-- A frame passes if and only if the polynomial divides it. -/
theorem check_eq (hlen : frame.length = len.toNat) (hfour : 4 ≤ frame.length) :
    ∃ code, hcCgiCheckCrc32 frame len = some code ∧ (code = 0 ∨ code = -1) ∧
      (code = 0 ↔ crc32Polynomial ∣ bitPoly (8 * frame.length) (bitAt frame)) := by
  have hsub : (len - 4).toNat = frame.length - 4 := by
    rw [UInt32.toNat_sub_of_le _ _ (UInt32.le_iff_toNat_le.mpr (hlen ▸ hfour)), ← hlen]
    rfl
  have hword : frame.length - 4 + 4 ≤ frame.length := (Nat.sub_add_cancel hfour).le
  obtain ⟨word, hword, hpoly⟩ := wordAt_eq_some hword
  have hbefore : frame.length - 4 ≤ frame.length := Nat.sub_le frame.length 4
  obtain ⟨crc, hcrc, hdvd⟩ := crcLoop_dvd hbefore 0
  have hrun : hcCgiCheckCrc32 frame len = some (if word = crc then 0 else -1) := by
    rw [hcCgiCheckCrc32, getCrc32Value, hsub, hword, hcrc]
    rfl
  have hzero : regPoly (0 : UInt32).toBitVec = 0 := bitPoly_eq_zero fun i _ => BitVec.getLsbD_zero
  rw [hzero, zero_mul, zero_add] at hdvd
  have hframe : bitPoly (8 * frame.length) (bitAt frame) =
      bitPoly (8 * (frame.length - 4)) (bitAt frame) * X ^ 32 + regPoly word.toBitVec := by
    have hsplit : 8 * frame.length = 8 * (frame.length - 4) + 32 := by omega
    rw [hsplit, bitPoly_append, hpoly]
  have hiff : word = crc ↔ crc32Polynomial ∣ bitPoly (8 * frame.length) (bitAt frame) := by
    rw [hframe, add_comm, ← CharTwo.sub_eq_add]
    constructor
    · rintro rfl
      exact hdvd
    · intro hall
      have hpoly := (regPoly_eq_modByMonic hall).trans (regPoly_eq_modByMonic hdvd).symm
      exact UInt32.toBitVec_inj.mp (regPoly_injective hpoly)
  refine ⟨_, hrun, ?_, ?_⟩
  · by_cases heq : word = crc
    · exact .inl (if_pos heq)
    · exact .inr (if_neg heq)
  · rw [← hiff]
    by_cases heq : word = crc
    · exact iff_of_true (if_pos heq) heq
    · rw [if_neg heq]
      exact iff_of_false (by decide) heq

/-- A frame shorter than the checksum field is not accepted. -/
theorem check_short (hlen : frame.length = len.toNat) (hshort : frame.length < 4) :
    hcCgiCheckCrc32 frame len = none := by
  have hindex : frame.length ≤ (len - 4).toNat := by
    rw [UInt32.toNat_sub]
    have hfour : (4 : UInt32).toNat = 4 := rfl
    have hlt := len.toNat_lt
    omega
  have hread : wordAt frame (len - 4).toNat = none := by
    rw [wordAt, List.getElem?_eq_none hindex]
    rfl
  rw [hcCgiCheckCrc32, hread]
  rfl

end Gate

/-- The loop computes the remainder of the bytes, the checksum is linear, and a frame that differs
from an accepted one by a burst is rejected. -/
theorem crc_gate (len : UInt32) (frame other : List UInt8) (hframe : frame.length = len.toNat)
    (hother : other.length = len.toNat) :
    (∃ crc, getCrc32Value len (some frame) 0 = some crc ∧ regPoly crc.toBitVec =
      (bitPoly (8 * len.toNat) (bitAt frame) * X ^ 32) %ₘ crc32Polynomial) ∧
    (∃ c d, getCrc32Value len (some frame) 0 = some c ∧ getCrc32Value len (some other) 0 = some d ∧
      getCrc32Value len (some (List.zipWith (· ^^^ ·) frame other)) 0 = some (c ^^^ d)) ∧
    (hcCgiCheckCrc32 frame len = some 0 → Burst frame other →
      hcCgiCheckCrc32 other len = some (-1)) := by
  have hlength : other.length = frame.length := hother.trans hframe.symm
  have hzip : (List.zipWith (· ^^^ ·) frame other).length = len.toNat := by
    rw [List.length_zipWith, hframe, hother, Nat.min_self]
  obtain ⟨c, hc, hcPoly⟩ := getCrc32Value_eq hframe
  obtain ⟨d, hd, hdPoly⟩ := getCrc32Value_eq hother
  refine ⟨⟨c, hc, hcPoly⟩, ⟨c, d, hc, hd, ?_⟩, ?_⟩
  · obtain ⟨e, he, hePoly⟩ := getCrc32Value_eq hzip
    have hbits : bitPoly (8 * len.toNat) (bitAt (List.zipWith (· ^^^ ·) frame other)) =
        bitPoly (8 * len.toNat) (bitAt frame) + bitPoly (8 * len.toNat) (bitAt other) := by
      rw [← bitPoly_xor]
      exact bitPoly_congr fun i _ => bitAt_zipWith_xor hlength i
    have hsum : regPoly e.toBitVec = regPoly (c ^^^ d).toBitVec := by
      rw [hePoly, hbits, add_mul, add_modByMonic, ← hcPoly, ← hdPoly, UInt32.toBitVec_xor,
        regPoly_xor]
    rw [he, UInt32.toBitVec_inj.mp (regPoly_injective hsum)]
  · rintro haccept ⟨hne, k, hburst⟩
    rcases Nat.lt_or_ge frame.length 4 with hshort | hfour
    · rw [check_short hframe hshort] at haccept
      cases haccept
    · obtain ⟨code, hcode, -, hpass⟩ := check_eq hframe hfour
      obtain ⟨code', hcode', hcases, hpass'⟩ := check_eq hother (hlength ▸ hfour)
      have hzero : code = 0 := Option.some_injective _ (hcode.symm.trans haccept)
      rcases hcases with hcases | hcases
      · -- Both pass, so the burst is empty.
        have hsame := eq_of_burst degree_crc32Polynomial crc32Polynomial_coeff_zero
          (hpass.mp hzero) (hlength ▸ hpass'.mp hcases) fun i _ hdiff => hburst i hdiff
        exact absurd (eq_of_bitAt_eq hlength hsame) hne
      · rw [hcode', hcases]

/-- The frame of the byte `0x80`. The burst goes from the highest bit of that byte to the last byte
of its checksum. -/
theorem crc_gate_straddling :
    hcCgiCheckCrc32 [0x80, 0x20, 0x83, 0xB8, 0xED] 5 = some 0 ∧
      Burst [0x80, 0x20, 0x83, 0xB8, 0xED] [0x00, 0x20, 0x83, 0xB8, 0xAD] ∧
      hcCgiCheckCrc32 [0x00, 0x20, 0x83, 0xB8, 0xAD] 5 = some (-1) := by
  have haccept : hcCgiCheckCrc32 [0x80, 0x20, 0x83, 0xB8, 0xED] 5 = some 0 := by decide
  have hburst : Burst [0x80, 0x20, 0x83, 0xB8, 0xED] [0x00, 0x20, 0x83, 0xB8, 0xAD] := by
    refine ⟨by decide, 7, fun i hdiff => ?_⟩
    rcases Nat.lt_or_ge i 40 with hi | hi
    · have hall : ∀ j < 40, bitAt [0x80, 0x20, 0x83, 0xB8, 0xED] j ≠
          bitAt [0x00, 0x20, 0x83, 0xB8, 0xAD] j → 7 ≤ j ∧ j < 7 + 32 := by decide
      exact hall i hi hdiff
    · have hout : 5 ≤ i / 8 := by omega
      exact absurd (by rw [bitAt, bitAt, List.getD_eq_default _ _ hout,
        List.getD_eq_default _ _ hout]) hdiff
  exact ⟨haccept, hburst, (crc_gate 5 [0x80, 0x20, 0x83, 0xB8, 0xED]
    [0x00, 0x20, 0x83, 0xB8, 0xAD] rfl rfl).2.2 haccept hburst⟩

-- The check value of the polynomial without inversions.
example : getCrc32Value 9 (some [0x31, 0x32, 0x33, 0x34, 0x35, 0x36, 0x37, 0x38, 0x39]) 0 =
    some 0x2DFD2D88 := by decide

end FastLivo.Chcnav
