import Mathlib.Analysis.Real.Sqrt
import Mathlib.Algebra.Order.BigOperators.Group.List
import Mathlib.Algebra.BigOperators.Ring.Finset
import Mathlib.Tactic.FieldSimp
import Mathlib.Tactic.Linarith

/-!
# Sums that run on

A sum of quotients is meant to start both sums of a quotient anew for each entry of a list, but
keeps adding to them. In the order of the quotients each of its terms is at most the one that was
meant, and all of them are equal only where all the entries are.
-/

namespace FastLivo.Lib

variable {ι : Type*} {c d : ι → ℝ} {l : List ι}

/-- The sum over the first entries divided by the root of the sum over them, for each length. -/
noncomputable def runningSum (c d : ι → ℝ) (l : List ι) : ℝ :=
  ∑ k ∈ Finset.range l.length,
    |((l.take (k + 1)).map c).sum| / √((k + 1 : ℕ) * ((l.take (k + 1)).map d).sum)

/-- What an entry gives on its own. -/
noncomputable def ownRatio (c d : ι → ℝ) (j : ι) : ℝ := |c j| / √(d j)

theorem runningSum_append (c d : ι → ℝ) (l : List ι) (j : ι) :
    runningSum c d (l ++ [j]) = runningSum c d l +
      |((l ++ [j]).map c).sum| / √((l.length + 1 : ℕ) * ((l ++ [j]).map d).sum) := by
  have hkeep : ∀ k ∈ Finset.range l.length, (l ++ [j]).take (k + 1) = l.take (k + 1) := by
    intro k hk
    exact List.take_append_of_le_length (Finset.mem_range.mp hk)
  have hall : (l ++ [j]).take (l.length + 1) = l ++ [j] :=
    List.take_of_length_le (List.length_append).le
  unfold runningSum
  rw [List.length_append, List.length_singleton, Finset.sum_range_succ, hall]
  congr 1
  apply Finset.sum_congr rfl
  intro k hk
  rw [hkeep k hk]

/-- Equal entries give what they are meant to. -/
theorem runningSum_of_const {a b : ℝ} (hc : ∀ j ∈ l, c j = a) (hd : ∀ j ∈ l, d j = b) :
    runningSum c d l = (l.map (ownRatio c d)).sum := by
  induction l using List.reverseRecOn with
  | nil => rfl
  | append_singleton l j ih =>
    have hl : ∀ i ∈ l, c i = a ∧ d i = b := fun i hi =>
      ⟨hc i (List.mem_append_left _ hi), hd i (List.mem_append_left _ hi)⟩
    have hsum {f : ι → ℝ} {v : ℝ} (hf : ∀ i ∈ l ++ [j], f i = v) :
        ((l ++ [j]).map f).sum = (l.length + 1 : ℕ) * v := by
      rw [List.map_congr_left hf, List.map_const', List.sum_replicate, List.length_append,
        List.length_singleton, nsmul_eq_mul]
    have hpos : (0 : ℝ) < (l.length + 1 : ℕ) := Nat.cast_pos.mpr (Nat.succ_pos _)
    have hlast : ownRatio c d j = |a| / √b := by
      rw [ownRatio, hc j (by simp), hd j (by simp)]
    rw [runningSum_append, ih (fun i hi => (hl i hi).1) (fun i hi => (hl i hi).2), hsum hc, hsum hd,
      List.map_append, List.sum_append, List.map_singleton, List.sum_singleton, hlast, ← mul_assoc,
      Real.sqrt_mul (mul_self_nonneg _), Real.sqrt_mul_self hpos.le, abs_mul, abs_of_pos hpos,
      mul_div_mul_left _ _ hpos.ne']

/-! ## The spread of the entries -/

theorem sum_sq_sub (c : ι → ℝ) (a : ℝ) (l : List ι) :
    (l.map fun j => (c j - a) ^ 2).sum =
      (l.map fun j => c j ^ 2).sum - 2 * a * (l.map c).sum + l.length * a ^ 2 := by
  induction l with
  | nil => simp
  | cons j l ih =>
    simp only [List.map_cons, List.sum_cons, ih, List.length_cons, Nat.cast_add, Nat.cast_one]
    ring

theorem sum_map_sub_const (f : ι → ℝ) (a : ℝ) (l : List ι) :
    (l.map fun j => f j - a).sum = (l.map f).sum - l.length * a := by
  induction l with
  | nil => simp
  | cons j l ih =>
    simp only [List.map_cons, List.sum_cons, ih, List.length_cons, Nat.cast_add, Nat.cast_one]
    ring

theorem sum_sq_sub_mean (c : ι → ℝ) (hl : l ≠ []) :
    (l.map fun j => (c j - (l.map c).sum / l.length) ^ 2).sum =
      (l.map fun j => c j ^ 2).sum - (l.map c).sum ^ 2 / l.length := by
  have hlength : (l.length : ℝ) ≠ 0 := Nat.cast_ne_zero.mpr (List.length_pos_iff.mpr hl).ne'
  rw [sum_sq_sub]
  field_simp
  ring

variable {r : ℝ}

/-- The square of a sum, where the squares of the entries are bounded. -/
theorem sq_sum_le (hl : l ≠ []) (hle : ∀ j ∈ l, c j ^ 2 ≤ r ^ 2 * d j) :
    (l.map c).sum ^ 2 ≤ r ^ 2 * (l.length * (l.map d).sum) := by
  have hlength : (0 : ℝ) < l.length := Nat.cast_pos.mpr (List.length_pos_iff.mpr hl)
  have hspread : 0 ≤ (l.map fun j => (c j - (l.map c).sum / l.length) ^ 2).sum :=
    List.sum_nonneg (by simp only [List.forall_mem_map]; exact fun j _ => sq_nonneg _)
  have hsquares : (l.map fun j => c j ^ 2).sum ≤ r ^ 2 * (l.map d).sum := by
    rw [← List.sum_map_mul_left]
    exact List.sum_le_sum hle
  rw [sum_sq_sub_mean c hl, sub_nonneg, div_le_iff₀ hlength] at hspread
  calc (l.map c).sum ^ 2 ≤ (l.map fun j => c j ^ 2).sum * l.length := hspread
    _ ≤ r ^ 2 * (l.map d).sum * l.length := mul_le_mul_of_nonneg_right hsquares hlength.le
    _ = r ^ 2 * (l.length * (l.map d).sum) := by ring

/-- Only equal entries reach the bound. -/
theorem const_of_sq_sum_eq (hl : l ≠ []) (hr : 0 < r) (hle : ∀ j ∈ l, c j ^ 2 ≤ r ^ 2 * d j)
    (heq : (l.map c).sum ^ 2 = r ^ 2 * (l.length * (l.map d).sum)) :
    ∃ a b, ∀ j ∈ l, c j = a ∧ d j = b := by
  have hlength : (0 : ℝ) < l.length := Nat.cast_pos.mpr (List.length_pos_iff.mpr hl)
  have hmean : (l.map c).sum ^ 2 / l.length = r ^ 2 * (l.map d).sum := by
    rw [heq]
    field_simp
  have hsquares : (l.map fun j => c j ^ 2).sum ≤ r ^ 2 * (l.map d).sum := by
    rw [← List.sum_map_mul_left]
    exact List.sum_le_sum hle
  have hnonneg : ∀ x ∈ l.map fun j => (c j - (l.map c).sum / l.length) ^ 2, 0 ≤ x := by
    simp only [List.forall_mem_map]
    exact fun j _ => sq_nonneg _
  have hzero : (l.map fun j => (c j - (l.map c).sum / l.length) ^ 2).sum = 0 := by
    refine le_antisymm ?_ (List.sum_nonneg hnonneg)
    rw [sum_sq_sub_mean c hl, hmean]
    exact sub_nonpos.mpr hsquares
  set a := (l.map c).sum / l.length with ha
  have hc : ∀ j ∈ l, c j = a := fun j hj =>
    sub_eq_zero.mp (pow_eq_zero_iff two_ne_zero |>.mp
      (List.all_zero_of_le_zero_le_of_sum_eq_zero hnonneg hzero (List.mem_map_of_mem hj)))
  have hdnonneg : ∀ x ∈ l.map fun j => r ^ 2 * d j - a ^ 2, 0 ≤ x := by
    simp only [List.forall_mem_map]
    exact fun j hj => sub_nonneg.mpr (hc j hj ▸ hle j hj)
  have hdzero : (l.map fun j => r ^ 2 * d j - a ^ 2).sum = 0 := by
    have hsum : (l.map c).sum = l.length * a := by
      rw [ha]
      field_simp
    rw [sum_map_sub_const, List.sum_map_mul_left, ← hmean, hsum]
    field_simp
    ring
  refine ⟨a, a ^ 2 / r ^ 2, fun j hj => ⟨hc j hj, ?_⟩⟩
  have hd := sub_eq_zero.mp
    (List.all_zero_of_le_zero_le_of_sum_eq_zero hdnonneg hdzero (List.mem_map_of_mem hj))
  rw [← hd]
  field_simp

/-! ## The order of the quotients -/

theorem sq_eq_ownRatio {j : ι} (hd : 0 < d j) : c j ^ 2 = ownRatio c d j ^ 2 * d j := by
  rw [ownRatio, div_pow, sq_abs, Real.sq_sqrt hd.le, div_mul_cancel₀ _ hd.ne']

theorem ownRatio_nonneg (c d : ι → ℝ) (j : ι) : 0 ≤ ownRatio c d j :=
  div_nonneg (abs_nonneg _) (Real.sqrt_nonneg _)

/-- The term of a list whose last entry has the greatest quotient. -/
theorem last_term {j : ι} (hd : ∀ i ∈ l ++ [j], 0 < d i)
    (hlast : ∀ i ∈ l, ownRatio c d i ≤ ownRatio c d j) :
    |((l ++ [j]).map c).sum| / √((l.length + 1 : ℕ) * ((l ++ [j]).map d).sum) ≤ ownRatio c d j ∧
      (|((l ++ [j]).map c).sum| / √((l.length + 1 : ℕ) * ((l ++ [j]).map d).sum) =
          ownRatio c d j →
        (∀ i ∈ l ++ [j], c i = 0) ∨ ∃ a b, ∀ i ∈ l ++ [j], c i = a ∧ d i = b) := by
  have hne : l ++ [j] ≠ [] := List.append_ne_nil_of_right_ne_nil l (List.cons_ne_nil j [])
  have hlength : ((l ++ [j]).length : ℝ) = (l.length + 1 : ℕ) := by
    rw [List.length_append, List.length_singleton]
  have hle : ∀ i ∈ l ++ [j], c i ^ 2 ≤ ownRatio c d j ^ 2 * d i := by
    intro i hi
    rw [sq_eq_ownRatio (hd i hi)]
    refine mul_le_mul_of_nonneg_right ?_ (hd i hi).le
    refine pow_le_pow_left₀ (ownRatio_nonneg c d i) ?_ 2
    rcases List.mem_append.mp hi with hi | hi
    · exact hlast i hi
    · rw [List.mem_singleton.mp hi]
  have htotal : 0 < ((l.length + 1 : ℕ) : ℝ) * ((l ++ [j]).map d).sum := by
    refine mul_pos (Nat.cast_pos.mpr (Nat.succ_pos _)) (List.sum_pos _ ?_ (by simp))
    simpa only [List.forall_mem_map] using hd
  have hroot := Real.sqrt_pos.mpr htotal
  have hbound := sq_sum_le hne hle
  rw [hlength] at hbound
  constructor
  · rw [div_le_iff₀ hroot]
    refine abs_le_of_sq_le_sq ?_ (mul_nonneg (ownRatio_nonneg c d j) hroot.le)
    rwa [mul_pow, Real.sq_sqrt htotal.le]
  · intro heq
    rcases (ownRatio_nonneg c d j).eq_or_lt with hzero | hpos
    · left
      intro i hi
      have hsq := hle i hi
      rw [← hzero, zero_pow two_ne_zero, zero_mul] at hsq
      exact pow_eq_zero_iff two_ne_zero |>.mp (le_antisymm hsq (sq_nonneg _))
    · right
      refine const_of_sq_sum_eq hne hpos hle ?_
      rw [div_eq_iff hroot.ne'] at heq
      rw [← sq_abs, heq, mul_pow, Real.sq_sqrt htotal.le, hlength]

theorem runningSum_le (hd : ∀ j ∈ l, 0 < d j)
    (hsorted : l.Pairwise fun i j => ownRatio c d i ≤ ownRatio c d j) :
    runningSum c d l ≤ (l.map (ownRatio c d)).sum := by
  induction l using List.reverseRecOn with
  | nil => exact le_rfl
  | append_singleton l j ih =>
    obtain ⟨hbefore, -, hlast⟩ := List.pairwise_append.mp hsorted
    have hterm := last_term hd fun i hi => hlast i hi j (List.mem_singleton_self j)
    have hsum : ((l ++ [j]).map (ownRatio c d)).sum =
        (l.map (ownRatio c d)).sum + ownRatio c d j := by simp
    rw [runningSum_append, hsum]
    exact add_le_add (ih (fun i hi => hd i (List.mem_append_left _ hi)) hbefore) hterm.1

/-- In the order of the quotients only equal entries give what they are meant to. -/
theorem const_of_runningSum_eq (hd : ∀ j ∈ l, 0 < d j)
    (hsorted : l.Pairwise fun i j => ownRatio c d i ≤ ownRatio c d j)
    (heq : runningSum c d l = (l.map (ownRatio c d)).sum) :
    (∀ j ∈ l, c j = 0) ∨ ∃ a b, ∀ j ∈ l, c j = a ∧ d j = b := by
  rcases List.eq_nil_or_concat' l with rfl | ⟨before, j, rfl⟩
  · exact .inl fun j hj => absurd hj List.not_mem_nil
  · obtain ⟨hbefore, -, hlast⟩ := List.pairwise_append.mp hsorted
    obtain ⟨hterm, hconst⟩ := last_term hd fun i hi => hlast i hi j (List.mem_singleton_self j)
    have hrest := runningSum_le (fun i hi => hd i (List.mem_append_left _ hi)) hbefore
    have hsum : ((before ++ [j]).map (ownRatio c d)).sum =
        (before.map (ownRatio c d)).sum + ownRatio c d j := by simp
    rw [runningSum_append, hsum] at heq
    apply hconst
    linarith

end FastLivo.Lib
