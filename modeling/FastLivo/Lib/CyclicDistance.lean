import Mathlib.Algebra.BigOperators.Ring.Finset
import Mathlib.Algebra.Order.BigOperators.Group.Finset
import Mathlib.Data.Real.Basic
import Mathlib.Data.Finset.Lattice.Fold
import Mathlib.Tactic.Abel
import Mathlib.Tactic.Linarith

/-!
# Distance of sequences on a cycle

Two sequences indexed by a cycle are compared at every shift of the second one. At a shift the
similarities of the elements that face each other are averaged; pairs without a similarity are
left out. The distance is the least over the shifts, and never more than one.
-/

namespace FastLivo.Lib

variable {G V : Type*} [AddCommGroup G]

/-- A sequence read from another place of the cycle. -/
def cyclicShift (a : G → V) (h : G) : G → V := fun i => a (i + h)

variable [Fintype G] (similarity : V → V → Option ℝ)

/-- Similarities of the elements that face each other. -/
def totalSimilarity (a b : G → V) (g : G) : ℝ := ∑ i, (similarity (a i) (b (i + g))).getD 0

/-- How many pairs have one. -/
def comparablePairs (a b : G → V) (g : G) : ℕ :=
  ∑ i, if (similarity (a i) (b (i + g))).isSome then 1 else 0

/-- The distance at one shift. -/
noncomputable def shiftDistance (a b : G → V) (g : G) : ℝ :=
  if comparablePairs similarity a b g = 0 then 1
  else 1 - totalSimilarity similarity a b g / comparablePairs similarity a b g

noncomputable def cyclicDistance (a b : G → V) : ℝ :=
  min 1 (Finset.univ.inf' Finset.univ_nonempty (shiftDistance similarity a b))

variable {similarity} {a b : G → V}

theorem le_cyclicDistance_iff {x : ℝ} :
    x ≤ cyclicDistance similarity a b ↔ x ≤ 1 ∧ ∀ g, x ≤ shiftDistance similarity a b g := by
  rw [cyclicDistance, le_min_iff, Finset.le_inf'_iff]
  simp only [Finset.mem_univ, true_imp_iff]

theorem cyclicDistance_le_one : cyclicDistance similarity a b ≤ 1 := min_le_left _ _

theorem cyclicDistance_le (g : G) : cyclicDistance similarity a b ≤ shiftDistance similarity a b g :=
  (le_cyclicDistance_iff.mp le_rfl).2 g

/-- Sequences whose distances at the shifts are the same numbers are equally far apart. -/
theorem cyclicDistance_congr {c d : G → V} (e : G ≃ G)
    (h : ∀ g, shiftDistance similarity a b g = shiftDistance similarity c d (e g)) :
    cyclicDistance similarity a b = cyclicDistance similarity c d := by
  refine eq_of_forall_le_iff fun x => ?_
  rw [le_cyclicDistance_iff, le_cyclicDistance_iff]
  refine and_congr_right fun _ => ?_
  simp only [h]
  exact e.forall_congr_right (q := fun g => x ≤ shiftDistance similarity c d g)

/-! ## Shifts -/

theorem shiftDistance_shift_right (a b : G → V) (h g : G) :
    shiftDistance similarity a (cyclicShift b h) g = shiftDistance similarity a b (g + h) := by
  unfold shiftDistance comparablePairs totalSimilarity cyclicShift
  simp only [add_assoc]

/-- A sum over the facing pairs runs over them from any place. -/
theorem sum_facing_shift {M : Type*} [AddCommMonoid M] (f : V → V → M) (a b : G → V) (h g : G) :
    ∑ i, f (a (i + h)) (b (i + g)) = ∑ i, f (a i) (b (i + (g - h))) := by
  rw [← Equiv.sum_comp (Equiv.addRight h) fun i => f (a i) (b (i + (g - h)))]
  refine Finset.sum_congr rfl fun i _ => ?_
  have hface : i + g = i + h + (g - h) := by abel
  rw [hface]
  rfl

theorem shiftDistance_shift_left (a b : G → V) (h g : G) :
    shiftDistance similarity (cyclicShift a h) b g = shiftDistance similarity a b (g - h) := by
  unfold shiftDistance comparablePairs totalSimilarity cyclicShift
  rw [sum_facing_shift fun u v => (similarity u v).getD 0,
    sum_facing_shift fun u v => if (similarity u v).isSome then 1 else 0]

theorem cyclicDistance_shift_right (a b : G → V) (h : G) :
    cyclicDistance similarity a (cyclicShift b h) = cyclicDistance similarity a b :=
  cyclicDistance_congr (Equiv.addRight h) (shiftDistance_shift_right a b h)

theorem cyclicDistance_shift_left (a b : G → V) (h : G) :
    cyclicDistance similarity (cyclicShift a h) b = cyclicDistance similarity a b :=
  cyclicDistance_congr (Equiv.subRight h) (shiftDistance_shift_left a b h)

/-! ## Symmetry -/

/-- Who faces whom does not matter, the shift changes its sign. -/
theorem sum_facing_comm {M : Type*} [AddCommMonoid M] {f : V → V → M} (hf : ∀ u v, f u v = f v u)
    (a b : G → V) (g : G) : ∑ i, f (a i) (b (i + g)) = ∑ i, f (b i) (a (i + -g)) := by
  rw [← Equiv.sum_comp (Equiv.addRight g) fun i => f (b i) (a (i + -g))]
  refine Finset.sum_congr rfl fun i _ => ?_
  rw [Equiv.coe_addRight, add_neg_cancel_right, hf]

theorem shiftDistance_comm (hsymm : ∀ u v, similarity u v = similarity v u) (a b : G → V) (g : G) :
    shiftDistance similarity a b g = shiftDistance similarity b a (-g) := by
  have htotal := sum_facing_comm (f := fun u v => (similarity u v).getD 0)
    (fun u v => by rw [hsymm]) a b g
  have hpairs := sum_facing_comm (f := fun u v => if (similarity u v).isSome then 1 else 0)
    (fun u v => by rw [hsymm]) a b g
  unfold shiftDistance comparablePairs totalSimilarity
  rw [htotal, hpairs]

theorem cyclicDistance_comm (hsymm : ∀ u v, similarity u v = similarity v u) (a b : G → V) :
    cyclicDistance similarity a b = cyclicDistance similarity b a :=
  cyclicDistance_congr (Equiv.neg G) (shiftDistance_comm hsymm a b)

/-! ## Bounds -/

theorem comparablePairs_cast (a b : G → V) (g : G) :
    (comparablePairs similarity a b g : ℝ) =
      ∑ i, if (similarity (a i) (b (i + g))).isSome then 1 else 0 := by
  rw [comparablePairs, Nat.cast_sum]
  exact Finset.sum_congr rfl fun i _ => by split <;> simp

/-- Where no similarity is above one, no distance is negative. -/
theorem shiftDistance_nonneg (hle : ∀ u v r, similarity u v = some r → r ≤ 1) (a b : G → V) (g : G) :
    0 ≤ shiftDistance similarity a b g := by
  unfold shiftDistance
  split
  · exact zero_le_one
  · rename_i hpairs
    have hpos : (0 : ℝ) < comparablePairs similarity a b g :=
      Nat.cast_pos.mpr (Nat.pos_of_ne_zero hpairs)
    have htotal : totalSimilarity similarity a b g ≤ comparablePairs similarity a b g := by
      rw [comparablePairs_cast]
      refine Finset.sum_le_sum fun i _ => ?_
      cases hsim : similarity (a i) (b (i + g)) with
      | none => simp
      | some r => simpa using hle _ _ r hsim
    have := (div_le_one hpos).mpr htotal
    linarith

theorem cyclicDistance_nonneg (hle : ∀ u v r, similarity u v = some r → r ≤ 1) (a b : G → V) :
    0 ≤ cyclicDistance similarity a b :=
  le_cyclicDistance_iff.mpr ⟨zero_le_one, shiftDistance_nonneg hle a b⟩

/-- A sequence lies on itself, where elements that have a similarity to themselves have it in
full. -/
theorem shiftDistance_self (hself : ∀ v r, similarity v v = some r → r = 1)
    (hsome : ∃ i, (similarity (a i) (a i)).isSome) : shiftDistance similarity a a 0 = 0 := by
  have hpairs : comparablePairs similarity a a 0 ≠ 0 := by
    obtain ⟨i, hi⟩ := hsome
    refine (Finset.sum_pos' (fun _ _ => Nat.zero_le _) ⟨i, Finset.mem_univ i, ?_⟩).ne'
    rw [add_zero, if_pos hi]
    exact one_pos
  have htotal : totalSimilarity similarity a a 0 = comparablePairs similarity a a 0 := by
    rw [comparablePairs_cast]
    refine Finset.sum_congr rfl fun i _ => ?_
    rw [add_zero]
    cases hsim : similarity (a i) (a i) with
    | none => simp
    | some r => simpa using hself _ r hsim
  rw [shiftDistance, if_neg hpairs, htotal, div_self (Nat.cast_ne_zero.mpr hpairs), sub_self]

theorem cyclicDistance_shift_self (hle : ∀ u v r, similarity u v = some r → r ≤ 1)
    (hself : ∀ v r, similarity v v = some r → r = 1)
    (hsome : ∃ i, (similarity (a i) (a i)).isSome) (h : G) :
    cyclicDistance similarity a (cyclicShift a h) = 0 := by
  rw [cyclicDistance_shift_right]
  refine le_antisymm ?_ (cyclicDistance_nonneg hle a a)
  rw [← shiftDistance_self hself hsome]
  exact cyclicDistance_le 0

end FastLivo.Lib
