import Mathlib.Logic.Function.Iterate
import Mathlib.Order.Lattice
import Mathlib.Order.Monotone.Basic

/-!
# The repair of times that jump

A time that is not near the one before is replaced by the one before, advanced by a step. Entries
that are skipped hold zero, so that the first time behind one is compared with zero.
-/

namespace FastLivo.Lib

variable {α : Type*} [Zero α]

section Times

variable (begins : Bool) (near : α → α → Prop) [DecidableRel near] (advance : α → α) (own : ℕ → α)
  (stored : ℕ → Bool)

/-- The repaired times, from the times themselves and what is not skipped. -/
def repairedTime : ℕ → α
  | 0 => if stored 0 ∧ begins then own 0 else 0
  | i + 1 =>
    let before := repairedTime i
    if stored (i + 1) then if near (own (i + 1)) before then own (i + 1) else advance before
    else 0

/-- What an entry holds that is not repaired. -/
def entryTime (i : ℕ) : α := if stored i then own i else 0

omit [DecidableRel near] in
/-- The `n` entries behind the entry `j` are not near the times that are counted from it. -/
structure LostBehind (j n : ℕ) : Prop where
  pos : 0 < n
  lost : ∀ m < n,
    stored (j + 1 + m) ∧ ¬near (own (j + 1 + m)) (advance^[m] (entryTime own stored j))

end Times

/-- What being near and advancing have to do with the order. -/
structure RepairLaws [LinearOrder α] (near : α → α → Prop) (advance : α → α) : Prop where
  advance_mono : Monotone advance
  le_advance : ∀ c, c ≤ advance c
  near_advance : ∀ c, near (advance c) c
  near_of_le : ∀ {c c' t' t}, c ≤ c' → c' ≤ t' → t' ≤ t → near t c → near t' c'

variable {begins : Bool} {near : α → α → Prop} [DecidableRel near] {advance : α → α} {own : ℕ → α}
  {stored : ℕ → Bool}

theorem entryTime_of_stored {i : ℕ} (h : stored i) : entryTime own stored i = own i := if_pos h

theorem entryTime_of_skipped {i : ℕ} (h : stored i = false) : entryTime own stored i = 0 := by
  rw [entryTime, h]
  exact if_neg Bool.false_ne_true

variable (begins near advance own) in
theorem repairedTime_of_skipped {i : ℕ} (h : stored i = false) :
    repairedTime begins near advance own stored i = 0 := by
  cases i with
  | zero => rw [repairedTime, if_neg (by simp [h])]
  | succ i => rw [repairedTime, if_neg (by simp [h])]

variable (near advance own) in
/-- A repaired time is the time itself, or it is counted from an entry before. -/
theorem eq_own_or_lost (hbegins : begins) {i : ℕ} (hstored : stored i) :
    repairedTime begins near advance own stored i = own i ∨
      ∃ j n, j + n = i ∧ LostBehind near advance own stored j n ∧
        repairedTime begins near advance own stored i = advance^[n] (entryTime own stored j) := by
  induction i with
  | zero =>
    left
    rw [repairedTime, if_pos ⟨hstored, hbegins⟩]
  | succ i ih =>
    rw [repairedTime, if_pos hstored]
    split
    · exact .inl rfl
    · rename_i hfar
      right
      -- Counted from the entry right before, which is not counted itself.
      have hnext (hbefore : repairedTime begins near advance own stored i = entryTime own stored i) :
          LostBehind near advance own stored i 1 ∧
            advance (repairedTime begins near advance own stored i) =
              advance^[1] (entryTime own stored i) := by
        rw [hbefore] at hfar ⊢
        refine ⟨⟨Nat.one_pos, fun m hm => ?_⟩, rfl⟩
        obtain rfl : m = 0 := by omega
        exact ⟨hstored, hfar⟩
      cases hi : stored i with
      | false =>
        have hbefore := repairedTime_of_skipped begins near advance own hi
        exact ⟨i, 1, rfl, hnext (hbefore.trans (entryTime_of_skipped hi).symm)⟩
      | true =>
        rcases ih hi with hown | ⟨j, n, hend, hlost, hcounted⟩
        · exact ⟨i, 1, rfl, hnext (hown.trans (entryTime_of_stored hi).symm)⟩
        · refine ⟨j, n + 1, by omega, ⟨by omega, fun m hm => ?_⟩, ?_⟩
          · rcases Nat.lt_succ_iff_lt_or_eq.mp hm with hm | rfl
            · exact hlost.lost m hm
            · rw [show j + 1 + m = i + 1 by omega, ← hcounted]
              exact ⟨hstored, hfar⟩
          · rw [Function.iterate_succ_apply', hcounted]

/-- What is stored, when a first time that fails its test counts as skipped. -/
def begun (begins : Bool) (stored : ℕ → Bool) (i : ℕ) : Bool := stored i && (i != 0 || begins)

section Order

variable [LinearOrder α] (laws : RepairLaws near advance)
include laws

omit [Zero α] [DecidableRel near] in
/-- An advance from a time that is not near does not pass it. -/
theorem RepairLaws.advance_le {c t : α} (hle : c ≤ t) (hfar : ¬near t c) : advance c ≤ t := by
  by_contra hpast
  exact hfar (laws.near_of_le le_rfl hle (not_le.mp hpast).le (laws.near_advance c))

variable {n : ℕ} (hnonneg : 0 ≤ own 0) (hmono : ∀ i, i + 1 < n → own i ≤ own (i + 1))
include hnonneg hmono

omit [Zero α] [DecidableRel near] laws hnonneg in
theorem own_le_of_le {a b : ℕ} (hab : a ≤ b) (hb : b < n) : own a ≤ own b := by
  induction b, hab using Nat.le_induction with
  | base => exact le_rfl
  | succ b _ ih => exact (ih (by omega)).trans (hmono b hb)

omit laws [DecidableRel near] in
theorem entryTime_le_own (stored : ℕ → Bool) {i : ℕ} (hi : i < n) :
    entryTime own stored i ≤ own i := by
  rw [entryTime]
  split
  · exact le_rfl
  · exact hnonneg.trans (own_le_of_le hmono (Nat.zero_le i) hi)

omit laws [DecidableRel near] in
theorem entryTime_le_next (stored : ℕ → Bool) {i : ℕ} (hi : i + 1 < n) :
    entryTime own stored i ≤ own (i + 1) :=
  (entryTime_le_own hnonneg hmono stored (by omega)).trans (hmono i hi)

variable (begins stored) in
/-- Times in order are repaired downwards only. -/
theorem repairedTime_le {i : ℕ} (hi : i < n) :
    repairedTime begins near advance own stored i ≤ entryTime own stored i := by
  cases hstored : stored i with
  | false => rw [repairedTime_of_skipped begins near advance own hstored, entryTime_of_skipped hstored]
  | true =>
    rw [entryTime_of_stored hstored]
    induction i with
    | zero =>
      rw [repairedTime]
      split
      · exact le_rfl
      · exact hnonneg
    | succ i ih =>
      have hbefore : repairedTime begins near advance own stored i ≤ own (i + 1) := by
        refine le_trans ?_ (entryTime_le_next hnonneg hmono stored hi)
        cases hold : stored i with
        | false => rw [repairedTime_of_skipped begins near advance own hold, entryTime_of_skipped hold]
        | true =>
          rw [entryTime_of_stored hold]
          exact ih (by omega) hold
      rw [repairedTime, if_pos hstored]
      split
      · exact le_rfl
      · rename_i hfar
        exact laws.advance_le hbefore hfar

omit [DecidableRel near] in
/-- What is counted from an entry is not past the times that are not near it. -/
theorem LostBehind.counted_le {j k m : ℕ} (hlost : LostBehind near advance own stored j k)
    (hend : j + k < n) (hm : m < k) :
    advance^[m] (entryTime own stored j) ≤ own (j + 1 + m) := by
  induction m with
  | zero => exact entryTime_le_next hnonneg hmono stored (by omega)
  | succ m ih =>
    rw [Function.iterate_succ_apply']
    exact (laws.advance_le (ih (by omega)) (hlost.lost m (by omega)).2).trans
      (hmono (j + 1 + m) (by omega))

variable (begins) in
/-- The repaired times are not past those that are counted from an entry, so that they are not near
either. -/
theorem LostBehind.repaired {j k m : ℕ} (hlost : LostBehind near advance own stored j k)
    (hend : j + k < n) (hm : m < k) :
    repairedTime begins near advance own stored (j + m) ≤ advance^[m] (entryTime own stored j) ∧
      ¬near (own (j + 1 + m)) (repairedTime begins near advance own stored (j + m)) := by
  have hstep (m : ℕ) (hm : m < k) (hle : repairedTime begins near advance own stored (j + m) ≤
      advance^[m] (entryTime own stored j)) :
      ¬near (own (j + 1 + m)) (repairedTime begins near advance own stored (j + m)) := fun hnear =>
    (hlost.lost m hm).2
      (laws.near_of_le hle (hlost.counted_le laws hnonneg hmono hend hm) le_rfl hnear)
  induction m with
  | zero =>
    have hle := repairedTime_le begins stored laws hnonneg hmono (show j + 0 < n by omega)
    exact ⟨hle, hstep 0 hm hle⟩
  | succ m ih =>
    obtain ⟨hle, hfar⟩ := ih (by omega)
    obtain ⟨hstored, -⟩ := hlost.lost m (by omega)
    have hcounted : repairedTime begins near advance own stored (j + (m + 1)) ≤
        advance^[m + 1] (entryTime own stored j) := by
      rw [show j + 1 + m = j + m + 1 by omega] at hstored hfar
      rw [show j + (m + 1) = j + m + 1 by omega, repairedTime, if_pos hstored, if_neg hfar,
        Function.iterate_succ_apply']
      exact laws.advance_mono hle
    exact ⟨hcounted, hstep (m + 1) hm hcounted⟩

/-- A stored entry keeps its time if and only if it is not lost behind an entry before it. -/
theorem repairedTime_eq_own_iff (hbegins : begins) {i : ℕ} (hi : i < n) (hstored : stored i) :
    repairedTime begins near advance own stored i = own i ↔
      ∀ j m, j + m = i → ¬LostBehind near advance own stored j m := by
  constructor
  · intro hown j m hend hlost
    obtain ⟨m, rfl⟩ := Nat.exists_eq_succ_of_ne_zero hlost.pos.ne'
    obtain ⟨-, hfar⟩ := hlost.repaired begins laws hnonneg hmono (by omega) (Nat.lt_succ_self m)
    rw [show j + 1 + m = j + m + 1 by omega] at hfar
    obtain rfl : i = j + m + 1 := by omega
    rw [repairedTime, if_pos hstored, if_neg hfar] at hown
    rw [← hown] at hfar
    exact hfar (laws.near_advance _)
  · intro hfound
    rcases eq_own_or_lost near advance own hbegins hstored with hown | ⟨j, m, hend, hlost, -⟩
    · exact hown
    · exact absurd hlost (hfound j m hend)

end Order

end FastLivo.Lib
