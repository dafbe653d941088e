import Mathlib.Data.List.Basic
import Mathlib.Data.Nat.ModEq

/-!
# Rings and the logs they are windows of

A ring of slots holds the newest entries of a log, each at its index modulo the number of slots.
What was taken from the ring is a prefix of the log. The two counters are the lengths of the prefix
and of the log; they may be kept in words that wrap around.
-/

namespace FastLivo.Lib

variable {α : Type*}

/-! ## Counters that wrap around -/

/-- Two counters that are near enough are the same word only if they are the same number. -/
theorem ofNat_eq_ofNat_iff {lo hi : ℕ} (hle : lo ≤ hi) (hnear : hi < lo + 4294967296) :
    UInt32.ofNat lo = UInt32.ofNat hi ↔ lo = hi := by
  constructor
  · intro h
    have hmod := congrArg UInt32.toNat h
    rw [UInt32.toNat_ofNat', UInt32.toNat_ofNat'] at hmod
    omega
  · exact congrArg UInt32.ofNat

/-- The difference of the words is the difference of the counters. -/
theorem toNat_ofNat_sub {lo hi : ℕ} (hle : lo ≤ hi) (hnear : hi < lo + 4294967296) :
    (UInt32.ofNat hi - UInt32.ofNat lo).toNat = hi - lo := by
  rw [UInt32.toNat_sub, UInt32.toNat_ofNat', UInt32.toNat_ofNat']
  omega

theorem ofNat_succ (n : ℕ) : UInt32.ofNat n + 1 = UInt32.ofNat (n + 1) := by
  apply UInt32.toNat.inj
  rw [UInt32.toNat_add, UInt32.toNat_ofNat', UInt32.toNat_ofNat']
  exact Nat.mod_add_mod n 4294967296 1

/-- A mask of ones keeps the counter modulo a power of two. -/
theorem toNat_ofNat_mask (n : ℕ) {k : ℕ} (hk : k < 32) {mask : UInt32}
    (hmask : mask.toNat = 2 ^ k - 1) : (UInt32.ofNat n &&& mask).toNat = n % 2 ^ k := by
  have hdvd : 2 ^ k ∣ 4294967296 := Nat.pow_dvd_pow 2 (show k ≤ 32 by omega)
  rw [UInt32.toNat_and, hmask, Nat.and_two_pow_sub_one_eq_mod, UInt32.toNat_ofNat']
  exact Nat.mod_mod_of_dvd n hdvd

/-! ## Windows -/

/-- The slots hold the entries of the log from an index on. -/
structure RingLog (slots log : List α) (lo : ℕ) : Prop where
  le : lo ≤ log.length
  room : log.length ≤ lo + slots.length
  held : ∀ k, lo ≤ k → k < log.length → slots[k % slots.length]? = log[k]?

namespace RingLog

variable {slots log : List α} {lo : ℕ} {a : α}

theorem empty (slots : List α) : RingLog slots [] 0 :=
  ⟨Nat.le_refl 0, Nat.zero_le _, fun k _ hk => absurd hk (Nat.not_lt_zero k)⟩

/-- Indices of the window that are less than a round apart have slots of their own. -/
theorem mod_ne {i j n : ℕ} (hlt : i < j) (hnear : j < i + n) : i % n ≠ j % n := by
  intro h
  have hdvd : n ∣ j - i := (Nat.modEq_iff_dvd' hlt.le).mp h
  have := Nat.le_of_dvd (by omega) hdvd
  omega

/-- The oldest entry. -/
theorem oldest (h : RingLog slots log lo) (hlt : lo < log.length) :
    slots[lo % slots.length]? = log[lo]? :=
  h.held lo (Nat.le_refl lo) hlt

/-- The oldest entry is taken. -/
theorem take (h : RingLog slots log lo) (hlt : lo < log.length) : RingLog slots log (lo + 1) where
  le := hlt
  room := by
    have := h.room
    omega
  held k hk hlast := h.held k (by omega) hlast

/-- A write to the slot behind the window leaves the window. -/
theorem write (h : RingLog slots log lo) (hroom : log.length < lo + slots.length) (a : α) :
    RingLog (slots.set (log.length % slots.length) a) log lo where
  le := h.le
  room := by
    rw [List.length_set]
    exact h.room
  held k hk hlast := by
    have hne : log.length % slots.length ≠ k % slots.length :=
      (mod_ne hlast (by omega)).symm
    rw [List.length_set, List.getElem?_set_ne hne]
    exact h.held k hk hlast

/-- What the slot behind the window holds joins the log. -/
theorem append (h : RingLog slots log lo) (hroom : log.length < lo + slots.length)
    (hslot : slots[log.length % slots.length]? = some a) : RingLog slots (log ++ [a]) lo where
  le := by
    have := h.le
    rw [List.length_append]
    omega
  room := by
    rw [List.length_append, List.length_singleton]
    omega
  held k hk hlast := by
    rw [List.length_append, List.length_singleton] at hlast
    rcases Nat.lt_or_eq_of_le (Nat.le_of_lt_succ hlast) with hlt | rfl
    · rw [List.getElem?_append_left hlt]
      exact h.held k hk hlt
    · rw [hslot, List.getElem?_append_right (Nat.le_refl _), Nat.sub_self]
      rfl

end RingLog

end FastLivo.Lib
