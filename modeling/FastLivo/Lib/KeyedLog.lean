import FastLivo.Lib.Assign
import Mathlib.Data.Fintype.BigOperators
import Mathlib.Data.Int.Interval
import Mathlib.Data.Set.Card

/-!
# Stores that forget

A store holds a value for every key. An item is put into the value of its key; a sweep empties
the keys that a test picks. What a key holds is what its items since its last sweep make of the
value it had before them.
-/

namespace FastLivo.Lib

variable {κ ι β : Type*}

/-- What happened to a key: whether it was swept, and its items since. -/
structure KeyLog (ι : Type*) where
  swept : Bool := false
  items : List ι := []

/-- The value that a key had at the start and its log lead to. -/
def KeyLog.value (put : β → ι → β) (empty start : β) (log : KeyLog ι) : β :=
  log.items.foldl put (if log.swept then empty else start)

def KeyLog.add (log : KeyLog ι) (item : ι) : KeyLog ι := { log with items := log.items ++ [item] }

@[simp] theorem KeyLog.value_add (put : β → ι → β) (empty start : β) (log : KeyLog ι) (item : ι) :
    (log.add item).value put empty start = put (log.value put empty start) item := by
  rw [KeyLog.value, KeyLog.add, List.foldl_append]
  rfl

@[simp] theorem KeyLog.value_swept (put : β → ι → β) (empty start : β) :
    KeyLog.value put empty start ⟨true, []⟩ = empty := rfl

/-- The keys that a test picks are emptied. -/
def clearKeys (out : κ → Bool) (empty : β) (store : κ → β) : κ → β :=
  fun key => if out key then empty else store key

variable {put : κ → β → ι → β} {empty : β} {start store : κ → β} {log : κ → KeyLog ι}

theorem value_assign [DecidableEq κ] (h : ∀ key, store key = (log key).value (put key) empty (start key))
    (key : κ) (item : ι) (key' : κ) :
    assign store key (put key (store key) item) key' =
      (assign log key ((log key).add item) key').value (put key') empty (start key') := by
  by_cases hkey : key' = key
  · subst hkey
    rw [assign_self, assign_self, KeyLog.value_add, h]
  · rw [assign_of_ne hkey, assign_of_ne hkey]
    exact h key'

theorem value_clearKeys (h : ∀ key, store key = (log key).value (put key) empty (start key))
    (out : κ → Bool) (key : κ) :
    clearKeys out empty store key =
      (clearKeys out ⟨true, []⟩ log key).value (put key) empty (start key) := by
  unfold clearKeys
  split
  · rfl
  · exact h key

/-- A cube of keys is finite, and of the size that its side says. -/
theorem ncard_cube_le {n : ℕ} (keys : Set (Fin n → ℤ)) {low high : Fin n → ℤ} {side : ℕ}
    (hside : ∀ j, high j + 1 - low j = side) (h : ∀ key ∈ keys, ∀ j, low j ≤ key j ∧ key j ≤ high j) :
    keys.Finite ∧ keys.ncard ≤ side ^ n := by
  have hsub : keys ⊆ ↑(Fintype.piFinset fun j => Finset.Icc (low j) (high j)) := by
    intro key hkey
    simp only [Finset.mem_coe, Fintype.mem_piFinset, Finset.mem_Icc]
    exact h key hkey
  refine ⟨(Finset.finite_toSet _).subset hsub, ?_⟩
  refine (Set.ncard_le_ncard hsub (Finset.finite_toSet _)).trans ?_
  rw [Set.ncard_coe_finset, Fintype.card_piFinset]
  simp only [Int.card_Icc, hside, Int.toNat_natCast, Finset.prod_const, Finset.card_univ,
    Fintype.card_fin, le_refl]

end FastLivo.Lib
