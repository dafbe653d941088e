import Mathlib.Data.Int.Order.Basic

/-!
# Versioned cells

One writer changes a value while the version beside it is odd. `Stable` is what the writer
keeps, `Snapshot` what a reader knows of a value between the two loads of the version.
-/

namespace FastLivo.Lib.Seqlock

variable {α : Type*} {published published' : ℤ → α → Prop} {current current' version : ℤ}
  {value stored : α}

/-- A version that is even, and not that of an empty cell, was published with the value. -/
def Stable (published : ℤ → α → Prop) (current : ℤ) (stored : α) : Prop :=
  current % 2 = 0 → current ≠ 0 → published current stored

/-- As long as the cell keeps the version that a reader saw, the value it read belongs to it. -/
structure Snapshot (published : ℤ → α → Prop) (current version : ℤ) (value : α) : Prop where
  le : version ≤ current
  same : current = version → published version value

theorem stable_of_odd (h : current % 2 = 1) : Stable published current stored := by
  intro heven
  omega

theorem stable_of_published (h : published current stored) : Stable published current stored :=
  fun _ _ => h

/-- The value of a stable cell, for a reader that saw an even version. -/
theorem Stable.snapshot (h : Stable published current stored) (hle : version ≤ current)
    (heven : version % 2 = 0) (hpos : version ≠ 0) : Snapshot published current version stored := by
  constructor
  · exact hle
  · rintro rfl
    exact h heven hpos

/-- Versions never come back, so a snapshot survives what the writer does. -/
theorem Snapshot.advance (h : Snapshot published current version value) (hle : current ≤ current')
    (hgrow : ∀ n a, published n a → published' n a) :
    Snapshot published' current' version value := by
  have hbelow := h.le
  constructor
  · exact Int.le_trans hbelow hle
  · intro heq
    exact hgrow _ _ (h.same (by omega))

end FastLivo.Lib.Seqlock
