import Mathlib.Data.List.Perm.Basic

/-!
# Fates of the entries of a queue

A queue loses entries at its front only: taken by its consumer, or dropped for room. The
ghost log keeps what arrived, what was taken and what was dropped.
-/

namespace FastLivo.Lib

variable {β : Type*}

/-- Ghost log of a queue. -/
structure Fates (β : Type*) where
  arrived : List β := []
  taken : List β := []
  dropped : List β := []

/-- Every entry that arrived is taken, dropped or in the queue, and order is kept. -/
structure Accounted (queue : List β) (f : Fates β) : Prop where
  fates : (f.taken ++ f.dropped ++ queue).Perm f.arrived
  takenOrder : (f.taken ++ queue).Sublist f.arrived
  droppedOrder : (f.dropped ++ queue).Sublist f.arrived

variable {queue : List β} {f : Fates β}

theorem Accounted.empty : Accounted ([] : List β) {} := ⟨.refl _, .refl _, .refl _⟩

theorem Accounted.arrive (h : Accounted queue f) (b : β) :
    Accounted (queue ++ [b]) { f with arrived := f.arrived ++ [b] } where
  fates := by
    rw [← List.append_assoc]
    exact h.fates.append_right [b]
  takenOrder := by
    rw [← List.append_assoc]
    exact h.takenOrder.append (.refl _)
  droppedOrder := by
    rw [← List.append_assoc]
    exact h.droppedOrder.append (.refl _)

theorem Accounted.take {b : β} (h : Accounted (b :: queue) f) :
    Accounted queue { f with taken := f.taken ++ [b] } where
  fates := by
    refine List.Perm.trans ?_ h.fates
    rw [List.append_assoc, List.append_assoc, List.append_assoc, List.singleton_append]
    exact List.Perm.append_left f.taken List.perm_middle.symm
  takenOrder := by
    rw [List.append_assoc]
    exact h.takenOrder
  droppedOrder := ((List.sublist_cons_self b queue).append_left f.dropped).trans h.droppedOrder

theorem Accounted.drop {b : β} (h : Accounted (b :: queue) f) :
    Accounted queue { f with dropped := f.dropped ++ [b] } where
  fates := by
    refine List.Perm.trans ?_ h.fates
    rw [← List.append_assoc, List.append_assoc _ [b]]
    exact .refl _
  takenOrder := ((List.sublist_cons_self b queue).append_left f.taken).trans h.takenOrder
  droppedOrder := by
    rw [List.append_assoc]
    exact h.droppedOrder

end FastLivo.Lib
