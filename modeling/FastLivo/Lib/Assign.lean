/-!
# Assignment

An entry of a table is replaced. Unlike `Function.update` this casts nothing, so that a table
of computed keys can be evaluated.
-/

namespace FastLivo.Lib

universe u v

variable {α : Type u} {β : Type v} [DecidableEq α] {f : α → β} {a a' : α} {b : β}

/-- `f[a] = b`. -/
def assign (f : α → β) (a : α) (b : β) : α → β := fun a' => if a' = a then b else f a'

@[simp] theorem assign_self : assign f a b a = b := if_pos rfl

theorem assign_of_ne (h : a' ≠ a) : assign f a b a' = f a' := if_neg h

end FastLivo.Lib
