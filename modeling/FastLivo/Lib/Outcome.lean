import Mathlib.Logic.Basic

/-!
# Postconditions of computations that may fail

`Ensures E P x` says that `x` returns a result with `P` or fails with an error with `E`.
-/

namespace FastLivo.Lib

universe u v

variable {ε : Type u} {α β σ : Type v}

/-- A result with `P`, or an error with `E`. -/
def Ensures (E : ε → Prop) (P : α → Prop) : Except ε α → Prop
  | .ok a => P a
  | .error e => E e

variable {E : ε → Prop} {P Q : α → Prop} {x : Except ε α}

@[simp] theorem ensures_ok {a : α} : Ensures E P (.ok a) ↔ P a := Iff.rfl

@[simp] theorem ensures_error {e : ε} : Ensures E P (.error e) ↔ E e := Iff.rfl

theorem Ensures.of_ok {a : α} (h : Ensures E P x) (hx : x = .ok a) : P a := by
  subst hx
  exact h

theorem Ensures.of_error {e : ε} (h : Ensures E P x) (hx : x = .error e) : E e := by
  subst hx
  exact h

theorem Ensures.mono (h : Ensures E P x) (hPQ : ∀ a, P a → Q a) : Ensures E Q x := by
  cases x with
  | ok a => exact hPQ a h
  | error e => exact h

theorem Ensures.bind {f : α → Except ε β} {R : β → Prop} (h : Ensures E P x)
    (hf : ∀ a, P a → Ensures E R (f a)) : Ensures E R (x >>= f) := by
  cases x with
  | ok a => exact hf a h
  | error e => exact h

/-- A loop keeps what each turn takes from the elements that are left to the ones left then. -/
theorem Ensures.foldlM {f : σ → α → Except ε σ} (I : List α → σ → Prop)
    (hstep : ∀ a l s, I (a :: l) s → Ensures E (I l) (f s a)) {l : List α} {s : σ} (h : I l s) :
    Ensures E (I []) (l.foldlM f s) := by
  induction l generalizing s with
  | nil => exact h
  | cons a l ih =>
    rw [List.foldlM_cons]
    exact Ensures.bind (hstep a l s h) fun t ht => ih ht

end FastLivo.Lib
