import Mathlib.Data.List.Basic

/-!
# Machines that look at one symbol at a time

`feed` shows the machine the next symbol; the second component says whether it took it. A
machine may hold a symbol any number of times before it takes it. What it does may also depend on
something outside, of an index type, that differs from one time to the next.
-/

namespace FastLivo.Lib

variable {ι σ β : Type*}

/-- The machine takes all symbols and goes from one state to the other, whatever is outside. -/
inductive Consumes (feed : ι → σ → β → σ × Bool) : σ → List β → σ → Prop
  | nil (s : σ) : Consumes feed s [] s
  | take {s t u : σ} {b : β} {bs : List β} : (∀ i, feed i s b = (t, true)) →
      Consumes feed t bs u → Consumes feed s (b :: bs) u
  | hold {s t u : σ} {b : β} {bs : List β} : (∀ i, feed i s b = (t, false)) →
      Consumes feed t (b :: bs) u → Consumes feed s (b :: bs) u

variable {feed : ι → σ → β → σ × Bool} {s t u : σ} {bs cs : List β}

theorem Consumes.append (h : Consumes feed s bs t) (h' : Consumes feed t cs u) :
    Consumes feed s (bs ++ cs) u := by
  induction h with
  | nil => exact h'
  | take htake _ ih => exact .take htake (ih h')
  | hold hhold _ ih => exact .hold hhold (ih h')

end FastLivo.Lib
