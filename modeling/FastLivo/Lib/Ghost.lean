import FastLivo.Lib.Run

/-!
# Runs with a ghost beside the state

`withGhost` runs a step and updates a ghost from the transition it made. The ghost
is read by no step, so a run with it is a run of the step: `Reach.erase`.
-/

namespace FastLivo.Lib

variable {σ ε γ : Type*}

/-- The step, with the ghost updated from the state, the event and the next state. -/
def withGhost (step : σ → ε → Option σ) (update : σ → ε → σ → γ → γ) (p : σ × γ) (e : ε) :
    Option (σ × γ) :=
  (step p.1 e).map fun s => (s, update p.1 e s p.2)

variable {step : σ → ε → Option σ} {update : σ → ε → σ → γ → γ}

theorem withGhost_cases {p q : σ × γ} {e : ε} (h : withGhost step update p e = some q) :
    step p.1 e = some q.1 ∧ q.2 = update p.1 e q.1 p.2 := by
  obtain ⟨s, hs, rfl⟩ := Option.map_eq_some_iff.mp h
  exact ⟨hs, rfl⟩

theorem Reach.erase {ok : σ → ε → Prop} {p q : σ × γ}
    (h : Reach (withGhost step update) (fun p e => ok p.1 e) p q) : Reach step ok p.1 q.1 := by
  induction h with
  | start => exact .start
  | next e _ hok hst ih => exact .next e ih hok (withGhost_cases hst).1

end FastLivo.Lib
