import Mathlib.Data.List.Induction

/-!
# Runs of partial labelled steps

A step is a partial function of a state and an event; `none` is a step the
program does not survive. `Reach` collects the states of all runs whose steps
meet a side condition, `exec` replays one list of events, and `unwinding` is the
two-run rule behind noninterference: hidden events keep the view, visible events
act on the view alone.
-/

namespace FastLivo.Lib

variable {σ ε ν : Type*}

/-- Execute the events in order. -/
def exec (step : σ → ε → Option σ) : σ → List ε → Option σ
  | s, [] => some s
  | s, e :: es => (step s e).bind fun s' => exec step s' es

@[simp] theorem exec_nil (step : σ → ε → Option σ) (s : σ) : exec step s [] = some s := rfl

@[simp] theorem exec_cons (step : σ → ε → Option σ) (s : σ) (e : ε) (es : List ε) :
    exec step s (e :: es) = (step s e).bind fun s' => exec step s' es := rfl

theorem exec_append (step : σ → ε → Option σ) (s : σ) (es fs : List ε) :
    exec step s (es ++ fs) = (exec step s es).bind fun s' => exec step s' fs := by
  induction es generalizing s with
  | nil => rfl
  | cons e es ih =>
    cases h : step s e with
    | none => simp [h]
    | some s' => simp [h, ih]

/-- The last event of a run, split off. -/
theorem exec_snoc {step : σ → ε → Option σ} {s t : σ} {es : List ε} {e : ε} :
    exec step s (es ++ [e]) = some t ↔ ∃ m, exec step s es = some m ∧ step m e = some t := by
  rw [exec_append, Option.bind_eq_some_iff]
  simp

/-- A test on the state a run ends in also shows that it ends. -/
theorem exists_exec_of_any {step : σ → ε → Option σ} {s : σ} {es : List ε} (p : σ → Bool)
    (h : (exec step s es).any p = true) : ∃ t, exec step s es = some t ∧ p t = true := by
  cases he : exec step s es with
  | none => simp [he] at h
  | some t => exact ⟨t, rfl, by simpa [he] using h⟩

/-- States of the runs from `init` all of whose steps satisfy `ok`. -/
inductive Reach (step : σ → ε → Option σ) (ok : σ → ε → Prop) (init : σ) : σ → Prop
  | start : Reach step ok init init
  | next {s t : σ} (e : ε) :
      Reach step ok init s → ok s e → step s e = some t → Reach step ok init t

/-- Invariant rule: what holds at the start and is kept by every admitted step
from a reachable state holds in every reachable state. -/
theorem Reach.invariant {step : σ → ε → Option σ} {ok : σ → ε → Prop} {init : σ} {I : σ → Prop}
    (h0 : I init)
    (hs : ∀ {s t : σ} (e : ε), Reach step ok init s → I s → ok s e → step s e = some t → I t)
    {s : σ} (h : Reach step ok init s) : I s := by
  induction h with
  | start => exact h0
  | next e hr hok hst ih => exact hs e hr ih hok hst

theorem Reach.mono {step : σ → ε → Option σ} {ok ok' : σ → ε → Prop} {init s : σ}
    (hok : ∀ s e, ok s e → ok' s e) (h : Reach step ok init s) : Reach step ok' init s := by
  induction h with
  | start => exact .start
  | next e _ he hst ih => exact .next e ih (hok _ _ he) hst

/-- A replayed list of events reaches its last state. -/
theorem Reach.of_exec {step : σ → ε → Option σ} {init t : σ} {es : List ε}
    (h : exec step init es = some t) : Reach step (fun _ _ => True) init t := by
  induction es using List.reverseRecOn generalizing t with
  | nil =>
    obtain rfl := Option.some.inj h
    exact .start
  | append_singleton es e ih =>
    obtain ⟨m, hm, hst⟩ := exec_snoc.mp h
    exact .next e (ih hm) trivial hst

/-- A replay that stops at the first step without `ok` stays within the runs. -/
theorem Reach.of_guarded {step : σ → ε → Option σ} {ok : σ → ε → Prop} [∀ s e, Decidable (ok s e)]
    {init t : σ} {es : List ε}
    (h : exec (fun s e => if ok s e then step s e else none) init es = some t) :
    Reach step ok init t := by
  induction es using List.reverseRecOn generalizing t with
  | nil =>
    obtain rfl := Option.some.inj h
    exact .start
  | append_singleton es e ih =>
    obtain ⟨m, hm, hst⟩ := exec_snoc.mp h
    split at hst
    · rename_i hok
      exact .next e (ih hm) hok hst
    · cases hst

section Unwinding

variable {step₁ step₂ : σ → ε → Option σ} {view : σ → ν} {hidden : ε → Bool} {I₁ I₂ : σ → Prop}

/-- Dropping the hidden events does not change the view a run ends with, nor
whether it survives. -/
theorem exec_purge
    (hkeep₁ : ∀ s e s', I₁ s → step₁ s e = some s' → I₁ s')
    (hkeep₂ : ∀ s e s', I₂ s → step₂ s e = some s' → I₂ s')
    (hhid : ∀ s e, I₁ s → hidden e = true → (step₁ s e).map view = some (view s))
    (hvis : ∀ s t e, I₁ s → I₂ t → hidden e = false → view s = view t →
      (step₁ s e).map view = (step₂ t e).map view)
    (es : List ε) (s t : σ) (hs : I₁ s) (ht : I₂ t) (hv : view s = view t) :
    (exec step₁ s es).map view = (exec step₂ t (es.filter fun e => !hidden e)).map view := by
  induction es generalizing s t with
  | nil => simp [hv]
  | cons e es ih =>
    cases he : hidden e with
    | true =>
      obtain ⟨s', hs', hv'⟩ := Option.map_eq_some_iff.mp (hhid s e hs he)
      simp only [exec_cons, hs', Option.bind_some, List.filter_cons, he, Bool.not_true,
        Bool.false_eq_true, if_false]
      exact ih s' t (hkeep₁ s e s' hs hs') ht (hv'.trans hv)
    | false =>
      have hstep := hvis s t e hs ht he hv
      simp only [exec_cons, List.filter_cons, he, Bool.not_false, if_true]
      cases hs' : step₁ s e with
      | none =>
        rw [hs', Option.map_none] at hstep
        rw [Option.map_eq_none_iff.mp hstep.symm]
        rfl
      | some s' =>
        rw [hs', Option.map_some] at hstep
        obtain ⟨t', ht', hv'⟩ := Option.map_eq_some_iff.mp hstep.symm
        rw [ht']
        exact ih s' t' (hkeep₁ s e s' hs hs') (hkeep₂ t e t' ht ht') hv'.symm

/-- Unwinding: two runs whose visible events agree end with the same view. -/
theorem unwinding
    (hkeep₁ : ∀ s e s', I₁ s → step₁ s e = some s' → I₁ s')
    (hkeep₂ : ∀ s e s', I₂ s → step₂ s e = some s' → I₂ s')
    (hhid₁ : ∀ s e, I₁ s → hidden e = true → (step₁ s e).map view = some (view s))
    (hhid₂ : ∀ s e, I₂ s → hidden e = true → (step₂ s e).map view = some (view s))
    (hvis : ∀ s t e, I₁ s → I₂ t → hidden e = false → view s = view t →
      (step₁ s e).map view = (step₂ t e).map view)
    (hvis₂ : ∀ s t e, I₂ s → I₂ t → hidden e = false → view s = view t →
      (step₂ s e).map view = (step₂ t e).map view)
    {es fs : List ε} (hes : (es.filter fun e => !hidden e) = fs.filter fun e => !hidden e)
    {s t : σ} (hs : I₁ s) (ht : I₂ t) (hv : view s = view t) :
    (exec step₁ s es).map view = (exec step₂ t fs).map view :=
  calc (exec step₁ s es).map view
      = (exec step₂ t (es.filter fun e => !hidden e)).map view :=
        exec_purge hkeep₁ hkeep₂ hhid₁ hvis es s t hs ht hv
    _ = (exec step₂ t (fs.filter fun e => !hidden e)).map view := by rw [hes]
    _ = (exec step₂ t fs).map view :=
        (exec_purge hkeep₂ hkeep₂ hhid₂ hvis₂ fs t t ht ht rfl).symm

end Unwinding

end FastLivo.Lib
