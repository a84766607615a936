import Mathlib.Logic.Basic

/-!
# Reachability under a condition on the steps

`Reach init step ok s` says that `s` ends a run that starts in `init` and whose every step
meets the condition `ok` in the state it is taken from.
-/

namespace Transition

variable {σ ε τ δ : Type} {init : σ → Prop} {step : σ → ε → σ → Prop} {ok ok' : σ → ε → Prop}

inductive Reach (init : σ → Prop) (step : σ → ε → σ → Prop) (ok : σ → ε → Prop) : σ → Prop where
  | start {s : σ} (h : init s) : Reach init step ok s
  | next {s s' : σ} {e : ε} (hs : Reach init step ok s) (he : ok s e) (h : step s e s') :
      Reach init step ok s'

theorem Reach.invariant {P : σ → Prop} (h₀ : ∀ s, init s → P s)
    (h₁ : ∀ s e s', Reach init step ok s → P s → ok s e → step s e s' → P s') {s : σ}
    (hs : Reach init step ok s) : P s := by
  induction hs with
  | start h => exact h₀ _ h
  | next hs he h ih => exact h₁ _ _ _ hs ih he h

/-- The condition may be replaced by one that the steps taken meet. -/
theorem Reach.mono (h : ∀ s e s', Reach init step ok s → ok s e → step s e s' → ok' s e) {s : σ}
    (hs : Reach init step ok s) : Reach init step ok' s := by
  induction hs with
  | start h => exact .start h
  | next hs he hst ih => exact .next ih (h _ _ _ hs he hst) hst

/-- The steps of a run may be looked at in another way. -/
theorem Reach.imp {step' : σ → ε → σ → Prop}
    (h : ∀ s e s', Reach init step ok s → ok s e → step s e s' → ok' s e ∧ step' s e s') {s : σ}
    (hs : Reach init step ok s) : Reach init step' ok' s := by
  induction hs with
  | start h => exact .start h
  | next hs he hst ih =>
    obtain ⟨he', hst'⟩ := h _ _ _ hs he hst
    exact .next ih he' hst'

/-- A simulation: a map on states under which every step is a step or no change. -/
theorem Reach.map {init' : τ → Prop} {step' : τ → δ → τ → Prop} {ok' : τ → δ → Prop}
    (f : σ → τ) (h₀ : ∀ s, init s → init' (f s))
    (h₁ : ∀ s e s', ok s e → step s e s' →
      f s' = f s ∨ ∃ d, ok' (f s) d ∧ step' (f s) d (f s'))
    {s : σ} (hs : Reach init step ok s) : Reach init' step' ok' (f s) := by
  induction hs with
  | start h => exact .start (h₀ _ h)
  | next _ he hst ih =>
    rcases h₁ _ _ _ he hst with heq | ⟨d, hok, hd⟩
    · rwa [heq]
    · exact .next ih hok hd

/-! ## Execution -/

/-- A list of steps, taken one after the other, with the condition tested before each. -/
def execute (act : ε → σ → Option σ) (ok : σ → ε → Prop) [∀ s e, Decidable (ok s e)]
    (es : List ε) (s : σ) : Option σ :=
  match es with
  | [] => some s
  | e :: es => if ok s e then (act e s).bind (execute act ok es) else none

theorem Reach.execute {act : ε → σ → Option σ} [∀ s e, Decidable (ok s e)]
    (hact : ∀ s e s', act e s = some s' → step s e s') {es : List ε} {s s' : σ}
    (hs : Reach init step ok s) (h : execute act ok es s = some s') : Reach init step ok s' := by
  induction es generalizing s with
  | nil =>
    cases h
    exact hs
  | cons e es ih =>
    rw [Transition.execute] at h
    split at h
    · obtain ⟨t, ht, hrest⟩ := Option.bind_eq_some_iff.mp h
      exact ih (.next hs ‹_› (hact s e t ht)) hrest
    · cases h

end Transition
