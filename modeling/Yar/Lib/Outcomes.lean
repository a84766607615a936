import Yar.Lib.Program

/-!
# The state a run ends in

A program that ends early leaves a state behind as well. `after m s` is the state the run of `m` from `s`
ends in, whether it returns or not. `Fixes v m` says that no run of `m` changes what `v` shows of the
state. `Ensures m s Q E` says what holds where the run returns, and where it ends early, and
`FailsOnly m s E` the latter alone.
-/

namespace Program

variable {ε σ α β τ υ : Type}

/-- The state a run of `m` ends in. -/
def after (m : EStateM ε σ α) (s : σ) : σ :=
  match m s with
  | .ok _ t => t
  | .error _ t => t

lemma after_ok {m : EStateM ε σ α} {s t : σ} {a : α} (h : m s = .ok a t) : after m s = t := by
  rw [after, h]

lemma after_error {m : EStateM ε σ α} {s t : σ} {e : ε} (h : m s = .error e t) : after m s = t := by
  rw [after, h]

/-! ## What a program does not change -/

/-- No run of `m` changes what `v` shows of the state. -/
class Fixes (v : σ → τ) (m : EStateM ε σ α) : Prop where
  fixes : ∀ s, v (after m s) = v s

namespace Fixes

variable {v : σ → τ}

lemma of_ok {m : EStateM ε σ α} [hm : Fixes v m] {s t : σ} {a : α} (h : m s = .ok a t) : v t = v s :=
  after_ok h ▸ hm.fixes s

lemma of_error {m : EStateM ε σ α} [hm : Fixes v m] {s t : σ} {e : ε} (h : m s = .error e t) :
    v t = v s :=
  after_error h ▸ hm.fixes s

/-- What does not change does not change as seen through less. -/
lemma comp (f : τ → υ) {m : EStateM ε σ α} (hm : Fixes v m) : Fixes (f ∘ v) m where
  fixes s := congrArg f (hm.fixes s)

lemma bind {m : EStateM ε σ α} {f : α → EStateM ε σ β} (hm : Fixes v m) (hf : ∀ a, Fixes v (f a)) :
    Fixes v (m >>= f) where
  fixes s := by
    cases h : m s with
    | ok a t =>
      have hrun : after (m >>= f) s = after (f a) t := by rw [after, bind_of_ok h, after]
      rw [hrun, (hf a).fixes t, hm.of_ok h]
    | error e t => rw [after_error (bind_eq_error.mpr (.inl h)), hm.of_error h]

instance instBind {m : EStateM ε σ α} {f : α → EStateM ε σ β} [hm : Fixes v m]
    [hf : ∀ a, Fixes v (f a)] : Fixes v (m >>= f) :=
  bind hm hf

instance pure (a : α) : Fixes v (Pure.pure a : EStateM ε σ α) where
  fixes _ := rfl

instance get : Fixes v (MonadState.get : EStateM ε σ σ) where
  fixes _ := rfl

instance throw (e : ε) : Fixes v (MonadExcept.throw e : EStateM ε σ α) where
  fixes _ := rfl

lemma modifyState {f : σ → σ} (h : ∀ s, v (f s) = v s) : Fixes v (modify f : EStateM ε σ PUnit) where
  fixes := h

/-- A program that reads the state before anything else. -/
lemma get_bind {f : σ → EStateM ε σ β} (h : ∀ s, v (after (f s) s) = v s) :
    Fixes v (MonadState.get >>= f) where
  fixes := h

lemma ite {p : Prop} [Decidable p] {m n : EStateM ε σ α} (hm : Fixes v m) (hn : Fixes v n) :
    Fixes v (if p then m else n) := by
  split
  · exact hm
  · exact hn

instance instIte {p : Prop} [Decidable p] {m n : EStateM ε σ α} [hm : Fixes v m] [hn : Fixes v n] :
    Fixes v (if p then m else n) :=
  ite hm hn

instance when {p : Prop} [Decidable p] {m : EStateM ε σ Unit} [Fixes v m] :
    Fixes v (Program.when p m) := by
  unfold Program.when
  infer_instance

instance require (e : ε) {p : Prop} [Decidable p] : Fixes v (Program.require e p : EStateM ε σ Unit) := by
  unfold Program.require
  infer_instance

instance discard {m : EStateM ε σ α} [hm : Fixes v m] : Fixes v (Functor.discard m) where
  fixes s := by
    have hrun : Functor.discard m s = EStateM.map (Function.const α PUnit.unit) m s := rfl
    cases h : m s with
    | ok a t =>
      rw [EStateM.map, h] at hrun
      rw [after_ok hrun, hm.of_ok h]
    | error e t =>
      rw [EStateM.map, h] at hrun
      rw [after_error hrun, hm.of_error h]

lemma forM_mem {f : α → EStateM ε σ PUnit} {l : List α} (hf : ∀ a ∈ l, Fixes v (f a)) :
    Fixes v (l.forM f) := by
  induction l with
  | nil => exact pure _
  | cons a l ih =>
    exact bind (hf a List.mem_cons_self) fun _ => ih fun b hb => hf b (List.mem_cons_of_mem _ hb)

instance forM {f : α → EStateM ε σ PUnit} {l : List α} [hf : ∀ a, Fixes v (f a)] : Fixes v (l.forM f) :=
  forM_mem fun a _ => hf a

end Fixes

/-! ## What a run ensures -/

/-- The run of `m` from `s` returns with `Q` or ends early with `E`. -/
structure Ensures (m : EStateM ε σ α) (s : σ) (Q : α → σ → Prop) (E : ε → σ → Prop) : Prop where
  ok : ∀ a t, m s = .ok a t → Q a t
  error : ∀ e t, m s = .error e t → E e t

namespace Ensures

variable {Q Q' : α → σ → Prop} {R : β → σ → Prop} {E E' : ε → σ → Prop} {s : σ}

lemma mono {m : EStateM ε σ α} (h : Ensures m s Q E) (hQ : ∀ a t, Q a t → Q' a t)
    (hE : ∀ e t, E e t → E' e t) : Ensures m s Q' E' :=
  ⟨fun a t ht => hQ a t (h.ok a t ht), fun e t ht => hE e t (h.error e t ht)⟩

lemma bind {m : EStateM ε σ α} {f : α → EStateM ε σ β} (hm : Ensures m s Q E)
    (hf : ∀ a t, m s = .ok a t → Q a t → Ensures (f a) t R E) : Ensures (m >>= f) s R E where
  ok b t h := by
    obtain ⟨a, t₁, ha, hb⟩ := bind_eq_ok.mp h
    exact (hf a t₁ ha (hm.ok a t₁ ha)).ok b t hb
  error e t h := by
    rcases bind_eq_error.mp h with h | ⟨a, t₁, ha, hb⟩
    · exact hm.error e t h
    · exact (hf a t₁ ha (hm.ok a t₁ ha)).error e t hb

lemma pure {a : α} (h : Q a s) : Ensures (Pure.pure a : EStateM ε σ α) s Q E where
  ok b t ht := by
    obtain ⟨rfl, rfl⟩ := pure_eq_ok.mp ht
    exact h
  error e t ht := by
    change EStateM.Result.ok a s = _ at ht
    cases ht

lemma throw {e : ε} (h : E e s) : Ensures (MonadExcept.throw e : EStateM ε σ α) s Q E where
  ok a t ht := (throw_eq_ok.mp ht).elim
  error e' t ht := by
    change EStateM.Result.error e s = _ at ht
    cases ht
    exact h

lemma get_bind {f : σ → EStateM ε σ β} (h : Ensures (f s) s R E) :
    Ensures (MonadState.get >>= f) s R E :=
  ⟨h.ok, h.error⟩

lemma modify_bind {g : σ → σ} {f : PUnit → EStateM ε σ β} (h : Ensures (f ⟨⟩) (g s) R E) :
    Ensures ((MonadStateOf.modifyGet (fun s => (PUnit.unit, g s)) : EStateM ε σ PUnit) >>= f) s R E :=
  ⟨h.ok, h.error⟩

lemma modifyState {g : σ → σ} {Q : PUnit → σ → Prop} (h : Q ⟨⟩ (g s)) :
    Ensures (MonadStateOf.modifyGet (fun s => (PUnit.unit, g s)) : EStateM ε σ PUnit) s Q E where
  ok u t ht := by
    rw [modify_eq_ok.mp ht]
    exact h
  error e t ht := by
    change EStateM.Result.ok PUnit.unit (g s) = _ at ht
    cases ht

lemma ite {p : Prop} [Decidable p] {m n : EStateM ε σ α} (hm : p → Ensures m s Q E)
    (hn : ¬p → Ensures n s Q E) : Ensures (if p then m else n) s Q E := by
  split
  · exact hm ‹_›
  · exact hn ‹_›

lemma require {e : ε} {p : Prop} [Decidable p] {Q : Unit → σ → Prop} (hp : p → Q () s)
    (hn : ¬p → E e s) : Ensures (Program.require e p : EStateM ε σ Unit) s Q E :=
  ite (fun h => pure (hp h)) fun h => throw (hn h)

lemma when {p : Prop} [Decidable p] {m : EStateM ε σ Unit} {Q : Unit → σ → Prop}
    (hm : p → Ensures m s Q E) (hn : ¬p → Q () s) : Ensures (Program.when p m) s Q E :=
  ite hm fun h => pure (hn h)

lemma discard {m : EStateM ε σ α} {Q : σ → Prop} (hm : Ensures m s (fun _ => Q) E) :
    Ensures (Functor.discard m) s (fun _ => Q) E where
  ok u t h := by
    obtain ⟨a, ha⟩ := discard_eq_ok.mp h
    exact hm.ok a t ha
  error e t h := by
    change EStateM.map _ m s = _ at h
    unfold EStateM.map at h
    cases hs : m s with
    | ok a t₁ =>
      rw [hs] at h
      cases h
    | error e' t₁ =>
      rw [hs] at h
      cases h
      exact hm.error e t hs

/-- A loop each step of which keeps `P`. -/
lemma forM {P : σ → Prop} {f : α → EStateM ε σ PUnit} {l : List α}
    (hf : ∀ a ∈ l, ∀ s, P s → Ensures (f a) s (fun _ => P) E) (h : P s) :
    Ensures (l.forM f) s (fun _ => P) E := by
  induction l generalizing s with
  | nil => exact pure h
  | cons a l ih =>
    exact bind (hf a List.mem_cons_self s h) fun _ t _ ht =>
      ih (fun b hb => hf b (List.mem_cons_of_mem _ hb)) ht

/-- A first part whose run is known. -/
lemma bind_of_eq {m : EStateM ε σ α} {f : α → EStateM ε σ β} {a : α} {t : σ} (hm : m s = .ok a t)
    (h : Ensures (f a) t R E) : Ensures (m >>= f) s R E := by
  refine bind (Q := fun b t' => b = a ∧ t' = t) ⟨fun b t' hb => ?_, fun e t' hb => ?_⟩ ?_
  · cases hm.symm.trans hb
    exact ⟨rfl, rfl⟩
  · cases hm.symm.trans hb
  · rintro b t' - ⟨rfl, rfl⟩
    exact h

/-- A first part that changes nothing of what `v` shows. -/
lemma bind_fixes {v : σ → τ} {m : EStateM ε σ α} {f : α → EStateM ε σ β} [hm : Fixes v m]
    (hf : ∀ a t, m s = .ok a t → v t = v s → Ensures (f a) t R E) (hE : ∀ e t, v t = v s → E e t) :
    Ensures (m >>= f) s R E :=
  bind (Q := fun _ t => v t = v s) ⟨fun _ _ h => hm.of_ok h, fun e _ h => hE e _ (hm.of_error h)⟩ hf

lemma of_eq {m : EStateM ε σ α} {a : α} {t : σ} (hm : m s = .ok a t) (h : Q a t) : Ensures m s Q E := by
  refine ⟨fun b t' hb => ?_, fun e t' hb => ?_⟩
  · cases hm.symm.trans hb
    exact h
  · cases hm.symm.trans hb

lemma of_returns {m : EStateM ε σ α} (hm : Returns m s) (h : ∀ a t, m s = .ok a t → Q a t) :
    Ensures m s Q E where
  ok := h
  error e t ht := by
    obtain ⟨a, t', ha⟩ := hm
    cases ha.symm.trans ht

/-- What holds in either case holds of the state the run ends in. -/
lemma after {m : EStateM ε σ α} {P : σ → Prop} (h : Ensures m s Q E) (hQ : ∀ a t, Q a t → P t)
    (hE : ∀ e t, E e t → P t) : P (Program.after m s) := by
  unfold Program.after
  cases hm : m s with
  | ok a t => exact hQ a t (h.ok a t hm)
  | error e t => exact hE e t (h.error e t hm)

end Ensures

/-! ## How a run can fail -/

/-- Where the run of `m` from `s` ends early, it ends with `E`. -/
def FailsOnly (m : EStateM ε σ α) (s : σ) (E : ε → σ → Prop) : Prop := ∀ e t, m s = .error e t → E e t

namespace FailsOnly

variable {E E' : ε → σ → Prop} {s : σ} {m : EStateM ε σ α}

lemma mono (h : FailsOnly m s E) (hE : ∀ e t, E e t → E' e t) : FailsOnly m s E' :=
  fun e t ht => hE e t (h e t ht)

lemma of_returns (h : Returns m s) : FailsOnly m s E := by
  intro e t ht
  obtain ⟨a, t', ha⟩ := h
  cases ha.symm.trans ht

lemma bind {f : α → EStateM ε σ β} (hm : FailsOnly m s E)
    (hf : ∀ a t, m s = .ok a t → FailsOnly (f a) t E) : FailsOnly (m >>= f) s E := by
  intro e t h
  rcases bind_eq_error.mp h with h | ⟨a, t₁, ha, hb⟩
  · exact hm e t h
  · exact hf a t₁ ha e t hb

/-- After a first part that returns. -/
lemma bind_returns {f : α → EStateM ε σ β} (hm : Returns m s)
    (hf : ∀ a t, m s = .ok a t → FailsOnly (f a) t E) : FailsOnly (m >>= f) s E :=
  bind (of_returns hm) hf

lemma get_bind {f : σ → EStateM ε σ β} (h : FailsOnly (f s) s E) :
    FailsOnly (MonadState.get >>= f) s E :=
  h

lemma pure (a : α) : FailsOnly (Pure.pure a : EStateM ε σ α) s E :=
  of_returns (Returns.pure a s)

lemma throw {e : ε} (h : E e s) : FailsOnly (MonadExcept.throw e : EStateM ε σ α) s E := by
  intro e' t ht
  change EStateM.Result.error e s = _ at ht
  cases ht
  exact h

lemma ite {p : Prop} [Decidable p] {n : EStateM ε σ α} (hm : p → FailsOnly m s E)
    (hn : ¬p → FailsOnly n s E) : FailsOnly (if p then m else n) s E := by
  split
  · exact hm ‹_›
  · exact hn ‹_›

lemma require {e : ε} {p : Prop} [Decidable p] (h : ¬p → E e s) :
    FailsOnly (Program.require e p : EStateM ε σ Unit) s E :=
  ite (fun _ => pure _) fun hp => throw (h hp)

lemma when {p : Prop} [Decidable p] {m : EStateM ε σ Unit} (hm : p → FailsOnly m s E) :
    FailsOnly (Program.when p m) s E :=
  ite hm fun _ => pure _

lemma discard (hm : FailsOnly m s E) : FailsOnly (Functor.discard m) s E := by
  have h : Ensures m s (fun _ _ => True) E := ⟨fun _ _ _ => trivial, hm⟩
  exact h.discard.error

/-- A loop whose steps keep what they need. -/
lemma forM {P : σ → Prop} {f : α → EStateM ε σ PUnit} {l : List α} (hP : ∀ a ∈ l, Preserves P (f a))
    (hf : ∀ a ∈ l, ∀ s, P s → FailsOnly (f a) s E) (h : P s) : FailsOnly (l.forM f) s E := by
  have hloop : Ensures (l.forM f) s (fun _ => P) E :=
    Ensures.forM (fun a ha s hs => ⟨fun _ _ ht => hP a ha ht hs, hf a ha s hs⟩) h
  exact hloop.error

end FailsOnly

end Program
