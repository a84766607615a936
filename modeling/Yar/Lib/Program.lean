import Mathlib.Logic.Basic
import Mathlib.Order.Defs.Unbundled

/-!
# Programs with a state and early ends

A program is an `EStateM ε σ α`: it returns a value in a new state, or ends early with a
reason of type `ε`. The lemmas `*_eq_ok` take a returning run of a composed program apart
into the runs of its parts. `Keeps R m` says that a returning run of `m` relates the two
states by `R`; its rules follow the shape of the program.
-/

namespace Program

variable {ε σ α β : Type}

theorem bind_eq_ok {m : EStateM ε σ α} {f : α → EStateM ε σ β} {s s' : σ} {b : β} :
    (m >>= f) s = .ok b s' ↔ ∃ a t, m s = .ok a t ∧ f a t = .ok b s' := by
  change EStateM.bind m f s = _ ↔ _
  unfold EStateM.bind
  cases m s with
  | ok a t =>
    constructor
    · exact fun h => ⟨a, t, rfl, h⟩
    · rintro ⟨_, _, h, hf⟩
      cases h
      exact hf
  | error e t => simp

/-- A part that returns hands its value and state on. -/
lemma bind_of_ok {m : EStateM ε σ α} {f : α → EStateM ε σ β} {s t : σ} {a : α}
    (h : m s = .ok a t) : (m >>= f) s = f a t := by
  change EStateM.bind m f s = _
  rw [EStateM.bind, h]

/-- Reading the state and going on is going on with the state. -/
lemma get_bind_eq_ok {f : σ → EStateM ε σ β} {s s' : σ} {b : β} :
    (get >>= f) s = .ok b s' ↔ f s s = .ok b s' :=
  Iff.rfl

@[simp] lemma pure_eq_ok {a b : α} {s s' : σ} :
    (pure a : EStateM ε σ α) s = .ok b s' ↔ b = a ∧ s' = s := by
  change EStateM.Result.ok a s = _ ↔ _
  simp [eq_comm]

@[simp] lemma get_eq_ok {a s s' : σ} :
    (get : EStateM ε σ σ) s = .ok a s' ↔ a = s ∧ s' = s := by
  change EStateM.Result.ok s s = _ ↔ _
  simp [eq_comm]

@[simp] lemma set_eq_ok {a s s' : σ} {u : PUnit} :
    (set a : EStateM ε σ PUnit) s = .ok u s' ↔ s' = a := by
  change EStateM.Result.ok PUnit.unit a = _ ↔ _
  simp [eq_comm]

@[simp] lemma modify_eq_ok {f : σ → σ} {s s' : σ} {u : PUnit} :
    (modify f : EStateM ε σ PUnit) s = .ok u s' ↔ s' = f s := by
  change EStateM.Result.ok PUnit.unit (f s) = _ ↔ _
  simp [eq_comm]

@[simp] lemma throw_eq_ok {e : ε} {a : α} {s s' : σ} :
    (throw e : EStateM ε σ α) s = .ok a s' ↔ False := by
  change EStateM.Result.error e s = _ ↔ _
  simp

@[simp] lemma map_eq_ok {m : EStateM ε σ α} {f : α → β} {s s' : σ} {b : β} :
    (f <$> m) s = .ok b s' ↔ ∃ a, m s = .ok a s' ∧ b = f a := by
  change EStateM.map f m s = _ ↔ _
  unfold EStateM.map
  cases m s with
  | ok a t =>
    constructor
    · intro h
      cases h
      exact ⟨a, rfl, rfl⟩
    · rintro ⟨_, h, rfl⟩
      cases h
      rfl
  | error e t => simp

@[simp] lemma discard_eq_ok {m : EStateM ε σ α} {s s' : σ} {u : PUnit} :
    (discard m) s = .ok u s' ↔ ∃ a, m s = .ok a s' := by
  change (Function.const α PUnit.unit <$> m) s = _ ↔ _
  simp

/-- Goes on when the condition holds and ends with `e` when it does not. -/
def require (e : ε) (p : Prop) [Decidable p] : EStateM ε σ Unit :=
  if p then pure () else throw e

@[simp] lemma require_eq_ok {e : ε} {p : Prop} [Decidable p] {s s' : σ} {u : Unit} :
    (require e p : EStateM ε σ Unit) s = .ok u s' ↔ p ∧ s' = s := by
  unfold require
  split <;> simp [*]

/-- A conditional without an `else`. -/
def when (p : Prop) [Decidable p] (m : EStateM ε σ Unit) : EStateM ε σ Unit :=
  if p then m else pure ()

lemma when_eq_ok {p : Prop} [Decidable p] {m : EStateM ε σ Unit} {s s' : σ} {u : Unit} :
    when p m s = .ok u s' ↔ (p ∧ m s = .ok u s') ∨ (¬p ∧ s' = s) := by
  unfold when
  split <;> simp [*]

lemma when_pos {p : Prop} [Decidable p] {m : EStateM ε σ Unit} (h : p) : when p m = m := if_pos h

lemma when_neg {p : Prop} [Decidable p] {m : EStateM ε σ Unit} (h : ¬p) : when p m = pure () :=
  if_neg h

lemma modify_bind_eq_ok {g : σ → σ} {f : PUnit → EStateM ε σ β} {s s' : σ} {b : β} :
    ((modify g : EStateM ε σ PUnit) >>= f) s = .ok b s' ↔ f ⟨⟩ (g s) = .ok b s' :=
  Iff.rfl

lemma require_bind_eq_ok {e : ε} {p : Prop} [Decidable p] {f : Unit → EStateM ε σ β} {s s' : σ}
    {b : β} : (require e p >>= f) s = .ok b s' ↔ p ∧ f () s = .ok b s' := by
  rw [bind_eq_ok]
  constructor
  · rintro ⟨⟨⟩, t, h, hf⟩
    obtain ⟨hp, ht⟩ := require_eq_ok.mp h
    rw [ht] at hf
    exact ⟨hp, hf⟩
  · rintro ⟨hp, hf⟩
    exact ⟨(), s, require_eq_ok.mpr ⟨hp, rfl⟩, hf⟩

lemma forM_cons_eq_ok {f : α → EStateM ε σ PUnit} {a : α} {l : List α} {s s' : σ} {u : PUnit} :
    ((a :: l).forM f) s = .ok u s' ↔ ∃ v t, f a s = .ok v t ∧ (l.forM f) t = .ok u s' :=
  bind_eq_ok

lemma forM_append_eq_ok {f : α → EStateM ε σ PUnit} {l l' : List α} {s s' : σ} {u : PUnit} :
    ((l ++ l').forM f) s = .ok u s' ↔ ∃ v t, (l.forM f) s = .ok v t ∧ (l'.forM f) t = .ok u s' := by
  induction l generalizing s with
  | nil =>
    constructor
    · exact fun h => ⟨⟨⟩, s, pure_eq_ok.mpr ⟨rfl, rfl⟩, h⟩
    · rintro ⟨v, t, hs, h⟩
      obtain ⟨-, rfl⟩ := pure_eq_ok.mp hs
      exact h
  | cons b l ih =>
    simp only [List.cons_append, forM_cons_eq_ok, ih]
    constructor
    · rintro ⟨v, s₁, hb, v', t, hl, h⟩
      exact ⟨v', t, ⟨v, s₁, hb, hl⟩, h⟩
    · rintro ⟨v', t, ⟨v, s₁, hb, hl⟩, h⟩
      exact ⟨v, s₁, hb, v', t, hl, h⟩

lemma forM_concat_eq_ok {f : α → EStateM ε σ PUnit} {l : List α} {a : α} {s s' : σ} {u : PUnit} :
    ((l ++ [a]).forM f) s = .ok u s' ↔ ∃ v t, (l.forM f) s = .ok v t ∧ f a t = .ok u s' := by
  rw [forM_append_eq_ok]
  refine exists_congr fun v => exists_congr fun t => and_congr_right fun _ => ?_
  rw [forM_cons_eq_ok]
  constructor
  · rintro ⟨v', t', ha, h⟩
    obtain ⟨-, rfl⟩ := pure_eq_ok.mp h
    exact ha
  · exact fun ha => ⟨u, s', ha, pure_eq_ok.mpr ⟨rfl, rfl⟩⟩

/-! ## Two-state invariants -/

/-- Every returning run of `m` relates its first and last state by `R`. -/
def Keeps (R : σ → σ → Prop) (m : EStateM ε σ α) : Prop :=
  ∀ ⦃s a s'⦄, m s = .ok a s' → R s s'

namespace Keeps

variable {R : σ → σ → Prop}

lemma mono {R' : σ → σ → Prop} (hR : ∀ s s', R s s' → R' s s') {m : EStateM ε σ α}
    (h : Keeps R m) : Keeps R' m :=
  fun _ _ _ hm => hR _ _ (h hm)

lemma bind [IsTrans σ R] {m : EStateM ε σ α} {f : α → EStateM ε σ β}
    (hm : Keeps R m) (hf : ∀ a, Keeps R (f a)) : Keeps R (m >>= f) := by
  intro s b s' h
  obtain ⟨a, t, h₁, h₂⟩ := bind_eq_ok.mp h
  exact trans_of R (hm h₁) (hf a h₂)

lemma pure [Std.Refl R] (a : α) : Keeps R (Pure.pure a : EStateM ε σ α) := by
  intro s b s' h
  obtain ⟨-, rfl⟩ := pure_eq_ok.mp h
  exact refl_of R s'

lemma get [Std.Refl R] : Keeps R (MonadState.get : EStateM ε σ σ) := by
  intro s b s' h
  obtain ⟨-, rfl⟩ := get_eq_ok.mp h
  exact refl_of R s'

/-- What a kept `modify` says about the function it applies. -/
lemma of_modify {f : σ → σ} (h : Keeps R (modify f : EStateM ε σ PUnit)) (s : σ) : R s (f s) :=
  h (modify_eq_ok (u := ⟨⟩).mpr rfl)

lemma modify {f : σ → σ} (hf : ∀ s, R s (f s)) :
    Keeps R (MonadStateOf.modifyGet (fun s => (PUnit.unit, f s)) : EStateM ε σ PUnit) := by
  intro s b s' h
  obtain rfl := modify_eq_ok.mp h
  exact hf s

lemma throw (e : ε) : Keeps R (MonadExcept.throw e : EStateM ε σ α) := by
  intro s b s' h
  exact (throw_eq_ok.mp h).elim

lemma require [Std.Refl R] (e : ε) (p : Prop) [Decidable p] :
    Keeps R (Program.require e p : EStateM ε σ Unit) := by
  intro s b s' h
  obtain ⟨-, rfl⟩ := require_eq_ok.mp h
  exact refl_of R s'

lemma ite {p : Prop} [Decidable p] {m n : EStateM ε σ α} (hm : p → Keeps R m)
    (hn : ¬p → Keeps R n) : Keeps R (if p then m else n) := by
  split
  · exact hm ‹_›
  · exact hn ‹_›

lemma when [Std.Refl R] {p : Prop} [Decidable p] {m : EStateM ε σ Unit} (hm : p → Keeps R m) :
    Keeps R (Program.when p m) :=
  Keeps.ite hm fun _ => Keeps.pure _

lemma discard {m : EStateM ε σ α} (hm : Keeps R m) : Keeps R (Functor.discard m) := by
  intro s b s' h
  obtain ⟨a, h⟩ := discard_eq_ok.mp h
  exact hm h

lemma forM_mem [Std.Refl R] [IsTrans σ R] {f : α → EStateM ε σ PUnit} {l : List α}
    (hf : ∀ a ∈ l, Keeps R (f a)) : Keeps R (l.forM f) := by
  induction l with
  | nil => exact Keeps.pure _
  | cons a l ih =>
    exact Keeps.bind (hf a List.mem_cons_self) fun _ =>
      ih fun b hb => hf b (List.mem_cons_of_mem _ hb)

lemma forM [Std.Refl R] [IsTrans σ R] {f : α → EStateM ε σ PUnit} (hf : ∀ a, Keeps R (f a))
    (l : List α) : Keeps R (l.forM f) :=
  forM_mem fun a _ => hf a

/-- A loop each step of which establishes `P` for its element, and keeps what the steps for the others
have established, establishes `P` for all. -/
lemma forM_establishes {I : σ → Prop} {P : α → σ → Prop} {f : α → EStateM ε σ PUnit} {l : List α}
    (hf : ∀ a ∈ l, ∀ s u s', f a s = .ok u s' → I s → I s' ∧ P a s' ∧ ∀ b, b ≠ a → P b s → P b s')
    {s s' : σ} {u : PUnit} (h : l.forM f s = .ok u s') (hI : I s) :
    (∀ a ∈ l, P a s') ∧ ∀ b, P b s → P b s' := by
  induction l generalizing s with
  | nil =>
    obtain ⟨-, rfl⟩ := pure_eq_ok.mp h
    exact ⟨fun a ha => (List.not_mem_nil ha).elim, fun _ hb => hb⟩
  | cons a l ih =>
    obtain ⟨v, t, ha, hl⟩ := forM_cons_eq_ok.mp h
    obtain ⟨hIt, hPa, hkeep⟩ := hf a List.mem_cons_self s v t ha hI
    obtain ⟨hall, hrest⟩ := ih (fun b hb => hf b (List.mem_cons_of_mem _ hb)) hl hIt
    refine ⟨fun b hb => ?_, fun b hb => hrest b ?_⟩
    · rcases List.mem_cons.mp hb with rfl | hb
      · exact hrest b hPa
      · exact hall b hb
    · by_cases heq : b = a
      · exact heq ▸ hPa
      · exact hkeep b heq hb

end Keeps

/-! ## Early ends -/

lemma bind_eq_error {m : EStateM ε σ α} {f : α → EStateM ε σ β} {s s' : σ} {e : ε} :
    (m >>= f) s = .error e s' ↔ m s = .error e s' ∨ ∃ a t, m s = .ok a t ∧ f a t = .error e s' := by
  change EStateM.bind m f s = _ ↔ _
  unfold EStateM.bind
  cases m s with
  | ok a t =>
    constructor
    · exact fun h => .inr ⟨a, t, rfl, h⟩
    · rintro (h | ⟨_, _, h, hf⟩)
      · cases h
      · cases h
        exact hf
  | error e t => simp

lemma get_bind_eq_error {f : σ → EStateM ε σ β} {s s' : σ} {e : ε} :
    (get >>= f) s = .error e s' ↔ f s s = .error e s' :=
  Iff.rfl

lemma modify_bind_eq_error {g : σ → σ} {f : PUnit → EStateM ε σ β} {s s' : σ} {e : ε} :
    ((modify g : EStateM ε σ PUnit) >>= f) s = .error e s' ↔ f ⟨⟩ (g s) = .error e s' :=
  Iff.rfl

lemma when_eq_error {p : Prop} [Decidable p] {m : EStateM ε σ Unit} {s s' : σ} {e : ε} :
    when p m s = .error e s' ↔ p ∧ m s = .error e s' := by
  unfold when
  split
  · simp [*]
  · refine ⟨fun h => ?_, fun h => (‹¬p› h.1).elim⟩
    change EStateM.Result.ok () s = _ at h
    cases h

/-! ## Runs that return -/

/-- The run of `m` from `s` returns. -/
def Returns (m : EStateM ε σ α) (s : σ) : Prop := ∃ a s', m s = .ok a s'

namespace Returns

lemma bind {m : EStateM ε σ α} {f : α → EStateM ε σ β} {s : σ} (hm : Returns m s)
    (hf : ∀ a s', m s = .ok a s' → Returns (f a) s') : Returns (m >>= f) s := by
  obtain ⟨a, t, ha⟩ := hm
  obtain ⟨b, s', hb⟩ := hf a t ha
  exact ⟨b, s', (bind_of_ok ha).trans hb⟩

/-- Reading the state and going on returns if going on with the state does. -/
lemma get_bind {f : σ → EStateM ε σ β} {s : σ} (h : Returns (f s) s) : Returns (get >>= f) s := h

lemma pure (a : α) (s : σ) : Returns (Pure.pure a : EStateM ε σ α) s := ⟨a, s, rfl⟩

lemma modifyState (f : σ → σ) (s : σ) : Returns (modify f : EStateM ε σ PUnit) s := ⟨⟨⟩, f s, rfl⟩

lemma require {e : ε} {p : Prop} [Decidable p] (h : p) (s : σ) :
    Returns (Program.require e p : EStateM ε σ Unit) s :=
  ⟨(), s, require_eq_ok.mpr ⟨h, rfl⟩⟩

lemma ite {p : Prop} [Decidable p] {m n : EStateM ε σ α} {s : σ} (hm : p → Returns m s)
    (hn : ¬p → Returns n s) : Returns (if p then m else n) s := by
  by_cases hp : p
  · rw [if_pos hp]
    exact hm hp
  · rw [if_neg hp]
    exact hn hp

lemma when {p : Prop} [Decidable p] {m : EStateM ε σ Unit} {s : σ} (hm : p → Returns m s) :
    Returns (Program.when p m) s :=
  ite hm fun _ => pure () s

lemma discard {m : EStateM ε σ α} {s : σ} (hm : Returns m s) : Returns (Functor.discard m) s := by
  obtain ⟨a, s', ha⟩ := hm
  exact ⟨⟨⟩, s', discard_eq_ok.mpr ⟨a, ha⟩⟩

end Returns

/-- No run of `m` ends early with `e`. -/
class Avoids (e : ε) (m : EStateM ε σ α) : Prop where
  avoids : ∀ s s', m s ≠ .error e s'

namespace Avoids

variable {e : ε}

lemma bind {m : EStateM ε σ α} {f : α → EStateM ε σ β} (hm : Avoids e m)
    (hf : ∀ a, Avoids e (f a)) : Avoids e (m >>= f) where
  avoids s s' h := by
    rcases bind_eq_error.mp h with h | ⟨a, t, -, h⟩
    · exact hm.avoids s s' h
    · exact (hf a).avoids t s' h

instance instBind {m : EStateM ε σ α} {f : α → EStateM ε σ β} [hm : Avoids e m]
    [hf : ∀ a, Avoids e (f a)] : Avoids e (m >>= f) :=
  bind hm hf

instance pure (a : α) : Avoids e (Pure.pure a : EStateM ε σ α) where
  avoids s s' h := by
    change EStateM.Result.ok a s = _ at h
    cases h

instance get : Avoids e (MonadState.get : EStateM ε σ σ) where
  avoids s s' h := by
    change EStateM.Result.ok s s = _ at h
    cases h

instance set (t : σ) : Avoids e (MonadStateOf.set t : EStateM ε σ PUnit) where
  avoids s s' h := by
    change EStateM.Result.ok PUnit.unit t = _ at h
    cases h

instance modifyState (f : σ → σ) : Avoids e (modify f : EStateM ε σ PUnit) where
  avoids s s' h := by
    change EStateM.Result.ok PUnit.unit (f s) = _ at h
    cases h

lemma throw {e' : ε} (h : e' ≠ e) : Avoids e (MonadExcept.throw e' : EStateM ε σ α) where
  avoids s s' h' := by
    change EStateM.Result.error e' s = _ at h'
    injection h' with he
    exact h he

lemma ite {p : Prop} [Decidable p] {m n : EStateM ε σ α} (hm : Avoids e m) (hn : Avoids e n) :
    Avoids e (if p then m else n) := by
  split
  · exact hm
  · exact hn

instance instIte {p : Prop} [Decidable p] {m n : EStateM ε σ α} [hm : Avoids e m]
    [hn : Avoids e n] : Avoids e (if p then m else n) :=
  ite hm hn

instance when {p : Prop} [Decidable p] {m : EStateM ε σ Unit} [Avoids e m] :
    Avoids e (Program.when p m) := by
  unfold Program.when
  infer_instance

lemma require {e' : ε} {p : Prop} [Decidable p] (h : e' ≠ e) :
    Avoids e (Program.require e' p : EStateM ε σ Unit) := by
  have := Avoids.throw (σ := σ) (α := Unit) h
  unfold Program.require
  infer_instance

instance discard {m : EStateM ε σ α} [hm : Avoids e m] : Avoids e (Functor.discard m) where
  avoids s s' h := by
    change EStateM.map _ m s = _ at h
    unfold EStateM.map at h
    cases hs : m s with
    | ok a t =>
      rw [hs] at h
      cases h
    | error e' t =>
      rw [hs] at h
      cases h
      exact hm.avoids s s' hs

instance forM {f : α → EStateM ε σ PUnit} {l : List α} [hf : ∀ a, Avoids e (f a)] :
    Avoids e (l.forM f) := by
  induction l with
  | nil => exact Avoids.pure _
  | cons a l ih => exact bind (hf a) fun _ => ih

end Avoids

instance reflPreserves (P : σ → Prop) : Std.Refl fun s s' => P s → P s' where
  refl _ h := h

instance transPreserves (P : σ → Prop) : IsTrans σ fun s s' => P s → P s' where
  trans _ _ _ h h' := h' ∘ h

/-- Every returning run of `m` that starts in a state with `P` ends in one. -/
abbrev Preserves (P : σ → Prop) (m : EStateM ε σ α) : Prop := Keeps (fun s s' => P s → P s') m

end Program
