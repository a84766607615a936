import Mathlib.Data.List.Range

/-!
# Lists threaded through a table

A singly linked list whose links are kept in the elements themselves.
-/

namespace Linked

variable {α : Type}

/-- From `head` on, the links run through the elements of the list and end there. -/
def Runs (next : α → Option α) (head : Option α) (l : List α) : Prop :=
  match l with
  | [] => head = none
  | a :: l => head = some a ∧ Runs next (next a) l

/-- The links of the elements alone matter. -/
theorem Runs.congr {next next' : α → Option α} {head : Option α} {l : List α}
    (h : Runs next head l) (hnext : ∀ a ∈ l, next' a = next a) : Runs next' head l := by
  induction l generalizing head with
  | nil => exact h
  | cons a l ih =>
    refine ⟨h.1, ?_⟩
    rw [hnext a List.mem_cons_self]
    exact ih h.2 fun b hb => hnext b (List.mem_cons_of_mem a hb)

/-- The elements with a link are those before the last one. -/
theorem Runs.mem_dropLast {next : α → Option α} {head : Option α} {l : List α}
    (h : Runs next head l) (a : α) : a ∈ l.dropLast ↔ a ∈ l ∧ next a ≠ none := by
  induction l generalizing head with
  | nil => simp
  | cons b l ih =>
    cases l with
    | nil =>
      rw [List.dropLast_singleton, List.mem_singleton]
      constructor
      · exact fun hmem => (List.not_mem_nil hmem).elim
      · rintro ⟨rfl, hne⟩
        exact (hne h.2).elim
    | cons c l =>
      have hc := ih h.2
      rw [List.dropLast_cons_cons, List.mem_cons, hc, List.mem_cons (l := c :: l)]
      constructor
      · rintro (rfl | ⟨hmem, hne⟩)
        · exact ⟨.inl rfl, by rw [h.2.1]; exact Option.some_ne_none c⟩
        · exact ⟨.inr hmem, hne⟩
      · rintro ⟨rfl | hmem, hne⟩
        · exact .inl rfl
        · exact .inr ⟨hmem, hne⟩

/-- Links from each number to the next one, up to the last. -/
theorem runs_range' {next : Nat → Option Nat} (n k : Nat)
    (h : ∀ i, n ≤ i → i < n + k → next i = if i + 1 < n + k then some (i + 1) else none) :
    Runs next (if k = 0 then none else some n) (List.range' n k) := by
  induction k generalizing n with
  | zero => rfl
  | succ k ih =>
    refine ⟨rfl, ?_⟩
    have hrest := ih (n + 1) fun i hi hlt => by
      rw [h i (by omega) (by omega)]
      exact if_congr (by omega) rfl rfl
    rw [h n le_rfl (by omega)]
    convert hrest using 1
    by_cases hk : k = 0
    · rw [if_pos hk, if_neg (by omega)]
    · rw [if_neg hk, if_pos (by omega)]

end Linked
