import Mathlib.Data.List.Induction
import Mathlib.Data.Set.Basic
import Mathlib.Tactic.Common

/-!
# Paths in a tree of names

`look` finds a node by its name in another one. Where every node but the root has one place, a node has one
path. A new entry gives one path more, and what is taken away takes the paths through it along.
-/

namespace Paths

variable {ι ν : Type}

/-- The node that the names lead to from `i` on. -/
def resolve (look : ι → ν → Option ι) (i : ι) : List ν → Option ι
  | [] => some i
  | n :: path => (look i n).bind fun j => resolve look j path

variable {look look' : ι → ν → Option ι} {i j k root : ι} {m n : ν} {p q : List ν}

lemma resolve_append (i : ι) (p q : List ν) :
    resolve look i (p ++ q) = (resolve look i p).bind fun j => resolve look j q := by
  induction p generalizing i with
  | nil => rfl
  | cons n p ih =>
    rw [List.cons_append, resolve, resolve, Option.bind_assoc]
    congr 1
    funext j
    exact ih j

lemma resolve_concat (i : ι) (p : List ν) (n : ν) :
    resolve look i (p ++ [n]) = (resolve look i p).bind fun j => look j n := by
  rw [resolve_append]
  congr 1
  funext j
  rw [resolve]
  cases look j n <;> rfl

lemma resolve_concat_eq_some : resolve look i (p ++ [n]) = some k ↔
    ∃ j, resolve look i p = some j ∧ look j n = some k := by
  rw [resolve_concat, Option.bind_eq_some_iff]

/-- Every node but the root is found in one node under one name, and from the root on the rank grows. -/
structure IsTree (look : ι → ν → Option ι) (root : ι) (nodes : Set ι) (rank : ι → ℕ) : Prop where
  root_mem : root ∈ nodes
  closed : ∀ i ∈ nodes, ∀ n k, look i n = some k → k ∈ nodes
  top : ∀ i ∈ nodes, ∀ n, look i n ≠ some root
  inj : ∀ i ∈ nodes, ∀ j ∈ nodes, ∀ m n k, look i m = some k → look j n = some k → i = j ∧ m = n
  up : ∀ k ∈ nodes, k ≠ root → ∃ i ∈ nodes, ∃ n, rank i < rank k ∧ look i n = some k

variable {nodes : Set ι} {rank : ι → ℕ}

namespace IsTree

lemma mem (h : IsTree look root nodes rank) (hp : resolve look root p = some k) : k ∈ nodes := by
  induction p using List.reverseRecOn generalizing k with
  | nil =>
    cases hp
    exact h.root_mem
  | append_singleton p n ih =>
    obtain ⟨j, hj, hk⟩ := resolve_concat_eq_some.mp hp
    exact h.closed j (ih hj) n k hk

/-- A node has at most one path. The induction goes from the last name to the first. -/
lemma path_inj (h : IsTree look root nodes rank) (hp : resolve look root p = some k)
    (hq : resolve look root q = some k) : p = q := by
  induction p using List.reverseRecOn generalizing k q with
  | nil =>
    cases hp
    induction q using List.reverseRecOn with
    | nil => rfl
    | append_singleton q n =>
      obtain ⟨j, hj, hroot⟩ := resolve_concat_eq_some.mp hq
      exact (h.top j (h.mem hj) n hroot).elim
  | append_singleton p n ih =>
    obtain ⟨i, hi, hk⟩ := resolve_concat_eq_some.mp hp
    induction q using List.reverseRecOn with
    | nil =>
      cases hq
      exact (h.top i (h.mem hi) n hk).elim
    | append_singleton q m =>
      obtain ⟨j, hj, hk'⟩ := resolve_concat_eq_some.mp hq
      obtain ⟨rfl, rfl⟩ := h.inj i (h.mem hi) j (h.mem hj) n m k hk hk'
      rw [ih hi hj]

/-- A node has a path, made of that of the node it is in. -/
lemma exists_path (h : IsTree look root nodes rank) (hk : k ∈ nodes) :
    ∃ p, resolve look root p = some k := by
  generalize hr : rank k = r
  induction r using Nat.strong_induction_on generalizing k with
  | _ r ih =>
    subst hr
    by_cases hroot : k = root
    · exact ⟨[], by rw [hroot, resolve]⟩
    · obtain ⟨i, hi, n, hlt, hlook⟩ := h.up k hk hroot
      obtain ⟨p, hp⟩ := ih (rank i) hlt hi rfl
      exact ⟨p ++ [n], resolve_concat_eq_some.mpr ⟨i, hp, hlook⟩⟩

lemma existsUnique_path (h : IsTree look root nodes rank) (hk : k ∈ nodes) :
    ∃! p, resolve look root p = some k := by
  obtain ⟨p, hp⟩ := h.exists_path hk
  exact ⟨p, hp, fun q hq => h.path_inj hq hp⟩

/-- A new node under a name that was free: it has a path now, and the other paths are as they were. -/
theorem resolve_insert (h : IsTree look root nodes rank) {d : ι} {dp : List ν} [DecidableEq ν]
    (hd : resolve look root dp = some d) (hfree : look d m = none) (hnew : look' d m = some k)
    (hempty : ∀ n, look' k n = none) (hold : ∀ i ∈ nodes, ∀ n, ¬(i = d ∧ n = m) → look' i n = look i n) :
    resolve look' root p = if p = dp ++ [m] then some k else resolve look root p := by
  induction p using List.reverseRecOn with
  | nil => rw [if_neg (by simp), resolve, resolve]
  | append_singleton p n ih =>
    rw [resolve_concat, resolve_concat, ih]
    by_cases hp : p = dp ++ [m]
    · -- nothing is below the new node, and nothing was there before
      rw [if_pos hp, if_neg (by simp [hp]), Option.bind_some, hempty, hp, resolve_concat, hd,
        Option.bind_some, hfree, Option.bind_none]
    · rw [if_neg hp]
      cases hi : resolve look root p with
      | none =>
        have hne : p ++ [n] ≠ dp ++ [m] := by
          intro heq
          rw [(List.append_inj' heq rfl).1, hd] at hi
          cases hi
        rw [if_neg hne]
        rfl
      | some i =>
        rw [Option.bind_some, Option.bind_some]
        by_cases hin : i = d ∧ n = m
        · obtain ⟨rfl, rfl⟩ := hin
          rw [if_pos (by rw [h.path_inj hi hd]), hnew]
        · have hne : p ++ [n] ≠ dp ++ [m] := by
            intro heq
            obtain ⟨rfl, hnm⟩ := List.append_inj' heq rfl
            rw [hd] at hi
            cases hi
            exact hin ⟨rfl, by simpa using hnm⟩
          rw [if_neg hne, hold i (h.mem hi) n hin]

end IsTree

/-- What is taken away takes along all there is below it: the paths that led to none of it stay. -/
theorem resolve_prune {gone : ι → Prop} [DecidablePred gone] (hroot : ¬gone root)
    (hdown : ∀ p i n k, resolve look root p = some i → gone i → look i n = some k → gone k)
    (hleft : ∀ p i n, resolve look root p = some i → ¬gone i →
      look' i n = (look i n).filter fun k => ¬gone k) :
    resolve look' root p = (resolve look root p).filter fun k => ¬gone k := by
  induction p using List.reverseRecOn with
  | nil => simp [resolve, Option.filter, hroot]
  | append_singleton p n ih =>
    rw [resolve_concat, resolve_concat, ih]
    cases hi : resolve look root p with
    | none => rfl
    | some i =>
      rw [Option.bind_some]
      by_cases hg : gone i
      · have hnone : (look i n).filter (fun k => ¬gone k) = none := by
          cases hk : look i n with
          | none => rfl
          | some k => simp [Option.filter, hdown p i n k hi hg hk]
        rw [hnone]
        simp [Option.filter, hg]
      · rw [← hleft p i n hi hg]
        simp [Option.filter, hg]

end Paths
