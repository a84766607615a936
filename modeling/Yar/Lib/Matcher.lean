import Mathlib.Data.List.Basic
import Mathlib.Data.List.Infix
import Mathlib.Data.List.Induction

/-!
# Matching a word by counting

A matcher that keeps only the number of elements of the word that it has seen in a row. A
mismatch takes it back to zero, and once the word is complete it stays complete. The elements
carry a label that says where they come from.
-/

namespace Matcher

variable {α β : Type}

/-- The last `n` elements of `l` are the first `n` of the word. -/
def At (s : List α) (n : Nat) (l : List α) : Prop := n ≤ s.length ∧ s.take n <:+ l

lemma At.zero (s l : List α) : At s 0 l := ⟨Nat.zero_le _, by simp⟩

lemma At.full {s l : List α} (h : At s s.length l) : s <:+ l := by
  simpa using h.2

variable [DecidableEq α]

def step (s : List α) (n : Nat) (a : α) : Nat :=
  if n < s.length then (if s[n]? = some a then n + 1 else 0) else n

lemma At.step {s l : List α} {n : Nat} {a : α} (h : At s n l) (hn : n < s.length) :
    At s (step s n a) (l ++ [a]) := by
  rw [Matcher.step, if_pos hn]
  by_cases ha : s[n]? = some a
  · rw [if_pos ha]
    refine ⟨hn, ?_⟩
    have htake : s.take (n + 1) = s.take n ++ [a] := by rw [List.take_add_one, ha, Option.toList_some]
    obtain ⟨l₀, hl₀⟩ := h.2
    exact ⟨l₀, by rw [htake, ← hl₀, List.append_assoc]⟩
  · rw [if_neg ha]
    exact At.zero s _

/-! ## What is found -/

/-- A part of the word from its front, and an element that does not go on with it. -/
def Failed (s a : List α) : Prop := ∃ k b, k < s.length ∧ a = s.take k ++ [b] ∧ s[k]? ≠ some b

/-- The word stands behind nothing but failed attempts at it. -/
def Found (s l : List α) : Prop :=
  ∃ (attempts : List (List α)) (rest : List α),
    l = attempts.flatten ++ (s ++ rest) ∧ ∀ a ∈ attempts, Failed s a

variable {s l a : List α}

omit [DecidableEq α] in
lemma Found.isInfix (h : Found s l) : s <:+: l := by
  obtain ⟨attempts, rest, rfl, -⟩ := h
  exact ⟨attempts.flatten, rest, by rw [List.append_assoc]⟩

lemma count_take {k : Nat} (hk : k ≤ s.length) : (s.take k).foldl (step s) 0 = k := by
  induction k with
  | zero => rfl
  | succ k ih =>
    have hget : s[k]? = some s[k] := List.getElem?_eq_getElem hk
    rw [List.take_add_one, hget, Option.toList_some, List.foldl_append, ih (Nat.le_of_succ_le hk)]
    rw [List.foldl_cons, List.foldl_nil, Matcher.step,
      if_pos (Nat.lt_of_succ_le hk), if_pos hget]

lemma Failed.count (h : Failed s a) : a.foldl (step s) 0 = 0 := by
  obtain ⟨k, b, hk, rfl, hb⟩ := h
  rw [List.foldl_append, count_take (Nat.le_of_lt hk), List.foldl_cons, List.foldl_nil, Matcher.step,
    if_pos hk, if_neg hb]

lemma count_full (l : List α) : l.foldl (step s) s.length = s.length := by
  induction l with
  | nil => rfl
  | cons b l ih => rw [List.foldl_cons, Matcher.step, if_neg (Nat.lt_irrefl _), ih]

/-- What has been counted is the end of what has been seen, behind failed attempts. -/
lemma count_cases (s l : List α) :
    Found s l ∧ l.foldl (step s) 0 = s.length ∨
      l.foldl (step s) 0 < s.length ∧ ∃ attempts : List (List α), (∀ a ∈ attempts, Failed s a) ∧
        l = attempts.flatten ++ s.take (l.foldl (step s) 0) := by
  induction l using List.reverseRecOn with
  | nil =>
    by_cases hs : s.length = 0
    · exact .inl ⟨⟨[], [], by simp [List.length_eq_zero_iff.mp hs], by simp⟩, hs.symm⟩
    · exact .inr ⟨Nat.pos_of_ne_zero hs, [], by simp, rfl⟩
  | append_singleton l b ih =>
    rw [List.foldl_append, List.foldl_cons, List.foldl_nil]
    rcases ih with ⟨⟨attempts, rest, hl, hfailed⟩, hfull⟩ | ⟨hlt, attempts, hfailed, hl⟩
    · rw [hfull, Matcher.step, if_neg (Nat.lt_irrefl _)]
      exact .inl ⟨⟨attempts, rest ++ [b], by rw [hl]; simp, hfailed⟩, rfl⟩
    · generalize l.foldl (Matcher.step s) 0 = n at hlt hl
      rw [Matcher.step, if_pos hlt]
      by_cases hb : s[n]? = some b
      · rw [if_pos hb]
        have htake : s.take (n + 1) = s.take n ++ [b] := by
          rw [List.take_add_one, hb, Option.toList_some]
        by_cases hn : n + 1 < s.length
        · exact .inr ⟨hn, attempts, hfailed, by rw [htake, hl, List.append_assoc]⟩
        · have hn' : n + 1 = s.length := by omega
          refine .inl ⟨⟨attempts, [], ?_, hfailed⟩, hn'⟩
          rw [hn', List.take_length] at htake
          rw [htake, hl, List.append_nil, List.append_assoc]
      · rw [if_neg hb]
        refine .inr ⟨Nat.zero_lt_of_lt hlt, attempts ++ [s.take n ++ [b]], ?_, ?_⟩
        · intro a ha
          rcases List.mem_append.mp ha with ha | ha
          · exact hfailed a ha
          · exact ⟨n, b, hlt, List.mem_singleton.mp ha, hb⟩
        · rw [hl]
          simp

/-- The count is full once the word stands behind failed attempts alone. -/
theorem count_full_iff (s l : List α) : l.foldl (step s) 0 = s.length ↔ Found s l := by
  constructor
  · intro hfull
    rcases count_cases s l with ⟨hfound, -⟩ | ⟨hlt, -⟩
    · exact hfound
    · exact absurd hfull (Nat.ne_of_lt hlt)
  · rintro ⟨attempts, rest, rfl, hfailed⟩
    have hattempts : attempts.flatten.foldl (step s) 0 = 0 := by
      induction attempts with
      | nil => rfl
      | cons a attempts ih =>
        rw [List.flatten_cons, List.foldl_append, (hfailed a List.mem_cons_self).count]
        exact ih fun b hb => hfailed b (List.mem_cons_of_mem a hb)
    have hword := count_take (Nat.le_refl s.length)
    rw [List.take_length] at hword
    rw [List.foldl_append, hattempts, List.foldl_append, hword, count_full]

/-! ## Elements with a label -/

/-- Every match completed while the queue is read is made of elements that come from `p`. -/
def Owned [DecidableEq β] (s : List α) (p : Option β) (n : Nat) (seen queue : List (α × β)) :
    Prop :=
  match queue with
  | [] => True
  | b :: queue =>
    (n < s.length → step s n b.1 = s.length →
      ∀ x ∈ (seen ++ [b]).drop (seen.length + 1 - s.length), p = some x.2) ∧
    Owned s p (step s n b.1) (seen ++ [b]) queue

instance decidableOwned [DecidableEq β] (s : List α) (p : Option β) (n : Nat)
    (seen queue : List (α × β)) : Decidable (Owned s p n seen queue) :=
  match queue with
  | [] => .isTrue trivial
  | b :: queue =>
    have : Decidable (Owned s p (step s n b.1) (seen ++ [b]) queue) := decidableOwned ..
    inferInstanceAs (Decidable (_ ∧ _))

/-- A match completed by an owned queue is a word of its owner. -/
lemma Owned.infix [DecidableEq β] {s : List α} {p : Option β} {n : Nat} {seen queue : List (α × β)}
    {b : α × β} (h : Owned s p n seen (b :: queue)) (hat : At s n (seen.map Prod.fst))
    (hn : n < s.length) (hfull : step s n b.1 = s.length) :
    p = some b.2 ∧ s <:+: ((seen ++ [b]).filter fun x => x.2 = b.2).map Prod.fst := by
  have hsuffix : s <:+ (seen ++ [b]).map Prod.fst := by
    have hat' := hat.step (a := b.1) hn
    rw [hfull] at hat'
    simpa using hat'.full
  -- the window of the last elements, which spell the word
  obtain ⟨window, hwindow⟩ : ∃ window, (seen ++ [b]).drop (seen.length + 1 - s.length) = window :=
    ⟨_, rfl⟩
  have hword : s = window.map Prod.fst := by
    rw [← hwindow, List.map_drop]
    simpa using List.suffix_iff_eq_drop.mp hsuffix
  have hown : ∀ x ∈ window, p = some x.2 := hwindow ▸ h.1 hn hfull
  have hlast : b ∈ window := by
    rw [← hwindow, List.drop_append_of_le_length (by omega)]
    simp
  have hp := hown b hlast
  have hall : window.filter (fun x => x.2 = b.2) = window := by
    refine List.filter_eq_self.mpr fun x hx => ?_
    have hx' := hown x hx
    rw [hp] at hx'
    simpa using (Option.some.inj hx').symm
  refine ⟨hp, ?_⟩
  rw [hword, ← hall, ← hwindow]
  exact ((List.drop_suffix _ _).isInfix.filter _).map _

end Matcher
