import Mathlib.Data.List.Induction

/-!
# Splitting a stream at a separator

The segments of a stream that a separator has ended and the segment still open, computed from
left to right.
-/

namespace Split

variable {α : Type} [DecidableEq α]

def feed (sep : α) (st : List (List α) × List α) (a : α) : List (List α) × List α :=
  if a = sep then (st.1 ++ [st.2], []) else (st.1, st.2 ++ [a])

def split (sep : α) (l : List α) : List (List α) × List α := l.foldl (feed sep) ([], [])

lemma split_concat (sep : α) (l : List α) (a : α) :
    split sep (l ++ [a]) = feed sep (split sep l) a := by
  rw [split, List.foldl_append, List.foldl_cons, List.foldl_nil, split]

lemma split_concat_sep (sep : α) (l : List α) :
    split sep (l ++ [sep]) = ((split sep l).1 ++ [(split sep l).2], []) := by
  rw [split_concat, feed, if_pos rfl]

lemma split_concat_ne {sep a : α} (h : a ≠ sep) (l : List α) :
    split sep (l ++ [a]) = ((split sep l).1, (split sep l).2 ++ [a]) := by
  rw [split_concat, feed, if_neg h]

lemma split_of_notMem {sep : α} {l : List α} (h : sep ∉ l) : split sep l = ([], l) := by
  induction l using List.reverseRecOn with
  | nil => rfl
  | append_singleton l a ih =>
    rw [List.mem_append, List.mem_singleton, not_or] at h
    rw [split_concat_ne (Ne.symm h.2), ih h.1]

lemma split_append_of_notMem {sep : α} (l : List α) {m : List α} (h : sep ∉ m) :
    split sep (l ++ m) = ((split sep l).1, (split sep l).2 ++ m) := by
  induction m using List.reverseRecOn with
  | nil => rw [List.append_nil, List.append_nil]
  | append_singleton m a ih =>
    rw [List.mem_append, List.mem_singleton, not_or] at h
    rw [← List.append_assoc, split_concat_ne (Ne.symm h.2), ih h.1, List.append_assoc]

/-- Lines that have been put together are split off again. -/
theorem split_lines {sep : α} {lines : List (List α)} (h : ∀ l ∈ lines, sep ∉ l) :
    split sep (lines.flatMap (· ++ [sep])) = (lines, []) := by
  induction lines using List.reverseRecOn with
  | nil => rfl
  | append_singleton lines l ih =>
    rw [List.flatMap_append, List.flatMap_singleton, ← List.append_assoc, split_concat_sep,
      split_append_of_notMem _ (h l (by simp)), ih fun m hm => h m (List.mem_append_left _ hm)]
    rfl

/-- What is split off can be put together again. -/
theorem split_join (sep : α) (l : List α) :
    ((split sep l).1.map (· ++ [sep])).flatten ++ (split sep l).2 = l := by
  induction l using List.reverseRecOn with
  | nil => rfl
  | append_singleton l a ih =>
    by_cases ha : a = sep
    · rw [ha, split_concat_sep]
      conv_rhs => rw [← ih]
      simp
    · rw [split_concat_ne ha, ← List.append_assoc, ih]

/-- An open segment is a part of the stream that has no separator in it. -/
lemma mem_open {sep a : α} {l : List α} (h : a ∈ (split sep l).2) : a ∈ l ∧ a ≠ sep := by
  refine ⟨?_, ?_⟩
  · rw [← split_join sep l]
    exact List.mem_append_right _ h
  · induction l using List.reverseRecOn with
    | nil => cases h
    | append_singleton l b ih =>
      by_cases hb : b = sep
      · rw [hb, split_concat_sep] at h
        cases h
      · rw [split_concat_ne hb] at h
        rcases List.mem_append.mp h with h | h
        · exact ih h
        · rw [List.mem_singleton.mp h]
          exact hb

/-! ## With a buffer of fixed size -/

section

variable (cap : Nat) (sep : α)

/-- The segment that `a` ends, when `s` is what the buffer holds. -/
def ended (s : List α) (a : α) : Option (List α) :=
  if s.length + 1 = cap then none else if a = sep then some s else none

/-- What the buffer holds after `a`: an element that fills it is dropped with all that it holds. -/
def kept (s : List α) (a : α) : List α :=
  if s.length + 1 = cap ∨ a = sep then [] else s ++ [a]

def splitIn (l : List α) : List (List α) × List α :=
  l.foldl (fun st a => (st.1 ++ (ended cap sep st.2 a).toList, kept cap sep st.2 a)) ([], [])

variable {cap sep}

lemma splitIn_concat (l : List α) (a : α) : splitIn cap sep (l ++ [a]) =
    ((splitIn cap sep l).1 ++ (ended cap sep (splitIn cap sep l).2 a).toList,
      kept cap sep (splitIn cap sep l).2 a) := by
  rw [splitIn, List.foldl_append, List.foldl_cons, List.foldl_nil, splitIn]

/-- A buffer that is never filled makes no difference. -/
theorem splitIn_eq_split {l : List α} (hsegs : ∀ s ∈ (split sep l).1, s.length + 1 < cap)
    (hopen : (split sep l).2.length < cap) : splitIn cap sep l = split sep l := by
  induction l using List.reverseRecOn with
  | nil => rfl
  | append_singleton l a ih =>
    by_cases ha : a = sep
    · rw [ha, split_concat_sep] at hsegs
      have hlast := hsegs (split sep l).2 (by simp)
      have hl := ih (fun s hs => hsegs s (List.mem_append_left _ hs)) (by omega)
      rw [splitIn_concat, hl, ha, split_concat_sep, ended, kept, if_neg (by omega), if_pos rfl,
        if_pos (.inr rfl)]
      rfl
    · rw [split_concat_ne ha, List.length_append, List.length_singleton] at hopen
      rw [split_concat_ne ha] at hsegs
      have hl := ih hsegs (by omega)
      have hroom : (split sep l).2.length + 1 ≠ cap := by omega
      rw [splitIn_concat, hl, split_concat_ne ha, ended, kept, if_neg hroom, if_neg ha,
        if_neg (not_or.mpr ⟨hroom, ha⟩)]
      simp

end

end Split
