import Mathlib.Data.Nat.Digits.Lemmas

/-!
# Numbers as text

A number written in a base with a symbol for each digit, the most significant one first and padded
with zeros to a width, and the reading of such a number from the front of a text.
-/

namespace Digits

variable {α : Type*}

/-- The digits of `n`, padded to the width. -/
def padded (b width n : ℕ) : List ℕ :=
  List.replicate (width - (Nat.digits b n).length) 0 ++ (Nat.digits b n).reverse

def write (symbol : ℕ → α) (b width n : ℕ) : List α := (padded b width n).map symbol

/-- The number at the front of the text, and what follows it. -/
def read (value : α → Option ℕ) (b : ℕ) (text : List α) : ℕ × List α :=
  (Nat.ofDigits b ((text.takeWhile fun a => (value a).isSome).filterMap value).reverse,
    text.dropWhile fun a => (value a).isSome)

lemma padded_lt {b width n d : ℕ} (hb : 1 < b) (hd : d ∈ padded b width n) : d < b := by
  rcases List.mem_append.mp hd with hd | hd
  · rw [List.eq_of_mem_replicate hd]
    omega
  · exact Nat.digits_lt_base hb (List.mem_reverse.mp hd)

lemma ofDigits_padded (b width n : ℕ) : Nat.ofDigits b (padded b width n).reverse = n := by
  rw [padded, List.reverse_append, List.reverse_reverse, List.reverse_replicate,
    Nat.ofDigits_append_replicate_zero, Nat.ofDigits_digits]

lemma length_padded {b width n : ℕ} (hb : 1 < b) (hn : n < b ^ width) :
    (padded b width n).length = width := by
  have hlen : (Nat.digits b n).length ≤ width := by
    rw [Nat.digits_length_le_iff hb]
    exact hn
  rw [padded, List.length_append, List.length_replicate, List.length_reverse]
  omega

/-- What has been written is read back, as long as no digit follows it. -/
theorem read_write {symbol : ℕ → α} {value : α → Option ℕ} {b : ℕ} (hb : 1 < b)
    (hvalue : ∀ d < b, value (symbol d) = some d) (width n : ℕ) {rest : List α}
    (hrest : ∀ a ∈ rest.head?, value a = none) :
    read value b (write symbol b width n ++ rest) = (n, rest) := by
  have hdigit : ∀ a ∈ write symbol b width n, (value a).isSome = true := by
    intro a ha
    obtain ⟨d, hd, rfl⟩ := List.mem_map.mp ha
    rw [hvalue d (padded_lt hb hd)]
    rfl
  have hstop : rest.takeWhile (fun a => (value a).isSome) = [] ∧
      rest.dropWhile (fun a => (value a).isSome) = rest := by
    cases rest with
    | nil => exact ⟨rfl, rfl⟩
    | cons a rest =>
      have ha : ¬(value a).isSome = true := by simp [hrest a rfl]
      exact ⟨List.takeWhile_cons_of_neg ha, List.dropWhile_cons_of_neg ha⟩
  have hvalues : (write symbol b width n).filterMap value = padded b width n := by
    rw [write, List.filterMap_map]
    conv_rhs => rw [← List.filterMap_some (l := padded b width n)]
    apply List.filterMap_congr
    intro d hd
    exact hvalue d (padded_lt hb hd)
  rw [read, List.takeWhile_append_of_pos hdigit, List.dropWhile_append_of_pos hdigit, hstop.1,
    List.append_nil, hvalues, ofDigits_padded, hstop.2]

end Digits
