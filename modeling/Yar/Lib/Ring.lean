import Mathlib.Data.List.DropRight
import Mathlib.Data.Nat.ModEq
import Mathlib.Logic.Function.Basic

/-!
# A ring that keeps the end of a stream

A stream is stored in `m` cells, its `n`-th element in cell `n % m`. What was stored last can be read
back from the cells, in one piece or in two.
-/

namespace Ring

variable {α : Type} {m n i len : Nat} {buf : Nat → α} {l : List α} {c : α}

/-- `n` cells from `start` on. -/
def slice (buf : Nat → α) (start n : Nat) : List α := (List.range n).map fun k => buf (start + k)

/-- The last of `n` elements stored are those of `l`, as far back as the ring goes. -/
structure Holds (m : Nat) (buf : Nat → α) (n : Nat) (l : List α) : Prop where
  le : l.length ≤ n
  get : ∀ k (hk : k < l.length), l.length ≤ k + m → buf ((n - l.length + k) % m) = l[k]

theorem Holds.empty : Holds m buf 0 [] := ⟨le_rfl, fun _ hk => (Nat.not_lt_zero _ hk).elim⟩

/-- What the cells hold is the end of some stream. -/
theorem Holds.of_cells (m : Nat) (buf : Nat → α) (n : Nat) :
    Holds m buf n ((List.range (min n m)).map fun k => buf ((n - min n m + k) % m)) := by
  refine ⟨by simp, fun k hk _ => ?_⟩
  rw [List.length_map, List.length_range] at hk ⊢
  rw [List.getElem_map, List.getElem_range]

/-- Two places less than a round apart are in different cells. -/
lemma mod_ne {a b : Nat} (hab : a < b) (hb : b < a + m) : a % m ≠ b % m := by
  intro h
  have hdvd : m ∣ b - a := (Nat.modEq_iff_dvd' hab.le).mp h
  have hle : m ≤ b - a := Nat.le_of_dvd (by omega) hdvd
  omega

theorem Holds.push (h : Holds m buf n l) : Holds m (Function.update buf (n % m) c) (n + 1) (l ++ [c]) := by
  refine ⟨by simpa using h.le, fun k hk hm => ?_⟩
  have hle := h.le
  simp only [List.length_append, List.length_singleton] at hk hm ⊢
  rw [show n + 1 - (l.length + 1) + k = n - l.length + k by omega]
  rcases Nat.lt_or_ge k l.length with hlt | hge
  · rw [Function.update_of_ne (mod_ne (by omega) (by omega)), List.getElem_append_left hlt]
    exact h.get k hlt (by omega)
  · have hk : k = l.length := by omega
    subst hk
    rw [Nat.sub_add_cancel hle, Function.update_self, List.getElem_concat_length rfl]

/-- Nothing is said of what is not looked at. -/
theorem Holds.rtake (h : Holds m buf n l) (len : Nat) : Holds m buf n (l.rtake len) := by
  have hle := h.le
  refine ⟨by rw [List.rtake_eq_reverse_take_reverse]; simp; omega, fun k hk hm => ?_⟩
  simp only [List.rtake, List.length_drop, List.getElem_drop] at hk hm ⊢
  rw [← h.get _ _ (by omega)]
  congr 2
  omega

/-! ## Reading back -/

lemma slice_add (buf : Nat → α) (start k len : Nat) :
    slice buf start (k + len) = slice buf start k ++ slice buf (start + k) len := by
  simp only [slice, List.range_add, List.map_append, List.map_map]
  congr 1
  exact List.map_congr_left fun i _ => by simp [Nat.add_assoc]

/-- Two pieces, cell by cell. -/
lemma slice_append_slice (buf : Nat → α) (start start' k len : Nat) :
    slice buf start k ++ slice buf start' len = (List.range (k + len)).map fun i =>
      if i < k then buf (start + i) else buf (start' + (i - k)) := by
  rw [List.range_add, List.map_append, List.map_map, slice, slice]
  congr 1
  · refine List.map_congr_left fun i hi => ?_
    rw [if_pos (List.mem_range.mp hi)]
  · refine List.map_congr_left fun i _ => ?_
    simp

/-- The stream lies in the cells without going around. -/
theorem Holds.slice_eq (h : Holds m buf n l) (hm : (n - l.length) % m + l.length ≤ m) :
    slice buf ((n - l.length) % m) l.length = l := by
  refine List.ext_getElem (by simp [slice]) fun k _ hk => ?_
  simp only [slice, List.getElem_map, List.getElem_range]
  rw [← h.get k hk (by omega), Nat.add_mod_eq_ite, Nat.mod_eq_of_lt (show k < m by omega),
    if_neg (by omega)]

/-- The stream starts in one cell and goes on in the first one. -/
theorem Holds.slice_append_eq (h : Holds m buf n l) (hlen : l.length ≤ m)
    (hm : m ≤ (n - l.length) % m + l.length) (h0 : 0 < m) :
    slice buf ((n - l.length) % m) (m - (n - l.length) % m) ++
      slice buf 0 ((n - l.length) % m + l.length - m) = l := by
  have hlt : (n - l.length) % m < m := Nat.mod_lt _ h0
  refine List.ext_getElem (by simp [slice]; omega) fun k _ hk => ?_
  rw [← h.get k hk (by omega), Nat.add_mod_eq_ite, Nat.mod_eq_of_lt (show k < m by omega)]
  by_cases hwrap : m ≤ (n - l.length) % m + k
  · rw [if_pos hwrap, List.getElem_append_right (by simp [slice]; omega)]
    simp only [slice, List.getElem_map, List.getElem_range, List.length_map, List.length_range]
    congr 1
    omega
  · rw [if_neg hwrap, List.getElem_append_left (by simp [slice]; omega)]
    simp only [slice, List.getElem_map, List.getElem_range]

end Ring
