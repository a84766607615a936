import Mathlib.Data.List.Nodup

/-!
# Lists with a key

A list whose elements have different keys is a dictionary: looking a key up finds the one element
that has it, an element with a new key can be put at the end, and any element can be taken out.
-/

namespace Keyed

variable {α κ : Type} {key : α → κ} {l : List α} {a : α} {k : κ}

def find [BEq κ] (key : α → κ) (l : List α) (k : κ) : Option α := l.find? fun a => key a == k

lemma find_none_iff [BEq κ] [LawfulBEq κ] : find key l k = none ↔ k ∉ l.map key := by
  rw [find, List.find?_eq_none]
  simp only [beq_iff_eq, List.mem_map, not_exists, not_and]

lemma find_iff [BEq κ] [LawfulBEq κ] (h : (l.map key).Nodup) : find key l k = some a ↔ a ∈ l ∧ key a = k := by
  constructor
  · intro hfind
    have hkey := List.find?_some hfind
    exact ⟨List.mem_of_find?_eq_some hfind, by simpa using hkey⟩
  · rintro ⟨ha, rfl⟩
    have hsome : find key l (key a) ≠ none := fun hnone =>
      find_none_iff.mp hnone (List.mem_map_of_mem ha)
    obtain ⟨b, hb⟩ := Option.ne_none_iff_exists'.mp hsome
    have hkey : key b = key a := by simpa using List.find?_some hb
    rw [hb, List.inj_on_of_nodup_map h (List.mem_of_find?_eq_some hb) ha hkey]

/-- Taking an element out takes its key out. -/
lemma map_filter [DecidableEq α] [BEq κ] [LawfulBEq κ] (h : (l.map key).Nodup) (ha : a ∈ l) :
    (l.filter (· ≠ a)).map key = (l.map key).erase (key a) := by
  induction l with
  | nil => cases ha
  | cons b l ih =>
    obtain ⟨hb, hl⟩ := List.nodup_cons.mp h
    by_cases hne : b = a
    · have hout : l.filter (· ≠ a) = l := by
        apply List.filter_eq_self.mpr
        intro c hc
        have hca : c ≠ a := by
          rintro rfl
          exact hb (hne ▸ List.mem_map_of_mem hc)
        simpa using hca
      rw [List.filter_cons_of_neg (by simp [hne]), hout, List.map_cons, hne, List.erase_cons_head]
    · have hkey : key b ≠ key a := fun heq => hne (List.inj_on_of_nodup_map h List.mem_cons_self ha heq)
      rw [List.filter_cons_of_pos (by simp [hne]), List.map_cons, List.map_cons,
        List.erase_cons_tail (by simpa using hkey)]
      exact congrArg _ (ih hl ((List.mem_cons.mp ha).resolve_left (Ne.symm hne)))

end Keyed
