import Mathlib.Data.Set.Basic

/-!
# Handles in slots

A program keeps handles, such as descriptors, in the fields of its objects: the slots. The program is in
order as long as no handle is in two slots and every handle in a slot is open.
-/

namespace Handles

variable {ι κ : Type*} {slot slot' : ι → Option κ} {opened opened' : Set κ}

/-- No handle is in two slots, and those in the slots are open. -/
structure Held (slot : ι → Option κ) (opened : Set κ) : Prop where
  inj : ∀ ⦃i j k⦄, slot i = some k → slot j = some k → i = j
  opened : ∀ ⦃i k⦄, slot i = some k → k ∈ opened

/-- Slots may be emptied, as long as what is left in them stays open. -/
theorem Held.forget (h : Held slot opened) (hslot : ∀ i k, slot' i = some k → slot i = some k)
    (hopen : ∀ i k, slot' i = some k → k ∈ opened → k ∈ opened') : Held slot' opened' := by
  constructor
  · intro i j k hi hj
    exact h.inj (hslot i k hi) (hslot j k hj)
  · intro i k hi
    exact hopen i k hi (h.opened (hslot i k hi))

/-- A handle that is in no slot may be put into one. -/
theorem Held.put {i : ι} {k : κ} (h : Held slot opened) (hnew : ∀ j, slot j ≠ some k)
    (hk : k ∈ opened') (hopen : ∀ l ∈ opened, l ∈ opened')
    (hslot : ∀ j l, slot' j = some l → j = i ∧ l = k ∨ slot j = some l) : Held slot' opened' := by
  constructor
  · intro j j' l hj hj'
    rcases hslot j l hj with ⟨rfl, rfl⟩ | hj
    · rcases hslot j' l hj' with ⟨rfl, -⟩ | hj'
      · rfl
      · exact (hnew j' hj').elim
    · rcases hslot j' l hj' with ⟨rfl, rfl⟩ | hj'
      · exact (hnew j hj).elim
      · exact h.inj hj hj'
  · intro j l hj
    rcases hslot j l hj with ⟨rfl, rfl⟩ | hj
    · exact hk
    · exact hopen l (h.opened hj)

/-- The handles of two slots differ. -/
theorem Held.ne {i j : ι} {k l : κ} (h : Held slot opened) (hne : i ≠ j) (hi : slot i = some k)
    (hj : slot j = some l) : k ≠ l := by
  rintro rfl
  exact hne (h.inj hi hj)

end Handles
