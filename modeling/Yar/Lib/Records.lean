import Mathlib.Data.List.Forall2
import Mathlib.Data.List.TakeDrop
import Mathlib.Data.List.TakeWhile
import Yar.Lib.Split

/-!
# Records of separated fields

A row is a list of fields and a last field. Its record has a separator behind each field but the
last, and a text has a terminator behind each record. The text can be taken apart again exactly when
no separator is in a field before the last and no terminator is in any field.
-/

namespace Split

variable {α : Type} [DecidableEq α] {sep nl : α} {n : ℕ}

/-! ## One field -/

/-- What comes before the first separator and what comes behind it. -/
def cut (sep : α) (l : List α) : Option (List α × List α) :=
  match l.span (· != sep) with
  | (_, []) => none
  | (field, _ :: rest) => some (field, rest)

lemma cut_append {l : List α} (h : sep ∉ l) (rest : List α) :
    cut sep (l ++ sep :: rest) = some (l, rest) := by
  have hspan : (l ++ sep :: rest).span (· != sep) = (l, sep :: rest) := by
    rw [List.span_eq_takeWhile_dropWhile]
    have hl : ∀ a ∈ l, (a != sep) = true := fun a ha => by
      rw [bne_iff_ne]
      rintro rfl
      exact h ha
    rw [List.takeWhile_append_of_pos hl, List.dropWhile_append_of_pos hl]
    simp
  unfold cut
  rw [hspan]

lemma cut_eq_some {l field rest : List α} (h : cut sep l = some (field, rest)) :
    l = field ++ sep :: rest ∧ sep ∉ field := by
  unfold cut at h
  rw [List.span_eq_takeWhile_dropWhile] at h
  have hmem : sep ∉ l.takeWhile (· != sep) := by
    intro hmem
    have hne := List.mem_takeWhile_imp hmem
    simp at hne
  cases hdrop : l.dropWhile (· != sep) with
  | nil => simp [hdrop] at h
  | cons a rest' =>
    simp only [hdrop, Option.some.injEq, Prod.mk.injEq] at h
    obtain ⟨rfl, rfl⟩ := h
    have ha : a = sep := by
      have hhead := List.head_dropWhile_not (fun a : α => a != sep)
        (show l.dropWhile (· != sep) ≠ [] by rw [hdrop]; exact List.cons_ne_nil _ _)
      simpa [hdrop] using hhead
    refine ⟨?_, hmem⟩
    conv_lhs => rw [← List.takeWhile_append_dropWhile (p := (· != sep)) (l := l), hdrop, ha]

/-! ## One record -/

/-- The fields before the last, and the last. -/
abbrev Row (α : Type) := List (List α) × List α

def record (sep : α) (row : Row α) : List α := row.1.flatMap (· ++ [sep]) ++ row.2

/-- The record taken apart at its first `n` separators. -/
def fields (sep : α) (n : ℕ) (l : List α) : Option (Row α) :=
  match n with
  | 0 => some ([], l)
  | n + 1 =>
    match cut sep l with
    | none => none
    | some (field, rest) => (fields sep n rest).map fun row => (field :: row.1, row.2)

omit [DecidableEq α] in
lemma record_cons (field : List α) (l : List (List α)) (last : List α) :
    record sep (field :: l, last) = field ++ sep :: record sep (l, last) := by
  simp [record]

lemma record_of_fields {l : List α} {row : Row α} (h : fields sep n l = some row) :
    record sep row = l ∧ ∀ field ∈ row.1, sep ∉ field := by
  induction n generalizing l row with
  | zero =>
    obtain rfl := Option.some.inj h
    exact ⟨rfl, by simp⟩
  | succ n ih =>
    rw [fields] at h
    cases hcut : cut sep l with
    | none =>
      rw [hcut] at h
      cases h
    | some p =>
      rw [hcut] at h
      obtain ⟨row', hrest, rfl⟩ := Option.map_eq_some_iff.mp h
      obtain ⟨hl, hfield⟩ := cut_eq_some hcut
      obtain ⟨hrecord, hfields⟩ := ih hrest
      refine ⟨?_, ?_⟩
      · rw [record_cons, hrecord, ← hl]
      · intro field hmem
        rcases List.mem_cons.mp hmem with rfl | hmem
        · exact hfield
        · exact hfields field hmem

lemma fields_record {l : List (List α)} (h : ∀ field ∈ l, sep ∉ field) (last : List α) :
    fields sep l.length (record sep (l, last)) = some (l, last) := by
  induction l with
  | nil => rfl
  | cons field l ih =>
    rw [List.length_cons, fields, record_cons, cut_append (h field List.mem_cons_self)]
    change Option.map _ (fields sep l.length (record sep (l, last))) = _
    rw [ih fun field hfield => h field (List.mem_cons_of_mem _ hfield)]
    rfl

/-- A record gives its row back exactly when no field before the last has a separator in it. -/
lemma fields_record_iff {row : Row α} (hn : row.1.length = n) :
    fields sep n (record sep row) = some row ↔ ∀ field ∈ row.1, sep ∉ field :=
  ⟨fun h => (record_of_fields h).2, fun h => hn ▸ fields_record h row.2⟩

/-- The separator is in no field before the last and the terminator in none. -/
def Clean (sep nl : α) (row : Row α) : Prop :=
  (∀ field ∈ row.1, sep ∉ field ∧ nl ∉ field) ∧ nl ∉ row.2

omit [DecidableEq α] in
lemma notMem_record_iff (hne : nl ≠ sep) {row : Row α} :
    nl ∉ record sep row ↔ (∀ field ∈ row.1, nl ∉ field) ∧ nl ∉ row.2 := by
  rw [record, List.mem_append, not_or, List.mem_flatMap, not_exists]
  simp [hne]

/-! ## A text of records -/

def render (sep nl : α) (rows : List (Row α)) : List α :=
  rows.flatMap fun row => record sep row ++ [nl]

lemma length_split (nl : α) (l : List α) : (split nl l).1.length = l.count nl := by
  induction l using List.reverseRecOn with
  | nil => rfl
  | append_singleton l a ih =>
    rw [List.count_append]
    by_cases ha : a = nl
    · rw [ha, split_concat_sep, List.length_append, ih, List.count_singleton_self,
        List.length_singleton]
    · rw [split_concat_ne ha, ih, List.count_singleton, if_neg (by simpa using ha), Nat.add_zero]

lemma split_append (nl : α) (l : List α) {seg : List α} (h : nl ∉ seg) :
    split nl (l ++ seg) = ((split nl l).1, (split nl l).2 ++ seg) := by
  induction seg using List.reverseRecOn with
  | nil => simp
  | append_singleton seg a ih =>
    rw [List.mem_append, List.mem_singleton, not_or] at h
    rw [← List.append_assoc, split_concat_ne (Ne.symm h.2), ih h.1, List.append_assoc]

lemma split_flatMap {records : List (List α)} (h : ∀ r ∈ records, nl ∉ r) :
    split nl (records.flatMap (· ++ [nl])) = (records, []) := by
  induction records using List.reverseRecOn with
  | nil => rfl
  | append_singleton records r ih =>
    rw [List.flatMap_append, List.flatMap_singleton, ← List.append_assoc, split_concat_sep,
      split_append nl _ (h r (by simp)), ih fun r hr => h r (List.mem_append_left _ hr),
      List.nil_append]

/-- The rows of a text: nothing may be left behind the last terminator. -/
def decode (sep nl : α) (n : ℕ) (text : List α) : Option (List (Row α)) :=
  match split nl text with
  | (records, []) => records.mapM (fields sep n)
  | (_, _ :: _) => none

lemma mapM_eq_some {β γ : Type} {f : β → Option γ} {l : List β} {l' : List γ} :
    l.mapM f = some l' ↔ List.Forall₂ (fun b c => f b = some c) l l' := by
  induction l generalizing l' with
  | nil =>
    rw [List.forall₂_nil_left_iff, List.mapM_nil]
    exact ⟨fun h => (Option.some.inj h).symm, fun h => h ▸ rfl⟩
  | cons b l ih =>
    rw [List.mapM_cons, List.forall₂_cons_left_iff]
    simp only [Option.bind_eq_bind, Option.bind_eq_some_iff, ih]
    constructor
    · rintro ⟨c, hc, l'', hl, h⟩
      exact ⟨c, l'', hc, hl, (Option.some.inj h).symm⟩
    · rintro ⟨c, l'', hc, hl, rfl⟩
      exact ⟨c, hc, l'', hl, rfl⟩

/-- Whatever text the rows are read from, it is the text of the rows. -/
theorem render_of_decode {text : List α} {rows : List (Row α)}
    (h : decode sep nl n text = some rows) : render sep nl rows = text := by
  unfold decode at h
  have hjoin := split_join nl text
  generalize split nl text = p at h hjoin
  obtain ⟨records, rest⟩ := p
  cases rest with
  | cons a rest => cases h
  | nil =>
    rw [List.append_nil] at hjoin
    have hrows := mapM_eq_some.mp h
    rw [← hjoin]
    clear h hjoin
    induction hrows with
    | nil => rfl
    | cons hrow _ ih =>
      rw [List.map_cons, List.flatten_cons, ← ih, render, List.flatMap_cons,
        (record_of_fields hrow).1]
      rfl

lemma count_render_cons (row : Row α) (rows : List (Row α)) : (render sep nl (row :: rows)).count nl =
    (record sep row).count nl + 1 + (render sep nl rows).count nl := by
  rw [render, List.flatMap_cons, ← render, List.count_append, List.count_append,
    List.count_singleton_self]

lemma length_le_count (rows : List (Row α)) : rows.length ≤ (render sep nl rows).count nl := by
  induction rows with
  | nil => exact Nat.zero_le _
  | cons row rows ih =>
    rw [count_render_cons, List.length_cons]
    omega

/-- With one terminator for each row there is none in the records. -/
lemma notMem_of_count {rows : List (Row α)} (h : (render sep nl rows).count nl = rows.length) :
    ∀ row ∈ rows, nl ∉ record sep row := by
  induction rows with
  | nil => exact fun _ hrow => nomatch hrow
  | cons row rows ih =>
    have hrest := @length_le_count α _ sep nl rows
    rw [count_render_cons, List.length_cons] at h
    intro row' hrow
    rcases List.mem_cons.mp hrow with rfl | hrow
    · exact List.count_eq_zero.mp (by omega)
    · exact ih (by omega) row' hrow

/-- The text of the rows gives them back exactly when their fields are clean. -/
theorem decode_render_iff (hne : nl ≠ sep) {rows : List (Row α)}
    (hn : ∀ row ∈ rows, row.1.length = n) :
    decode sep nl n (render sep nl rows) = some rows ↔ ∀ row ∈ rows, Clean sep nl row := by
  have hmap : render sep nl rows = (rows.map (record sep)).flatMap (· ++ [nl]) := by
    rw [List.flatMap_map]
    rfl
  have hfields : (rows.map (record sep)).mapM (fields sep n) = some rows ↔
      ∀ row ∈ rows, ∀ field ∈ row.1, sep ∉ field := by
    rw [mapM_eq_some, List.forall₂_map_left_iff, List.forall₂_same]
    exact forall₂_congr fun row hrow => fields_record_iff (hn row hrow)
  constructor
  · intro h row hrow
    have hlines : ∀ row ∈ rows, nl ∉ record sep row := by
      have hcount := length_split nl (render sep nl rows)
      have hlen : (split nl (render sep nl rows)).1.length = rows.length := by
        unfold decode at h
        generalize split nl (render sep nl rows) = p at h
        obtain ⟨records, rest⟩ := p
        cases rest with
        | cons a rest => cases h
        | nil => exact (mapM_eq_some.mp h).length_eq
      exact notMem_of_count (hcount.symm.trans hlen)
    rw [decode, hmap, split_flatMap (List.forall_mem_map.mpr hlines)] at h
    obtain ⟨hnl, hlast⟩ := (notMem_record_iff hne).mp (hlines row hrow)
    exact ⟨fun field hfield => ⟨hfields.mp h row hrow field hfield, hnl field hfield⟩, hlast⟩
  · intro h
    have hlines : ∀ row ∈ rows, nl ∉ record sep row := fun row hrow =>
      (notMem_record_iff hne).mpr ⟨fun field hfield => ((h row hrow).1 field hfield).2, (h row hrow).2⟩
    rw [decode, hmap, split_flatMap (List.forall_mem_map.mpr hlines)]
    exact hfields.mpr fun row hrow field hfield => ((h row hrow).1 field hfield).1

end Split
