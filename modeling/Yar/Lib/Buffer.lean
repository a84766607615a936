import Mathlib.Logic.Function.Basic
import Mathlib.Tactic.Common

/-!
# Buffers filled from the front

A buffer of bytes that have not been written at first, with the place of the next write. `stpcpy`
leaves a terminator behind the copy, which the next write goes over.
-/

structure Buffer where
  mem : Nat → Option UInt8 := fun _ => none
  next : Nat := 0

namespace Buffer

/-- `*next = c; next++` -/
def put (c : UInt8) (b : Buffer) : Buffer where
  mem := Function.update b.mem b.next (some c)
  next := b.next + 1

/-- `next = stpcpy(next, s)` -/
def stpcpy (s : List UInt8) (b : Buffer) : Buffer :=
  match s with
  | [] => { b with mem := Function.update b.mem b.next (some 0) }
  | c :: s => stpcpy s (b.put c)

/-- What has been written is the text, and the next write goes behind it. -/
structure Exact (b : Buffer) (text : List UInt8) : Prop where
  next : b.next = text.length
  mem : ∀ i, b.mem i = text[i]?

/-- What has been written is the text with a terminator, and the next write goes over that. -/
structure Terminated (b : Buffer) (text : List UInt8) : Prop where
  next : b.next = text.length
  mem : ∀ i, b.mem i = (text ++ [0])[i]?

variable {b : Buffer} {text s : List UInt8} {c : UInt8}

lemma exact_nil : Exact {} [] := ⟨rfl, fun _ => rfl⟩

/-- A write behind the text, whatever was there. -/
lemma update_mem {m : Nat → Option UInt8} (hlt : ∀ i < text.length, m i = text[i]?)
    (hgt : ∀ i > text.length, m i = none) (c : UInt8) (i : Nat) :
    Function.update m text.length (some c) i = (text ++ [c])[i]? := by
  rcases Nat.lt_trichotomy i text.length with h | rfl | h
  · rw [Function.update_of_ne (by omega), hlt i h, List.getElem?_append_left h]
  · rw [Function.update_self, List.getElem?_concat_length]
  · rw [Function.update_of_ne (by omega), hgt i h, List.getElem?_eq_none]
    rw [List.length_append, List.length_singleton]
    omega

lemma Exact.update (h : Exact b text) (c : UInt8) (i : Nat) :
    Function.update b.mem b.next (some c) i = (text ++ [c])[i]? := by
  rw [h.next]
  refine update_mem (fun i _ => h.mem i) (fun i hi => ?_) c i
  rw [h.mem, List.getElem?_eq_none (by omega)]

lemma Exact.put (h : Exact b text) (c : UInt8) : Exact (b.put c) (text ++ [c]) where
  next := by
    rw [List.length_append, ← h.next]
    rfl
  mem := h.update c

lemma Exact.stpcpy (h : Exact b text) (s : List UInt8) : Terminated (b.stpcpy s) (text ++ s) := by
  induction s generalizing b text with
  | nil =>
    rw [List.append_nil]
    exact ⟨h.next, h.update 0⟩
  | cons c s ih =>
    rw [show text ++ c :: s = text ++ [c] ++ s by simp]
    exact ih (h.put c)

lemma Terminated.put (h : Terminated b text) (c : UInt8) : Exact (b.put c) (text ++ [c]) where
  next := by
    rw [List.length_append, ← h.next]
    rfl
  mem i := by
    change Function.update b.mem b.next (some c) i = _
    rw [h.next]
    refine update_mem (fun i hi => ?_) (fun i hi => ?_) c i
    · rw [h.mem, List.getElem?_append_left hi]
    · rw [h.mem, List.getElem?_eq_none]
      rw [List.length_append, List.length_singleton]
      omega

end Buffer
