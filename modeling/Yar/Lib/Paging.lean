import Mathlib.Data.List.Basic
import Mathlib.Tactic.Common

/-!
# Reading a sequence of entries page by page

Entries of different sizes stand one after the other. A page is cut out of them anywhere, so it can
end inside an entry, and the reader that goes on behind the last complete one finds each of them
once.
-/

namespace Paging

variable {α β : Type} (parse : List α → Option (β × List α)) (cookie : β → Nat)

/-- The entries a page starts with that are complete. -/
def complete (fuel : Nat) (page : List α) : List β :=
  match fuel with
  | 0 => []
  | fuel + 1 =>
    match parse page with
    | some (e, rest) => e :: complete fuel rest
    | none => []

/-- Asks for one page after the other, each behind the last complete entry of the one before, up to
the first that is empty. -/
def readAll (request : Nat → Nat → List α) (sizes : Nat → Nat) (fuel k off : Nat) :
    Option (List β) :=
  match fuel with
  | 0 => none
  | fuel + 1 =>
    let page := request (sizes k) off
    if page = [] then some []
    else
      let es := complete parse page.length page
      match es.getLast? with
      | some e => (readAll request sizes fuel (k + 1) (cookie e)).map (es ++ ·)
      | none => none

/-- `enc` is an entry `e`: it is found in front of anything, and not before it is complete. -/
structure Encodes (enc : List α) (e : β) : Prop where
  pos : enc ≠ []
  whole : ∀ rest, parse (enc ++ rest) = some (e, rest)
  cut : ∀ n < enc.length, parse (enc.take n) = none

/-- The cookie of each entry is the place behind it, with the first one at `off`. -/
def Cookies (off : Nat) (r : List (List α × β)) : Prop :=
  match r with
  | [] => True
  | p :: r => cookie p.2 = off + p.1.length ∧ Cookies (off + p.1.length) r

/-- The entries as they stand in the pages. -/
def joined (r : List (List α × β)) : List α := (r.map Prod.fst).flatten

variable {parse cookie} {r l : List (List α × β)} {off : Nat}

@[simp] lemma joined_cons (p : List α × β) (r : List (List α × β)) :
    joined (p :: r) = p.1 ++ joined r := rfl

lemma joined_append (l r : List (List α × β)) : joined (l ++ r) = joined l ++ joined r := by
  rw [joined, List.map_append, List.flatten_append, joined, joined]

lemma Cookies.append (h : Cookies cookie off (l ++ r)) :
    Cookies cookie (off + (joined l).length) r := by
  induction l generalizing off with
  | nil => exact h
  | cons p l ih =>
    have hr := ih h.2
    rwa [joined_cons, List.length_append, ← Nat.add_assoc]

/-- The cookie of the last of some entries is the place behind all of them. -/
lemma Cookies.last (h : Cookies cookie off (l ++ r)) {p : List α × β} (hp : l.getLast? = some p) :
    cookie p.2 = off + (joined l).length := by
  obtain ⟨l, rfl⟩ := List.getLast?_eq_some_iff.mp hp
  rw [List.append_assoc] at h
  rw [h.append.1, joined_append, List.length_append, joined_cons, List.length_append, Nat.add_assoc]
  rfl

lemma parse_nil_of_encodes {p : List α × β} (h : Encodes parse p.1 p.2) : parse [] = none := by
  have hcut := h.cut 0 (List.length_pos_iff.mpr h.pos)
  rwa [List.take_zero] at hcut

/-- The complete entries of a page are the first ones, and there is one if the first has room. -/
lemma complete_take (hr : ∀ p ∈ r, Encodes parse p.1 p.2) (hnil : r = [] → parse [] = none)
    (n fuel : Nat) (hfuel : ((joined r).take n).length ≤ fuel) :
    ∃ l r', r = l ++ r' ∧ complete parse fuel ((joined r).take n) = l.map Prod.snd ∧
      ∀ p ∈ r.head?, p.1.length ≤ n → l ≠ [] := by
  induction r generalizing n fuel with
  | nil =>
    refine ⟨[], [], rfl, ?_, fun p hp => by cases hp⟩
    cases fuel with
    | zero => rfl
    | succ fuel =>
      rw [complete, joined, List.map_nil, List.flatten_nil, List.take_nil, hnil rfl]
      rfl
  | cons p r ih =>
    have hp := hr p List.mem_cons_self
    have hpos := List.length_pos_iff.mpr hp.pos
    by_cases hn : p.1.length ≤ n
    · have hpage : (joined (p :: r)).take n = p.1 ++ (joined r).take (n - p.1.length) := by
        rw [joined_cons, List.take_append, List.take_of_length_le hn]
      rw [hpage, List.length_append] at hfuel
      rw [hpage]
      cases fuel with
      | zero => omega
      | succ fuel =>
        obtain ⟨l, r', hl, hread, -⟩ := ih (fun q hq => hr q (List.mem_cons_of_mem p hq))
          (fun _ => parse_nil_of_encodes hp) (n - p.1.length) fuel (by omega)
        refine ⟨p :: l, r', by rw [hl, List.cons_append], ?_, fun _ _ _ => List.cons_ne_nil p l⟩
        rw [complete, hp.whole, List.map_cons, ← hread]
    · refine ⟨[], p :: r, rfl, ?_, fun q hq hq' => ?_⟩
      · cases fuel with
        | zero => rfl
        | succ fuel =>
          rw [complete, joined_cons, List.take_append_of_le_length (by omega),
            hp.cut n (by omega)]
          rfl
      · obtain rfl : p = q := by simpa using hq
        exact absurd hq' hn

/-- Every entry is read once and in order, however the pages are cut. -/
theorem readAll_eq {request : Nat → Nat → List α} {buf : List α} {sizes : Nat → Nat}
    (hrequest : ∀ n off, request n off = (buf.drop off).take n)
    (hr : ∀ p ∈ r, Encodes parse p.1 p.2) (hsizes : ∀ k, ∀ p ∈ r, p.1.length ≤ sizes k)
    (hcookie : Cookies cookie off r) (hbuf : buf.drop off = joined r) (k fuel : Nat)
    (hfuel : r.length < fuel) :
    readAll parse cookie request sizes fuel k off = some (r.map Prod.snd) := by
  induction fuel generalizing k off r with
  | zero => exact absurd hfuel (Nat.not_lt_zero _)
  | succ fuel ih =>
    rw [readAll, hrequest, hbuf]
    cases r with
    | nil => exact if_pos List.take_nil
    | cons p r =>
      have hp := hr p List.mem_cons_self
      have hroom : p.1.length ≤ sizes k := hsizes k p List.mem_cons_self
      have hne : (joined (p :: r)).take (sizes k) ≠ [] := by
        rw [joined_cons, List.take_append, List.take_of_length_le hroom]
        exact List.append_ne_nil_of_left_ne_nil hp.pos _
      obtain ⟨l, r', hsplit, hread, hl⟩ :=
        complete_take hr (by simp) (sizes k) ((joined (p :: r)).take (sizes k)).length (Nat.le_refl _)
      have hlne := hl p rfl hroom
      obtain ⟨q, hq⟩ := Option.ne_none_iff_exists'.mp
        (mt List.getLast?_eq_none_iff.mp hlne)
      have hlast : (l.map Prod.snd).getLast? = some q.2 := by rw [List.getLast?_map, hq]; rfl
      rw [hsplit] at hr hcookie hbuf hsizes hfuel
      -- the next page starts behind the entries of this one
      have hrest : buf.drop (cookie q.2) = joined r' := by
        rw [hcookie.last hq, ← List.drop_drop, hbuf, joined_append, List.drop_left]
      have hlen := List.length_pos_iff.mpr hlne
      rw [List.length_append] at hfuel
      have hnext := ih (fun p hp => hr p (List.mem_append_right l hp))
        (fun k p hp => hsizes k p (List.mem_append_right l hp))
        (by rw [hcookie.last hq]; exact hcookie.append) hrest (k + 1) (by omega)
      simp only [if_neg hne, hread, hlast, hnext]
      rw [hsplit, List.map_append]
      rfl

/-! ## A text that grows while it is read -/

section

variable {σ : Type} (step : σ → σ → Prop) (read : σ → Nat → Nat → List α → Prop)

/-- What a reader gets who asks for one piece after the other, each behind the one before, while the
owner of the text takes steps. -/
inductive Collected (s : σ) : List α → σ → Prop where
  | start : Collected s [] s
  | step {l : List α} {t u : σ} (h : Collected s l t) (hs : step t u) : Collected s l u
  | read {l page : List α} {t : σ} {n : Nat} (h : Collected s l t) (hr : read t n l.length page) :
      Collected s (l ++ page) t

variable {step read} {s t : σ} {l : List α} {P : σ → Prop} {text : σ → List α}

/-- If steps only add to the end of the text, what has been read is the beginning of the text as it
is now. -/
theorem Collected.isPrefix (h : Collected step read s l t)
    (hstep : ∀ s s', P s → step s s' → P s' ∧ text s <+: text s')
    (hread : ∀ s n off page, P s → read s n off page → page = ((text s).drop off).take n) (hs : P s) :
    P t ∧ l <+: text t := by
  induction h with
  | start => exact ⟨hs, List.nil_prefix⟩
  | step _ hs ih =>
    obtain ⟨hP, hpre⟩ := ih
    obtain ⟨hP', hgrown⟩ := hstep _ _ hP hs
    exact ⟨hP', hpre.trans hgrown⟩
  | @read l page t n _ hr ih =>
    obtain ⟨hP, rest, hrest⟩ := ih
    refine ⟨hP, rest.drop n, ?_⟩
    rw [hread _ _ _ _ hP hr, ← hrest, List.drop_left, List.append_assoc, List.take_append_drop]

/-- Nothing more is found only once the whole text has been read. -/
lemma eq_of_read_nil (hpre : l <+: text t) {n : Nat} (hn : 0 < n)
    (hnil : ((text t).drop l.length).take n = []) : l = text t := by
  obtain ⟨rest, hrest⟩ := hpre
  rw [← hrest, List.drop_left, List.take_eq_nil_iff] at hnil
  rcases hnil with h0 | hnil
  · omega
  · rw [← hrest, hnil, List.append_nil]

end

end Paging
