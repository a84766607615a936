import Yar.Lib.Records
import Yar.Proofs.Runs

/-!
# Command specifications

What `cmdspecParse` accepts, against the syntax that `usage` describes:
`<name>,[pty link name],[log],[delay],<command line>`.
-/

namespace Yar.Proofs

open Program

/-! ## Numbers -/

def isSpace (c : Byte) : Bool := (9 ≤ c && c ≤ 13) || c == 32
def isDigit (c : Byte) : Bool := 48 ≤ c && c ≤ 57
def toLower (c : Byte) : Byte := if 65 ≤ c && c ≤ 90 then c + 32 else c
def isHexDigit (c : Byte) : Bool := isDigit c || (97 ≤ toLower c && toLower c ≤ 102)
def isWord (c : Byte) : Bool := isDigit c || (97 ≤ toLower c && toLower c ≤ 122) || c == 95

/-- The rest behind a word, whatever the case of its letters. -/
def afterWord (word s : CStr) : Option CStr :=
  if (s.take word.length).map toLower = word then some (s.drop word.length) else none

/-- `'+'` and `'-'` -/
def afterSign (s : CStr) : CStr :=
  match s with
  | c :: s' => if c == 43 || c == 45 then s' else s
  | [] => []

/-- An exponent is read only as a whole, behind the letter `e`. -/
def afterExponent (e : Byte) (s : CStr) : CStr :=
  match s with
  | c :: s' =>
    if toLower c = e && (afterSign s').head?.any isDigit then (afterSign s').dropWhile isDigit else s
  | [] => []

/-- Digits with a point among them, at least one digit, and an exponent. -/
def afterDigits (digit : Byte → Bool) (e : Byte) (s : CStr) : Option CStr :=
  let rest := s.dropWhile digit
  let behind := match rest with
    | 46 :: rest' => rest'
    | _ => []
  if s.head?.any digit || (rest.head? == some 46 && behind.head?.any digit) then
    some (afterExponent e (if rest.head? == some 46 then behind.dropWhile digit else rest))
  else none

/-- `nan` can have letters, digits and underscores in brackets behind it. -/
def afterNan (s : CStr) : CStr :=
  match s with
  | 40 :: s' =>
    match s'.dropWhile isWord with
    | 41 :: rest => rest
    | _ => s
  | _ => s

/-- The rest of a string behind the number that `strtod` finds at its front, none without one. -/
def afterNumber (s : CStr) : Option CStr :=
  let s := afterSign (s.dropWhile isSpace)
  match afterWord (bytes "0x") s with
  | some hex =>
    match afterDigits isHexDigit 112 hex with
    | some rest => some rest
    | none => some (s.drop 1)
  | none =>
    match afterDigits isDigit 101 s with
    | some rest => some rest
    | none =>
      match afterWord (bytes "infinity") s with
      | some rest => some rest
      | none =>
        match afterWord (bytes "inf") s with
        | some rest => some rest
        | none => (afterWord (bytes "nan") s).map afterNan

/-- The string in its entirety is a floating-point number. -/
def IsNumber (s : CStr) : Prop := afterNumber s = some []

instance (s : CStr) : Decidable (IsNumber s) := inferInstanceAs (Decidable (_ = _))

example : [bytes "0.01", bytes "1e-3", bytes ".5", bytes "0x1p4", bytes "-inf"].all
    (fun s => decide (IsNumber s)) = true := by decide

example : [bytes "", bytes "1x", bytes "x", bytes "1e", bytes "0x", bytes "."].any
    (fun s => decide (IsNumber s)) = false := by decide

/-! ## The syntax -/

/-- The texts of the five fields. -/
structure SpecFields where
  name : CStr
  link : CStr
  log : CStr
  delay : CStr
  cmdline : CStr

/-- The texts of the fields put together with commas. -/
def SpecFields.join (f : SpecFields) : CStr :=
  f.name ++ 44 :: (f.link ++ 44 :: (f.log ++ 44 :: (f.delay ++ 44 :: f.cmdline)))

section
variable (sys : Sys) (w : World)

/-- `stat` finds something under the path. -/
def PathExists (path : CStr) : Prop :=
  path ≠ [] ∧ (w.kern.names (sys.resolve path)).isSome ∧ sys.fails w.kern.calls = false

/-- The value of the delay field. -/
def delayOf (f : SpecFields) : Double :=
  if f.delay = [] then w.gbls.defaultcmddelay else (sys.strtod f.delay).getD (.fin 0)

/-- What is filled in for the fields. -/
def SpecFields.spec (f : SpecFields) : CmdSpec where
  name := f.name
  ttylink := nonempty f.link
  log := nonempty f.log
  delay := delayOf sys w f
  cmdline := f.cmdline

/-- Only the command line can have commas in it. -/
structure CommaFree (f : SpecFields) : Prop where
  name : 44 ∉ f.name
  link : 44 ∉ f.link
  log : 44 ∉ f.log
  delay : 44 ∉ f.delay

/-- Fields that the parser lets through. -/
structure LetThrough (f : SpecFields) : Prop extends CommaFree f where
  free : f.link = [] ∨ ¬PathExists sys w f.link
  range : f.delay = [] ∨ sys.strtod f.delay ≠ none
  cmdline : f.cmdline ≠ []

/-- Fields as the syntax asks for them. -/
structure Documented (f : SpecFields) : Prop extends LetThrough sys w f where
  named : f.name ≠ []
  number : f.delay = [] ∨ IsNumber f.delay

/-- The parser accepts what the syntax allows, and fills in the fields. -/
def ParsesGrammar (cmdstr : CStr) : Prop :=
  ∀ spec, (∃ w', cmdspecParse sys cmdstr w = .ok (some spec) w') ↔
    ∃ f, cmdstr = f.join ∧ Documented sys w f ∧ spec = f.spec sys w

/-- With the other fields in order, the name is not empty and the delay is a number. -/
def NameAndDelay (cmdstr : CStr) : Prop :=
  ∀ f, cmdstr = f.join → LetThrough sys w f → f.name ≠ [] ∧ (f.delay = [] ∨ IsNumber f.delay)

end

/-! ## Taking a specification apart -/

lemma strsep_eq_cut (s : CStr) : strsep s = Split.cut 44 s := by
  unfold strsep Split.cut
  cases s.span (· != 44) with
  | mk token rest => cases rest <;> rfl

lemma strsep_append {s : CStr} (h : 44 ∉ s) (rest : CStr) : strsep (s ++ 44 :: rest) = some (s, rest) := by
  rw [strsep_eq_cut, Split.cut_append h]

lemma strsep_eq_some {s token rest : CStr} (h : strsep s = some (token, rest)) :
    s = token ++ 44 :: rest ∧ 44 ∉ token := by
  rw [strsep_eq_cut] at h
  exact Split.cut_eq_some h

variable {sys : Sys} {w w' : World} {spec : CmdSpec} {s : CStr} {f g : SpecFields}

/-- The fields can be told from the string. -/
lemma SpecFields.join_inj (h : f.join = g.join) (hf : CommaFree f) (hg : CommaFree g) : f = g := by
  have hname := congrArg strsep h
  rw [join, join, strsep_append hf.name, strsep_append hg.name, Option.some_inj,
    Prod.mk.injEq] at hname
  have hlink := congrArg strsep hname.2
  rw [strsep_append hf.link, strsep_append hg.link, Option.some_inj, Prod.mk.injEq] at hlink
  have hlog := congrArg strsep hlink.2
  rw [strsep_append hf.log, strsep_append hg.log, Option.some_inj, Prod.mk.injEq] at hlog
  have hdelay := congrArg strsep hlog.2
  rw [strsep_append hf.delay, strsep_append hg.delay, Option.some_inj, Prod.mk.injEq] at hdelay
  cases f
  cases g
  simp only [SpecFields.mk.injEq]
  exact ⟨hname.1, hlink.1, hlog.1, hdelay.1, hdelay.2⟩

/-- Four commas are needed. -/
lemma cmdspecParse_fields (hrun : cmdspecParse sys s w = .ok (some spec) w') :
    ∃ f : SpecFields, s = f.join ∧ CommaFree f := by
  replace hrun := get_bind_eq_ok.mp hrun
  cases hname : strsep s with
  | none =>
    simp only [hname] at hrun
    cases (pure_eq_ok.mp hrun).1
  | some p₁ =>
    simp only [hname] at hrun
    cases hlink : strsep p₁.2 with
    | none =>
      simp only [hlink] at hrun
      cases (pure_eq_ok.mp hrun).1
    | some p₂ =>
      simp only [hlink] at hrun
      obtain ⟨b, w₁, -, hrun⟩ := bind_eq_ok.mp hrun
      split at hrun
      case isTrue => cases (pure_eq_ok.mp hrun).1
      case isFalse =>
        cases hlog : strsep p₂.2 with
        | none =>
          simp only [hlog] at hrun
          cases (pure_eq_ok.mp hrun).1
        | some p₃ =>
          simp only [hlog] at hrun
          cases hdelay : strsep p₃.2 with
          | none =>
            simp only [hdelay] at hrun
            cases (pure_eq_ok.mp hrun).1
          | some p₄ =>
            obtain ⟨hs, hn⟩ := strsep_eq_some hname
            obtain ⟨hs₁, hl⟩ := strsep_eq_some hlink
            obtain ⟨hs₂, ho⟩ := strsep_eq_some hlog
            obtain ⟨hs₃, hd⟩ := strsep_eq_some hdelay
            refine ⟨⟨p₁.1, p₂.1, p₃.1, p₄.1, p₄.2⟩, ?_, ⟨hn, hl, ho, hd⟩⟩
            rw [SpecFields.join, ← hs₃, ← hs₂, ← hs₁, hs]

lemma nonempty_taken (sys : Sys) (w : World) (link : CStr) :
    ∃ b w', ttyNameTaken sys (nonempty link) w = .ok b w' ∧ (b = true ↔ PathExists sys w link) := by
  by_cases hlink : link = []
  · rw [nonempty, if_pos hlink]
    exact ⟨false, w, rfl, by simp [PathExists, hlink]⟩
  · rw [nonempty, if_neg hlink]
    refine ⟨_, _, rfl, ?_⟩
    simp [PathExists, hlink]

lemma cmdspecDelay_iff {value : Double} :
    cmdspecDelay sys w.gbls f.delay = some value ↔
      (f.delay = [] ∨ sys.strtod f.delay ≠ none) ∧ value = delayOf sys w f := by
  unfold cmdspecDelay delayOf
  by_cases hdelay : f.delay = []
  · rw [if_pos hdelay, if_pos hdelay, Option.some_inj]
    simp [hdelay, eq_comm]
  · rw [if_neg hdelay, if_neg hdelay]
    cases hvalue : sys.strtod f.delay with
    | none => simp [hdelay]
    | some v => simp [eq_comm]

/-- What the parser makes of five fields. -/
lemma cmdspecParse_join (hf : CommaFree f) :
    (∃ w', cmdspecParse sys f.join w = .ok (some spec) w') ↔
      LetThrough sys w f ∧ spec = f.spec sys w := by
  obtain ⟨b, w₁, htaken, hb⟩ := nonempty_taken sys w f.link
  unfold cmdspecParse
  rw [bind_of_ok (show (get : Act World) w = .ok w w from rfl), SpecFields.join,
    strsep_append hf.name]
  simp only [strsep_append hf.link, strsep_append hf.log, strsep_append hf.delay]
  rw [bind_of_ok htaken]
  cases b with
  | true =>
    constructor
    · rintro ⟨w', hrun⟩
      cases (pure_eq_ok.mp hrun).1
    · rintro ⟨hlet, -⟩
      have hexists := hb.mp rfl
      rcases hlet.free with hlink | hlink
      · exact (hexists.1 hlink).elim
      · exact (hlink hexists).elim
  | false =>
    have hfree : ¬PathExists sys w f.link := fun h => Bool.false_ne_true (hb.mpr h)
    simp only [Bool.false_eq_true, if_false]
    constructor
    · rintro ⟨w', hrun⟩
      cases hvalue : cmdspecDelay sys w.gbls f.delay with
      | none =>
        simp only [hvalue] at hrun
        cases (pure_eq_ok.mp hrun).1
      | some value =>
        simp only [hvalue] at hrun
        obtain ⟨hrange, rfl⟩ := cmdspecDelay_iff.mp hvalue
        split at hrun
        case isTrue => cases (pure_eq_ok.mp hrun).1
        case isFalse hcmdline =>
          obtain ⟨hspec, -⟩ := pure_eq_ok.mp hrun
          exact ⟨⟨hf, .inr hfree, hrange, hcmdline⟩, Option.some.inj hspec⟩
    · rintro ⟨hlet, rfl⟩
      have hvalue := (cmdspecDelay_iff (w := w)).mpr ⟨hlet.range, rfl⟩
      simp only [hvalue, if_neg hlet.cmdline]
      exact ⟨_, rfl⟩

/-- What the parser accepts, whatever the syntax says. -/
lemma cmdspecParse_iff :
    (∃ w', cmdspecParse sys s w = .ok (some spec) w') ↔
      ∃ f : SpecFields, s = f.join ∧ LetThrough sys w f ∧ spec = f.spec sys w := by
  constructor
  · rintro ⟨w', hrun⟩
    obtain ⟨f, rfl, hf⟩ := cmdspecParse_fields hrun
    exact ⟨f, rfl, (cmdspecParse_join hf).mp ⟨w', hrun⟩⟩
  · rintro ⟨f, rfl, hlet, rfl⟩
    exact (cmdspecParse_join hlet.toCommaFree).mpr ⟨hlet, rfl⟩

/-- The parser accepts exactly the documented syntax, unless the name is empty or the delay is not a
number although everything else is in order. -/
theorem parsesGrammar_iff (sys : Sys) (w : World) (cmdstr : CStr) :
    ParsesGrammar sys w cmdstr ↔ NameAndDelay sys w cmdstr := by
  constructor
  · intro h f hf hlet
    obtain ⟨g, hg, hdoc, -⟩ := (h (f.spec sys w)).mp (cmdspecParse_iff.mpr ⟨f, hf, hlet, rfl⟩)
    obtain rfl := SpecFields.join_inj (hf.symm.trans hg) hlet.toCommaFree hdoc.toCommaFree
    exact ⟨hdoc.named, hdoc.number⟩
  · intro h spec
    rw [cmdspecParse_iff]
    constructor
    · rintro ⟨f, hf, hlet, rfl⟩
      obtain ⟨hname, hdelay⟩ := h f hf hlet
      exact ⟨f, hf, ⟨hlet, hname, hdelay⟩, rfl⟩
    · rintro ⟨f, hf, hdoc, rfl⟩
      exact ⟨f, hf, hdoc.toLetThrough, rfl⟩

/-- A specification with an empty name is accepted. -/
theorem not_always_parsesGrammar : ¬∀ sys w cmdstr, ParsesGrammar sys w cmdstr := by
  intro hall
  have hrun : ∃ w', cmdspecParse quietSys (bytes ",,,,ls") {} =
      .ok (some ⟨[], none, none, .fin 0, bytes "ls"⟩) w' := ⟨_, rfl⟩
  obtain ⟨f, -, hdoc, hspec⟩ := (hall quietSys {} (bytes ",,,,ls") _).mp hrun
  have hname := congrArg CmdSpec.name hspec
  exact hdoc.named hname.symm

end Yar.Proofs
