import Yar.Proofs.Links
import Yar.Proofs.Specs

/-!
# When a command can be added
-/

namespace Yar.Proofs

open Program

variable {sys : Sys} {w w' : World} {id : CmdId} {r : TtyRef} {f : SpecFields} {spec : CmdSpec}

/-! ## The calls of the parser -/

/-- The parser looks for the link if there is one. -/
def parseCalls (f : SpecFields) : ℕ := if f.link = [] then 0 else 1

lemma nonempty_taken_world {b : Bool} {link : CStr}
    (h : ttyNameTaken sys (nonempty link) w = .ok b w') :
    w' = calledBy (if link = [] then 0 else 1) w := by
  unfold nonempty at h
  by_cases hlink : link = []
  · rw [if_pos hlink] at h ⊢
    exact (pure_eq_ok.mp h).2
  · rw [if_neg hlink] at h ⊢
    exact (access_ok h).1

lemma cmdspecParse_world {o : Option CmdSpec} (hf : CommaFree f)
    (h : cmdspecParse sys f.join w = .ok o w') : w' = calledBy (parseCalls f) w := by
  replace h := get_bind_eq_ok.mp h
  rw [SpecFields.join, strsep_append hf.name] at h
  simp only [strsep_append hf.link, strsep_append hf.log, strsep_append hf.delay] at h
  obtain ⟨b, w₁, htaken, h⟩ := bind_eq_ok.mp h
  obtain rfl := nonempty_taken_world htaken
  split at h
  case isTrue => exact (pure_eq_ok.mp h).2
  case isFalse =>
    cases hvalue : cmdspecDelay sys w.gbls f.delay with
    | none =>
      rw [hvalue] at h
      exact (pure_eq_ok.mp h).2
    | some delay =>
      rw [hvalue] at h
      simp only at h
      split at h
      case isTrue => exact (pure_eq_ok.mp h).2
      case isFalse => exact (pure_eq_ok.mp h).2

lemma cmdspecParse_runs (sys : Sys) (cstr : CStr) (w : World) :
    ∃ o n, cmdspecParse sys cstr w = .ok o (calledBy n w) := by
  unfold cmdspecParse
  rw [bind_of_ok (show (get : Act World) w = .ok w w from rfl)]
  cases strsep cstr with
  | none => exact ⟨none, 0, rfl⟩
  | some p₁ =>
    simp only
    cases strsep p₁.2 with
    | none => exact ⟨none, 0, rfl⟩
    | some p₂ =>
      simp only
      obtain ⟨b, w₁, htaken, -⟩ := nonempty_taken sys w p₂.1
      rw [bind_of_ok htaken, nonempty_taken_world htaken]
      split
      case isTrue => exact ⟨none, _, rfl⟩
      case isFalse =>
        cases strsep p₂.2 with
        | none => exact ⟨none, _, rfl⟩
        | some p₃ =>
          simp only
          cases strsep p₃.2 with
          | none => exact ⟨none, _, rfl⟩
          | some p₄ =>
            simp only
            cases cmdspecDelay sys w.gbls p₄.1 with
            | none => exact ⟨none, _, rfl⟩
            | some delay =>
              simp only
              split
              case isTrue => exact ⟨none, _, rfl⟩
              case isFalse => exact ⟨some _, _, rfl⟩

/-! ## The record of the command -/

lemma ttyInit_eq_ok {ttylink src₁ dst₁ src₂ dst₂ : Option CStr} {u : Unit} :
    ttyInit r ttylink src₁ dst₁ src₂ dst₂ w = .ok u w' ↔
      (w.ttys r).link = none ∧ w' = w.updTty r fun this =>
        { this with
          link := ttylink, extralink1 := ⟨src₁, dst₁⟩, extralink2 := ⟨src₂, dst₂⟩
          dfd := none, sfd := none, ifd := none, iwd := none } := by
  constructor
  · exact ttyInit_ok
  · rintro ⟨hlink, rfl⟩
    exact get_bind_eq_ok.mpr (require_bind_eq_ok.mpr ⟨hlink, rfl⟩)

/-- The link of the client tty. -/
def clientLink (g : Globals) (spec : CmdSpec) : CStr :=
  spec.ttylink.getD (cwdPrefix g (some spec.name))

/-- The links of the client tty. -/
def clientLinks (g : Globals) (spec : CmdSpec) : List CStr :=
  [clientLink g spec, snprintfPath (clientLink g spec) (bytes ".mon"),
    snprintfPath (clientLink g spec) (bytes ".fs")]

/-- The world in which a new command has been filled in. -/
def filledIn (spec : CmdSpec) (w : World) : World :=
  let w₁ : World := { w with brk := w.brk + 1 }.updCmd w.brk fun _ =>
    { name := spec.name
      bcstprefix := spec.name ++ bytes ": "
      cmdline := spec.cmdline
      delay := spec.delay
      exitstatus := -1
      restart := true
      deleteonexit := w.gbls.cmddelonexit }
  let w₂ := w₁.updTty (.cmd w.brk) fun this =>
    { this with
      link := none, extralink1 := ⟨none, none⟩, extralink2 := ⟨none, none⟩
      dfd := none, sfd := none, ifd := none, iwd := none }
  w₂.updTty (.clt w.brk) fun this =>
    { this with
      link := some (clientLink w.gbls spec)
      extralink1 := ⟨some (snprintfPath (clientLink w.gbls spec) (bytes ".mon")), (w.ttys .mon).link⟩
      extralink2 := ⟨some (snprintfPath (clientLink w.gbls spec) (bytes ".fs")), w.gbls.fsmntpt⟩
      dfd := none, sfd := none, ifd := none, iwd := none }

/-- The world is one in which commands can be added: the address the next command gets has not been
used, and there is something for the extra links to point to. -/
structure AddReady (w : World) : Prop where
  clt : (w.ttys (.clt w.brk)).link = none
  cmd : (w.ttys (.cmd w.brk)).link = none
  mounted : w.gbls.fsmntpt ≠ none

lemma cmdInit_iff (hr : AddReady w) {u : Unit} :
    cmdInit w.brk spec.name spec.cmdline spec.delay spec.ttylink spec.log
      { w with brk := w.brk + 1 } = .ok u w' ↔ spec.log = none ∧ w' = filledIn spec w := by
  unfold cmdInit
  rw [require_bind_eq_ok, get_bind_eq_ok]
  refine and_congr_right fun _ => ?_
  refine modify_bind_eq_ok.trans ?_
  rw [bind_eq_ok]
  constructor
  · rintro ⟨_, w₁, hcmd, hclt⟩
    obtain ⟨-, rfl⟩ := ttyInit_eq_ok.mp hcmd
    obtain ⟨-, rfl⟩ := ttyInit_eq_ok.mp (get_bind_eq_ok.mp hclt)
    rfl
  · rintro rfl
    refine ⟨(), _, ttyInit_eq_ok.mpr ⟨hr.cmd, rfl⟩, ?_⟩
    refine get_bind_eq_ok.mpr (ttyInit_eq_ok.mpr ⟨?_, rfl⟩)
    simpa [World.updTty, World.updCmd] using hr.clt

/-! ## The table -/

lemma foldl_linkedIn_ttys {ps : List CStr} :
    (ps.foldl (linkedIn sys r) w).ttys = w.ttys := by
  induction ps generalizing w with
  | nil => rfl
  | cons p ps ih => exact ih

lemma createdTty_ttys_of_ne {r' : TtyRef} (hne : r' ≠ r) :
    (createdTty sys r w).ttys r' = w.ttys r' := by
  have hopened : (opened r w).ttys r' = w.ttys r' := Function.update_of_ne hne _ _
  simp [createdTty, watched, World.updTty, Function.update_of_ne hne, called, acquired,
    foldl_linkedIn_ttys, hopened]

/-- The world in which the two ttys of a new command have been created. -/
def addedTtys (sys : Sys) (spec : CmdSpec) (w : World) : World :=
  createdTty sys (.cmd w.brk) (createdTty sys (.clt w.brk) (filledIn spec w))

/-- The two ttys of a new command can be created, the client tty's links included. -/
structure TtysCreatable (sys : Sys) (spec : CmdSpec) (w : World) : Prop where
  links : FreePaths sys w.kern.names (clientLinks w.gbls spec)
  calls : CallsPass sys (w.kern.calls + 3) 11

lemma filledIn_clt : ttyNames ((filledIn spec w).ttys (.clt w.brk)) = clientLinks w.gbls spec := by
  simp [filledIn, World.updTty, ttyNames, clientLinks]

lemma filledIn_cmd : ttyNames ((filledIn spec w).ttys (.cmd w.brk)) = [] := by
  simp [filledIn, World.updTty, ttyNames]

lemma cmdCreate_true_iff (hr : AddReady w) : cmdCreate sys w.brk (filledIn spec w) = .ok true w' ↔
    TtysCreatable sys spec w ∧ w' = addedTtys sys spec w := by
  have hclt (w₁ : World) : ttyCreate sys (.clt w.brk) (filledIn spec w) = .ok true w₁ ↔
      Creatable sys w.kern.names w.kern.calls (clientLinks w.gbls spec) ∧
        w₁ = createdTty sys (.clt w.brk) (filledIn spec w) := by
    rw [ttyCreate_true_iff, filledIn_clt]
    · rfl
    · simp [filledIn, World.updTty]
    · simp [Targeted, filledIn, World.updTty, hr.mounted]
  have hcmd : ttyCreate sys (.cmd w.brk) (createdTty sys (.clt w.brk) (filledIn spec w)) =
      .ok true w' ↔ CallsPass sys (w.kern.calls + 10) 4 ∧ w' = addedTtys sys spec w := by
    have htty : (createdTty sys (.clt w.brk) (filledIn spec w)).ttys (.cmd w.brk) =
        (filledIn spec w).ttys (.cmd w.brk) := createdTty_ttys_of_ne (by simp)
    rw [ttyCreate_true_iff, htty, filledIn_cmd, createdTty_calls, filledIn_clt]
    · refine and_congr_left fun _ => ?_
      constructor
      · exact fun h => h.calls
      · exact fun h => ⟨freePaths_nil, h⟩
    · rw [htty]
      simp [filledIn, World.updTty]
    · rw [htty]
      simp [Targeted, filledIn, World.updTty]
  unfold cmdCreate
  rw [bind_eq_ok]
  constructor
  · rintro ⟨b, w₁, h₁, h⟩
    cases b with
    | false => cases (pure_eq_ok.mp h).1
    | true =>
      obtain ⟨⟨hlinks, hcalls⟩, rfl⟩ := (hclt w₁).mp h₁
      obtain ⟨hcalls', hw⟩ := hcmd.mp h
      exact ⟨⟨hlinks, callsPass_add.mpr ⟨hcalls, hcalls'⟩⟩, hw⟩
  · rintro ⟨⟨hlinks, hcalls⟩, hw⟩
    rw [show 11 = 7 + 4 from rfl, callsPass_add] at hcalls
    exact ⟨true, _, (hclt _).mpr ⟨⟨hlinks, hcalls.1⟩, rfl⟩, hcmd.mpr ⟨hcalls.2, hw⟩⟩

/-- `GBLS.slowestcmd` can be followed. -/
def SlowestLive (w : World) : Prop := ∀ s, w.gbls.slowestcmd = some s → s ∈ w.gbls.cmds

lemma updSlowest_iff (id : CmdId) (delay : Double) :
    (∃ w', updSlowest id delay w = .ok () w') ↔ SlowestLive w := by
  constructor
  · rintro ⟨w', h⟩ s hs
    obtain ⟨s', -, ⟨hnone, -⟩ | ⟨j, hj, hsome, -⟩⟩ := updSlowest_ok h
    · rw [hs] at hnone
      cases hnone
    · rw [hs] at hsome
      exact Option.some.inj hsome ▸ hj
  · intro h
    have hrun : Returns (updSlowest id delay) w := by
      refine .get_bind ?_
      cases hs : w.gbls.slowestcmd with
      | none => exact .modifyState _ _
      | some s =>
        refine .bind (.get_bind (.require (h s hs) _)) fun _ w₁ _ => .when fun _ => ?_
        exact .modifyState _ _
    obtain ⟨_, w', hw'⟩ := hrun
    exact ⟨w', hw'⟩

/-- The world in which a new command is in the table. -/
def listed (sys : Sys) (spec : CmdSpec) (w : World) (s : Option CmdId) : World :=
  { addedTtys sys spec w with
    gbls.slowestcmd := s
    gbls.cmds := w.gbls.cmds ++ [w.brk]
    trace := .added w.brk :: (addedTtys sys spec w).trace }

/-- What the creation of a tty does not touch. -/
def objects (w : World) : Globals × (CmdId → Cmd) × CmdId := (w.gbls, w.heap, w.brk)

lemma objects_foldl_linkedIn {ps : List CStr} :
    objects (ps.foldl (linkedIn sys r) w) = objects w := by
  induction ps generalizing w with
  | nil => rfl
  | cons p ps ih => exact ih

lemma objects_acquired : objects (acquired w) = objects w := rfl

lemma objects_called : objects (called w) = objects w := rfl

lemma objects_calledBy {n : ℕ} : objects (calledBy n w) = objects w := rfl

lemma objects_updTty {g : Tty → Tty} : objects (w.updTty r g) = objects w := rfl

lemma objects_updPort {g : Port → Port} : objects (w.updPort r g) = objects w := rfl

lemma objects_createdTty : objects (createdTty sys r w) = objects w := by
  simp only [createdTty, watched, opened, objects_updTty, objects_updPort, objects_acquired,
    objects_called, objects_calledBy, objects_foldl_linkedIn]

lemma objects_addedTtys (sys : Sys) (spec : CmdSpec) (w : World) :
    objects (addedTtys sys spec w) = objects (filledIn spec w) := by
  rw [addedTtys, objects_createdTty, objects_createdTty]

lemma addedTtys_gbls : (addedTtys sys spec w).gbls = w.gbls := by
  have h := objects_addedTtys sys spec w
  simp only [objects, Prod.mk.injEq] at h
  exact h.1

lemma addedTtys_heap : (addedTtys sys spec w).heap = (filledIn spec w).heap := by
  have h := objects_addedTtys sys spec w
  simp only [objects, Prod.mk.injEq] at h
  exact h.2.1

lemma addedTtys_brk : (addedTtys sys spec w).brk = w.brk + 1 := by
  have h := objects_addedTtys sys spec w
  simp only [objects, Prod.mk.injEq] at h
  exact h.2.2

lemma addedTtys_names : (addedTtys sys spec w).kern.names =
    linked sys (.clt w.brk) (clientLinks w.gbls spec) w.kern.names := by
  have htty : (createdTty sys (.clt w.brk) (filledIn spec w)).ttys (.cmd w.brk) =
      (filledIn spec w).ttys (.cmd w.brk) := createdTty_ttys_of_ne (by simp)
  rw [addedTtys, createdTty_names, htty, filledIn_cmd, createdTty_names, filledIn_clt]
  rfl

lemma addedTtys_calls : (addedTtys sys spec w).kern.calls = w.kern.calls + 14 := by
  have htty : (createdTty sys (.clt w.brk) (filledIn spec w)).ttys (.cmd w.brk) =
      (filledIn spec w).ttys (.cmd w.brk) := createdTty_ttys_of_ne (by simp)
  rw [addedTtys, createdTty_calls, htty, filledIn_cmd, createdTty_calls, filledIn_clt]
  rfl

section
variable {s : Option CmdId}

lemma listed_heap : (listed sys spec w s).heap = (filledIn spec w).heap := by
  simp only [listed, addedTtys_heap]

lemma listed_brk : (listed sys spec w s).brk = w.brk + 1 := by
  simp only [listed, addedTtys_brk]

lemma listed_gbls : (listed sys spec w s).gbls =
    { w.gbls with slowestcmd := s, cmds := w.gbls.cmds ++ [w.brk] } := by
  simp only [listed, addedTtys_gbls]

lemma listed_names : (listed sys spec w s).kern.names =
    linked sys (.clt w.brk) (clientLinks w.gbls spec) w.kern.names := by
  simp only [listed, addedTtys_names]

lemma listed_calls : (listed sys spec w s).kern.calls = w.kern.calls + 14 := by
  simp only [listed, addedTtys_calls]

lemma listed_tty (hclt : r ≠ .clt w.brk) (hcmd : r ≠ .cmd w.brk) :
    (listed sys spec w s).ttys r = w.ttys r := by
  simp only [listed, addedTtys]
  rw [createdTty_ttys_of_ne hcmd, createdTty_ttys_of_ne hclt]
  simp only [filledIn, World.updTty, World.updCmd]
  rw [Function.update_of_ne hclt, Function.update_of_ne hcmd]

end

/-- The command with this specification can be added: it has no log, its ttys can be created and the
slowest command so far is still there to be compared with. -/
structure CanAdd (sys : Sys) (spec : CmdSpec) (w : World) : Prop where
  log : spec.log = none
  ttys : TtysCreatable sys spec w
  slowest : SlowestLive w

lemma slowestLive_addedTtys : SlowestLive (addedTtys sys spec w) ↔ SlowestLive w := by
  rw [SlowestLive, SlowestLive, addedTtys_gbls]

lemma GBLSAddNew_some (hr : AddReady w) (h : GBLSAddNew sys spec w = .ok (some id) w') :
    CanAdd sys spec w ∧ id = w.brk ∧ ∃ s, (s = some w.brk ∨ s = w.gbls.slowestcmd) ∧
      w' = listed sys spec w s := by
  obtain ⟨id', w₁, hmalloc, h⟩ := bind_eq_ok.mp h
  obtain ⟨rfl, rfl⟩ := mallocCmd_ok hmalloc
  obtain ⟨_, w₂, hinit, h⟩ := bind_eq_ok.mp h
  obtain ⟨hlog, rfl⟩ := (cmdInit_iff hr).mp hinit
  obtain ⟨b, w₃, hcreate, h⟩ := bind_eq_ok.mp h
  cases b with
  | false =>
    obtain ⟨_, w₄, -, h⟩ := bind_eq_ok.mp h
    cases (pure_eq_ok.mp h).1
  | true =>
    obtain ⟨httys, rfl⟩ := (cmdCreate_true_iff hr).mp hcreate
    obtain ⟨_, w₄, hslow, h⟩ := bind_eq_ok.mp h
    obtain ⟨s, rfl, hs⟩ := updSlowest_ok hslow
    replace h := modify_bind_eq_ok.mp h
    replace h := modify_bind_eq_ok.mp h
    obtain ⟨hid, hw⟩ := pure_eq_ok.mp h
    refine ⟨⟨hlog, httys, slowestLive_addedTtys.mp ((updSlowest_iff _ _).mp ⟨_, hslow⟩)⟩,
      Option.some.inj hid, s, ?_, ?_⟩
    · rw [addedTtys_gbls] at hs
      rcases hs with ⟨-, hs⟩ | ⟨j, -, hj, hs⟩
      · exact .inl hs
      · split at hs
        · exact .inl hs
        · exact .inr (hs.trans hj.symm)
    · rw [hw]
      simp only [addedTtys_gbls, listed]

lemma GBLSAddNew_runs (hr : AddReady w) (h : CanAdd sys spec w) :
    ∃ s, GBLSAddNew sys spec w = .ok (some w.brk) (listed sys spec w s) := by
  have hlive : SlowestLive (addedTtys sys spec w) := slowestLive_addedTtys.mpr h.slowest
  obtain ⟨w₄, hslow⟩ := (updSlowest_iff w.brk spec.delay).mpr hlive
  obtain ⟨s, rfl, -⟩ := updSlowest_ok hslow
  have hinit : cmdInit w.brk spec.name spec.cmdline spec.delay spec.ttylink spec.log
      { w with brk := w.brk + 1 } = .ok () (filledIn spec w) := (cmdInit_iff hr).mpr ⟨h.log, rfl⟩
  refine ⟨s, ?_⟩
  refine (bind_of_ok (show mallocCmd w = .ok w.brk _ from rfl)).trans ?_
  refine (bind_of_ok hinit).trans ?_
  refine (bind_of_ok ((cmdCreate_true_iff hr).mpr ⟨h.ttys, rfl⟩)).trans ?_
  refine (bind_of_ok hslow).trans ?_
  refine modify_bind_eq_ok.mpr (modify_bind_eq_ok.mpr (pure_eq_ok.mpr ⟨rfl, ?_⟩))
  simp only [addedTtys_gbls, listed]

/-- The world after the calls of the parser. -/
def parsed (f : SpecFields) (w : World) : World := calledBy (parseCalls f) w

lemma GBLSAddCmd_some (hf : CommaFree f) (h : GBLSAddCmd sys f.join w = .ok (some id) w') :
    LetThrough sys w f ∧ w.hashFind f.name = none ∧
      GBLSAddNew sys (f.spec sys w) (parsed f w) = .ok (some id) w' := by
  obtain ⟨spec, w₁, hparse, h⟩ := bind_eq_ok.mp h
  obtain rfl := cmdspecParse_world hf hparse
  cases spec with
  | none => cases (pure_eq_ok.mp h).1
  | some spec =>
    obtain ⟨hlet, rfl⟩ := (cmdspecParse_join hf).mp ⟨_, hparse⟩
    replace h := get_bind_eq_ok.mp h
    split at h
    case isTrue => cases (pure_eq_ok.mp h).1
    case isFalse hname => exact ⟨hlet, Option.not_isSome_iff_eq_none.mp hname, h⟩

lemma GBLSAddCmd_eq (hlet : LetThrough sys w f) (hname : w.hashFind f.name = none) :
    GBLSAddCmd sys f.join w = GBLSAddNew sys (f.spec sys w) (parsed f w) := by
  obtain ⟨w₁, hparse⟩ := (cmdspecParse_join hlet.toCommaFree).mpr ⟨hlet, rfl⟩
  obtain rfl := cmdspecParse_world hlet.toCommaFree hparse
  refine (bind_of_ok hparse).trans ?_
  have hfree : ((parsed f w).hashFind (f.spec sys w).name).isSome = false := by
    rw [show (parsed f w).hashFind (f.spec sys w).name = w.hashFind f.name from rfl, hname]
    rfl
  change (if ((parsed f w).hashFind (f.spec sys w).name).isSome then _ else _ : Act _) _ = _
  rw [hfree]
  rfl

end Yar.Proofs
