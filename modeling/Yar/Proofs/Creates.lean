import Yar.Proofs.Actions
import Yar.Proofs.Io

/-!
# Creations

The handling of an event comes to at most three calls of `ttyCreate`: for the two ttys of a command
that is added, and for the broadcast tty that the second command brings along.
-/

namespace Yar.Proofs

open Program

/-! ## The calls of ttyCreate -/

section
variable (sys : Sys)

/-- `GBLSAddCmd` up to the creation of the two ttys. -/
def addInit (cstr : CStr) : Act (Option CmdId) := do
  match ← cmdspecParse sys cstr with
  | none => return none
  | some spec =>
    if ((← get).hashFind spec.name).isSome then return none
    else do
      let id ← mallocCmd
      cmdInit id spec.name spec.cmdline spec.delay spec.ttylink spec.log
      return some id

/-- The ttys an addition creates, each with the state in which its creation is called. -/
def addCreates (cstr : CStr) (w : World) : List (TtyRef × World) :=
  match addInit sys cstr w with
  | .ok (some id) w₁ => (.clt id, w₁) ::
    match ttyCreate sys (.clt id) w₁ with
    | .ok true w₂ => [(.cmd id, w₂)]
    | _ => []
  | _ => []

/-- `monAdd` up to the creation of the broadcast tty. -/
def addRegister (cstr : CStr) : Act Bool := do
  match ← GBLSAddCmd sys cstr with
  | none => return false
  | some id => do
    cmdRegisterttyEvents sys id
    return true

def enableCreates (cstr : CStr) (w : World) : List (TtyRef × World) :=
  match addRegister sys cstr w with
  | .ok true w₁ =>
    if w₁.gbls.bcstflg = false ∧ w₁.gbls.cmds.length > 1 then
      [(.bcst, { w₁ with gbls.bcstflg := true })]
    else []
  | _ => []

/-- The calls of `ttyCreate` that the handling of an event comes to. -/
def ttyCreates (w : World) (e : Event) : List (TtyRef × World) :=
  match e with
  | .hdlr (.dom .mon) x =>
    match x.line.bind monLookup with
    | some (.monAdd, some cstr) => addCreates sys cstr w ++ enableCreates sys cstr w
    | _ => []
  | _ => []

end

variable {sys : Sys} {w w' : World} {id : CmdId} {S : Set Part} {cstr : CStr}

lemma mem_addCreates_clt {w₁ : World} (hinit : addInit sys cstr w = .ok (some id) w₁) :
    (.clt id, w₁) ∈ addCreates sys cstr w := by
  rw [addCreates, hinit]
  exact List.mem_cons_self

lemma mem_addCreates_cmd {w₁ w₂ : World} (hinit : addInit sys cstr w = .ok (some id) w₁)
    (hclt : ttyCreate sys (.clt id) w₁ = .ok true w₂) : (.cmd id, w₂) ∈ addCreates sys cstr w := by
  rw [addCreates, hinit]
  simp only [hclt]
  simp

lemma mem_enableCreates {w₁ w₂ : World} (hadd : GBLSAddCmd sys cstr w = .ok (some id) w₁)
    (hreg : cmdRegisterttyEvents sys id w₁ = .ok () w₂) (hflg : w₂.gbls.bcstflg = false)
    (hlen : 1 < w₂.gbls.cmds.length) :
    (.bcst, { w₂ with gbls.bcstflg := true }) ∈ enableCreates sys cstr w := by
  have hrun : addRegister sys cstr w = .ok true w₂ := by
    unfold addRegister
    rw [bind_of_ok hadd]
    exact bind_of_ok hreg
  rw [enableCreates, hrun]
  simp only [hflg, hlen, and_self, if_true, List.mem_singleton]

/-! ## An addition, call by call -/

/-- The tty has no descriptors. -/
structure NoFds (this : Tty) : Prop where
  dfd : this.dfd = none
  sfd : this.sfd = none
  ifd : this.ifd = none

lemma ttyInit_ok {r : TtyRef} {ttylink src₁ dst₁ src₂ dst₂ : Option CStr} {u : Unit}
    (h : ttyInit r ttylink src₁ dst₁ src₂ dst₂ w = .ok u w') :
    (w.ttys r).link = none ∧ w' = w.updTty r fun this =>
      { this with
        link := ttylink, extralink1 := ⟨src₁, dst₁⟩, extralink2 := ⟨src₂, dst₂⟩
        dfd := none, sfd := none, ifd := none, iwd := none } := by
  obtain ⟨hlink, h⟩ := require_bind_eq_ok.mp (get_bind_eq_ok.mp h)
  exact ⟨hlink, modify_eq_ok.mp h⟩

lemma ttyInit_noFds {r : TtyRef} {ttylink src₁ dst₁ src₂ dst₂ : Option CStr} {u : Unit}
    (h : ttyInit r ttylink src₁ dst₁ src₂ dst₂ w = .ok u w') : NoFds (w'.ttys r) := by
  rw [(ttyInit_ok h).2]
  constructor <;> simp [World.updTty]

lemma ttyCleanup_tty {r : TtyRef} {u : Unit} (h : ttyCleanup sys r w = .ok u w') : w'.ttys r = {} := by
  replace h := get_bind_eq_ok.mp h
  obtain ⟨_, w₁, -, h⟩ := bind_eq_ok.mp h
  obtain ⟨_, w₂, -, h⟩ := bind_eq_ok.mp h
  obtain ⟨_, w₃, -, h⟩ := bind_eq_ok.mp h
  obtain ⟨_, w₄, -, h⟩ := bind_eq_ok.mp h
  obtain ⟨_, w₅, -, h⟩ := bind_eq_ok.mp h
  obtain ⟨_, w₆, -, h⟩ := bind_eq_ok.mp h
  rw [modify_eq_ok.mp h]
  simp [World.updTty]

lemma ttyCreate_failed {r : TtyRef} (h : ttyCreate sys r w = .ok false w') : w'.ttys r = {} := by
  obtain ⟨b, w₁, -, h⟩ := bind_eq_ok.mp h
  cases b with
  | true => cases (pure_eq_ok.mp h).1
  | false =>
    obtain ⟨_, w₂, hclean, h⟩ := bind_eq_ok.mp h
    rw [(pure_eq_ok.mp h).2]
    exact ttyCleanup_tty hclean

/-- A tty that has been created, under the names it was given. -/
structure Whole (this this' : Tty) : Prop where
  dfd : this'.dfd ≠ none
  sfd : this'.sfd ≠ none
  ifd : this'.ifd ≠ none
  link : this'.link = this.link
  extralink1 : this'.extralink1 = this.extralink1
  extralink2 : this'.extralink2 = this.extralink2

lemma acquire_ttys {fd : Option Fd} (h : acquire sys w = .ok fd w') : w'.ttys = w.ttys := by
  obtain ⟨k, w₁, hcall, h⟩ := bind_eq_ok.mp h
  obtain ⟨-, rfl⟩ := call_ok hcall
  by_cases hfail : sys.fails k = true
  · rw [if_pos hfail] at h
    rw [(pure_eq_ok.mp h).2]
    rfl
  · rw [if_neg hfail] at h
    obtain ⟨fd', w₂, hopen, h⟩ := bind_eq_ok.mp h
    rw [(pure_eq_ok.mp h).2, (openFd_ok hopen).2]
    rfl

lemma ttyWatch_whole {r : TtyRef} (h : ttyWatch sys r w = .ok true w') :
    ∃ ifd iwd, w'.ttys r = { w.ttys r with ifd := some ifd, iwd := some iwd } := by
  obtain ⟨ifd, w₁, hacq, h⟩ := bind_eq_ok.mp h
  have htty := acquire_ttys hacq
  cases ifd with
  | none => cases (pure_eq_ok.mp h).1
  | some ifd =>
    replace h := modify_bind_eq_ok.mp h
    obtain ⟨k, w₂, hcall, h⟩ := bind_eq_ok.mp h
    obtain ⟨-, rfl⟩ := call_ok hcall
    by_cases hfail : sys.fails k = true
    · rw [if_pos hfail] at h
      cases (pure_eq_ok.mp h).1
    · rw [if_neg hfail] at h
      replace h := modify_bind_eq_ok.mp h
      refine ⟨ifd, ifd, ?_⟩
      rw [(pure_eq_ok.mp h).2]
      simp [World.updTty, htty]

lemma ttyCreate_whole {r : TtyRef} (h : ttyCreate sys r w = .ok true w') :
    (w.ttys r).dfd = none ∧ Whole (w.ttys r) (w'.ttys r) := by
  obtain ⟨b, w₁, hbuild, h⟩ := bind_eq_ok.mp h
  cases b with
  | false =>
    obtain ⟨_, w₂, -, h⟩ := bind_eq_ok.mp h
    cases (pure_eq_ok.mp h).1
  | true =>
    obtain ⟨-, rfl⟩ := pure_eq_ok.mp h
    obtain ⟨hnone, h⟩ := require_bind_eq_ok.mp (get_bind_eq_ok.mp hbuild)
    refine ⟨hnone, ?_⟩
    obtain ⟨taken, w₁, htaken, h⟩ := bind_eq_ok.mp h
    obtain ⟨-, h⟩ := not_jumped h
    obtain ⟨dfd, w₂, hdfd, h⟩ := bind_eq_ok.mp h
    cases dfd with
    | none => cases (pure_eq_ok.mp h).1
    | some dfd =>
      replace h := modify_bind_eq_ok.mp h
      replace h := modify_bind_eq_ok.mp h
      obtain ⟨sfd, w₄, hsfd, h⟩ := bind_eq_ok.mp h
      cases sfd with
      | none => cases (pure_eq_ok.mp h).1
      | some sfd =>
        obtain ⟨linked, w₅, hlinks, h⟩ := bind_eq_ok.mp h
        obtain ⟨-, h⟩ := not_jumped h
        obtain ⟨watched, w₆, hwatch, h⟩ := bind_eq_ok.mp h
        obtain ⟨hwatched, h⟩ := not_jumped h
        rw [Bool.not_eq_false'] at hwatched
        rw [hwatched] at hwatch
        obtain ⟨ifd, iwd, htty₆⟩ := ttyWatch_whole hwatch
        replace h := modify_bind_eq_ok.mp h
        have hm₁ : Modifies ∅ w w₁ := ttyNamesTaken_modifies sys _ htaken
        have hm₅ : Modifies {.names, .oLink} w₄ w₅ := ttyLinks_modifies sys r _ (by simp) (by simp) hlinks
        have hst₁ := hm₁.same (.tty r) (by simp)
        have hst₅ := hm₅.same (.tty r) (by simp)
        simp only [SameOn, ttyStatic, Prod.mk.injEq, acquire_ttys hsfd] at hst₁ hst₅
        obtain ⟨hlink₁, he₁, he₁', -⟩ := hst₁
        obtain ⟨hlink₅, he₅, he₅', hdfd₅, -⟩ := hst₅
        rw [(pure_eq_ok.mp h).2]
        simp only [World.updTty, World.updPort, Function.update_self, acquire_ttys hdfd]
          at hlink₅ he₅ he₅' hdfd₅
        constructor
        · simp [World.updTty, htty₆, hdfd₅]
        · simp [World.updTty]
        · simp [World.updTty, htty₆]
        · simp [World.updTty, htty₆, hlink₅, hlink₁]
        · simp [World.updTty, htty₆, he₅, he₁]
        · simp [World.updTty, htty₆, he₅', he₁']

/-- A command that has been filled in and has no ttys yet. -/
structure Prepared (w w₁ : World) (id : CmdId) : Prop where
  id_eq : id = w.brk
  modifies : Modifies (initParts id ∪ {.brk}) w w₁
  pid : (w₁.heap id).pid = none
  pidfd : (w₁.heap id).pidfd = none
  clt : NoFds (w₁.ttys (.clt id))
  cmd : NoFds (w₁.ttys (.cmd id))

lemma NoFds.of_modifies {r : TtyRef} (h : NoFds (w.ttys r)) (hm : Modifies S w w') (hr : .tty r ∉ S) :
    NoFds (w'.ttys r) := by
  have htty := hm.same _ hr
  simp only [SameOn, ttyStatic, Prod.mk.injEq] at htty
  exact ⟨htty.2.2.2.1.trans h.dfd, htty.2.2.2.2.1.trans h.sfd, htty.2.2.2.2.2.1.trans h.ifd⟩

lemma addInit_prepared {w₁ : World} (h : addInit sys cstr w = .ok (some id) w₁) :
    Prepared w w₁ id := by
  obtain ⟨spec, w₀, hparse, h⟩ := bind_eq_ok.mp h
  have hm : Modifies ∅ w w₀ := cmdspecParse_modifies sys cstr hparse
  cases spec with
  | none => cases (pure_eq_ok.mp h).1
  | some spec =>
    replace h := get_bind_eq_ok.mp h
    by_cases hn : (w₀.hashFind spec.name).isSome
    · rw [if_pos hn] at h
      cases (pure_eq_ok.mp h).1
    · rw [if_neg hn] at h
      obtain ⟨id', w₂, hmalloc, h⟩ := bind_eq_ok.mp h
      obtain ⟨rfl, rfl⟩ := mallocCmd_ok hmalloc
      obtain ⟨_, w₃, hinit, h⟩ := bind_eq_ok.mp h
      obtain ⟨hid, rfl⟩ := pure_eq_ok.mp h
      rw [Option.some_inj] at hid
      have hbrk : w₀.brk = w.brk := hm.brk_eq (by simp)
      have hm₁ : Modifies {.brk} w₀ { w₀ with brk := w₀.brk + 1 } := by
        refine Modifies.of_same rfl rfl fun p hp => ?_
        cases p with
        | brk => exact (hp rfl).elim
        | _ => first | rfl | trivial
      have hm₂ : Modifies (initParts w₀.brk) _ w₁ := cmdInit_modifies _ _ _ _ _ subset_rfl hinit
      have hfilled := cmdInit_initialized hinit
      obtain ⟨-, hinit⟩ := require_bind_eq_ok.mp hinit
      replace hinit := modify_bind_eq_ok.mp (get_bind_eq_ok.mp hinit)
      obtain ⟨_, w₄, hcmd, hclt⟩ := bind_eq_ok.mp hinit
      have hkeep : Modifies {.tty (.clt w₀.brk)} w₄ w₁ :=
        ttyInitLinked_modifies _ (by simp) hclt
      rw [hid]
      refine ⟨hbrk, ?_, hfilled.pid, hfilled.pidfd, ttyInit_noFds (get_bind_eq_ok.mp hclt),
        (ttyInit_noFds hcmd).of_modifies hkeep (by simp)⟩
      exact trans_of _ (hm.mono (Set.empty_subset _)) (trans_of _ (hm₁.mono fun _ hp => .inr hp)
        (hm₂.mono fun _ hp => .inl hp))

/-- The cleanup of a command without a process. -/
def clearCmd (sys : Sys) (id : CmdId) : Act Unit := do
  ttyCleanup sys (.cmd id)
  ttyCleanup sys (.clt id)
  updCmd id cmdClear

/-- The ways an addition can go, as to the creation of the ttys. -/
inductive AddRun (sys : Sys) (cstr : CStr) (w : World) : Option CmdId → World → Prop where
  | refused {w' : World} (h : Modifies ∅ w w') : AddRun sys cstr w none w'
  | cltFailed {w₁ w₂ w' : World} (id : CmdId) (hinit : addInit sys cstr w = .ok (some id) w₁)
      (hclt : ttyCreate sys (.clt id) w₁ = .ok false w₂)
      (hclear : clearCmd sys id w₂ = .ok () w') : AddRun sys cstr w none w'
  | cmdFailed {w₁ w₂ w₃ w' : World} (id : CmdId) (hinit : addInit sys cstr w = .ok (some id) w₁)
      (hclt : ttyCreate sys (.clt id) w₁ = .ok true w₂)
      (hcmd : ttyCreate sys (.cmd id) w₂ = .ok false w₃)
      (hclear : clearCmd sys id w₃ = .ok () w') : AddRun sys cstr w none w'
  | added {w₁ w₂ w₃ w' : World} (id : CmdId) (hinit : addInit sys cstr w = .ok (some id) w₁)
      (hclt : ttyCreate sys (.clt id) w₁ = .ok true w₂)
      (hcmd : ttyCreate sys (.cmd id) w₂ = .ok true w₃)
      (hm : Modifies {.table, .slowest, .oAdded} w₃ w') : AddRun sys cstr w (some id) w'

lemma GBLSAddCmd_run {r : Option CmdId} (h : GBLSAddCmd sys cstr w = .ok r w') :
    AddRun sys cstr w r w' := by
  obtain ⟨spec, w₀, hparse, h⟩ := bind_eq_ok.mp h
  have hm : Modifies ∅ w w₀ := cmdspecParse_modifies sys cstr hparse
  cases spec with
  | none =>
    obtain ⟨rfl, rfl⟩ := pure_eq_ok.mp h
    exact .refused hm
  | some spec =>
    replace h := get_bind_eq_ok.mp h
    by_cases hn : (w₀.hashFind spec.name).isSome
    · rw [if_pos hn] at h
      obtain ⟨rfl, rfl⟩ := pure_eq_ok.mp h
      exact .refused hm
    · rw [if_neg hn] at h
      obtain ⟨id, w₁, hmalloc, h⟩ := bind_eq_ok.mp h
      obtain ⟨_, w₂, hinit, h⟩ := bind_eq_ok.mp h
      obtain ⟨b, w₃, hcreate, h⟩ := bind_eq_ok.mp h
      have hadd : addInit sys cstr w = .ok (some id) w₂ := by
        unfold addInit
        rw [bind_of_ok hparse]
        refine get_bind_eq_ok.mpr ?_
        rw [if_neg hn]
        exact (bind_of_ok hmalloc).trans (bind_of_ok hinit)
      have hprep := addInit_prepared hadd
      have hstopped {w₃ : World} (hm : Modifies (ttyParts (.cmd id) ∪ ttyParts (.clt id)) w₂ w₃)
          {u : Unit} (hclean : cmdCleanup sys id w₃ = .ok u w') : clearCmd sys id w₃ = .ok u w' :=
        cmdCleanup_stopped sys ((hm.pid_eq (by simp [ttyParts])).trans hprep.pid) hclean
      have hm₃ : Modifies (ttyParts (.cmd id) ∪ ttyParts (.clt id)) w₂ w₃ :=
        cmdCreate_modifies sys subset_rfl hcreate
      obtain ⟨c, w₄, hclt, hcmd⟩ := bind_eq_ok.mp hcreate
      cases b with
      | false =>
        obtain ⟨_, w₅, hclean, h⟩ := bind_eq_ok.mp h
        obtain ⟨rfl, rfl⟩ := pure_eq_ok.mp h
        cases c with
        | false =>
          obtain ⟨-, rfl⟩ := pure_eq_ok.mp hcmd
          exact .cltFailed id hadd hclt (hstopped hm₃ hclean)
        | true => exact .cmdFailed id hadd hclt hcmd (hstopped hm₃ hclean)
      | true =>
        cases c with
        | false => cases (pure_eq_ok.mp hcmd).1
        | true =>
          obtain ⟨_, w₅, hslow, h⟩ := bind_eq_ok.mp h
          have hm₅ : Modifies {.table, .slowest, .oAdded} w₃ w₅ :=
            updSlowest_modifies id spec.delay (by simp) hslow
          have hrest : Keeps (Modifies {.table, .slowest, .oAdded}) (do
              updGbls fun g => { g with cmds := g.cmds ++ [id] }
              note (.added id)
              return some id : Act (Option CmdId)) :=
            Keeps.bind (updGbls_modifies (.inl (by simp)) (.inr fun _ => rfl) (.inr fun _ => rfl)
              (.inr fun _ => rfl) (.inr fun _ => rfl) (.inr fun _ => rfl)) fun _ =>
              Keeps.bind (note_modifies (by simp [obsPart])) fun _ => Keeps.pure _
          have hm' := hrest h
          replace h := modify_bind_eq_ok.mp h
          replace h := modify_bind_eq_ok.mp h
          obtain ⟨rfl, -⟩ := pure_eq_ok.mp h
          exact .added id hadd hclt hcmd (trans_of _ hm₅ hm')

end Yar.Proofs
