import Yar.Proofs.Fds
import Yar.Proofs.Handlers

/-!
# The command table

What an addition and a removal leave behind, and the table invariant: addresses in the table
are distinct and have been handed out.
-/

namespace Yar.Proofs

open Program

variable {sys : Sys} {w w' : World} {id : CmdId} {S : Set Part}

/-! ## What an unchanged part says about a field -/

lemma Modifies.cmds_eq (h : Modifies S w w') (hS : .table ∉ S) : w'.gbls.cmds = w.gbls.cmds :=
  h.same _ hS

lemma Modifies.slowest_eq (h : Modifies S w w') (hS : .slowest ∉ S) :
    w'.gbls.slowestcmd = w.gbls.slowestcmd :=
  h.same _ hS

lemma Modifies.count_eq (h : Modifies S w w') (hS : .readycount ∉ S) :
    w'.gbls.cmdsreadycnt = w.gbls.cmdsreadycnt :=
  h.same _ hS

lemma Modifies.flags_eq (h : Modifies S w w') (hS : .flags ∉ S) :
    globalsFlags w'.gbls = globalsFlags w.gbls :=
  h.same _ hS

lemma Modifies.readystr_eq (h : Modifies S w w') (hS : .options ∉ S) :
    w'.gbls.readystr = w.gbls.readystr :=
  (congrArg Prod.fst (h.same .options hS) :)

lemma Modifies.brk_eq (h : Modifies S w w') (hS : .brk ∉ S) : w'.brk = w.brk :=
  h.same _ hS

lemma Modifies.spec_eq (id : CmdId) (h : Modifies S w w') (hS : .spec id ∉ S) :
    cmdSpecOf (w'.heap id) = cmdSpecOf (w.heap id) :=
  h.same _ hS

lemma Modifies.delay_eq (h : Modifies S w w') (hS : .spec id ∉ S) :
    (w'.heap id).delay = (w.heap id).delay :=
  congrArg (·.2.2.2.2.1) (h.spec_eq _ hS)

lemma Modifies.name_eq (h : Modifies S w w') (hS : .spec id ∉ S) :
    (w'.heap id).name = (w.heap id).name :=
  congrArg (·.1) (h.spec_eq _ hS)

lemma Modifies.readycnt_eq (h : Modifies S w w') (hS : .ready id ∉ S) :
    (w'.heap id).readycnt = (w.heap id).readycnt :=
  h.same _ hS

lemma Modifies.pid_eq (h : Modifies S w w') (hS : .proc id ∉ S) :
    (w'.heap id).pid = (w.heap id).pid :=
  congrArg (·.1) (h.same _ hS)

lemma Modifies.pidfd_eq (h : Modifies S w w') (hS : .proc id ∉ S) :
    (w'.heap id).pidfd = (w.heap id).pidfd :=
  congrArg (·.2) (h.same _ hS)

lemma Modifies.opens_eq {r : TtyRef} (h : Modifies S w w') (hS : .opens r ∉ S) :
    (w'.ttys r).opens = (w.ttys r).opens :=
  h.same _ hS

lemma Modifies.bcstflg_eq (hm : Modifies S w w') (hf : .flags ∉ S) :
    w'.gbls.bcstflg = w.gbls.bcstflg :=
  (congrArg Globals.bcstflg (hm.flags_eq hf) :)

/-! ## Additions -/

/-- The record of a new command, once `cmdInit` has filled it in. -/
structure Initialized (w : World) (id : CmdId) (spec : CmdSpec) (del : Bool) : Prop where
  name : (w.heap id).name = spec.name
  bcstprefix : Cmd.bcstprefix (w.heap id) = spec.name ++ bytes ": "
  delay : (w.heap id).delay = spec.delay
  restart : (w.heap id).restart = true
  pid : (w.heap id).pid = none
  pidfd : (w.heap id).pidfd = none
  readycnt : (w.heap id).readycnt = 0
  ring : (w.heap id).bufn = 0 ∧ (w.heap id).bufstart = 0 ∧ (w.heap id).bufof = 0
  deleteonexit : (w.heap id).deleteonexit = del

lemma Initialized.mono {spec : CmdSpec} {del : Bool} (hi : Initialized w id spec del)
    (hm : Modifies S w w') (hspec : .spec id ∉ S) (hproc : .proc id ∉ S) (hready : .ready id ∉ S)
    (hring : .ring id ∉ S) (hpolicy : .policy id ∉ S) : Initialized w' id spec del := by
  have hs := hm.spec_eq _ hspec
  have hr := hm.same (.ring id) hring
  have hp := hm.same (.policy id) hpolicy
  simp only [SameOn, cmdSpecOf, Prod.mk.injEq] at hs hr hp
  obtain ⟨hname, hprefix, -, -, hdelay, hrestart⟩ := hs
  obtain ⟨-, hn, hstart, hof⟩ := hr
  refine ⟨hname.trans hi.name, hprefix.trans hi.bcstprefix, hdelay.trans hi.delay, hrestart.trans hi.restart,
    (hm.pid_eq hproc).trans hi.pid, (hm.pidfd_eq hproc).trans hi.pidfd,
    (hm.readycnt_eq hready).trans hi.readycnt, ?_,
    hp.trans hi.deleteonexit⟩
  rw [hn, hstart, hof]
  exact hi.ring

/-- The parts the addition of `id` works on. -/
def addParts (id : CmdId) : Set Part := cmdParts id ∪ {.brk, .slowest, .table, .oAdded}

/-- A tty that has just been created has no client and nothing on its way. -/
structure Created (w : World) (r : TtyRef) : Prop where
  opens : (w.ttys r).opens = 0
  port : w.kern.ports r = {}

/-- What `GBLSAddCmd` has done when it returns the command at `id`. -/
structure Added (w w' : World) (id : CmdId) (spec : CmdSpec) : Prop where
  id_eq : id = w.brk
  brk : w'.brk = w.brk + 1
  table : w'.gbls.cmds = w.gbls.cmds ++ [id]
  slowest : (w.gbls.slowestcmd = none ∧ w'.gbls.slowestcmd = some id) ∨
    ∃ s ∈ w.gbls.cmds, w.gbls.slowestcmd = some s ∧ w'.gbls.slowestcmd =
      if Double.lt (w'.heap s).delay (w'.heap id).delay = true then some id else some s
  init : Initialized w' id spec w.gbls.cmddelonexit
  created : Created w' (.clt id) ∧ Created w' (.cmd id)
  fds : FdStep w w'
  modifies : Modifies (addParts id) w w'
  trace : ∃ l, w'.trace = .added id :: (l ++ w.trace) ∧ ∀ o ∈ l, obsPart o = .oLink

/-- What an addition leaves behind that returned none. -/
structure NotAdded (w w' : World) : Prop where
  brk : w.brk ≤ w'.brk
  fds : FdStep w w'
  modifies : Modifies (cmdParts w.brk ∪ {.brk}) w w'

lemma cmdInit_initialized {spec : CmdSpec} {u : Unit}
    (h : cmdInit id spec.name spec.cmdline spec.delay spec.ttylink spec.log w = .ok u w') :
    Initialized w' id spec w.gbls.cmddelonexit := by
  obtain ⟨-, h⟩ := require_bind_eq_ok.mp h
  replace h := modify_bind_eq_ok.mp (get_bind_eq_ok.mp h)
  refine Initialized.mono (S := {.tty (.cmd id), .tty (.clt id)}) ?_
    ((Keeps.bind (ttyInit_modifies _ _ _ _ _ (by simp)) fun _ =>
      ttyInitLinked_modifies _ (by simp) : Keeps (Modifies _) _) h)
    (by simp) (by simp) (by simp) (by simp) (by simp)
  constructor <;> simp [World.updCmd]

/-- Of a jump to the `cleanup` label and the code after it, the code after it ran. -/
lemma not_jumped {b : Bool} {m : Act Bool}
    (h : (if b = true then pure false else m) w = .ok true w') : b = false ∧ m w = .ok true w' := by
  cases b with
  | false => exact ⟨rfl, h⟩
  | true => cases (pure_eq_ok.mp h).1

lemma Modifies.port_eq {r : TtyRef} (h : Modifies S w w') (hn : .nread r ∉ S) (hh : .hist r ∉ S)
    (hq : .notify r ∉ S) : w'.kern.ports r = w.kern.ports r := by
  have hnread := h.same _ hn
  have hhist := h.same _ hh
  have hnotify := h.same _ hq
  simp only [SameOn, Prod.mk.injEq] at hnread hhist hnotify
  cases hp' : w'.kern.ports r
  cases hp : w.kern.ports r
  simp_all

lemma Created.mono {r : TtyRef} (h : Created w r) (hm : Modifies S w w') (ho : .opens r ∉ S)
    (hn : .nread r ∉ S) (hh : .hist r ∉ S) (hq : .notify r ∉ S) : Created w' r :=
  ⟨(hm.opens_eq ho).trans h.opens, (hm.port_eq hn hh hq).trans h.port⟩

lemma ttyBuild_created {r : TtyRef} (h : ttyBuild sys r w = .ok true w') : Created w' r := by
  obtain ⟨-, h⟩ := require_bind_eq_ok.mp (get_bind_eq_ok.mp h)
  obtain ⟨taken, w₁, -, h⟩ := bind_eq_ok.mp h
  obtain ⟨-, h⟩ := not_jumped h
  obtain ⟨dfd, w₂, -, h⟩ := bind_eq_ok.mp h
  cases dfd with
  | none => cases (pure_eq_ok.mp h).1
  | some dfd =>
    replace h := modify_bind_eq_ok.mp h
    obtain ⟨_, w₃, hport, h⟩ := bind_eq_ok.mp h
    have hw₃ : w₃.kern.ports r = {} := by
      rw [modify_eq_ok.mp hport]
      simp [World.updPort]
    obtain ⟨sfd, w₄, hsfd, h⟩ := bind_eq_ok.mp h
    cases sfd with
    | none => cases (pure_eq_ok.mp h).1
    | some sfd =>
      obtain ⟨linked, w₅, hlinks, h⟩ := bind_eq_ok.mp h
      obtain ⟨-, h⟩ := not_jumped h
      obtain ⟨watched, w₆, hwatch, h⟩ := bind_eq_ok.mp h
      obtain ⟨-, h⟩ := not_jumped h
      replace h := modify_bind_eq_ok.mp h
      have hm : Modifies {.kproc, .names, .oLink, .tty r} w₃ w₆ :=
        trans_of _ (acquire_modifies sys (by simp) hsfd)
          (trans_of _ (ttyLinks_modifies sys r _ (by simp) (by simp) hlinks)
            (ttyWatch_modifies sys (by simp) (by simp) hwatch))
      rw [(pure_eq_ok.mp h).2]
      refine ⟨by simp [World.updTty], ?_⟩
      rw [← hw₃, ← hm.port_eq (by simp) (by simp) (by simp)]
      rfl

lemma ttyCreate_created {r : TtyRef} (h : ttyCreate sys r w = .ok true w') : Created w' r := by
  obtain ⟨b, w₁, hbuild, h⟩ := bind_eq_ok.mp h
  cases b with
  | false =>
    obtain ⟨_, w₂, -, h⟩ := bind_eq_ok.mp h
    cases (pure_eq_ok.mp h).1
  | true =>
    obtain ⟨-, rfl⟩ := pure_eq_ok.mp h
    exact ttyBuild_created hbuild

lemma cmdCreate_created (h : cmdCreate sys id w = .ok true w') :
    Created w' (.clt id) ∧ Created w' (.cmd id) := by
  obtain ⟨b, w₁, hclt, h⟩ := bind_eq_ok.mp h
  cases b with
  | false => cases (pure_eq_ok.mp h).1
  | true =>
    have hm : Modifies (ttyParts (.cmd id)) w₁ w' := ttyCreate_modifies sys subset_rfl h
    exact ⟨(ttyCreate_created hclt).mono hm (by simp [ttyParts]) (by simp [ttyParts])
      (by simp [ttyParts]) (by simp [ttyParts]), ttyCreate_created h⟩

lemma updSlowest_ok {delay : Double} {u : Unit} (h : updSlowest id delay w = .ok u w') :
    ∃ s, w' = { w with gbls.slowestcmd := s } ∧
      ((w.gbls.slowestcmd = none ∧ s = some id) ∨ ∃ j ∈ w.gbls.cmds, w.gbls.slowestcmd = some j ∧
        s = if Double.lt (w.heap j).delay delay = true then some id else some j) := by
  unfold updSlowest at h
  replace h := get_bind_eq_ok.mp h
  cases hs : w.gbls.slowestcmd with
  | none =>
    rw [hs] at h
    exact ⟨some id, modify_eq_ok.mp h, .inl ⟨rfl, rfl⟩⟩
  | some j =>
    rw [hs] at h
    obtain ⟨hj, h⟩ := live_ok h
    rcases when_eq_ok.mp h with ⟨hlt, h⟩ | ⟨hlt, h⟩
    · exact ⟨some id, modify_eq_ok.mp h, .inr ⟨j, hj, rfl, (if_pos hlt).symm⟩⟩
    · refine ⟨some j, ?_, .inr ⟨j, hj, rfl, (if_neg hlt).symm⟩⟩
      rw [h, ← hs]

/-- The only observations of a creation or cleanup of ttys. -/
lemma obsPart_eq_oLink {o : Obs} (h : obsPart o ∈ cmdParts id ∪ {.brk}) : obsPart o = .oLink := by
  cases o <;> simp_all [obsPart, cmdParts, ttyParts]

lemma GBLSAddNew_cases {spec : CmdSpec} {r : Option CmdId}
    (h : GBLSAddNew sys spec w = .ok r w') :
    (r = none ∧ NotAdded w w') ∨ ∃ id, r = some id ∧ Added w w' id spec := by
  obtain ⟨id, w₁, hmalloc, h⟩ := bind_eq_ok.mp h
  obtain ⟨rfl, rfl⟩ := mallocCmd_ok hmalloc
  obtain ⟨_, w₂, hinit, h⟩ := bind_eq_ok.mp h
  obtain ⟨b, w₃, hcreate, h⟩ := bind_eq_ok.mp h
  have hm₁ : Modifies {.brk} w { w with brk := w.brk + 1 } := by
    refine Modifies.of_same rfl rfl fun p hp => ?_
    cases p with
    | brk => exact (hp rfl).elim
    | _ => first | rfl | trivial
  have hm₂ : Modifies (cmdParts w.brk) _ w₂ := cmdInit_modifies _ _ _ _ _ (initParts_subset _) hinit
  have hm₃ : Modifies (ttyParts (.cmd w.brk) ∪ ttyParts (.clt w.brk)) w₂ w₃ :=
    cmdCreate_modifies sys subset_rfl hcreate
  have hinit₃ := (cmdInit_initialized hinit).mono hm₃ (by simp [ttyParts]) (by simp [ttyParts])
    (by simp [ttyParts]) (by simp [ttyParts]) (by simp [ttyParts])
  have hm : Modifies (cmdParts w.brk ∪ {.brk}) w w₃ :=
    trans_of _ (hm₁.mono fun _ hp => .inr hp) (trans_of _ (hm₂.mono fun _ hp => .inl hp)
      (hm₃.mono fun _ hp => .inl (.inl hp)))
  have hfds₁ : FdStep w { w with brk := w.brk + 1 } := .of_kernProc rfl
  have hfds : FdStep w w₃ := trans_of _ hfds₁
    (trans_of _ (cmdInit_fdStep _ _ _ _ _ _ hinit) (cmdCreate_fdStep sys _ hcreate))
  have hbrk : w₃.brk = w.brk + 1 := by
    rw [hm₃.brk_eq (by simp [ttyParts]), hm₂.brk_eq (by simp [cmdParts, ttyParts])]
  cases b with
  | false =>
    obtain ⟨_, w₄, hclean, h⟩ := bind_eq_ok.mp h
    obtain ⟨rfl, rfl⟩ := pure_eq_ok.mp h
    have hclear := cmdCleanup_stopped sys hinit₃.pid hclean
    have hm₄ : Modifies (cmdParts w.brk) w₃ w' :=
      cmdClear_modifies sys (clearParts_subset w.brk) hclear
    refine .inl ⟨rfl, ?_, trans_of _ hfds (cmdClear_fdStep sys _ hclear),
      trans_of _ hm (hm₄.mono fun _ hp => .inl hp)⟩
    rw [hm₄.brk_eq (by simp [cmdParts, ttyParts]), hbrk]
    exact Nat.le_succ _
  | true =>
    have hcreated := cmdCreate_created hcreate
    obtain ⟨_, w₄, hslow, h⟩ := bind_eq_ok.mp h
    obtain ⟨s, rfl, hs⟩ := updSlowest_ok hslow
    replace h := modify_bind_eq_ok.mp h
    replace h := modify_bind_eq_ok.mp h
    obtain ⟨rfl, rfl⟩ := pure_eq_ok.mp h
    have hcmds : w₃.gbls.cmds = w.gbls.cmds := hm.cmds_eq (by simp [cmdParts, ttyParts])
    have hslowest : w₃.gbls.slowestcmd = w.gbls.slowestcmd :=
      hm.slowest_eq (by simp [cmdParts, ttyParts])
    obtain ⟨l, hl, hlink⟩ := hm.trace
    refine .inr ⟨w.brk, rfl, rfl, hbrk, ?_, ?_, ⟨hinit₃.name, hinit₃.bcstprefix, hinit₃.delay, hinit₃.restart,
      hinit₃.pid, hinit₃.pidfd, hinit₃.readycnt, hinit₃.ring, hinit₃.deleteonexit⟩,
      ⟨⟨hcreated.1.opens, hcreated.1.port⟩, hcreated.2.opens, hcreated.2.port⟩,
      ⟨hfds.procs, hfds.nextFd, hfds.nextPid, hfds.interest, hfds.fds⟩, ?_,
      l, ?_, fun o ho => obsPart_eq_oLink (hlink o ho)⟩
    · simp only [hcmds]
    · rw [hslowest, hcmds] at hs
      rcases hs with hs | ⟨j, hj, hs, rfl⟩
      · exact .inl hs
      · exact .inr ⟨j, hj, hs, by rw [← hinit₃.delay]⟩
    · refine ⟨hm.calls, ⟨.added w.brk :: l, ?_, ?_⟩, fun p hp => ?_⟩
      · simp [hl]
      · intro o ho
        rcases List.mem_cons.mp ho with rfl | ho
        · simp [obsPart, addParts]
        · rw [obsPart_eq_oLink (hlink o ho)]
          simp [addParts, cmdParts, ttyParts]
      · have hp' : p ∉ cmdParts w.brk ∪ {.brk} := by
          rintro (hp' | hp')
          · exact hp (.inl hp')
          · exact hp (.inr (.inl hp'))
        have hsame := hm.same p hp'
        cases p with
        | slowest => exact (hp (by simp [addParts])).elim
        | table => exact (hp (by simp [addParts])).elim
        | _ => exact hsame
    · simp [hl]

lemma Added.of_modifies {w₁ : World} {spec : CmdSpec} (hm : Modifies ∅ w w₁)
    (h : Added w₁ w' id spec) : Added w w' id spec := by
  have hcmds : w₁.gbls.cmds = w.gbls.cmds := hm.cmds_eq (by simp)
  have hflags : w₁.gbls.cmddelonexit = w.gbls.cmddelonexit :=
    hm.same .delonexit (by simp)
  have htrace : w₁.trace = w.trace := by
    obtain ⟨l, hl, hl₀⟩ := hm.trace
    cases l with
    | nil => exact hl
    | cons o l => exact (hl₀ o List.mem_cons_self).elim
  have hfds : FdStep w w₁ := .of_kernProc (hm.kernProc_eq (by simp))
  refine ⟨?_, ?_, ?_, ?_, ?_, h.created, trans_of _ hfds h.fds,
    trans_of _ (hm.mono (Set.empty_subset _)) h.modifies, ?_⟩
  · rw [h.id_eq, hm.brk_eq (by simp)]
  · rw [h.brk, hm.brk_eq (by simp)]
  · rw [h.table, hcmds]
  · simpa only [hm.slowest_eq (Set.notMem_empty _), hcmds] using h.slowest
  · simpa only [hflags] using h.init
  · simpa only [htrace] using h.trace

theorem GBLSAddCmd_cases {cstr : CStr} {r : Option CmdId} (h : GBLSAddCmd sys cstr w = .ok r w') :
    (r = none ∧ NotAdded w w') ∨ ∃ id spec, r = some id ∧ Added w w' id spec := by
  obtain ⟨spec, w₁, hparse, h⟩ := bind_eq_ok.mp h
  have hm : Modifies ∅ w w₁ := cmdspecParse_modifies sys cstr hparse
  have hfds : FdStep w w₁ := .of_kernProc (hm.kernProc_eq (by simp))
  have hfail (hw : w' = w₁) : NotAdded w w' := by
    subst hw
    exact ⟨(hm.brk_eq (by simp)).ge, hfds, hm.mono (Set.empty_subset _)⟩
  cases spec with
  | none =>
    obtain ⟨rfl, hw⟩ := pure_eq_ok.mp h
    exact .inl ⟨rfl, hfail hw⟩
  | some spec =>
    replace h := get_bind_eq_ok.mp h
    by_cases hn : (w₁.hashFind spec.name).isSome
    · rw [if_pos hn] at h
      obtain ⟨rfl, hw⟩ := pure_eq_ok.mp h
      exact .inl ⟨rfl, hfail hw⟩
    · rw [if_neg hn] at h
      rcases GBLSAddNew_cases h with ⟨rfl, hnew⟩ | ⟨id, rfl, hnew⟩
      · have hbrk : w₁.brk = w.brk := hm.brk_eq (by simp)
        refine .inl ⟨rfl, hbrk ▸ hnew.brk, trans_of _ hfds hnew.fds, ?_⟩
        exact trans_of _ (hm.mono (Set.empty_subset _)) (hbrk ▸ hnew.modifies)
      · exact .inr ⟨id, spec, rfl, hnew.of_modifies hm⟩

/-- What `monAdd` comes down to. -/
theorem monAdd_cases {cstr : CStr} {u : Unit} (h : monAdd sys (some cstr) w = .ok u w') :
    NotAdded w w' ∨ ∃ id spec w₁, Added w w₁ id spec ∧ monAddRegister sys id w₁ = .ok u w' := by
  rw [monAdd_some] at h
  obtain ⟨r, w₁, hadd, h⟩ := bind_eq_ok.mp h
  rcases GBLSAddCmd_cases hadd with ⟨rfl, hn⟩ | ⟨id, spec, rfl, ha⟩
  · rw [(pure_eq_ok.mp h).2]
    exact .inl hn
  · exact .inr ⟨id, spec, w₁, ha, h⟩

/-! ## Removals -/

/-- What a removal of the command at `id` has done when yar goes on after it. -/
structure Removed (w w' : World) (id : CmdId) : Prop where
  table : w'.gbls.cmds = w.gbls.cmds.filter (· ≠ id)
  modifies : Modifies (removeParts id) w w'
  trace : ∃ l, w'.trace = .removed id :: (l ++ w.trace) ∧ ∀ o ∈ l, obsPart o ∈ cleanupParts id
  stays : w'.gbls.cmds = [] → w'.gbls.exitonidle = false

/-- The end of both removals. -/
lemma Removed.of_cleanup {w₁ : World} {u : Unit} (hm : Modifies (cleanupParts id) w w₁)
    (h : (do hashDel id; exitIfIdle sys) w₁ = .ok u w') : Removed w w' id := by
  obtain ⟨_, w₂, hdel, hidle⟩ := bind_eq_ok.mp h
  obtain ⟨rfl, hstays⟩ := exitIfIdle_ok sys hidle
  have hm' : Modifies (removeParts id) w₁ w' :=
    hashDel_modifies (by simp [removeParts]) (by simp [removeParts]) hdel
  replace hdel := modify_bind_eq_ok.mp hdel
  replace hdel := modify_eq_ok.mp hdel
  obtain ⟨l, hl, hS⟩ := hm.trace
  refine ⟨?_, trans_of _ (hm.mono fun _ hp => .inl hp) hm', ⟨l, ?_, hS⟩, hstays⟩
  · rw [← hm.cmds_eq (by simp [cleanupParts, procParts, startParts, cmdParts, ttyParts]), hdel]
  · rw [← hl, hdel]

lemma monDelFound_removed {u : Unit} (h : monDelFound sys id w = .ok u w') : Removed w w' id := by
  obtain ⟨_, w₁, hclean, h⟩ := bind_eq_ok.mp h
  exact Removed.of_cleanup (cmdCleanup_modifies sys subset_rfl hclean) h

/-- What the exit handler does for a command of the table: it reaps, and then removes the command
as the monitor would, or restarts it. -/
lemma cmdPidEvent_cases {u : Unit} (hid : id ∈ w.gbls.cmds) (h : cmdPidEvent sys id w = .ok u w') :
    ∃ w₁, cmdPidReap id w = .ok () w₁ ∧
      (((w.heap id).deleteonexit = true ∧ monDelFound sys id w₁ = .ok u w') ∨
        ((w.heap id).deleteonexit = false ∧ cmdPidRestart sys id w₁ = .ok u w')) := by
  obtain ⟨_, w₁, hreap, h⟩ := bind_eq_ok.mp h
  replace h := get_bind_eq_ok.mp h
  have hm : Modifies (startParts id) w w₁ := cmdPidReap_modifies subset_rfl hreap
  have hpolicy : (w₁.heap id).deleteonexit = (w.heap id).deleteonexit :=
    hm.same (.policy id) (by simp [startParts])
  refine ⟨w₁, hreap, ?_⟩
  rw [hpolicy] at h
  by_cases hd : (w.heap id).deleteonexit = true
  · rw [if_pos hd] at h
    refine .inl ⟨hd, ?_⟩
    replace h := get_bind_eq_ok.mp h
    replace h := get_bind_eq_ok.mp h
    obtain ⟨_, w₂, hclean, h⟩ := bind_eq_ok.mp h
    refine bind_eq_ok.mpr ⟨_, w₂, hclean, ?_⟩
    cases hf : w₁.hashFind (w₁.heap id).name with
    | none =>
      have hnone := List.find?_eq_none.mp hf id
      rw [hm.cmds_eq (by simp [startParts])] at hnone
      simp [hid] at hnone
    | some cmd =>
      rw [hf] at h
      obtain ⟨rfl, h⟩ := require_bind_eq_ok.mp h
      exact h
  · rw [if_neg hd] at h
    exact .inr ⟨by simpa using hd, h⟩

lemma Removed.of_reaped {w₁ : World} (hreap : cmdPidReap id w = .ok () w₁)
    (hr : Removed w₁ w' id) : Removed w w' id := by
  have hm : Modifies (startParts id) w w₁ := cmdPidReap_modifies subset_rfl hreap
  have hsub : startParts id ⊆ cleanupParts id := fun _ hp => .inl (.inl hp)
  obtain ⟨l, hl, hlS⟩ := hm.trace
  obtain ⟨l', hl', hlS'⟩ := hr.trace
  refine ⟨?_, trans_of _ (hm.mono fun _ hp => .inl (hsub hp)) hr.modifies, ⟨l' ++ l, ?_, ?_⟩,
    hr.stays⟩
  · rw [hr.table, hm.cmds_eq (by simp [startParts])]
  · rw [hl', hl, List.append_assoc]
  · intro o ho
    rcases List.mem_append.mp ho with ho | ho
    · exact hlS' o ho
    · exact hsub (hlS o ho)

/-- The command whose removal the handling of an event comes down to. -/
def deletes (w : World) (e : Event) : Option CmdId :=
  match e with
  | .hdlr (.dom .mon) x =>
    match x.line.bind monLookup with
    | some (.monDel, some name) => w.hashFind name
    | _ => none
  | .hdlr (.pidfd id _) _ => if (w.heap id).deleteonexit then some id else none
  | _ => none

/-! ## What a step does to the table -/

/-- The parts a step leaves alone that neither adds nor removes a command. -/
def Part.ofTable : Part → Bool
  | .table | .slowest | .brk | .oAdded | .oRemoved | .spec _ => true
  | _ => false

/-- Nothing has been added or removed. -/
structure TableKept (w w' : World) : Prop where
  cmds : w'.gbls.cmds = w.gbls.cmds
  slowest : w'.gbls.slowestcmd = w.gbls.slowestcmd
  brk : w.brk ≤ w'.brk
  spec : ∀ id < w.brk, cmdSpecOf (w'.heap id) = cmdSpecOf (w.heap id)
  trace : ∃ l, w'.trace = l ++ w.trace ∧ ∀ o ∈ l, obsPart o ≠ .oAdded ∧ obsPart o ≠ .oRemoved

lemma Modifies.tableKept (h : Modifies S w w') (hS : ∀ p ∈ S, p.ofTable = false) :
    TableKept w w' := by
  have hnot {p : Part} (hp : p.ofTable = true) : p ∉ S := fun hpS => by simp [hS p hpS] at hp
  obtain ⟨l, hl, hlS⟩ := h.trace
  refine ⟨h.cmds_eq (hnot rfl), h.slowest_eq (hnot rfl), (h.brk_eq (hnot rfl)).ge,
    fun id _ => h.spec_eq _ (hnot rfl), l, hl, fun o ho => ⟨?_, ?_⟩⟩
  · intro heq
    exact hnot rfl (heq ▸ hlS o ho)
  · intro heq
    exact hnot rfl (heq ▸ hlS o ho)

lemma ttyParts_ofTable {r : TtyRef} {p : Part} (hp : p ∈ ttyParts r) : p.ofTable = false := by
  rcases hp with rfl | rfl | rfl | rfl | rfl | rfl | rfl | rfl <;> rfl

lemma NotAdded.tableKept (h : NotAdded w w') : TableKept w w' := by
  obtain ⟨l, hl, hlS⟩ := h.modifies.trace
  refine ⟨h.modifies.cmds_eq (by simp [cmdParts, ttyParts]),
    h.modifies.slowest_eq (by simp [cmdParts, ttyParts]), h.brk, fun id hid => ?_, l, hl,
    fun o ho => ?_⟩
  · have hne : id ≠ w.brk := hid.ne
    exact h.modifies.spec_eq _ (by simp [cmdParts, ttyParts, hne])
  · rw [obsPart_eq_oLink (hlS o ho)]
    simp

/-- Addresses in the table are distinct and have been handed out. -/
structure TableInv (w : World) : Prop where
  nodup : w.gbls.cmds.Nodup
  lt_brk : ∀ id ∈ w.gbls.cmds, id < w.brk

lemma TableInv.kept (h : TableInv w) (hk : TableKept w w') : TableInv w' := by
  refine ⟨hk.cmds ▸ h.nodup, fun id hid => ?_⟩
  rw [hk.cmds] at hid
  exact (h.lt_brk id hid).trans_le hk.brk

lemma TableInv.added {spec : CmdSpec} (h : TableInv w) (ha : Added w w' id spec) : TableInv w' := by
  refine ⟨?_, fun j hj => ?_⟩
  · rw [ha.table, List.nodup_append]
    refine ⟨h.nodup, by simp, ?_⟩
    rintro j hj _ hid rfl
    rw [List.mem_singleton.mp hid, ha.id_eq] at hj
    exact (h.lt_brk _ hj).false
  · rw [ha.table, List.mem_append, List.mem_singleton] at hj
    rw [ha.brk]
    rcases hj with hj | rfl
    · exact (h.lt_brk j hj).trans (Nat.lt_succ_self _)
    · rw [ha.id_eq]
      exact Nat.lt_succ_self _

lemma TableInv.removed (h : TableInv w) (hr : Removed w w' id) : TableInv w' := by
  refine ⟨hr.table ▸ h.nodup.filter _, fun j hj => ?_⟩
  rw [hr.table] at hj
  rw [hr.modifies.brk_eq (by simp [removeParts, cleanupParts, procParts, startParts, cmdParts, ttyParts])]
  exact h.lt_brk j (List.mem_of_mem_filter hj)

/-- The three things a handler can do to the table. -/
inductive TableStep (w : World) (e : Event) (w' : World) : Prop where
  | kept (h : TableKept w w')
  | added (id : CmdId) (spec : CmdSpec) (w₁ : World) (h : Added w w₁ id spec)
      (hk : TableKept w₁ w')
  | removed (id : CmdId) (hd : deletes w e = some id) (hid : id ∈ w.gbls.cmds)
      (h : Removed w w' id)

lemma startParts_ofTable {p : Part} (hp : p ∈ startParts id) : p.ofTable = false := by
  rcases hp with rfl | rfl | rfl | rfl | rfl <;> rfl

lemma procParts_ofTable {p : Part} (hp : p ∈ procParts id) : p.ofTable = false := by
  rcases hp with hp | rfl | rfl
  · exact startParts_ofTable hp
  all_goals rfl

lemma outputParts_ofTable {p : Part} (hp : p ∈ outputParts id) : p.ofTable = false := by
  rcases hp with rfl | rfl | rfl | rfl | rfl | rfl | rfl | rfl <;> rfl

lemma inputParts_ofTable {p : Part} (hp : p ∈ inputParts id) : p.ofTable = false := by
  rcases hp with hp | rfl | rfl | rfl
  · exact procParts_ofTable hp
  all_goals rfl

lemma bcstInputParts_ofTable {p : Part} (hp : p ∈ bcstInputParts) : p.ofTable = false := by
  rcases hp with (rfl | rfl | rfl) | ⟨id, rfl | rfl⟩ <;> rfl

lemma nedParts_ofTable {r : TtyRef} {p : Part} (hp : p ∈ nedParts r) : p.ofTable = false := by
  cases r with
  | bcst =>
    obtain ⟨id, hp⟩ := hp
    exact procParts_ofTable hp
  | clt id => exact procParts_ofTable hp
  | mon => exact hp.elim
  | cmd id => exact hp.elim

lemma monAddRegister_kept {u : Unit} (h : monAddRegister sys id w = .ok u w') : TableKept w w' := by
  have hm : Modifies (startParts id ∪ bcstParts) w w' :=
    monAddRegister_modifies sys id Set.subset_union_left Set.subset_union_right h
  refine hm.tableKept ?_
  rintro p (hp | hp | rfl)
  · exact startParts_ofTable hp
  · exact ttyParts_ofTable hp
  · rfl

/-- With the flags of the globals, the table is what it was. -/
lemma TableKept.of_globals {g : Globals} (hcmds : g.cmds = w.gbls.cmds)
    (hslow : g.slowestcmd = w.gbls.slowestcmd) : TableKept w { w with gbls := g } :=
  ⟨hcmds, hslow, le_rfl, fun _ _ => rfl, [], rfl, by simp⟩

/-- A monitor command that toggles works on the options and the flags. -/
lemma toggle_modifies {g : Globals} (hw : w' = { w with gbls := g })
    (hcore : globalsCore g = globalsCore w.gbls) : Modifies {.options, .flags} w w' := by
  rw [hw]
  refine Modifies.of_same rfl rfl fun p hp => ?_
  cases p with
  | options => exact (hp (by simp)).elim
  | flags => exact (hp (by simp)).elim
  | table => exact (congrArg Globals.cmds hcore :)
  | slowest => exact (congrArg Globals.slowestcmd hcore :)
  | readycount => exact (congrArg Globals.cmdsreadycnt hcore :)
  | delonexit => exact (congrArg Globals.cmddelonexit hcore :)
  | _ => first | rfl | trivial

theorem Handled.tableStep {s : Source} {x : Answer} (h : Handled sys s x w w') :
    TableStep w (.hdlr s x) w' := by
  have kept {S : Set Part} (hm : Modifies S w w') (hS : ∀ p ∈ S, p.ofTable = false) :
      TableStep w (.hdlr s x) w' := .kept (hm.tableKept hS)
  cases h with
  | bcst hs h =>
    exact kept (bcstttyEvent_modifies sys _ subset_rfl h) fun _ => bcstInputParts_ofTable
  | clt id hs hid h =>
    exact kept (cmdCltttyEvent_modifies sys _ subset_rfl h) fun _ => inputParts_ofTable
  | cmd id hs hid h =>
    exact kept (Keeps.discard (cmdttyProcessOutput_modifies sys _ subset_rfl) h)
      fun _ => outputParts_ofTable
  | notify r hs hid h =>
    refine kept (ttyNotifyEvent_modifies sys r subset_rfl h) ?_
    rintro p ((rfl | rfl) | hp)
    · rfl
    · rfl
    · exact nedParts_ofTable hp
  | pid id fd hs hid h =>
    obtain ⟨w₁, hreap, ⟨hd, hr⟩ | ⟨hd, hr⟩⟩ := cmdPidEvent_cases hid h
    · exact .removed id (by simp [hs, deletes, hd]) hid (.of_reaped hreap (monDelFound_removed hr))
    · exact kept (trans_of (Modifies (startParts id)) (cmdPidReap_modifies subset_rfl hreap)
        (cmdPidRestart_modifies subset_rfl hr)) fun _ => startParts_ofTable
  | del line name id hs hx hl hf h =>
    refine .removed id ?_ (List.mem_of_find?_eq_some hf) (monDelFound_removed h)
    simp [hs, deletes, hx, hl, hf]
  | add line cmdstr hs hx hl h =>
    rcases monAdd_cases h with hn | ⟨id, spec, w₁, ha, hreg⟩
    · exact .kept hn.tableKept
    · exact .added id spec w₁ ha (monAddRegister_kept hreg)
  | drain line args hs hx hl h =>
    refine kept (monDrain_modifies sys (S := {p | ∃ id, p ∈ outputParts id})
      (fun id p hp => ⟨id, hp⟩) h) ?_
    rintro p ⟨id, hp⟩
    exact outputParts_ofTable hp
  | idleExit line args hs hx hl h =>
    refine kept (monIdleExit_modifies sys (S := idleExitParts) (by simp [idleExitParts])
      (by simp [idleExitParts]) (by simp [idleExitParts]) h) ?_
    rintro p ((rfl | rfl) | ⟨id, rfl⟩) <;> rfl
  | toggle line m args g hs hx hl hw hcore hrestart hlb =>
    refine .kept (hw ▸ TableKept.of_globals ?_ ?_)
    · exact (congrArg Globals.cmds hcore :)
    · exact (congrArg Globals.slowestcmd hcore :)
  | idle hs hw => exact .kept (hw ▸ TableKept.of_globals rfl rfl)

lemma Handled.deletes_mem {s : Source} {x : Answer} (hh : Handled sys s x w w')
    (hd : deletes w (.hdlr s x) = some id) : id ∈ w.gbls.cmds := by
  cases s with
  | dom r =>
    cases r with
    | mon =>
      simp only [deletes] at hd
      split at hd
      · exact List.mem_of_find?_eq_some hd
      · cases hd
    | bcst => cases hd
    | clt j => cases hd
    | cmd j => cases hd
  | pidfd j fd =>
    simp only [deletes] at hd
    split at hd
    · cases hd
      cases hh with
      | pid j fd hs hid h =>
        cases hs
        exact hid
      | idle hs => simp at hs
      | _ => simp_all
    · cases hd
  | ifd r => cases hd
  | sig => cases hd
  | fs => cases hd

lemma envParts_ofTable {e : Env} {p : Part} (hp : p ∈ envParts e) : p.ofTable = false := by
  cases e <;> rw [hp] <;> rfl

lemma setupParts_ofTable {p : Part} (hp : p ∈ setupParts) : p.ofTable = false := by
  rcases hp with (hp | hp) | rfl
  · exact ttyParts_ofTable hp
  · exact ttyParts_ofTable hp
  · rfl

theorem reachable_tableInv {ok : World → Event → Prop} (hw : Reachable sys ok w) : TableInv w := by
  refine reachable_invariant (fun o => ⟨List.nodup_nil, by simp [boot]⟩) ?_ ?_ ?_ ?_ hw
  · exact fun w w' hm h => h.kept (hm.tableKept fun _ => setupParts_ofTable)
  · intro s w r w' hcmd h
    rcases GBLSAddCmd_cases hcmd with ⟨-, hn⟩ | ⟨id, spec, -, ha⟩
    · exact h.kept hn.tableKept
    · exact h.added ha
  · exact fun w e _ h _ => h.kept ((apply_modifies w e).tableKept fun _ => envParts_ofTable)
  · intro w s x w' _ h _ hh
    cases hh.tableStep with
    | kept hk => exact h.kept hk
    | added id spec w₁ ha hk => exact (h.added ha).kept hk
    | removed id _ _ hr => exact h.removed hr

/-- `reachable_invariant` with the table invariant at hand and additions taken apart. -/
theorem reachable_induction {ok : World → Event → Prop} {P : World → Prop}
    (hboot : ∀ o, P (boot o))
    (hsetup : ∀ w w', TableInv w → P w → Modifies setupParts w w' → P w')
    (hnot : ∀ w w', TableInv w → P w → NotAdded w w' → P w')
    (hadded : ∀ w w' id spec, TableInv w → P w → Added w w' id spec → P w')
    (henv : ∀ w e, Reachable sys ok w → P w → ok w (.env e) → P (Env.apply e w))
    (hhdlr : ∀ w s x w', Reachable sys ok w → TableInv w → P w → ok w (.hdlr s x) →
      Handled sys s x w w' → P w')
    (hw : Reachable sys ok w) : P w := by
  suffices h : TableInv w ∧ P w from h.2
  refine reachable_invariant (P := fun w => TableInv w ∧ P w) ?_ ?_ ?_ ?_ ?_ hw
  · exact fun o => ⟨⟨List.nodup_nil, by simp [boot]⟩, hboot o⟩
  · exact fun w w' hm h =>
      ⟨h.1.kept (hm.tableKept fun _ => setupParts_ofTable), hsetup w w' h.1 h.2 hm⟩
  · rintro s w r w' hcmd ⟨ht, h⟩
    rcases GBLSAddCmd_cases hcmd with ⟨-, hn⟩ | ⟨id, spec, -, ha⟩
    · exact ⟨ht.kept hn.tableKept, hnot w w' ht h hn⟩
    · exact ⟨ht.added ha, hadded w w' id spec ht h ha⟩
  · exact fun w e hr h hok =>
      ⟨h.1.kept ((apply_modifies w e).tableKept fun _ => envParts_ofTable), henv w e hr h.2 hok⟩
  · intro w s x w' hr h hok hh
    refine ⟨?_, hhdlr w s x w' hr h.1 h.2 hok hh⟩
    cases hh.tableStep with
    | kept hk => exact h.1.kept hk
    | added id spec w₁ ha hk => exact (h.1.added ha).kept hk
    | removed id _ _ hrem => exact h.1.removed hrem

/-- Invariants of what the table and the observations of additions and removals say. -/
theorem reachable_table {ok : World → Event → Prop} {P : World → Prop} (hboot : ∀ o, P (boot o))
    (hkept : ∀ w w', TableInv w → P w → TableKept w w' → P w')
    (hadd : ∀ w w' id spec, TableInv w → P w → Added w w' id spec → P w')
    (hremove : ∀ w w' e id, TableInv w → P w → ok w e → deletes w e = some id →
      id ∈ w.gbls.cmds → Removed w w' id → P w')
    (hw : Reachable sys ok w) : P w := by
  refine reachable_induction hboot ?_ ?_ hadd ?_ ?_ hw
  · exact fun w w' ht h hm => hkept w w' ht h (hm.tableKept fun _ => setupParts_ofTable)
  · exact fun w w' ht h hn => hkept w w' ht h hn.tableKept
  · exact fun w e hr h _ => hkept w _ (reachable_tableInv hr) h
      ((apply_modifies w e).tableKept fun _ => envParts_ofTable)
  · intro w s x w' _ ht h hok hh
    cases hh.tableStep with
    | kept hk => exact hkept w w' ht h hk
    | added id spec w₁ ha hk => exact hkept w₁ w' (ht.added ha) (hadd w w₁ id spec ht h ha) hk
    | removed id hd hid hr => exact hremove w w' _ id ht h hok hd hid hr

end Yar.Proofs
