import Yar.Proofs.Table

/-!
# Start, stop and exit of a process

What `cmdStart`, `cmdStop` and the two halves of the exit handler do to the process and the
ready state of a command.
-/

namespace Yar.Proofs

open Program

variable {sys : Sys} {w w' : World} {id : CmdId}

lemma cmdIsRunning_iff (this : Cmd) : cmdIsRunning this = true ↔ this.pid ≠ none := by
  simp [cmdIsRunning, Option.isSome_iff_ne_none]

/-- What `updCmd` writes can be read back, and nothing else has changed. -/
lemma updCmd_ok {f : Cmd → Cmd} {u : Unit} (h : updCmd id f w = .ok u w') :
    w'.heap id = f (w.heap id) ∧ w'.gbls = w.gbls ∧ w'.ttys = w.ttys ∧ w'.kern = w.kern ∧
      w'.trace = w.trace ∧ ∀ j, j ≠ id → w'.heap j = w.heap j := by
  rw [modify_eq_ok.mp h]
  refine ⟨by simp [World.updCmd], rfl, rfl, rfl, rfl, fun j hj => ?_⟩
  simp [World.updCmd, hj]

/-! ## Starting -/

/-- The child a fork would leave now. -/
def newProc (k : Kernel) (startdelay : Double) : Proc where
  pid := k.nextPid
  pidfd := k.nextFd
  startdelay := startdelay
  held := k.fds

/-- A start of a command that is not running. -/
structure Forked (sys : Sys) (w w' : World) (id : CmdId) (startdelay : Double) : Prop where
  stopped : (w.heap id).pid = none
  ports : (w.ttys (.cmd id)).dfd ≠ none
  pid : (w'.heap id).pid = some w.kern.nextPid
  pidfd : (w'.heap id).pidfd = some w.kern.nextFd
  readycnt : (w'.heap id).readycnt = 0
  trace : w'.trace = .forked id w.kern.nextPid :: w.trace
  procs : w'.kern.procs = w.kern.procs ++ [newProc w.kern startdelay]
  nextPid : w'.kern.nextPid = w.kern.nextPid + 1
  fds : w'.kern.fds = w.kern.nextFd :: w.kern.fds
  nextFd : w'.kern.nextFd = w.kern.nextFd + 1
  interest : w'.kern.interest =
    w.kern.interest ++ reported sys w.kern.nextFd (.pidfd id w.kern.nextFd)
  modifies : Modifies (forkParts id) w w'

/-- The world after `fork` and `pidfd_open`. -/
def forked (w : World) (id : CmdId) (startdelay : Double) : World :=
  { w with
    kern.fds := w.kern.nextFd :: w.kern.fds
    kern.nextFd := w.kern.nextFd + 1
    kern.nextPid := w.kern.nextPid + 1
    kern.procs := w.kern.procs ++ [newProc w.kern startdelay]
    trace := .forked id w.kern.nextPid :: w.trace }

lemma fork_ok {startdelay : Double} {p : Pid} {fd : Fd} (h : fork sys id startdelay w = .ok (p, fd) w') :
    p = w.kern.nextPid ∧ fd = w.kern.nextFd ∧ w' = forked w id startdelay := by
  replace h := get_bind_eq_ok.mp h
  obtain ⟨-, h⟩ := require_bind_eq_ok.mp h
  replace h := get_bind_eq_ok.mp h
  obtain ⟨fd', w₁, hopen, h⟩ := bind_eq_ok.mp h
  replace hopen := get_bind_eq_ok.mp hopen
  obtain ⟨_, w₂, hset, hopen⟩ := bind_eq_ok.mp hopen
  obtain ⟨rfl, rfl⟩ := pure_eq_ok.mp hopen
  rw [set_eq_ok.mp hset] at h
  replace h := modify_bind_eq_ok.mp h
  replace h := modify_bind_eq_ok.mp h
  obtain ⟨-, h⟩ := require_bind_eq_ok.mp h
  obtain ⟨hpf, rfl⟩ := pure_eq_ok.mp h
  obtain ⟨rfl, rfl⟩ := Prod.mk.inj hpf
  exact ⟨rfl, rfl, rfl⟩

/-- The next child can be forked and gets a pidfd. -/
def Forkable (sys : Sys) (k : Kernel) : Prop :=
  sys.forkFails k.nextPid = false ∧ sys.pidfdFails k.nextPid = false

lemma fork_runs {startdelay : Double} (h : Forkable sys w.kern) : fork sys id startdelay w =
    .ok (w.kern.nextPid, w.kern.nextFd) (forked w id startdelay) := by
  refine get_bind_eq_ok.mpr (require_bind_eq_ok.mpr ⟨h.1, get_bind_eq_ok.mpr ?_⟩)
  refine (bind_of_ok (show openFd w = .ok w.kern.nextFd _ from rfl)).trans ?_
  exact modify_bind_eq_ok.mpr (modify_bind_eq_ok.mpr (require_bind_eq_ok.mpr ⟨h.2, rfl⟩))

lemma fork_forkable {startdelay : Double} {pf : Pid × Fd} (h : fork sys id startdelay w = .ok pf w') :
    Forkable sys w.kern := by
  replace h := get_bind_eq_ok.mp h
  obtain ⟨hfork, h⟩ := require_bind_eq_ok.mp h
  replace h := get_bind_eq_ok.mp h
  obtain ⟨fd, w₁, -, h⟩ := bind_eq_ok.mp h
  replace h := modify_bind_eq_ok.mp h
  replace h := modify_bind_eq_ok.mp h
  exact ⟨hfork, (require_bind_eq_ok.mp h).1⟩

/-- A start needs the tty of the command and, unless the command is running, a child. -/
lemma cmdStart_returns_iff {startdelay : Double} : Returns (cmdStart sys id startdelay) w ↔
    ((w.ttys (.cmd id)).dfd ≠ none ∧ (w.ttys (.cmd id)).sfd ≠ none) ∧
      ((w.heap id).pid = none → Forkable sys w.kern) := by
  constructor
  · rintro ⟨b, w', h⟩
    obtain ⟨hports, h⟩ := require_bind_eq_ok.mp (get_bind_eq_ok.mp h)
    refine ⟨hports, fun hpid => ?_⟩
    rw [if_neg (by simp [cmdIsRunning, hpid])] at h
    obtain ⟨pf, w₁, hfork, -⟩ := bind_eq_ok.mp h
    exact fork_forkable hfork
  · rintro ⟨hports, hfork⟩
    refine .get_bind ((Returns.require hports _).bind fun _ w₁ h => ?_)
    obtain ⟨-, rfl⟩ := require_eq_ok.mp h
    refine .ite (fun _ => .pure _ _) fun hrun => ?_
    have hpid : (w₁.heap id).pid = none := not_not.mp (mt (cmdIsRunning_iff _).mpr hrun)
    refine Returns.bind ⟨_, _, fork_runs (hfork hpid)⟩ fun pf w₂ _ => ?_
    exact .bind (.modifyState _ _) fun _ w₃ _ =>
      .bind (.discard ⟨_, _, epollAdd_eq _ _ _ _⟩) fun _ _ _ => .pure _ _

lemma cmdStart_cases {startdelay : Double} {b : Bool}
    (h : cmdStart sys id startdelay w = .ok b w') :
    ((w.heap id).pid ≠ none ∧ b = false ∧ w' = w) ∨ (b = true ∧ Forked sys w w' id startdelay) := by
  have hm : Modifies (forkParts id) w w' := cmdStart_modifies_fork startdelay subset_rfl h
  replace h := get_bind_eq_ok.mp h
  obtain ⟨⟨hdfd, -⟩, h⟩ := require_bind_eq_ok.mp h
  by_cases hrun : cmdIsRunning (w.heap id) = true
  · rw [if_pos hrun] at h
    obtain ⟨rfl, rfl⟩ := pure_eq_ok.mp h
    exact .inl ⟨(cmdIsRunning_iff _).mp hrun, rfl, rfl⟩
  · rw [if_neg hrun] at h
    have hnone : (w.heap id).pid = none := by
      by_contra hne
      exact hrun ((cmdIsRunning_iff _).mpr hne)
    obtain ⟨⟨p, fd⟩, w₁, hfork, h⟩ := bind_eq_ok.mp h
    obtain ⟨rfl, rfl, rfl⟩ := fork_ok hfork
    replace h := modify_bind_eq_ok.mp h
    obtain ⟨_, w₂, hreg, hend⟩ := bind_eq_ok.mp h
    obtain ⟨c, hadd⟩ := discard_eq_ok.mp hreg
    cases (epollAdd_eq sys _ _ _).symm.trans hadd
    obtain ⟨rfl, rfl⟩ := pure_eq_ok.mp hend
    refine .inr ⟨rfl, hnone, hdfd, ?_, ?_, ?_, rfl, rfl, rfl, rfl, rfl, rfl, hm⟩ <;>
      simp [World.updCmd]

/-! ## The ready state -/

lemma decCmdsReadyCnt_ok {u : Unit} (h : decCmdsReadyCnt w = .ok u w') :
    w' = { w with gbls.cmdsreadycnt :=
      if w.gbls.readystrlen ≠ 0 then w.gbls.cmdsreadycnt - 1 else w.gbls.cmdsreadycnt } := by
  rw [modify_eq_ok.mp h]
  by_cases hlen : w.gbls.readystrlen ≠ 0
  · simp only [if_pos hlen]
  · simp only [if_neg hlen]

/-- `cmdResetReady` of a command that is ready. -/
structure ResetReady (w w' : World) (id : CmdId) : Prop where
  ready : cmdIsReady w.gbls (w.heap id) = true
  readycnt : (w'.heap id).readycnt = 0
  count : w'.gbls.cmdsreadycnt =
    if w.gbls.readystrlen ≠ 0 then w.gbls.cmdsreadycnt - 1 else w.gbls.cmdsreadycnt
  modifies : Modifies {.ready id, .readycount} w w'
  ports : w'.kern = w.kern
  trace : w'.trace = w.trace

lemma cmdResetReady_cases {u : Unit} (h : cmdResetReady id w = .ok u w') :
    (cmdIsReady w.gbls (w.heap id) = false ∧ w' = w) ∨ ResetReady w w' id := by
  replace h := get_bind_eq_ok.mp h
  rcases when_eq_ok.mp h with ⟨hready, h⟩ | ⟨hready, rfl⟩
  · obtain ⟨_, w₁, hupd, h⟩ := bind_eq_ok.mp h
    obtain ⟨_, w₂, hdec, h⟩ := bind_eq_ok.mp h
    replace h := get_bind_eq_ok.mp h
    obtain ⟨-, rfl⟩ := require_eq_ok.mp h
    have hm₁ : Modifies {.ready id, .readycount} w w₁ :=
      updCmd_modifies (f := fun this => { this with readycnt := 0 }) (.inr fun _ => rfl)
        (.inr fun _ => rfl) (.inl (by simp)) (.inr fun _ => rfl) (.inr fun _ => rfl)
        (.inr fun _ => rfl) hupd
    have hm₂ : Modifies {.ready id, .readycount} w₁ w' := by
      refine (updGbls_modifies (.inr fun g => ?_) (.inr fun g => ?_) (.inl (by simp))
        (.inr fun g => ?_) (.inr fun g => ?_) (.inr fun g => ?_) : Keeps (Modifies _) _) hdec
      all_goals split <;> rfl
    obtain ⟨hheap, hgbls, -, hkern, htrace, -⟩ := updCmd_ok hupd
    have hw := decCmdsReadyCnt_ok hdec
    refine .inr ⟨hready, ?_, ?_, trans_of _ hm₁ hm₂, ?_, ?_⟩
    · rw [hw, hheap]
    · rw [hw, hgbls]
    · rw [hw, hkern]
    · rw [hw, htrace]
  · exact .inl ⟨by simpa using hready, rfl⟩

/-! ## The process table and epoll -/

lemma epollDel_ok {fd : Option Fd} {u : Unit} (h : epollDel fd w = .ok u w') :
    w' = { w with kern.interest := w.kern.interest.filter fun e => fd ≠ some e.1 } := by
  replace h := get_bind_eq_ok.mp h
  obtain ⟨-, h⟩ := require_bind_eq_ok.mp h
  exact modify_eq_ok.mp h

lemma waitid_ok {fd : Option Fd} {st : Int} (h : waitid fd w = .ok st w') :
    ∃ p, w.kern.child fd = some p ∧ fd = some p.pidfd ∧ p.dead ≠ none ∧
      w' = { w with kern := w.kern.reap p.pidfd } := by
  replace h := get_bind_eq_ok.mp h
  cases hc : w.kern.child fd with
  | none =>
    simp only [hc] at h
    exact (throw_eq_ok.mp h).elim
  | some p =>
    have hfd := List.find?_some hc
    rw [beq_iff_eq] at hfd
    obtain ⟨pid, pidfd, startdelay, dead, held⟩ := p
    simp only [hc] at h
    cases dead with
    | none => exact (throw_eq_ok.mp h).elim
    | some st =>
      replace h := modify_bind_eq_ok.mp h
      exact ⟨_, rfl, hfd, by simp, (pure_eq_ok.mp h).2⟩

/-- What a kill leaves of a process: a dead one without descriptors. -/
def killed (fd : Option Fd) (status : Int) (p : Proc) : Proc :=
  if fd = some p.pidfd then { p with dead := p.dead <|> some status, held := [] } else p

lemma killAndPoll_ok {pid : Option Pid} {fd : Option Fd} {u : Unit}
    (h : killAndPoll sys pid fd w = .ok u w') :
    ∃ status, w'.kern.procs = w.kern.procs.map (killed fd status) ∧ w'.kern.fds = w.kern.fds ∧
      w'.kern.nextFd = w.kern.nextFd ∧ w'.kern.nextPid = w.kern.nextPid ∧
      w'.kern.interest = w.kern.interest := by
  obtain ⟨k, w₁, hcall, h⟩ := bind_eq_ok.mp h
  replace hcall := get_bind_eq_ok.mp hcall
  obtain ⟨_, w₂, hset, hcall⟩ := bind_eq_ok.mp hcall
  obtain ⟨rfl, rfl⟩ := pure_eq_ok.mp hcall
  rw [set_eq_ok.mp hset] at h
  replace h := get_bind_eq_ok.mp h
  obtain ⟨-, h⟩ := require_bind_eq_ok.mp h
  rw [modify_eq_ok.mp h]
  exact ⟨_, rfl, rfl, rfl, rfl, rfl⟩

/-- The child behind `fd` has been reaped. -/
structure Gone (k k' : Kernel) (fd : Option Fd) : Prop where
  procs : k'.procs = k.procs.filter fun p => fd ≠ some p.pidfd
  nextFd : k'.nextFd = k.nextFd
  nextPid : k'.nextPid = k.nextPid
  interest : ∀ e ∈ k'.interest, e ∈ k.interest
  fds : FdsOk k → FdsOk k'

lemma Gone.reap (k : Kernel) (fd : Fd) : Gone k (k.reap fd) (some fd) := by
  refine ⟨?_, rfl, rfl, fun e he => List.mem_of_mem_filter he, fun h => ⟨h.nodup, h.lt⟩⟩
  refine List.filter_congr fun p _ => ?_
  simp [eq_comm]

lemma filter_killed (fd : Option Fd) (status : Int) (procs : List Proc) :
    (procs.map (killed fd status)).filter (fun p => fd ≠ some p.pidfd) =
      procs.filter fun p => fd ≠ some p.pidfd := by
  induction procs with
  | nil => rfl
  | cons p procs ih =>
    by_cases hp : fd = some p.pidfd
    · rw [List.map_cons, List.filter_cons_of_neg (by simp [killed, hp]),
        List.filter_cons_of_neg (by simp [hp]), ih]
    · rw [List.map_cons, killed, if_neg hp, List.filter_cons_of_pos (by simp [hp]),
        List.filter_cons_of_pos (by simp [hp]), ih]

/-! ## Stopping -/

/-- What a stop that goes through leaves behind, from after the stop string on. -/
structure Terminated (w w' : World) (id : CmdId) (epoll : Bool) : Prop where
  reset : ∃ w₁, (cmdIsReady w.gbls (w.heap id) = false ∧ w₁ = w ∨ ResetReady w w₁ id) ∧
    Modifies {.kproc, .proc id} w₁ w'
  pid : (w'.heap id).pid = none
  pidfd : (w'.heap id).pidfd = none
  gone : Gone w.kern w'.kern (w.heap id).pidfd
  fds : ∃ fd, (w.heap id).pidfd = some fd ∧ w'.kern.fds = w.kern.fds.erase fd
  isOpen : ∀ e ∈ w'.kern.interest, w'.kern.isOpen e.1 = true
  unregistered : epoll = true → ∀ e ∈ w'.kern.interest, (w.heap id).pidfd ≠ some e.1

lemma cmdTerminate_ok {epoll : Bool} {u : Unit} (h : cmdTerminate sys id epoll w = .ok u w') :
    Terminated w w' id epoll := by
  obtain ⟨_, w₁, hreset, h⟩ := bind_eq_ok.mp h
  replace h := get_bind_eq_ok.mp h
  obtain ⟨_, w₂, hdel, h⟩ := bind_eq_ok.mp h
  obtain ⟨_, w₃, hkill, h⟩ := bind_eq_ok.mp h
  obtain ⟨es, w₄, hwait, h⟩ := bind_eq_ok.mp h
  obtain ⟨_, w₅, hclose, h⟩ := bind_eq_ok.mp h
  obtain ⟨hheap, -, -, hkern, -⟩ := updCmd_ok h
  have hreset' := cmdResetReady_cases hreset
  have hm : Modifies {.kproc, .proc id} w₁ w' := by
    refine trans_of _ ((Keeps.when fun _ => epollDel_modifies _ (by simp) : Keeps _ _) hdel)
      (trans_of _ (killAndPoll_modifies sys _ _ (by simp) hkill)
      (trans_of _ (waitid_modifies _ (by simp) hwait)
      (trans_of _ (close_modifies _ (by simp) hclose) ?_)))
    exact updCmd_modifies
      (f := fun this => { this with exitstatus := es, pidfd := none, pid := none })
      (.inr fun _ => rfl) (.inr fun _ => rfl) (.inr fun _ => rfl) (.inl (by simp))
      (.inr fun _ => rfl) (.inr fun _ => rfl) h
  have hkern₁ : w₁.kern = w.kern := by
    rcases hreset' with ⟨-, hw⟩ | hr
    · rw [hw]
    · exact hr.ports
  have hpidfd₁ : (w₁.heap id).pidfd = (w.heap id).pidfd := by
    rcases hreset' with ⟨-, hw⟩ | hr
    · rw [hw]
    · exact hr.modifies.pidfd_eq (by simp)
  -- the kernel before the reaping, with the process dead and off epoll
  obtain ⟨status, hprocs₃, hfds₃, hnext₃, hpid₃, hinterest₃⟩ := killAndPoll_ok hkill
  have hkern₂ : w₂.kern.procs = w.kern.procs ∧ w₂.kern.fds = w.kern.fds ∧
      w₂.kern.nextFd = w.kern.nextFd ∧ w₂.kern.nextPid = w.kern.nextPid ∧
      (∀ e ∈ w₂.kern.interest, e ∈ w.kern.interest) ∧
      (epoll = true → ∀ e ∈ w₂.kern.interest, (w.heap id).pidfd ≠ some e.1) := by
    rw [← hkern₁, ← hpidfd₁]
    rcases when_eq_ok.mp hdel with ⟨-, hdel⟩ | ⟨hn, hw⟩
    · rw [epollDel_ok hdel]
      exact ⟨rfl, rfl, rfl, rfl, fun e he => List.mem_of_mem_filter he,
        fun _ e he => by simpa using List.of_mem_filter he⟩
    · rw [hw]
      exact ⟨rfl, rfl, rfl, rfl, fun _ he => he, fun he => (hn he).elim⟩
  obtain ⟨hprocs₂, hfds₂, hnext₂, hpid₂, hinterest₂, hoff⟩ := hkern₂
  obtain ⟨p, -, hfd, -, hw₄⟩ := waitid_ok hwait
  rw [hpidfd₁] at hfd hprocs₃ hclose
  rw [hfd] at hclose
  have hw₅ := modify_eq_ok.mp hclose
  have hreap := Gone.reap w₃.kern p.pidfd
  have hk : w'.kern = (w₃.kern.reap p.pidfd).close p.pidfd := by rw [hkern, hw₅, hw₄]
  have hinterest : ∀ e ∈ w'.kern.interest, e ∈ w₂.kern.interest := fun e he => by
    rw [hk] at he
    exact hinterest₃ ▸ hreap.interest e (List.mem_of_mem_filter he)
  have hok₃ (hok : FdsOk w.kern) : FdsOk w₃.kern :=
    ⟨by rw [hfds₃, hfds₂]; exact hok.nodup, by rw [hfds₃, hfds₂, hnext₃, hnext₂]; exact hok.lt⟩
  refine ⟨⟨w₁, hreset', hm⟩, by rw [hheap], by rw [hheap], ⟨?_, ?_, ?_, ?_, fun hok => ?_⟩,
    ?_, ?_, ?_⟩
  · rw [hk, hfd, ← hprocs₂, ← filter_killed (some p.pidfd) status, ← hfd, ← hprocs₃, hfd]
    exact hreap.procs
  · rw [hk]
    exact hnext₃.trans hnext₂
  · rw [hk]
    exact hpid₃.trans hpid₂
  · exact fun e he => hinterest₂ e (hinterest e he)
  · rw [hk]
    exact (hreap.fds (hok₃ hok)).close _
  · refine ⟨p.pidfd, hfd, ?_⟩
    rw [hk, ← hfds₂, ← hfds₃]
    rfl
  · intro e he
    rw [hk] at he ⊢
    exact (List.mem_filter.mp he).2
  · exact fun he e hmem => hoff he e (hinterest e hmem)

lemma Modifies.ttyIdle_eq {S : Set Part} {r : TtyRef} (hm : Modifies S w w') (ht : .tty r ∉ S)
    (ho : .opens r ∉ S) (hh : .hist r ∉ S) (hn : .nread r ∉ S) : w'.ttyIdle r = w.ttyIdle r := by
  have hstatic := hm.same (.tty r) ht
  simp only [SameOn, ttyStatic, Prod.mk.injEq] at hstatic
  rw [World.ttyIdle, World.ttyIdle, hm.opens_eq ho, ttyDomInQCnt, ttyDomInQCnt, hstatic.2.2.2.1,
    Port.domq, Port.domq, hm.same (.hist r) hh, hm.same (.nread r) hn]

lemma ttyIdle_ok {r : TtyRef} {b : Bool} (h : ttyIdle r w = .ok b w') :
    b = w.ttyIdle r ∧ w' = w := by
  replace h := get_bind_eq_ok.mp h
  obtain ⟨-, h⟩ := require_bind_eq_ok.mp h
  exact pure_eq_ok.mp h

lemma cmdStopRefused_ok {force b : Bool} (h : cmdStopRefused id force w = .ok b w') :
    w' = w ∧ (b = false → force = true ∨ (w.ttyIdle (.clt id) = true ∧ w.ttyIdle .bcst = true)) ∧
      (b = true → force = false ∧ (w.ttyIdle (.clt id) = false ∨ w.ttyIdle .bcst = false)) := by
  unfold cmdStopRefused at h
  cases force with
  | true =>
    obtain ⟨rfl, rfl⟩ := pure_eq_ok.mp h
    simp
  | false =>
    obtain ⟨b₁, w₁, hclt, h⟩ := bind_eq_ok.mp h
    obtain ⟨hb₁, hw₁⟩ := ttyIdle_ok hclt
    rw [hw₁] at h
    cases hi : w.ttyIdle (.clt id) with
    | false =>
      rw [hb₁, hi] at h
      obtain ⟨rfl, rfl⟩ := pure_eq_ok.mp h
      simp
    | true =>
      rw [hb₁, hi] at h
      obtain ⟨b₂, w₂, hbcst, h⟩ := bind_eq_ok.mp h
      obtain ⟨hb₂, hw₂⟩ := ttyIdle_ok hbcst
      obtain ⟨hb, hw'⟩ := pure_eq_ok.mp h
      rw [hw', hw₂, hb, hb₂]
      simp

/-- `cmdStop`: nothing without a process, nothing when it is refused, and the stop. -/
lemma cmdStop_cases {epoll force b : Bool} (h : cmdStop sys id epoll force w = .ok b w') :
    ((w.heap id).pid = none ∧ w' = w) ∨
      ((w.heap id).pid ≠ none ∧ force = false ∧
        (w.ttyIdle (.clt id) = false ∨ w.ttyIdle .bcst = false) ∧ w' = w) ∨
      ((w.heap id).pid ≠ none ∧
        (force = true ∨ (w.ttyIdle (.clt id) = true ∧ w.ttyIdle .bcst = true)) ∧
        ∃ w₁, cmdSendStopstr sys id w = .ok () w₁ ∧ cmdTerminate sys id epoll w₁ = .ok () w') := by
  replace h := get_bind_eq_ok.mp h
  by_cases hrun : cmdIsRunning (w.heap id) = false
  · rw [if_pos hrun] at h
    refine .inl ⟨?_, (pure_eq_ok.mp h).2⟩
    simpa [cmdIsRunning] using hrun
  · rw [if_neg hrun] at h
    have hpid : (w.heap id).pid ≠ none := (cmdIsRunning_iff _).mp (by simpa using hrun)
    obtain ⟨refused, w₁, hrefused, h⟩ := bind_eq_ok.mp h
    obtain ⟨hw₁, hgo, hstay⟩ := cmdStopRefused_ok hrefused
    rw [hw₁] at h
    cases refused with
    | true =>
      obtain ⟨hforce, hbusy⟩ := hstay rfl
      exact .inr (.inl ⟨hpid, hforce, hbusy, (pure_eq_ok.mp h).2⟩)
    | false =>
      obtain ⟨_, w₂, hkill, h⟩ := bind_eq_ok.mp h
      obtain ⟨_, w₃, hsend, hterm⟩ := bind_eq_ok.mp hkill
      rw [(pure_eq_ok.mp h).2]
      exact .inr (.inr ⟨hpid, hgo rfl, w₃, hsend, hterm⟩)

/-! ## Exit -/

/-- What the first half of the exit handler leaves behind. -/
structure Reaped (w w' : World) (id : CmdId) : Prop where
  child : ∃ p, w.kern.child (w.heap id).pidfd = some p ∧ p.dead ≠ none
  pid : (w'.heap id).pid = none
  pidfd : (w'.heap id).pidfd = none
  reset : ∃ w₁, Modifies {.kproc, .proc id} w w₁ ∧
    (cmdIsReady w₁.gbls (w₁.heap id) = false ∧ w' = w₁ ∨ ResetReady w₁ w' id)
  gone : Gone w.kern w'.kern (w.heap id).pidfd
  fds : w'.kern.fds = w.kern.fds
  unregistered : ∀ e ∈ w'.kern.interest, (w.heap id).pidfd ≠ some e.1

lemma cmdPidReap_ok {u : Unit} (h : cmdPidReap id w = .ok u w') : Reaped w w' id := by
  replace h := get_bind_eq_ok.mp h
  obtain ⟨es, w₁, hwait, h⟩ := bind_eq_ok.mp h
  obtain ⟨_, w₂, hstatus, h⟩ := bind_eq_ok.mp h
  obtain ⟨_, w₃, hdel, h⟩ := bind_eq_ok.mp h
  obtain ⟨_, w₄, hpid, h⟩ := bind_eq_ok.mp h
  have hm : Modifies {.kproc, .proc id} w w₄ := by
    refine trans_of _ (waitid_modifies _ (by simp) hwait) (trans_of _ ?_
      (trans_of _ (epollDel_modifies _ (by simp) hdel) ?_))
    · exact updCmd_modifies (f := fun this => { this with exitstatus := es })
        (.inr fun _ => rfl) (.inr fun _ => rfl) (.inr fun _ => rfl) (.inr fun _ => rfl)
        (.inr fun _ => rfl) (.inr fun _ => rfl) hstatus
    · exact updCmd_modifies (f := fun this => { this with pidfd := none, pid := none })
        (.inr fun _ => rfl) (.inr fun _ => rfl) (.inr fun _ => rfl) (.inl (by simp))
        (.inr fun _ => rfl) (.inr fun _ => rfl) hpid
  have hreset := cmdResetReady_cases h
  have hproc : SameOn w₄ w' (.proc id) := by
    rcases hreset with ⟨-, rfl⟩ | hr
    · exact SameOn.refl _ _
    · exact hr.modifies.same _ (by simp)
  simp only [SameOn, Prod.mk.injEq] at hproc
  have hkern' : w'.kern = w₄.kern := by
    rcases hreset with ⟨-, hw⟩ | hr
    · rw [hw]
    · exact hr.ports
  obtain ⟨hheap, -, -, hkern₄, -⟩ := updCmd_ok hpid
  obtain ⟨-, -, -, hkern₂, -⟩ := updCmd_ok hstatus
  obtain ⟨p, hchild, hfd, hdead, hw₁⟩ := waitid_ok hwait
  have hreap := Gone.reap w.kern p.pidfd
  have hk : w'.kern = { w.kern.reap p.pidfd with
      interest := (w.kern.reap p.pidfd).interest.filter fun e => (w.heap id).pidfd ≠ some e.1 } := by
    rw [hkern', hkern₄, epollDel_ok hdel, hkern₂, hw₁]
  refine ⟨⟨p, hchild, hdead⟩, by rw [hproc.1, hheap], by rw [hproc.2, hheap], ⟨w₄, hm, hreset⟩,
    ⟨?_, ?_, ?_, ?_, ?_⟩, by rw [hk]; rfl, ?_⟩
  · rw [hk, hfd]
    exact hreap.procs
  · rw [hk]
    exact hreap.nextFd
  · rw [hk]
    exact hreap.nextPid
  · intro e he
    rw [hk] at he
    exact hreap.interest e (List.mem_of_mem_filter he)
  · rw [hk]
    exact fun hok => ⟨(hreap.fds hok).nodup, (hreap.fds hok).lt⟩
  · intro e he
    rw [hk] at he
    simpa using List.of_mem_filter he

lemma cmdPidRestart_cases {u : Unit} (h : cmdPidRestart sys id w = .ok u w') :
    (¬(w.gbls.restart = true ∧ (w.heap id).restart = true) ∧ w' = w) ∨
      ∃ w₁ startdelay, w.gbls.restart = true ∧ (w.heap id).restart = true ∧
        Forked sys w w₁ id startdelay ∧ Modifies ∅ w₁ w' := by
  replace h := get_bind_eq_ok.mp h
  rcases when_eq_ok.mp h with ⟨⟨hg, hr⟩, h⟩ | ⟨hn, rfl⟩
  · obtain ⟨b, w₁, hstart, h⟩ := bind_eq_ok.mp h
    obtain ⟨hb, h⟩ := require_bind_eq_ok.mp h
    have hm : Modifies ∅ w₁ w' := updCmd_modifies
      (f := fun this => { this with restartcnt := this.restartcnt + 1 }) (.inr fun _ => rfl)
      (.inr fun _ => rfl) (.inr fun _ => rfl) (.inr fun _ => rfl) (.inr fun _ => rfl)
      (.inr fun _ => rfl) h
    rcases cmdStart_cases hstart with ⟨-, hb', -⟩ | ⟨-, hf⟩
    · rw [hb'] at hb
      cases hb
    · exact .inr ⟨w₁, _, hg, hr, hf, hm⟩
  · exact .inl ⟨hn, rfl⟩

/-! ## Notify events and additions -/

/-- The world once `ttyNotifyEvent` has read the event and counted it. -/
def notified (w : World) (r : TtyRef) (mask : Mask) (rest : List Mask) : World :=
  (w.updPort r fun p => { p with notify := rest }).updTty r fun this =>
    { this with opens := mask.opens this.opens }

lemma notified_modifies (w : World) (r : TtyRef) (mask : Mask) (rest : List Mask) :
    Modifies {.notify r, .opens r} w (notified w r mask rest) := by
  have hport : Keeps (Modifies {.notify r, .opens r}) (updPort r fun p => { p with notify := rest }) :=
    updPort_modifies (.inr fun _ => rfl) (.inr fun _ => rfl) (.inl (by simp))
  have htty : Keeps (Modifies {.notify r, .opens r})
      (updTty r fun this => { this with opens := mask.opens this.opens }) :=
    updTty_modifies (.inr fun _ => rfl) (.inl (by simp))
  exact trans_of _ (Keeps.of_modify hport w) (Keeps.of_modify htty _)

lemma ttyNotifyEvent_cases {r : TtyRef} {rd : Read} {u : Unit} (h : ttyNotifyEvent sys r rd w = .ok u w') :
    ∃ mask rest, (w.kern.ports r).notify = mask :: rest ∧
      nedHdlr sys r mask (notified w r mask rest) = .ok u w' := by
  replace h := get_bind_eq_ok.mp h
  obtain ⟨-, h⟩ := require_bind_eq_ok.mp h
  cases hq : (w.kern.ports r).notify with
  | nil =>
    rw [hq] at h
    exact (throw_eq_ok.mp h).elim
  | cons mask rest =>
    rw [hq] at h
    exact ⟨mask, rest, rfl, h⟩

/-- A new command is started when the broadcast tty is open. -/
lemma monAddRegister_cases {u : Unit} (h : monAddRegister sys id w = .ok u w') :
    (Modifies ({.kproc} ∪ bcstParts) w w' ∧ w.gbls.bcstflg = false ∧ w.gbls.cmds.length > 1) ∨
      (Modifies {.kproc} w w' ∧ (w.ttys .bcst).opens = 0) ∨
      ((w.ttys .bcst).opens > 0 ∧ ∃ w₁ b, Modifies {.kproc} w w₁ ∧ cmdStart sys id (.fin 0) w₁ = .ok b w') := by
  obtain ⟨_, w₁, hreg, h⟩ := bind_eq_ok.mp h
  have hm : Modifies {.kproc} w w₁ := cmdRegisterttyEvents_modifies id (by simp) hreg
  have hcmds : w₁.gbls.cmds = w.gbls.cmds := hm.cmds_eq (by simp)
  have hflg : w₁.gbls.bcstflg = w.gbls.bcstflg :=
    (congrArg Globals.bcstflg (hm.flags_eq (by simp)) :)
  have hopens : (w₁.ttys .bcst).opens = (w.ttys .bcst).opens := hm.opens_eq (by simp)
  replace h := get_bind_eq_ok.mp h
  by_cases hnew : w₁.gbls.bcstflg = false ∧ w₁.gbls.cmds.length > 1
  · rw [if_pos hnew] at h
    rw [hflg, hcmds] at hnew
    refine .inl ⟨trans_of _ (hm.mono fun _ hp => .inl hp) ?_, hnew⟩
    have hflag : Keeps (Modifies ({.kproc} ∪ bcstParts))
        (updGbls fun g => { g with bcstflg := true }) :=
      flags_modifies (by simp [bcstParts]) fun _ => ⟨rfl, rfl, rfl, rfl, rfl⟩
    exact (Keeps.bind hflag fun _ => Keeps.bind (bcstttyCreate_modifies sys Set.subset_union_right) fun _ =>
      bcstttyRegisterEvents_modifies (by simp)) h
  · rw [if_neg hnew] at h
    rcases when_eq_ok.mp h with ⟨hopen, h⟩ | ⟨hclosed, rfl⟩
    · obtain ⟨b, hstart⟩ := discard_eq_ok.mp h
      rw [hopens] at hopen
      exact .inr (.inr ⟨hopen, w₁, b, hm, hstart⟩)
    · rw [hopens] at hclosed
      exact .inr (.inl ⟨hm, by omega⟩)

/-! ## Options that stay -/

/-- Read off the globals is an option that only `idleexit` sets once `main` is done: it does not depend
on what the monitor toggles, nor on whether there is a broadcast tty. -/
structure Settled {α : Type} (π : Globals → α) : Prop where
  flags : ∀ g g', globalsFlags g' = globalsFlags g → g'.cmddelonexit = g.cmddelonexit → π g' = π g
  bcstflg : ∀ g, π { g with bcstflg := true } = π g
  core : ∀ g g', globalsCore g' = globalsCore g → π g' = π g

def SameOption {α : Type} (π : Globals → α) (w w' : World) : Prop := π w'.gbls = π w.gbls

instance {α : Type} {π : Globals → α} : Std.Refl (SameOption π) where
  refl _ := rfl

instance {α : Type} {π : Globals → α} : IsTrans World (SameOption π) where
  trans _ _ _ h h' := h'.trans h

section

variable {α : Type} {π : Globals → α}

lemma Modifies.settled {S : Set Part} (hm : Modifies S w w') (hπ : Settled π) (hf : .flags ∉ S)
    (hd : .delonexit ∉ S) : π w'.gbls = π w.gbls :=
  hπ.flags _ _ (hm.flags_eq hf) (hm.same .delonexit hd)

lemma monAddRegister_settled (hπ : Settled π) : Keeps (SameOption π) (monAddRegister sys id) := by
  have quiet {β : Type} {m : Act β} {S : Set Part} (hm : Keeps (Modifies S) m) (hf : .flags ∉ S)
      (hd : .delonexit ∉ S) : Keeps (SameOption π) m := fun _ _ _ h => (hm h).settled hπ hf hd
  have hreg (r : TtyRef) : Keeps (SameOption π) (ttyRegisterEvents sys r) :=
    quiet (S := {.kproc}) (ttyRegisterEvents_modifies r (by simp)) (by simp) (by simp)
  have hcreate : Keeps (SameOption π) (ttyCreate sys .bcst) :=
    quiet (ttyCreate_modifies sys subset_rfl) (by simp [ttyParts]) (by simp [ttyParts])
  refine Keeps.bind (cmdRegisterttyEvents_keeps (hreg _) (hreg _)) fun _ => Keeps.bind Keeps.get fun w =>
    Keeps.ite (fun _ => ?_) fun _ => Keeps.when fun _ => Keeps.discard ?_
  · refine Keeps.bind (Keeps.modify fun w => hπ.bcstflg w.gbls) fun _ => Keeps.bind ?_ fun _ => ?_
    · exact Keeps.bind Keeps.get fun _ => Keeps.when fun _ => Keeps.bind hcreate fun _ =>
        Keeps.when fun _ => exit_keeps sys
    · exact Keeps.bind Keeps.get fun _ => Keeps.when fun _ => Keeps.discard (hreg _)
  · exact quiet (cmdStart_modifies _ subset_rfl) (by simp [startParts]) (by simp [startParts])

lemma Handled.settled {s : Source} {x : Answer} (hπ : Settled π) (hh : Handled sys s x w w') :
    π w'.gbls = π w.gbls ∨
      π w'.gbls = π { w.gbls with exitonidle := true, cmddelonexit := true } := by
  have hremove {id : CmdId} (hm : Modifies (removeParts id) w w') : π w'.gbls = π w.gbls :=
    hm.settled hπ (by simp [removeParts, cleanupParts, procParts, startParts, cmdParts, ttyParts])
      (by simp [removeParts, cleanupParts, procParts, startParts, cmdParts, ttyParts])
  cases hh with
  | bcst hs h =>
    have hm : Modifies bcstInputParts w w' := bcstttyEvent_modifies sys _ subset_rfl h
    exact .inl (hm.settled hπ (by simp [bcstInputParts]) (by simp [bcstInputParts]))
  | clt id hs hid h =>
    have hm : Modifies (inputParts id) w w' := cmdCltttyEvent_modifies sys _ subset_rfl h
    exact .inl (hm.settled hπ (by simp [inputParts, procParts, startParts])
      (by simp [inputParts, procParts, startParts]))
  | cmd id hs hid h =>
    have hm : Modifies (outputParts id) w w' :=
      Keeps.discard (cmdttyProcessOutput_modifies sys _ subset_rfl) h
    exact .inl (hm.settled hπ (by simp [outputParts]) (by simp [outputParts]))
  | notify r hs hid h =>
    have hm : Modifies ({.notify r, .opens r} ∪ nedParts r) w w' :=
      ttyNotifyEvent_modifies sys r subset_rfl h
    refine .inl (hm.settled hπ ?_ ?_)
    · cases r <;> simp [nedParts, procParts, startParts]
    · cases r <;> simp [nedParts, procParts, startParts]
  | pid id fd hs hid h => exact .inl (hremove (cmdPidEvent_modifies sys subset_rfl h))
  | del line name id hs hx hl hf h => exact .inl (hremove (monDelFound_modifies sys subset_rfl h))
  | add line cmdstr hs hx hl h =>
    rcases monAdd_cases h with hn | ⟨id, spec, w₁, ha, h⟩
    · exact .inl (hn.modifies.settled hπ (by simp [cmdParts, ttyParts]) (by simp [cmdParts, ttyParts]))
    · have hm := ha.modifies.settled hπ (by simp [addParts, cmdParts, ttyParts])
        (by simp [addParts, cmdParts, ttyParts])
      exact .inl ((monAddRegister_settled hπ h).trans hm)
  | drain line args hs hx hl h =>
    have hm := monDrain_modifies sys (S := {p | ∃ id, p ∈ outputParts id}) (fun id p hp => ⟨id, hp⟩) h
    exact .inl (hm.settled hπ (by simp [outputParts]) (by simp [outputParts]))
  | idleExit line args hs hx hl h =>
    replace h := get_bind_eq_ok.mp (modify_bind_eq_ok.mp h)
    split at h
    · obtain ⟨_, w₁, -, h⟩ := bind_eq_ok.mp h
      exact (exit_keeps (R := fun _ _ => False) sys h).elim
    · have hpolicy (j : CmdId) : Keeps (SameOption π)
          (updCmd j fun this => { this with deleteonexit := true }) := Keeps.modify fun _ => rfl
      exact .inr (Keeps.forM hpolicy _ h :)
  | toggle line m args g hs hx hl hw hcore hrestart hlb =>
    rw [hw]
    exact .inl (hπ.core _ _ hcore)
  | idle hs hw =>
    rw [hw]
    exact .inl rfl

end

end Yar.Proofs
