import Yar.Proofs.Footprint

/-!
# What the functions of cmd.c and main.c may change
-/

namespace Yar.Proofs

open Program

variable {S : Set Part} (sys : Sys)

/-! ## Output -/

/-- The parts the output of `id` works on. -/
def outputParts (id : CmdId) : Set Part :=
  {.nread (.cmd id), .oRead (.cmd id), .oOutput, .ready id, .readycount, .ring id,
    .oWrite (.clt id), .oWrite .bcst}

lemma updRing_modifies {id : CmdId} {f : Cmd → Cmd} (hS : .ring id ∈ S)
    (hspec : ∀ c, cmdSpecOf (f c) = cmdSpecOf c) (hready : ∀ c, (f c).readycnt = c.readycnt)
    (hproc : ∀ c, ((f c).pid, (f c).pidfd) = (c.pid, c.pidfd))
    (hlast : ∀ c, (f c).lastwrite = c.lastwrite)
    (hpolicy : ∀ c, (f c).deleteonexit = c.deleteonexit) : Keeps (Modifies S) (updCmd id f) :=
  updCmd_modifies (.inr hspec) (.inl hS) (.inr hready) (.inr hproc) (.inr hlast) (.inr hpolicy)

lemma cmdttyMatchReady_modifies (id : CmdId) (c : Byte) (hr : .ready id ∈ S)
    (hc : .readycount ∈ S) : Keeps (Modifies S) (cmdttyMatchReady id c) := by
  have hupd {f : Cmd → Cmd} (h₁ : ∀ c, cmdSpecOf (f c) = cmdSpecOf c)
      (h₂ : ∀ c, ((f c).buf, (f c).bufn, (f c).bufstart, (f c).bufof) =
        (c.buf, c.bufn, c.bufstart, c.bufof))
      (h₃ : ∀ c, ((f c).pid, (f c).pidfd) = (c.pid, c.pidfd))
      (h₄ : ∀ c, (f c).lastwrite = c.lastwrite)
      (h₅ : ∀ c, (f c).deleteonexit = c.deleteonexit) : Keeps (Modifies S) (updCmd id f) :=
    updCmd_modifies (.inr h₁) (.inr h₂) (.inl hr) (.inr h₃) (.inr h₄) (.inr h₅)
  refine Keeps.bind Keeps.get fun w => Keeps.when fun _ => ?_
  refine Keeps.ite (fun _ => ?_) fun _ =>
    hupd (fun _ => rfl) (fun _ => rfl) (fun _ => rfl) (fun _ => rfl) fun _ => rfl
  refine Keeps.bind (hupd (fun _ => rfl) (fun _ => rfl) (fun _ => rfl) (fun _ => rfl) fun _ => rfl)
    fun _ => ?_
  refine Keeps.when fun _ => ?_
  exact Keeps.bind (updGbls_modifies (.inr fun _ => rfl) (.inr fun _ => rfl) (.inl hc)
    (.inr fun _ => rfl) (.inr fun _ => rfl) (.inr fun _ => rfl)) fun _ => Keeps.require _ _

lemma cmdttyStore_modifies (id : CmdId) (c : Byte) (hS : .ring id ∈ S) :
    Keeps (Modifies S) (cmdttyStore id c) := by
  refine Keeps.bind (updRing_modifies hS (fun _ => rfl) (fun _ => rfl) (fun _ => rfl)
    (fun _ => rfl) fun _ => rfl) fun _ => Keeps.bind Keeps.get fun _ => Keeps.bind (Keeps.require _ _) fun _ => ?_
  exact updRing_modifies hS (fun _ => rfl) (fun _ => rfl) (fun _ => rfl) (fun _ => rfl) fun _ => rfl

lemma bcstWriteAll_modifies (buf : CStr) (hS : .oWrite .bcst ∈ S) :
    Keeps (Modifies S) (bcstWriteAll sys buf) :=
  Keeps.bind (ttyWriteBuf_modifies sys buf hS nofun) fun _ => Keeps.require _ _

lemma cmdttyCountOverflow_modifies (id : CmdId) (hS : .ring id ∈ S) :
    Keeps (Modifies S) (cmdttyCountOverflow id) :=
  Keeps.bind Keeps.get fun _ => Keeps.when fun _ => Keeps.bind (Keeps.require _ _) fun _ =>
    updRing_modifies hS (fun _ => rfl) (fun _ => rfl) (fun _ => rfl) (fun _ => rfl) fun _ => rfl

lemma cmdttyFlushBuf_modifies (id : CmdId) (i : Nat) (hr : .ring id ∈ S)
    (hw : .oWrite .bcst ∈ S) : Keeps (Modifies S) (cmdttyFlushBuf sys id i) := by
  have hwrite (buf : CStr) : Keeps (Modifies S) (bcstWriteAll sys buf) :=
    bcstWriteAll_modifies sys buf hw
  refine Keeps.bind Keeps.get fun w => Keeps.ite (fun _ => ?_) fun _ => ?_
  · refine Keeps.ite (fun _ => hwrite _) fun _ => ?_
    exact Keeps.bind (Keeps.require _ _) fun _ => Keeps.bind (hwrite _) fun _ => hwrite _
  · refine Keeps.bind (Keeps.when fun _ => hwrite _) fun _ => Keeps.bind (hwrite _) fun _ => ?_
    exact updRing_modifies hr (fun _ => rfl) (fun _ => rfl) (fun _ => rfl) (fun _ => rfl) fun _ => rfl

lemma cmdttyFlushLine_modifies (id : CmdId) (i : Nat) (hr : .ring id ∈ S)
    (hw : .oWrite .bcst ∈ S) : Keeps (Modifies S) (cmdttyFlushLine sys id i) := by
  refine Keeps.bind Keeps.get fun w =>
    Keeps.bind (Keeps.when fun _ => bcstWriteAll_modifies sys _ hw) fun _ => ?_
  refine Keeps.bind (cmdttyFlushBuf_modifies sys id i hr hw) fun _ => ?_
  exact updRing_modifies hr (fun _ => rfl) (fun _ => rfl) (fun _ => rfl) (fun _ => rfl) fun _ => rfl

lemma cmdttyBroadcast_modifies (id : CmdId) (i : Nat) (c : Byte) (hr : .ring id ∈ S)
    (hw : .oWrite .bcst ∈ S) : Keeps (Modifies S) (cmdttyBroadcast sys id i c) := by
  refine Keeps.bind Keeps.get fun w => Keeps.when fun _ => ?_
  refine Keeps.ite (fun _ => bcstWriteAll_modifies sys _ hw) fun _ => ?_
  exact Keeps.bind (cmdttyCountOverflow_modifies id hr) fun _ =>
    Keeps.when fun _ => cmdttyFlushLine_modifies sys id i hr hw

lemma cmdttyProcessOutput_modifies {id : CmdId} (rd : Read) (hS : outputParts id ⊆ S) :
    Keeps (Modifies S) (cmdttyProcessOutput sys id rd) := by
  have hr : .ring id ∈ S := hS (by simp [outputParts])
  refine Keeps.bind (ttyReadChar_modifies sys _ _ rd (hS (by simp [outputParts]))
    (hS (by simp [outputParts]))) fun nc => ?_
  refine Keeps.ite (fun _ => Keeps.throw _) fun _ => Keeps.ite (fun _ => ?_) fun _ => ?_
  · refine Keeps.bind Keeps.get fun w =>
      Keeps.bind (note_modifies (hS (by simp [outputParts, obsPart]))) fun _ => ?_
    refine Keeps.bind (cmdttyMatchReady_modifies id _ (hS (by simp [outputParts]))
      (hS (by simp [outputParts]))) fun _ => Keeps.bind Keeps.get fun w' => ?_
    refine Keeps.bind (cmdttyStore_modifies id _ hr) fun _ => ?_
    refine Keeps.bind (ttyWriteBuf_modifies sys _ (hS (by simp [outputParts])) nofun) fun _ =>
      Keeps.bind (Keeps.require _ _) fun _ => ?_
    exact Keeps.bind (cmdttyBroadcast_modifies sys id _ _ hr (hS (by simp [outputParts]))) fun _ =>
      Keeps.pure _
  · exact Keeps.bind Keeps.get fun _ => Keeps.bind (Keeps.require _ _) fun _ => Keeps.pure _

lemma cmdttyDrain_modifies {id : CmdId} (hS : outputParts id ⊆ S) :
    Keeps (Modifies S) (cmdttyDrain sys id) :=
  Keeps.bind Keeps.get fun _ =>
    Keeps.forM (fun _ => Keeps.discard (cmdttyProcessOutput_modifies sys _ hS)) _

/-! ## Processes -/

/-- The parts the start of `id` works on, and its stop but for the stop string. -/
def startParts (id : CmdId) : Set Part := {.kproc, .readycount, .ready id, .proc id, .oForked}

/-- The parts the start and the stop of `id` work on. -/
def procParts (id : CmdId) : Set Part := startParts id ∪ {.lastwrite id, .oWrite (.cmd id)}

lemma updProc_modifies {id : CmdId} {f : Cmd → Cmd} (hS : startParts id ⊆ S)
    (hspec : ∀ c, cmdSpecOf (f c) = cmdSpecOf c)
    (hring : ∀ c, ((f c).buf, (f c).bufn, (f c).bufstart, (f c).bufof) =
      (c.buf, c.bufn, c.bufstart, c.bufof))
    (hlast : ∀ c, (f c).lastwrite = c.lastwrite)
    (hpolicy : ∀ c, (f c).deleteonexit = c.deleteonexit) : Keeps (Modifies S) (updCmd id f) :=
  updCmd_modifies (.inr hspec) (.inr hring) (.inl (hS (by simp [startParts])))
    (.inl (hS (by simp [startParts]))) (.inr hlast) (.inr hpolicy)

/-- The parts of a start. -/
def forkParts (id : CmdId) : Set Part := {.kproc, .ready id, .proc id, .oForked}

lemma cmdStart_modifies_fork {sys : Sys} {id : CmdId} (d : Double) (hS : forkParts id ⊆ S) :
    Keeps (Modifies S) (cmdStart sys id d) := by
  have hk : .kproc ∈ S := hS (by simp [forkParts])
  refine Keeps.bind Keeps.get fun w => Keeps.bind (Keeps.require _ _) fun _ =>
    Keeps.ite (fun _ => Keeps.pure _) fun _ => ?_
  refine Keeps.bind ?_ fun pf => Keeps.bind (updCmd_modifies (.inr fun _ => rfl)
    (.inr fun _ => rfl) (.inl (hS (by simp [forkParts]))) (.inl (hS (by simp [forkParts])))
    (.inr fun _ => rfl) (.inr fun _ => rfl)) fun _ =>
    Keeps.bind (Keeps.discard (epollAdd_modifies _ _ hk)) fun _ => Keeps.pure _
  refine Keeps.bind Keeps.get fun w => Keeps.bind (Keeps.require _ _) fun _ =>
    Keeps.bind Keeps.get fun w' => Keeps.bind (openFd_modifies hk) fun fd => ?_
  exact Keeps.bind (updKern_modifies hk fun _ => ⟨rfl, rfl, rfl⟩) fun _ =>
    Keeps.bind (note_modifies (hS (by simp [forkParts, obsPart]))) fun _ =>
    Keeps.bind (Keeps.require _ _) fun _ => Keeps.pure _

lemma cmdStart_modifies {sys : Sys} {id : CmdId} (d : Double) (hS : startParts id ⊆ S) :
    Keeps (Modifies S) (cmdStart sys id d) := by
  refine cmdStart_modifies_fork d ?_
  rintro p (rfl | rfl | rfl | rfl) <;> exact hS (by simp [startParts])

lemma cmdResetReady_modifies {id : CmdId} (hS : startParts id ⊆ S) :
    Keeps (Modifies S) (cmdResetReady id) := by
  refine Keeps.bind Keeps.get fun w => Keeps.when fun _ => ?_
  refine Keeps.bind (updProc_modifies hS (fun _ => rfl) (fun _ => rfl) (fun _ => rfl) fun _ => rfl) fun _ => ?_
  refine Keeps.bind (updGbls_modifies (.inr fun g => ?_) (.inr fun g => ?_)
    (.inl (hS (by simp [startParts]))) (.inr fun g => ?_) (.inr fun g => ?_)
    (.inr fun g => ?_)) fun _ => Keeps.bind Keeps.get fun _ => Keeps.require _ _
  all_goals split <;> rfl

lemma cmdWriteChar_modifies {id : CmdId} (c : Byte) (hw : .oWrite (.cmd id) ∈ S)
    (hl : .lastwrite id ∈ S) : Keeps (Modifies S) (cmdWriteChar sys id c) := by
  refine ttyWriteBuf_modifies sys _ hw fun j hj => ?_
  cases hj
  exact hl

lemma cmdSendStopstr_modifies {id : CmdId} (hw : .oWrite (.cmd id) ∈ S)
    (hl : .lastwrite id ∈ S) : Keeps (Modifies S) (cmdSendStopstr sys id) := by
  refine Keeps.bind Keeps.get fun w => ?_
  split
  · exact Keeps.forM (fun c => Keeps.bind (cmdWriteChar_modifies sys c hw hl) fun _ =>
      Keeps.require _ _) _
  · exact Keeps.pure _

lemma killAndPoll_modifies (pid : Option Pid) (fd : Option Fd) (hk : .kproc ∈ S) :
    Keeps (Modifies S) (killAndPoll sys pid fd) :=
  Keeps.bind call_modifies fun _ => Keeps.bind Keeps.get fun _ =>
    Keeps.bind (Keeps.require _ _) fun _ => updKern_modifies hk fun _ => ⟨rfl, rfl, rfl⟩

lemma waitid_modifies (fd : Option Fd) (hk : .kproc ∈ S) : Keeps (Modifies S) (waitid fd) := by
  refine Keeps.bind Keeps.get fun w => ?_
  split
  · rename_i fd _ _ _
    exact Keeps.bind (updKern_modifies (f := (·.reap _)) hk fun _ => ⟨rfl, rfl, rfl⟩) fun _ =>
      Keeps.pure _
  · exact Keeps.throw _

lemma cmdTerminate_modifies {id : CmdId} (epoll : Bool) (hS : startParts id ⊆ S) :
    Keeps (Modifies S) (cmdTerminate sys id epoll) := by
  have hk : .kproc ∈ S := hS (by simp [startParts])
  refine Keeps.bind (cmdResetReady_modifies hS) fun _ => Keeps.bind Keeps.get fun w => ?_
  refine Keeps.bind (Keeps.when fun _ => epollDel_modifies _ hk) fun _ =>
    Keeps.bind (killAndPoll_modifies sys _ _ hk) fun _ =>
    Keeps.bind (waitid_modifies _ hk) fun es => Keeps.bind (close_modifies _ hk) fun _ => ?_
  exact updProc_modifies hS (fun _ => rfl) (fun _ => rfl) (fun _ => rfl) fun _ => rfl

lemma cmdKill_modifies {id : CmdId} (epoll : Bool) (hS : procParts id ⊆ S) :
    Keeps (Modifies S) (cmdKill sys id epoll) :=
  Keeps.bind (cmdSendStopstr_modifies sys (hS (by simp [procParts])) (hS (by simp [procParts])))
    fun _ =>
    cmdTerminate_modifies sys epoll fun _ hp => hS (.inl hp)

lemma cmdStopRefused_modifies (id : CmdId) (force : Bool) :
    Keeps (Modifies S) (cmdStopRefused id force) :=
  Keeps.ite (fun _ => Keeps.pure _) fun _ =>
    Keeps.bind (ttyIdle_modifies _) fun _ => Keeps.ite (fun _ => Keeps.pure _) fun _ =>
    Keeps.bind (ttyIdle_modifies _) fun _ => Keeps.pure _

lemma cmdStop_modifies {id : CmdId} (epoll force : Bool) (hS : procParts id ⊆ S) :
    Keeps (Modifies S) (cmdStop sys id epoll force) :=
  Keeps.bind Keeps.get fun _ => Keeps.ite (fun _ => Keeps.pure _) fun _ =>
    Keeps.bind (cmdStopRefused_modifies id force) fun _ => Keeps.ite (fun _ => Keeps.pure _) fun _ =>
    Keeps.bind (cmdKill_modifies sys epoll hS) fun _ => Keeps.pure _

lemma cmdPidReap_modifies {id : CmdId} (hS : startParts id ⊆ S) :
    Keeps (Modifies S) (cmdPidReap id) := by
  have hk : .kproc ∈ S := hS (by simp [startParts])
  refine Keeps.bind Keeps.get fun w => Keeps.bind (waitid_modifies _ hk) fun es =>
    Keeps.bind (updProc_modifies hS (fun _ => rfl) (fun _ => rfl) (fun _ => rfl) fun _ => rfl) fun _ => ?_
  exact Keeps.bind (epollDel_modifies _ hk) fun _ =>
    Keeps.bind (updProc_modifies hS (fun _ => rfl) (fun _ => rfl) (fun _ => rfl) fun _ => rfl) fun _ =>
    cmdResetReady_modifies hS

lemma cmdPidRestart_modifies {sys : Sys} {id : CmdId} (hS : startParts id ⊆ S) :
    Keeps (Modifies S) (cmdPidRestart sys id) := by
  refine Keeps.bind Keeps.get fun w => Keeps.when fun _ => ?_
  exact Keeps.bind (cmdStart_modifies _ hS) fun _ => Keeps.bind (Keeps.require _ _) fun _ =>
    updProc_modifies hS (fun _ => rfl) (fun _ => rfl) (fun _ => rfl) fun _ => rfl

/-! ## Input -/

lemma cmdRelay_modifies {id : CmdId} (c : Byte) (hw : .oWrite (.cmd id) ∈ S)
    (hl : .lastwrite id ∈ S) (ho : .oRelay ∈ S) : Keeps (Modifies S) (cmdRelay sys id c) :=
  Keeps.bind Keeps.get fun _ => Keeps.bind (cmdWriteChar_modifies sys c hw hl) fun _ =>
    Keeps.bind (Keeps.require _ _) fun _ => Keeps.bind Keeps.get fun _ => note_modifies ho

/-- The parts the input of one command works on. -/
def inputParts (id : CmdId) : Set Part :=
  procParts id ∪ {.nread (.clt id), .oRead (.clt id), .oRelay}

lemma cmdCltttyEvent_modifies {id : CmdId} (rd : Read) (hS : inputParts id ⊆ S) :
    Keeps (Modifies S) (cmdCltttyEvent sys id rd) := by
  refine Keeps.bind Keeps.get fun w => Keeps.when fun _ => ?_
  refine Keeps.bind (ttyReadChar_modifies sys _ _ rd (hS (by simp [inputParts]))
    (hS (by simp [inputParts]))) fun nc => Keeps.when fun _ => ?_
  refine Keeps.bind (cmdRelay_modifies sys _ (hS (by simp [inputParts, procParts]))
    (hS (by simp [inputParts, procParts])) (hS (by simp [inputParts]))) fun _ => ?_
  exact Keeps.discard (cmdStop_modifies sys _ _ fun p hp => hS (.inl hp))

/-- The parts the input of the broadcast tty works on. -/
def bcstInputParts : Set Part :=
  {.nread .bcst, .oRead .bcst, .oRelay} ∪ {p | ∃ id, p = .lastwrite id ∨ p = .oWrite (.cmd id)}

lemma GBLSCmdsWriteChar_modifies (c : Byte) (hS : bcstInputParts ⊆ S) :
    Keeps (Modifies S) (GBLSCmdsWriteChar sys c) :=
  Keeps.bind Keeps.get fun _ => Keeps.forM (fun id =>
    cmdRelay_modifies sys c (hS (.inr ⟨id, .inr rfl⟩)) (hS (.inr ⟨id, .inl rfl⟩))
      (hS (by simp [bcstInputParts]))) _

lemma live_modifies (id : CmdId) : Keeps (Modifies S) (live id) :=
  Keeps.bind Keeps.get fun _ => Keeps.require _ _

lemma bcstttyEvent_modifies (rd : Read) (hS : bcstInputParts ⊆ S) :
    Keeps (Modifies S) (bcstttyEvent sys rd) := by
  refine Keeps.bind Keeps.get fun w => Keeps.when fun _ => ?_
  split
  · exact Keeps.throw _
  · refine Keeps.bind (live_modifies _) fun _ => ?_
    exact Keeps.bind (ttyReadChar_modifies sys _ _ rd (hS (by simp [bcstInputParts]))
      (hS (by simp [bcstInputParts]))) fun nc =>
      Keeps.when fun _ => GBLSCmdsWriteChar_modifies sys _ hS

/-! ## Opens and closes -/

/-- The processes the notify handler of `r` starts or stops. -/
def nedParts (r : TtyRef) : Set Part :=
  match r with
  | .bcst => {p | ∃ id, p ∈ procParts id}
  | .clt id => procParts id
  | .mon => ∅
  | .cmd _ => ∅

lemma cmdCltttyNotify_modifies {id : CmdId} (mask : Mask) (hS : procParts id ⊆ S) :
    Keeps (Modifies S) (cmdCltttyNotify sys id mask) := by
  cases mask with
  | IN_OPEN => exact Keeps.discard (cmdStart_modifies _ fun _ hp => hS (.inl hp))
  | IN_CLOSE_WRITE => exact Keeps.discard (cmdStop_modifies sys _ _ hS)
  | IN_CLOSE_NOWRITE => exact Keeps.discard (cmdStop_modifies sys _ _ hS)

lemma bcstttyNotify_modifies (mask : Mask) (hS : ∀ id, procParts id ⊆ S) :
    Keeps (Modifies S) (bcstttyNotify sys mask) := by
  refine Keeps.bind Keeps.get fun w => ?_
  cases mask with
  | IN_OPEN => exact Keeps.forM (fun id =>
      Keeps.discard (cmdStart_modifies _ fun _ hp => hS id (.inl hp))) _
  | IN_CLOSE_WRITE => exact Keeps.forM (fun id => Keeps.discard (cmdStop_modifies sys _ _ (hS id))) _
  | IN_CLOSE_NOWRITE =>
    exact Keeps.forM (fun id => Keeps.discard (cmdStop_modifies sys _ _ (hS id))) _

lemma nedHdlr_modifies (r : TtyRef) (mask : Mask) (hS : nedParts r ⊆ S) :
    Keeps (Modifies S) (nedHdlr sys r mask) := by
  cases r with
  | bcst => exact bcstttyNotify_modifies sys mask fun id p hp => hS ⟨id, hp⟩
  | clt id => exact cmdCltttyNotify_modifies sys mask hS
  | mon => exact Keeps.pure _
  | cmd id => exact Keeps.pure _

lemma ttyNotifyEvent_modifies (r : TtyRef) {rd : Read} (hS : {.notify r, .opens r} ∪ nedParts r ⊆ S) :
    Keeps (Modifies S) (ttyNotifyEvent sys r rd) := by
  refine Keeps.bind Keeps.get fun w => Keeps.bind (Keeps.require _ _) fun _ => ?_
  split
  · exact Keeps.throw _
  · refine Keeps.bind (updPort_modifies (.inr fun _ => rfl) (.inr fun _ => rfl)
      (.inl (hS (by simp)))) fun _ => ?_
    exact Keeps.bind (updTty_modifies (.inr fun _ => rfl) (.inl (hS (by simp)))) fun _ =>
      nedHdlr_modifies sys r _ fun p hp => hS (.inr hp)

/-! ## The table -/

/-- A program that never returns keeps everything. -/
lemma exit_keeps {α : Type} {R : World → World → Prop} : Keeps R (exit sys : Act α) := by
  intro w a w' h
  obtain ⟨_, _, -, h⟩ := bind_eq_ok.mp h
  exact (throw_eq_ok.mp h).elim

/-- What is left when yar goes on after a removal: something in the table, or no `-x`. -/
lemma exitIfIdle_ok {w w' : World} {u : Unit} (h : exitIfIdle sys w = .ok u w') :
    w' = w ∧ (w.gbls.cmds = [] → w.gbls.exitonidle = false) := by
  replace h := get_bind_eq_ok.mp h
  rcases when_eq_ok.mp h with ⟨-, hexit⟩ | ⟨hn, rfl⟩
  · obtain ⟨_, w₁, -, hexit⟩ := bind_eq_ok.mp hexit
    exact (exit_keeps (R := fun _ _ => False) sys hexit).elim
  · exact ⟨rfl, by simpa using hn⟩

/-- The parts of a command and its ttys. -/
def cmdParts (id : CmdId) : Set Part :=
  ttyParts (.cmd id) ∪ ttyParts (.clt id) ∪
    {.spec id, .ring id, .ready id, .proc id, .lastwrite id, .policy id}

/-- The parts the cleanup of `id` works on. -/
def cleanupParts (id : CmdId) : Set Part := procParts id ∪ cmdParts id

/-- The parts of a command and its ttys that the cleanup resets. -/
def clearParts (id : CmdId) : Set Part :=
  ttyParts (.cmd id) ∪ ttyParts (.clt id) ∪
    {.spec id, .ring id, .proc id, .lastwrite id, .policy id}

lemma clearParts_subset (id : CmdId) : clearParts id ⊆ cmdParts id := by
  rintro p (hp | rfl | rfl | rfl | rfl | rfl)
  · exact .inl hp
  all_goals simp [cmdParts]

/-- `cmdCleanup` but for the stop. -/
lemma cmdClear_modifies {id : CmdId} (hS : clearParts id ⊆ S) : Keeps (Modifies S)
    (do ttyCleanup sys (.cmd id); ttyCleanup sys (.clt id); updCmd id cmdClear) := by
  refine Keeps.bind (ttyCleanup_modifies sys fun p hp => hS (.inl (.inl hp))) fun _ =>
    Keeps.bind (ttyCleanup_modifies sys fun p hp => hS (.inl (.inr hp))) fun _ => ?_
  exact updCmd_modifies (.inl (hS (.inr (by simp)))) (.inl (hS (.inr (by simp)))) (.inr fun _ => rfl)
    (.inl (hS (.inr (by simp)))) (.inl (hS (.inr (by simp)))) (.inl (hS (.inr (by simp))))

lemma cmdCleanup_modifies {id : CmdId} (hS : cleanupParts id ⊆ S) :
    Keeps (Modifies S) (cmdCleanup sys id) :=
  Keeps.bind (Keeps.discard (cmdStop_modifies sys _ _ fun _ hp => hS (.inl hp))) fun _ =>
    cmdClear_modifies sys fun _ hp => hS (.inr (clearParts_subset id hp))

/-- With no process there is nothing to stop. -/
lemma cmdCleanup_stopped {id : CmdId} {w w' : World} {u : Unit} (hpid : (w.heap id).pid = none)
    (h : cmdCleanup sys id w = .ok u w') :
    (do ttyCleanup sys (.cmd id); ttyCleanup sys (.clt id); updCmd id cmdClear) w = .ok u w' := by
  obtain ⟨_, w₁, hstop, hrest⟩ := bind_eq_ok.mp h
  obtain ⟨b, hstop⟩ := discard_eq_ok.mp hstop
  unfold cmdStop at hstop
  replace hstop := get_bind_eq_ok.mp hstop
  rw [if_pos (by simp [cmdIsRunning, hpid])] at hstop
  obtain ⟨-, rfl⟩ := pure_eq_ok.mp hstop
  exact hrest

lemma hashDel_modifies {id : CmdId} (ht : .table ∈ S) (ho : .oRemoved ∈ S) :
    Keeps (Modifies S) (hashDel id) :=
  Keeps.bind (updGbls_modifies (.inl ht) (.inr fun _ => rfl) (.inr fun _ => rfl)
    (.inr fun _ => rfl) (.inr fun _ => rfl) (.inr fun _ => rfl)) fun _ => note_modifies ho

/-- The parts the removal of `id` works on. -/
def removeParts (id : CmdId) : Set Part := cleanupParts id ∪ {.table, .oRemoved}

lemma exitIfIdle_modifies : Keeps (Modifies S) (exitIfIdle sys) := by
  intro w u w' h
  rw [(exitIfIdle_ok sys h).1]
  exact refl_of (Modifies S) w

lemma monDelFound_modifies {id : CmdId} (hS : removeParts id ⊆ S) :
    Keeps (Modifies S) (monDelFound sys id) :=
  Keeps.bind (cmdCleanup_modifies sys fun p hp => hS (.inl hp)) fun _ =>
    Keeps.bind (hashDel_modifies (hS (.inr (by simp))) (hS (.inr (by simp)))) fun _ =>
    exitIfIdle_modifies sys

lemma cmdPidRemove_modifies {id : CmdId} (hS : removeParts id ⊆ S) :
    Keeps (Modifies S) (cmdPidRemove sys id) := by
  refine Keeps.bind Keeps.get fun w => Keeps.bind Keeps.get fun w' =>
    Keeps.bind (cmdCleanup_modifies sys fun p hp => hS (.inl hp)) fun _ => ?_
  split
  · exact Keeps.bind (Keeps.require _ _) fun _ =>
      Keeps.bind (hashDel_modifies (hS (.inr (by simp))) (hS (.inr (by simp)))) fun _ =>
      exitIfIdle_modifies sys
  · exact Keeps.pure _

lemma cmdPidEvent_modifies {id : CmdId} (hS : removeParts id ⊆ S) :
    Keeps (Modifies S) (cmdPidEvent sys id) := by
  have hp : startParts id ⊆ S := fun p hp => hS (.inl (.inl (.inl hp)))
  exact Keeps.bind (cmdPidReap_modifies hp) fun _ => Keeps.bind Keeps.get fun _ =>
    Keeps.ite (fun _ => cmdPidRemove_modifies sys hS) fun _ => cmdPidRestart_modifies hp

/-! ## Additions -/

lemma cmdspecParse_modifies (cstr : CStr) : Keeps (Modifies S) (cmdspecParse sys cstr) := by
  refine Keeps.bind Keeps.get fun w => ?_
  dsimp only
  split
  · exact Keeps.pure _
  split
  · exact Keeps.pure _
  refine Keeps.bind (ttyNameTaken_modifies sys _) fun _ => Keeps.ite (fun _ => Keeps.pure _) fun _ => ?_
  split
  · exact Keeps.pure _
  split
  · exact Keeps.pure _
  split
  · exact Keeps.pure _
  exact Keeps.ite (fun _ => Keeps.pure _) fun _ => Keeps.pure _

lemma ttyInitLinked_modifies {r : TtyRef} (link : CStr) (ht : .tty r ∈ S) :
    Keeps (Modifies S) (ttyInitLinked r link) :=
  Keeps.bind Keeps.get fun _ => ttyInit_modifies _ _ _ _ _ ht

/-- The parts `cmdInit` fills in. -/
def initParts (id : CmdId) : Set Part :=
  {.spec id, .ring id, .ready id, .proc id, .lastwrite id, .policy id, .tty (.cmd id), .tty (.clt id)}

lemma initParts_subset (id : CmdId) : initParts id ⊆ cmdParts id := by
  rintro p (rfl | rfl | rfl | rfl | rfl | rfl | rfl | rfl) <;> simp [cmdParts, ttyParts]

lemma cmdInit_modifies {id : CmdId} (name cmdline : CStr) (delay : Double)
    (ttylink log : Option CStr) (hS : initParts id ⊆ S) :
    Keeps (Modifies S) (cmdInit id name cmdline delay ttylink log) := by
  have hmem {p : Part} (hp : p ∈ initParts id) : p ∈ S := hS hp
  refine Keeps.bind (Keeps.require _ _) fun _ => Keeps.bind Keeps.get fun w => ?_
  refine Keeps.bind (updCmd_modifies (.inl (hmem (by simp [initParts]))) (.inl (hmem (by simp [initParts])))
    (.inl (hmem (by simp [initParts]))) (.inl (hmem (by simp [initParts])))
    (.inl (hmem (by simp [initParts]))) (.inl (hmem (by simp [initParts])))) fun _ => ?_
  refine Keeps.bind (ttyInit_modifies _ _ _ _ _ (hmem (by simp [initParts]))) fun _ => ?_
  exact ttyInitLinked_modifies _ (hmem (by simp [initParts]))

lemma cmdCreate_modifies {id : CmdId} (hS : ttyParts (.cmd id) ∪ ttyParts (.clt id) ⊆ S) :
    Keeps (Modifies S) (cmdCreate sys id) :=
  Keeps.bind (ttyCreate_modifies sys fun _ hp => hS (.inr hp)) fun _ =>
    Keeps.ite (fun _ => ttyCreate_modifies sys fun _ hp => hS (.inl hp)) fun _ => Keeps.pure _

lemma updSlowest_modifies (id : CmdId) (delay : Double) (hS : .slowest ∈ S) :
    Keeps (Modifies S) (updSlowest id delay) := by
  have hupd : Keeps (Modifies S) (updGbls fun g => { g with slowestcmd := some id }) :=
    updGbls_modifies (.inr fun _ => rfl) (.inl hS) (.inr fun _ => rfl) (.inr fun _ => rfl)
      (.inr fun _ => rfl) (.inr fun _ => rfl)
  refine Keeps.bind Keeps.get fun w => ?_
  split
  · exact Keeps.bind (live_modifies _) fun _ => Keeps.when fun _ => hupd
  · exact hupd

/-- The new command gets the next address. -/
lemma mallocCmd_ok {w w' : World} {id : CmdId} (h : mallocCmd w = .ok id w') :
    id = w.brk ∧ w' = { w with brk := w.brk + 1 } := by
  have hset := get_bind_eq_ok.mp h
  obtain ⟨_, w₁, hset, hret⟩ := bind_eq_ok.mp hset
  obtain ⟨rfl, rfl⟩ := pure_eq_ok.mp hret
  exact ⟨rfl, set_eq_ok.mp hset⟩

/-- The parts the creation of the broadcast tty works on. -/
def bcstParts : Set Part := ttyParts .bcst ∪ {.flags}

lemma bcstttyCreate_modifies (hS : bcstParts ⊆ S) : Keeps (Modifies S) (bcstttyCreate sys) :=
  Keeps.bind Keeps.get fun _ => Keeps.when fun _ =>
    Keeps.bind (ttyCreate_modifies sys fun _ hp => hS (.inl hp)) fun _ =>
    Keeps.when fun _ => exit_keeps sys

lemma bcstttyRegisterEvents_modifies {sys : Sys} (hk : .kproc ∈ S) :
    Keeps (Modifies S) (bcstttyRegisterEvents sys) :=
  Keeps.bind Keeps.get fun _ => Keeps.when fun _ => Keeps.discard (ttyRegisterEvents_modifies _ hk)

/-- The registration of both ttys keeps what that of one tty keeps. -/
lemma cmdRegisterttyEvents_keeps {sys : Sys} {R : World → World → Prop} [Std.Refl R] [IsTrans World R]
    {id : CmdId} (hclt : Keeps R (ttyRegisterEvents sys (.clt id)))
    (hcmd : Keeps R (ttyRegisterEvents sys (.cmd id))) : Keeps R (cmdRegisterttyEvents sys id) :=
  Keeps.bind hclt fun _ => Keeps.bind (Keeps.require _ _) fun _ => Keeps.bind hcmd fun _ => Keeps.require _ _

lemma cmdRegisterttyEvents_modifies {sys : Sys} (id : CmdId) (hk : .kproc ∈ S) :
    Keeps (Modifies S) (cmdRegisterttyEvents sys id) :=
  cmdRegisterttyEvents_keeps (ttyRegisterEvents_modifies _ hk) (ttyRegisterEvents_modifies _ hk)

lemma monAddRegister_modifies (id : CmdId) (hp : startParts id ⊆ S) (hb : bcstParts ⊆ S) :
    Keeps (Modifies S) (monAddRegister sys id) := by
  have hk : .kproc ∈ S := hp (by simp [startParts])
  refine Keeps.bind (cmdRegisterttyEvents_modifies _ hk) fun _ => Keeps.bind Keeps.get fun w =>
    Keeps.ite (fun _ => ?_) fun _ => Keeps.when fun _ => Keeps.discard (cmdStart_modifies _ hp)
  exact Keeps.bind (updGbls_modifies (.inr fun _ => rfl) (.inr fun _ => rfl) (.inr fun _ => rfl)
    (.inr fun _ => rfl) (.inr fun _ => rfl) (.inl (hb (.inr (by simp))))) fun _ =>
    Keeps.bind (bcstttyCreate_modifies sys hb) fun _ => bcstttyRegisterEvents_modifies hk

/-! ## The other monitor commands -/

lemma monDrain_modifies (hS : ∀ id, outputParts id ⊆ S) : Keeps (Modifies S) (monDrain sys) := by
  have hupd (id : CmdId) :
      Keeps (Modifies S) (updCmd id fun this => { this with bufstart := 0, bufn := 0 }) :=
    updRing_modifies (hS id (by simp [outputParts])) (fun _ => rfl) (fun _ => rfl) (fun _ => rfl)
      (fun _ => rfl) fun _ => rfl
  exact Keeps.bind Keeps.get fun _ => Keeps.forM (fun id =>
    Keeps.bind (cmdttyDrain_modifies sys (hS id)) fun _ => hupd id) _

/-- The parts `monIdleExit` works on. -/
def idleExitParts : Set Part := {.flags, .delonexit} ∪ {p | ∃ id, p = .policy id}

lemma monIdleExit_modifies (hf : .flags ∈ S) (hd : .delonexit ∈ S) (hs : ∀ id, .policy id ∈ S) :
    Keeps (Modifies S) (monIdleExit sys) := by
  refine Keeps.bind (updGbls_modifies (.inr fun _ => rfl) (.inr fun _ => rfl) (.inr fun _ => rfl)
    (.inr fun _ => rfl) (.inl hd) (.inl hf)) fun _ =>
    Keeps.bind Keeps.get fun w => Keeps.ite (fun _ => ?_) fun _ => ?_
  · intro w u w' h
    obtain ⟨_, w₁, -, hexit⟩ := bind_eq_ok.mp h
    exact (exit_keeps (R := fun _ _ => False) sys hexit).elim
  · have hupd (id : CmdId) :
        Keeps (Modifies S) (updCmd id fun this => { this with deleteonexit := true }) :=
      updCmd_modifies (.inr fun _ => rfl) (.inr fun _ => rfl) (.inr fun _ => rfl)
        (.inr fun _ => rfl) (.inr fun _ => rfl) (.inl (hs id))
    exact Keeps.forM hupd _

lemma flags_modifies {f : Globals → Globals} (hf : .flags ∈ S)
    (h : ∀ g, (f g).cmds = g.cmds ∧ (f g).slowestcmd = g.slowestcmd ∧
      (f g).cmdsreadycnt = g.cmdsreadycnt ∧ globalsOptions (f g) = globalsOptions g ∧
      (f g).cmddelonexit = g.cmddelonexit) : Keeps (Modifies S) (updGbls f) :=
  updGbls_modifies (.inr fun g => (h g).1) (.inr fun g => (h g).2.1) (.inr fun g => (h g).2.2.1)
    (.inr fun g => (h g).2.2.2.1) (.inr fun g => (h g).2.2.2.2) (.inl hf)

end Yar.Proofs
