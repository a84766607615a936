import Yar.Lib.Outcomes
import Yar.Proofs.Discards
import Yar.Proofs.IdleExit
import Yar.Proofs.Standing

/-!
# Calls that end yar

The assertions in what the handlers call: writes, starts, stops, removals, exits and the handling of output.
With what `Standing` says, a stop can fail only by a write that is not taken and by a pidfd that epoll has
not taken, and a cleanup only by the write.
-/

namespace Yar.Proofs

open Program

variable {sys : Sys} {w w' : World} {id : CmdId} {r : TtyRef} {buf : CStr} {S : Set Part}

/-! ## Writes -/

/-- The last thing yar has done is a write that was not taken: an open tty had no room or failed, or the
number of bytes discarded for a closed one has become negative as an `int`. -/
inductive WriteLost (sys : Sys) (w : World) : Prop where
  | refused (r : TtyRef) (buf : CStr) (t : List Obs) (hlast : w.trace = .write r buf :: t)
      (hopen : (w.ttys r).opens ≠ 0) (hwrite : sys.write (w.kern.calls - 1) ≠ .full)
  | overrun (r : TtyRef) (buf : CStr) (t : List Obs) (hlast : w.trace = .write r buf :: t)
      (hclosed : (w.ttys r).opens = 0) (hcount : 2 ^ 31 + 1024 < (w.ttys r).wdbytes % 2 ^ 32)

variable (sys) in
lemma write_runs (hd : (w.ttys r).dfd ≠ none) :
    write sys r w = .ok (sys.write w.kern.calls) { w with kern.calls := w.kern.calls + 1 } := by
  have hcall : call w = .ok w.kern.calls { w with kern.calls := w.kern.calls + 1 } := rfl
  refine (bind_of_ok hcall).trans ?_
  change EStateM.Result.ok (if (w.ttys r).dfd = none then WriteRes.error else _) _ = _
  rw [if_neg hd]

lemma ttyDiscard_none {this : Tty} (h : ttyDiscard this buf = none) :
    2 ^ 31 + 1024 < this.wdbytes % 2 ^ 32 := by
  by_contra hle
  rcases Nat.lt_or_ge (this.wdbytes % 2 ^ 32) 1024 with hlow | hhigh
  · obtain ⟨this', hsome, -⟩ := ttyDiscard_copies this buf hlow
    rw [h] at hsome
    cases hsome
  · obtain ⟨this', hsome, -⟩ := ttyDiscard_keeps this buf hhigh (Nat.not_lt.mp hle)
    rw [h] at hsome
    cases hsome

lemma ttyMarkTime_returns (ts : Option CmdId) (w : World) : Returns (ttyMarkTime sys ts) w := by
  cases ts with
  | none => exact .pure _ _
  | some id => exact ⟨_, _, rfl⟩

variable (sys buf) in
/-- A write takes everything, or it is lost. -/
lemma ttyWriteBuf_outcome (hd : (w.ttys r).dfd ≠ none) (ts : Option CmdId) :
    Ensures (ttyWriteBuf sys r buf ts) w (fun n w' => n ≠ buf.length → WriteLost sys w')
      fun _ w' => WriteLost sys w' := by
  refine .modify_bind (.get_bind (.ite (fun hopen => ?_) fun hclosed => ?_))
  · have hrun := write_runs sys (w := { w with trace := .write r buf :: w.trace }) hd
    refine .bind (Q := fun res w' => res = sys.write w.kern.calls ∧
      w' = { w with trace := .write r buf :: w.trace, kern.calls := w.kern.calls + 1 })
      (.of_eq hrun ⟨rfl, rfl⟩) ?_
    rintro res w₁ - ⟨hres, rfl⟩
    have hlost (hne : res ≠ .full) : WriteLost sys
        { w with trace := .write r buf :: w.trace, kern.calls := w.kern.calls + 1 } :=
      .refused r buf w.trace rfl hopen (hres ▸ hne)
    cases res with
    | again => exact .pure fun _ => hlost (by simp)
    | error => exact .throw (hlost (by simp))
    | full =>
      exact .bind (Q := fun _ _ => True) (.of_returns (ttyMarkTime_returns ts _) fun _ _ _ => trivial)
        fun _ _ _ _ => .modify_bind (.pure fun hne => (hne rfl).elim)
  · cases hdis : ttyDiscard (w.ttys r) buf with
    | none =>
      dsimp only
      exact .throw (.overrun r buf w.trace rfl (not_not.mp hclosed) (ttyDiscard_none hdis))
    | some this =>
      dsimp only
      exact .modify_bind (.pure fun hne => (hne rfl).elim)

/-- Every read returns. -/
lemma ttyReadChar_returns (ts : Option Time) (delay : Double) (rd : Read) (w : World) :
    Returns (ttyReadChar sys r ts delay rd) w := by
  have hread (w : World) : Returns (read sys r rd) w := by
    refine (call_returns w).bind fun k w₁ _ => .get_bind (.ite (fun _ => .pure _ _) fun _ => ?_)
    cases rd with
    | ready =>
      cases hq : (w₁.kern.ports r).domq with
      | nil => exact .pure _ _
      | cons c rest => exact ⟨_, _, rfl⟩
    | eof => exact .pure _ _
    | again => exact .pure _ _
    | fail => exact .pure _ _
  have hclock (w : World) : Returns (clock_gettime sys) w := ⟨_, _, rfl⟩
  refine (hclock w).bind fun now w₁ _ => .ite (fun _ => .bind (.modifyState _ _) fun _ _ _ => ?_) fun _ => ?_
  · exact .get_bind (.pure _ _)
  · exact (hread w₁).bind fun nc w₂ _ => .ite (fun _ => .bind (.modifyState _ _) fun _ _ _ => .pure _ _)
      fun _ => .pure _ _

/-- A write with an assertion that it is taken. -/
lemma write_fails {n : ℤ} (hlen : (buf.length : ℤ) = n) (hd : (w.ttys r).dfd ≠ none) (ts : Option CmdId) :
    FailsOnly (do let k ← ttyWriteBuf sys r buf ts; assert (k = n)) w fun _ => WriteLost sys := by
  have hwrite := ttyWriteBuf_outcome sys buf hd ts
  exact .bind hwrite.error fun k w₁ hk => .require fun hne => hwrite.ok k w₁ hk (hlen ▸ hne)

/-! ## Stops -/

lemma Modifies.dfd_ne (hm : Modifies S w w') (hS : .tty r ∉ S) (h : (w.ttys r).dfd ≠ none) :
    (w'.ttys r).dfd ≠ none := by
  have hsame := hm.same _ hS
  simp only [SameOn, ttyStatic, Prod.mk.injEq] at hsame
  rw [hsame.2.2.2.1]
  exact h

lemma cmdSendStopstr_fails (hd : (w.ttys (.cmd id)).dfd ≠ none) :
    FailsOnly (cmdSendStopstr sys id) w fun _ => WriteLost sys := by
  apply FailsOnly.get_bind
  cases (w.heap id).stopstr <|> w.gbls.stopstr with
  | none => exact .pure _
  | some cptr =>
    refine .forM (P := fun w => (w.ttys (.cmd id)).dfd ≠ none) (fun c _ w₁ u w₂ h hd => ?_)
      (fun c _ w₁ hd => write_fails rfl hd (some id)) hd
    obtain ⟨n, w₃, hwrite, h⟩ := bind_eq_ok.mp h
    rw [(require_eq_ok.mp h).2]
    have hm : Modifies {.lastwrite id, .oWrite (.cmd id)} w₁ w₃ :=
      cmdWriteChar_modifies sys c (by simp) (by simp) hwrite
    exact hm.dfd_ne (by simp) hd

/-- epoll has not taken the pidfd of the command. -/
def Unlisted (sys : Sys) (w : World) (id : CmdId) : Prop :=
  ∃ fd, (w.heap id).pidfd = some fd ∧ sys.deaf fd = true

lemma epollDel_fails {fd : Option Fd} {E : Halt → World → Prop}
    (h : (∃ e ∈ w.kern.interest, fd = some e.1) ∨ E .abort w) : FailsOnly (epollDel fd) w E :=
  .get_bind (.bind (.require fun hno => h.resolve_left hno) fun _ _ _ => .of_returns (.modifyState _ _))

/-- A running command is stopped, unless its pidfd is to be taken off epoll's list and is not there. -/
lemma cmdTerminate_fails (h : Standing sys w) (hid : id ∈ w.gbls.cmds) (hrun : (w.heap id).pid ≠ none)
    (epoll : Bool) : FailsOnly (cmdTerminate sys id epoll) w fun _ w' => epoll = true ∧ Unlisted sys w' id := by
  refine .bind_returns (cmdResetReady_returns h.counted hid) fun _ w₁ hreset => .get_bind ?_
  obtain ⟨hkern, hpid, hpidfd⟩ : w₁.kern = w.kern ∧ (w₁.heap id).pid = (w.heap id).pid ∧
      (w₁.heap id).pidfd = (w.heap id).pidfd := by
    rcases cmdResetReady_cases hreset with ⟨-, rfl⟩ | hr
    · exact ⟨rfl, rfl, rfl⟩
    · exact ⟨hr.ports, hr.modifies.pid_eq (by simp), hr.modifies.pidfd_eq (by simp)⟩
  obtain ⟨q, hq, hqpid, hqfd, hheard⟩ := h.child hid hrun
  dsimp only
  rw [hpid, hpidfd]
  refine .bind (.when fun hepoll => epollDel_fails ?_) fun _ w₂ hdel => .of_returns ?_
  · rw [hkern]
    exact hheard.imp_right fun hdeaf => ⟨hepoll, _, hpidfd.trans hqfd, hdeaf⟩
  have hprocs : w₂.kern.procs = w.kern.procs := by
    rw [← hkern]
    rcases when_eq_ok.mp hdel with ⟨-, hdel⟩ | ⟨-, rfl⟩
    · rw [epollDel_ok hdel]
    · rfl
  refine .bind (killAndPoll_returns ⟨q, hprocs ▸ hq, hqpid⟩) fun _ w₃ hkill => ?_
  obtain ⟨status, hprocs₃, -⟩ := killAndPoll_ok hkill
  rw [hprocs] at hprocs₃
  refine .bind ?_ fun es w₄ _ => (close_returns _ _).bind fun _ _ _ => .modifyState _ _
  have hkilled : killed (w.heap id).pidfd status q ∈ w₃.kern.procs :=
    hprocs₃ ▸ List.mem_map_of_mem hq
  refine waitid_returns hkilled ?_ fun p hp hfd => ?_
  · simp [killed, hqfd]
  · rw [hprocs₃] at hp
    obtain ⟨p', -, rfl⟩ := List.mem_map.mp hp
    by_cases hp' : (w.heap id).pidfd = some p'.pidfd
    · simp [killed, hp']
    · simp only [killed, if_neg hp'] at hfd
      exact (hp' hfd).elim

/-- The ttys whose idleness decides whether the command is stopped are client ttys. -/
def Linked (w : World) (id : CmdId) : Prop :=
  (w.ttys (.clt id)).link ≠ none ∧ (w.ttys .bcst).link ≠ none

lemma cmdStop_fails (h : Standing sys w) (hid : id ∈ w.gbls.cmds) {epoll force : Bool}
    (hlink : force = false → Linked w id) : FailsOnly (cmdStop sys id epoll force) w fun _ w' =>
      WriteLost sys w' ∨ epoll = true ∧ Unlisted sys w' id := by
  refine .get_bind (.ite (fun _ => .pure _) fun hrun => .bind_returns ?_ fun b w₁ hb => ?_)
  · have hidle {r : TtyRef} (hr : (w.ttys r).link ≠ none) : ttyIdle r w = .ok (w.ttyIdle r) w :=
      get_bind_eq_ok.mpr (require_bind_eq_ok.mpr ⟨hr, rfl⟩)
    refine .ite (fun _ => .pure _ _) fun hforce => ?_
    obtain ⟨hclt, hbcst⟩ := hlink (Bool.not_eq_true _ ▸ hforce)
    refine .bind ⟨_, _, hidle hclt⟩ fun a w₂ ha => ?_
    obtain ⟨-, rfl⟩ := ttyIdle_ok ha
    exact .ite (fun _ => .pure _ _) fun _ => .bind ⟨_, _, hidle hbcst⟩ fun _ _ _ => .pure _ _
  · obtain ⟨rfl, -⟩ := cmdStopRefused_ok hb
    refine .ite (fun _ => .pure _) fun _ => .bind ?_ fun _ _ _ => .pure _
    refine .bind ((cmdSendStopstr_fails (h.ends id hid).dfd).mono fun _ _ => .inl) fun _ w₂ hsend => ?_
    have hm : Modifies {.lastwrite id, .oWrite (.cmd id)} w₁ w₂ :=
      cmdSendStopstr_modifies sys (by simp) (by simp) hsend
    refine (cmdTerminate_fails (h.stopstr hsend) (hm.cmds_eq (by simp) ▸ hid) ?_ epoll).mono fun _ _ => .inr
    rw [hm.pid_eq (by simp)]
    exact (cmdIsRunning_iff _).mp (by simpa using hrun)

/-! ## Calls -/

/-- A call has failed: a write, `fork` or `pidfd_open`, the `EPOLL_CTL_DEL` of a pidfd that epoll had not
taken, or the `EPOLL_CTL_ADD` of a descriptor of a command's tty. -/
inductive CallLost (sys : Sys) (w : World) : Prop where
  | write (h : WriteLost sys w)
  | fork (h : sys.forkFails w.kern.nextPid = true)
  | pidfd_open (p : Pid) (hp : w.kern.nextPid = p + 1) (h : sys.pidfdFails p = true)
  | epollDel (id : CmdId) (h : Unlisted sys w id)
  | epollAdd (id : CmdId) (r : TtyRef) (fd : Fd) (hr : r = .clt id ∨ r = .cmd id)
      (hfd : (w.ttys r).dfd = some fd ∨ (w.ttys r).ifd = some fd) (h : sys.deaf fd = true)

lemma cmdStop_lost (h : Standing sys w) (hid : id ∈ w.gbls.cmds) {epoll force : Bool}
    (hlink : force = false → Linked w id) :
    FailsOnly (cmdStop sys id epoll force) w fun _ => CallLost sys :=
  (cmdStop_fails h hid hlink).mono fun _ _ hf => hf.elim .write fun hf => .epollDel id hf.2

lemma cmdStart_fails {d : Double} (h : BothEnds w (.cmd id)) :
    FailsOnly (cmdStart sys id d) w fun _ => CallLost sys := by
  refine .get_bind (.bind_returns (.require ⟨h.dfd, h.sfd⟩ _) fun _ w₁ hreq => .ite (fun _ => .pure _) fun _ => ?_)
  obtain ⟨-, rfl⟩ := require_eq_ok.mp hreq
  refine .bind ?_ fun pf w₂ _ => .of_returns (.bind (.modifyState _ _) fun _ w₃ _ =>
    .bind (.discard ⟨_, _, epollAdd_eq _ _ _ _⟩) fun _ _ _ => .pure _ _)
  refine .get_bind (.bind (.require fun hfork => .fork (by simpa using hfork)) fun _ w₂ hreq => ?_)
  obtain ⟨-, rfl⟩ := require_eq_ok.mp hreq
  refine .get_bind (.bind_returns ⟨_, _, rfl⟩ fun fd w₃ _ => .bind_returns (.modifyState _ _) fun _ w₄ h₄ =>
    .bind_returns (.modifyState _ _) fun _ w₅ h₅ => .bind (.require fun hpidfd => ?_) fun _ _ _ => .pure _)
  refine .pidfd_open _ ?_ (by simpa using hpidfd)
  rw [modify_eq_ok.mp h₅, modify_eq_ok.mp h₄]

/-! ## Removals and exits -/

/-- yar leaves, or a call has failed. -/
def Leaves (sys : Sys) (e : Halt) (w : World) : Prop := e = .exit ∨ CallLost sys w

lemma leaves_of_lost {α : Type} {m : Act α} (h : FailsOnly m w fun _ => WriteLost sys) :
    FailsOnly m w (Leaves sys) :=
  h.mono fun _ _ hlost => .inr (.write hlost)

lemma cmdCleanup_fails (h : Standing sys w) (hid : id ∈ w.gbls.cmds) :
    FailsOnly (cmdCleanup sys id) w fun _ => WriteLost sys := by
  refine .bind (.discard ((cmdStop_fails h hid (by simp)).mono fun _ _ hf => ?_)) fun _ w₁ _ =>
    .of_returns (clearCmd_returns w₁)
  exact hf.resolve_right (by simp)

lemma hashDel_returns (id : CmdId) (w : World) : Returns (hashDel id) w := ⟨_, _, rfl⟩

lemma removeAll_fails {ids : List CmdId} (h : Standing sys w) (hids : w.gbls.cmds = ids) :
    FailsOnly (ids.forM fun id => do cmdCleanup sys id; hashDel id) w fun _ => WriteLost sys := by
  induction ids generalizing w with
  | nil => exact .pure _
  | cons id ids ih =>
    have hid : id ∈ w.gbls.cmds := by simp [hids]
    refine .bind (.bind (cmdCleanup_fails h hid) fun _ w₁ _ => .of_returns (hashDel_returns id w₁))
      fun _ w₁ hr => ih (remove_standing h hid hr) ?_
    have hnd : (id :: ids).Nodup := hids ▸ h.nodup
    rw [(remove_ok hr).2, hids]
    simpa using fun j hj => ne_of_mem_of_not_mem hj (List.nodup_cons.mp hnd).1

lemma cleanup_fails (h : Standing sys w) : FailsOnly (cleanup sys) w fun _ => WriteLost sys := by
  refine .get_bind (.bind_returns (.when fun _ => ttyCleanup_returns w) fun _ w₁ hbcst => ?_)
  have h₁ : Standing sys w₁ ∧ w₁.gbls.cmds = w.gbls.cmds := by
    rcases when_eq_ok.mp hbcst with ⟨-, hbcst⟩ | ⟨-, rfl⟩
    · have hm : Modifies (ttyParts .bcst) w w₁ := ttyCleanup_modifies sys subset_rfl hbcst
      exact ⟨ttyCleanup_standing (by simp) h hbcst, hm.cmds_eq (by simp [ttyParts])⟩
    · exact ⟨h, rfl⟩
  exact .bind (removeAll_fails h₁.1 h₁.2) fun _ w₂ _ => .of_returns (cleanup_end_returns sys w₂)

lemma exit_fails {α : Type} (h : Standing sys w) : FailsOnly (exit sys : Act α) w (Leaves sys) :=
  .bind (leaves_of_lost (cleanup_fails h)) fun _ _ _ => .throw (.inl rfl)

/-- With nothing left in the table yar leaves without a write. -/
lemma exitIfIdle_fails : FailsOnly (exitIfIdle sys) w fun e _ => e = .exit := by
  refine .get_bind (.when fun hidle => .bind_returns ?_ fun _ w₁ h₁ => ?_)
  · exact cleanup_returns sys (List.length_eq_zero_iff.mp hidle.1)
  · exact .bind_returns (cleanup_returns sys (cleanup_cmds h₁)) fun _ _ _ => .throw rfl

lemma monDelFound_fails (h : Standing sys w) (hid : id ∈ w.gbls.cmds) :
    FailsOnly (monDelFound sys id) w (Leaves sys) :=
  .bind (leaves_of_lost (cmdCleanup_fails h hid)) fun _ w₁ _ => .bind_returns (hashDel_returns id w₁) fun _ _ _ =>
    exitIfIdle_fails.mono fun _ _ => .inl

/-! ## Output -/

/-- A write was lost, or one of the counts that go with the ring of a command is at its end. -/
inductive OutputLost (sys : Sys) (w : World) : Prop where
  | write (h : WriteLost sys w)
  | bufn (id : CmdId) (h : 2 ^ 64 ≤ (w.heap id).bufn + 1)
  | bufof (id : CmdId) (h : 2 ^ 31 ≤ (w.heap id).bufof + 1)

lemma bcstWriteAll_fails (hd : (w.ttys .bcst).dfd ≠ none) :
    FailsOnly (bcstWriteAll sys buf) w fun _ => WriteLost sys :=
  write_fails rfl hd none

variable (sys) in
lemma bcstWriteAll_dfd (buf : CStr) :
    Preserves (fun w => (w.ttys .bcst).dfd ≠ none) (bcstWriteAll sys buf) := by
  intro w u w' h hd
  have hm : Modifies {.oWrite .bcst} w w' := bcstWriteAll_modifies sys buf (by simp) h
  exact hm.dfd_ne (by simp) hd

lemma cmdttyFlushBuf_fails {i : ℕ} (hd : (w.ttys .bcst).dfd ≠ none) :
    FailsOnly (cmdttyFlushBuf sys id i) w fun _ => WriteLost sys := by
  apply FailsOnly.get_bind
  refine .ite (fun _ => .ite (fun _ => bcstWriteAll_fails hd) fun _ => ?_) fun _ => ?_
  · -- the start is an index into the buffer
    have hlt : cmdbufNtoI (w.heap id).bufstart < cmdbufSize := Nat.mod_lt _ (by decide)
    refine .bind_returns (Returns.require (by omega) w) fun _ w₁ h₁ => ?_
    rw [(require_eq_ok.mp h₁).2]
    exact .bind (bcstWriteAll_fails hd) fun _ w₂ h₂ => bcstWriteAll_fails (bcstWriteAll_dfd sys _ h₂ hd)
  · refine .bind (.when fun _ => bcstWriteAll_fails hd) fun _ w₁ h₁ => ?_
    have hd₁ : (w₁.ttys .bcst).dfd ≠ none := by
      rcases when_eq_ok.mp h₁ with ⟨-, h₁⟩ | ⟨-, rfl⟩
      · exact bcstWriteAll_dfd sys _ h₁ hd
      · exact hd
    exact .bind (bcstWriteAll_fails hd₁) fun _ w₂ _ => .of_returns (.modifyState _ _)

lemma cmdttyFlushLine_fails {i : ℕ} (hd : (w.ttys .bcst).dfd ≠ none) :
    FailsOnly (cmdttyFlushLine sys id i) w fun _ => WriteLost sys := by
  refine .get_bind (.bind (.when fun _ => bcstWriteAll_fails hd) fun _ w₁ h₁ => ?_)
  have hd₁ : (w₁.ttys .bcst).dfd ≠ none := by
    rcases when_eq_ok.mp h₁ with ⟨-, h₁⟩ | ⟨-, rfl⟩
    · exact bcstWriteAll_dfd sys _ h₁ hd
    · exact hd
  exact .bind (cmdttyFlushBuf_fails hd₁) fun _ w₂ _ => .of_returns (.modifyState _ _)

lemma cmdttyBroadcast_fails {i : ℕ} {c : Byte} (hd : w.gbls.bcstflg = true → (w.ttys .bcst).dfd ≠ none) :
    FailsOnly (cmdttyBroadcast sys id i c) w fun _ => OutputLost sys := by
  refine .get_bind (.when fun hflg => .ite (fun _ => ?_) fun _ => .bind ?_ fun _ w₁ h₁ => ?_)
  · exact (bcstWriteAll_fails (hd hflg)).mono fun _ _ => .write
  · refine .get_bind (.when fun _ => .bind (.require fun hof => ?_) fun _ _ _ => .of_returns (.modifyState _ _))
    exact .bufof id (Nat.not_lt.mp hof)
  · have hm : Modifies {.ring id} w w₁ := cmdttyCountOverflow_modifies id (by simp) h₁
    exact .when fun _ => (cmdttyFlushLine_fails (hm.dfd_ne (by simp) (hd hflg))).mono fun _ _ => .write

lemma cmdttyStore_fails {c : Byte} : FailsOnly (cmdttyStore id c) w fun _ => OutputLost sys := by
  refine .bind_returns (.modifyState _ _) fun _ w₁ _ => .get_bind (.bind (.require fun hn => ?_) fun _ _ _ => ?_)
  · exact .bufn id (Nat.not_lt.mp hn)
  · exact .of_returns (.modifyState _ _)

/-- The ttys that the output of the command is read from and written to. -/
structure Connected (w : World) (id : CmdId) : Prop where
  cmd : (w.ttys (.cmd id)).dfd ≠ none
  clt : (w.ttys (.clt id)).dfd ≠ none
  bcst : w.gbls.bcstflg = true → (w.ttys .bcst).dfd ≠ none

lemma Connected.frame (h : Connected w id) (hm : Modifies S w w') (hS : ∀ r, .tty r ∉ S)
    (hflg : .flags ∉ S) : Connected w' id := by
  refine ⟨hm.dfd_ne (hS _) h.cmd, hm.dfd_ne (hS _) h.clt, fun hon => hm.dfd_ne (hS _) (h.bcst ?_)⟩
  exact (congrArg Globals.bcstflg (hm.flags_eq hflg) :).symm.trans hon

/-- A byte is handled, or there is none. -/
lemma cmdttyProcessOutput_fails {ids : List CmdId} {rd : Read} (h : ReadyTable ids w) (hid : id ∈ ids)
    (hc : Connected w id) (hrd : rd = .ready ∨ rd = .again) :
    FailsOnly (cmdttyProcessOutput sys id rd) w fun _ => OutputLost sys := by
  have hnot : rd ≠ .eof ∧ rd ≠ .fail := by rcases hrd with rfl | rfl <;> simp
  refine .bind_returns (ttyReadChar_returns _ _ _ w) fun nc w₁ hread => ?_
  obtain ⟨n, c⟩ := nc
  have hm₁ := (ttyReadChar_cases hread).modifies
  have hc₁ : Connected w₁ id := hc.frame hm₁ (by simp) (by simp)
  cases ttyReadChar_cases hread with
  | delayed hearly => cases hearly
  | eof hearly hn hdfd hrd hm => exact (hnot.1 hrd).elim
  | failed hearly hn hfail hm hcalls =>
    rw [hn]
    exact .get_bind (.bind_returns (.require ⟨hnot.2, hc₁.cmd⟩ _) fun _ _ _ => .pure _)
  | got p rest hearly hn hdfd hrd hq hnread hm htrace hcalls =>
    rw [hn]
    refine .get_bind (.bind_returns (.modifyState _ _) fun _ w₂ hnote => ?_)
    have hm₂ : Modifies {.oOutput} w₁ w₂ := note_modifies (by simp [obsPart]) hnote
    have h₂ : ReadyTable ids w₂ := by
      refine (h.kept hm₁ ?_).kept hm₂ (by rintro p rfl; rfl)
      rintro p (rfl | rfl) <;> rfl
    refine .bind_returns ?_ fun _ w₃ hmatch => .get_bind ?_
    · obtain ⟨w', hw'⟩ := cmdttyMatchReady_returns h₂ hid c
      exact ⟨_, w', hw'⟩
    have hm₃ : Modifies {.ready id, .readycount} w₂ w₃ :=
      cmdttyMatchReady_modifies id c (by simp) (by simp) hmatch
    have hc₃ : Connected w₃ id :=
      (hc₁.frame hm₂ (by simp) (by simp)).frame hm₃ (by simp) (by simp)
    refine .bind cmdttyStore_fails fun _ w₄ hstore => ?_
    have hm₄ : Modifies {.ring id} w₃ w₄ := cmdttyStore_modifies id c (by simp) hstore
    have hc₄ : Connected w₄ id := hc₃.frame hm₄ (by simp) (by simp)
    have hwrite := ttyWriteBuf_outcome sys [c] hc₄.clt none
    refine .bind (fun e w' h => .write (hwrite.error e w' h)) fun n w₅ hw => ?_
    have hm₅ : Modifies {.oWrite (.clt id)} w₄ w₅ := ttyWriteBuf_modifies sys [c] (by simp) (by simp) hw
    refine .bind (.require fun hne => .write (hwrite.ok n w₅ hw hne)) fun _ w₆ hreq => ?_
    rw [(require_eq_ok.mp hreq).2]
    exact .bind (cmdttyBroadcast_fails (hc₄.frame hm₅ (by simp) (by simp)).bcst) fun _ _ _ => .pure _

end Yar.Proofs
