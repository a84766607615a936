import Yar.Proofs.Handlers

/-!
# Where yar leaves

A handler ends in `exit` nowhere but in the monitor commands and signals made for it, after the
last removal under `-x`, and where the broadcast tty cannot be created. `ExitFrom` gives the state
`cleanup` runs in then.
-/

namespace Yar.Proofs

open Program

variable (sys : Sys)

/-! ## Functions that do not exit -/

abbrev NoExit {α : Type} (m : Act α) : Prop := Avoids Halt.exit m

instance {α : Type} : NoExit (throw .abort : Act α) := Avoids.throw (by decide)
instance {α : Type} : NoExit (throw .ub : Act α) := Avoids.throw (by decide)
instance {p : Prop} [Decidable p] : NoExit (require .abort p) := Avoids.require (by decide)
instance {p : Prop} [Decidable p] : NoExit (require .ub p) := Avoids.require (by decide)

instance (id : CmdId) (f : Cmd → Cmd) : NoExit (updCmd id f) := by unfold updCmd; infer_instance
instance (r : TtyRef) (f : Tty → Tty) : NoExit (updTty r f) := by unfold updTty; infer_instance
instance (r : TtyRef) (f : Port → Port) : NoExit (updPort r f) := by unfold updPort; infer_instance
instance (f : Globals → Globals) : NoExit (updGbls f) := by unfold updGbls; infer_instance
instance (f : Kernel → Kernel) : NoExit (updKern f) := by unfold updKern; infer_instance
instance (o : Obs) : NoExit (note o) := by unfold note; infer_instance
instance (id : CmdId) : NoExit (live id) := by unfold live; infer_instance
instance : NoExit call := by unfold call; infer_instance
instance : NoExit openFd := by unfold openFd; infer_instance

instance (fd : Option Fd) : NoExit (close fd) := by
  cases fd <;> unfold close <;> infer_instance

instance (fd : Fd) (s : Source) : NoExit (epollAdd sys fd s) := by unfold epollAdd; infer_instance
instance (fd : Option Fd) : NoExit (epollDel fd) := by unfold epollDel; infer_instance
instance : NoExit (clock_gettime sys) := by unfold clock_gettime; infer_instance
instance (r : TtyRef) : NoExit (write sys r) := by unfold write; infer_instance
instance (path : CStr) : NoExit (access sys path) := by unfold access; infer_instance
instance (r : TtyRef) (path : CStr) : NoExit (symlink sys r path) := by
  unfold symlink; infer_instance

instance (r : TtyRef) (rd : Read) : NoExit (read sys r rd) := by
  refine Avoids.bind inferInstance fun k => Avoids.bind inferInstance fun w =>
    Avoids.ite inferInstance ?_
  split <;> infer_instance

instance (r : TtyRef) (path : CStr) : NoExit (unlink sys r path) := by
  refine Avoids.bind inferInstance fun w => ?_
  split <;> infer_instance

instance (id : CmdId) (d : Double) : NoExit (fork sys id d) := by unfold fork; infer_instance

instance (fd : Option Fd) : NoExit (waitid fd) := by
  refine Avoids.bind inferInstance fun w => ?_
  split <;> infer_instance

instance (pid : Option Pid) (fd : Option Fd) : NoExit (killAndPoll sys pid fd) := by
  unfold killAndPoll; infer_instance

instance (r : TtyRef) : NoExit (ttyIdle r) := by unfold ttyIdle; infer_instance

instance (r : TtyRef) (l e₁ e₂ e₃ e₄ : Option CStr) : NoExit (ttyInit r l e₁ e₂ e₃ e₄) := by
  unfold ttyInit; infer_instance

instance (r : TtyRef) (name : Option CStr) : NoExit (ttyUnlink sys r name) := by
  unfold ttyUnlink
  split <;> infer_instance

instance (r : TtyRef) : NoExit (ttyCleanup sys r) :=
  Avoids.bind inferInstance fun _ => Avoids.bind inferInstance fun _ => inferInstance

instance (name : Option CStr) : NoExit (ttyNameTaken sys name) := by
  cases name <;> unfold ttyNameTaken <;> infer_instance

instance (r : TtyRef) (name : Option CStr) : NoExit (ttySymlink sys r name) := by
  cases name <;> unfold ttySymlink <;> infer_instance

instance : NoExit (acquire sys) := by unfold acquire; infer_instance
instance (t : Tty) : NoExit (ttyNamesTaken sys t) := by unfold ttyNamesTaken; infer_instance
instance (r : TtyRef) (t : Tty) : NoExit (ttyLinks sys r t) := by unfold ttyLinks; infer_instance

instance (r : TtyRef) : NoExit (ttyWatch sys r) :=
  Avoids.bind inferInstance fun fd => by cases fd <;> infer_instance

instance (r : TtyRef) : NoExit (ttyBuild sys r) := by
  refine Avoids.bind inferInstance fun w => Avoids.bind inferInstance fun _ =>
    Avoids.bind inferInstance fun _ => Avoids.ite inferInstance (Avoids.bind inferInstance fun dfd => ?_)
  cases dfd with
  | none => infer_instance
  | some dfd =>
    refine Avoids.bind inferInstance fun _ => Avoids.bind inferInstance fun _ =>
      Avoids.bind inferInstance fun sfd => ?_
    cases sfd <;> infer_instance

instance (r : TtyRef) : NoExit (ttyCreate sys r) := by unfold ttyCreate; infer_instance

instance (r : TtyRef) : NoExit (ttyRegisterEvents sys r) := by
  refine Avoids.bind inferInstance fun w => ?_
  dsimp only
  split <;> infer_instance

instance (ts : Option CmdId) : NoExit (ttyMarkTime sys ts) := by
  cases ts <;> unfold ttyMarkTime <;> infer_instance

instance (r : TtyRef) (buf : CStr) (ts : Option CmdId) : NoExit (ttyWriteBuf sys r buf ts) := by
  refine Avoids.bind inferInstance fun _ => Avoids.bind inferInstance fun w =>
    Avoids.ite (Avoids.bind inferInstance fun res => ?_) ?_
  · cases res <;> infer_instance
  · split <;> infer_instance

instance (r : TtyRef) (c : Byte) (ts : Option CmdId) : NoExit (ttyWriteChar sys r c ts) := by
  unfold ttyWriteChar; infer_instance

instance (r : TtyRef) (ts : Option Time) (delay : Double) (rd : Read) :
    NoExit (ttyReadChar sys r ts delay rd) := by
  unfold ttyReadChar; infer_instance

/-! ## cmd.c -/

instance (id : CmdId) (c : Byte) : NoExit (cmdWriteChar sys id c) := by
  unfold cmdWriteChar; infer_instance

instance (id : CmdId) (c : Byte) : NoExit (cmdttyMatchReady id c) := by
  unfold cmdttyMatchReady; infer_instance

instance (id : CmdId) (c : Byte) : NoExit (cmdttyStore id c) := by
  unfold cmdttyStore; infer_instance

instance (buf : CStr) : NoExit (bcstWriteAll sys buf) := by unfold bcstWriteAll; infer_instance
instance (id : CmdId) (i : Nat) : NoExit (cmdttyFlushBuf sys id i) := by
  unfold cmdttyFlushBuf; infer_instance

instance (id : CmdId) (i : Nat) : NoExit (cmdttyFlushLine sys id i) := by
  unfold cmdttyFlushLine; infer_instance

instance (id : CmdId) : NoExit (cmdttyCountOverflow id) := by
  unfold cmdttyCountOverflow; infer_instance

instance (id : CmdId) (i : Nat) (c : Byte) : NoExit (cmdttyBroadcast sys id i c) := by
  unfold cmdttyBroadcast; infer_instance

instance (id : CmdId) (rd : Read) : NoExit (cmdttyProcessOutput sys id rd) := by
  refine Avoids.bind inferInstance fun nc => Avoids.ite inferInstance (Avoids.ite ?_ inferInstance)
  exact Avoids.bind inferInstance fun w => Avoids.bind inferInstance fun _ =>
    Avoids.bind inferInstance fun _ => Avoids.bind inferInstance fun _ => inferInstance

instance (id : CmdId) : NoExit (cmdttyDrain sys id) := by unfold cmdttyDrain; infer_instance

instance (id : CmdId) (d : Double) : NoExit (cmdStart sys id d) := by
  unfold cmdStart cmdRegisterProcessEvents; infer_instance

instance (id : CmdId) : NoExit (cmdResetReady id) := by
  unfold cmdResetReady decCmdsReadyCnt; infer_instance

instance (id : CmdId) : NoExit (cmdSendStopstr sys id) := by
  refine Avoids.bind inferInstance fun w => ?_
  have hchar (c : Byte) : NoExit (cmdStopChar sys id c) := by unfold cmdStopChar; infer_instance
  split <;> infer_instance

instance (id : CmdId) (force : Bool) : NoExit (cmdStopRefused id force) := by
  unfold cmdStopRefused; infer_instance

instance (id : CmdId) (epoll : Bool) : NoExit (cmdTerminate sys id epoll) := by
  unfold cmdTerminate; infer_instance

instance (id : CmdId) (epoll force : Bool) : NoExit (cmdStop sys id epoll force) := by
  unfold cmdStop cmdKill; infer_instance

instance (id : CmdId) (c : Byte) : NoExit (cmdRelay sys id c) := by unfold cmdRelay; infer_instance

instance (id : CmdId) (rd : Read) : NoExit (cmdCmdttyEvent sys id rd) := by
  unfold cmdCmdttyEvent; infer_instance

instance (id : CmdId) (rd : Read) : NoExit (cmdCltttyEvent sys id rd) := by
  unfold cmdCltttyEvent; infer_instance

instance (id : CmdId) (mask : Mask) : NoExit (cmdCltttyNotify sys id mask) := by
  cases mask <;> unfold cmdCltttyNotify <;> infer_instance

instance (id : CmdId) (name cmdline : CStr) (delay : Double) (ttylink log : Option CStr) :
    NoExit (cmdInit id name cmdline delay ttylink log) := by
  unfold cmdInit ttyInitLinked; infer_instance

instance (id : CmdId) : NoExit (cmdCreate sys id) := by unfold cmdCreate; infer_instance
instance (id : CmdId) : NoExit (cmdRegisterttyEvents sys id) := by
  unfold cmdRegisterttyEvents; infer_instance

instance (id : CmdId) : NoExit (cmdCleanup sys id) := by unfold cmdCleanup; infer_instance

/-! ## main.c -/

instance (id : CmdId) : NoExit (hashDel id) := by unfold hashDel; infer_instance
instance (path : CStr) : NoExit (rmdir sys path) := by unfold rmdir; infer_instance
instance (path : CStr) : NoExit (remove sys path) := by unfold remove; infer_instance

instance : NoExit (fsCleanup sys) := by
  refine Avoids.bind inferInstance fun w => ?_
  dsimp only
  split
  · unfold fuse_session_unmount; infer_instance
  · infer_instance

instance : NoExit (logCleanup sys) := by
  refine Avoids.bind inferInstance fun w => ?_
  dsimp only
  split <;> infer_instance

instance : NoExit (cleanup sys) :=
  Avoids.bind inferInstance fun _ => Avoids.bind inferInstance fun _ => Avoids.bind inferInstance fun _ =>
    Avoids.bind inferInstance fun _ => Avoids.bind inferInstance fun _ => inferInstance

instance (cstr : CStr) : NoExit (cmdspecParse sys cstr) := by
  refine Avoids.bind inferInstance fun w => ?_
  dsimp only
  split
  · infer_instance
  split
  · infer_instance
  refine Avoids.bind inferInstance fun _ => Avoids.ite inferInstance ?_
  split
  · infer_instance
  split
  · infer_instance
  split <;> infer_instance

instance (id : CmdId) (delay : Double) : NoExit (updSlowest id delay) := by
  refine Avoids.bind inferInstance fun w => ?_
  split <;> infer_instance

instance (spec : CmdSpec) : NoExit (GBLSAddNew sys spec) := by
  unfold GBLSAddNew mallocCmd; infer_instance

instance (cstr : CStr) : NoExit (GBLSAddCmd sys cstr) :=
  Avoids.bind inferInstance fun spec => by cases spec <;> infer_instance

instance (rd : Read) : NoExit (bcstttyEvent sys rd) := by
  refine Avoids.bind inferInstance fun w => ?_
  have hwrite (c : Byte) : NoExit (GBLSCmdsWriteChar sys c) := by
    unfold GBLSCmdsWriteChar; infer_instance
  unfold when
  refine Avoids.ite ?_ inferInstance
  split <;> infer_instance

instance (r : TtyRef) (mask : Mask) : NoExit (nedHdlr sys r mask) := by
  cases r with
  | bcst =>
    refine Avoids.bind inferInstance fun w => ?_
    cases mask <;> infer_instance
  | mon => unfold nedHdlr; infer_instance
  | clt id => unfold nedHdlr; infer_instance
  | cmd id => unfold nedHdlr; infer_instance

instance (r : TtyRef) (rd : Read) : NoExit (ttyNotifyEvent sys r rd) := by
  refine Avoids.bind inferInstance fun w => Avoids.bind inferInstance fun _ => ?_
  split <;> infer_instance

instance (id : CmdId) : NoExit (cmdPidReap id) := by unfold cmdPidReap; infer_instance
instance (id : CmdId) : NoExit (cmdPidRestart sys id) := by unfold cmdPidRestart; infer_instance
instance : NoExit (monDrain sys) := by unfold monDrain; infer_instance
instance : NoExit (bcstttyRegisterEvents sys) := by unfold bcstttyRegisterEvents; infer_instance

/-! ## Where the exits are -/

variable {sys} {s : Source} {x : Answer} {w w' w₁ : World}

/-- The end of a handler that is left from: the cleanup of the state `w`, made once or twice. -/
def Left (sys : Sys) (w w' : World) : Prop :=
  ∃ w₁, cleanup sys w = .ok () w₁ ∧ (w' = w₁ ∨ cleanup sys w₁ = .ok () w')

lemma cleanup_error {α : Type} {m : Act α} (h : (cleanup sys >>= fun _ => m) w = .error .exit w') :
    ∃ w₁, cleanup sys w = .ok () w₁ ∧ m w₁ = .error .exit w' := by
  rcases bind_eq_error.mp h with h | ⟨⟨⟩, w₁, hclean, h⟩
  · exact (Avoids.avoids _ _ h).elim
  · exact ⟨w₁, hclean, h⟩

lemma exit_left {α : Type} (h : (exit sys : Act α) w = .error .exit w') :
    cleanup sys w = .ok () w' := by
  obtain ⟨w₁, hclean, h⟩ := cleanup_error h
  change EStateM.Result.error Halt.exit w₁ = _ at h
  injection h with _ hw
  rw [hclean, hw]

/-- The state in which handling `s` in `w` goes on to `exit`. -/
inductive ExitFrom (sys : Sys) (s : Source) (x : Answer) (w : World) : World → Prop where
  | now : ExitFrom sys s x w w
  | idleExit (hw : w.gbls.cmds = []) :
      ExitFrom sys s x w { w with gbls.exitonidle := true, gbls.cmddelonexit := true }
  | del (id : CmdId) (w₁ : World) (hid : id ∈ w.gbls.cmds) (hempty : w₁.gbls.cmds = [])
      (h : (do cmdCleanup sys id; hashDel id) w = .ok () w₁) : ExitFrom sys s x w w₁
  | pid (id : CmdId) (w₁ w₂ : World) (hid : id ∈ w.gbls.cmds) (hempty : w₂.gbls.cmds = [])
      (hreap : cmdPidReap id w = .ok () w₁)
      (h : (do cmdCleanup sys id; hashDel id) w₁ = .ok () w₂) : ExitFrom sys s x w w₂
  | bcst (cstr : CStr) (id : CmdId) (w₁ w₂ w₃ : World) (hadd : GBLSAddCmd sys cstr w = .ok (some id) w₁)
      (hreg : cmdRegisterttyEvents sys id w₁ = .ok () w₂) (hflg : w₂.gbls.bcstflg = false)
      (hlen : w₂.gbls.cmds.length > 1)
      (h : ttyCreate sys .bcst { w₂ with gbls.bcstflg := true } = .ok false w₃) :
      ExitFrom sys s x w w₃

/-- An error that comes from the second part of a program. -/
lemma error_of_bind {α β : Type} {m : Act α} {f : α → Act β} [hm : NoExit m]
    (h : (m >>= f) w = .error .exit w') : ∃ a w₁, m w = .ok a w₁ ∧ f a w₁ = .error .exit w' :=
  (bind_eq_error.mp h).resolve_left (hm.avoids _ _)

lemma exitIfIdle_error (h : exitIfIdle sys w = .error .exit w') :
    w.gbls.cmds = [] ∧ Left sys w w' := by
  replace h := get_bind_eq_error.mp h
  obtain ⟨⟨hempty, -⟩, h⟩ := when_eq_error.mp h
  obtain ⟨w₁, hclean, h⟩ := cleanup_error h
  exact ⟨List.length_eq_zero_iff.mp hempty, w₁, hclean, .inr (exit_left h)⟩

lemma remove_error {id : CmdId} (h : (do cmdCleanup sys id; hashDel id; exitIfIdle sys) w =
    .error .exit w') : ∃ w₁, (do cmdCleanup sys id; hashDel id) w = .ok () w₁ ∧
      w₁.gbls.cmds = [] ∧ Left sys w₁ w' := by
  obtain ⟨_, w₁, hclean, h⟩ := error_of_bind h
  obtain ⟨_, w₂, hdel, h⟩ := error_of_bind h
  obtain ⟨hempty, hleft⟩ := exitIfIdle_error h
  exact ⟨w₂, bind_eq_ok.mpr ⟨_, w₁, hclean, hdel⟩, hempty, hleft⟩

lemma bcstttyCreate_error (h : bcstttyCreate sys w = .error .exit w') :
    ∃ w₁, ttyCreate sys .bcst w = .ok false w₁ ∧ Left sys w₁ w' := by
  replace h := get_bind_eq_error.mp h
  obtain ⟨-, h⟩ := when_eq_error.mp h
  obtain ⟨b, w₁, hcreate, h⟩ := error_of_bind h
  obtain ⟨rfl, h⟩ := when_eq_error.mp h
  exact ⟨w₁, hcreate, w', exit_left h, .inl rfl⟩

lemma monAddRegister_error {id : CmdId} (h : monAddRegister sys id w = .error .exit w') :
    ∃ w₂ w₃, cmdRegisterttyEvents sys id w = .ok () w₂ ∧ w₂.gbls.bcstflg = false ∧
      w₂.gbls.cmds.length > 1 ∧
      ttyCreate sys .bcst { w₂ with gbls.bcstflg := true } = .ok false w₃ ∧ Left sys w₃ w' := by
  obtain ⟨_, w₂, hreg, h⟩ := error_of_bind h
  replace h := get_bind_eq_error.mp h
  by_cases hnew : w₂.gbls.bcstflg = false ∧ w₂.gbls.cmds.length > 1
  · rw [if_pos hnew] at h
    replace h := modify_bind_eq_error.mp h
    rcases bind_eq_error.mp h with h | ⟨_, w₄, -, h⟩
    · obtain ⟨w₃, hcreate, hleft⟩ := bcstttyCreate_error h
      exact ⟨w₂, w₃, hreg, hnew.1, hnew.2, hcreate, hleft⟩
    · exact (Avoids.avoids _ _ h).elim
  · rw [if_neg hnew] at h
    exact (Avoids.avoids _ _ h).elim

lemma monRun_exit {m : MonCmd} {args : Option CStr} (h : monRun sys m args w = .error .exit w') :
    ∃ w₁, ExitFrom sys s x w w₁ ∧ Left sys w₁ w' := by
  have noexit (m : Act Unit) [hm : NoExit m] (h : m w = .error .exit w') :
      ∃ w₁, ExitFrom sys s x w w₁ ∧ Left sys w₁ w' := (hm.avoids _ _ h).elim
  cases m with
  | monExit => exact ⟨w, .now, w', exit_left h, .inl rfl⟩
  | monDel =>
    replace h := get_bind_eq_error.mp h
    cases args with
    | none => exact noexit (pure ()) h
    | some name =>
      dsimp only at h
      cases hf : w.hashFind name with
      | none =>
        rw [hf] at h
        exact noexit (pure ()) h
      | some id =>
        rw [hf] at h
        obtain ⟨w₁, hrun, hempty, hleft⟩ := remove_error h
        exact ⟨w₁, .del id w₁ (List.mem_of_find?_eq_some hf) hempty hrun, hleft⟩
  | monAdd =>
    cases args with
    | none => exact noexit (pure ()) h
    | some cstr =>
      unfold monRun at h
      rw [monAdd_some] at h
      obtain ⟨r, w₁, hadd, h⟩ := error_of_bind h
      cases r with
      | none => exact (Avoids.avoids (e := Halt.exit) (m := (pure () : Act Unit)) _ _ h).elim
      | some id =>
        obtain ⟨w₂, w₃, hreg, hflg, hlen, hcreate, hleft⟩ := monAddRegister_error h
        exact ⟨w₃, .bcst cstr id w₁ w₂ w₃ hadd hreg hflg hlen hcreate, hleft⟩
  | monIdleExit =>
    replace h := modify_bind_eq_error.mp h
    replace h := get_bind_eq_error.mp h
    split at h
    · obtain ⟨w₁, hclean, h⟩ := cleanup_error h
      exact ⟨_, .idleExit (List.length_eq_zero_iff.mp ‹_›), w₁, hclean, .inr (exit_left h)⟩
    · exact (Avoids.avoids _ _ h).elim
  | monHelp => exact noexit (pure ()) h
  | monList => exact noexit (pure ()) h
  | monDrain => exact noexit (monDrain sys) h
  | monToggleRestart =>
    unfold monRun at h
    exact noexit _ h
  | monToggleLB =>
    unfold monRun at h
    exact noexit _ h
  | monTogglePrefix =>
    unfold monRun at h
    exact noexit _ h
  | monVerboseInc =>
    unfold monRun at h
    exact noexit _ h
  | monVerboseDec =>
    unfold monRun at h
    exact noexit _ h
  | monToggleSilent =>
    unfold monRun at h
    exact noexit _ h

lemma cmdPidEvent_exit {id : CmdId} (hid : id ∈ w.gbls.cmds)
    (h : cmdPidEvent sys id w = .error .exit w') :
    ∃ w₁, ExitFrom sys s x w w₁ ∧ Left sys w₁ w' := by
  obtain ⟨_, w₁, hreap, h⟩ := error_of_bind h
  replace h := get_bind_eq_error.mp h
  split at h
  · replace h := get_bind_eq_error.mp h
    replace h := get_bind_eq_error.mp h
    obtain ⟨_, w₂, hclean, h⟩ := error_of_bind h
    cases hf : w₁.hashFind (w₁.heap id).name with
    | none =>
      rw [hf] at h
      exact (Avoids.avoids (e := Halt.exit) (m := (pure () : Act Unit)) _ _ h).elim
    | some cmd =>
      rw [hf] at h
      obtain ⟨_, w₃, hreq, hdel⟩ := error_of_bind h
      obtain ⟨rfl, rfl⟩ := require_eq_ok.mp hreq
      have hrest : (do cmdCleanup sys cmd; hashDel cmd; exitIfIdle sys) w₁ = .error .exit w' :=
        bind_eq_error.mpr (.inr ⟨_, w₃, hclean, hdel⟩)
      obtain ⟨w₄, hrun, hempty, hleft⟩ := remove_error hrest
      exact ⟨w₄, .pid cmd w₁ w₄ hid hempty hreap hrun, hleft⟩
  · exact (Avoids.avoids _ _ h).elim

theorem hdlr_exit (h : hdlr sys s x w = .error .exit w') :
    ∃ w₁, ExitFrom sys s x w w₁ ∧ Left sys w₁ w' := by
  have noexit (m : Act Unit) [hm : NoExit m] (h : m w = .error .exit w') :
      ∃ w₁, ExitFrom sys s x w w₁ ∧ Left sys w₁ w' := (hm.avoids _ _ h).elim
  cases s with
  | dom r =>
    cases r with
    | bcst => exact noexit (bcstttyEvent sys x.rd) h
    | mon =>
      obtain ⟨_, w₁, hread, hline⟩ := error_of_bind h
      obtain ⟨-, rfl⟩ := require_eq_ok.mp hread
      cases hx : x.line with
      | none =>
        rw [hx] at hline
        exact noexit (pure ()) hline
      | some line =>
        rw [hx] at hline
        simp only [monProcess] at hline
        cases hl : monLookup line with
        | none =>
          rw [hl] at hline
          exact noexit (pure ()) hline
        | some ma =>
          rw [hl] at hline
          exact monRun_exit hline
    | clt id => exact noexit (do live id; cmdCltttyEvent sys id x.rd) h
    | cmd id => exact noexit (do live id; cmdCmdttyEvent sys id x.rd) h
  | ifd r =>
    cases r with
    | bcst => exact noexit (ttyNotifyEvent sys .bcst x.rd) h
    | mon => exact noexit (ttyNotifyEvent sys .mon x.rd) h
    | clt id => exact noexit (do live id; ttyNotifyEvent sys (.clt id) x.rd) h
    | cmd id => exact noexit (do live id; ttyNotifyEvent sys (.cmd id) x.rd) h
  | pidfd id fd =>
    obtain ⟨_, w₁, hlive, h⟩ := error_of_bind h
    obtain ⟨hid, hw⟩ := live_ok (m := pure ()) (bind_eq_ok.mpr ⟨_, w₁, hlive, rfl⟩)
    rw [(pure_eq_ok.mp hw).2] at h
    exact cmdPidEvent_exit hid h
  | sig =>
    have hexit (h : (exit sys : Act Unit) w = .error .exit w') :
        ∃ w₁, ExitFrom sys .sig x w w₁ ∧ Left sys w₁ w' := ⟨w, .now, w', exit_left h, .inl rfl⟩
    simp only [hdlr] at h
    cases hsig : x.signo with
    | SIGQUIT =>
      rw [hsig] at h
      exact noexit (pure ()) h
    | _ =>
      rw [hsig] at h
      exact hexit h
  | fs => exact noexit (pure ()) h

end Yar.Proofs
