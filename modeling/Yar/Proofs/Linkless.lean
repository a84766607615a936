import Yar.Lib.Outcomes
import Yar.Proofs.Descriptors

/-!
# Functions that leave the links alone

Most of yar touches neither the directory nor the names its ttys are linked under, whether a function
returns or ends early. `LinkView` is what the results on links look at.
-/

namespace Yar.Proofs

open Program

/-- The observation is about a link. -/
def Obs.isLink : Obs → Bool
  | .symlink _ _ => true
  | .unlink _ _ _ => true
  | _ => false

/-- What the globals say about the mount point and the log. -/
def premises (g : Globals) : Bool × Option CStr × Bool × Option CStr × Bool :=
  (g.fsmkdir, g.fsmntpt, g.logfile, g.logpath, g.keeplog)

/-- The directory, and what has been done to it so far. -/
structure DirView where
  names : CStr → Option Node
  mounts : List CStr
  links : List Obs
  premises : Bool × Option CStr × Bool × Option CStr × Bool

def dirView (w : World) : DirView :=
  ⟨w.kern.names, w.kern.mounts, w.trace.filter Obs.isLink, premises w.gbls⟩

/-- The directory as well as the names and the ttys there are. -/
structure LinkView where
  dir : DirView
  ttyNames : TtyRef → List CStr
  bcstflg : Bool
  cmds : List CmdId

def linkView (w : World) : LinkView :=
  ⟨dirView w, fun r => ttyNames (w.ttys r), w.gbls.bcstflg, w.gbls.cmds⟩

abbrev Linkless {α : Type} (m : Act α) : Prop := Fixes linkView m

variable {w w' : World}

lemma linkView_dir (h : linkView w' = linkView w) : dirView w' = dirView w := congrArg LinkView.dir h

lemma linkView_ttyNames (h : linkView w' = linkView w) (r : TtyRef) :
    ttyNames (w'.ttys r) = ttyNames (w.ttys r) :=
  congrFun (congrArg LinkView.ttyNames h) r

lemma linkView_bcstflg (h : linkView w' = linkView w) : w'.gbls.bcstflg = w.gbls.bcstflg :=
  congrArg LinkView.bcstflg h

lemma linkView_cmds (h : linkView w' = linkView w) : w'.gbls.cmds = w.gbls.cmds :=
  congrArg LinkView.cmds h

variable (sys : Sys)

/-! ## Parts of the state -/

instance (id : CmdId) (f : Cmd → Cmd) : Linkless (updCmd id f) := Fixes.modifyState fun _ => rfl
instance (r : TtyRef) (f : Port → Port) : Linkless (updPort r f) := Fixes.modifyState fun _ => rfl

lemma linkView_updTty {r : TtyRef} {f : Tty → Tty} (hf : ttyNames (f (w.ttys r)) = ttyNames (w.ttys r)) :
    linkView (w.updTty r f) = linkView w := by
  have hnames : (fun r' => ttyNames ((w.updTty r f).ttys r')) = fun r' => ttyNames (w.ttys r') := by
    funext r'
    by_cases h : r' = r
    · subst h
      simp [World.updTty, hf]
    · simp [World.updTty, h]
  simp only [linkView, hnames]
  rfl

lemma updTty_linkless {r : TtyRef} {f : Tty → Tty} (hf : ∀ this, ttyNames (f this) = ttyNames this) :
    Linkless (updTty r f) :=
  Fixes.modifyState fun _ => linkView_updTty (hf _)

lemma updGbls_linkless {f : Globals → Globals}
    (hf : ∀ g, (f g).bcstflg = g.bcstflg ∧ (f g).cmds = g.cmds ∧ premises (f g) = premises g) :
    Linkless (updGbls f) := by
  refine Fixes.modifyState fun w => ?_
  simp only [linkView, dirView, hf w.gbls]

lemma updKern_linkless {f : Kernel → Kernel} (hf : ∀ k, (f k).names = k.names ∧ (f k).mounts = k.mounts) :
    Linkless (updKern f) := by
  refine Fixes.modifyState fun w => ?_
  simp only [linkView, dirView, hf w.kern]

lemma note_linkless {o : Obs} (ho : Obs.isLink o = false) : Linkless (note o) := by
  refine Fixes.modifyState fun w => ?_
  simp [linkView, dirView, ho]

instance (r : TtyRef) (c : Byte) : Linkless (note (.read r c)) := note_linkless rfl
instance (r : TtyRef) (buf : CStr) : Linkless (note (.write r buf)) := note_linkless rfl
instance (id : CmdId) (p : Pid) : Linkless (note (.forked id p)) := note_linkless rfl
instance (id : CmdId) (c : Byte) (t : Option Time) : Linkless (note (.relay id c t)) := note_linkless rfl

instance (id : CmdId) (name : CStr) (c : Byte) (pfx : Bool) : Linkless (note (.output id name c pfx)) :=
  note_linkless rfl

/-! ## The kernel -/

instance (id : CmdId) : Linkless (live id) := by unfold live; infer_instance
instance : Linkless call := ⟨fun _ => rfl⟩
instance : Linkless openFd := ⟨fun _ => rfl⟩

instance (fd : Option Fd) : Linkless (close fd) := by
  cases fd with
  | none => exact Fixes.pure _
  | some fd => exact updKern_linkless (f := (·.close fd)) fun _ => ⟨rfl, rfl⟩

instance (fd : Fd) (s : Source) : Linkless (epollAdd sys fd s) := by
  refine Fixes.ite inferInstance (Fixes.bind (updKern_linkless fun _ => ⟨rfl, rfl⟩) fun _ => inferInstance)

instance (fd : Option Fd) : Linkless (epollDel fd) := by
  refine Fixes.bind inferInstance fun w => Fixes.bind inferInstance fun _ => ?_
  exact updKern_linkless fun _ => ⟨rfl, rfl⟩

instance : Linkless (clock_gettime sys) := by unfold clock_gettime; infer_instance
instance (r : TtyRef) : Linkless (write sys r) := by unfold write; infer_instance
instance (path : CStr) : Linkless (access sys path) := by unfold access; infer_instance

instance (r : TtyRef) (rd : Read) : Linkless (read sys r rd) := by
  refine Fixes.bind inferInstance fun k => Fixes.bind inferInstance fun w => Fixes.ite inferInstance ?_
  split
  · infer_instance
  · infer_instance
  · infer_instance

instance (id : CmdId) (d : Double) : Linkless (fork sys id d) := by
  refine Fixes.bind inferInstance fun w => Fixes.bind inferInstance fun _ => Fixes.bind inferInstance fun w' =>
    Fixes.bind inferInstance fun fd => Fixes.bind (updKern_linkless fun _ => ⟨rfl, rfl⟩) fun _ => inferInstance

instance (fd : Option Fd) : Linkless (waitid fd) := by
  refine Fixes.bind inferInstance fun w => ?_
  split
  · exact Fixes.bind (updKern_linkless fun _ => ⟨rfl, rfl⟩) fun _ => inferInstance
  · infer_instance

instance (pid : Option Pid) (fd : Option Fd) : Linkless (killAndPoll sys pid fd) := by
  refine Fixes.bind inferInstance fun k => Fixes.bind inferInstance fun w =>
    Fixes.bind inferInstance fun _ => updKern_linkless fun _ => ⟨rfl, rfl⟩

/-! ## tty.c -/

instance (r : TtyRef) : Linkless (ttyIdle r) := by unfold ttyIdle; infer_instance

instance (name : Option CStr) : Linkless (ttyNameTaken sys name) := by
  cases name <;> unfold ttyNameTaken <;> infer_instance

instance : Linkless (acquire sys) := by unfold acquire; infer_instance
instance (t : Tty) : Linkless (ttyNamesTaken sys t) := by unfold ttyNamesTaken; infer_instance

instance (r : TtyRef) : Linkless (ttyWatch sys r) := by
  refine Fixes.bind inferInstance fun fd => ?_
  cases fd with
  | none => infer_instance
  | some fd =>
    have (f : Tty → Tty) (hf : ∀ this, ttyNames (f this) = ttyNames this) := updTty_linkless (r := r) hf
    refine Fixes.bind (this _ fun _ => rfl) fun _ => Fixes.bind inferInstance fun k =>
      Fixes.ite inferInstance (Fixes.bind (this _ fun _ => rfl) fun _ => inferInstance)

instance (r : TtyRef) : Linkless (ttyRegisterEvents sys r) := by
  refine Fixes.bind inferInstance fun w => ?_
  dsimp only
  split <;> infer_instance

instance (ts : Option CmdId) : Linkless (ttyMarkTime sys ts) := by
  cases ts <;> unfold ttyMarkTime <;> infer_instance

lemma ttyNames_of_static {this this' : Tty} (h : ttyStatic this' = ttyStatic this) :
    ttyNames this' = ttyNames this := by
  simp only [ttyStatic, Prod.mk.injEq] at h
  rw [ttyNames, ttyNames, h.1, h.2.1, h.2.2.1]

instance (r : TtyRef) (buf : CStr) (ts : Option CmdId) : Linkless (ttyWriteBuf sys r buf ts) := by
  refine Fixes.bind inferInstance fun _ => Fixes.get_bind fun w => ?_
  by_cases hopens : (w.ttys r).opens ≠ 0
  · rw [if_pos hopens]
    have hwrite : Linkless (do
        match ← write sys r with
        | .again => return -1
        | .error => throw .abort
        | .full => do
          ttyMarkTime sys ts
          updTty r fun this => { this with wbytes := this.wbytes + buf.length }
          return (buf.length : Int)) := by
      refine Fixes.bind inferInstance fun res => ?_
      cases res with
      | again => infer_instance
      | error => infer_instance
      | full =>
        exact Fixes.bind inferInstance fun _ => Fixes.bind (updTty_linkless fun _ => rfl) fun _ => inferInstance
    exact hwrite.fixes w
  · rw [if_neg hopens]
    cases hd : ttyDiscard (w.ttys r) buf with
    | none => rfl
    | some this' => exact linkView_updTty (f := fun _ => this') (ttyNames_of_static (ttyDiscard_static hd).1)

instance (r : TtyRef) (c : Byte) (ts : Option CmdId) : Linkless (ttyWriteChar sys r c ts) := by
  unfold ttyWriteChar; infer_instance

instance (r : TtyRef) (ts : Option Time) (delay : Double) (rd : Read) :
    Linkless (ttyReadChar sys r ts delay rd) := by
  refine Fixes.bind inferInstance fun now => Fixes.ite ?_ ?_
  · exact Fixes.bind (updTty_linkless fun _ => rfl) fun _ => inferInstance
  · refine Fixes.bind inferInstance fun nc => Fixes.ite ?_ inferInstance
    exact Fixes.bind (updTty_linkless fun _ => rfl) fun _ => inferInstance

/-! ## cmd.c -/

instance (id : CmdId) (c : Byte) : Linkless (cmdWriteChar sys id c) := by
  unfold cmdWriteChar; infer_instance

instance (id : CmdId) (c : Byte) : Linkless (cmdttyMatchReady id c) := by
  have : Linkless (updGbls fun g => { g with cmdsreadycnt := g.cmdsreadycnt + 1 }) :=
    updGbls_linkless fun _ => ⟨rfl, rfl, rfl⟩
  unfold cmdttyMatchReady
  infer_instance

instance (id : CmdId) (c : Byte) : Linkless (cmdttyStore id c) := by
  unfold cmdttyStore; infer_instance

instance (buf : CStr) : Linkless (bcstWriteAll sys buf) := by unfold bcstWriteAll; infer_instance
instance (id : CmdId) (i : Nat) : Linkless (cmdttyFlushBuf sys id i) := by
  unfold cmdttyFlushBuf; infer_instance

instance (id : CmdId) (i : Nat) : Linkless (cmdttyFlushLine sys id i) := by
  unfold cmdttyFlushLine; infer_instance

instance (id : CmdId) : Linkless (cmdttyCountOverflow id) := by
  unfold cmdttyCountOverflow; infer_instance

instance (id : CmdId) (i : Nat) (c : Byte) : Linkless (cmdttyBroadcast sys id i c) := by
  unfold cmdttyBroadcast; infer_instance

instance (id : CmdId) (rd : Read) : Linkless (cmdttyProcessOutput sys id rd) := by
  refine Fixes.bind inferInstance fun nc => Fixes.ite inferInstance (Fixes.ite ?_ inferInstance)
  exact Fixes.bind inferInstance fun w => Fixes.bind inferInstance fun _ =>
    Fixes.bind inferInstance fun _ => Fixes.bind inferInstance fun _ => inferInstance

instance (id : CmdId) : Linkless (cmdttyDrain sys id) := by unfold cmdttyDrain; infer_instance

instance (id : CmdId) (d : Double) : Linkless (cmdStart sys id d) := by
  unfold cmdStart cmdRegisterProcessEvents; infer_instance

instance : Linkless decCmdsReadyCnt := by
  refine updGbls_linkless fun g => ?_
  split <;> exact ⟨rfl, rfl, rfl⟩

instance (id : CmdId) : Linkless (cmdResetReady id) := by unfold cmdResetReady; infer_instance

instance (id : CmdId) : Linkless (cmdSendStopstr sys id) := by
  refine Fixes.bind inferInstance fun w => ?_
  have hchar (c : Byte) : Linkless (cmdStopChar sys id c) := by unfold cmdStopChar; infer_instance
  split <;> infer_instance

instance (id : CmdId) (force : Bool) : Linkless (cmdStopRefused id force) := by
  unfold cmdStopRefused; infer_instance

instance (id : CmdId) (epoll : Bool) : Linkless (cmdTerminate sys id epoll) := by
  unfold cmdTerminate; infer_instance

instance (id : CmdId) (epoll force : Bool) : Linkless (cmdStop sys id epoll force) := by
  unfold cmdStop cmdKill; infer_instance

instance (id : CmdId) (c : Byte) : Linkless (cmdRelay sys id c) := by unfold cmdRelay; infer_instance

instance (id : CmdId) (rd : Read) : Linkless (cmdCmdttyEvent sys id rd) := by
  unfold cmdCmdttyEvent; infer_instance

instance (id : CmdId) (rd : Read) : Linkless (cmdCltttyEvent sys id rd) := by
  unfold cmdCltttyEvent; infer_instance

instance (id : CmdId) (mask : Mask) : Linkless (cmdCltttyNotify sys id mask) := by
  cases mask <;> unfold cmdCltttyNotify <;> infer_instance

instance (id : CmdId) : Linkless (cmdRegisterttyEvents sys id) := by
  unfold cmdRegisterttyEvents; infer_instance

/-! ## main.c -/

instance (cstr : CStr) : Linkless (cmdspecParse sys cstr) := by
  refine Fixes.bind inferInstance fun w => ?_
  dsimp only
  split
  · infer_instance
  split
  · infer_instance
  refine Fixes.bind inferInstance fun _ => Fixes.ite inferInstance ?_
  split
  · infer_instance
  split
  · infer_instance
  split <;> infer_instance

instance : Linkless mallocCmd := ⟨fun _ => rfl⟩

instance (id : CmdId) (delay : Double) : Linkless (updSlowest id delay) := by
  have : Linkless (updGbls fun g => { g with slowestcmd := some id }) :=
    updGbls_linkless fun _ => ⟨rfl, rfl, rfl⟩
  refine Fixes.bind inferInstance fun w => ?_
  split <;> infer_instance

instance (rd : Read) : Linkless (bcstttyEvent sys rd) := by
  refine Fixes.bind inferInstance fun w => ?_
  have hwrite (c : Byte) : Linkless (GBLSCmdsWriteChar sys c) := by
    unfold GBLSCmdsWriteChar; infer_instance
  unfold when
  refine Fixes.ite ?_ inferInstance
  split <;> infer_instance

instance (r : TtyRef) (mask : Mask) : Linkless (nedHdlr sys r mask) := by
  cases r with
  | bcst =>
    refine Fixes.bind inferInstance fun w => ?_
    cases mask <;> infer_instance
  | mon => unfold nedHdlr; infer_instance
  | clt id => unfold nedHdlr; infer_instance
  | cmd id => unfold nedHdlr; infer_instance

instance (r : TtyRef) (rd : Read) : Linkless (ttyNotifyEvent sys r rd) := by
  refine Fixes.bind inferInstance fun w => Fixes.bind inferInstance fun _ => ?_
  split
  · infer_instance
  · exact Fixes.bind inferInstance fun _ => Fixes.bind (updTty_linkless fun _ => rfl) fun _ => inferInstance

instance (id : CmdId) : Linkless (cmdPidReap id) := by unfold cmdPidReap; infer_instance
instance (id : CmdId) : Linkless (cmdPidRestart sys id) := by unfold cmdPidRestart; infer_instance
instance : Linkless (monDrain sys) := by unfold monDrain; infer_instance
instance : Linkless (bcstttyRegisterEvents sys) := by unfold bcstttyRegisterEvents; infer_instance
instance (spec : CStr) : Linkless (argsParseSpec sys spec) := by
  refine Fixes.bind inferInstance fun spec => ?_
  cases spec <;> infer_instance

instance : Linkless (theLoopRegister sys) := by unfold theLoopRegister; infer_instance

/-! ## The directory alone -/

instance (priority := low) {α : Type} {m : Act α} [hm : Linkless m] : Fixes dirView m :=
  Fixes.comp LinkView.dir hm

instance (r : TtyRef) (f : Tty → Tty) : Fixes dirView (updTty r f) := Fixes.modifyState fun _ => rfl

instance (r : TtyRef) (l e₁ e₂ e₃ e₄ : Option CStr) : Fixes dirView (ttyInit r l e₁ e₂ e₃ e₄) := by
  unfold ttyInit; infer_instance

instance (r : TtyRef) (ttylink : CStr) : Fixes dirView (ttyInitLinked r ttylink) := by
  unfold ttyInitLinked; infer_instance

instance (id : CmdId) (name cmdline : CStr) (delay : Double) (ttylink log : Option CStr) :
    Fixes dirView (cmdInit id name cmdline delay ttylink log) := by
  unfold cmdInit; infer_instance

instance (id : CmdId) : Fixes dirView (hashDel id) := by
  have ho : Linkless (note (.removed id)) := note_linkless rfl
  have hg : Fixes dirView (updGbls fun g => { g with cmds := g.cmds.filter (· ≠ id) }) :=
    Fixes.modifyState fun _ => rfl
  unfold hashDel
  infer_instance

end Yar.Proofs
