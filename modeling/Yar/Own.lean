import Yar.Fs
import Yar.Lib.Reach

/-!
# What yar owns

The fields of `globals_t` and of the objects in it that hold something to be given back: memory,
descriptors, streams, directory entries, children, the mount. Each such field gets its value from a
`strdup`, a `malloc` or a call of its own, so what it holds is named by the field. Giving it back is
recorded, also where it has been given back before: that is where C leaves the rest undefined. What
the outside decides is an argument: whether a creation succeeds, and which commands take the stop string.
-/

namespace Yar

open Program Transition

/-- The strings of `globals_t`. -/
inductive GblsStr where
  | logdir | logpath | readystr | stopstr | bcstttylink | monttylinkdir | fsmntptdir | cwd
  deriving DecidableEq

/-- The strings of `tty_t`: `link`, and `src` and `dst` of the two extra links. -/
inductive TtyStr where
  | link | src1 | dst1 | src2 | dst2
  deriving DecidableEq

inductive TtyFd where
  | ifd | dfd | sfd
  deriving DecidableEq

/-- Something owned, by the field that holds it: what a string points to, a stream (`logfile`,
`fileptr`), the log itself, a directory entry, a descriptor, a `cmd_t`, a child, and the parts of
`fs_t`. -/
inductive Res where
  | str (f : GblsStr)
  | logfile
  | log
  | ttyStr (r : TtyRef) (f : TtyStr)
  | ttyFd (r : TtyRef) (f : TtyFd)
  | entry (r : TtyRef) (f : TtyStr)
  | cmd (id : CmdId)
  | cmdstr (id : CmdId)
  | bcstprefixstr (id : CmdId)
  | child (id : CmdId)
  | pidfd (id : CmdId)
  | fileptr
  | sfd
  | mount
  | fuse_se
  | fuse_args
  | fuse_buf
  | mntptDir
  | mntpt
  | ino_table
  deriving DecidableEq

/-- The fields of `cmd_t` that own something, less its ttys. `name`, `cmdline` and `log` point into
`cmdstr`. -/
structure OwnCmd where
  cmdstr : Option CStr := none
  bcstprefix : Option CStr := none
  stopstr : Option CStr := none
  pid : Option Pid := none
  pidfd : Option Fd := none

/-- `globals_t` as far as it owns something. `logfile` and `fuse_buf` tell whether these pointers are
set, `mounted` is the session's own record of the mount. -/
@[ext]
structure Own where
  str : GblsStr → Option CStr := fun _ => none
  logfile : Bool := false
  keeplog : Bool := false
  bcstflg : Bool := false
  ttys : TtyRef → Tty := fun _ => {}
  fileptr : Option Fd := none
  sfd : Option Fd := none
  cmds : List CmdId := []
  heap : CmdId → OwnCmd := fun _ => {}
  brk : CmdId := 0
  fs : Fs := {}
  fuse_se : Bool := false
  mounted : Bool := false
  fuse_args : List CStr := []
  fuse_buf : Bool := false
  nextFd : Fd := 0
  nextPid : Pid := 0
  /-- newest first -/
  released : List Res := []

namespace Own

abbrev OwnAct := EStateM Halt Own

def release (x : Res) : OwnAct Unit := modify fun s => { s with released := x :: s.released }

/-- `if (p) free(p)`, `if (fd != -1) close(fd)` -/
def releaseSet {α : Type} (p : Option α) (x : Res) : OwnAct Unit :=
  match p with
  | some _ => release x
  | none => pure ()

def setStr (f : GblsStr) (p : Option CStr) : OwnAct Unit :=
  modify fun s => { s with str := Function.update s.str f p }

def updTty (r : TtyRef) (f : Tty → Tty) : OwnAct Unit :=
  modify fun s => { s with ttys := Function.update s.ttys r (f (s.ttys r)) }

def updCmd (id : CmdId) (f : OwnCmd → OwnCmd) : OwnAct Unit :=
  modify fun s => { s with heap := Function.update s.heap id (f (s.heap id)) }

def openFd : OwnAct Fd := do
  let s ← get
  set { s with nextFd := s.nextFd + 1 }
  return s.nextFd

/-- A function of fs.c on the file system that is part of `globals_t`. -/
def onFs {α : Type} (m : Fs.FsAct α) : OwnAct α := do
  let s ← get
  match m s.fs with
  | .ok a fs => do
    set { s with fs := fs }
    return a
  | .error e _ => throw e

/-! ## Cleanup of a tty -/

/-- One of the three names: its entry is unlinked unless it is empty, then it is freed. -/
def ttyCleanupName (r : TtyRef) (f : TtyStr) (name : Option CStr) : OwnAct Unit :=
  match name with
  | some path => do
    when (path ≠ []) (release (.entry r f))
    release (.ttyStr r f)
  | none => pure ()

def ttyCleanup (r : TtyRef) : OwnAct Unit := do
  let this := (← get).ttys r
  releaseSet this.ifd (.ttyFd r .ifd)
  releaseSet this.dfd (.ttyFd r .dfd)
  releaseSet this.sfd (.ttyFd r .sfd)
  ttyCleanupName r .link this.link
  ttyCleanupName r .src1 this.extralink1.src
  releaseSet this.extralink1.dst (.ttyStr r .dst1)
  ttyCleanupName r .src2 this.extralink2.src
  releaseSet this.extralink2.dst (.ttyStr r .dst2)
  updTty r fun _ => {}

/-! ## Cleanup of a command -/

section
variable (accepts : CmdId → Bool)

/-- `cmdStop` once it is not refused: the stop string is written, where a write that is not taken
runs into `NYI`, and the child is killed and reaped. -/
def cmdStop (id : CmdId) : OwnAct Unit := do
  let s ← get
  let this := s.heap id
  when (this.pid ≠ none) do
    require .abort ((this.stopstr <|> s.str .stopstr) = none ∨ accepts id = true)
    release (.child id)
    release (.pidfd id)
    updCmd id fun this => { this with pidfd := none, pid := none }

def cmdCleanup (id : CmdId) : OwnAct Unit := do
  cmdStop accepts id
  ttyCleanup (.cmd id)
  ttyCleanup (.clt id)
  let this := (← get).heap id
  releaseSet this.bcstprefix (.bcstprefixstr id)
  releaseSet this.cmdstr (.cmdstr id)
  updCmd id fun this => { this with pidfd := none, pid := none, cmdstr := none, bcstprefix := none }

/-- `HASH_DEL(GBLS.cmds, cmd); free(cmd)` -/
def hashDel (id : CmdId) : OwnAct Unit := do
  modify fun s => { s with cmds := s.cmds.filter (· ≠ id) }
  release (.cmd id)

end

/-! ## cleanup -/

/-- `fuse_session_unmount`, which does nothing for a session that is not mounted. -/
def fuse_session_unmount : OwnAct Unit := do
  when ((← get).mounted = true) do
    release .mount
    modify fun s => { s with mounted := false }

/-- `fuse_opt_free_args`, and the new `FUSE_ARGS_INIT` -/
def fuse_opt_free_args : OwnAct Unit := do
  when ((← get).fuse_args ≠ []) do
    release .fuse_args
    modify fun s => { s with fuse_args := [] }

/-- The last part of `fsCleanup`. The items on the inodes are in the trace of the file system. -/
def fsCleanupInodes : OwnAct Unit := do
  when ((← get).fs.ino_num ≠ 0) do
    onFs Fs.fsCleanupTable
    release .ino_table

def fsCleanup : OwnAct Unit := do
  let s ← get
  when (s.fs.mntpt ≠ none ∧ s.fs.mkdir = true) do
    when (s.fuse_se = true) do
      fuse_session_unmount
      release .fuse_se
      modify fun s => { s with fuse_se := false }
      fuse_opt_free_args
    -- the pointer keeps its value
    when (s.fuse_buf = true) (release .fuse_buf)
    release .mntptDir
    release .mntpt
    modify fun s => { s with fs.mntpt := none }
    fsCleanupInodes

/-- The stream is dropped, not closed. -/
def monCleanup : OwnAct Unit := do
  ttyCleanup .mon
  modify fun s => { s with fileptr := none }

def sigprocCleanup : OwnAct Unit := do
  releaseSet (← get).sfd .sfd
  modify fun s => { s with sfd := none }

/-- `if (GBLS.f) { free(GBLS.f); GBLS.f = NULL; }` -/
def freeStr (f : GblsStr) : OwnAct Unit := do
  let p := (← get).str f
  releaseSet p (.str f)
  setStr f none

/-- The log, its directory and its path. With a directory it is the path that is reset. -/
def logCleanup : OwnAct Unit := do
  let s ← get
  when (s.logfile = true) do
    release .logfile
    when (s.keeplog = false) (release .log)
    modify fun s => { s with logfile := false }
  when (s.str .logdir ≠ none) do
    release (.str .logdir)
    setStr .logpath none
  freeStr .logpath

def cleanup (accepts : CmdId → Bool) : OwnAct Unit := do
  when ((← get).bcstflg = true) (ttyCleanup .bcst)
  (← get).cmds.forM fun id => do
    cmdCleanup accepts id
    hashDel id
  fsCleanup
  monCleanup
  logCleanup
  freeStr .readystr
  freeStr .stopstr
  freeStr .bcstttylink
  freeStr .monttylinkdir
  freeStr .fsmntptdir
  freeStr .cwd
  sigprocCleanup

/-! ## What comes to be owned -/

def ttyInit (r : TtyRef) (ttylink extra1src extra1dest extra2src extra2dest : Option CStr) :
    OwnAct Unit := do
  require .abort (((← get).ttys r).link = none)
  updTty r fun this =>
    { this with
      link := ttylink
      extralink1 := ⟨extra1src, extra1dest⟩
      extralink2 := ⟨extra2src, extra2dest⟩
      dfd := none, sfd := none, ifd := none, iwd := none }

/-- `ttyCreate`, with what a creation that fails takes and gives back on its way left out. -/
def ttyCreate (r : TtyRef) (creates : Bool) : OwnAct Bool := do
  require .abort (((← get).ttys r).dfd = none)
  if creates then do
    let dfd ← openFd
    let sfd ← openFd
    let ifd ← openFd
    updTty r fun this => { this with dfd := some dfd, sfd := some sfd, ifd := some ifd, iwd := some ifd }
    return true
  else do
    ttyCleanup r
    return false

/-- The `ttyInit` of a client or broadcast tty. -/
def ttyInitLinked (r : TtyRef) (ttylink : CStr) : OwnAct Unit := do
  let s ← get
  ttyInit r (some ttylink) (some (ttylink ++ bytes ".mon")) (s.ttys .mon).link
    (some (ttylink ++ bytes ".fs")) s.fs.mntpt

def mallocCmd : OwnAct CmdId := do
  let s ← get
  set { s with brk := s.brk + 1 }
  return s.brk

def cmdInit (id : CmdId) (name cmdstr ttylink : CStr) : OwnAct Unit := do
  updCmd id fun _ => { cmdstr := some cmdstr, bcstprefix := some (name ++ bytes ": ") }
  ttyInit (.cmd id) none none none none none
  ttyInitLinked (.clt id) ttylink

def cmdCreate (id : CmdId) (clt cmd : Bool) : OwnAct Bool := do
  if ← ttyCreate (.clt id) clt then ttyCreate (.cmd id) cmd
  else return false

/-- `GBLSAddCmd` for a specification that parses and a name that is free. `clt` and `cmd` tell whether
the two ttys can be created. -/
def GBLSAddCmd (accepts : CmdId → Bool) (name cmdstr ttylink : CStr) (clt cmd : Bool) :
    OwnAct (Option CmdId) := do
  let id ← mallocCmd
  cmdInit id name cmdstr ttylink
  if !(← cmdCreate id clt cmd) then do
    cmdCleanup accepts id
    release (.cmd id)
    return none
  else do
    modify fun s => { s with cmds := s.cmds ++ [id] }
    return some id

def bcstttyCreate (creates : Bool) : OwnAct Unit := do
  when ((← get).bcstflg = true) do
    let created ← ttyCreate .bcst creates
    when (created = false) (throw .exit)

def cmdStart (id : CmdId) : OwnAct Unit := do
  when (((← get).heap id).pid = none) do
    let s ← get
    let pidfd ← openFd
    modify fun s => { s with nextPid := s.nextPid + 1 }
    updCmd id fun this => { this with pidfd := some pidfd, pid := some s.nextPid }

/-! ## From `main` to the loop -/

/-- The options, and what `getcwd` yields. -/
structure OwnOptions where
  logdir : Option CStr := none
  readystr : Option CStr := none
  stopstr : Option CStr := none
  bcstttylink : Option CStr := none
  monttylinkdir : Option CStr := none
  fsmntptdir : Option CStr := none
  keeplog : Bool := false
  daemonize : Bool := false
  /-- name, specification and link of each command -/
  specs : List (CStr × CStr × CStr) := []
  cwd : CStr := []

/-- What succeeds on the way up. -/
structure Answers where
  monFits : Bool := true
  monCreates : Bool := true
  monOpens : Bool := true
  fsFits : Bool := true
  mkdirs : Bool := true
  mounts : Bool := true
  clt : CStr → Bool := fun _ => true
  cmd : CStr → Bool := fun _ => true
  bcstCreates : Bool := true

/-- `-L` asks for a log, and so does `-D`. -/
def OwnOptions.uselog (o : OwnOptions) : Bool := o.logdir.isSome || o.daemonize

def OwnOptions.strs (o : OwnOptions) : GblsStr → Option CStr
  | .logdir => if o.uselog then some (o.logdir.getD o.cwd) else none
  | .logpath => if o.uselog then some (o.logdir.getD o.cwd ++ bytes ".log") else none
  | .readystr => o.readystr
  | .stopstr => o.stopstr
  | .bcstttylink => o.bcstttylink
  | .monttylinkdir => o.monttylinkdir
  | .fsmntptdir => o.fsmntptdir
  | .cwd => some o.cwd

/-- `main` up to the `atexit`. Descriptor 0 is the signalfd. -/
def boot (o : OwnOptions) : Own where
  str := o.strs
  logfile := o.uselog
  keeplog := o.keeplog
  bcstflg := o.bcstttylink.isSome || o.specs.length > 1
  sfd := some 0
  nextFd := 1

/-- `if (GBLS.f == NULL) GBLS.f = cwdPrefix(..)` -/
def defaultStr (f : GblsStr) (path : CStr) : OwnAct Unit := do
  when ((← get).str f = none) (setStr f (some path))

def monInit (fits : Bool) : OwnAct Unit := do
  when (fits = false) (throw .exit)
  ttyInit .mon (some (((← get).str .monttylinkdir).getD [] ++ bytes "/.mon")) none none none none

def monttyCreate (creates opens : Bool) : OwnAct Unit := do
  let created ← ttyCreate .mon creates
  when (created = false) (throw .exit)
  when (opens = false) (throw .exit)
  modify fun s => { s with fileptr := (s.ttys .mon).dfd }

def fsInit (fits : Bool) : OwnAct Unit := do
  when (fits = false) (throw .exit)
  modify fun s => { s with fs := Fs.fsInit ((s.str .fsmntptdir).getD [] ++ bytes "/.fs") }

def fsCreate (mkdirs mounts : Bool) : OwnAct Unit := do
  let created ← onFs (Fs.fsCreate mkdirs mounts (some Fs.yarfsCreate))
  when (mkdirs = true)
    (modify fun s =>
      { s with
        fuse_args := [bytes "yar", bytes "-o", bytes "default_permissions"]
        fuse_se := true
        mounted := mounts })
  when (created = false) (throw .exit)

def mainAddCmd (accepts : CmdId → Bool) (x : Answers) (spec : CStr × CStr × CStr) : OwnAct Unit := do
  let cmd ← GBLSAddCmd accepts spec.1 spec.2.1 spec.2.2 (x.clt spec.1) (x.cmd spec.1)
  require .abort (cmd.isSome = true)

/-- The rest of `main`, up to the loop. -/
def main (accepts : CmdId → Bool) (o : OwnOptions) (x : Answers) : OwnAct Unit := do
  defaultStr .monttylinkdir o.cwd
  monInit x.monFits
  monttyCreate x.monCreates x.monOpens
  defaultStr .fsmntptdir o.cwd
  fsInit x.fsFits
  fsCreate x.mkdirs x.mounts
  o.specs.forM (mainAddCmd accepts x)
  defaultStr .bcstttylink (o.cwd ++ bytes "/bcsttty")
  ttyInitLinked .bcst (((← get).str .bcstttylink).getD [])
  bcstttyCreate x.bcstCreates

/-! ## The loop -/

/-- What a handler can do to what is owned: start or stop a command, handle the exit of its process
(and then restart it or remove it), delete it, add one, read a first request from fuse. -/
inductive OwnEvent where
  | start (id : CmdId)
  | stop (id : CmdId)
  | exited (id : CmdId)
  | removed (id : CmdId)
  | added (name cmdstr ttylink : CStr) (clt cmd bcst : Bool)
  | received

/-- The reaping in `cmdPidEvent`: the pidfd is reset, not closed. -/
def cmdPidReap (id : CmdId) : OwnAct Unit := do
  when (((← get).heap id).pid ≠ none) do
    release (.child id)
    updCmd id fun this => { this with pidfd := none, pid := none }

/-- A second command brings the broadcast tty with it. -/
def monAdd (accepts : CmdId → Bool) (name cmdstr ttylink : CStr) (clt cmd bcst : Bool) :
    OwnAct Unit := do
  let id ← GBLSAddCmd accepts name cmdstr ttylink clt cmd
  when (id ≠ none) do
    let s ← get
    when (s.bcstflg = false ∧ s.cmds.length > 1) do
      modify fun s => { s with bcstflg := true }
      bcstttyCreate bcst

def OwnEvent.act (accepts : CmdId → Bool) (e : OwnEvent) : OwnAct Unit := do
  let s ← get
  match e with
  | .start id => do
    require .ub (id ∈ s.cmds)
    cmdStart id
  | .stop id => do
    require .ub (id ∈ s.cmds)
    cmdStop accepts id
  | .exited id => do
    require .ub (id ∈ s.cmds)
    cmdPidReap id
  | .removed id => do
    require .ub (id ∈ s.cmds)
    cmdCleanup accepts id
    hashDel id
  | .added name cmdstr ttylink clt cmd bcst => monAdd accepts name cmdstr ttylink clt cmd bcst
  | .received => when (s.fuse_se = true) (modify fun s => { s with fuse_buf := true })

/-- `main` has come as far as the loop. -/
def OwnStarted (s : Own) : Prop := ∃ accepts o x, main accepts o x (boot o) = .ok () s

def OwnStep (s : Own) (e : OwnEvent) (s' : Own) : Prop := ∃ accepts, e.act accepts s = .ok () s'

abbrev OwnReachable (s : Own) : Prop := Reach OwnStarted OwnStep (fun _ _ => True) s

/-- A state in which `cleanup` can be called: a handler or `main` calls `exit` in it, or it is that of
the loop between two handlers. The removal of the last command is an event of its own. -/
inductive Leaving (s : Own) : Prop where
  | main (accepts : CmdId → Bool) (o : OwnOptions) (x : Answers)
      (h : main accepts o x (boot o) = .error .exit s)
  | handler (accepts : CmdId → Bool) (s₀ : Own) (e : OwnEvent) (hs : OwnReachable s₀)
      (h : e.act accepts s₀ = .error .exit s)
  | loop (hs : OwnReachable s)

end Own

end Yar
