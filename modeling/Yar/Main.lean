import Yar.Cmd

/-!
# main.c

The command table, the broadcast and monitor handlers, the exit handler of `cmd.c` and
`ttyNotifyEvent` of `tty.c`, which both reach into the table, and the way up to `theLoop`.
-/

namespace Yar

open Program

variable (sys : Sys)

/-- `HASH_FIND_STR(GBLS.cmds, name, _)` -/
def World.hashFind (w : World) (name : CStr) : Option CmdId :=
  w.gbls.cmds.find? fun id => (w.heap id).name == name

/-- `HASH_DEL(GBLS.cmds, cmd); free(cmd)` -/
def hashDel (id : CmdId) : Act Unit := do
  updGbls fun g => { g with cmds := g.cmds.filter (· ≠ id) }
  note (.removed id)

/-! ## Cleanup and exit -/

/-- `fsCleanup`, less the tree of the file system. -/
def fsCleanup : Act Unit := do
  let g := (← get).gbls
  match g.fsmntpt with
  | some mntpt =>
    when (g.fsmkdir = true) do
      fuse_session_unmount sys mntpt
      rmdir sys mntpt
      updGbls fun g => { g with fsmntpt := none }
  | none => pure ()

/-- The end of the log in `cleanup`. -/
def logCleanup : Act Unit := do
  let g := (← get).gbls
  when (g.logfile = true) do
    match g.logpath with
    | some path => when (g.keeplog = false) (remove sys path)
    | none => pure ()
    updGbls fun g => { g with logfile := false }

/-- The fields of `GBLS` that are reset once what they stand for is gone. `logdir` is freed and keeps
its value. -/
def Globals.clear (g : Globals) : Globals :=
  { g with
    logpath := none, readystr := none, stopstr := none, bcstttylink := none
    monttylinkdir := none, fsmntptdir := none, cwd := [] }

def cleanup : Act Unit := do
  let g := (← get).gbls
  when (g.bcstflg = true) (ttyCleanup sys .bcst)
  g.cmds.forM fun id => do
    cmdCleanup sys id
    hashDel id
  updGbls fun g => { g with slowestcmd := none }
  fsCleanup sys
  ttyCleanup sys .mon
  logCleanup sys
  updGbls Globals.clear

/-- `exit`, which runs `cleanup` through `atexit`. -/
def exit {α : Type} : Act α := do
  cleanup sys
  throw .exit

/-- The end of a removal from the table: with nothing left, `-x` makes yar leave. -/
def exitIfIdle : Act Unit := do
  let g := (← get).gbls
  when (g.cmds.length = 0 ∧ g.exitonidle = true) do
    cleanup sys
    exit sys

/-! ## Command specifications -/

/-- `strsep(&s, ",")` where both the token and the rest are needed: `none` when no comma is
left. -/
def strsep (s : CStr) : Option (CStr × CStr) :=
  match s.span (· != 44) with
  | (_, []) => none
  | (token, _ :: rest) => some (token, rest)

def nonempty (s : CStr) : Option CStr := if s = [] then none else some s

structure CmdSpec where
  name : CStr
  ttylink : Option CStr
  log : Option CStr
  delay : Double
  cmdline : CStr

/-- The value of the delay field: the default when it is empty. -/
def cmdspecDelay (g : Globals) (s : CStr) : Option Double :=
  if s = [] then some g.defaultcmddelay else sys.strtod s

def cmdspecParse (cmdstr : CStr) : Act (Option CmdSpec) := do
  let g := (← get).gbls
  match strsep cmdstr with
  | none => return none
  | some (name, cmdstr) =>
    match strsep cmdstr with
    | none => return none
    | some (ttylink, cmdstr) => do
      -- `checkpath(*ttylink, 0)`: `stat` fails on a null path
      if ← ttyNameTaken sys (nonempty ttylink) then return none
      else match strsep cmdstr with
        | none => return none
        | some (log, cmdstr) =>
          match strsep cmdstr with
          | none => return none
          | some (delay, cmdline) =>
            match cmdspecDelay sys g delay with
            | none => return none
            | some delay =>
              if cmdline = [] then return none
              else return some ⟨name, nonempty ttylink, nonempty log, delay, cmdline⟩

/-! ## The command table -/

/-- `malloc(sizeof(cmd_t))` -/
def mallocCmd : Act CmdId := do
  let w ← get
  set { w with brk := w.brk + 1 }
  return w.brk

/-- `GBLS.slowestcmd` after a command with this delay has been created. -/
def updSlowest (id : CmdId) (delay : Double) : Act Unit := do
  let w ← get
  match w.gbls.slowestcmd with
  | some s => do
    live s
    when (Double.lt (w.heap s).delay delay = true)
      (updGbls fun g => { g with slowestcmd := some id })
  | none => updGbls fun g => { g with slowestcmd := some id }

/-- `GBLSAddCmd` for a specification that parsed and a name that is free. -/
def GBLSAddNew (spec : CmdSpec) : Act (Option CmdId) := do
  let id ← mallocCmd
  cmdInit id spec.name spec.cmdline spec.delay spec.ttylink spec.log
  if !(← cmdCreate sys id) then do
    cmdCleanup sys id
    return none
  else do
    updSlowest id spec.delay
    updGbls fun g => { g with cmds := g.cmds ++ [id] }
    note (.added id)
    return some id

def GBLSAddCmd (cstr : CStr) : Act (Option CmdId) := do
  match ← cmdspecParse sys cstr with
  | none => return none
  | some spec =>
    if ((← get).hashFind spec.name).isSome then return none
    else GBLSAddNew sys spec

def GBLSCmdsWriteChar (c : Byte) : Act Unit := do
  let g := (← get).gbls
  g.cmds.forM fun id => cmdRelay sys id c

/-! ## The broadcast tty -/

def bcstttyCreate : Act Unit := do
  let g := (← get).gbls
  when (g.bcstflg = true) do
    let created ← ttyCreate sys .bcst
    when (created = false) (exit sys)

def bcstttyRegisterEvents : Act Unit := do
  let g := (← get).gbls
  when (g.bcstflg = true) (discard (ttyRegisterEvents sys .bcst))

def bcstttyNotify (mask : Mask) : Act Unit := do
  let g := (← get).gbls
  match mask with
  | .IN_OPEN => g.cmds.forM fun id => discard (cmdStart sys id (.fin 0))
  | .IN_CLOSE_WRITE => g.cmds.forM fun id => discard (cmdStop sys id true false)
  | .IN_CLOSE_NOWRITE => g.cmds.forM fun id => discard (cmdStop sys id true false)

/-- The test that keeps the broadcast tty from being read. The count is compared as an
`unsigned`, so a negative one would not hold the gate shut. -/
def bcstGateShut (g : Globals) : Prop :=
  g.readystr ≠ none ∧ 0 ≤ g.cmdsreadycnt ∧ g.cmdsreadycnt < g.cmds.length

instance (g : Globals) : Decidable (bcstGateShut g) :=
  inferInstanceAs (Decidable (_ ∧ _ ∧ _))

def bcstttyEvent (rd : Read) : Act Unit := do
  let w ← get
  when (¬bcstGateShut w.gbls) <|
    match w.gbls.slowestcmd with
    | none => throw .ub
    | some s => do
      live s
      let slow := w.heap s
      let (n, c) ← ttyReadChar sys .bcst (some slow.lastwrite) slow.delay rd
      when (n ≠ 0) (GBLSCmdsWriteChar sys c)

/-! ## The monitor -/

inductive MonCmd where
  | monHelp | monDel | monDrain | monAdd | monList | monExit | monIdleExit | monToggleRestart
  | monToggleLB | monTogglePrefix | monVerboseInc | monVerboseDec | monToggleSilent
  deriving DecidableEq

def MonCmds : List (CStr × MonCmd) :=
  [(bytes "help", .monHelp), (bytes "del", .monDel), (bytes "d", .monDel),
    (bytes "drain", .monDrain), (bytes "add", .monAdd), (bytes "a", .monAdd),
    (bytes "list", .monList), (bytes "l", .monList), (bytes "exit", .monExit),
    (bytes "e", .monExit), (bytes "idleexit", .monIdleExit), (bytes "ie", .monIdleExit),
    (bytes "restart", .monToggleRestart), (bytes "r", .monToggleRestart),
    (bytes "quit", .monExit), (bytes "q", .monExit), (bytes "line", .monToggleLB),
    (bytes "lb", .monToggleLB), (bytes "pre", .monTogglePrefix), (bytes "p", .monTogglePrefix),
    (bytes "v+", .monVerboseInc), (bytes "v-", .monVerboseDec),
    (bytes "silent", .monToggleSilent)]

/-- The word before the first space and, if there is a space, the text after it: what
`args = 0` and `args = i + 1` stand for. -/
def monSplit (line : CStr) : CStr × Option CStr :=
  match line.span (· != 32) with
  | (cmd, []) => (cmd, none)
  | (cmd, _ :: args) => (cmd, some args)

/-- The entry of `MonCmds` a line selects, with its arguments. -/
def monLookup (line : CStr) : Option (MonCmd × Option CStr) :=
  (MonCmds.find? fun e => e.1 == (monSplit line).1).map fun e => (e.2, (monSplit line).2)

/-- `monDel` once the command has been found. -/
def monDelFound (id : CmdId) : Act Unit := do
  cmdCleanup sys id
  hashDel id
  exitIfIdle sys

def monDel (args : Option CStr) : Act Unit := do
  let w ← get
  match args with
  | none => pure ()
  | some name =>
    match w.hashFind name with
    | none => pure ()
    | some id => monDelFound sys id

/-- `monAdd` once the command is in the table. -/
def monAddRegister (id : CmdId) : Act Unit := do
  cmdRegisterttyEvents sys id
  let w ← get
  if w.gbls.bcstflg = false ∧ w.gbls.cmds.length > 1 then do
    updGbls fun g => { g with bcstflg := true }
    bcstttyCreate sys
    bcstttyRegisterEvents sys
  else when ((w.ttys .bcst).opens > 0) (discard (cmdStart sys id (.fin 0)))

/-- `monAdd` with the value it returns, by which `monProcess` reports OK or FAILED. -/
def monAddRc (args : Option CStr) : Act Int := do
  match args with
  | none => return -1
  | some cmdstr =>
    match ← GBLSAddCmd sys cmdstr with
    | none => return -1
    | some id => do
      monAddRegister sys id
      return 0

def monAdd (args : Option CStr) : Act Unit := discard (monAddRc sys args)

/-- The flush of the client tty's sub side does not touch what the relay reads. -/
def monDrain : Act Unit := do
  let g := (← get).gbls
  g.cmds.forM fun id => do
    cmdttyDrain sys id
    updCmd id fun this => { this with bufstart := 0, bufn := 0 }

def monIdleExit : Act Unit := do
  updGbls fun g => { g with exitonidle := true, cmddelonexit := true }
  let g := (← get).gbls
  if g.cmds.length = 0 then do
    cleanup sys
    exit sys
  else g.cmds.forM fun id => updCmd id fun this => { this with deleteonexit := true }

/-- `MonCmds[j].cmd(args, epollfd)` -/
def monRun (m : MonCmd) (args : Option CStr) : Act Unit :=
  match m with
  | .monHelp => pure ()
  | .monDel => monDel sys args
  | .monDrain => monDrain sys
  | .monAdd => monAdd sys args
  | .monList => pure ()
  | .monExit => exit sys
  | .monIdleExit => monIdleExit sys
  | .monToggleRestart => updGbls fun g => { g with restart := !g.restart }
  | .monToggleLB => updGbls fun g => { g with linebufferbcst := !g.linebufferbcst }
  | .monTogglePrefix => updGbls fun g => { g with prefixbcst := !g.prefixbcst }
  | .monVerboseInc => updGbls fun g => { g with verbose := max (g.verbose + 1) 0 }
  | .monVerboseDec => updGbls fun g => { g with verbose := max (g.verbose - 1) 0 }
  | .monToggleSilent => updGbls fun g => { g with silent := !g.silent }

def monProcess (line : CStr) : Act Unit :=
  match monLookup line with
  | some (m, args) => monRun sys m args
  | none => pure ()

/-! ## Exit of a process, opens and closes -/

/-- `cmdPidEvent` from the point where the fields of the dead process have been reset. -/
def cmdPidRemove (id : CmdId) : Act Unit := do
  let found := (← get).hashFind ((← get).heap id).name
  cmdCleanup sys id
  match found with
  | some cmd => do
    assert (cmd = id)
    hashDel id
    exitIfIdle sys
  | none => pure ()

def cmdPidRestart (id : CmdId) : Act Unit := do
  let w ← get
  let this := w.heap id
  when (w.gbls.restart = true ∧ this.restart = true) do
    let startdelay :=
      if this.exitstatus = 0 then w.gbls.restartcmddelay else w.gbls.errrestartcmddelay
    let started ← cmdStart sys id startdelay
    assert (started = true)
    updCmd id fun this => { this with restartcnt := this.restartcnt + 1 }

/-- The reaping half of `cmdPidEvent`. The pidfd is forgotten, not closed. -/
def cmdPidReap (id : CmdId) : Act Unit := do
  let fd := ((← get).heap id).pidfd
  let es ← waitid fd
  updCmd id fun this => { this with exitstatus := es }
  epollDel fd
  updCmd id fun this => { this with pidfd := none, pid := none }
  cmdResetReady id

def cmdPidEvent (id : CmdId) : Act Unit := do
  cmdPidReap id
  if ((← get).heap id).deleteonexit then cmdPidRemove sys id
  else cmdPidRestart sys id

/-- The external handler of a notify event, `ned.hdlr`. -/
def nedHdlr (r : TtyRef) (mask : Mask) : Act Unit :=
  match r with
  | .bcst => bcstttyNotify sys mask
  | .clt id => cmdCltttyNotify sys id mask
  | .mon => pure ()
  | .cmd _ => pure ()

def Mask.opens (mask : Mask) (opens : Nat) : Nat :=
  match mask with
  | .IN_OPEN => opens + 1
  | .IN_CLOSE_WRITE => opens - 1
  | .IN_CLOSE_NOWRITE => opens - 1

/-- Only the next event of the watch gets through: a failing read is the end, and so is what inotify has
to say about a queue that has run over, which is about no watch. -/
def ttyNotifyEvent (r : TtyRef) (rd : Read) : Act Unit := do
  let w ← get
  assert ((w.ttys r).ifd ≠ none ∧ rd = .ready)
  match (w.kern.ports r).notify with
  | [] => throw .abort
  | mask :: rest => do
    updPort r fun p => { p with notify := rest }
    updTty r fun this => { this with opens := mask.opens this.opens }
    nedHdlr sys r mask

/-! ## From `main` to `theLoop` -/

/-- The options, and what the process finds when it starts. -/
structure Options where
  specs : List CStr := []
  readystr : Option CStr := none
  stopstr : Option CStr := none
  bcstttylink : Option CStr := none
  monttylinkdir : Option CStr := none
  fsmntptdir : Option CStr := none
  logdir : Option CStr := none
  defaultcmddelay : Double := .fin 0
  restartcmddelay : Double := .fin 5
  errrestartcmddelay : Double := .fin 10
  verbose : Int := 0
  linebufferbcst : Bool := false
  prefixbcst : Bool := false
  exitonidle : Bool := false
  daemonize : Bool := false
  keeplog : Bool := false
  pid : CStr := []
  cwd : CStr := []
  names : CStr → Option Node := fun _ => none

/-- `GBLSInit` and `argsParse`; `-L` sets the directory of the log with `uselog`. Descriptor 0 is the
signalfd and 1 the fuse descriptor. -/
def boot (o : Options) : World where
  gbls :=
    { readystr := o.readystr
      stopstr := o.stopstr
      cwd := o.cwd
      bcstttylink := o.bcstttylink
      monttylinkdir := some (o.monttylinkdir.getD o.cwd)
      fsmntptdir := some (o.fsmntptdir.getD o.cwd)
      logdir := o.logdir
      pid := o.pid
      defaultcmddelay := o.defaultcmddelay
      restartcmddelay := o.restartcmddelay
      errrestartcmddelay := o.errrestartcmddelay
      verbose := o.verbose
      linebufferbcst := o.linebufferbcst
      prefixbcst := o.prefixbcst
      bcstflg := o.bcstttylink.isSome || o.specs.length > 1
      exitonidle := o.exitonidle
      uselog := o.logdir.isSome
      daemonize := o.daemonize
      keeplog := o.keeplog }
  kern := { names := o.names, fds := [0, 1], nextFd := 2 }

/-- `snprintf(path, PATH_MAX, "%s/%jd<suffix>", dir, pid)`; a result that does not fit ends
the program. -/
def pidPath (g : Globals) (dir : Option CStr) (suffix : CStr) : Act CStr := do
  let path := dir.getD [] ++ bytes "/" ++ g.pid ++ suffix
  if path.length < pathMax then return path else exit sys

/-- The check of each specification in `argsParse`, before `atexit`. -/
def argsParseSpec (cmdspec : CStr) : Act Unit := do
  match ← cmdspecParse sys cmdspec with
  | some _ => pure ()
  | none => throw .exit

/-- `setlogpath`: a path that does not fit is not set. -/
def Globals.setlogpath (g : Globals) : Globals :=
  let path := g.logdir.getD [] ++ bytes "/" ++ g.pid ++ bytes ".log"
  if path.length < pathMax then { g with logpath := some path } else g

/-- `logopen`, by which `stdin`, `stdout` and `stderr` are opened anew, the last two on the log. -/
def logopen : Act Bool := do
  updGbls Globals.setlogpath
  let path := (← get).gbls.logpath
  let k ← call
  if sys.fails k then return false
  else if !(← freopen sys path) then return false
  else do
    updGbls fun g => { g with logfile := true }
    freopen sys path

/-- What `main` does before `atexit`: a failure ends it without a cleanup. -/
def logInit : Act Unit := do
  let g := (← get).gbls
  when (g.daemonize = true) do
    let k ← call
    assert (sys.fails k = false)
  when (g.uselog = true ∨ g.daemonize = true) do
    updGbls fun g => { g with logdir := some (g.logdir.getD g.cwd) }
    let opened ← logopen sys
    when (opened = false) (throw .exit)

def monttyCreate : Act Unit := do
  let g := (← get).gbls
  let link ← pidPath sys g g.monttylinkdir (bytes ".mon")
  ttyInit .mon (some link) none none none none
  let created ← ttyCreate sys .mon
  when (created = false) (exit sys)

/-- `fsInit` and `fsCreate`, less the tree of the file system. -/
def fsCreate : Act Unit := do
  let g := (← get).gbls
  let mntpt ← pidPath sys g g.fsmntptdir (bytes ".fs")
  updGbls fun g => { g with fsmntpt := some mntpt }
  let made ← mkdir sys mntpt
  when (made = false) (exit sys)
  updGbls fun g => { g with fsmkdir := true }
  let mounted ← fuse_session_mount sys mntpt
  when (mounted = false) (exit sys)

def mainAddCmd (cmdspec : CStr) : Act Unit := do
  let cmd ← GBLSAddCmd sys cmdspec
  assert (cmd.isSome = true)

def bcstttyInit : Act Unit := do
  updGbls fun g =>
    { g with bcstttylink := some (g.bcstttylink.getD (cwdPrefix g (some (bytes "bcsttty")))) }
  ttyInitLinked .bcst ((← get).gbls.bcstttylink.getD [])
  bcstttyCreate sys

/-- Of all that is registered here only the signalfd and the ttys of the commands have to be. -/
def theLoopRegister : Act Unit := do
  let sig ← epollAdd sys 0 .sig
  assert (sig = true)
  discard (ttyRegisterEvents sys .mon)
  discard (epollAdd sys 1 .fs)
  bcstttyRegisterEvents sys
  (← get).gbls.cmds.forM (cmdRegisterttyEvents sys)

/-- `main` up to the loop. -/
def main (specs : List CStr) : Act Unit := do
  specs.forM (argsParseSpec sys)
  logInit sys
  monttyCreate sys
  fsCreate sys
  specs.forM (mainAddCmd sys)
  bcstttyInit sys
  theLoopRegister sys

end Yar
