import Mathlib.Data.Rat.Defs
import Mathlib.Algebra.Order.Ring.Rat
import Mathlib.Logic.Function.Basic

/-!
# The data of yar

The objects of `yar.h`, `cmd.h`, `tty.h` and `event.h`, and the part of the kernel they
stand on. A `cmd_t` or `tty_t` is reached by its address in the source and by its name
(`CmdId`, `TtyRef`) here: `World.heap` and `World.ttys` give the contents, and an address
is live exactly when it is listed in `GBLS.cmds`.
-/

namespace Yar

abbrev Byte := UInt8

/-- A C string, without its terminator. -/
abbrev CStr := List Byte

instance : LawfulBEq CStr := inferInstance

def bytes (s : String) : CStr := s.toList.map Char.toUInt8

/-- A reading of `CLOCK_SOURCE`, in seconds. -/
abbrev Time := ℚ

abbrev Fd := Nat
abbrev Pid := Nat

/-- The address of a `cmd_t`. Addresses are never reused. -/
abbrev CmdId := Nat

/-- `'\n'` -/
abbrev newline : Byte := 10

/-- A C `double` as `strtod` returns it, with the finite values taken exactly. -/
inductive Double where
  | nan
  | ninf
  | fin (q : ℚ)
  | inf
  deriving DecidableEq

/-- The C comparison `a < b`: false as soon as one side is a NaN. -/
def Double.lt : Double → Double → Bool
  | .nan, _ => false
  | _, .nan => false
  | .ninf, .ninf => false
  | .ninf, _ => true
  | .fin _, .ninf => false
  | .fin a, .fin b => decide (a < b)
  | .fin _, .inf => true
  | .inf, _ => false

/-- The ttys of a run: the broadcast tty, the monitor's, and two for each command. -/
inductive TtyRef where
  | bcst
  | mon
  | clt (id : CmdId)
  | cmd (id : CmdId)
  deriving DecidableEq

/-- `link_t` -/
structure Link where
  src : Option CStr := none
  dst : Option CStr := none

/-- `tty_t`. The descriptors are `none` where the source has -1, and the pty pair behind
them is the kernel's `Port` of the same name. -/
structure Tty where
  discards : Nat → Byte := fun _ => 0
  link : Option CStr := none
  extralink1 : Link := {}
  extralink2 : Link := {}
  rbytes : Nat := 0
  wbytes : Nat := 0
  wdbytes : Nat := 0
  delaycnt : Nat := 0
  dfd : Option Fd := none
  sfd : Option Fd := none
  ifd : Option Fd := none
  iwd : Option Fd := none
  opens : Nat := 0

/-- `cmd_t`, less its two ttys, which are `TtyRef.cmd` and `TtyRef.clt` of its address. -/
structure Cmd where
  buf : Nat → Byte := fun _ => 0
  lastwrite : Time := 0
  name : CStr := []
  bcstprefix : CStr := []
  cmdline : CStr := []
  stopstr : Option CStr := none
  delay : Double := .fin 0
  pid : Option Pid := none
  bufn : Nat := 0
  bufstart : Nat := 0
  bufof : Nat := 0
  pidfd : Option Fd := none
  exitstatus : Int := 0
  readycnt : Nat := 0
  restartcnt : Nat := 0
  restart : Bool := false
  deleteonexit : Bool := false

def cmdIsRunning (this : Cmd) : Bool := this.pid.isSome

/-- `globals_t`, less the broadcast and monitor ttys. `fsmntpt` and `fsmkdir` are `fs.mntpt` and
`fs.mkdir`, `silent` is `mon.silent`, and `logfile` says that the pointer is set. -/
structure Globals where
  cmds : List CmdId := []
  slowestcmd : Option CmdId := none
  readystr : Option CStr := none
  stopstr : Option CStr := none
  cwd : CStr := []
  bcstttylink : Option CStr := none
  monttylinkdir : Option CStr := none
  fsmntptdir : Option CStr := none
  fsmntpt : Option CStr := none
  logdir : Option CStr := none
  logpath : Option CStr := none
  pid : CStr := []
  defaultcmddelay : Double := .fin 0
  restartcmddelay : Double := .fin 5
  errrestartcmddelay : Double := .fin 10
  cmdsreadycnt : Int := 0
  verbose : Int := 0
  linebufferbcst : Bool := false
  prefixbcst : Bool := false
  bcstflg : Bool := false
  restart : Bool := true
  exitonidle : Bool := false
  cmddelonexit : Bool := false
  uselog : Bool := false
  daemonize : Bool := false
  keeplog : Bool := false
  logfile : Bool := false
  fsmkdir : Bool := false
  silent : Bool := true

/-- `argsParse` sets the length with the string, `cleanup` clears both. -/
def Globals.readystrlen (g : Globals) : Nat := (g.readystr.map List.length).getD 0

def cmdIsReady (g : Globals) (this : Cmd) : Bool :=
  g.readystrlen == 0 || g.readystrlen == this.readycnt

/-! ## The kernel side -/

inductive Mask where
  | IN_OPEN
  | IN_CLOSE_WRITE
  | IN_CLOSE_NOWRITE
  deriving DecidableEq

/-- A pty pair and the inotify queue on its sub side. `hist` is every byte ever written to
the sub side with the process that wrote it, oldest first, and `nread` of them have been
read from the dom side. -/
structure Port where
  hist : List (Byte × Pid) := []
  nread : Nat := 0
  notify : List Mask := []
  clients : Nat := 0

/-- The bytes waiting on the dom side, what `TIOCINQ` counts there. -/
def Port.domq (p : Port) : List (Byte × Pid) := p.hist.drop p.nread

/-- What an event descriptor registered with epoll stands for: the dom side of a tty, its
inotify descriptor, the pidfd of a command's process, or one of the global descriptors. -/
inductive Source where
  | dom (r : TtyRef)
  | ifd (r : TtyRef)
  | pidfd (id : CmdId) (fd : Fd)
  | sig
  | fs
  deriving DecidableEq

/-- A child that has not been reaped. Until it execs it holds copies of the descriptors
that were open when it was forked. -/
structure Proc where
  pid : Pid
  pidfd : Fd
  startdelay : Double
  dead : Option Int := none
  held : List Fd := []

/-- A directory entry: a directory, a file or link of somebody else, or a link made by
`ttyCreate` for one of yar's ttys. -/
inductive Node where
  | dir
  | other
  | sym (by_ : TtyRef)
  deriving DecidableEq

/-- The directory is `names`; `mounts` are the entries a file system is mounted on. -/
structure Kernel where
  ports : TtyRef → Port := fun _ => {}
  procs : List Proc := []
  fds : List Fd := []
  interest : List (Fd × Source) := []
  names : CStr → Option Node := fun _ => none
  mounts : List CStr := []
  nextPid : Pid := 0
  nextFd : Fd := 0
  calls : Nat := 0

/-- What a run has done so far, as seen from outside the process. -/
inductive Obs where
  | added (id : CmdId)
  | removed (id : CmdId)
  | forked (id : CmdId) (p : Pid)
  | read (r : TtyRef) (c : Byte)
  | output (id : CmdId) (name : CStr) (c : Byte) (pfx : Bool)
  | relay (id : CmdId) (c : Byte) (t : Option Time)
  | write (r : TtyRef) (buf : CStr)
  | symlink (r : TtyRef) (p : CStr)
  | unlink (r : TtyRef) (p : CStr) (n : Node)

structure World where
  gbls : Globals := {}
  heap : CmdId → Cmd := fun _ => {}
  ttys : TtyRef → Tty := fun _ => {}
  kern : Kernel := {}
  brk : CmdId := 0
  /-- newest first -/
  trace : List Obs := []

end Yar
