import Mathlib.Order.Monotone.Defs
import Yar.Lib.Program
import Yar.Types

/-!
# The calls yar makes

What a call to the kernel or the C library answers is read off the state of the kernel
where that decides it (a queue, a process table, a directory), and off `Sys` where it does
not: the reading of a clock, whether a port has room, whether a resource can be had. Calls
are numbered in the order in which they are made.
-/

namespace Yar

open Program

/-- What `write` on a dom side does: take the whole buffer, report `EAGAIN`, or anything
else (another error, a short count). -/
inductive WriteRes where
  | full
  | again
  | error
  deriving DecidableEq

/-- What a non-blocking `read` of one byte does. `ready` takes the next byte and is
`EAGAIN` when there is none. -/
inductive Read where
  | ready
  | eof
  | again
  | fail
  deriving DecidableEq

/-- The answers of the outside, by the number of the call. `junk` is what an uninitialised
byte of the stack holds, `strtod` is `none` where it sets `errno`, and `resolve` takes a
path to the directory entry it names. A descriptor is registered once and a child forked once,
so those whose `EPOLL_CTL_ADD`, `fork` or `pidfd_open` fails stand for the calls. -/
structure Sys where
  clock : Nat → Time
  write : Nat → WriteRes
  fails : Nat → Bool
  junk : Nat → Byte
  status : Nat → Int
  strtod : CStr → Option Double
  resolve : CStr → CStr
  deaf : Fd → Bool := fun _ => false
  forkFails : Pid → Bool := fun _ => false
  pidfdFails : Pid → Bool := fun _ => false
  /-- `CLOCK_MONOTONIC` never runs back. -/
  clock_mono : Monotone clock

/-- How a handler can end other than by returning: `assert` or `NYI`, a step the C standard
leaves undefined (a dangling or null pointer, a copy outside an array), `exit`. -/
inductive Halt where
  | abort
  | ub
  | exit
  deriving DecidableEq

abbrev Act := EStateM Halt World

/-- `assert` and `ASSERT` -/
abbrev assert (p : Prop) [Decidable p] : Act Unit := require .abort p

/-! ## Access to the world -/

def World.updCmd (w : World) (id : CmdId) (f : Cmd → Cmd) : World :=
  { w with heap := Function.update w.heap id (f (w.heap id)) }

def World.updTty (w : World) (r : TtyRef) (f : Tty → Tty) : World :=
  { w with ttys := Function.update w.ttys r (f (w.ttys r)) }

def World.updPort (w : World) (r : TtyRef) (f : Port → Port) : World :=
  { w with kern.ports := Function.update w.kern.ports r (f (w.kern.ports r)) }

def updCmd (id : CmdId) (f : Cmd → Cmd) : Act Unit := modify (·.updCmd id f)
def updTty (r : TtyRef) (f : Tty → Tty) : Act Unit := modify (·.updTty r f)
def updPort (r : TtyRef) (f : Port → Port) : Act Unit := modify (·.updPort r f)
def updGbls (f : Globals → Globals) : Act Unit := modify fun w => { w with gbls := f w.gbls }
def updKern (f : Kernel → Kernel) : Act Unit := modify fun w => { w with kern := f w.kern }
def note (o : Obs) : Act Unit := modify fun w => { w with trace := o :: w.trace }

/-- Following a pointer to a command: undefined once the command has been freed. -/
def live (id : CmdId) : Act Unit := do
  let w ← get
  require .ub (id ∈ w.gbls.cmds)

/-- The number of the call being made. -/
def call : Act Nat := do
  let w ← get
  set { w with kern.calls := w.kern.calls + 1 }
  return w.kern.calls

/-! ## Descriptors and epoll -/

/-- Some process still has the file open: yar itself, or a child that has not execed. -/
def Kernel.isOpen (k : Kernel) (fd : Fd) : Bool :=
  k.fds.contains fd || k.procs.any fun p => p.held.contains fd

/-- epoll forgets a descriptor when the last copy of it is closed. -/
def Kernel.sweep (k : Kernel) : Kernel :=
  { k with interest := k.interest.filter fun e => k.isOpen e.1 }

def Kernel.close (k : Kernel) (fd : Fd) : Kernel := { k with fds := k.fds.erase fd }.sweep

def openFd : Act Fd := do
  let w ← get
  set { w with kern.fds := w.kern.nextFd :: w.kern.fds, kern.nextFd := w.kern.nextFd + 1 }
  return w.kern.nextFd

/-- `if (fd != -1) close(fd)` -/
def close (fd : Option Fd) : Act Unit :=
  match fd with
  | some fd => updKern (·.close fd)
  | none => pure ()

/-- `epoll_ctl(_, EPOLL_CTL_ADD, fd, _) != -1` -/
def epollAdd (sys : Sys) (fd : Fd) (s : Source) : Act Bool := do
  if sys.deaf fd then return false
  else do
    updKern fun k => { k with interest := k.interest ++ [(fd, s)] }
    return true

/-- `EPOLL_CTL_DEL`, with the `assert(0)` that follows its failure. -/
def epollDel (fd : Option Fd) : Act Unit := do
  let w ← get
  assert (∃ e ∈ w.kern.interest, fd = some e.1)
  updKern fun k => { k with interest := k.interest.filter fun e => fd ≠ some e.1 }

/-! ## Clock, ttys, directory entries -/

section
variable (sys : Sys)

def clock_gettime : Act Time := do
  let k ← call
  return sys.clock k

/-- `read` of one byte from the dom side of `r`. -/
def read (r : TtyRef) (rd : Read) : Act (Int × Byte) := do
  let k ← call
  let w ← get
  if (w.ttys r).dfd = none then return (-1, sys.junk k)
  else match rd, (w.kern.ports r).domq with
    | .ready, (c, _) :: _ => do
      updPort r fun p => { p with nread := p.nread + 1 }
      note (.read r c)
      return (1, c)
    | .eof, _ => return (0, sys.junk k)
    | _, _ => return (-1, sys.junk k)

def write (r : TtyRef) : Act WriteRes := do
  let k ← call
  let w ← get
  return if (w.ttys r).dfd = none then .error else sys.write k

/-- `access(path, F_OK) == 0`. It follows links, so it can fail on a name that exists. -/
def access (path : CStr) : Act Bool := do
  let k ← call
  let w ← get
  return !path.isEmpty && (w.kern.names (sys.resolve path)).isSome && !sys.fails k

/-- `symlink(_, path) == 0`, made for the tty `r`. -/
def symlink (r : TtyRef) (path : CStr) : Act Bool := do
  let k ← call
  let w ← get
  if path.isEmpty || (w.kern.names (sys.resolve path)).isSome || sys.fails k then return false
  else do
    updKern fun k => { k with names := Function.update k.names (sys.resolve path) (some (.sym r)) }
    note (.symlink r path)
    return true

/-- `unlink(path)`, made for the tty `r`. A directory cannot be unlinked. -/
def unlink (r : TtyRef) (path : CStr) : Act Unit := do
  let w ← get
  match w.kern.names (sys.resolve path) with
  | none => pure ()
  | some .dir => pure ()
  | some n => do
    updKern fun k => { k with names := Function.update k.names (sys.resolve path) none }
    note (.unlink r path n)

/-- `mkdir(path, _) == 0` -/
def mkdir (path : CStr) : Act Bool := do
  let k ← call
  let w ← get
  if path.isEmpty || (w.kern.names (sys.resolve path)).isSome || sys.fails k then return false
  else do
    updKern fun k => { k with names := Function.update k.names (sys.resolve path) (some .dir) }
    return true

/-- `rmdir(path)`. A mount point is busy; what yar has made the directory for leaves it empty. -/
def rmdir (path : CStr) : Act Unit := do
  let w ← get
  when (w.kern.names (sys.resolve path) = some .dir ∧ sys.resolve path ∉ w.kern.mounts)
    (updKern fun k => { k with names := Function.update k.names (sys.resolve path) none })

/-- `remove(path)`, which is `rmdir` for a directory and `unlink` for anything else. -/
def remove (path : CStr) : Act Unit := do
  let w ← get
  if w.kern.names (sys.resolve path) = some .dir then rmdir sys path
  else updKern fun k => { k with names := Function.update k.names (sys.resolve path) none }

/-- `freopen(path, "a", _) != NULL`, which makes a file that is not there. A null path stands for the
file the stream has open. -/
def freopen (path : Option CStr) : Act Bool := do
  let k ← call
  if sys.fails k then return false
  else match path with
    | none => return true
    | some path => do
      let w ← get
      match w.kern.names (sys.resolve path) with
      | some .dir => return false
      | some _ => return true
      | none => do
        updKern fun k =>
          { k with names := Function.update k.names (sys.resolve path) (some .other) }
        return true

/-- `fuse_session_mount(_, path) == 0` -/
def fuse_session_mount (path : CStr) : Act Bool := do
  let k ← call
  if sys.fails k then return false
  else do
    updKern fun k => { k with mounts := sys.resolve path :: k.mounts }
    return true

def fuse_session_unmount (path : CStr) : Act Unit :=
  updKern fun k => { k with mounts := k.mounts.filter (· ≠ sys.resolve path) }

/-! ## Processes -/

/-- `fork` and `pidfd_open`, with the assertions that follow their failure. The child starts with a
copy of every open descriptor. -/
def fork (id : CmdId) (startdelay : Double) : Act (Pid × Fd) := do
  let p := (← get).kern.nextPid
  assert (sys.forkFails p = false)
  let held := (← get).kern.fds
  let fd ← openFd
  updKern fun k =>
    { k with
      nextPid := p + 1
      procs := k.procs ++ [{ pid := p, pidfd := fd, startdelay := startdelay, held := held }] }
  note (.forked id p)
  assert (sys.pidfdFails p = false)
  return (p, fd)

/-- The child a pidfd refers to, as long as it has not been reaped. -/
def Kernel.child (k : Kernel) (fd : Option Fd) : Option Proc :=
  k.procs.find? fun p => fd == some p.pidfd

def Kernel.reap (k : Kernel) (fd : Fd) : Kernel :=
  { k with procs := k.procs.filter fun p => p.pidfd ≠ fd }.sweep

/-- `waitid(P_PIDFD, fd, &info, WEXITED)` on a non-blocking pidfd, with the `assert(0)` that
follows its failure: there must be such a child and it must be dead. -/
def waitid (fd : Option Fd) : Act Int := do
  let w ← get
  match w.kern.child fd with
  | some { pidfd := fd, dead := some st, .. } => do
    updKern (·.reap fd)
    return st
  | _ => throw .abort

/-- `kill` with `SIGTERM`, then `SIGKILL` until the poll on the pidfd sees the child dead.
A child that had already died keeps its own status. -/
def killAndPoll (pid : Option Pid) (fd : Option Fd) : Act Unit := do
  let k ← call
  let w ← get
  assert (∃ p ∈ w.kern.procs, pid = some p.pid)
  updKern fun kern =>
    { kern with
      procs := kern.procs.map fun p =>
        if fd = some p.pidfd then { p with dead := p.dead <|> some (sys.status k), held := [] }
        else p }

end

end Yar
