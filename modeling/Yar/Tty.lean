import Mathlib.Tactic.NormNum
import Yar.Kernel

/-!
# tty.c and the inline functions of tty.h

`ttyNotifyEvent` is in `Yar.Main`, with the handlers it calls.
-/

namespace Yar

open Program

variable (sys : Sys)

/-- `ttyIsClttty` -/
def ttyIsClttty (this : Tty) : Prop := this.link ≠ none

instance (this : Tty) : Decidable (ttyIsClttty this) :=
  inferInstanceAs (Decidable (this.link ≠ none))

def ttyDomInQCnt (this : Tty) (port : Port) : Nat :=
  if this.dfd = none then 0 else port.domq.length

/-- `ttyIdle`, after its assertion that the tty is a client tty. -/
def World.ttyIdle (w : World) (r : TtyRef) : Bool :=
  (w.ttys r).opens == 0 && ttyDomInQCnt (w.ttys r) (w.kern.ports r) == 0

def ttyIdle (r : TtyRef) : Act Bool := do
  let w ← get
  assert (ttyIsClttty (w.ttys r))
  return w.ttyIdle r

def ttyInit (r : TtyRef) (ttylink extra1src extra1dest extra2src extra2dest : Option CStr) :
    Act Unit := do
  assert (((← get).ttys r).link = none)
  updTty r fun this =>
    { this with
      link := ttylink
      extralink1 := ⟨extra1src, extra1dest⟩
      extralink2 := ⟨extra2src, extra2dest⟩
      dfd := none, sfd := none, ifd := none, iwd := none }

/-! ## Cleanup -/

/-- `unlink` of one of the three names, unless it is null or empty. -/
def ttyUnlink (r : TtyRef) (name : Option CStr) : Act Unit :=
  match name with
  | some (c :: path) => unlink sys r (c :: path)
  | _ => pure ()

def ttyCleanup (r : TtyRef) : Act Unit := do
  let this := (← get).ttys r
  close this.ifd
  close this.dfd
  close this.sfd
  ttyUnlink sys r this.link
  ttyUnlink sys r this.extralink1.src
  ttyUnlink sys r this.extralink2.src
  updTty r fun _ => {}

/-! ## Creation -/

/-- `name != NULL && access(name, F_OK) == 0` -/
def ttyNameTaken (name : Option CStr) : Act Bool :=
  match name with
  | some path => access sys path
  | none => pure false

/-- The creation of one link: true unless its `symlink` fails. -/
def ttySymlink (r : TtyRef) (name : Option CStr) : Act Bool :=
  match name with
  | some path => symlink sys r path
  | none => pure true

/-- A call that yields a descriptor or fails for want of resources. -/
def acquire : Act (Option Fd) := do
  let k ← call
  if sys.fails k then return none
  else return some (← openFd)

/-- The three existence tests that come before anything is created. -/
def ttyNamesTaken (this : Tty) : Act Bool := do
  if ← ttyNameTaken sys this.link then return true
  else if ← ttyNameTaken sys this.extralink1.src then return true
  else ttyNameTaken sys this.extralink2.src

/-- The three links, each after the one before it. -/
def ttyLinks (r : TtyRef) (this : Tty) : Act Bool := do
  if !(← ttySymlink sys r this.link) then return false
  else do
    assert (this.extralink1.src ≠ none → this.extralink2.dst ≠ none)
    if !(← ttySymlink sys r this.extralink1.src) then return false
    else do
      assert (this.extralink2.src ≠ none → this.extralink2.dst ≠ none)
      ttySymlink sys r this.extralink2.src

/-- The inotify descriptor and its watch on the sub side. -/
def ttyWatch (r : TtyRef) : Act Bool := do
  match ← acquire sys with
  | none => return false
  | some ifd => do
    updTty r fun this => { this with ifd := some ifd }
    let k ← call
    if sys.fails k then return false
    else do
      updTty r fun this => { this with iwd := some ifd }
      return true

/-- `ttyCreate` up to its `cleanup` label: false stands for the jump. The sub side is held
in a local variable until everything else has succeeded. -/
def ttyBuild (r : TtyRef) : Act Bool := do
  let this := (← get).ttys r
  assert (this.dfd = none)
  if ← ttyNamesTaken sys this then return false
  else match ← acquire sys with
    | none => return false
    | some dfd => do
      updTty r fun this => { this with dfd := some dfd }
      updPort r fun _ => {}
      match ← acquire sys with
      | none => return false
      | some sfd => do
        if !(← ttyLinks sys r this) then return false
        else if !(← ttyWatch sys r) then return false
        else do
          updTty r fun this =>
            { this with sfd := some sfd, rbytes := 0, wbytes := 0, opens := 0 }
          return true

def ttyCreate (r : TtyRef) : Act Bool := do
  if ← ttyBuild sys r then return true
  else do
    ttyCleanup sys r
    return false

/-- The second descriptor is registered only if the first one could be. In the source the assertions on
it stand between the two calls; a tty that has been created meets them. -/
def ttyRegisterEvents (r : TtyRef) : Act Bool := do
  let this := (← get).ttys r
  match this.dfd, this.ifd with
  | some dfd, some ifd => do
    assert (this.iwd ≠ none)
    if !(← epollAdd sys dfd (.dom r)) then return false
    else epollAdd sys ifd (.ifd r)
  | _, _ => throw .abort

/-! ## Reading and writing -/

/-- The conversion of a 64-bit value to `int`. -/
def toInt (x : Int) : Int := Int.bmod x (2 ^ 32)

/-- The `opens == 0` branch of `ttyWriteBuf`: `used` and `free` are `int`s made from 64-bit
values, and `none` is a copy that leaves `discards`. -/
def ttyDiscard (this : Tty) (buf : CStr) : Option Tty :=
  let used := toInt this.wdbytes
  let free := max (toInt (1024 - used)) 0
  let nb := min (buf.length : Int) free
  if nb = 0 ∨ 0 ≤ used ∧ used + nb ≤ 1024 then
    some { this with
      discards := fun i =>
        if used ≤ i ∧ i < used + nb then buf.getD (i - used).toNat 0 else this.discards i
      wdbytes := (this.wdbytes + buf.length) % 2 ^ 64 }
  else none

/-- The time stamp of a successful write. -/
def ttyMarkTime (ts : Option CmdId) : Act Unit :=
  match ts with
  | some id => do
    let now ← clock_gettime sys
    updCmd id fun this => { this with lastwrite := now }
  | none => pure ()

/-- `ts` names the command whose `lastwrite` the caller passes, if any. -/
def ttyWriteBuf (r : TtyRef) (buf : CStr) (ts : Option CmdId) : Act Int := do
  note (.write r buf)
  let this := (← get).ttys r
  if this.opens ≠ 0 then
    match ← write sys r with
    | .again => return -1
    | .error => throw .abort
    | .full => do
      ttyMarkTime sys ts
      updTty r fun this => { this with wbytes := this.wbytes + buf.length }
      return buf.length
  else match ttyDiscard this buf with
    | none => throw .ub
    | some this => do
      updTty r fun _ => this
      return buf.length

def ttyWriteChar (r : TtyRef) (c : Byte) (ts : Option CmdId) : Act Int :=
  ttyWriteBuf sys r [c] ts

/-- The test `diff < delay`, made only for a time stamp and a positive delay. -/
def tooEarly (now : Time) (ts : Option Time) (delay : Double) : Bool :=
  match ts with
  | some ts => Double.lt (.fin 0) delay && Double.lt (.fin (now - ts)) delay
  | none => false

/-- The number `read` returned, 0 as well when the read is put off, and the byte: what the
stack held unless the number is 1. -/
def ttyReadChar (r : TtyRef) (ts : Option Time) (delay : Double) (rd : Read) :
    Act (Int × Byte) := do
  let now ← clock_gettime sys
  if tooEarly now ts delay then do
    updTty r fun this => { this with delaycnt := this.delaycnt + 1 }
    return (0, sys.junk (← get).kern.calls)
  else do
    let (n, c) ← read sys r rd
    if n = 1 then do
      updTty r fun this => { this with rbytes := this.rbytes + 1 }
      return (n, c)
    else return (n, c)

end Yar
