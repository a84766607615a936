import Yar.Main

/-!
# The monitor's line buffer

`monEvent` and the part of `monProcess` that works on the buffer of `mon_t`, byte by byte. What
the selected handler then does is `monRun`.
-/

namespace Yar

open Program

/-- `MON_LINELEN` -/
abbrev monLinelen : Nat := 4096

/-- The buffer of `mon_t`. `path0` is the byte that follows `line` in memory, the first one of
`tty.path`. The last three fields record what has been done, newest first: the indices of `line`
that were read or written, the lines that reached `monProcess`, and the handlers that ran. -/
structure Mon where
  line : Nat → Byte := fun _ => 0
  n : Nat := 0
  path0 : Byte := 0
  touched : List Nat := []
  lines : List CStr := []
  ran : List (MonCmd × Option CStr) := []

namespace Mon

abbrev MonAct := EStateM Halt Mon

def lineGet (i : Nat) : MonAct Byte := do
  let m ← get
  set { m with touched := i :: m.touched }
  return if i < monLinelen then m.line i else m.path0

def linePut (i : Nat) (c : Byte) : MonAct Unit :=
  modify fun m => { m with line := Function.update m.line i c, touched := i :: m.touched }

def setN (n : Nat) : MonAct Unit := modify fun m => { m with n := n }

/-- The loop of `monProcess` with `k` rounds left: where it stops, and what `args` is then. -/
def monScan (k : Nat) : MonAct (Nat × Nat) :=
  match k with
  | 0 => return (monLinelen, 0)
  | k + 1 => do
    let i := monLinelen - (k + 1)
    let c ← lineGet i
    if c = 32 then do
      linePut i 0
      return (i, i + 1)
    else if c = 0 then return (i, 0)
    else monScan k

/-- The string at `&line[i]`, of less than `k` bytes. -/
def lineStr (k i : Nat) : MonAct CStr :=
  match k with
  | 0 => throw .ub
  | k + 1 => do
    let c ← lineGet i
    if c = 0 then return []
    else do
      let s ← lineStr k (i + 1)
      return c :: s

/-- The string that `args` stands for. -/
def argsStr (args : Nat) : MonAct (Option CStr) :=
  if args = 0 then pure none else some <$> lineStr (monLinelen + 1) args

/-- `MonCmds[j].cmd(args, epollfd)` -/
def runCmd (m : MonCmd) (args : Nat) : MonAct Unit := do
  let s ← argsStr args
  modify fun this => { this with ran := (m, s) :: this.ran }

/-- The line that has been read, without its terminator. -/
def noteLine : MonAct Unit :=
  modify fun this =>
    { this with lines := ((List.range (this.n - 1)).map this.line) :: this.lines }

def monProcess : MonAct Unit := do
  if (← get).n = 0 then return
  else do
    noteLine
    let (i, args) ← monScan monLinelen
    let c ← lineGet i
    if c ≠ 0 then return
    else do
      -- `strncmp` over `i + 1` bytes, the last of which is the terminator
      let cmd := (List.range i).map (← get).line
      match MonCmds.find? fun e => e.1 == cmd with
      | some e => runCmd e.2 args
      | none => pure ()

/-- `line[curn]`, which is looked at for a full buffer only. -/
def lineNext (curn : Nat) : MonAct Byte :=
  if curn = monLinelen then lineGet curn else pure newline

/-- `monEvent` for `EPOLLIN`, when the read yields `c`. -/
def monEvent (c : Byte) : MonAct Unit := do
  let curn := (← get).n
  require .abort (curn < monLinelen)
  linePut curn c
  let curn := curn + 1
  require .abort (curn ≤ monLinelen)
  let next ← lineNext curn
  if next ≠ newline then setN 0
  else do
    setN curn
    let last ← lineGet (curn - 1)
    when (last = newline) do
      linePut (curn - 1) 0
      monProcess
      setN 0

end Mon

end Yar
