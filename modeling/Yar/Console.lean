import Yar.Loop
import Yar.Mon

/-!
# The monitor's tty, byte by byte

`Loop` has the monitor handle whole lines. Here each event of its tty reads one byte, `monEvent` puts
it into the line buffer, and a handler runs when the byte ends a line.
-/

namespace Yar

open Program Transition

/-- The loop with the monitor's line buffer; `nread` of the bytes typed at the monitor's tty have been
read. -/
structure Console where
  loop : Loop
  mon : Mon
  nread : Nat

namespace Console

/-- The bytes that have been typed at the monitor's tty. -/
def typed (c : Console) : List Byte := (c.loop.world.kern.ports .mon).hist.map Prod.fst

/-- Those that have been read. -/
def bytesRead (c : Console) : List Byte := c.typed.take c.nread

/-- The one that a read yields. -/
def next (c : Console) : Option Byte := c.typed[c.nread]?

variable (sys : Sys)

/-- `monEvent`: the byte goes into the line buffer, and what the buffer has selected runs. -/
def monEvent (b : Byte) (m : Mon) : Act Mon :=
  match Mon.monEvent b m with
  | .ok _ m' => do
    (m'.ran.take (m'.ran.length - m.ran.length)).reverse.forM fun e => monRun sys e.1 e.2
    return m'
  | .error e _ => throw e

end Console

/-- `'/'`, the first byte of the path of any tty. -/
abbrev slash : Byte := 47

inductive ConsoleEvent where
  | env (e : Env)
  | wait (batch : List Source)
  | dispatch (x : Answer)
  | byte

variable (sys : Sys)

inductive ConsoleStep : Console → ConsoleEvent → Console → Prop where
  | env (c : Console) (e : Env) :
      ConsoleStep c (.env e) { c with loop := { c.loop with world := e.apply c.loop.world } }
  | wait {w : World} {batch : List Source} {m : Mon} {n : Nat} (h : Fetched w.kern batch)
      (hmon : .dom .mon ∈ batch → Console.next ⟨⟨w, []⟩, m, n⟩ ≠ none) :
      ConsoleStep ⟨⟨w, []⟩, m, n⟩ (.wait batch) ⟨⟨w, batch⟩, m, n⟩
  | dispatch {w w' : World} {s : Source} {rest : List Source} {x : Answer} {m : Mon} {n : Nat}
      (hs : s ≠ .dom .mon) (h : hdlr sys s x w = .ok () w') :
      ConsoleStep ⟨⟨w, s :: rest⟩, m, n⟩ (.dispatch x) ⟨⟨w', rest⟩, m, n⟩
  | byte {w w' : World} {rest : List Source} {b : Byte} {m m' : Mon} {n : Nat}
      (hb : Console.next ⟨⟨w, .dom .mon :: rest⟩, m, n⟩ = some b)
      (h : Console.monEvent sys b m w = .ok m' w') :
      ConsoleStep ⟨⟨w, .dom .mon :: rest⟩, m, n⟩ .byte ⟨⟨w', rest⟩, m', n + 1⟩

/-- `main` has come as far as the loop. The line buffer is empty, whatever its bytes are. -/
structure ConsoleStarted (o : Options) (c : Console) : Prop where
  started : Started sys o c.loop.world
  batch : c.loop.batch = []
  n : c.mon.n = 0
  path0 : c.mon.path0 = slash
  lines : c.mon.lines = []
  nread : c.nread = 0

abbrev ConsoleReachable (ok : Console → ConsoleEvent → Prop) (c : Console) : Prop :=
  ∃ o, Reach (ConsoleStarted sys o) (ConsoleStep sys) ok c

end Yar
