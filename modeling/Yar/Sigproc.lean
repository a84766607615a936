import Yar.Loop

/-!
# sigproc: signals as events

The signals that end yar are blocked and read from a signalfd, which is registered edge-triggered. A
signal that is pending already does not become pending again, and only one that does wakes up the loop.
-/

namespace Yar

open Transition

/-- `sigAddTermSignals` -/
def sigAddTermSignals (mask : List Signal) : List Signal :=
  mask ++ [.SIGALRM, .SIGTERM, .SIGINT, .SIGHUP, .SIGQUIT, .SIGUSR1, .SIGVTALRM, .SIGUSR2, .SIGPIPE,
    Signal.SIGIO]

/-- `sigproc_t` and what the kernel keeps for it: the blocked signals that are pending, whether the
signalfd is registered, and whether it is on the ready list of the epoll instance. -/
structure Sigproc where
  mask : List Signal
  pending : List Signal := []
  registered : Bool := false
  edge : Bool := false
  deriving DecidableEq

def sigprocInit : Sigproc := { mask := sigAddTermSignals [] }

/-- `EPOLL_CTL_ADD` looks whether there is something to read. -/
def sigprocRegisterEvents (this : Sigproc) : Sigproc :=
  { this with registered := true, edge := !this.pending.isEmpty }

/-- A blocked signal arrives. -/
def Sigproc.arrive (this : Sigproc) (s : Signal) : Sigproc :=
  if s ∈ this.pending then this
  else { this with pending := this.pending ++ [s], edge := this.registered }

/-- A `read` takes one signal out. -/
def Sigproc.take (this : Sigproc) (s : Signal) : Sigproc :=
  { this with pending := this.pending.erase s }

/-- What a step of the loop does to the signalfd. `epoll_wait` reports it if it is on the ready list with
something to read, and takes it off; the handler then reads any of the signals. -/
inductive Sigproc.Does (this : Sigproc) (batch : List Source) : LoopEvent → Sigproc → Prop where
  | env (e : Env) : Does this batch (.env e) this
  | unreported {fetched : List Source} (h : .sig ∉ fetched) : Does this batch (.wait fetched) this
  | reported {fetched : List Source} (h : .sig ∈ fetched) (hedge : this.edge = true)
      (hread : this.pending ≠ []) : Does this batch (.wait fetched) { this with edge := false }
  | other (x : Answer) (h : batch.head? ≠ some .sig) : Does this batch (.dispatch x) this
  | read (x : Answer) (h : batch.head? = some .sig) (hs : x.signo ∈ this.pending) :
      Does this batch (.dispatch x) (this.take x.signo)

/-- The loop with its signalfd, whether `sigEvent` has ended it, and all signals that have arrived since
they were blocked. -/
structure SigLoop where
  loop : Loop
  sigproc : Sigproc
  exited : Bool := false
  arrived : List Signal := []

inductive SigEvent where
  | arrive (s : Signal)
  | loop (e : LoopEvent)

variable (sys : Sys)

/-- A handler other than `sigEvent` may end yar as well; there is no step then. -/
inductive SigStep : SigLoop → SigEvent → SigLoop → Prop where
  | arrive (l : SigLoop) (s : Signal) (hs : s ∈ l.sigproc.mask) : SigStep l (.arrive s)
      { l with sigproc := l.sigproc.arrive s, arrived := l.arrived ++ [s] }
  | loop {l : SigLoop} {e : LoopEvent} {loop' : Loop} {sigproc' : Sigproc} (hrun : l.exited = false)
      (h : LoopStep sys l.loop e loop') (hfd : l.sigproc.Does l.loop.batch e sigproc') :
      SigStep l (.loop e) { l with loop := loop', sigproc := sigproc' }
  | exit {w w' : World} {rest : List Source} {this : Sigproc} {arrived : List Signal} {x : Answer}
      {halt : Halt} (hs : x.signo ∈ this.pending) (h : hdlr sys .sig x w = .error halt w') :
      SigStep ⟨⟨w, .sig :: rest⟩, this, false, arrived⟩ (.loop (.dispatch x))
        ⟨⟨w', []⟩, this.take x.signo, true, arrived⟩

/-- The loop is entered. Signals may have arrived between `sigprocInit` and `sigprocRegisterEvents`. -/
def SigStarted (l : SigLoop) : Prop :=
  ∃ o, Started sys o l.loop.world ∧ l.loop.batch = [] ∧ l.exited = false ∧
    (∀ s ∈ l.arrived, s ∈ sigprocInit.mask) ∧
    l.sigproc = sigprocRegisterEvents (l.arrived.foldl Sigproc.arrive sigprocInit)

abbrev SigReachable (ok : SigLoop → SigEvent → Prop) (l : SigLoop) : Prop :=
  Reach (SigStarted sys) (SigStep sys) ok l

end Yar
