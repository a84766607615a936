import Yar.Lib.Reach
import Yar.Main

/-!
# theLoop and its surroundings

`Event` is one step of yar and its surroundings taken one handler at a time, in any order.
`Loop` adds the batches of `epoll_wait`: the events of a batch are fetched at once and
dispatched one after the other, while the handlers change what they refer to.
-/

namespace Yar

open Program Transition

/-! ## What happens outside of yar -/

/-- A client or a child opens or closes the sub side of a tty, a process writes a byte to
it, a child dies, a child execs. -/
inductive Env where
  | opened (r : TtyRef)
  | closed (r : TtyRef) (wr : Bool)
  | typed (r : TtyRef) (c : Byte) (p : Pid)
  | exited (p : Pid) (status : Int)
  | execed (p : Pid)

/-- inotify merges an event with an identical one that is last in the queue. -/
def Port.push (p : Port) (mask : Mask) : Port :=
  if p.notify.getLast? = some mask then p else { p with notify := p.notify ++ [mask] }

/-- A child lets go of the descriptors it got from yar. -/
def Kernel.letGo (k : Kernel) (p : Pid) (f : Proc → Proc) : Kernel :=
  let procs := k.procs.map fun q => if q.pid = p then { f q with held := [] } else q
  { k with procs := procs }.sweep

def Env.apply (e : Env) (w : World) : World :=
  match e with
  | .opened r => w.updPort r fun p => { p with clients := p.clients + 1 }.push .IN_OPEN
  | .closed r wr =>
    if (w.kern.ports r).clients = 0 then w
    else w.updPort r fun p =>
      { p with clients := p.clients - 1 }.push (if wr then .IN_CLOSE_WRITE else .IN_CLOSE_NOWRITE)
  | .typed r c p => w.updPort r fun port => { port with hist := port.hist ++ [(c, p)] }
  | .exited p status =>
    { w with kern := w.kern.letGo p fun q => { q with dead := q.dead <|> some status } }
  | .execed p => { w with kern := w.kern.letGo p id }

/-! ## Handlers -/

inductive Signal where
  | SIGALRM | SIGTERM | SIGINT | SIGHUP | SIGQUIT | SIGUSR1 | SIGVTALRM | SIGUSR2 | SIGPIPE | SIGIO
  deriving DecidableEq

/-- What the descriptor of an event yields to the handler: the outcome of the read, for the
monitor the line that the byte completes, for the signalfd the signal. An event is one of `EPOLLIN`. -/
structure Answer where
  rd : Read := .ready
  line : Option CStr := none
  signo : Signal := .SIGTERM

variable (sys : Sys)

/-- `sigEvent`: every signal of its switch ends the loop, and `main` then exits. -/
def sigEvent (signo : Signal) : Act Unit :=
  match signo with
  | .SIGQUIT => pure ()
  | _ => exit sys

/-- `ed->hdlr(ed->obj, evnts, epollfd)`. The descriptors of a command lie inside its
`cmd_t`. -/
def hdlr (s : Source) (x : Answer) : Act Unit :=
  match s with
  | .dom .bcst => bcstttyEvent sys x.rd
  | .dom .mon => do
    assert (x.rd = .ready)
    match x.line with
    | some line => monProcess sys line
    | none => pure ()
  | .dom (.clt id) => do
    live id
    cmdCltttyEvent sys id x.rd
  | .dom (.cmd id) => do
    live id
    cmdCmdttyEvent sys id x.rd
  | .ifd .bcst => ttyNotifyEvent sys .bcst x.rd
  | .ifd .mon => ttyNotifyEvent sys .mon x.rd
  | .ifd (.clt id) => do
    live id
    ttyNotifyEvent sys (.clt id) x.rd
  | .ifd (.cmd id) => do
    live id
    ttyNotifyEvent sys (.cmd id) x.rd
  | .pidfd id _ => do
    live id
    cmdPidEvent sys id
  | .sig => sigEvent sys x.signo
  | .fs => pure ()

/-! ## One handler at a time -/

inductive Event where
  | env (e : Env)
  | hdlr (s : Source) (x : Answer)

def Event.act (e : Event) : Act Unit :=
  match e with
  | .env e => modify e.apply
  | .hdlr s x => Yar.hdlr sys s x

/-- `main` has come as far as the loop. -/
def Started (o : Options) (w : World) : Prop := main sys o.specs (boot o) = .ok () w

def Step (w : World) (e : Event) (w' : World) : Prop := e.act sys w = .ok () w'

/-- The states of yar between handlers, in runs whose steps all meet `ok`. -/
abbrev Reachable (ok : World → Event → Prop) (w : World) : Prop :=
  ∃ o, Reach (Started sys o) (Step sys) ok w

/-! ## Batches -/

structure Loop where
  world : World
  batch : List Source := []

/-- The file behind the source can have something to report. A pidfd has from the death of its process
on, also once that has been reaped. Signals and requests come from outside of this state, so that their
descriptors may be reported at any time: which signals are pending, and that they are reported once, is
in `Yar.Sigproc`. -/
def Kernel.ready (k : Kernel) (s : Source) : Prop :=
  match s with
  | .dom r => (k.ports r).domq ≠ []
  | .ifd r => (k.ports r).notify ≠ []
  | .pidfd _ fd => ∀ p ∈ k.procs, p.pidfd = fd → p.dead ≠ none
  | .sig => True
  | .fs => True

instance (k : Kernel) (s : Source) : Decidable (k.ready s) :=
  match s with
  | .dom r => inferInstanceAs (Decidable ((k.ports r).domq ≠ []))
  | .ifd r => inferInstanceAs (Decidable ((k.ports r).notify ≠ []))
  | .pidfd _ fd => inferInstanceAs (Decidable (∀ p ∈ k.procs, p.pidfd = fd → p.dead ≠ none))
  | .sig => .isTrue trivial
  | .fs => .isTrue trivial

/-- `MAX_EVENTS` -/
abbrev maxEvents : Nat := 1024

/-- What `epoll_wait` can put into `events`. -/
def Fetched (k : Kernel) (batch : List Source) : Prop :=
  batch.Nodup ∧ batch.length ≤ maxEvents ∧
    ∀ s ∈ batch, s ∈ k.interest.map Prod.snd ∧ k.ready s

instance (k : Kernel) (batch : List Source) : Decidable (Fetched k batch) :=
  inferInstanceAs (Decidable (_ ∧ _ ∧ _))

inductive LoopEvent where
  | env (e : Env)
  | wait (batch : List Source)
  | dispatch (x : Answer)

inductive LoopStep : Loop → LoopEvent → Loop → Prop where
  | env (l : Loop) (e : Env) : LoopStep l (.env e) { l with world := e.apply l.world }
  | wait {w : World} {batch : List Source} (h : Fetched w.kern batch) :
      LoopStep ⟨w, []⟩ (.wait batch) ⟨w, batch⟩
  | dispatch {w w' : World} {s : Source} {rest : List Source} {x : Answer}
      (h : hdlr sys s x w = .ok () w') : LoopStep ⟨w, s :: rest⟩ (.dispatch x) ⟨w', rest⟩

abbrev LoopReachable (ok : Loop → LoopEvent → Prop) (l : Loop) : Prop :=
  ∃ o, Reach (fun l => Started sys o l.world ∧ l.batch = []) (LoopStep sys) ok l

/-- A run of the loop, seen one handler at a time. -/
theorem LoopReachable.world {okL : Loop → LoopEvent → Prop} {ok : World → Event → Prop}
    (hok : ∀ w s rest x, okL ⟨w, s :: rest⟩ (.dispatch x) → ok w (.hdlr s x))
    (henv : ∀ w e, ok w (.env e)) {l : Loop} (hl : LoopReachable sys okL l) :
    Reachable sys ok l.world := by
  obtain ⟨o, hl⟩ := hl
  refine ⟨o, hl.map Loop.world (fun _ h => h.1) ?_⟩
  intro l e l' he h
  cases h with
  | env _ e => exact .inr ⟨.env e, henv _ _, modify_eq_ok.mpr rfl⟩
  | wait h => exact .inl rfl
  | @dispatch w w' s rest x h => exact .inr ⟨.hdlr s x, hok _ _ _ _ he, h⟩

end Yar
