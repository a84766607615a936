import Mathlib.Data.Set.Insert
import Mathlib.Data.List.Basic
import Yar.Loop

/-!
# What a function may change

The world is cut into parts. `Modifies S w w'` says that `w'` differs from `w` at most in
the parts of `S`, that the calls went on being numbered and that the trace grew by
observations that belong to `S`. Each function of the source gets one lemma: it modifies no
more than a set that contains the parts it works on. Counters that no handler reads are not
parts.
-/

namespace Yar.Proofs

open Program

inductive Part where
  | table | slowest | readycount | options | delonexit | flags | brk | names | kproc
  | spec (id : CmdId) | ring (id : CmdId) | ready (id : CmdId) | proc (id : CmdId)
  | lastwrite (id : CmdId) | policy (id : CmdId)
  | tty (r : TtyRef) | opens (r : TtyRef) | nread (r : TtyRef) | hist (r : TtyRef)
  | notify (r : TtyRef)
  | oAdded | oRemoved | oForked | oRead (r : TtyRef) | oOutput | oRelay | oWrite (r : TtyRef)
  | oLink
  deriving DecidableEq

/-- The part of the trace an observation belongs to. -/
def obsPart : Obs → Part
  | .added _ => .oAdded
  | .removed _ => .oRemoved
  | .forked _ _ => .oForked
  | .read r _ => .oRead r
  | .output _ _ _ _ => .oOutput
  | .relay _ _ _ => .oRelay
  | .write r _ => .oWrite r
  | .symlink _ _ => .oLink
  | .unlink _ _ _ => .oLink

/-- The fields of a tty that only its creation and cleanup set. -/
def ttyStatic (t : Tty) : Option CStr × Link × Link × Option Fd × Option Fd × Option Fd × Option Fd :=
  (t.link, t.extralink1, t.extralink2, t.dfd, t.sfd, t.ifd, t.iwd)

/-- The options that only a monitor command changes, if anything does. -/
def globalsOptions (g : Globals) : Option CStr × Option CStr × Bool × Bool :=
  (g.readystr, g.stopstr, g.restart, g.linebufferbcst)

/-- The rest of the globals. -/
def globalsFlags (g : Globals) : Globals :=
  { g with
    cmds := [], slowestcmd := none, cmdsreadycnt := 0, readystr := none, stopstr := none
    restart := true, linebufferbcst := false, cmddelonexit := false }

/-- The fields of a command that only `cmdInit` and `cmdCleanup` set. -/
def cmdSpecOf (c : Cmd) : CStr × CStr × CStr × Option CStr × Double × Bool :=
  (c.name, c.bcstprefix, c.cmdline, c.stopstr, c.delay, c.restart)

def kernProc (k : Kernel) : List Proc × List Fd × List (Fd × Source) × Pid × Fd :=
  (k.procs, k.fds, k.interest, k.nextPid, k.nextFd)

/-- Agreement of two worlds on a part. The parts of the trace are compared in `Modifies`. -/
def SameOn (w w' : World) : Part → Prop
  | .table => w'.gbls.cmds = w.gbls.cmds
  | .slowest => w'.gbls.slowestcmd = w.gbls.slowestcmd
  | .readycount => w'.gbls.cmdsreadycnt = w.gbls.cmdsreadycnt
  | .options => globalsOptions w'.gbls = globalsOptions w.gbls
  | .delonexit => w'.gbls.cmddelonexit = w.gbls.cmddelonexit
  | .flags => globalsFlags w'.gbls = globalsFlags w.gbls
  | .brk => w'.brk = w.brk
  | .names => w'.kern.names = w.kern.names
  | .kproc => kernProc w'.kern = kernProc w.kern
  | .spec id => cmdSpecOf (w'.heap id) = cmdSpecOf (w.heap id)
  | .ring id => ((w'.heap id).buf, (w'.heap id).bufn, (w'.heap id).bufstart, (w'.heap id).bufof) =
      ((w.heap id).buf, (w.heap id).bufn, (w.heap id).bufstart, (w.heap id).bufof)
  | .ready id => (w'.heap id).readycnt = (w.heap id).readycnt
  | .proc id => ((w'.heap id).pid, (w'.heap id).pidfd) = ((w.heap id).pid, (w.heap id).pidfd)
  | .lastwrite id => (w'.heap id).lastwrite = (w.heap id).lastwrite
  | .policy id => (w'.heap id).deleteonexit = (w.heap id).deleteonexit
  | .tty r => ttyStatic (w'.ttys r) = ttyStatic (w.ttys r)
  | .opens r => (w'.ttys r).opens = (w.ttys r).opens
  | .nread r => (w'.kern.ports r).nread = (w.kern.ports r).nread
  | .hist r => (w'.kern.ports r).hist = (w.kern.ports r).hist
  | .notify r => ((w'.kern.ports r).notify, (w'.kern.ports r).clients) =
      ((w.kern.ports r).notify, (w.kern.ports r).clients)
  | .oAdded | .oRemoved | .oForked | .oRead _ | .oOutput | .oRelay | .oWrite _ | .oLink => True

structure Modifies (S : Set Part) (w w' : World) : Prop where
  calls : w.kern.calls ≤ w'.kern.calls
  trace : ∃ l, w'.trace = l ++ w.trace ∧ ∀ o ∈ l, obsPart o ∈ S
  same : ∀ p, p ∉ S → SameOn w w' p

variable {S T : Set Part} {w w' : World}

lemma SameOn.refl (w : World) (p : Part) : SameOn w w p := by
  cases p <;> simp [SameOn]

lemma SameOn.trans {w₁ w₂ w₃ : World} {p : Part} (h : SameOn w₁ w₂ p) (h' : SameOn w₂ w₃ p) :
    SameOn w₁ w₃ p := by
  cases p <;> first | exact Eq.trans h' h | trivial

instance : Std.Refl (Modifies S) where
  refl w := ⟨le_rfl, ⟨[], rfl, by simp⟩, fun p _ => SameOn.refl w p⟩

instance : IsTrans World (Modifies S) where
  trans w₁ w₂ w₃ h h' := by
    obtain ⟨l, hl, hlS⟩ := h.trace
    obtain ⟨l', hl', hlS'⟩ := h'.trace
    refine ⟨h.calls.trans h'.calls, ⟨l' ++ l, ?_, ?_⟩,
      fun p hp => (h.same p hp).trans (h'.same p hp)⟩
    · rw [hl', hl, List.append_assoc]
    · intro o ho
      rcases List.mem_append.mp ho with ho | ho
      · exact hlS' o ho
      · exact hlS o ho

lemma Modifies.mono (hST : S ⊆ T) (h : Modifies S w w') : Modifies T w w' := by
  obtain ⟨l, hl, hlS⟩ := h.trace
  exact ⟨h.calls, ⟨l, hl, fun o ho => hST (hlS o ho)⟩, fun p hp => h.same p fun hS => hp (hST hS)⟩

/-- A change that leaves calls and trace alone. -/
lemma Modifies.of_same (hc : w'.kern.calls = w.kern.calls) (ht : w'.trace = w.trace)
    (h : ∀ p, p ∉ S → SameOn w w' p) : Modifies S w w' :=
  ⟨hc.ge, ⟨[], ht, by simp⟩, h⟩

/-! ## The primitives -/

lemma note_modifies {o : Obs} (ho : obsPart o ∈ S) : Keeps (Modifies S) (note o) :=
  Keeps.modify fun w => ⟨le_rfl, ⟨[o], rfl, by simpa⟩, fun p _ => SameOn.refl w p⟩

lemma call_modifies : Keeps (Modifies S) call := by
  intro w k w' h
  simp only [call, bind_eq_ok, get_eq_ok, set_eq_ok, pure_eq_ok] at h
  obtain ⟨_, _, ⟨rfl, rfl⟩, _, _, rfl, -, rfl⟩ := h
  exact ⟨Nat.le_succ _, ⟨[], rfl, by simp⟩, fun p _ => SameOn.refl _ p⟩

lemma updCmd_modifies {id : CmdId} {f : Cmd → Cmd}
    (hspec : .spec id ∈ S ∨ ∀ c, cmdSpecOf (f c) = cmdSpecOf c)
    (hring : .ring id ∈ S ∨
      ∀ c, ((f c).buf, (f c).bufn, (f c).bufstart, (f c).bufof) = (c.buf, c.bufn, c.bufstart, c.bufof))
    (hready : .ready id ∈ S ∨ ∀ c, (f c).readycnt = c.readycnt)
    (hproc : .proc id ∈ S ∨ ∀ c, ((f c).pid, (f c).pidfd) = (c.pid, c.pidfd))
    (hlast : .lastwrite id ∈ S ∨ ∀ c, (f c).lastwrite = c.lastwrite)
    (hpolicy : .policy id ∈ S ∨ ∀ c, (f c).deleteonexit = c.deleteonexit) :
    Keeps (Modifies S) (updCmd id f) := by
  refine Keeps.modify fun w => Modifies.of_same rfl rfl fun p hp => ?_
  have hne : ∀ j, j ≠ id → (w.updCmd id f).heap j = w.heap j := fun j hj => by
    simp [World.updCmd, hj]
  have heq : (w.updCmd id f).heap id = f (w.heap id) := by simp [World.updCmd]
  cases p with
  | spec j =>
    by_cases hj : j = id
    · subst hj; simpa only [SameOn, heq] using hspec.resolve_left hp (w.heap j)
    · simp only [SameOn, hne j hj]
  | ring j =>
    by_cases hj : j = id
    · subst hj; simpa only [SameOn, heq] using hring.resolve_left hp (w.heap j)
    · simp only [SameOn, hne j hj]
  | ready j =>
    by_cases hj : j = id
    · subst hj; simpa only [SameOn, heq] using hready.resolve_left hp (w.heap j)
    · simp only [SameOn, hne j hj]
  | proc j =>
    by_cases hj : j = id
    · subst hj; simpa only [SameOn, heq] using hproc.resolve_left hp (w.heap j)
    · simp only [SameOn, hne j hj]
  | lastwrite j =>
    by_cases hj : j = id
    · subst hj; simpa only [SameOn, heq] using hlast.resolve_left hp (w.heap j)
    · simp only [SameOn, hne j hj]
  | policy j =>
    by_cases hj : j = id
    · subst hj; simpa only [SameOn, heq] using hpolicy.resolve_left hp (w.heap j)
    · simp only [SameOn, hne j hj]
  | _ => first | rfl | trivial

lemma updTty_modifies {r : TtyRef} {f : Tty → Tty}
    (htty : .tty r ∈ S ∨ ∀ t, ttyStatic (f t) = ttyStatic t)
    (hopens : .opens r ∈ S ∨ ∀ t, (f t).opens = t.opens) : Keeps (Modifies S) (updTty r f) := by
  refine Keeps.modify fun w => Modifies.of_same rfl rfl fun p hp => ?_
  have hne : ∀ q, q ≠ r → (w.updTty r f).ttys q = w.ttys q := fun q hq => by
    simp [World.updTty, hq]
  have heq : (w.updTty r f).ttys r = f (w.ttys r) := by simp [World.updTty]
  cases p with
  | tty q =>
    by_cases hq : q = r
    · subst hq; simpa only [SameOn, heq] using htty.resolve_left hp (w.ttys q)
    · simp only [SameOn, hne q hq]
  | opens q =>
    by_cases hq : q = r
    · subst hq; simpa only [SameOn, heq] using hopens.resolve_left hp (w.ttys q)
    · simp only [SameOn, hne q hq]
  | _ => first | rfl | trivial

lemma updPort_modifies {r : TtyRef} {f : Port → Port}
    (hnread : .nread r ∈ S ∨ ∀ p, (f p).nread = p.nread)
    (hhist : .hist r ∈ S ∨ ∀ p, (f p).hist = p.hist)
    (hnotify : .notify r ∈ S ∨ ∀ p, ((f p).notify, (f p).clients) = (p.notify, p.clients)) :
    Keeps (Modifies S) (updPort r f) := by
  refine Keeps.modify fun w => Modifies.of_same rfl rfl fun p hp => ?_
  have hne : ∀ q, q ≠ r → (w.updPort r f).kern.ports q = w.kern.ports q := fun q hq => by
    simp [World.updPort, hq]
  have heq : (w.updPort r f).kern.ports r = f (w.kern.ports r) := by simp [World.updPort]
  cases p with
  | nread q =>
    by_cases hq : q = r
    · subst hq; simpa only [SameOn, heq] using hnread.resolve_left hp (w.kern.ports q)
    · simp only [SameOn, hne q hq]
  | hist q =>
    by_cases hq : q = r
    · subst hq; simpa only [SameOn, heq] using hhist.resolve_left hp (w.kern.ports q)
    · simp only [SameOn, hne q hq]
  | notify q =>
    by_cases hq : q = r
    · subst hq; simpa only [SameOn, heq] using hnotify.resolve_left hp (w.kern.ports q)
    · simp only [SameOn, hne q hq]
  | _ => first | rfl | trivial

lemma updGbls_modifies {f : Globals → Globals}
    (htable : .table ∈ S ∨ ∀ g, (f g).cmds = g.cmds)
    (hslow : .slowest ∈ S ∨ ∀ g, (f g).slowestcmd = g.slowestcmd)
    (hcount : .readycount ∈ S ∨ ∀ g, (f g).cmdsreadycnt = g.cmdsreadycnt)
    (hoptions : .options ∈ S ∨ ∀ g, globalsOptions (f g) = globalsOptions g)
    (hdel : .delonexit ∈ S ∨ ∀ g, (f g).cmddelonexit = g.cmddelonexit)
    (hflags : .flags ∈ S ∨ ∀ g, globalsFlags (f g) = globalsFlags g) :
    Keeps (Modifies S) (updGbls f) := by
  refine Keeps.modify fun w => Modifies.of_same rfl rfl fun p hp => ?_
  cases p with
  | table => exact htable.resolve_left hp w.gbls
  | slowest => exact hslow.resolve_left hp w.gbls
  | readycount => exact hcount.resolve_left hp w.gbls
  | options => exact hoptions.resolve_left hp w.gbls
  | delonexit => exact hdel.resolve_left hp w.gbls
  | flags => exact hflags.resolve_left hp w.gbls
  | _ => first | rfl | trivial

/-- A change of the process table and the descriptors. -/
lemma updKern_modifies {f : Kernel → Kernel} (hS : .kproc ∈ S)
    (hf : ∀ k, (f k).calls = k.calls ∧ (f k).ports = k.ports ∧ (f k).names = k.names) :
    Keeps (Modifies S) (updKern f) := by
  refine Keeps.modify fun w => Modifies.of_same (hf w.kern).1 rfl fun p hp => ?_
  cases p with
  | kproc => exact (hp hS).elim
  | names => exact (hf w.kern).2.2
  | nread q => simp only [SameOn, (hf w.kern).2.1]
  | hist q => simp only [SameOn, (hf w.kern).2.1]
  | notify q => simp only [SameOn, (hf w.kern).2.1]
  | _ => first | rfl | trivial

/-! ## tty.c -/

section
variable (sys : Sys)

lemma clock_gettime_modifies : Keeps (Modifies S) (clock_gettime sys) :=
  Keeps.bind call_modifies fun _ => Keeps.pure _

lemma write_modifies (r : TtyRef) : Keeps (Modifies S) (write sys r) :=
  Keeps.bind call_modifies fun _ => Keeps.bind Keeps.get fun _ => Keeps.pure _

lemma read_modifies {r : TtyRef} (rd : Read) (hn : .nread r ∈ S) (ho : .oRead r ∈ S) :
    Keeps (Modifies S) (read sys r rd) := by
  refine Keeps.bind call_modifies fun k => Keeps.bind Keeps.get fun w => ?_
  refine Keeps.ite (fun _ => Keeps.pure _) fun _ => ?_
  split
  · refine Keeps.bind (updPort_modifies (.inl hn) (.inr fun _ => rfl) (.inr fun _ => rfl)) fun _ => ?_
    exact Keeps.bind (note_modifies ho) fun _ => Keeps.pure _
  · exact Keeps.pure _
  · exact Keeps.pure _

lemma ttyReadChar_modifies {r : TtyRef} (ts : Option Time) (delay : Double) (rd : Read)
    (hn : .nread r ∈ S) (ho : .oRead r ∈ S) :
    Keeps (Modifies S) (ttyReadChar sys r ts delay rd) := by
  have hcount {f : Tty → Tty} (h₁ : ∀ t, ttyStatic (f t) = ttyStatic t)
      (h₂ : ∀ t, (f t).opens = t.opens) : Keeps (Modifies S) (updTty r f) :=
    updTty_modifies (.inr h₁) (.inr h₂)
  refine Keeps.bind (clock_gettime_modifies sys) fun now => Keeps.ite (fun _ => ?_) fun _ => ?_
  · exact Keeps.bind (hcount (fun _ => rfl) fun _ => rfl) fun _ =>
      Keeps.bind Keeps.get fun _ => Keeps.pure _
  · refine Keeps.bind (read_modifies sys rd hn ho) fun nc => Keeps.ite (fun _ => ?_) fun _ => ?_
    · exact Keeps.bind (hcount (fun _ => rfl) fun _ => rfl) fun _ => Keeps.pure _
    · exact Keeps.pure _

/-- A discarded buffer only changes the discards and their count. -/
lemma ttyDiscard_static {t t' : Tty} {buf : CStr} (h : ttyDiscard t buf = some t') :
    ttyStatic t' = ttyStatic t ∧ t'.opens = t.opens := by
  simp only [ttyDiscard] at h
  split at h
  · rw [← Option.some.inj h]
    simp only [ttyStatic, and_self]
  · cases h

lemma ttyWriteBuf_modifies {r : TtyRef} (buf : CStr) {ts : Option CmdId} (hw : .oWrite r ∈ S)
    (ht : ∀ id, ts = some id → .lastwrite id ∈ S) :
    Keeps (Modifies S) (ttyWriteBuf sys r buf ts) := by
  refine Keeps.bind (note_modifies hw) fun _ => ?_
  intro w n w' h
  obtain ⟨_, t, hget, hw'⟩ := bind_eq_ok.mp h
  obtain ⟨rfl, rfl⟩ := get_eq_ok.mp hget
  split at hw'
  · refine (Keeps.bind (write_modifies sys r) fun res => ?_ : Keeps (Modifies S) _) hw'
    split
    · exact Keeps.pure _
    · exact Keeps.throw _
    · refine Keeps.bind ?_ fun _ => Keeps.bind
        (updTty_modifies (.inr fun _ => rfl) (.inr fun _ => rfl)) fun _ => Keeps.pure _
      cases ts with
      | none => exact Keeps.pure _
      | some id =>
        refine Keeps.bind (clock_gettime_modifies sys) fun now => ?_
        exact updCmd_modifies (.inr fun _ => rfl) (.inr fun _ => rfl) (.inr fun _ => rfl)
          (.inr fun _ => rfl) (.inl (ht _ rfl)) (.inr fun _ => rfl)
  · cases hd : ttyDiscard (t.ttys r) buf with
    | none =>
      rw [hd] at hw'
      exact (throw_eq_ok.mp hw').elim
    | some t' =>
      rw [hd] at hw'
      obtain ⟨hst, hop⟩ := ttyDiscard_static hd
      simp only [updTty, bind_eq_ok, modify_eq_ok, pure_eq_ok] at hw'
      obtain ⟨_, _, rfl, -, rfl⟩ := hw'
      refine Modifies.of_same rfl rfl fun p _ => ?_
      cases p with
      | tty q => by_cases hq : q = r <;> simp_all [SameOn, World.updTty]
      | opens q => by_cases hq : q = r <;> simp_all [SameOn, World.updTty]
      | _ => first | rfl | trivial

/-! ## Creation and cleanup of a tty -/

/-- The parts the creation and the cleanup of `r` work on. -/
def ttyParts (r : TtyRef) : Set Part :=
  {.tty r, .opens r, .nread r, .hist r, .notify r, .names, .kproc, .oLink}

lemma openFd_modifies (hS : .kproc ∈ S) : Keeps (Modifies S) openFd := by
  intro w fd w' h
  simp only [openFd, bind_eq_ok, get_eq_ok, set_eq_ok, pure_eq_ok] at h
  obtain ⟨_, _, ⟨rfl, rfl⟩, _, _, rfl, -, rfl⟩ := h
  refine Modifies.of_same rfl rfl fun p hp => ?_
  cases p with
  | kproc => exact (hp hS).elim
  | _ => first | rfl | trivial

lemma close_modifies (fd : Option Fd) (hS : .kproc ∈ S) : Keeps (Modifies S) (close fd) := by
  cases fd with
  | none => exact Keeps.pure _
  | some fd => exact updKern_modifies (f := (·.close fd)) hS fun _ => ⟨rfl, rfl, rfl⟩

lemma epollAdd_modifies {sys : Sys} (fd : Fd) (s : Source) (hS : .kproc ∈ S) :
    Keeps (Modifies S) (epollAdd sys fd s) :=
  Keeps.ite (fun _ => Keeps.pure _) fun _ =>
    Keeps.bind (updKern_modifies hS fun _ => ⟨rfl, rfl, rfl⟩) fun _ => Keeps.pure _

lemma epollDel_modifies (fd : Option Fd) (hS : .kproc ∈ S) : Keeps (Modifies S) (epollDel fd) :=
  Keeps.bind Keeps.get fun _ => Keeps.bind (Keeps.require _ _) fun _ =>
    updKern_modifies hS fun _ => ⟨rfl, rfl, rfl⟩

lemma names_modifies {f : Kernel → Kernel} (hS : .names ∈ S)
    (hf : ∀ k, (f k).calls = k.calls ∧ (f k).ports = k.ports ∧ kernProc (f k) = kernProc k) :
    Keeps (Modifies S) (updKern f) := by
  refine Keeps.modify fun w => Modifies.of_same (hf w.kern).1 rfl fun p hp => ?_
  cases p with
  | names => exact (hp hS).elim
  | kproc => exact (hf w.kern).2.2
  | nread q => simp only [SameOn, (hf w.kern).2.1]
  | hist q => simp only [SameOn, (hf w.kern).2.1]
  | notify q => simp only [SameOn, (hf w.kern).2.1]
  | _ => first | rfl | trivial

lemma access_modifies (path : CStr) : Keeps (Modifies S) (access sys path) :=
  Keeps.bind call_modifies fun _ => Keeps.bind Keeps.get fun _ => Keeps.pure _

lemma symlink_modifies (r : TtyRef) (path : CStr) (hn : .names ∈ S) (hl : .oLink ∈ S) :
    Keeps (Modifies S) (symlink sys r path) := by
  refine Keeps.bind call_modifies fun k => Keeps.bind Keeps.get fun w => ?_
  refine Keeps.ite (fun _ => Keeps.pure _) fun _ => ?_
  exact Keeps.bind (names_modifies hn fun _ => ⟨rfl, rfl, rfl⟩) fun _ =>
    Keeps.bind (note_modifies hl) fun _ => Keeps.pure _

lemma unlink_modifies (r : TtyRef) (path : CStr) (hn : .names ∈ S) (hl : .oLink ∈ S) :
    Keeps (Modifies S) (unlink sys r path) := by
  refine Keeps.bind Keeps.get fun w => ?_
  split
  · exact Keeps.pure _
  · exact Keeps.pure _
  · exact Keeps.bind (names_modifies hn fun _ => ⟨rfl, rfl, rfl⟩) fun _ => note_modifies hl

lemma ttyUnlink_modifies (r : TtyRef) (name : Option CStr) (hn : .names ∈ S) (hl : .oLink ∈ S) :
    Keeps (Modifies S) (ttyUnlink sys r name) := by
  unfold ttyUnlink
  split
  · exact unlink_modifies sys r _ hn hl
  · exact Keeps.pure _

lemma ttyCleanup_modifies {r : TtyRef} (hS : ttyParts r ⊆ S) :
    Keeps (Modifies S) (ttyCleanup sys r) := by
  have hk : .kproc ∈ S := hS (by simp [ttyParts])
  have hn : .names ∈ S := hS (by simp [ttyParts])
  have hl : .oLink ∈ S := hS (by simp [ttyParts])
  refine Keeps.bind Keeps.get fun w => ?_
  refine Keeps.bind (close_modifies _ hk) fun _ => Keeps.bind (close_modifies _ hk) fun _ =>
    Keeps.bind (close_modifies _ hk) fun _ => ?_
  refine Keeps.bind (ttyUnlink_modifies sys r _ hn hl) fun _ =>
    Keeps.bind (ttyUnlink_modifies sys r _ hn hl) fun _ =>
    Keeps.bind (ttyUnlink_modifies sys r _ hn hl) fun _ => ?_
  exact updTty_modifies (.inl (hS (by simp [ttyParts]))) (.inl (hS (by simp [ttyParts])))

lemma ttyNameTaken_modifies (name : Option CStr) : Keeps (Modifies S) (ttyNameTaken sys name) := by
  cases name with
  | none => exact Keeps.pure _
  | some path => exact access_modifies sys path

lemma ttyNamesTaken_modifies (t : Tty) : Keeps (Modifies S) (ttyNamesTaken sys t) := by
  refine Keeps.bind (ttyNameTaken_modifies sys _) fun _ => Keeps.ite (fun _ => Keeps.pure _) fun _ => ?_
  refine Keeps.bind (ttyNameTaken_modifies sys _) fun _ => Keeps.ite (fun _ => Keeps.pure _) fun _ => ?_
  exact ttyNameTaken_modifies sys _

lemma ttySymlink_modifies (r : TtyRef) (name : Option CStr) (hn : .names ∈ S) (hl : .oLink ∈ S) :
    Keeps (Modifies S) (ttySymlink sys r name) := by
  cases name with
  | none => exact Keeps.pure _
  | some path => exact symlink_modifies sys r path hn hl

lemma acquire_modifies (hS : .kproc ∈ S) : Keeps (Modifies S) (acquire sys) := by
  refine Keeps.bind call_modifies fun k => Keeps.ite (fun _ => Keeps.pure _) fun _ => ?_
  exact Keeps.bind (openFd_modifies hS) fun _ => Keeps.pure _

lemma ttyLinks_modifies (r : TtyRef) (t : Tty) (hn : .names ∈ S) (hl : .oLink ∈ S) :
    Keeps (Modifies S) (ttyLinks sys r t) := by
  refine Keeps.bind (ttySymlink_modifies sys r _ hn hl) fun _ =>
    Keeps.ite (fun _ => Keeps.pure _) fun _ => Keeps.bind (Keeps.require _ _) fun _ => ?_
  refine Keeps.bind (ttySymlink_modifies sys r _ hn hl) fun _ =>
    Keeps.ite (fun _ => Keeps.pure _) fun _ => Keeps.bind (Keeps.require _ _) fun _ => ?_
  exact ttySymlink_modifies sys r _ hn hl

lemma ttyWatch_modifies {r : TtyRef} (hk : .kproc ∈ S) (ht : .tty r ∈ S) :
    Keeps (Modifies S) (ttyWatch sys r) := by
  refine Keeps.bind (acquire_modifies sys hk) fun fd => ?_
  cases fd with
  | none => exact Keeps.pure _
  | some ifd =>
    refine Keeps.bind (updTty_modifies (.inl ht) (.inr fun _ => rfl)) fun _ =>
      Keeps.bind call_modifies fun _ => Keeps.ite (fun _ => Keeps.pure _) fun _ => ?_
    exact Keeps.bind (updTty_modifies (.inl ht) (.inr fun _ => rfl)) fun _ => Keeps.pure _

lemma ttyBuild_modifies {r : TtyRef} (hS : ttyParts r ⊆ S) :
    Keeps (Modifies S) (ttyBuild sys r) := by
  have hk : .kproc ∈ S := hS (by simp [ttyParts])
  have ht : .tty r ∈ S := hS (by simp [ttyParts])
  refine Keeps.bind Keeps.get fun w => Keeps.bind (Keeps.require _ _) fun _ =>
    Keeps.bind (ttyNamesTaken_modifies sys _) fun _ => Keeps.ite (fun _ => Keeps.pure _) fun _ => ?_
  refine Keeps.bind (acquire_modifies sys hk) fun dfd => ?_
  cases dfd with
  | none => exact Keeps.pure _
  | some dfd =>
    refine Keeps.bind (updTty_modifies (.inl ht) (.inr fun _ => rfl)) fun _ => ?_
    refine Keeps.bind (updPort_modifies (.inl (hS (by simp [ttyParts])))
      (.inl (hS (by simp [ttyParts]))) (.inl (hS (by simp [ttyParts])))) fun _ => ?_
    refine Keeps.bind (acquire_modifies sys hk) fun sfd => ?_
    cases sfd with
    | none => exact Keeps.pure _
    | some sfd =>
      refine Keeps.bind (ttyLinks_modifies sys r _ (hS (by simp [ttyParts]))
        (hS (by simp [ttyParts]))) fun _ => Keeps.ite (fun _ => Keeps.pure _) fun _ => ?_
      refine Keeps.bind (ttyWatch_modifies sys hk ht) fun _ =>
        Keeps.ite (fun _ => Keeps.pure _) fun _ => ?_
      exact Keeps.bind (updTty_modifies (.inl ht) (.inl (hS (by simp [ttyParts])))) fun _ =>
        Keeps.pure _

lemma ttyCreate_modifies {r : TtyRef} (hS : ttyParts r ⊆ S) :
    Keeps (Modifies S) (ttyCreate sys r) :=
  Keeps.bind (ttyBuild_modifies sys hS) fun _ => Keeps.ite (fun _ => Keeps.pure _) fun _ =>
    Keeps.bind (ttyCleanup_modifies sys hS) fun _ => Keeps.pure _

lemma ttyInit_modifies {r : TtyRef} (l e₁ e₂ e₃ e₄ : Option CStr) (ht : .tty r ∈ S) :
    Keeps (Modifies S) (ttyInit r l e₁ e₂ e₃ e₄) :=
  Keeps.bind Keeps.get fun _ => Keeps.bind (Keeps.require _ _) fun _ =>
    updTty_modifies (.inl ht) (.inr fun _ => rfl)

lemma ttyRegisterEvents_modifies {sys : Sys} (r : TtyRef) (hk : .kproc ∈ S) :
    Keeps (Modifies S) (ttyRegisterEvents sys r) := by
  refine Keeps.bind Keeps.get fun w => ?_
  dsimp only
  split
  · exact Keeps.bind (Keeps.require _ _) fun _ => Keeps.bind (epollAdd_modifies _ _ hk) fun _ =>
      Keeps.ite (fun _ => Keeps.pure _) fun _ => epollAdd_modifies _ _ hk
  · exact Keeps.throw _

lemma ttyIdle_modifies (r : TtyRef) : Keeps (Modifies S) (ttyIdle r) :=
  Keeps.bind Keeps.get fun _ => Keeps.bind (Keeps.require _ _) fun _ => Keeps.pure _

end

end Yar.Proofs
