import Yar.Lib.Handles
import Yar.Proofs.Registered

/-!
# Descriptors in their slots

The ttys and commands keep their descriptors in fields. No descriptor is kept in two of them, and those
that are kept are open, so what is closed is never the descriptor of something else. epoll forgets
nothing that stays open, but for what is taken off its list.
-/

namespace Yar.Proofs

open Program Handles

/-- The places where descriptors are kept. -/
inductive Slot where
  | dom (r : TtyRef)
  | sub (r : TtyRef)
  | ifd (r : TtyRef)
  | pidfd (id : CmdId)
  | sig
  | fs
  deriving DecidableEq

/-- The signalfd and the fuse descriptor are 0 and 1. -/
def slotFd (w : World) : Slot → Option Fd
  | .dom r => (w.ttys r).dfd
  | .sub r => (w.ttys r).sfd
  | .ifd r => (w.ttys r).ifd
  | .pidfd id => (w.heap id).pidfd
  | .sig => some 0
  | .fs => some 1

/-- The tty that the slot belongs to. -/
def Slot.tty : Slot → Option TtyRef
  | .dom r => some r
  | .sub r => some r
  | .ifd r => some r
  | _ => none

/-- Every recorded descriptor is open and recorded once. -/
structure FdsHeld (w : World) : Prop where
  ok : FdsOk w.kern
  held : Held (slotFd w) {fd | fd ∈ w.kern.fds}

/-- epoll forgets nothing that stays open but `fd`, and what has been closed is not opened again. -/
structure Remembers (fd : Option Fd) (w w' : World) : Prop where
  nextFd : w.kern.nextFd ≤ w'.kern.nextFd
  old : ∀ d ∈ w'.kern.fds, d < w.kern.nextFd → d ∈ w.kern.fds
  interest : ∀ e ∈ w.kern.interest, e.1 < w.kern.nextFd → fd ≠ some e.1 → e.1 ∈ w'.kern.fds →
    e ∈ w'.kern.interest

variable {sys : Sys} {w w' : World} {id : CmdId} {r : TtyRef} {S : Set Part} {fd : Option Fd} {s : Slot}

instance : Std.Refl (Remembers fd) where
  refl _ := ⟨le_rfl, fun _ hd _ => hd, fun _ he _ _ _ => he⟩

instance : IsTrans World (Remembers fd) where
  trans _ _ _ h h' := by
    refine ⟨h.nextFd.trans h'.nextFd, fun d hd hlt => ?_, fun e he hlt hne hopen => ?_⟩
    · exact h.old d (h'.old d hd (hlt.trans_le h.nextFd)) hlt
    · have hlt' := hlt.trans_le h.nextFd
      exact h'.interest e (h.interest e he hlt hne (h'.old _ hopen hlt')) hlt' hne hopen

lemma Remembers.weaken (h : Remembers none w w') : Remembers fd w w' :=
  ⟨h.nextFd, h.old, fun e he hlt _ => h.interest e he hlt nofun⟩

/-! ## The calls -/

lemma remembers_of_kernProc (h : kernProc w'.kern = kernProc w.kern) : Remembers fd w w' := by
  simp only [kernProc, Prod.mk.injEq] at h
  obtain ⟨-, hfds, hinterest, -, hnext⟩ := h
  exact ⟨hnext.ge, fun d hd _ => hfds ▸ hd, fun e he _ _ _ => hinterest ▸ he⟩

lemma Modifies.remembers (hm : Modifies S w w') (hk : .kproc ∉ S) : Remembers fd w w' :=
  remembers_of_kernProc (hm.kernProc_eq hk)

lemma Keeps.remembers {α : Type} {m : Act α} (hm : Keeps (Modifies S) m) (hk : .kproc ∉ S) :
    Keeps (Remembers fd) m :=
  fun _ _ _ h => (hm h).remembers hk

lemma openFd_remembers : Keeps (Remembers fd) openFd := by
  intro w d w' h
  obtain ⟨-, rfl⟩ := openFd_ok h
  refine ⟨Nat.le_succ _, fun d hd hlt => ?_, fun e he _ _ _ => he⟩
  rcases List.mem_cons.mp hd with rfl | hd
  · exact (hlt.false).elim
  · exact hd

/-- A descriptor that stays open stays on the list. -/
lemma sweep_remembers {k : Kernel} (hfds : ∀ d ∈ k.fds, d ∈ w.kern.fds)
    (hnext : k.nextFd = w.kern.nextFd) (hi : k.interest = w.kern.interest) :
    Remembers fd w { w with kern := k.sweep } := by
  refine ⟨hnext.ge, fun d hd _ => hfds d hd, fun e he _ _ hopen => ?_⟩
  refine List.mem_filter.mpr ⟨hi ▸ he, ?_⟩
  rw [Kernel.isOpen, Bool.or_eq_true, List.contains_iff_mem]
  exact .inl hopen

lemma close_remembers (d : Option Fd) : Keeps (Remembers fd) (close d) := by
  cases d with
  | none => exact Keeps.pure _
  | some d => exact Keeps.modify fun w => sweep_remembers (fun _ => List.mem_of_mem_erase) rfl rfl

lemma waitid_remembers (d : Option Fd) : Keeps (Remembers fd) (waitid d) := by
  intro w st w' h
  obtain ⟨p, -, -, -, rfl⟩ := waitid_ok h
  exact sweep_remembers (k := { w.kern with procs := w.kern.procs.filter fun q => q.pidfd ≠ p.pidfd })
    (fun _ hd => hd) rfl rfl

lemma epollDel_remembers : Keeps (Remembers fd) (epollDel fd) := by
  intro w u w' h
  rw [epollDel_ok h]
  exact ⟨le_rfl, fun _ hd _ => hd, fun e he _ hne _ => List.mem_filter.mpr ⟨he, by simpa using hne⟩⟩

lemma killAndPoll_remembers (pid : Option Pid) (d : Option Fd) :
    Keeps (Remembers fd) (killAndPoll sys pid d) := by
  intro w u w' h
  obtain ⟨-, -, hfds, hnext, -, hinterest⟩ := killAndPoll_ok h
  exact ⟨hnext.ge, fun d hd _ => hfds ▸ hd, fun e he _ _ _ => hinterest ▸ he⟩

lemma updTty_remembers {f : Tty → Tty} : Keeps (Remembers fd) (updTty r f) :=
  Keeps.modify fun _ => remembers_of_kernProc rfl

lemma updCmd_remembers {f : Cmd → Cmd} : Keeps (Remembers fd) (updCmd id f) :=
  Keeps.modify fun _ => remembers_of_kernProc rfl

/-! ## Functions -/

lemma cmdResetReady_remembers (id : CmdId) : Keeps (Remembers fd) (cmdResetReady id) := by
  intro w u w' h
  rcases cmdResetReady_cases h with ⟨-, rfl⟩ | hr
  · exact refl_of _ _
  · exact hr.modifies.remembers (by simp)

lemma ttyCleanup_remembers (r : TtyRef) : Keeps (Remembers fd) (ttyCleanup sys r) := by
  have hunlink (name : Option CStr) : Keeps (Remembers fd) (ttyUnlink sys r name) :=
    Keeps.remembers (S := {.names, .oLink}) (ttyUnlink_modifies sys r name (by simp) (by simp)) (by simp)
  exact Keeps.bind Keeps.get fun _ => Keeps.bind (close_remembers _) fun _ =>
    Keeps.bind (close_remembers _) fun _ => Keeps.bind (close_remembers _) fun _ =>
    Keeps.bind (hunlink _) fun _ => Keeps.bind (hunlink _) fun _ => Keeps.bind (hunlink _) fun _ =>
    updTty_remembers

lemma acquire_remembers : Keeps (Remembers fd) (acquire sys) :=
  Keeps.bind (Keeps.remembers (S := ∅) call_modifies (by simp)) fun _ =>
    Keeps.ite (fun _ => Keeps.pure _) fun _ => Keeps.bind openFd_remembers fun _ => Keeps.pure _

lemma ttyWatch_remembers (r : TtyRef) : Keeps (Remembers fd) (ttyWatch sys r) := by
  refine Keeps.bind acquire_remembers fun ifd => ?_
  cases ifd with
  | none => exact Keeps.pure _
  | some ifd =>
    exact Keeps.bind updTty_remembers fun _ =>
      Keeps.bind (Keeps.remembers (S := ∅) call_modifies (by simp)) fun _ =>
      Keeps.ite (fun _ => Keeps.pure _) fun _ => Keeps.bind updTty_remembers fun _ => Keeps.pure _

lemma ttyCreate_remembers (r : TtyRef) : Keeps (Remembers fd) (ttyCreate sys r) := by
  refine Keeps.bind ?_ fun _ => Keeps.ite (fun _ => Keeps.pure _) fun _ =>
    Keeps.bind (ttyCleanup_remembers r) fun _ => Keeps.pure _
  refine Keeps.bind Keeps.get fun _ => Keeps.bind (Keeps.require _ _) fun _ =>
    Keeps.bind (Keeps.remembers (S := ∅) (ttyNamesTaken_modifies sys _) (by simp)) fun _ =>
    Keeps.ite (fun _ => Keeps.pure _) fun _ => Keeps.bind acquire_remembers fun dfd => ?_
  cases dfd with
  | none => exact Keeps.pure _
  | some dfd =>
    have hport : Keeps (Remembers fd) (updPort r fun _ => {}) :=
      Keeps.modify fun _ => remembers_of_kernProc rfl
    refine Keeps.bind updTty_remembers fun _ => Keeps.bind hport fun _ =>
      Keeps.bind acquire_remembers fun sfd => ?_
    cases sfd with
    | none => exact Keeps.pure _
    | some sfd =>
      have hlinks (this : Tty) : Keeps (Remembers fd) (ttyLinks sys r this) :=
        Keeps.remembers (S := {.names, .oLink}) (ttyLinks_modifies sys r this (by simp) (by simp)) (by simp)
      exact Keeps.bind (hlinks _) fun _ => Keeps.ite (fun _ => Keeps.pure _) fun _ =>
        Keeps.bind (ttyWatch_remembers r) fun _ => Keeps.ite (fun _ => Keeps.pure _) fun _ =>
        Keeps.bind updTty_remembers fun _ => Keeps.pure _

lemma cmdTerminate_remembers {epoll : Bool} {u : Unit} (h : cmdTerminate sys id epoll w = .ok u w') :
    Remembers (w.heap id).pidfd w w' := by
  obtain ⟨_, w₁, hreset, h⟩ := bind_eq_ok.mp h
  have hpidfd : (w₁.heap id).pidfd = (w.heap id).pidfd ∧ w₁.kern = w.kern := by
    rcases cmdResetReady_cases hreset with ⟨-, rfl⟩ | hr
    · exact ⟨rfl, rfl⟩
    · exact ⟨hr.modifies.pidfd_eq (by simp), hr.ports⟩
  replace h := get_bind_eq_ok.mp h
  rw [hpidfd.1] at h
  have hrest : Remembers (w.heap id).pidfd w₁ w' :=
    (Keeps.bind (Keeps.when fun _ => epollDel_remembers) fun _ =>
      Keeps.bind (killAndPoll_remembers _ _) fun _ => Keeps.bind (waitid_remembers _) fun _ =>
      Keeps.bind (close_remembers _) fun _ => updCmd_remembers : Keeps (Remembers (w.heap id).pidfd) _) h
  exact trans_of _ (remembers_of_kernProc (by rw [hpidfd.2])) hrest

lemma cmdPidReap_remembers {u : Unit} (h : cmdPidReap id w = .ok u w') :
    Remembers (w.heap id).pidfd w w' := by
  replace h := get_bind_eq_ok.mp h
  exact (Keeps.bind (waitid_remembers _) fun _ => Keeps.bind updCmd_remembers fun _ =>
    Keeps.bind epollDel_remembers fun _ => Keeps.bind updCmd_remembers fun _ =>
    cmdResetReady_remembers id : Keeps (Remembers (w.heap id).pidfd) _) h

/-! ## The descriptors that are recorded -/

lemma Modifies.slotFd_eq (hm : Modifies S w w') (htty : ∀ r, s.tty = some r → .tty r ∉ S)
    (hp : ∀ id, s = .pidfd id → .proc id ∉ S) : slotFd w' s = slotFd w s := by
  have tty {r : TtyRef} (hr : s.tty = some r) : ttyStatic (w'.ttys r) = ttyStatic (w.ttys r) :=
    hm.same _ (htty r hr)
  cases s with
  | dom r => exact congrArg (·.2.2.2.1) (tty rfl)
  | sub r => exact congrArg (·.2.2.2.2.1) (tty rfl)
  | ifd r => exact congrArg (·.2.2.2.2.2.1) (tty rfl)
  | pidfd id => exact hm.pidfd_eq (hp id rfl)
  | sig => rfl
  | fs => rfl

/-- Slots may be emptied while their descriptors are closed. -/
lemma FdsHeld.forget (h : FdsHeld w) (hok : FdsOk w'.kern)
    (hslot : ∀ s d, slotFd w' s = some d → slotFd w s = some d)
    (hopen : ∀ s d, slotFd w' s = some d → d ∈ w.kern.fds → d ∈ w'.kern.fds) : FdsHeld w' :=
  ⟨hok, h.held.forget hslot hopen⟩

lemma FdsHeld.frame (h : FdsHeld w) (hm : Modifies S w w') (hk : .kproc ∉ S) (htty : ∀ r, .tty r ∉ S)
    (hp : ∀ id, .proc id ∉ S) : FdsHeld w' := by
  have hslot (s : Slot) : slotFd w' s = slotFd w s := hm.slotFd_eq (fun r _ => htty r) fun id _ => hp id
  have hfds : w'.kern.fds = w.kern.fds := congrArg (·.2.1) (hm.kernProc_eq hk)
  exact h.forget (hm.fdsOk hk h.ok) (fun s d hd => hslot s ▸ hd) fun _ _ _ hd => hfds ▸ hd

/-- The descriptor is open and recorded nowhere. -/
structure Loose (w : World) (d : Fd) : Prop where
  opened : d ∈ w.kern.fds
  loose : ∀ s, slotFd w s ≠ some d

lemma FdsHeld.lt (h : FdsHeld w) {d : Fd} (hd : slotFd w s = some d) : d < w.kern.nextFd :=
  h.ok.lt d (h.held.opened hd)

/-- A descriptor is got, or there is none to be had. -/
lemma acquire_held {got : Option Fd} (h : FdsHeld w) (ha : acquire sys w = .ok got w') :
    FdsHeld w' ∧ (∀ d ∈ got, Loose w' d) ∧ (∀ d, Loose w d → Loose w' d ∧ got ≠ some d) ∧
      w'.ttys = w.ttys := by
  rcases acquire_ok ha with ⟨-, rfl, rfl⟩ | ⟨-, rfl, rfl⟩
  · exact ⟨⟨⟨h.ok.nodup, h.ok.lt⟩, h.held⟩, nofun, fun d hd => ⟨⟨hd.opened, hd.loose⟩, nofun⟩, rfl⟩
  · have hslot (s : Slot) : slotFd { called w with
        kern.fds := w.kern.nextFd :: w.kern.fds, kern.nextFd := w.kern.nextFd + 1 } s = slotFd w s := by
      cases s <;> rfl
    have hok := h.ok.openFd
    refine ⟨⟨⟨hok.nodup, hok.lt⟩, ?_⟩, fun d hd => ?_, fun d hd => ⟨⟨?_, fun s => ?_⟩, fun heq => ?_⟩, rfl⟩
    · exact h.held.forget (fun s d hd => hslot s ▸ hd) fun _ _ _ hd => List.mem_cons_of_mem _ hd
    · obtain rfl := Option.some_inj.mp hd
      refine ⟨List.mem_cons_self, fun s hs => ?_⟩
      rw [hslot] at hs
      exact (h.lt hs).false
    · exact List.mem_cons_of_mem _ hd.opened
    · rw [hslot]
      exact hd.loose s
    · obtain rfl := Option.some_inj.mp heq
      exact (h.ok.lt _ hd.opened).false

/-- A tty is given a descriptor that is open and recorded nowhere. -/
lemma updTty_held {d : Fd} {f : Tty → Tty} (slot : Slot) (h : FdsHeld w) (hd : Loose w d)
    (hslot : ∀ s l, slotFd (w.updTty r f) s = some l → s = slot ∧ l = d ∨ slotFd w s = some l) :
    FdsHeld (w.updTty r f) ∧ ∀ l, Loose w l → l ≠ d → Loose (w.updTty r f) l := by
  refine ⟨⟨h.ok, h.held.put hd.loose hd.opened (fun _ hl => hl) hslot⟩, fun l hl hne => ⟨hl.opened, ?_⟩⟩
  intro s hs
  rcases hslot s l hs with ⟨-, rfl⟩ | hs
  · exact hne rfl
  · exact hl.loose s hs

lemma slotFd_updTty {f : Tty → Tty} {slot : Slot} {d : Fd} (htty : slot.tty = some r)
    (hd : slotFd (w.updTty r f) slot = some d)
    (hrest : ∀ s, s.tty = some r → s ≠ slot → slotFd (w.updTty r f) s = slotFd w s) (s : Slot) (l : Fd)
    (hs : slotFd (w.updTty r f) s = some l) : s = slot ∧ l = d ∨ slotFd w s = some l := by
  by_cases hslot : s = slot
  · subst hslot
    exact .inl ⟨rfl, Option.some_inj.mp (hs.symm.trans hd)⟩
  · refine .inr ?_
    by_cases hr : s.tty = some r
    · rwa [hrest s hr hslot] at hs
    · rw [← hs]
      cases s with
      | dom q => simp [slotFd, World.updTty, Function.update_of_ne (fun h : q = r => hr (h ▸ rfl))]
      | sub q => simp [slotFd, World.updTty, Function.update_of_ne (fun h : q = r => hr (h ▸ rfl))]
      | ifd q => simp [slotFd, World.updTty, Function.update_of_ne (fun h : q = r => hr (h ▸ rfl))]
      | _ => rfl

lemma Loose.frame {d : Fd} (h : Loose w d) (hm : Modifies S w w') (hk : .kproc ∉ S)
    (htty : ∀ r, .tty r ∉ S) (hp : ∀ id, .proc id ∉ S) : Loose w' d := by
  have hfds : w'.kern.fds = w.kern.fds := congrArg (·.2.1) (hm.kernProc_eq hk)
  refine ⟨hfds ▸ h.opened, fun s => ?_⟩
  rw [hm.slotFd_eq (fun r _ => htty r) fun id _ => hp id]
  exact h.loose s

lemma ttyWatch_held {b : Bool} {d : Fd} (h : FdsHeld w) (hd : Loose w d)
    (hwatch : ttyWatch sys r w = .ok b w') : FdsHeld w' ∧ Loose w' d := by
  obtain ⟨got, w₁, hacq, hwatch⟩ := bind_eq_ok.mp hwatch
  obtain ⟨h₁, hgot, hloose, -⟩ := acquire_held h hacq
  obtain ⟨hd₁, hne⟩ := hloose d hd
  cases got with
  | none =>
    obtain ⟨-, rfl⟩ := pure_eq_ok.mp hwatch
    exact ⟨h₁, hd₁⟩
  | some fd =>
    replace hwatch := modify_bind_eq_ok.mp hwatch
    obtain ⟨h₂, hloose₂⟩ := updTty_held (.ifd r) h₁ (hgot fd rfl)
      (slotFd_updTty (f := fun this => { this with ifd := some fd }) rfl (by simp [slotFd, World.updTty])
        fun s hs hne => by cases s <;> simp_all [Slot.tty, slotFd, World.updTty])
    have hd₂ := hloose₂ d hd₁ fun heq => hne (heq ▸ rfl)
    obtain ⟨k, w₃, hcall, hwatch⟩ := bind_eq_ok.mp hwatch
    have hm : Modifies ∅ _ w₃ := call_modifies hcall
    have h₃ := h₂.frame hm (by simp) (by simp) (by simp)
    have hd₃ := hd₂.frame hm (by simp) (by simp) (by simp)
    split at hwatch
    · obtain ⟨-, rfl⟩ := pure_eq_ok.mp hwatch
      exact ⟨h₃, hd₃⟩
    · replace hwatch := modify_bind_eq_ok.mp hwatch
      obtain ⟨-, rfl⟩ := pure_eq_ok.mp hwatch
      have hslot (s : Slot) : slotFd (w₃.updTty r fun this => { this with iwd := some fd }) s =
          slotFd w₃ s := by
        cases s with
        | dom q => by_cases hq : q = r <;> simp [slotFd, World.updTty, hq]
        | sub q => by_cases hq : q = r <;> simp [slotFd, World.updTty, hq]
        | ifd q => by_cases hq : q = r <;> simp [slotFd, World.updTty, hq]
        | _ => rfl
      exact ⟨h₃.forget h₃.ok (fun s l hl => hslot s ▸ hl) fun _ _ _ hl => hl,
        ⟨hd₃.opened, fun s => hslot s ▸ hd₃.loose s⟩⟩

lemma ttyBuild_held {b : Bool} (h : FdsHeld w) (hbuild : ttyBuild sys r w = .ok b w') : FdsHeld w' := by
  obtain ⟨-, hbuild⟩ := require_bind_eq_ok.mp (get_bind_eq_ok.mp hbuild)
  obtain ⟨taken, w₁, htaken, hbuild⟩ := bind_eq_ok.mp hbuild
  have hm₁ : Modifies ∅ w w₁ := ttyNamesTaken_modifies sys _ htaken
  have h₁ := h.frame hm₁ (by simp) (by simp) (by simp)
  cases taken with
  | true =>
    obtain ⟨-, rfl⟩ := pure_eq_ok.mp hbuild
    exact h₁
  | false =>
    obtain ⟨got, w₂, hdfd, hbuild⟩ := bind_eq_ok.mp hbuild
    obtain ⟨h₂, hgot, -, -⟩ := acquire_held h₁ hdfd
    cases got with
    | none =>
      obtain ⟨-, rfl⟩ := pure_eq_ok.mp hbuild
      exact h₂
    | some dfd =>
      replace hbuild := modify_bind_eq_ok.mp hbuild
      obtain ⟨h₃, -⟩ := updTty_held (.dom r) h₂ (hgot dfd rfl)
        (slotFd_updTty (f := fun this => { this with dfd := some dfd }) rfl (by simp [slotFd, World.updTty])
          fun s hs hne => by cases s <;> simp_all [Slot.tty, slotFd, World.updTty])
      obtain ⟨_, w₄, hport, hbuild⟩ := bind_eq_ok.mp hbuild
      have hm₄ : Modifies {.nread r, .hist r, .notify r} _ w₄ := updPort_modifies (.inl (by simp))
        (.inl (by simp)) (.inl (by simp)) hport
      have h₄ := h₃.frame hm₄ (by simp) (by simp) (by simp)
      obtain ⟨got, w₅, hsfd, hbuild⟩ := bind_eq_ok.mp hbuild
      obtain ⟨h₅, hgot, -, -⟩ := acquire_held h₄ hsfd
      cases got with
      | none =>
        obtain ⟨-, rfl⟩ := pure_eq_ok.mp hbuild
        exact h₅
      | some sfd =>
        obtain ⟨linked, w₆, hlinks, hbuild⟩ := bind_eq_ok.mp hbuild
        have hm₆ : Modifies {.names, .oLink} w₅ w₆ :=
          ttyLinks_modifies sys r _ (by simp) (by simp) hlinks
        have h₆ := h₅.frame hm₆ (by simp) (by simp) (by simp)
        have hloose₆ := (hgot sfd rfl).frame hm₆ (by simp) (by simp) (by simp)
        cases linked with
        | false =>
          obtain ⟨-, rfl⟩ := pure_eq_ok.mp hbuild
          exact h₆
        | true =>
          obtain ⟨watched, w₇, hwatch, hbuild⟩ := bind_eq_ok.mp hbuild
          obtain ⟨h₇, hloose₇⟩ := ttyWatch_held h₆ hloose₆ hwatch
          cases watched with
          | false =>
            obtain ⟨-, rfl⟩ := pure_eq_ok.mp hbuild
            exact h₇
          | true =>
            replace hbuild := modify_bind_eq_ok.mp hbuild
            obtain ⟨-, rfl⟩ := pure_eq_ok.mp hbuild
            exact (updTty_held (.sub r) h₇ hloose₇
              (slotFd_updTty (f := fun this =>
                { this with sfd := some sfd, rbytes := 0, wbytes := 0, opens := 0 }) rfl
                (by simp [slotFd, World.updTty])
                fun s hs hne => by cases s <;> simp_all [Slot.tty, slotFd, World.updTty])).1

lemma close_opened {fd : Option Fd} {u : Unit} (h : close fd w = .ok u w') :
    ∀ d ∈ w.kern.fds, fd ≠ some d → d ∈ w'.kern.fds := by
  intro d hd hne
  cases fd with
  | none => rwa [(pure_eq_ok.mp h).2]
  | some fd =>
    rw [modify_eq_ok.mp h]
    refine (List.mem_erase_of_ne ?_).mpr hd
    rintro rfl
    exact hne rfl

/-- The cleanup of a tty closes what the tty records and nothing else. -/
lemma ttyCleanup_held {u : Unit} (h : FdsHeld w) (hclean : ttyCleanup sys r w = .ok u w') :
    FdsHeld w' := by
  have hok : FdsOk w'.kern := (ttyCleanup_fdStep sys r hclean).fds h.ok
  have hm : Modifies (ttyParts r) w w' := ttyCleanup_modifies sys subset_rfl hclean
  have hgone (s : Slot) (hs : s.tty = some r) : slotFd w' s = none := by
    cases s <;> simp_all [Slot.tty, slotFd, ttyCleanup_tty hclean]
  have hsame (s : Slot) (hs : s.tty ≠ some r) : slotFd w' s = slotFd w s := by
    refine hm.slotFd_eq (fun q hq => ?_) fun id _ => by simp [ttyParts]
    have hne : q ≠ r := fun heq => hs (heq ▸ hq)
    simp [ttyParts, hne]
  replace hclean := get_bind_eq_ok.mp hclean
  obtain ⟨_, w₁, hifd, hclean⟩ := bind_eq_ok.mp hclean
  obtain ⟨_, w₂, hdfd, hclean⟩ := bind_eq_ok.mp hclean
  obtain ⟨_, w₃, hsfd, hclean⟩ := bind_eq_ok.mp hclean
  have hrest : Modifies {.names, .oLink, .tty r, .opens r} w₃ w' :=
    (Keeps.bind (ttyUnlink_modifies sys r _ (by simp) (by simp)) fun _ =>
      Keeps.bind (ttyUnlink_modifies sys r _ (by simp) (by simp)) fun _ =>
      Keeps.bind (ttyUnlink_modifies sys r _ (by simp) (by simp)) fun _ =>
      updTty_modifies (.inl (by simp)) (.inl (by simp)) : Keeps (Modifies _) _) hclean
  have hfds : w'.kern.fds = w₃.kern.fds := congrArg (·.2.1) (hrest.kernProc_eq (by simp))
  refine h.forget hok (fun s d hd => ?_) fun s d hd hmem => ?_
  · by_cases hs : s.tty = some r
    · cases (hgone s hs).symm.trans hd
    · exact hsame s hs ▸ hd
  · by_cases hs : s.tty = some r
    · cases (hgone s hs).symm.trans hd
    · rw [hsame s hs] at hd
      have hne (t : Slot) (ht : t.tty = some r) : slotFd w t ≠ some d := fun hdt =>
        hs (h.held.inj hd hdt ▸ ht)
      have hmem₁ := close_opened hifd d hmem (hne (.ifd r) rfl)
      have hmem₂ := close_opened hdfd d hmem₁ (hne (.dom r) rfl)
      rw [hfds]
      exact close_opened hsfd d hmem₂ (hne (.sub r) rfl)

lemma ttyCreate_held {b : Bool} (h : FdsHeld w) (hcreate : ttyCreate sys r w = .ok b w') : FdsHeld w' := by
  obtain ⟨built, w₁, hbuild, hrest⟩ := bind_eq_ok.mp hcreate
  have h₁ := ttyBuild_held h hbuild
  cases built with
  | true =>
    obtain ⟨-, rfl⟩ := pure_eq_ok.mp hrest
    exact h₁
  | false =>
    obtain ⟨_, w₂, hclean, hrest⟩ := bind_eq_ok.mp hrest
    obtain ⟨-, rfl⟩ := pure_eq_ok.mp hrest
    exact ttyCleanup_held h₁ hclean

lemma ttyInit_held {ttylink src₁ dst₁ src₂ dst₂ : Option CStr} {u : Unit} (h : FdsHeld w)
    (hinit : ttyInit r ttylink src₁ dst₁ src₂ dst₂ w = .ok u w') : FdsHeld w' := by
  have hm : Modifies {.tty r} w w' := ttyInit_modifies _ _ _ _ _ (by simp) hinit
  have hfds : w'.kern.fds = w.kern.fds := congrArg (·.2.1) (hm.kernProc_eq (by simp))
  have hno := ttyInit_noFds hinit
  refine h.forget (hm.fdsOk (by simp) h.ok) (fun s d hd => ?_) fun _ _ _ hd => hfds ▸ hd
  by_cases hs : s.tty = some r
  · cases s <;> simp_all [Slot.tty, slotFd, hno.dfd, hno.sfd, hno.ifd]
  · rwa [hm.slotFd_eq (fun q hq => ?_) fun id _ => by simp] at hd
    have hne : q ≠ r := fun heq => hs (heq ▸ hq)
    simp [hne]

/-! ## Commands -/

lemma Forked.held {d : Double} (hf : Forked sys w w' id d) (h : FdsHeld w) : FdsHeld w' := by
  have hopen := h.ok.openFd
  refine ⟨⟨hf.fds ▸ hopen.nodup, hf.fds ▸ hf.nextFd ▸ hopen.lt⟩, ?_⟩
  refine h.held.put (i := .pidfd id) (fun s hs => (h.lt hs).false) ?_ (fun l hl => ?_) fun s l hs => ?_
  · rw [Set.mem_ofPred, hf.fds]
    exact List.mem_cons_self
  · rw [Set.mem_ofPred, hf.fds]
    exact List.mem_cons_of_mem _ hl
  · by_cases hid : s = .pidfd id
    · subst hid
      exact .inl ⟨rfl, Option.some_inj.mp (hs.symm.trans hf.pidfd)⟩
    · rw [hf.modifies.slotFd_eq (fun r _ => by simp [forkParts]) fun j hj => ?_] at hs
      · exact .inr hs
      · have hne : j ≠ id := fun heq => hid (heq ▸ hj)
        simp [forkParts, hne]

/-- The command has lost its pidfd, which has been closed if anything has. -/
lemma FdsHeld.unpid (h : FdsHeld w) (hok : FdsOk w'.kern) (hm : Modifies S w w')
    (htty : ∀ r, .tty r ∉ S) (hp : ∀ j, j ≠ id → .proc j ∉ S) (hnone : (w'.heap id).pidfd = none)
    (hopen : ∀ d ∈ w.kern.fds, (w.heap id).pidfd ≠ some d → d ∈ w'.kern.fds) : FdsHeld w' := by
  have hsame (s : Slot) (hs : s ≠ .pidfd id) : slotFd w' s = slotFd w s :=
    hm.slotFd_eq (fun r _ => htty r) fun j hj => hp j fun heq => hs (heq ▸ hj)
  have hold (s : Slot) (d : Fd) (hd : slotFd w' s = some d) : s ≠ .pidfd id ∧ slotFd w s = some d := by
    have hs : s ≠ .pidfd id := by
      rintro rfl
      cases hnone.symm.trans hd
    exact ⟨hs, hsame s hs ▸ hd⟩
  refine h.forget hok (fun s d hd => (hold s d hd).2) fun s d hd hmem => ?_
  obtain ⟨hs, hd⟩ := hold s d hd
  exact hopen d hmem fun hpid => hs (h.held.inj hd hpid)

lemma Terminated.held {epoll : Bool} (ht : Terminated w w' id epoll) (h : FdsHeld w) : FdsHeld w' := by
  refine h.unpid (ht.gone.fds h.ok) ht.modifies (by simp [startParts]) (fun j hj => by simp [startParts, hj])
    ht.pidfd fun d hd hne => ?_
  obtain ⟨fd, hfd, hfds⟩ := ht.fds
  rw [hfds]
  refine (List.mem_erase_of_ne ?_).mpr hd
  rintro rfl
  exact hne hfd

lemma Reaped.held (hr : Reaped w w' id) (h : FdsHeld w) : FdsHeld w' :=
  h.unpid (hr.gone.fds h.ok) hr.modifies (by simp [startParts]) (fun j hj => by simp [startParts, hj])
    hr.pidfd fun d hd _ => hr.fds ▸ hd

end Yar.Proofs
