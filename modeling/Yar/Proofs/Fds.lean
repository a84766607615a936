import Yar.Proofs.HandlerFootprint

/-!
# Descriptors

The creation and the cleanup of ttys open and close descriptors and leave the processes alone.
epoll gains an entry nowhere but in the functions that register events.
-/

namespace Yar.Proofs

open Program

/-- Open descriptors are distinct and have been handed out. -/
structure FdsOk (k : Kernel) : Prop where
  nodup : k.fds.Nodup
  lt : ∀ fd ∈ k.fds, fd < k.nextFd

/-- Descriptors may have been opened and closed, and nothing else has happened to processes and
epoll. -/
structure FdStep (w w' : World) : Prop where
  procs : w'.kern.procs = w.kern.procs
  nextFd : w.kern.nextFd ≤ w'.kern.nextFd
  nextPid : w'.kern.nextPid = w.kern.nextPid
  interest : ∀ e ∈ w'.kern.interest, e ∈ w.kern.interest
  fds : FdsOk w.kern → FdsOk w'.kern

variable {S : Set Part} {w w' : World}

instance : Std.Refl FdStep where
  refl _ := ⟨rfl, le_rfl, rfl, fun _ he => he, id⟩

instance : IsTrans World FdStep where
  trans _ _ _ h h' := ⟨h'.procs.trans h.procs, h.nextFd.trans h'.nextFd,
    h'.nextPid.trans h.nextPid, fun e he => h.interest e (h'.interest e he), h'.fds ∘ h.fds⟩

lemma Modifies.kernProc_eq (h : Modifies S w w') (hS : .kproc ∉ S) :
    kernProc w'.kern = kernProc w.kern :=
  h.same _ hS

lemma FdStep.of_kernProc (h : kernProc w'.kern = kernProc w.kern) : FdStep w w' := by
  simp only [kernProc, Prod.mk.injEq] at h
  obtain ⟨hprocs, hfds, hinterest, hpid, hnext⟩ := h
  refine ⟨hprocs, hnext.ge, hpid, fun e he => hinterest ▸ he, fun hok => ⟨?_, ?_⟩⟩
  · rw [hfds]
    exact hok.nodup
  · rw [hfds, hnext]
    exact hok.lt

lemma Keeps.fdStep {α : Type} {m : Act α} (h : Keeps (Modifies S) m) (hS : .kproc ∉ S) :
    Keeps FdStep m :=
  fun _ _ _ hm => FdStep.of_kernProc ((h hm).kernProc_eq hS)

lemma openFd_ok {fd : Fd} (h : openFd w = .ok fd w') :
    fd = w.kern.nextFd ∧
      w' = { w with kern.fds := w.kern.nextFd :: w.kern.fds, kern.nextFd := w.kern.nextFd + 1 } := by
  replace h := get_bind_eq_ok.mp h
  obtain ⟨_, w₁, hset, h⟩ := bind_eq_ok.mp h
  obtain ⟨rfl, rfl⟩ := pure_eq_ok.mp h
  exact ⟨rfl, set_eq_ok.mp hset⟩

lemma FdsOk.openFd {k : Kernel} (h : FdsOk k) :
    FdsOk { k with fds := k.nextFd :: k.fds, nextFd := k.nextFd + 1 } := by
  refine ⟨List.nodup_cons.mpr ⟨fun hmem => (h.lt _ hmem).false, h.nodup⟩, fun fd hfd => ?_⟩
  rcases List.mem_cons.mp hfd with rfl | hfd
  · exact Nat.lt_succ_self _
  · exact (h.lt fd hfd).trans (Nat.lt_succ_self _)

lemma openFd_fdStep : Keeps FdStep openFd := by
  intro w fd w' h
  obtain ⟨-, rfl⟩ := openFd_ok h
  exact ⟨rfl, Nat.le_succ _, rfl, fun _ he => he, FdsOk.openFd⟩

lemma FdsOk.close {k : Kernel} (h : FdsOk k) (fd : Fd) : FdsOk (k.close fd) :=
  ⟨h.nodup.erase _, fun fd' hfd' => h.lt fd' (List.mem_of_mem_erase hfd')⟩

lemma close_fdStep (fd : Option Fd) : Keeps FdStep (close fd) := by
  cases fd with
  | none => exact Keeps.pure _
  | some fd =>
    exact Keeps.modify fun w => ⟨rfl, le_rfl, rfl, fun e he => List.mem_of_mem_filter he,
      fun h => h.close fd⟩

/-! ## ttys -/

section
variable (sys : Sys)

lemma acquire_fdStep : Keeps FdStep (acquire sys) :=
  Keeps.bind (Keeps.fdStep (S := ∅) call_modifies (by simp)) fun _ =>
    Keeps.ite (fun _ => Keeps.pure _) fun _ => Keeps.bind openFd_fdStep fun _ => Keeps.pure _

lemma ttyLinks_fdStep (r : TtyRef) (t : Tty) : Keeps FdStep (ttyLinks sys r t) :=
  Keeps.fdStep (S := {.names, .oLink}) (ttyLinks_modifies sys r t (by simp) (by simp)) (by simp)

lemma ttyUnlink_fdStep (r : TtyRef) (name : Option CStr) : Keeps FdStep (ttyUnlink sys r name) :=
  Keeps.fdStep (S := {.names, .oLink}) (ttyUnlink_modifies sys r name (by simp) (by simp)) (by simp)

lemma updTty_fdStep {r : TtyRef} {f : Tty → Tty} : Keeps FdStep (updTty r f) :=
  Keeps.modify fun _ => FdStep.of_kernProc rfl

lemma updCmd_fdStep {id : CmdId} {f : Cmd → Cmd} : Keeps FdStep (updCmd id f) :=
  Keeps.modify fun _ => FdStep.of_kernProc rfl

lemma updGbls_fdStep {f : Globals → Globals} : Keeps FdStep (updGbls f) :=
  Keeps.modify fun _ => FdStep.of_kernProc rfl

lemma ttyCleanup_fdStep (r : TtyRef) : Keeps FdStep (ttyCleanup sys r) :=
  Keeps.bind Keeps.get fun _ => Keeps.bind (close_fdStep _) fun _ =>
    Keeps.bind (close_fdStep _) fun _ => Keeps.bind (close_fdStep _) fun _ =>
    Keeps.bind (ttyUnlink_fdStep sys r _) fun _ => Keeps.bind (ttyUnlink_fdStep sys r _) fun _ =>
    Keeps.bind (ttyUnlink_fdStep sys r _) fun _ => updTty_fdStep

lemma ttyWatch_fdStep (r : TtyRef) : Keeps FdStep (ttyWatch sys r) := by
  refine Keeps.bind (acquire_fdStep sys) fun fd => ?_
  cases fd with
  | none => exact Keeps.pure _
  | some ifd =>
    refine Keeps.bind updTty_fdStep fun _ =>
      Keeps.bind (Keeps.fdStep (S := ∅) call_modifies (by simp)) fun _ =>
      Keeps.ite (fun _ => Keeps.pure _) fun _ => Keeps.bind updTty_fdStep fun _ => Keeps.pure _

lemma ttyCreate_fdStep (r : TtyRef) : Keeps FdStep (ttyCreate sys r) := by
  refine Keeps.bind ?_ fun _ => Keeps.ite (fun _ => Keeps.pure _) fun _ =>
    Keeps.bind (ttyCleanup_fdStep sys r) fun _ => Keeps.pure _
  refine Keeps.bind Keeps.get fun _ => Keeps.bind (Keeps.require _ _) fun _ =>
    Keeps.bind (Keeps.fdStep (S := ∅) (ttyNamesTaken_modifies sys _) (by simp)) fun _ =>
    Keeps.ite (fun _ => Keeps.pure _) fun _ => Keeps.bind (acquire_fdStep sys) fun dfd => ?_
  cases dfd with
  | none => exact Keeps.pure _
  | some dfd =>
    have hport : Keeps FdStep (updPort r fun _ => {}) :=
      Keeps.modify fun _ => FdStep.of_kernProc rfl
    refine Keeps.bind updTty_fdStep fun _ => Keeps.bind hport fun _ =>
      Keeps.bind (acquire_fdStep sys) fun sfd => ?_
    cases sfd with
    | none => exact Keeps.pure _
    | some sfd =>
      exact Keeps.bind (ttyLinks_fdStep sys r _) fun _ => Keeps.ite (fun _ => Keeps.pure _) fun _ =>
        Keeps.bind (ttyWatch_fdStep sys r) fun _ => Keeps.ite (fun _ => Keeps.pure _) fun _ =>
        Keeps.bind updTty_fdStep fun _ => Keeps.pure _

/-- What a registration adds to epoll's list. -/
def reported (sys : Sys) (fd : Fd) (s : Source) : List (Fd × Source) :=
  if sys.deaf fd = true then [] else [(fd, s)]

variable {sys} in
lemma mem_reported {fd : Fd} {s : Source} {e : Fd × Source} :
    e ∈ reported sys fd s ↔ sys.deaf fd = false ∧ e = (fd, s) := by
  unfold reported
  cases sys.deaf fd <;> simp

lemma epollAdd_eq (sys : Sys) (fd : Fd) (s : Source) (w : World) : epollAdd sys fd s w =
    .ok (!sys.deaf fd) { w with kern.interest := w.kern.interest ++ reported sys fd s } := by
  unfold epollAdd reported
  cases sys.deaf fd with
  | true =>
    rw [if_pos rfl, if_pos rfl, List.append_nil]
    rfl
  | false => rfl

/-- What the registration of a tty adds to epoll's list. -/
def heardOf (sys : Sys) (r : TtyRef) (dfd ifd : Fd) : List (Fd × Source) :=
  if sys.deaf dfd = true then [] else (dfd, .dom r) :: reported sys ifd (.ifd r)

variable {sys} in
lemma mem_heardOf {r : TtyRef} {dfd ifd : Fd} {e : Fd × Source} : e ∈ heardOf sys r dfd ifd ↔
    sys.deaf dfd = false ∧ (e = (dfd, .dom r) ∨ sys.deaf ifd = false ∧ e = (ifd, .ifd r)) := by
  unfold heardOf
  cases sys.deaf dfd <;> simp [mem_reported]

variable {sys} in
/-- A registration needs both descriptors. -/
lemma ttyRegisterEvents_ok {r : TtyRef} {b : Bool} (h : ttyRegisterEvents sys r w = .ok b w') :
    ∃ dfd ifd, (w.ttys r).dfd = some dfd ∧ (w.ttys r).ifd = some ifd ∧
      w' = { w with kern.interest := w.kern.interest ++ heardOf sys r dfd ifd } ∧
      (b = true ↔ sys.deaf dfd = false ∧ sys.deaf ifd = false) := by
  replace h := get_bind_eq_ok.mp h
  cases hd : (w.ttys r).dfd with
  | none =>
    simp only [hd] at h
    exact (throw_eq_ok.mp h).elim
  | some dfd =>
    cases hi : (w.ttys r).ifd with
    | none =>
      simp only [hd, hi] at h
      exact (throw_eq_ok.mp h).elim
    | some ifd =>
      simp only [hd, hi] at h
      obtain ⟨-, h⟩ := require_bind_eq_ok.mp h
      rw [bind_of_ok (epollAdd_eq sys dfd (.dom r) w)] at h
      refine ⟨dfd, ifd, rfl, rfl, ?_⟩
      unfold heardOf
      cases hdeaf : sys.deaf dfd with
      | true =>
        simp only [hdeaf] at h
        obtain ⟨rfl, rfl⟩ := pure_eq_ok.mp h
        simp [reported, hdeaf]
      | false =>
        simp only [hdeaf] at h
        replace h := (epollAdd_eq sys ifd (.ifd r) _).symm.trans h
        cases h
        simp [reported, hdeaf]

lemma ttyInit_fdStep (r : TtyRef) (l e₁ e₂ e₃ e₄ : Option CStr) :
    Keeps FdStep (ttyInit r l e₁ e₂ e₃ e₄) :=
  Keeps.bind Keeps.get fun _ => Keeps.bind (Keeps.require _ _) fun _ => updTty_fdStep

lemma cmdInit_fdStep (id : CmdId) (name cmdline : CStr) (delay : Double)
    (ttylink log : Option CStr) : Keeps FdStep (cmdInit id name cmdline delay ttylink log) :=
  Keeps.bind (Keeps.require _ _) fun _ => Keeps.bind Keeps.get fun _ =>
    Keeps.bind updCmd_fdStep fun _ => Keeps.bind (ttyInit_fdStep _ _ _ _ _ _) fun _ =>
    Keeps.bind Keeps.get fun _ => ttyInit_fdStep _ _ _ _ _ _

lemma cmdCreate_fdStep (id : CmdId) : Keeps FdStep (cmdCreate sys id) :=
  Keeps.bind (ttyCreate_fdStep sys _) fun _ =>
    Keeps.ite (fun _ => ttyCreate_fdStep sys _) fun _ => Keeps.pure _

/-- The cleanup of a command but for the stop. -/
lemma cmdClear_fdStep (id : CmdId) : Keeps FdStep
    (do ttyCleanup sys (.cmd id); ttyCleanup sys (.clt id); updCmd id cmdClear) :=
  Keeps.bind (ttyCleanup_fdStep sys _) fun _ => Keeps.bind (ttyCleanup_fdStep sys _) fun _ =>
    updCmd_fdStep

end

end Yar.Proofs
