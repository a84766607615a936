import Yar.Proofs.Descriptors

/-!
# What epoll watches

The descriptors of a command are registered with pointers into its `cmd_t`. A removal closes them, so
that epoll forgets them, unless a child that has not execed has copies of them.
-/

namespace Yar.Proofs

open Program

/-- The command whose `cmd_t` an event of the source points into. -/
def Source.owner : Source → Option CmdId
  | .dom (.clt id) => some id
  | .dom (.cmd id) => some id
  | .ifd (.clt id) => some id
  | .ifd (.cmd id) => some id
  | .pidfd id _ => some id
  | _ => none

/-- The descriptor that the `cmd_t` or the tty has for the source. -/
def recordedFd (w : World) : Source → Option Fd
  | .dom r => (w.ttys r).dfd
  | .ifd r => (w.ttys r).ifd
  | .pidfd id _ => (w.heap id).pidfd
  | .sig => none
  | .fs => none

/-- The descriptor is registered for a command of the table, which has it. -/
structure Current (w : World) (id : CmdId) (e : Fd × Source) : Prop where
  mem : id ∈ w.gbls.cmds
  recorded : recordedFd w e.2 = some e.1
  pidfd : ∀ fd, e.2 = .pidfd id fd → fd = e.1

/-- All of epoll's descriptors of commands are current, as far as the sources of `T` go. -/
def Registered (T : Source → Prop) (w : World) : Prop :=
  ∀ e ∈ w.kern.interest, T e.2 → ∀ id ∈ Source.owner e.2, Current w id e

/-- No other child has copies of the descriptors that epoll has for the command. -/
def Unshared (T : Source → Prop) (w : World) (id : CmdId) : Prop :=
  ∀ e ∈ w.kern.interest, T e.2 → Source.owner e.2 = some id →
    ∀ p ∈ w.kern.procs, (w.heap id).pidfd ≠ some p.pidfd → e.1 ∉ p.held

instance (T : Source → Prop) [DecidablePred T] (w : World) (id : CmdId) : Decidable (Unshared T w id) :=
  inferInstanceAs (Decidable (∀ e ∈ w.kern.interest, T e.2 → _ → ∀ p ∈ w.kern.procs, _ → _))

variable {sys : Sys} {T : Source → Prop} {w w' : World} {id : CmdId} {r : TtyRef} {S : Set Part}
  {e : Fd × Source}

/-! ## Steps that leave the descriptors of commands alone -/

/-- The parts in which the descriptors of the source are recorded. -/
def fdPart : Source → Part
  | .dom r => .tty r
  | .ifd r => .tty r
  | .pidfd id _ => .proc id
  | .sig => .brk
  | .fs => .brk

lemma Modifies.recordedFd_eq {s : Source} (hm : Modifies S w w') (hS : fdPart s ∉ S) :
    recordedFd w' s = recordedFd w s := by
  cases s with
  | dom r =>
    have htty := hm.same _ hS
    simp only [SameOn, ttyStatic, Prod.mk.injEq] at htty
    exact htty.2.2.2.1
  | ifd r =>
    have htty := hm.same _ hS
    simp only [SameOn, ttyStatic, Prod.mk.injEq] at htty
    exact htty.2.2.2.2.2.1
  | pidfd id fd => exact hm.pidfd_eq hS
  | sig => rfl
  | fs => rfl

lemma Current.frame (h : Current w id e) (hm : Modifies S w w') (hid : id ∈ w'.gbls.cmds)
    (hS : fdPart e.2 ∉ S) : Current w' id e :=
  ⟨hid, (hm.recordedFd_eq hS).trans h.recorded, h.pidfd⟩

/-- epoll has gained no entry, and what it still has is recorded as before. -/
lemma Registered.frame (h : Registered T w) (hm : Modifies S w w')
    (hi : ∀ e ∈ w'.kern.interest, e ∈ w.kern.interest) (hc : ∀ id ∈ w.gbls.cmds, id ∈ w'.gbls.cmds)
    (hS : ∀ e ∈ w'.kern.interest, ∀ id ∈ Source.owner e.2, id ∈ w.gbls.cmds → fdPart e.2 ∉ S) :
    Registered T w' := by
  intro e he hT id hid
  have hcur := h e (hi e he) hT id hid
  exact hcur.frame hm (hc id hcur.mem) (hS e he id hid hcur.mem)

lemma Modifies.interest_eq (hm : Modifies S w w') (hk : .kproc ∉ S) :
    w'.kern.interest = w.kern.interest :=
  congrArg (·.2.2.1) (hm.kernProc_eq hk)

/-- The parts of a command's descriptors. -/
lemma fdPart_owner {s : Source} (h : id ∈ Source.owner s) :
    fdPart s = .tty (.clt id) ∨ fdPart s = .tty (.cmd id) ∨ fdPart s = .proc id := by
  cases s with
  | dom r => cases r <;> simp_all [Source.owner, fdPart]
  | ifd r => cases r <;> simp_all [Source.owner, fdPart]
  | pidfd j fd => simp_all [Source.owner, fdPart]
  | sig => simp [Source.owner] at h
  | fs => simp [Source.owner] at h

lemma fdPart_notMem {s : Source} (h : id ∈ Source.owner s) (hclt : .tty (.clt id) ∉ S)
    (hcmd : .tty (.cmd id) ∉ S) (hp : .proc id ∉ S) : fdPart s ∉ S := by
  rcases fdPart_owner h with hs | hs | hs <;> rwa [hs]

/-! ## What a removal closes -/

/-- yar has closed the descriptor, and epoll has forgotten it. -/
structure Dropped (fd : Fd) (w : World) : Prop where
  closed : fd ∉ w.kern.fds
  forgotten : ∀ e ∈ w.kern.interest, e.1 ≠ fd

/-- Descriptors are closed and not opened, and the processes stay what they are. -/
structure Closes (w w' : World) : Prop where
  fds : w'.kern.fds.Sublist w.kern.fds
  interest : ∀ e ∈ w'.kern.interest, e ∈ w.kern.interest
  procs : w'.kern.procs = w.kern.procs

instance : Std.Refl Closes where
  refl _ := ⟨.refl _, fun _ he => he, rfl⟩

instance : IsTrans World Closes where
  trans _ _ _ h h' := ⟨h'.fds.trans h.fds, fun e he => h.interest e (h'.interest e he),
    h'.procs.trans h.procs⟩

lemma Dropped.closes {fd : Fd} (h : Dropped fd w) (hc : Closes w w') : Dropped fd w' :=
  ⟨fun hmem => h.closed (hc.fds.subset hmem), fun e he => h.forgotten e (hc.interest e he)⟩

lemma Modifies.closes (hm : Modifies S w w') (hk : .kproc ∉ S) : Closes w w' := by
  have h := hm.kernProc_eq hk
  simp only [kernProc, Prod.mk.injEq] at h
  obtain ⟨hprocs, hfds, hinterest, -⟩ := h
  exact ⟨hfds ▸ .refl _, fun e he => hinterest ▸ he, hprocs⟩

lemma close_closes (fd : Option Fd) : Keeps Closes (close fd) := by
  cases fd with
  | none => exact Keeps.pure _
  | some fd => exact Keeps.modify fun w =>
      ⟨List.erase_sublist, fun e he => List.mem_of_mem_filter he, rfl⟩

lemma close_dropped {fd : Fd} {u : Unit} (h : close (some fd) w = .ok u w') (hn : w.kern.fds.Nodup)
    (hfree : ∀ p ∈ w.kern.procs, fd ∉ p.held) : Dropped fd w' := by
  rw [modify_eq_ok.mp h]
  refine ⟨hn.not_mem_erase, fun e he heq => ?_⟩
  have hopen := List.of_mem_filter he
  rw [heq, Kernel.isOpen, Bool.or_eq_true, List.contains_iff_mem, List.any_eq_true] at hopen
  rcases hopen with hmem | ⟨p, hp, hheld⟩
  · exact hn.not_mem_erase hmem
  · exact hfree p hp (List.contains_iff_mem.mp hheld)

/-- The rest of `ttyCleanup` after the three descriptors. -/
lemma ttyUnlinks_closes (this : Tty) : Keeps Closes (do
    ttyUnlink sys r this.link
    ttyUnlink sys r this.extralink1.src
    ttyUnlink sys r this.extralink2.src
    updTty r fun _ => {}) := by
  have hunlink (name : Option CStr) : Keeps (Modifies {.names, .oLink, .tty r, .opens r})
      (ttyUnlink sys r name) := ttyUnlink_modifies sys r name (by simp) (by simp)
  have hm : Keeps (Modifies {.names, .oLink, .tty r, .opens r}) (do
      ttyUnlink sys r this.link
      ttyUnlink sys r this.extralink1.src
      ttyUnlink sys r this.extralink2.src
      updTty r fun _ => {}) :=
    Keeps.bind (hunlink _) fun _ => Keeps.bind (hunlink _) fun _ => Keeps.bind (hunlink _) fun _ =>
      updTty_modifies (.inl (by simp)) (.inl (by simp))
  exact hm.mono fun _ _ h => h.closes (by simp)

lemma ttyCleanup_closes (r : TtyRef) : Keeps Closes (ttyCleanup sys r) :=
  Keeps.bind Keeps.get fun _ => Keeps.bind (close_closes _) fun _ => Keeps.bind (close_closes _) fun _ =>
    Keeps.bind (close_closes _) fun _ => ttyUnlinks_closes _

lemma ttyCleanup_dropped {fd : Fd} {u : Unit} (h : ttyCleanup sys r w = .ok u w')
    (hn : w.kern.fds.Nodup) (hfree : ∀ p ∈ w.kern.procs, fd ∉ p.held)
    (hfd : (w.ttys r).dfd = some fd ∨ (w.ttys r).ifd = some fd) : Dropped fd w' := by
  replace h := get_bind_eq_ok.mp h
  obtain ⟨_, w₁, hifd, h⟩ := bind_eq_ok.mp h
  obtain ⟨_, w₂, hdfd, h⟩ := bind_eq_ok.mp h
  obtain ⟨_, w₃, hsfd, h⟩ := bind_eq_ok.mp h
  have h₁ := close_closes _ hifd
  have h₃ : Closes w₂ w' := trans_of _ (close_closes _ hsfd) (ttyUnlinks_closes _ h)
  rcases hfd with hfd | hfd
  · rw [hfd] at hdfd
    have hd := close_dropped hdfd (hn.sublist h₁.fds) fun p hp => hfree p (h₁.procs ▸ hp)
    exact hd.closes h₃
  · rw [hfd] at hifd
    exact (close_dropped hifd hn hfree).closes (trans_of _ (close_closes _ hdfd) h₃)

lemma Terminated.dropped {epoll : Bool} {fd : Fd} (ht : Terminated w w' id epoll)
    (hn : w.kern.fds.Nodup) (hfd : (w.heap id).pidfd = some fd)
    (hfree : ∀ p ∈ w'.kern.procs, fd ∉ p.held) : Dropped fd w' := by
  obtain ⟨fd', hfd', hfds⟩ := ht.fds
  obtain rfl : fd' = fd := Option.some_inj.mp (hfd'.symm.trans hfd)
  have hclosed : fd' ∉ w'.kern.fds := by
    rw [hfds]
    exact hn.not_mem_erase
  refine ⟨hclosed, fun e he heq => ?_⟩
  have hopen := ht.isOpen e he
  rw [heq, Kernel.isOpen, Bool.or_eq_true, List.contains_iff_mem, List.any_eq_true] at hopen
  rcases hopen with hmem | ⟨p, hp, hheld⟩
  · exact hclosed hmem
  · exact hfree p hp (List.contains_iff_mem.mp hheld)

/-- The stop that comes with a removal. -/
structure ForcedStop (w w' : World) (id : CmdId) : Prop where
  nodup : w.kern.fds.Nodup → w'.kern.fds.Nodup
  nextPid : w'.kern.nextPid = w.kern.nextPid
  interest : ∀ e ∈ w'.kern.interest, e ∈ w.kern.interest
  procs : ∀ p ∈ w'.kern.procs, p ∈ w.kern.procs ∧ (w.heap id).pidfd ≠ some p.pidfd
  ttys : ∀ r, ttyStatic (w'.ttys r) = ttyStatic (w.ttys r)
  dropped : ∀ fd, w.kern.fds.Nodup → (w.heap id).pidfd = some fd →
    (∀ p ∈ w'.kern.procs, fd ∉ p.held) → Dropped fd w'

lemma cmdStop_forced {b : Bool} (hid : id ∈ w.gbls.cmds) (hc : Children w.gbls.cmds w)
    (h : cmdStop sys id false true w = .ok b w') : ForcedStop w w' id := by
  have hm : Modifies (procParts id) w w' := cmdStop_modifies sys _ _ subset_rfl h
  have httys (r : TtyRef) : ttyStatic (w'.ttys r) = ttyStatic (w.ttys r) :=
    hm.same (.tty r) (by simp [procParts, startParts])
  rcases cmdStop_cases h with ⟨hpid, rfl⟩ | ⟨-, hforce, -⟩ | ⟨-, -, w₁, hsend, hterm⟩
  · have hnone := hc.pidfd_none hid hpid
    refine ⟨fun hn => hn, rfl, fun _ he => he, fun p hp => ⟨hp, ?_⟩, httys, fun fd _ hfd => ?_⟩
    · rw [hnone]
      simp
    · rw [hnone] at hfd
      cases hfd
  · cases hforce
  · have hm₁ : Modifies {.lastwrite id, .oWrite (.cmd id)} w w₁ :=
      cmdSendStopstr_modifies sys (by simp) (by simp) hsend
    have hc₁ : Closes w w₁ := hm₁.closes (by simp)
    have hpidfd : (w₁.heap id).pidfd = (w.heap id).pidfd := hm₁.pidfd_eq (by simp)
    have ht := cmdTerminate_ok hterm
    refine ⟨fun hn => ?_, ht.gone.nextPid.trans (FdStep.of_kernProc (hm₁.kernProc_eq (by simp))).nextPid,
      fun e he => hc₁.interest e (ht.gone.interest e he), fun p hp => ?_, httys,
      fun fd hn hfd hfree => ?_⟩
    · obtain ⟨fd, -, hfds⟩ := ht.fds
      rw [hfds]
      exact (hn.sublist hc₁.fds).erase _
    · rw [ht.gone.procs, List.mem_filter, decide_eq_true_eq, hpidfd, hc₁.procs] at hp
      exact hp
    · exact ht.dropped (hn.sublist hc₁.fds) (hpidfd.trans hfd) hfree

/-- The cleanup of a command closes what epoll has for it. -/
lemma cmdCleanup_dropped {u : Unit} (hn : w.kern.fds.Nodup) (hid : id ∈ w.gbls.cmds)
    (hc : Children w.gbls.cmds w) (hcur : Current w id e) (howner : id ∈ Source.owner e.2)
    (hfree : ∀ p ∈ w.kern.procs, (w.heap id).pidfd ≠ some p.pidfd → e.1 ∉ p.held)
    (h : cmdCleanup sys id w = .ok u w') : Dropped e.1 w' := by
  obtain ⟨_, w₁, hstop, h⟩ := bind_eq_ok.mp h
  obtain ⟨b, hstop⟩ := discard_eq_ok.mp hstop
  have hs := cmdStop_forced hid hc hstop
  obtain ⟨_, w₂, hcmd, h⟩ := bind_eq_ok.mp h
  obtain ⟨_, w₃, hclt, h⟩ := bind_eq_ok.mp h
  have hc₂ : Closes w₁ w₂ := ttyCleanup_closes _ hcmd
  have hc₃ : Closes w₂ w₃ := ttyCleanup_closes _ hclt
  have hc₄ : Closes w₃ w' := by
    rw [modify_eq_ok.mp h]
    exact ⟨.refl _, fun _ he => he, rfl⟩
  have hn₁ := hs.nodup hn
  have hfree₁ : ∀ p ∈ w₁.kern.procs, e.1 ∉ p.held := fun p hp =>
    hfree p (hs.procs p hp).1 (hs.procs p hp).2
  have hm₂ : Modifies (ttyParts (.cmd id)) w₁ w₂ := ttyCleanup_modifies sys subset_rfl hcmd
  have dfd (r : TtyRef) : (w₁.ttys r).dfd = (w.ttys r).dfd := congrArg (·.2.2.2.1) (hs.ttys r)
  have ifd (r : TtyRef) : (w₁.ttys r).ifd = (w.ttys r).ifd := congrArg (·.2.2.2.2.2.1) (hs.ttys r)
  have cmd (h : (w.ttys (.cmd id)).dfd = some e.1 ∨ (w.ttys (.cmd id)).ifd = some e.1) :
      Dropped e.1 w' := by
    rw [← dfd, ← ifd] at h
    exact (ttyCleanup_dropped hcmd hn₁ hfree₁ h).closes (trans_of _ hc₃ hc₄)
  have clt (h : (w.ttys (.clt id)).dfd = some e.1 ∨ (w.ttys (.clt id)).ifd = some e.1) :
      Dropped e.1 w' := by
    have htty := hm₂.same (.tty (.clt id)) (by simp [ttyParts])
    simp only [SameOn, ttyStatic, Prod.mk.injEq] at htty
    rw [← dfd, ← ifd, ← htty.2.2.2.1, ← htty.2.2.2.2.2.1] at h
    refine (ttyCleanup_dropped hclt (hn₁.sublist hc₂.fds) (fun p hp => ?_) h).closes hc₄
    exact hfree₁ p (hc₂.procs ▸ hp)
  obtain ⟨-, hrec, -⟩ := hcur
  obtain ⟨fd, s⟩ := e
  cases s with
  | dom r =>
    cases r with
    | clt j =>
      obtain rfl : j = id := by simpa [Source.owner] using howner
      exact clt (.inl hrec)
    | cmd j =>
      obtain rfl : j = id := by simpa [Source.owner] using howner
      exact cmd (.inl hrec)
    | mon => simp [Source.owner] at howner
    | bcst => simp [Source.owner] at howner
  | ifd r =>
    cases r with
    | clt j =>
      obtain rfl : j = id := by simpa [Source.owner] using howner
      exact clt (.inr hrec)
    | cmd j =>
      obtain rfl : j = id := by simpa [Source.owner] using howner
      exact cmd (.inr hrec)
    | mon => simp [Source.owner] at howner
    | bcst => simp [Source.owner] at howner
  | pidfd j fd' =>
    obtain rfl : j = id := by simpa [Source.owner] using howner
    exact (hs.dropped fd hn hrec hfree₁).closes (trans_of _ hc₂ (trans_of _ hc₃ hc₄))
  | sig => simp [Source.owner] at howner
  | fs => simp [Source.owner] at howner

lemma remove_registered (hr : (do cmdCleanup sys id; hashDel id) w = .ok () w')
    (hid : id ∈ w.gbls.cmds) (hc : Children w.gbls.cmds w) (hn : w.kern.fds.Nodup)
    (hfree : Unshared T w id) (h : Registered T w) : Registered T w' := by
  obtain ⟨hm, hcmds⟩ := remove_ok hr
  obtain ⟨_, w₁, hclean, hdel⟩ := bind_eq_ok.mp hr
  have hkern : w'.kern = w₁.kern := by rw [hashDel_ok hdel]
  have hsub : ∀ e ∈ w'.kern.interest, e ∈ w.kern.interest := by
    obtain ⟨_, w₂, hstop, hclear⟩ := bind_eq_ok.mp hclean
    obtain ⟨b, hstop⟩ := discard_eq_ok.mp hstop
    intro e he
    rw [hkern] at he
    exact (cmdStop_forced hid hc hstop).interest e ((cmdClear_fdStep sys id hclear).interest e he)
  intro e he hT j hj
  have hcur := h e (hsub e he) hT j hj
  have hne : j ≠ id := by
    rintro rfl
    have hd := cmdCleanup_dropped hn hid hc hcur hj (hfree e (hsub e he) hT hj) hclean
    rw [hkern] at he
    exact hd.forgotten e he rfl
  refine hcur.frame hm ?_ (fdPart_notMem hj ?_ ?_ ?_)
  · rw [hcmds, List.mem_filter, decide_eq_true_eq]
    exact ⟨hcur.mem, hne⟩
  all_goals simp [removeParts, cleanupParts, procParts, startParts, cmdParts, ttyParts, hne]

/-! ## Actions -/

/-- A start registers the pidfd. -/
lemma Forked.registered {d : Double} (hf : Forked sys w w' id d) (hid : id ∈ w.gbls.cmds)
    (hc : Children w.gbls.cmds w) (h : Registered T w) : Registered T w' := by
  have hcmds : w'.gbls.cmds = w.gbls.cmds := hf.modifies.cmds_eq (by simp [forkParts])
  intro e he hT j hj
  rw [hf.interest, List.mem_append, mem_reported] at he
  rcases he with he | ⟨-, rfl⟩
  · have hcur := h e he hT j hj
    refine hcur.frame hf.modifies (hcmds ▸ hcur.mem) ?_
    obtain ⟨fd, s⟩ := e
    cases s with
    | pidfd k fd' =>
      -- a command that is started had no pidfd
      have hne : k ≠ id := by
        rintro rfl
        obtain rfl : k = j := by simpa [Source.owner] using hj
        cases hcur.recorded.symm.trans (hc.pidfd_none hid hf.stopped)
      simp [fdPart, forkParts, hne]
    | _ => simp [fdPart, forkParts]
  · obtain rfl : id = j := by simpa [Source.owner] using hj
    refine ⟨hcmds ▸ hid, hf.pidfd, fun fd heq => ?_⟩
    cases heq
    rfl

/-- A command whose pidfd is off epoll's list has lost it. -/
lemma Registered.reset (h : Registered T w) (hm : Modifies (startParts id) w w')
    (hi : ∀ e ∈ w'.kern.interest, e ∈ w.kern.interest)
    (hoff : ∀ e ∈ w'.kern.interest, (w.heap id).pidfd ≠ some e.1) : Registered T w' := by
  have hcmds : w'.gbls.cmds = w.gbls.cmds := hm.cmds_eq (by simp [startParts])
  intro e he hT j hj
  have hcur := h e (hi e he) hT j hj
  refine hcur.frame hm (hcmds ▸ hcur.mem) ?_
  have hrec := hcur.recorded
  obtain ⟨fd, s⟩ := e
  cases s with
  | pidfd k fd' =>
    have hne : k ≠ id := by
      rintro rfl
      exact hoff _ he hrec
    simp [fdPart, startParts, hne]
  | _ => simp [fdPart, startParts]

lemma ttyRegisterEvents_registered {b : Bool} (hr : ∀ id, r = .clt id ∨ r = .cmd id → id ∈ w.gbls.cmds)
    (hreg : ttyRegisterEvents sys r w = .ok b w') (h : Registered T w) : Registered T w' := by
  obtain ⟨dfd, ifd, hdfd, hifd, rfl, -⟩ := ttyRegisterEvents_ok hreg
  have hmem {id : CmdId} (hid : id ∈ Source.owner (.dom r) ∨ id ∈ Source.owner (.ifd r)) :
      id ∈ w.gbls.cmds := by
    refine hr id ?_
    cases r <;> simp_all [Source.owner]
  intro e he hT id hid
  rw [List.mem_append, mem_heardOf] at he
  rcases he with he | ⟨-, rfl | ⟨-, rfl⟩⟩
  · obtain ⟨hcmd, hrec, hpidfd⟩ := h e he hT id hid
    exact ⟨hcmd, hrec, hpidfd⟩
  · exact ⟨hmem (.inl hid), hdfd, fun fd heq => by cases heq⟩
  · exact ⟨hmem (.inr hid), hifd, fun fd heq => by cases heq⟩

lemma Action.fdsOk {ok : World → Op → Prop} (ha : Action sys ok w w') (h : FdsOk w.kern) :
    FdsOk w'.kern := by
  cases ha with
  | @quiet S hS hm hflg =>
    have hk : .kproc ∉ S := fun hpS => by simpa [Part.quiet] using hS _ hpS
    exact hm.fdsOk hk h
  | notified r mask rest hr hq hw =>
    rw [hw]
    exact (notified_modifies w r mask rest).fdsOk (by simp) h
  | start id d hid hf =>
    have hopened := h.openFd
    exact ⟨by rw [hf.fds]; exact hopened.nodup, by rw [hf.fds, hf.nextFd]; exact hopened.lt⟩
  | stop id hid hs => exact hs.gone.fds h
  | reap id hid hok hr => exact hr.gone.fds h
  | remove id hid hok hr =>
    obtain ⟨_, w₁, hclean, hdel⟩ := bind_eq_ok.mp hr
    have h₁ : FdsOk w₁.kern := cmdCleanup_fdsOk hclean h
    rw [hashDel_ok hdel]
    exact h₁
  | add cstr res hok hadd =>
    rcases GBLSAddCmd_cases hadd with ⟨-, hn⟩ | ⟨id, spec, -, ha⟩
    · exact hn.fds.fds h
    · exact ha.fds.fds h
  | register r c hr hreg =>
    obtain ⟨hfds, hnext⟩ := ttyRegisterEvents_fds hreg
    exact ⟨by rw [hfds]; exact h.nodup, by rw [hfds, hnext]; exact h.lt⟩
  | enable b hok hflg hlen he => exact (ttyCreate_fdStep sys .bcst he).fds h

/-- The removals of a run leave no copy of a registered descriptor behind. -/
def RemovesUnshared (T : Source → Prop) (w : World) : Op → Prop
  | .remove id => Unshared T w id
  | _ => True

lemma Action.registered (ha : Action sys (RemovesUnshared T) w w') (ht : TableInv w)
    (hc : Children w.gbls.cmds w) (hok : FdsOk w.kern) (h : Registered T w) : Registered T w' := by
  have kept {S : Set Part} (hm : Modifies S w w') (hk : .kproc ∉ S) (ht : .table ∉ S)
      (htty : ∀ r, .tty r ∉ S) (hp : ∀ id, .proc id ∉ S) : Registered T w' := by
    refine h.frame hm (fun e he => ?_) (fun id hid => ?_)
      fun e _ id hid _ => fdPart_notMem hid (htty _) (htty _) (hp _)
    · rwa [hm.interest_eq hk] at he
    · rwa [hm.cmds_eq ht]
  cases ha with
  | @quiet S hS hm hflg =>
    have hnot {p : Part} (hp : p.quiet = false) : p ∉ S := fun hpS => by
      rw [hS p hpS] at hp
      cases hp
    exact kept hm (hnot rfl) (hnot rfl) (fun _ => hnot rfl) fun _ => hnot rfl
  | notified r mask rest hr hq hw =>
    rw [hw] at kept ⊢
    exact kept (notified_modifies w r mask rest) (by simp) (by simp) (by simp) (by simp)
  | start id d hid hf => exact hf.registered hid hc h
  | stop id hid hs => exact h.reset hs.modifies hs.gone.interest (hs.unregistered rfl)
  | reap id hid hok hr => exact h.reset hr.modifies hr.gone.interest hr.unregistered
  | remove id hid hfree hr => exact remove_registered hr hid hc hok.nodup hfree h
  | add cstr res _ hadd =>
    rcases GBLSAddCmd_cases hadd with ⟨-, hn⟩ | ⟨id, spec, -, ha⟩
    · refine h.frame hn.modifies hn.fds.interest (fun id hid => ?_) fun e _ id howner hid => ?_
      · rwa [hn.modifies.cmds_eq (by simp [cmdParts, ttyParts])]
      · have hne : id ≠ w.brk := (ht.lt_brk id hid).ne
        apply fdPart_notMem howner <;> simp [cmdParts, ttyParts, hne]
    · refine h.frame ha.modifies ha.fds.interest (fun j hj => ?_) fun e _ j howner hj => ?_
      · rw [ha.table]
        exact List.mem_append_left _ hj
      · have hne : j ≠ id := by
          rw [ha.id_eq]
          exact (ht.lt_brk j hj).ne
        apply fdPart_notMem howner <;> simp [addParts, cmdParts, ttyParts, hne]
  | register r c hr hreg => exact ttyRegisterEvents_registered hr hreg h
  | enable b _ hflg hlen he =>
    have hm := enable_modifies he
    refine h.frame hm (ttyCreate_fdStep sys .bcst he).interest (fun id hid => ?_) fun e _ id howner _ => ?_
    · rwa [hm.cmds_eq (by simp [bcstParts, ttyParts])]
    · apply fdPart_notMem howner <;> simp [bcstParts, ttyParts]

/-! ## Runs -/

/-- A command is deleted only while no other child has copies of its registered descriptors. -/
def DeletesUnshared (T : Source → Prop) (w : World) (e : Event) : Prop :=
  ∀ id ∈ deletes w e, Unshared T w id

instance (T : Source → Prop) [DecidablePred T] (w : World) (e : Event) :
    Decidable (DeletesUnshared T w e) :=
  inferInstanceAs (Decidable (∀ id ∈ deletes w e, _))

lemma Unshared.reaped (h : Unshared T w id) (hr : Reaped w w' id) : Unshared T w' id := by
  intro e he hT howner p hp _
  rw [hr.gone.procs, List.mem_filter, decide_eq_true_eq] at hp
  exact h e (hr.gone.interest e he) hT howner p hp.1 hp.2

lemma DeletesUnshared.permits {s : Source} {x : Answer} (h : DeletesUnshared T w (.hdlr s x)) :
    Permits sys (RemovesUnshared T) s x w := by
  constructor
  · exact fun _ _ _ _ _ => trivial
  · exact fun _ _ _ _ _ _ _ _ _ _ => trivial
  · exact fun _ _ _ => trivial
  · exact fun id hd => h id hd
  · exact fun id fd w₁ _ hd hreap => (h id hd).reaped (cmdPidReap_ok hreap)

lemma apply_fds (w : World) (e : Env) : (e.apply w).kern.fds = w.kern.fds ∧
    (e.apply w).kern.nextFd = w.kern.nextFd ∧
    ∀ e' ∈ (e.apply w).kern.interest, e' ∈ w.kern.interest := by
  cases e with
  | closed r wr =>
    simp only [Env.apply]
    split <;> exact ⟨rfl, rfl, fun _ he => he⟩
  | opened r => exact ⟨rfl, rfl, fun _ he => he⟩
  | typed r c p => exact ⟨rfl, rfl, fun _ he => he⟩
  | exited p st => exact ⟨rfl, rfl, fun _ he => List.mem_of_mem_filter he⟩
  | execed p => exact ⟨rfl, rfl, fun _ he => List.mem_of_mem_filter he⟩

/-- The table stays, and what is registered is current if it was. -/
def Registers (T : Source → Prop) (ids : List CmdId) (w w' : World) : Prop :=
  w.gbls.cmds = ids →
    w'.gbls.cmds = ids ∧ (FdsOk w.kern ∧ Registered T w → FdsOk w'.kern ∧ Registered T w')

instance {ids : List CmdId} : Std.Refl (Registers T ids) where
  refl _ hids := ⟨hids, fun hw => hw⟩

instance {ids : List CmdId} : IsTrans World (Registers T ids) where
  trans _ _ _ h h' hids := ⟨(h' (h hids).1).1, (h' (h hids).1).2 ∘ (h hids).2⟩

lemma epollAdd_registers {ids : List CmdId} (fd : Fd) {s : Source} (hs : Source.owner s = none) :
    Keeps (Registers T ids) (epollAdd sys fd s) := by
  intro w b w' h hids
  cases (epollAdd_eq sys fd s w).symm.trans h
  refine ⟨hids, fun hw => ⟨⟨hw.1.nodup, hw.1.lt⟩, fun e he hT id hid => ?_⟩⟩
  rw [List.mem_append, mem_reported] at he
  rcases he with he | ⟨-, rfl⟩
  · obtain ⟨hmem, hrec, hpidfd⟩ := hw.2 e he hT id hid
    exact ⟨hmem, hrec, hpidfd⟩
  · rw [hs] at hid
    cases hid

lemma ttyRegisterEvents_registers {ids : List CmdId} (hr : ∀ id, r = .clt id ∨ r = .cmd id → id ∈ ids) :
    Keeps (Registers T ids) (ttyRegisterEvents sys r) := by
  intro w u w' h hids
  have hm : Modifies {.kproc} w w' := ttyRegisterEvents_modifies r (by simp) h
  obtain ⟨hfds, hnext⟩ := ttyRegisterEvents_fds h
  refine ⟨(hm.cmds_eq (by simp)).trans hids, fun hw => ⟨⟨?_, ?_⟩, ?_⟩⟩
  · rw [hfds]
    exact hw.1.nodup
  · rw [hfds, hnext]
    exact hw.1.lt
  · exact ttyRegisterEvents_registered (hids ▸ hr) h hw.2

lemma theLoopRegister_registered {u : Unit} (h : theLoopRegister sys w = .ok u w')
    (hw : FdsOk w.kern ∧ Registered T w) : FdsOk w'.kern ∧ Registered T w' := by
  have hcmds : Keeps (Registers T w.gbls.cmds) (do (← get).gbls.cmds.forM (cmdRegisterttyEvents sys)) := by
    intro w₁ u w' h hids
    replace h := get_bind_eq_ok.mp h
    rw [hids] at h
    have hone : ∀ id ∈ w.gbls.cmds, Keeps (Registers T w.gbls.cmds) (cmdRegisterttyEvents sys id) :=
      fun id hid => cmdRegisterttyEvents_keeps (ttyRegisterEvents_registers (by simp [hid]))
        (ttyRegisterEvents_registers (by simp [hid]))
    exact (Keeps.forM_mem hone : Keeps (Registers T w.gbls.cmds) _) h hids
  have hall : Keeps (Registers T w.gbls.cmds) (theLoopRegister sys) :=
    theLoopRegister_keeps (fun _ _ hs => epollAdd_registers _ (by rcases hs with rfl | rfl <;> rfl))
      (fun _ hr => ttyRegisterEvents_registers (by rcases hr with rfl | rfl <;> simp)) hcmds
  exact (hall h rfl).2 hw

/-- What a run maintains: what is registered for a command points to one of the table. -/
theorem reachable_registered (hw : Reachable sys (DeletesUnshared T) w) : Registered T w := by
  have stage {α : Type} {m : Act α} (hm : Keeps FdStep m) :
      Preserves (fun w => FdsOk w.kern ∧ w.kern.interest = []) m := by
    intro w _ w' h hw
    refine ⟨(hm h).fds hw.1, List.eq_nil_iff_forall_not_mem.mpr fun e he => ?_⟩
    have hold := (hm h).interest e he
    rw [hw.2] at hold
    cases hold
  refine (reachable_with_children (P := fun w => FdsOk w.kern ∧ Registered T w)
    (Q := fun w => FdsOk w.kern ∧ w.kern.interest = []) (fun o => ⟨⟨?_, ?_⟩, rfl⟩) (fun s => ?_)
    ?_ (stage (monttyCreate_fdStep sys)) ?_ (fun s w id w' _ h ha => ?_) ?_
    (fun w w' _ h hr => theLoopRegister_registered hr h) (fun w e h _ => ?_)
    (fun w s x _ _ hok => hok.permits)
    (fun w w' ht hc h ha => ⟨ha.fdsOk h.1, ha.registered ht hc h.1 h.2⟩) hw).2.2
  · simp [boot]
  · simp [boot]
  · exact stage (Keeps.fdStep (S := ∅) (argsParseSpec_modifies sys s) (by simp))
  · exact stage (Keeps.fdStep (S := {.flags, .names}) (logInit_modifies sys (by simp) (by simp)) (by simp))
  · exact stage (Keeps.fdStep (S := {.flags, .names}) (fsCreate_modifies sys (by simp) (by simp)) (by simp))
  · refine stage (m := GBLSAddCmd sys s) (fun w r w' ha => ?_) ha h
    rcases GBLSAddCmd_cases ha with ⟨-, hn⟩ | ⟨j, spec, -, hadd⟩
    · exact hn.fds
    · exact hadd.fds
  · intro w _ w' h hw
    obtain ⟨hok, hempty⟩ := stage (bcstttyInit_fdStep sys) h hw
    refine ⟨hok, fun e he => ?_⟩
    rw [hempty] at he
    cases he
  · obtain ⟨hfds, hnext, hi⟩ := apply_fds w e
    have hm := apply_modifies w e
    refine ⟨⟨by rw [hfds]; exact h.1.nodup, by rw [hfds, hnext]; exact h.1.lt⟩, ?_⟩
    refine h.2.frame hm hi (fun id hid => ?_) fun e' _ id howner _ => ?_
    · rwa [hm.cmds_eq (by cases e <;> simp [envParts])]
    · apply fdPart_notMem howner <;> cases e <;> simp [envParts]

end Yar.Proofs
