import Yar.Proofs.Recorded
import Yar.Proofs.Rollback

/-!
# What yar hears of

Every descriptor that can report something yar has to react to is registered with epoll, in every state
of a run: those of the ttys in use, the pidfds of the processes, the signalfd and the fuse descriptor.
Only for the ttys of the commands and the signalfd does yar insist on it: elsewhere a registration may
have failed without notice.
-/

namespace Yar.Proofs

open Program Handles

/-- What the descriptor of the slot is registered for. -/
def Slot.source (s : Slot) (fd : Fd) : Option Source :=
  match s with
  | .dom r => some (.dom r)
  | .sub _ => none
  | .ifd r => some (.ifd r)
  | .pidfd id => some (.pidfd id fd)
  | .sig => some .sig
  | .fs => some .fs

/-- Nobody looks whether the descriptor of the slot could be registered. -/
def Slot.Unchecked : Slot → Prop
  | .dom r => r = .mon ∨ r = .bcst
  | .ifd r => r = .mon ∨ r = .bcst
  | .pidfd _ => True
  | .fs => True
  | _ => False

/-- Of the two descriptors of a tty that are registered, the dom side is the first. -/
def Slot.first : Slot → Slot
  | .ifd r => .dom r
  | s => s

/-- The registration has failed and nobody has noticed. -/
def Missed (sys : Sys) (w : World) (s : Slot) : Prop :=
  s.Unchecked ∧ ∃ fd, (slotFd w s = some fd ∨ slotFd w s.first = some fd) ∧ sys.deaf fd = true

/-- The descriptor in the slot is registered for what it is there for, unless that has failed without
notice. -/
def Heard (sys : Sys) (w : World) (s : Slot) : Prop :=
  ∃ fd src, slotFd w s = some fd ∧ s.source fd = some src ∧ ((fd, src) ∈ w.kern.interest ∨ Missed sys w s)

/-- The tty is in use: yar reads it and follows its opens and closes. -/
def Present (w : World) : TtyRef → Prop
  | .mon => True
  | .bcst => w.gbls.bcstflg = true
  | .clt id => id ∈ w.gbls.cmds
  | .cmd id => id ∈ w.gbls.cmds

/-- The tty is in use or was so before. -/
def Known (w : World) : TtyRef → Prop
  | .mon => True
  | .bcst => w.gbls.bcstflg = true
  | .clt id => id < w.brk
  | .cmd id => id < w.brk

/-- The slot is in `T` and has to be heard. A pidfd always has to. -/
def Listened (T : Set Slot) (w : World) : Slot → Prop
  | .dom r => .dom r ∈ T ∧ Present w r
  | .sub _ => False
  | .ifd r => (.ifd r ∈ T ∧ .dom r ∈ T) ∧ Present w r
  | .pidfd id => (w.heap id).pidfd ≠ none
  | .sig => .sig ∈ T
  | .fs => .fs ∈ T

structure Hears (sys : Sys) (T : Set Slot) (w : World) : Prop where
  held : FdsHeld w
  known : ∀ s ∈ T, ∀ r ∈ s.tty, Known w r
  heard : ∀ s, Listened T w s → Heard sys w s

variable {sys : Sys} {w w' : World} {id : CmdId} {r : TtyRef} {S : Set Part} {fd : Option Fd} {s : Slot}
  {T T' : Set Slot} {R : Set TtyRef}

lemma present_congr (hc : w'.gbls.cmds = w.gbls.cmds) (hf : w'.gbls.bcstflg = w.gbls.bcstflg) (r : TtyRef) :
    Present w' r ↔ Present w r := by
  cases r <;> simp [Present, hc, hf]

lemma known_congr (hb : w'.brk = w.brk) (hf : w'.gbls.bcstflg = w.gbls.bcstflg) (r : TtyRef) :
    Known w' r ↔ Known w r := by
  cases r <;> simp [Known, hb, hf]

lemma TableInv.known (ht : TableInv w) (h : Present w r) : Known w r := by
  cases r with
  | clt id => exact ht.lt_brk id h
  | cmd id => exact ht.lt_brk id h
  | _ => exact h

lemma Listened.mono (h : Listened T w s) (hT : T ⊆ T') : Listened T' w s := by
  cases s with
  | dom r => exact ⟨hT h.1, h.2⟩
  | ifd r => exact ⟨⟨hT h.1.1, hT h.1.2⟩, h.2⟩
  | sub r => exact h
  | pidfd id => exact h
  | sig => exact hT h
  | fs => exact hT h

lemma Listened.first (h : Listened T w s) : Listened T w s.first := by
  cases s with
  | ifd r => exact ⟨h.1.2, h.2⟩
  | _ => exact h

lemma Missed.congr (h : Missed sys w s) (hslot : slotFd w' s = slotFd w s)
    (hfirst : slotFd w' s.first = slotFd w s.first) : Missed sys w' s := by
  obtain ⟨hs, fd, hfd, hdeaf⟩ := h
  exact ⟨hs, fd, by rwa [hslot, hfirst], hdeaf⟩

lemma Hears.mono (h : Hears sys T' w) (hT : T ⊆ T') : Hears sys T w :=
  ⟨h.held, fun s hs => h.known s (hT hs), fun s hs => h.heard s (hs.mono hT)⟩

/-- A descriptor that is still recorded is still heard, if it is not the one that is taken off. -/
lemma Heard.step (hs : Heard sys w s) (h : FdsHeld w) (h' : FdsHeld w') (hr : Remembers fd w w')
    (hslot : slotFd w' s = slotFd w s) (hfirst : slotFd w' s.first = slotFd w s.first)
    (hne : ∀ d, fd = some d → slotFd w s ≠ some d) : Heard sys w' s := by
  obtain ⟨d, src, hd, hsrc, hmem | hmiss⟩ := hs
  · refine ⟨d, src, hslot.trans hd, hsrc, .inl ?_⟩
    exact hr.interest _ hmem (h.lt hd) (fun heq => hne d heq hd) (h'.held.opened (hslot.trans hd))
  · exact ⟨d, src, hslot.trans hd, hsrc, .inr (hmiss.congr hslot hfirst)⟩

/-- A step that takes nothing off but the pidfd of a command that loses it. -/
lemma Hears.step (h : Hears sys T w) (h' : FdsHeld w') (hr : Remembers fd w w')
    (hfd : ∀ d, fd = some d → ∃ id, (w.heap id).pidfd = some d ∧ (w'.heap id).pidfd = none)
    (hknown : ∀ r, Known w r → Known w' r)
    (hslot : ∀ s, Listened T w' s → Listened T w s ∧ slotFd w' s = slotFd w s) : Hears sys T w' := by
  refine ⟨h', fun s hs r hr => hknown r (h.known s hs r hr), fun s hs => ?_⟩
  obtain ⟨hold, hsame⟩ := hslot s hs
  refine (h.heard s hold).step h.held h' hr hsame (hslot _ hs.first).2 fun d hd hsd => ?_
  obtain ⟨id, hid, hnone⟩ := hfd d hd
  obtain rfl := h.held.held.inj hsd (j := .pidfd id) hid
  exact hs hnone

/-- A step that records less and does nothing to the descriptors. -/
lemma Hears.forget (h : Hears sys T w) (hk : kernProc w'.kern = kernProc w.kern)
    (hold : ∀ s d, slotFd w' s = some d → slotFd w s = some d) (hknown : ∀ r, Known w r → Known w' r)
    (hslot : ∀ s, Listened T w' s → Listened T w s ∧ slotFd w' s = slotFd w s) : Hears sys T w' := by
  have hr : Remembers none w w' := remembers_of_kernProc hk
  simp only [kernProc, Prod.mk.injEq] at hk
  obtain ⟨-, hfds, -, -, hnext⟩ := hk
  have hok : FdsOk w'.kern := ⟨hfds ▸ h.held.ok.nodup, hfds ▸ hnext ▸ h.held.ok.lt⟩
  refine h.step (h.held.forget hok hold fun _ _ _ hd => hfds ▸ hd) hr (fun d hd => ?_) hknown hslot
  cases hd

/-- A step that stays away from the ttys of `T` and from the table. -/
lemma Hears.changed (h : Hears sys T w) (h' : FdsHeld w') (hr : Remembers fd w w')
    (hfd : ∀ d, fd = some d → ∃ id, (w.heap id).pidfd = some d ∧ (w'.heap id).pidfd = none)
    (hm : Modifies S w w') (ht : .table ∉ S) (hb : .brk ∉ S)
    (hflg : w'.gbls.bcstflg = w.gbls.bcstflg) (htty : ∀ s ∈ T, ∀ r ∈ s.tty, .tty r ∉ S)
    (hp : ∀ id, .proc id ∈ S → (w'.heap id).pidfd = none) : Hears sys T w' := by
  have hused (r : TtyRef) : Present w' r ↔ Present w r := present_congr (hm.cmds_eq ht) hflg r
  have hsame {s : Slot} (hs : s ∈ T) (hnp : ∀ id, s ≠ .pidfd id) : slotFd w' s = slotFd w s :=
    hm.slotFd_eq (fun r hr => htty s hs r hr) fun id hid => (hnp id hid).elim
  refine h.step h' hr hfd (fun r hr => (known_congr (hm.brk_eq hb) hflg r).mpr hr) fun s hs => ?_
  cases s with
  | dom r => exact ⟨⟨hs.1, (hused r).mp hs.2⟩, hsame hs.1 nofun⟩
  | ifd r => exact ⟨⟨hs.1, (hused r).mp hs.2⟩, hsame hs.1.1 nofun⟩
  | sub r => exact hs.elim
  | sig => exact ⟨hs, rfl⟩
  | fs => exact ⟨hs, rfl⟩
  | pidfd id =>
    have hpidfd : (w'.heap id).pidfd = (w.heap id).pidfd := hm.pidfd_eq fun hid => hs (hp id hid)
    refine ⟨?_, hpidfd⟩
    rw [Listened, ← hpidfd]
    exact hs

/-- What is heard stays so, as far as it does not belong to the ttys of `R`. -/
def Listens (sys : Sys) (R : Set TtyRef) (w w' : World) : Prop :=
  ∀ T, (∀ s ∈ T, ∀ r ∈ s.tty, r ∉ R) → Hears sys T w → Hears sys T w'

instance : Std.Refl (Listens sys R) where
  refl _ _ _ h := h

instance : IsTrans World (Listens sys R) where
  trans _ _ _ h h' T hT hw := h' T hT (h T hT hw)

lemma Listens.mono {R' : Set TtyRef} (h : Listens sys R w w') (hR : R ⊆ R') : Listens sys R' w w' :=
  fun T hT => h T fun s hs r hr hmem => hT s hs r hr (hR hmem)

lemma Modifies.listens (hm : Modifies S w w') (hk : .kproc ∉ S) (ht : .table ∉ S) (hb : .brk ∉ S)
    (hflg : w'.gbls.bcstflg = w.gbls.bcstflg) (htty : ∀ r, .tty r ∉ S) (hp : ∀ id, .proc id ∉ S) :
    Listens sys R w w' :=
  fun _ _ h => h.changed (h.held.frame hm hk htty hp) (hm.remembers hk : Remembers none w w') nofun hm ht hb hflg
    (fun _ _ r _ => htty r) fun id hid => (hp id hid).elim

lemma listens_of_quiet (hm : Modifies S w w') (hS : ∀ p ∈ S, p.quiet = true)
    (hflg : w'.gbls.bcstflg = w.gbls.bcstflg) : Listens sys R w w' := by
  have hnot {p : Part} (hp : p.quiet = false) : p ∉ S := fun hpS => by
    rw [hS p hpS] at hp
    cases hp
  exact hm.listens (hnot rfl) (hnot rfl) (hnot rfl) hflg (fun _ => hnot rfl) fun _ => hnot rfl

/-! ## Processes -/

lemma Forked.listens {d : Double} (hf : Forked sys w w' id d) : Listens sys R w w' := by
  intro T _ h
  have h' := hf.held h.held
  have hr : Remembers none w w' := by
    refine ⟨by rw [hf.nextFd]; exact Nat.le_succ _, fun d hd hlt => ?_, fun e he _ _ _ => ?_⟩
    · rw [hf.fds, List.mem_cons] at hd
      exact hd.resolve_left fun heq => (heq ▸ hlt).false
    · rw [hf.interest]
      exact List.mem_append_left _ he
  have hflg : w'.gbls.bcstflg = w.gbls.bcstflg :=
    (congrArg Globals.bcstflg (hf.modifies.flags_eq (by simp [forkParts])) :)
  have hused (r : TtyRef) : Present w' r ↔ Present w r :=
    present_congr (hf.modifies.cmds_eq (by simp [forkParts])) hflg r
  have hknown (r : TtyRef) : Known w' r ↔ Known w r :=
    known_congr (hf.modifies.brk_eq (by simp [forkParts])) hflg r
  have hslot (s : Slot) (hne : s ≠ .pidfd id) : slotFd w' s = slotFd w s := by
    refine hf.modifies.slotFd_eq (fun r _ => by simp [forkParts]) fun j hj => ?_
    have hne : j ≠ id := fun heq => hne (heq ▸ hj)
    simp [forkParts, hne]
  have hkeep (s : Slot) (hne : s ≠ .pidfd id) (hs : Heard sys w s) : Heard sys w' s := by
    refine hs.step h.held h' hr (hslot s hne) (hslot _ ?_) (by simp)
    cases s with
    | pidfd j => exact hne
    | _ => simp [Slot.first]
  refine ⟨h', fun s hs r hr => (hknown r).mpr (h.known s hs r hr), fun s hs => ?_⟩
  by_cases heq : s = .pidfd id
  · subst heq
    refine ⟨w.kern.nextFd, .pidfd id w.kern.nextFd, hf.pidfd, rfl, ?_⟩
    cases hdeaf : sys.deaf w.kern.nextFd with
    | true => exact .inr ⟨trivial, w.kern.nextFd, .inl hf.pidfd, hdeaf⟩
    | false =>
      rw [hf.interest]
      exact .inl (List.mem_append_right _ (mem_reported.mpr ⟨hdeaf, rfl⟩))
  · refine hkeep s heq (h.heard s ?_)
    cases s with
    | dom r => exact ⟨hs.1, (hused r).mp hs.2⟩
    | ifd r => exact ⟨hs.1, (hused r).mp hs.2⟩
    | sub r => exact hs
    | sig => exact hs
    | fs => exact hs
    | pidfd j =>
      have hne : j ≠ id := fun h => heq (h ▸ rfl)
      have hpidfd : (w'.heap j).pidfd = (w.heap j).pidfd :=
        hf.modifies.pidfd_eq (by simp [forkParts, hne])
      rw [Listened, ← hpidfd]
      exact hs

lemma cmdStart_listens (id : CmdId) (d : Double) : Keeps (Listens sys R) (cmdStart sys id d) := by
  intro w b w' h
  rcases cmdStart_cases h with ⟨-, -, rfl⟩ | ⟨-, hf⟩
  · exact refl_of _ _
  · exact hf.listens

/-- The pidfd of the command is taken off when the command loses it. -/
lemma listens_of_unpid (hm : Modifies (startParts id) w w') (hr : Remembers (w.heap id).pidfd w w')
    (hheld : FdsHeld w → FdsHeld w') (hnone : (w'.heap id).pidfd = none) : Listens sys R w w' := by
  intro T _ h
  refine h.changed (hheld h.held) hr (fun d hd => ⟨id, hd, hnone⟩) hm (by simp [startParts])
    (by simp [startParts]) (congrArg Globals.bcstflg (hm.flags_eq (by simp [startParts])) :)
    (fun _ _ r _ => by simp [startParts]) fun j hj => ?_
  obtain rfl : j = id := by simpa [startParts] using hj
  exact hnone

variable (sys) in
lemma cmdStop_listens (id : CmdId) (epoll force : Bool) : Keeps (Listens sys R) (cmdStop sys id epoll force) := by
  intro w b w' h
  rcases cmdStop_cases h with ⟨-, rfl⟩ | ⟨-, -, -, rfl⟩ | ⟨-, -, w₁, hsend, hterm⟩
  · exact refl_of _ _
  · exact refl_of _ _
  · have hm : Modifies {.lastwrite id, .oWrite (.cmd id)} w w₁ :=
      cmdSendStopstr_modifies sys (by simp) (by simp) hsend
    have ht := cmdTerminate_ok hterm
    refine trans_of (Listens sys R) (hm.listens (by simp) (by simp) (by simp)
      (congrArg Globals.bcstflg (hm.flags_eq (by simp)) :) (by simp) (by simp)) ?_
    exact listens_of_unpid ht.modifies (cmdTerminate_remembers hterm) ht.held ht.pidfd

lemma cmdPidReap_listens (id : CmdId) : Keeps (Listens sys R) (cmdPidReap id) := by
  intro w u w' h
  have hr := cmdPidReap_ok h
  exact listens_of_unpid hr.modifies (cmdPidReap_remembers h) hr.held hr.pidfd

lemma cmdPidRestart_listens (id : CmdId) : Keeps (Listens sys R) (cmdPidRestart sys id) := by
  intro w u w' h
  rcases cmdPidRestart_cases h with ⟨-, rfl⟩ | ⟨w₁, d, -, -, hf, hm⟩
  · exact refl_of _ _
  · exact trans_of (Listens sys R) hf.listens (listens_of_quiet hm (by simp)
      (congrArg Globals.bcstflg (hm.flags_eq (by simp)) :))

variable (sys) in
lemma nedHdlr_listens (r : TtyRef) (mask : Mask) : Keeps (Listens sys R) (nedHdlr sys r mask) := by
  have start (id : CmdId) : Keeps (Listens sys R) (discard (cmdStart sys id (.fin 0))) :=
    Keeps.discard (cmdStart_listens id _)
  have stop (id : CmdId) : Keeps (Listens sys R) (discard (cmdStop sys id true false)) :=
    Keeps.discard (cmdStop_listens sys id _ _)
  cases r with
  | bcst =>
    cases mask with
    | IN_OPEN => exact Keeps.bind Keeps.get fun _ => Keeps.forM start _
    | IN_CLOSE_WRITE => exact Keeps.bind Keeps.get fun _ => Keeps.forM stop _
    | IN_CLOSE_NOWRITE => exact Keeps.bind Keeps.get fun _ => Keeps.forM stop _
  | clt id =>
    cases mask with
    | IN_OPEN => exact start id
    | IN_CLOSE_WRITE => exact stop id
    | IN_CLOSE_NOWRITE => exact stop id
  | mon => exact Keeps.pure _
  | cmd id => exact Keeps.pure _

/-! ## Ttys come and go -/

/-- A function that works on one tty. -/
lemma listens_of_tty {α : Type} {m : Act α} (hm : Keeps (Modifies (ttyParts r)) m)
    (hr : Keeps (Remembers none) m) (hheld : ∀ w a w', FdsHeld w → m w = .ok a w' → FdsHeld w')
    (hR : r ∈ R) : Keeps (Listens sys R) m := by
  intro w a w' h T hT hw
  refine hw.changed (hheld w a w' hw.held h) (hr h) nofun (hm h) (by simp [ttyParts]) (by simp [ttyParts])
    (congrArg Globals.bcstflg ((hm h).flags_eq (by simp [ttyParts])) :) (fun s hs q hq => ?_)
    fun id hid => by simp [ttyParts] at hid
  have hne : q ≠ r := fun heq => hT s hs q hq (heq ▸ hR)
  simp [ttyParts, hne]

variable (sys) in
lemma ttyCleanup_listens (hR : r ∈ R) : Keeps (Listens sys R) (ttyCleanup sys r) :=
  listens_of_tty (ttyCleanup_modifies sys subset_rfl) (ttyCleanup_remembers r)
    (fun _ _ _ h => ttyCleanup_held h) hR

variable (sys) in
lemma ttyCreate_listens (hR : r ∈ R) : Keeps (Listens sys R) (ttyCreate sys r) :=
  listens_of_tty (ttyCreate_modifies sys subset_rfl) (ttyCreate_remembers r)
    (fun _ _ _ h => ttyCreate_held h) hR

lemma ttyInit_listens (ttylink src₁ dst₁ src₂ dst₂ : Option CStr) (hR : r ∈ R) :
    Keeps (Listens sys R) (ttyInit r ttylink src₁ dst₁ src₂ dst₂) := by
  have hm : Keeps (Modifies {.tty r}) (ttyInit r ttylink src₁ dst₁ src₂ dst₂) :=
    ttyInit_modifies _ _ _ _ _ (by simp)
  exact listens_of_tty (hm.mono fun _ _ h => h.mono (by simp [ttyParts])) (Keeps.remembers hm (by simp))
    (fun _ _ _ h => ttyInit_held h) hR

/-! ## Commands come and go -/

/-- A change to the command that leaves its process alone or forgets it. -/
lemma updCmd_listens {f : Cmd → Cmd} (hf : ∀ c, (f c).pidfd = none ∨ (f c).pidfd = c.pidfd) :
    Keeps (Listens sys R) (updCmd id f) := by
  intro w u w' h T _ hw
  rw [modify_eq_ok.mp h]
  have hpidfd (j : CmdId) : ((w.updCmd id f).heap j).pidfd = none ∨
      ((w.updCmd id f).heap j).pidfd = (w.heap j).pidfd := by
    by_cases hj : j = id
    · simpa [World.updCmd, hj] using hf (w.heap id)
    · exact .inr (by simp [World.updCmd, hj])
  have hslot (s : Slot) (d : Fd) (hd : slotFd (w.updCmd id f) s = some d) : slotFd w s = some d := by
    cases s with
    | pidfd j =>
      rcases hpidfd j with hnone | hsame
      · cases hnone.symm.trans hd
      · exact hsame.symm.trans hd
    | _ => exact hd
  refine hw.forget rfl hslot (fun r hr => by cases r <;> exact hr) fun s hs => ?_
  cases s with
  | pidfd j =>
    have hsame := (hpidfd j).resolve_left hs
    refine ⟨?_, hsame⟩
    rw [Listened, ← hsame]
    exact hs
  | _ => exact ⟨hs, rfl⟩

variable (sys) in
lemma cmdCleanup_listens (id : CmdId) : Keeps (Listens sys (ttysOf id)) (cmdCleanup sys id) :=
  Keeps.bind (Keeps.discard (cmdStop_listens sys id _ _)) fun _ =>
    Keeps.bind (ttyCleanup_listens sys (by simp [ttysOf])) fun _ =>
    Keeps.bind (ttyCleanup_listens sys (by simp [ttysOf])) fun _ => updCmd_listens fun _ => .inl rfl

/-- With the command its ttys are out of use. -/
lemma remove_listens (h : (do cmdCleanup sys id; hashDel id) w = .ok () w') : Listens sys R w w' := by
  intro T _ hw
  have hm := (remove_ok h).1
  have hflg : w'.gbls.bcstflg = w.gbls.bcstflg :=
    (congrArg Globals.bcstflg (hm.flags_eq (by
      simp [removeParts, cleanupParts, procParts, startParts, cmdParts, ttyParts])) :)
  have hbrk : w'.brk = w.brk :=
    hm.brk_eq (by simp [removeParts, cleanupParts, procParts, startParts, cmdParts, ttyParts])
  obtain ⟨_, w₁, hclean, hdel⟩ := bind_eq_ok.mp h
  have h₁ := cmdCleanup_listens sys id hclean {s ∈ T | ∀ r ∈ s.tty, r ∉ ttysOf id} (fun s hs => hs.2)
    (hw.mono (Set.sep_subset _ _))
  rw [hashDel_ok hdel] at hflg hbrk ⊢
  refine ⟨⟨⟨h₁.held.ok.nodup, h₁.held.ok.lt⟩, h₁.held.held⟩,
    fun s hs r hr => (known_congr hbrk hflg r).mpr (hw.known s hs r hr), fun s hs => ?_⟩
  have hused {r : TtyRef} (hr : Present { w₁ with
      gbls.cmds := w₁.gbls.cmds.filter (· ≠ id), trace := .removed id :: w₁.trace } r) :
      r ∉ ttysOf id ∧ Present w₁ r := by
    cases r <;> simp_all [Present, ttysOf]
  suffices hheard : Heard sys w₁ s by
    cases s <;> exact hheard
  refine h₁.heard s ?_
  cases s with
  | dom r => exact ⟨⟨hs.1, fun q hq => Option.some_inj.mp hq ▸ (hused hs.2).1⟩, (hused hs.2).2⟩
  | ifd r =>
    have hq (q : TtyRef) (hq : some r = some q) : q ∉ ttysOf id := Option.some_inj.mp hq ▸ (hused hs.2).1
    exact ⟨⟨⟨hs.1.1, hq⟩, hs.1.2, hq⟩, (hused hs.2).2⟩
  | sub r => exact hs
  | pidfd j => exact hs
  | sig => exact ⟨hs, by simp [Slot.tty]⟩
  | fs => exact ⟨hs, by simp [Slot.tty]⟩

lemma monDelFound_listens (h : monDelFound sys id w = .ok () w') : Listens sys R w w' := by
  obtain ⟨_, w₁, hclean, h⟩ := bind_eq_ok.mp h
  obtain ⟨_, w₂, hdel, h⟩ := bind_eq_ok.mp h
  rw [(exitIfIdle_ok sys h).1]
  exact remove_listens (bind_eq_ok.mpr ⟨_, w₁, hclean, hdel⟩)

/-- A change of the globals that brings only ttys of `R` into use. -/
lemma updGbls_listens {f : Globals → Globals}
    (hused : ∀ w r, Present { w with gbls := f w.gbls } r → r ∉ R → Present w r)
    (hknown : ∀ w r, Known w r → Known { w with gbls := f w.gbls } r) : Keeps (Listens sys R) (updGbls f) := by
  intro w u w' h T hT hw
  rw [modify_eq_ok.mp h]
  refine hw.forget rfl (fun s d hd => ?_) (hknown w) fun s hs => ?_
  · cases s <;> exact hd
  · cases s with
    | dom r => exact ⟨⟨hs.1, hused w r hs.2 (hT _ hs.1 r rfl)⟩, rfl⟩
    | ifd r => exact ⟨⟨hs.1, hused w r hs.2 (hT _ hs.1.1 r rfl)⟩, rfl⟩
    | _ => exact ⟨hs, rfl⟩

lemma note_listens (o : Obs) : Keeps (Listens sys R) (note o) :=
  fun _ _ _ h => (note_modifies (S := {obsPart o}) (by simp) h).listens (by cases o <;> simp [obsPart])
    (by cases o <;> simp [obsPart]) (by cases o <;> simp [obsPart]) (by rw [modify_eq_ok.mp h])
    (by cases o <;> simp [obsPart]) (by cases o <;> simp [obsPart])

variable (sys) in
/-- The new command is not among those that are heard. -/
lemma GBLSAddNew_listens (spec : CmdSpec) : Keeps (Listens sys ∅) (GBLSAddNew sys spec) := by
  intro w res w' h T _ hw
  obtain ⟨id, w₁, hmalloc, h⟩ := bind_eq_ok.mp h
  obtain ⟨rfl, rfl⟩ := mallocCmd_ok hmalloc
  have hnew : ∀ s ∈ T, ∀ r ∈ s.tty, r ∉ ttysOf w.brk := by
    intro s hs r hr hmem
    have hk := hw.known s hs r hr
    rcases hmem with rfl | rfl
    · exact Nat.lt_irrefl _ hk
    · exact Nat.lt_irrefl _ hk
  have h₁ : Hears sys T { w with brk := w.brk + 1 } := by
    refine hw.forget rfl (fun s d hd => ?_) (fun r hr => ?_) fun s hs => ?_
    · cases s <;> exact hd
    · cases r with
      | clt id => exact Nat.lt_succ_of_lt hr
      | cmd id => exact Nat.lt_succ_of_lt hr
      | _ => exact hr
    · cases s <;> exact ⟨hs, rfl⟩
  have hinit : Keeps (Listens sys (ttysOf w.brk))
      (cmdInit w.brk spec.name spec.cmdline spec.delay spec.ttylink spec.log) :=
    Keeps.bind (Keeps.require _ _) fun _ => Keeps.bind Keeps.get fun _ =>
      Keeps.bind (updCmd_listens fun _ => .inl rfl) fun _ =>
      Keeps.bind (ttyInit_listens _ _ _ _ _ (by simp [ttysOf])) fun _ =>
      Keeps.bind Keeps.get fun _ => ttyInit_listens _ _ _ _ _ (by simp [ttysOf])
  have hcreate : Keeps (Listens sys (ttysOf w.brk)) (cmdCreate sys w.brk) :=
    Keeps.bind (ttyCreate_listens sys (by simp [ttysOf])) fun _ =>
      Keeps.ite (fun _ => ttyCreate_listens sys (by simp [ttysOf])) fun _ => Keeps.pure _
  have hslowest : Keeps (Listens sys (ttysOf w.brk)) (updSlowest w.brk spec.delay) := by
    intro w u w' h
    have hm : Modifies {.slowest} w w' := updSlowest_modifies _ _ (by simp) h
    exact hm.listens (by simp) (by simp) (by simp) (congrArg Globals.bcstflg (hm.flags_eq (by simp)) :)
      (by simp) (by simp)
  have htable : Keeps (Listens sys (ttysOf w.brk)) (updGbls fun g => { g with cmds := g.cmds ++ [w.brk] }) := by
    refine updGbls_listens (fun w r hr hR => ?_) fun w r hr => ?_
    · cases r <;> simp_all [Present, ttysOf]
    · cases r <;> exact hr
  have hrest := Keeps.bind hinit fun _ => Keeps.bind hcreate fun b =>
    Keeps.ite (p := (!b) = true)
      (fun _ => Keeps.bind (cmdCleanup_listens sys w.brk) fun _ => Keeps.pure (none : Option CmdId))
      fun _ => Keeps.bind hslowest fun _ => Keeps.bind htable fun _ =>
        Keeps.bind (note_listens (.added w.brk)) fun _ => Keeps.pure (some w.brk)
  exact hrest h T hnew h₁

variable (sys) in
lemma GBLSAddCmd_listens (cstr : CStr) : Keeps (Listens sys ∅) (GBLSAddCmd sys cstr) := by
  have hparse : Keeps (Listens sys ∅) (cmdspecParse sys cstr) := by
    intro w r w' h
    have hm : Modifies ∅ w w' := cmdspecParse_modifies sys cstr h
    exact listens_of_quiet hm (by simp) (congrArg Globals.bcstflg (hm.flags_eq (by simp)) :)
  refine Keeps.bind hparse fun spec => ?_
  cases spec with
  | none => exact Keeps.pure _
  | some spec =>
    exact Keeps.bind Keeps.get fun _ => Keeps.ite (fun _ => Keeps.pure _) fun _ =>
      GBLSAddNew_listens sys spec

/-! ## What is registered -/

/-- The slots of the ttys in use, and those that belong to no tty. -/
def Used (w : World) : Set Slot := {s | ∀ r ∈ s.tty, Present w r}

abbrev slotsOf (r : TtyRef) : Set Slot := {s | s.tty = some r}

lemma used_congr (hc : w'.gbls.cmds = w.gbls.cmds) (hf : w'.gbls.bcstflg = w.gbls.bcstflg) :
    Used w' = Used w := by
  ext s
  exact forall₂_congr fun r _ => present_congr hc hf r

/-- What is put on the list is heard, and what is missed is missed without notice. -/
lemma Hears.register {l : List (Fd × Source)} (h : Hears sys T w) (hknown : ∀ s ∈ T', ∀ r ∈ s.tty, Known w r)
    (hT : ∀ s, Listened T' w s → Listened T w s ∨
      ∃ fd src, slotFd w s = some fd ∧ s.source fd = some src ∧ ((fd, src) ∈ l ∨ Missed sys w s)) :
    Hears sys T' { w with kern.interest := w.kern.interest ++ l } := by
  have hslot (s : Slot) : slotFd { w with kern.interest := w.kern.interest ++ l } s = slotFd w s := by
    cases s <;> rfl
  refine ⟨h.held.forget ⟨h.held.ok.nodup, h.held.ok.lt⟩ (fun s d hd => hslot s ▸ hd) fun _ _ _ hd => hd,
    fun s hs r hr => ?_, fun s hs => ?_⟩
  · have hk := hknown s hs r hr
    cases r <;> exact hk
  · have hs' : Listened T' w s := by
      cases s <;> exact hs
    have miss (hmiss : Missed sys w s) :
        Missed sys { w with kern.interest := w.kern.interest ++ l } s := hmiss.congr (hslot s) (hslot _)
    rcases hT s hs' with hold | ⟨fd, src, hfd, hsrc, hmem⟩
    · obtain ⟨fd, src, hfd, hsrc, hmem⟩ := h.heard s hold
      exact ⟨fd, src, (hslot s).trans hfd, hsrc, hmem.imp (fun hmem => List.mem_append_left _ hmem) miss⟩
    · exact ⟨fd, src, (hslot s).trans hfd, hsrc, hmem.imp (fun hmem => List.mem_append_right _ hmem) miss⟩

/-- Nothing but epoll's list has changed. -/
def SameButInterest (w w' : World) : Prop := ∃ l, w' = { w with kern.interest := l }

instance : Std.Refl SameButInterest where
  refl w := ⟨w.kern.interest, rfl⟩

instance : IsTrans World SameButInterest where
  trans _ _ _ h h' := by
    obtain ⟨l, rfl⟩ := h
    obtain ⟨l', rfl⟩ := h'
    exact ⟨l', rfl⟩

lemma SameButInterest.known (h : SameButInterest w w') : Known w' r ↔ Known w r := by
  obtain ⟨l, rfl⟩ := h
  exact known_congr rfl rfl r

/-- The registration of a tty goes through or concerns one for which nobody looks. -/
lemma ttyRegisterEvents_hears {b : Bool} (h : Hears sys T w) (hr : Known w r)
    (hreg : ttyRegisterEvents sys r w = .ok b w') (hb : b = true ∨ r = .mon ∨ r = .bcst) :
    SameButInterest w w' ∧ Hears sys (T ∪ slotsOf r) w' := by
  obtain ⟨dfd, ifd, hdfd, hifd, rfl, hiff⟩ := ttyRegisterEvents_ok hreg
  have heard {s : Slot} {fd : Fd} {src : Source} (hs : s = .dom r ∨ s = .ifd r) (hfd : slotFd w s = some fd)
      (hmem : sys.deaf dfd = false → sys.deaf ifd = false ∨ s = .dom r → (fd, src) ∈ heardOf sys r dfd ifd) :
      (fd, src) ∈ heardOf sys r dfd ifd ∨ Missed sys w s := by
    have hunchecked (hor : r = .mon ∨ r = .bcst) : s.Unchecked := by
      rcases hs with rfl | rfl <;> exact hor
    have hfirst : s.first = .dom r := by
      rcases hs with rfl | rfl <;> rfl
    cases hdeaf : sys.deaf dfd with
    | true =>
      refine .inr ⟨hunchecked (hb.resolve_left fun htrue => ?_), dfd, .inr (hfirst ▸ hdfd), hdeaf⟩
      cases hdeaf.symm.trans (hiff.mp htrue).1
    | false =>
      by_cases hdom : s = .dom r
      · exact .inl (hmem hdeaf (.inr hdom))
      · obtain rfl := hs.resolve_left hdom
        cases hdeaf' : sys.deaf ifd with
        | false => exact .inl (hmem hdeaf (.inl hdeaf'))
        | true =>
          refine .inr ⟨hunchecked (hb.resolve_left fun htrue => ?_), ifd, .inl hifd, hdeaf'⟩
          cases hdeaf'.symm.trans (hiff.mp htrue).2
  refine ⟨⟨_, rfl⟩, ?_⟩
  refine h.register (fun s hs q hq => ?_) fun s hs => ?_
  · rcases hs with hs | hs
    · exact h.known s hs q hq
    · obtain rfl := Option.some_inj.mp (hs.symm.trans hq)
      exact hr
  · cases s with
    | dom q =>
      rcases hs.1 with hq | hq
      · exact .inl ⟨hq, hs.2⟩
      · obtain rfl := Option.some_inj.mp hq
        exact .inr ⟨dfd, .dom q, hdfd, rfl, heard (.inl rfl) hdfd fun hdeaf _ =>
          mem_heardOf.mpr ⟨hdeaf, .inl rfl⟩⟩
    | ifd q =>
      by_cases hq : q = r
      · subst hq
        exact .inr ⟨ifd, .ifd q, hifd, rfl, heard (.inr rfl) hifd fun hdeaf hor =>
          mem_heardOf.mpr ⟨hdeaf, .inr ⟨hor.resolve_right nofun, rfl⟩⟩⟩
      · have hne {s : Slot} (hs : s.tty = some q) : s ∉ slotsOf r := fun hmem =>
          hq (Option.some_inj.mp (hs.symm.trans hmem))
        exact .inl ⟨⟨hs.1.1.resolve_right (hne rfl), hs.1.2.resolve_right (hne rfl)⟩, hs.2⟩
    | sub q => exact hs.elim
    | pidfd id => exact .inl hs
    | sig => exact .inl (hs.resolve_right nofun)
    | fs => exact .inl (hs.resolve_right nofun)

lemma cmdRegisterttyEvents_hears {u : Unit} (h : Hears sys T w) (hid : id < w.brk)
    (hreg : cmdRegisterttyEvents sys id w = .ok u w') :
    SameButInterest w w' ∧ Hears sys (T ∪ {s | ∃ r ∈ ttysOf id, s.tty = some r}) w' := by
  obtain ⟨b, w₁, hclt, hreg⟩ := bind_eq_ok.mp hreg
  obtain ⟨hb, hreg⟩ := require_bind_eq_ok.mp hreg
  obtain ⟨b', w₂, hcmd, hreg⟩ := bind_eq_ok.mp hreg
  obtain ⟨hb', rfl⟩ := require_eq_ok.mp hreg
  obtain ⟨hsame₁, h₁⟩ := ttyRegisterEvents_hears h (r := .clt id) hid hclt (.inl hb)
  obtain ⟨hsame₂, h₂⟩ := ttyRegisterEvents_hears h₁ ((hsame₁.known (r := .cmd id)).mpr hid) hcmd (.inl hb')
  refine ⟨trans_of _ hsame₁ hsame₂, h₂.mono ?_⟩
  rintro s (hs | ⟨r, rfl | rfl, hs⟩)
  · exact .inl (.inl hs)
  · exact .inl (.inr hs)
  · exact .inr hs

/-- All commands of a list are registered one after the other. -/
lemma cmdsRegister_hears {ids : List CmdId} {u : Unit} (h : Hears sys T w) (hids : ∀ id ∈ ids, id < w.brk)
    (hreg : ids.forM (cmdRegisterttyEvents sys) w = .ok u w') :
    SameButInterest w w' ∧ Hears sys (T ∪ {s | ∃ id ∈ ids, ∃ r ∈ ttysOf id, s.tty = some r}) w' := by
  induction ids generalizing T w with
  | nil =>
    obtain ⟨-, rfl⟩ := pure_eq_ok.mp hreg
    exact ⟨refl_of _ _, h.mono (by simp)⟩
  | cons id ids ih =>
    obtain ⟨_, w₁, hone, hrest⟩ := forM_cons_eq_ok.mp hreg
    obtain ⟨hsame, h₁⟩ := cmdRegisterttyEvents_hears h (hids id List.mem_cons_self) hone
    have hids₁ : ∀ j ∈ ids, j < w₁.brk := fun j hj =>
      (hsame.known (r := .clt j)).mpr (hids j (List.mem_cons_of_mem _ hj))
    obtain ⟨hsame', h'⟩ := ih h₁ hids₁ hrest
    refine ⟨trans_of _ hsame hsame', h'.mono ?_⟩
    rintro s (hs | ⟨j, hj, hs⟩)
    · exact .inl (.inl hs)
    · rcases List.mem_cons.mp hj with rfl | hj
      · exact .inl (.inr hs)
      · exact .inr ⟨j, hj, hs⟩

/-- The signalfd and the fuse descriptor. -/
lemma epollAdd_hears {fd : Fd} {src : Source} {b : Bool} (h : Hears sys T w) (hs : slotFd w s = some fd)
    (htty : s.tty = none) (hsrc : s.source fd = some src) (hadd : epollAdd sys fd src w = .ok b w')
    (hb : b = true ∨ s.Unchecked) : SameButInterest w w' ∧ Hears sys (insert s T) w' := by
  cases (epollAdd_eq sys fd src w).symm.trans hadd
  refine ⟨⟨_, rfl⟩, h.register (fun t ht r hr => ?_) fun t ht => ?_⟩
  · rcases ht with rfl | ht
    · cases htty.symm.trans hr
    · exact h.known t ht r hr
  · by_cases heq : t = s
    · subst heq
      refine .inr ⟨fd, src, hs, hsrc, ?_⟩
      cases hdeaf : sys.deaf fd with
      | false => exact .inl (mem_reported.mpr ⟨hdeaf, rfl⟩)
      | true => exact .inr ⟨hb.resolve_left (by simp [hdeaf]), fd, .inl hs, hdeaf⟩
    · refine .inl ?_
      cases t with
      | dom r => exact ⟨ht.1.resolve_left heq, ht.2⟩
      | ifd r =>
        exact ⟨⟨ht.1.1.resolve_left heq, ht.1.2.resolve_left fun hdom => by cases hdom ▸ htty⟩, ht.2⟩
      | sub r => exact ht
      | pidfd id => exact ht
      | sig => exact ht.resolve_left heq
      | fs => exact ht.resolve_left heq

lemma bcstttyRegisterEvents_hears {u : Unit} (h : Hears sys T w)
    (hreg : bcstttyRegisterEvents sys w = .ok u w') :
    SameButInterest w w' ∧ Hears sys (T ∪ {s | s.tty = some .bcst ∧ w.gbls.bcstflg = true}) w' := by
  replace hreg := get_bind_eq_ok.mp hreg
  rcases when_eq_ok.mp hreg with ⟨hflg, hreg⟩ | ⟨hflg, rfl⟩
  · obtain ⟨b, hreg⟩ := discard_eq_ok.mp hreg
    obtain ⟨hsame, h'⟩ := ttyRegisterEvents_hears h (r := .bcst) hflg hreg (by simp)
    exact ⟨hsame, h'.mono (Set.union_subset_union_right _ fun s hs => hs.1)⟩
  · refine ⟨refl_of _ _, h.mono ?_⟩
    rintro s (hs | ⟨-, hs⟩)
    · exact hs
    · exact (hflg hs).elim

/-- What `theLoop` registers before it waits. -/
lemma theLoopRegister_hears {u : Unit} (h : Hears sys ∅ w) (ht : TableInv w)
    (hreg : theLoopRegister sys w = .ok u w') : Hears sys (Used w') w' := by
  have h₀ : Hears sys {s | ∃ id, s = .pidfd id} w := by
    refine ⟨h.held, ?_, fun s hs => h.heard s ?_⟩
    · rintro s ⟨id, rfl⟩ r hr
      cases hr
    · cases s <;> simp_all [Listened]
  obtain ⟨b, w₁, hsig, hreg⟩ := bind_eq_ok.mp hreg
  obtain ⟨hb, hreg⟩ := require_bind_eq_ok.mp hreg
  obtain ⟨_, w₂, hmon, hreg⟩ := bind_eq_ok.mp hreg
  obtain ⟨bmon, hmon⟩ := discard_eq_ok.mp hmon
  obtain ⟨_, w₃, hfs, hreg⟩ := bind_eq_ok.mp hreg
  obtain ⟨bfs, hfs⟩ := discard_eq_ok.mp hfs
  obtain ⟨_, w₄, hbcst, hreg⟩ := bind_eq_ok.mp hreg
  replace hreg := get_bind_eq_ok.mp hreg
  obtain ⟨hsame₁, h₁⟩ := epollAdd_hears (s := .sig) h₀ rfl rfl rfl hsig (.inl hb)
  obtain ⟨hsame₂, h₂⟩ := ttyRegisterEvents_hears h₁ (r := .mon) trivial hmon (by simp)
  obtain ⟨hsame₃, h₃⟩ := epollAdd_hears (s := .fs) h₂ rfl rfl rfl hfs (.inr trivial)
  obtain ⟨hsame₄, h₄⟩ := bcstttyRegisterEvents_hears h₃ hbcst
  have hsame := trans_of SameButInterest hsame₁ (trans_of _ hsame₂ (trans_of _ hsame₃ hsame₄))
  have hids : ∀ id ∈ w₄.gbls.cmds, id < w₄.brk := by
    obtain ⟨l, rfl⟩ := hsame
    exact ht.lt_brk
  obtain ⟨⟨l, rfl⟩, h₅⟩ := cmdsRegister_hears h₄ hids hreg
  obtain ⟨l', rfl⟩ := hsame₄
  refine h₅.mono fun s hs => ?_
  cases htty : s.tty with
  | none => cases s <;> simp_all [Slot.tty]
  | some r =>
    have hr := hs r htty
    cases r with
    | mon => exact .inl (.inl (.inr (.inr htty)))
    | bcst => exact .inl (.inr ⟨htty, hr⟩)
    | clt id => exact .inr ⟨id, hr, .clt id, by simp [ttysOf], htty⟩
    | cmd id => exact .inr ⟨id, hr, .cmd id, by simp [ttysOf], htty⟩

/-! ## Handlers -/

lemma monAddRegister_hears (h : Hears sys T w) (ht : TableInv w) (hid : id ∈ w.gbls.cmds)
    (hT : ∀ s, (∀ r ∈ s.tty, Present w r ∧ r ∉ ttysOf id) → s ∈ T)
    (hreg : monAddRegister sys id w = .ok () w') : Hears sys (Used w') w' := by
  obtain ⟨_, w₁, hcmd, hreg⟩ := bind_eq_ok.mp hreg
  replace hreg := get_bind_eq_ok.mp hreg
  obtain ⟨⟨l, rfl⟩, h₁⟩ := cmdRegisterttyEvents_hears h (ht.lt_brk id hid) hcmd
  replace h₁ := h₁.mono (T := Used w) fun s hs => by
    by_cases hr : ∃ r ∈ s.tty, r ∈ ttysOf id
    · obtain ⟨r, hr, hmem⟩ := hr
      exact .inr ⟨r, hmem, hr⟩
    · exact .inl (hT s fun r hrs => ⟨hs r hrs, fun hmem => hr ⟨r, hrs, hmem⟩⟩)
  split at hreg
  · rename_i hnew
    obtain ⟨_, w₂, hflag, hreg⟩ := bind_eq_ok.mp hreg
    obtain ⟨_, w₃, hcreate, hreg⟩ := bind_eq_ok.mp hreg
    have happart : ∀ s ∈ Used w, ∀ r ∈ s.tty, r ∉ ({.bcst} : Set TtyRef) := by
      rintro s hs r hr rfl
      cases hnew.1.symm.trans (hs _ hr)
    have hflagL : Keeps (Listens sys {.bcst}) (updGbls fun g => { g with bcstflg := true }) := by
      refine updGbls_listens (fun w r hr hR => ?_) fun w r hr => ?_
      · cases r <;> simp_all [Present]
      · cases r <;> simp_all [Known]
    have hcreateL : Keeps (Listens sys {.bcst}) (bcstttyCreate sys) :=
      Keeps.bind Keeps.get fun _ => Keeps.when fun _ => Keeps.bind (ttyCreate_listens sys (by simp)) fun _ =>
        Keeps.when fun _ => exit_keeps sys
    have h₃ := hcreateL hcreate _ happart (hflagL hflag _ happart h₁)
    have hm₃ : Modifies bcstParts w₂ w₃ := bcstttyCreate_modifies sys subset_rfl hcreate
    obtain ⟨⟨l', rfl⟩, h'⟩ := bcstttyRegisterEvents_hears h₃ hreg
    have hcmds : w₃.gbls.cmds = w.gbls.cmds := by
      rw [hm₃.cmds_eq (by simp [bcstParts, ttyParts]), modify_eq_ok.mp hflag]
    refine h'.mono fun s hs => ?_
    by_cases hbcst : s.tty = some .bcst
    · exact .inr ⟨hbcst, hs _ hbcst⟩
    · refine .inl fun r hr => ?_
      have hused := hs r hr
      cases r <;> simp_all [Present]
  · have hstart : Keeps (Listens sys ∅) (discard (cmdStart sys id (.fin 0))) :=
      Keeps.discard (cmdStart_listens id _)
    have h' := Keeps.when (p := (w.ttys .bcst).opens > 0) (fun _ => hstart) hreg _ (by simp) h₁
    suffices hused : Used w' = Used w by rwa [hused]
    rcases when_eq_ok.mp hreg with ⟨-, hs⟩ | ⟨-, rfl⟩
    · obtain ⟨b, hs⟩ := discard_eq_ok.mp hs
      rcases cmdStart_cases hs with ⟨-, -, rfl⟩ | ⟨-, hf⟩
      · exact used_congr rfl rfl
      · have hm := hf.modifies
        exact used_congr (hm.cmds_eq (by simp [forkParts]))
          (congrArg Globals.bcstflg (hm.flags_eq (by simp [forkParts])) :)
    · exact used_congr rfl rfl

lemma monAdd_hears {args : Option CStr} (h : Hears sys (Used w) w) (ht : TableInv w)
    (hadd : monAdd sys args w = .ok () w') : Hears sys (Used w') w' := by
  cases args with
  | none =>
    rw [(pure_eq_ok.mp hadd).2]
    exact h
  | some cstr =>
    rw [monAdd_some] at hadd
    obtain ⟨res, w₁, hres, hadd⟩ := bind_eq_ok.mp hadd
    have h₁ := GBLSAddCmd_listens sys cstr hres _ (by simp) h
    rcases GBLSAddCmd_cases hres with ⟨rfl, hn⟩ | ⟨id, spec, rfl, ha⟩
    · rw [(pure_eq_ok.mp hadd).2]
      rwa [used_congr (hn.modifies.cmds_eq (by simp [cmdParts, ttyParts]))
        (congrArg Globals.bcstflg (hn.modifies.flags_eq (by simp [cmdParts, ttyParts])) :)]
    · have hflg : w₁.gbls.bcstflg = w.gbls.bcstflg :=
        (congrArg Globals.bcstflg (ha.modifies.flags_eq (by simp [addParts, cmdParts, ttyParts])) :)
      refine monAddRegister_hears h₁ (ht.added ha) (by simp [ha.table]) (fun s hs r hr => ?_) hadd
      obtain ⟨hused, hne⟩ := hs r hr
      cases r <;> simp_all [Present, ttysOf, ha.table]

/-- Ttys come into use by an addition, which is all that is ruled out. -/
def BringsNothing (_ : World) : Op → Prop
  | .add _ => False
  | .enable => False
  | .reap _ => True
  | .remove _ => True

lemma Action.used (ha : Action sys BringsNothing w w') : Used w' ⊆ Used w := by
  have kept {S : Set Part} (hm : Modifies S w w') (ht : Part.table ∉ S) (hf : Part.flags ∉ S) :
      Used w' ⊆ Used w :=
    (used_congr (hm.cmds_eq ht) (congrArg Globals.bcstflg (hm.flags_eq hf) :)).subset
  cases ha with
  | @quiet S hS hm hflg =>
    have hnot {p : Part} (hp : p.quiet = false) : p ∉ S := fun hpS => by
      rw [hS p hpS] at hp
      cases hp
    exact (used_congr (hm.cmds_eq (hnot rfl)) hflg).subset
  | notified r mask rest hr hq hw =>
    rw [hw] at kept ⊢
    exact kept (notified_modifies w r mask rest) (by simp) (by simp)
  | start id d hid hf => exact kept hf.modifies (by simp [forkParts]) (by simp [forkParts])
  | stop id hid hs => exact kept hs.modifies (by simp [startParts]) (by simp [startParts])
  | reap id hid hok hr => exact kept hr.modifies (by simp [startParts]) (by simp [startParts])
  | remove id hid hok hr =>
    obtain ⟨hm, hcmds⟩ := remove_ok hr
    have hflg := hm.flags_eq (by simp [removeParts, cleanupParts, procParts, startParts, cmdParts, ttyParts])
    have hbcst : w'.gbls.bcstflg = w.gbls.bcstflg := (congrArg Globals.bcstflg hflg :)
    intro s hs r hr
    have hused := hs r hr
    cases r <;> simp_all [Present]
  | add cstr res hok hadd => exact hok.elim
  | register r c hr hreg =>
    exact kept (S := {.kproc}) (ttyRegisterEvents_modifies r (by simp) hreg) (by simp) (by simp)
  | enable b hok hflg hlen he => exact hok.elim

lemma Handled.used {s : Source} {x : Answer} (hh : Handled sys s x w w')
    (hadd : ∀ line cstr, s = .dom .mon → x.line = some line →
      monLookup line ≠ some (.monAdd, some cstr)) : Used w' ⊆ Used w := by
  have hok : Permits sys BringsNothing s x w :=
    ⟨fun line cstr hs hx hl => hadd line cstr hs hx hl,
      fun line cstr _ _ _ hs hx hl => (hadd line cstr hs hx hl).elim,
      fun _ _ _ => trivial, fun _ _ => trivial, fun _ _ _ _ _ _ => trivial⟩
  have hacts : Acts sys BringsNothing w w' := hh.acts hok
  exact hacts.invariant (P := fun w' => Used w' ⊆ Used w) (fun _ _ h ha => ha.used.trans h) subset_rfl

lemma Handled.hears {s : Source} {x : Answer} (hh : Handled sys s x w w') (ht : TableInv w)
    (h : Hears sys (Used w) w) : Hears sys (Used w') w' := by
  have hused := hh.used
  suffices hheard : (∃ cstr, monAdd sys (some cstr) w = .ok () w') ∨
      Used w' ⊆ Used w ∧ Listens sys ∅ w w' by
    rcases hheard with ⟨cstr, hadd⟩ | ⟨hsub, hl⟩
    · exact monAdd_hears h ht hadd
    · exact (hl _ (by simp) h).mono hsub
  have other {line : CStr} {m : MonCmd} {args : Option CStr} (hx : x.line = some line)
      (hl : monLookup line = some (m, args)) (hm : m ≠ .monAdd) : Used w' ⊆ Used w := by
    refine hused fun line' cstr _ hx' hl' => ?_
    obtain rfl := Option.some_inj.mp (hx.symm.trans hx')
    obtain ⟨rfl, -⟩ := Prod.mk.inj (Option.some_inj.mp (hl.symm.trans hl'))
    exact hm rfl
  have flagsKept {S : Set Part} {w w' : World} (hm : Modifies S w w') (hf : Part.flags ∉ S) :
      w'.gbls.bcstflg = w.gbls.bcstflg := (congrArg Globals.bcstflg (hm.flags_eq hf) :)
  cases hh with
  | bcst hs h =>
    have hm : Modifies bcstInputParts w w' := bcstttyEvent_modifies sys _ subset_rfl h
    refine .inr ⟨hused (by simp [hs]), listens_of_quiet hm ?_ (flagsKept hm (by simp [bcstInputParts]))⟩
    rintro p ((rfl | rfl | rfl) | ⟨j, rfl | rfl⟩) <;> rfl
  | clt id hs hid h =>
    refine .inr ⟨hused (by simp [hs]), ?_⟩
    rcases cmdCltttyEvent_cases h with ⟨-, rfl⟩ | ⟨-, n, c, w₁, hread, hrest⟩
    · exact refl_of _ _
    have h₁ : Listens sys ∅ w w₁ := listens_of_quiet hread.modifies (by rintro p (rfl | rfl) <;> rfl)
      (flagsKept hread.modifies (by simp))
    rcases hrest with ⟨-, rfl⟩ | ⟨-, w₂, b, hrelay, hstop⟩
    · exact h₁
    · have h₂ : Listens sys ∅ w₁ w₂ := listens_of_quiet hrelay.modifies
        (by rintro p (rfl | rfl | rfl) <;> rfl) (flagsKept hrelay.modifies (by simp))
      exact trans_of _ h₁ (trans_of _ h₂ (cmdStop_listens sys id _ _ hstop))
  | cmd id hs hid h =>
    have hm : Modifies (outputParts id) w w' :=
      Keeps.discard (cmdttyProcessOutput_modifies sys _ subset_rfl) h
    refine .inr ⟨hused (by simp [hs]), listens_of_quiet hm ?_ (flagsKept hm (by simp [outputParts]))⟩
    rintro p (rfl | rfl | rfl | rfl | rfl | rfl | rfl | rfl) <;> rfl
  | notify r hs hid h =>
    obtain ⟨mask, rest, -, hned⟩ := ttyNotifyEvent_cases h
    have hm := notified_modifies w r mask rest
    refine .inr ⟨hused (by simp [hs]), trans_of (Listens sys ∅) ?_ (nedHdlr_listens sys r mask hned)⟩
    exact hm.listens (by simp) (by simp) (by simp) (flagsKept hm (by simp)) (by simp) (by simp)
  | pid id fd hs hid h =>
    obtain ⟨w₁, hreap, hrest⟩ := cmdPidEvent_cases hid h
    refine .inr ⟨hused (by simp [hs]), trans_of (Listens sys ∅) (cmdPidReap_listens id hreap) ?_⟩
    rcases hrest with ⟨-, hdel⟩ | ⟨-, hrestart⟩
    · exact monDelFound_listens hdel
    · exact cmdPidRestart_listens id hrestart
  | del line name id hs hx hl hf h =>
    exact .inr ⟨other hx hl (by simp), monDelFound_listens h⟩
  | add line cstr hs hx hl h => exact .inl ⟨cstr, h⟩
  | drain line args hs hx hl h =>
    have hm : Modifies {p | ∃ id, p ∈ outputParts id} w w' :=
      monDrain_modifies sys (S := {p | ∃ id, p ∈ outputParts id}) (fun id p hp => ⟨id, hp⟩) h
    refine .inr ⟨other hx hl (by simp), listens_of_quiet hm ?_ (flagsKept hm (by simp [outputParts]))⟩
    rintro p ⟨id, rfl | rfl | rfl | rfl | rfl | rfl | rfl | rfl⟩ <;> rfl
  | idleExit line args hs hx hl h =>
    have hm : Modifies idleExitParts w w' := monIdleExit_modifies sys (by simp [idleExitParts])
      (by simp [idleExitParts]) (by simp [idleExitParts]) h
    refine .inr ⟨other hx hl (by simp), listens_of_quiet hm ?_ (monIdleExit_bcstflg h)⟩
    rintro p ((rfl | rfl) | ⟨id, rfl⟩) <;> rfl
  | toggle line m args g hs hx hl hw hcore hrestart hlb =>
    have hm : Modifies {.options, .flags} w w' := toggle_modifies hw hcore
    have hflg : w'.gbls.bcstflg = w.gbls.bcstflg := by
      rw [hw]
      exact (congrArg Globals.bcstflg hcore :)
    refine .inr ⟨(used_congr (hm.cmds_eq (by simp)) hflg).subset, listens_of_quiet hm ?_ hflg⟩
    rintro p (rfl | rfl) <;> rfl
  | idle hs hw =>
    rw [hw]
    exact .inr ⟨subset_rfl, refl_of _ _⟩

/-! ## Runs -/

lemma apply_hears (w : World) (e : Env) (h : Hears sys T w) : Hears sys T (e.apply w) := by
  have hm := apply_modifies w e
  obtain ⟨hfds, hnext, -⟩ := apply_fds w e
  have hslot (s : Slot) : slotFd (e.apply w) s = slotFd w s :=
    hm.slotFd_eq (fun r _ => by cases e <;> simp [envParts]) fun id _ => by cases e <;> simp [envParts]
  have hheld : FdsHeld (e.apply w) := by
    refine h.held.forget ⟨?_, ?_⟩ (fun s d hd => hslot s ▸ hd) fun _ _ _ hd => hfds ▸ hd
    · exact hfds ▸ h.held.ok.nodup
    · exact hfds ▸ hnext ▸ h.held.ok.lt
  have hr : Remembers none w (e.apply w) := by
    cases e with
    | exited p st => exact sweep_remembers (fun _ hd => hd) rfl rfl
    | execed p => exact sweep_remembers (fun _ hd => hd) rfl rfl
    | opened r => exact hm.remembers (by simp [envParts])
    | closed r wr => exact hm.remembers (by simp [envParts])
    | typed r c p => exact hm.remembers (by simp [envParts])
  refine h.changed hheld hr (by simp) hm (by cases e <;> simp [envParts]) (by cases e <;> simp [envParts])
    (congrArg Globals.bcstflg (hm.flags_eq (by cases e <;> simp [envParts])) :)
    (fun _ _ r _ => by cases e <;> simp [envParts]) fun id hid => ?_
  cases e <;> simp [envParts] at hid

lemma boot_hears (o : Options) : Hears sys ∅ (boot o) := by
  have hslot (s : Slot) (d : Fd) (hd : slotFd (boot o) s = some d) : s = .sig ∧ d = 0 ∨ s = .fs ∧ d = 1 := by
    cases s <;> simp_all [slotFd, boot, eq_comm]
  refine ⟨⟨⟨by simp [boot], by simp [boot]⟩, ⟨fun s t d hs ht => ?_, fun s d hs => ?_⟩⟩, by simp, ?_⟩
  · rcases hslot s d hs with ⟨rfl, rfl⟩ | ⟨rfl, rfl⟩ <;> rcases hslot t _ ht with ⟨rfl, h⟩ | ⟨rfl, h⟩ <;>
      simp_all
  · rcases hslot s d hs with ⟨-, rfl⟩ | ⟨-, rfl⟩ <;> simp [boot]
  · intro s hs
    cases s <;> simp_all [Listened, boot]

/-- `main` before `theLoop`. -/
lemma main_listens {specs : List CStr} (h : main sys specs w = .ok () w') :
    ∃ w₁, Listens sys Set.univ w w₁ ∧ theLoopRegister sys w₁ = .ok () w' := by
  have quiet {α : Type} {m : Act α} (hm : Keeps (Modifies ∅) m) : Keeps (Listens sys Set.univ) m :=
    fun _ _ _ h => listens_of_quiet (hm h) (by simp) (congrArg Globals.bcstflg ((hm h).flags_eq (by simp)) :)
  have path (g : Globals) (dir : Option CStr) (suffix : CStr) :
      Keeps (Listens sys Set.univ) (pidPath sys g dir suffix) := quiet (pidPath_modifies sys g dir suffix)
  have gbls {f : Globals → Globals} (hf : ∀ g, (f g).cmds = g.cmds ∧ (f g).bcstflg = g.bcstflg) :
      Keeps (Listens sys Set.univ) (updGbls f) := by
    refine updGbls_listens (fun w r hr hR => (hR trivial).elim) fun w r hr => ?_
    cases r <;> simp_all [Known]
  have hargs (s : CStr) : Keeps (Listens sys Set.univ) (argsParseSpec sys s) :=
    quiet (argsParseSpec_modifies sys s)
  have names {α : Type} {m : Act α} (hm : Keeps (Modifies {Part.names}) m) : Keeps (Listens sys Set.univ) m :=
    fun _ _ _ h => (hm h).listens (by simp) (by simp) (by simp)
      (congrArg Globals.bcstflg ((hm h).flags_eq (by simp)) :) (fun _ => by simp) fun _ => by simp
  have hopen : Keeps (Listens sys Set.univ) (logopen sys) := by
    refine Keeps.bind (gbls fun g => ?_) fun _ => Keeps.bind Keeps.get fun _ =>
      Keeps.bind (quiet call_modifies) fun _ => Keeps.ite (fun _ => Keeps.pure _) fun _ =>
      Keeps.bind (names (freopen_modifies sys _ (by simp))) fun _ => Keeps.ite (fun _ => Keeps.pure _) fun _ =>
      Keeps.bind (gbls fun _ => ⟨rfl, rfl⟩) fun _ => names (freopen_modifies sys _ (by simp))
    unfold Globals.setlogpath
    dsimp only
    split <;> exact ⟨rfl, rfl⟩
  have hlog : Keeps (Listens sys Set.univ) (logInit sys) :=
    Keeps.bind Keeps.get fun _ =>
      Keeps.bind (Keeps.when fun _ => Keeps.bind (quiet call_modifies) fun _ => Keeps.require _ _) fun _ =>
      Keeps.when fun _ => Keeps.bind (gbls fun _ => ⟨rfl, rfl⟩) fun _ => Keeps.bind hopen fun _ =>
      Keeps.when fun _ => Keeps.throw _
  have hmon : Keeps (Listens sys Set.univ) (monttyCreate sys) :=
    Keeps.bind Keeps.get fun _ => Keeps.bind (path _ _ _) fun _ =>
      Keeps.bind (ttyInit_listens _ _ _ _ _ trivial) fun _ =>
      Keeps.bind (ttyCreate_listens sys trivial) fun _ => Keeps.when fun _ => exit_keeps sys
  have hfs : Keeps (Listens sys Set.univ) (fsCreate sys) :=
    Keeps.bind Keeps.get fun _ => Keeps.bind (path _ _ _) fun _ =>
      Keeps.bind (gbls fun _ => ⟨rfl, rfl⟩) fun _ => Keeps.bind (names (mkdir_modifies sys _ (by simp))) fun _ =>
      Keeps.bind (Keeps.when fun _ => exit_keeps sys) fun _ => Keeps.bind (gbls fun _ => ⟨rfl, rfl⟩) fun _ =>
      Keeps.bind (names (fuse_session_mount_modifies sys _ (by simp))) fun _ => Keeps.when fun _ => exit_keeps sys
  have hadd (s : CStr) : Keeps (Listens sys Set.univ) (mainAddCmd sys s) :=
    Keeps.bind ((GBLSAddCmd_listens sys s).mono fun _ _ h => h.mono (Set.empty_subset _)) fun _ =>
      Keeps.require _ _
  have hbcst : Keeps (Listens sys Set.univ) (bcstttyInit sys) :=
    Keeps.bind (gbls fun _ => ⟨rfl, rfl⟩) fun _ => Keeps.bind Keeps.get fun _ =>
      Keeps.bind (Keeps.bind Keeps.get fun _ => ttyInit_listens _ _ _ _ _ trivial) fun _ =>
      Keeps.bind Keeps.get fun _ => Keeps.when fun _ => Keeps.bind (ttyCreate_listens sys trivial) fun _ =>
      Keeps.when fun _ => exit_keeps sys
  obtain ⟨_, w₁, hstage, h⟩ := bind_eq_ok.mp h
  have h₁ := Keeps.forM hargs _ hstage
  obtain ⟨_, w₂, hstage, h⟩ := bind_eq_ok.mp h
  have h₂ := trans_of _ h₁ (hlog hstage)
  obtain ⟨_, w₃, hstage, h⟩ := bind_eq_ok.mp h
  have h₃ := trans_of _ h₂ (hmon hstage)
  obtain ⟨_, w₄, hstage, h⟩ := bind_eq_ok.mp h
  have h₄ := trans_of _ h₃ (hfs hstage)
  obtain ⟨_, w₅, hstage, h⟩ := bind_eq_ok.mp h
  have h₅ := trans_of _ h₄ (Keeps.forM hadd _ hstage)
  obtain ⟨_, w₆, hstage, h⟩ := bind_eq_ok.mp h
  exact ⟨w₆, trans_of _ h₅ (hbcst hstage), h⟩

/-- In every state of a run yar hears the ttys in use, the processes, the signals and fuse. -/
theorem reachable_hears {ok : World → Event → Prop} (hw : Reachable sys ok w) : Hears sys (Used w) w := by
  obtain ⟨o, hw⟩ := hw
  induction hw with
  | start h =>
    have hstart : Transition.Reach (Started sys o) (Step sys) ok _ := .start h
    have ht := reachable_tableInv ⟨o, hstart⟩
    obtain ⟨w₁, hl, hreg⟩ := main_listens h
    have hm : Modifies {.kproc} w₁ _ := theLoopRegister_modifies (by simp) hreg
    have ht₁ : TableInv w₁ := by
      refine ⟨?_, fun id hid => ?_⟩
      · rw [← hm.cmds_eq (by simp)]
        exact ht.nodup
      · rw [← hm.cmds_eq (by simp)] at hid
        rw [← hm.brk_eq (by simp)]
        exact ht.lt_brk id hid
    exact theLoopRegister_hears (hl ∅ (by simp) (boot_hears o)) ht₁ hreg
  | @next w w' e hs he h ih =>
    cases e with
    | env e =>
      rw [modify_eq_ok.mp h]
      have hm := apply_modifies w e
      rw [used_congr (hm.cmds_eq (by cases e <;> simp [envParts]))
        (congrArg Globals.bcstflg (hm.flags_eq (by cases e <;> simp [envParts])) :)]
      exact apply_hears w e ih
    | hdlr s x => exact (hdlr_cases h).hears (reachable_tableInv ⟨o, hs⟩) ih

/-- What has to be heard can be fetched as soon as it is ready, unless it is missed. -/
lemma Hears.fetched (h : Hears sys T w) (hs : Listened T w s) {d : Fd} {src : Source}
    (hd : slotFd w s = some d) (hsrc : s.source d = some src) (hr : w.kern.ready src) :
    Fetched w.kern [src] ∨ Missed sys w s := by
  obtain ⟨d', src', hd', hsrc', hmem⟩ := h.heard s hs
  obtain rfl := Option.some_inj.mp (hd.symm.trans hd')
  obtain rfl := Option.some_inj.mp (hsrc.symm.trans hsrc')
  refine hmem.imp_left fun hmem => ⟨List.nodup_singleton _, by simp [maxEvents], fun t ht => ?_⟩
  obtain rfl := List.mem_singleton.mp ht
  exact ⟨List.mem_map.mpr ⟨_, hmem, rfl⟩, hr⟩

/-- In every state of a run, epoll reports each tty in use that has a byte to be read or an open or
close to be handled and each child that has died. What it can miss are the monitor, the broadcast tty
and the children whose registration has failed. -/
theorem nothing_unheard {ok : World → Event → Prop} (hw : Reachable sys ok w) :
    (∀ r, Present w r → (w.kern.ports r).domq ≠ [] → Fetched w.kern [.dom r] ∨ Missed sys w (.dom r)) ∧
      (∀ r, Present w r → (w.kern.ports r).notify ≠ [] →
        Fetched w.kern [.ifd r] ∨ Missed sys w (.ifd r)) ∧
      ∀ q ∈ w.kern.procs, q.dead ≠ none →
        ∃ id ∈ w.gbls.cmds, Fetched w.kern [.pidfd id q.pidfd] ∨ Missed sys w (.pidfd id) := by
  have h := reachable_hears hw
  have hc := reachable_children hw
  have tty {r : TtyRef} (hr : Present w r) : ∀ s : Slot, s.tty = some r → s ∈ Used w := by
    intro s hs q hq
    obtain rfl := Option.some_inj.mp (hs.symm.trans hq)
    exact hr
  refine ⟨fun r hr hq => ?_, fun r hr hq => ?_, fun q hq hdead => ?_⟩
  · have hs : Listened (Used w) w (.dom r) := ⟨tty hr _ rfl, hr⟩
    obtain ⟨d, -, hd, -⟩ := h.heard _ hs
    exact h.fetched hs hd rfl hq
  · have hs : Listened (Used w) w (.ifd r) := ⟨⟨tty hr _ rfl, tty hr _ rfl⟩, hr⟩
    obtain ⟨d, -, hd, -⟩ := h.heard _ hs
    exact h.fetched hs hd rfl hq
  · obtain ⟨id, hid, -, hpidfd, -⟩ := hc.owner _ (mem_keys hq)
    refine ⟨id, hid, h.fetched (s := .pidfd id) ?_ hpidfd rfl ?_⟩
    · rw [Listened, hpidfd]
      exact Option.some_ne_none _
    · intro p hp hfd
      have hn : (w.kern.procs.map Proc.pidfd).Nodup := by
        have hn := hc.pidfds
        rwa [keys, List.map_map] at hn
      rw [List.inj_on_of_nodup_map hn hp hq hfd]
      exact hdead

/-- A child of a command that has been started and has died. -/
theorem nothing_unheard_died : ∃ w, Reachable quietSys (fun _ _ => True) w ∧
    w.kern.procs.map (fun q => (q.pid, q.dead)) = [(0, some 7)] ∧
    ∀ q ∈ w.kern.procs, q.dead ≠ none → ∃ id ∈ w.gbls.cmds, Fetched w.kern [.pidfd id q.pidfd] := by
  obtain ⟨w, hw, hp⟩ := exists_reachable quietSys (fun _ _ => True)
    { specs := [bytes "a,,,1,x"], cwd := bytes "/h" }
    [.env (.opened (.clt 0)), .hdlr (.ifd (.clt 0)) {}, .env (.exited 0 7)]
    (fun w => decide (w.kern.procs.map (fun q => (q.pid, q.dead)) = [(0, some 7)])) (by decide +kernel)
  refine ⟨w, hw, of_decide_eq_true hp, fun q hq hdead => ?_⟩
  obtain ⟨id, hid, hfetched | ⟨-, d, -, hdeaf⟩⟩ := (nothing_unheard hw).2.2 q hq hdead
  · exact ⟨id, hid, hfetched⟩
  · cases hdeaf

end Yar.Proofs
