import Yar.Proofs.AddCommand
import Yar.Proofs.Leaving
import Yar.Proofs.Leftovers

/-!
# What the loop owns

The model of what yar owns follows the model of yar itself: a start of yar is one of its starts, and each
handler that returns is a sequence of its events, with the same commands in the table, the same children
and the same fields of the ttys set. What is known of its cleanup so holds in the states of the loop.
-/

namespace Yar.Proofs

open Program Relation

variable {sys : Sys} {w w' : World} {s s' : Own} {id : CmdId} {r : TtyRef} {S : Set Part}

/-! ## What is compared -/

/-- The same fields are set, and the same names are not empty. -/
structure SameHeld (this this' : Tty) : Prop where
  strs : ∀ f, ttyStr this f = none ↔ ttyStr this' f = none
  names : ∀ f, NamesEntry this f ↔ NamesEntry this' f
  fds : ∀ f, ttyFd this f = none ↔ ttyFd this' f = none

/-- There is a child in both or in neither, and a pidfd with it. -/
structure SameChild (this : OwnCmd) (this' : Cmd) : Prop where
  pid : this.pid = none ↔ this'.pid = none
  pidfd : this.pidfd = none ↔ this'.pidfd = none
  paired : this'.pid = none ↔ this'.pidfd = none

structure Tracks (w : World) (s : Own) : Prop where
  cmds : s.cmds = w.gbls.cmds
  brk : s.brk = w.brk
  bcstflg : s.bcstflg = w.gbls.bcstflg
  ttys : ∀ r, SameHeld (s.ttys r) (w.ttys r)
  children : ∀ id ∈ w.gbls.cmds, SameChild (s.heap id) (w.heap id)

lemma sameHeld_empty : SameHeld {} {} := ⟨fun _ => .rfl, fun _ => .rfl, fun _ => .rfl⟩

lemma SameHeld.of_static {this this' that : Tty} (h : SameHeld this this')
    (hst : ttyStatic that = ttyStatic this') : SameHeld this that := by
  simp only [ttyStatic, Prod.mk.injEq] at hst
  obtain ⟨hlink, hextra₁, hextra₂, hdfd, hsfd, hifd, -⟩ := hst
  have hstr (f : TtyStr) : ttyStr that f = ttyStr this' f := by
    cases f <;> simp [ttyStr, hlink, hextra₁, hextra₂]
  have hfd (f : TtyFd) : ttyFd that f = ttyFd this' f := by cases f <;> simp [ttyFd, hdfd, hsfd, hifd]
  refine ⟨fun f => hstr f ▸ h.strs f, fun f => ?_, fun f => hfd f ▸ h.fds f⟩
  rw [h.names f]
  unfold NamesEntry
  simp only [hstr]

lemma SameChild.of_proc {this : OwnCmd} {this' that : Cmd} (h : SameChild this this')
    (hproc : (that.pid, that.pidfd) = (this'.pid, this'.pidfd)) : SameChild this that := by
  obtain ⟨hpid, hpidfd⟩ := Prod.mk.inj hproc
  exact ⟨hpid ▸ h.pid, hpidfd ▸ h.pidfd, hpid ▸ hpidfd ▸ h.paired⟩

/-! ## Actions that neither add nor remove a command -/

/-- What neither has to do with the table nor with the ttys nor with the processes may change. -/
lemma Tracks.kept (h : Tracks w s) (hm : Modifies S w w') (htable : .table ∉ S) (hbrk : .brk ∉ S)
    (hflg : w'.gbls.bcstflg = w.gbls.bcstflg) (htty : ∀ r, .tty r ∉ S) (hproc : ∀ id, .proc id ∉ S) :
    Tracks w' s := by
  have hcmds := hm.cmds_eq htable
  refine ⟨h.cmds.trans hcmds.symm, h.brk.trans (hm.brk_eq hbrk).symm, h.bcstflg.trans hflg.symm,
    fun r => (h.ttys r).of_static (hm.same _ (htty r)), fun id hid => ?_⟩
  rw [hcmds] at hid
  exact (h.children id hid).of_proc (hm.same _ (hproc id))

lemma Tracks.modifies_kproc (h : Tracks w s) (hm : Modifies {.kproc} w w') : Tracks w' s :=
  h.kept hm (by simp) (by simp) (hm.bcstflg_eq (by simp)) (by simp) (by simp)

/-- A command has been started or has ended. -/
lemma Tracks.proc (h : Tracks w s) (hm : Modifies (startParts id) w w') {this : OwnCmd}
    (hchild : SameChild this (w'.heap id)) (hheap : s'.heap = Function.update s.heap id this)
    (hcmds : s'.cmds = s.cmds) (hbrk : s'.brk = s.brk) (hflg : s'.bcstflg = s.bcstflg)
    (httys : s'.ttys = s.ttys) : Tracks w' s' := by
  have hcmds' : w'.gbls.cmds = w.gbls.cmds := hm.cmds_eq (by simp [startParts])
  have hflg' : w'.gbls.bcstflg = w.gbls.bcstflg := hm.bcstflg_eq (by simp [startParts])
  refine ⟨by rw [hcmds, hcmds', h.cmds], by rw [hbrk, hm.brk_eq (by simp [startParts]), h.brk],
    by rw [hflg, hflg', h.bcstflg], fun r => ?_, fun j hj => ?_⟩
  · rw [httys]
    exact (h.ttys r).of_static (hm.same (.tty r) (by simp [startParts]))
  · rw [hcmds'] at hj
    rw [hheap]
    by_cases hne : j = id
    · subst hne
      rwa [Function.update_self]
    · rw [Function.update_of_ne hne]
      exact (h.children j hj).of_proc (hm.same (.proc j) (by simp [startParts, hne]))

/-- Any number of events of the ownership model. -/
abbrev OwnSteps : Own → Own → Prop := ReflTransGen fun s s' => ∃ e, Own.OwnStep s e s'

/-- The state after an event in which nothing goes wrong. -/
def OwnRuns (s : Own) (e : Own.OwnEvent) (s' : Own) : Prop := e.act (fun _ => true) s = .ok () s'

lemma OwnRuns.steps {e : Own.OwnEvent} (h : OwnRuns s e s') : OwnSteps s s' := .single ⟨e, _, h⟩

/-- `cmdStart` of a command that is not running. -/
def ownForked (id : CmdId) (s : Own) : Own :=
  { s with
    nextFd := s.nextFd + 1
    nextPid := s.nextPid + 1
    heap := Function.update s.heap id { s.heap id with pidfd := some s.nextFd, pid := some s.nextPid } }

lemma start_runs (hid : id ∈ s.cmds) (hpid : (s.heap id).pid = none) :
    OwnRuns s (.start id) (ownForked id s) := by
  refine get_bind_eq_ok.mpr (require_bind_eq_ok.mpr ⟨hid, get_bind_eq_ok.mpr ?_⟩)
  rw [when_pos hpid]
  rfl

lemma stop_runs (hid : id ∈ s.cmds) : OwnRuns s (.stop id) (cmdStopped id s) :=
  get_bind_eq_ok.mpr (require_bind_eq_ok.mpr ⟨hid, cmdStop_eq fun _ => .inr rfl⟩)

/-- `cmdPidReap`, which gives back no pidfd. -/
def ownReaped (id : CmdId) (s : Own) : Own :=
  { cmdStopped id s with released := held (s.heap id).pid (.child id) ++ s.released }

lemma exited_runs (hid : id ∈ s.cmds) : OwnRuns s (.exited id) (ownReaped id s) := by
  refine get_bind_eq_ok.mpr (require_bind_eq_ok.mpr ⟨hid, get_bind_eq_ok.mpr ?_⟩)
  cases hpid : (s.heap id).pid with
  | none =>
    have hsame : ownReaped id s = s := by
      have hheap : { s.heap id with pidfd := (s.heap id).pidfd, pid := none } = s.heap id := by rw [← hpid]
      simp only [ownReaped, cmdStopped, givenBack, hpid, held_none, List.nil_append, if_pos, hheap,
        Function.update_eq_self]
    rw [hsame]
    exact when_eq_ok.mpr (.inr ⟨by simp, rfl⟩)
  | some pid =>
    refine when_eq_ok.mpr (.inl ⟨by simp, ?_⟩)
    simp only [ownReaped, cmdStopped, givenBack, hpid]
    rfl

lemma removed_runs (hid : id ∈ s.cmds) : OwnRuns s (.removed id) (cmdRemoved id s) :=
  get_bind_eq_ok.mpr (require_bind_eq_ok.mpr ⟨hid, remove_eq fun _ => .inr rfl⟩)

/-- A stopped or reaped command has no child. -/
lemma SameChild.ended {this : OwnCmd} {this' that : Cmd} (h : SameChild this this') (hpid : that.pid = none)
    (hpidfd : that.pidfd = none) : SameChild
      { this with pidfd := if this.pid = none then this.pidfd else none, pid := none } that := by
  have hnone : (if this.pid = none then this.pidfd else none) = none := by
    split
    · exact h.pidfd.mpr (h.paired.mp (h.pid.mp ‹_›))
    · rfl
  exact ⟨by simp [hpid], by simp [hnone, hpidfd], by simp [hpid, hpidfd]⟩

/-- The ttys of a command that has been cleaned up. -/
lemma cmdCleanup_ttys {u : Unit} (h : cmdCleanup sys id w = .ok u w') :
    ttyStatic (w'.ttys (.cmd id)) = ttyStatic {} ∧ ttyStatic (w'.ttys (.clt id)) = ttyStatic {} := by
  obtain ⟨_, w₁, hstop, h⟩ := bind_eq_ok.mp h
  obtain ⟨_, w₂, hcmd, h⟩ := bind_eq_ok.mp h
  obtain ⟨_, w₃, hclt, hclear⟩ := bind_eq_ok.mp h
  have hm₃ : Modifies (ttyParts (.clt id)) w₂ w₃ := ttyCleanup_modifies sys subset_rfl hclt
  have hsame : w'.ttys = w₃.ttys := by
    rw [modify_eq_ok.mp hclear]
    rfl
  rw [hsame]
  constructor
  · have hkept : ttyStatic (w₃.ttys (.cmd id)) = ttyStatic (w₂.ttys (.cmd id)) :=
      hm₃.same (.tty (.cmd id)) (by simp [ttyParts])
    rw [hkept, ttyCleanup_tty hcmd]
  · rw [ttyCleanup_tty hclt]

/-- Both have cleaned up the ttys of a command, and have left the others alone. -/
lemma Tracks.sameHeld_cleared (h : Tracks w s) (hm : Modifies S w w')
    (hclear : ttyStatic (w'.ttys (.cmd id)) = ttyStatic {} ∧ ttyStatic (w'.ttys (.clt id)) = ttyStatic {})
    (hown : s'.ttys (.cmd id) = {} ∧ s'.ttys (.clt id) = {})
    (hrest : ∀ r, r ≠ .cmd id → r ≠ .clt id → s'.ttys r = s.ttys r ∧ .tty r ∉ S) (r : TtyRef) :
    SameHeld (s'.ttys r) (w'.ttys r) := by
  by_cases hr : r = .cmd id
  · rw [hr, hown.1]
    exact sameHeld_empty.of_static hclear.1
  · by_cases hr' : r = .clt id
    · rw [hr', hown.2]
      exact sameHeld_empty.of_static hclear.2
    · obtain ⟨hsame, hS⟩ := hrest r hr hr'
      rw [hsame]
      exact (h.ttys r).of_static (hm.same (.tty r) hS)

lemma Tracks.removed (h : Tracks w s) (hr : (do cmdCleanup sys id; hashDel id) w = .ok () w') :
    Tracks w' (cmdRemoved id s) := by
  obtain ⟨hm, hcmds⟩ := remove_ok hr
  obtain ⟨_, w₁, hclean, hdel⟩ := bind_eq_ok.mp hr
  have hsame : w'.ttys = w₁.ttys := by rw [hashDel_ok hdel]
  have hclear := cmdCleanup_ttys hclean
  rw [← hsame] at hclear
  have hparts {p : Part} (hp : p = .brk ∨ p = .flags) : p ∉ removeParts id := by
    rcases hp with rfl | rfl <;> simp [removeParts, cleanupParts, procParts, startParts, cmdParts, ttyParts]
  refine ⟨?_, h.brk.trans (hm.brk_eq (hparts (.inl rfl))).symm,
    h.bcstflg.trans (hm.bcstflg_eq (hparts (.inr rfl))).symm, fun r => ?_, fun j hj => ?_⟩
  · rw [hcmds, ← h.cmds]
    rfl
  · have hown : (cmdRemoved id s).ttys (.cmd id) = {} ∧ (cmdRemoved id s).ttys (.clt id) = {} := by
      simp [cmdRemoved, cmdCleaned, givenBack]
    refine h.sameHeld_cleared hm hclear hown (fun r hr hr' => ⟨cmdRemoved_ttys hr hr', ?_⟩) r
    simp [removeParts, cleanupParts, procParts, startParts, cmdParts, ttyParts, hr, hr']
  · rw [hcmds] at hj
    obtain ⟨hj, hne⟩ := List.mem_filter.mp hj
    have hne : j ≠ id := by simpa using hne
    have hheap : (cmdRemoved id s).heap j = s.heap j := Function.update_of_ne hne _ _
    rw [hheap]
    refine (h.children j hj).of_proc (hm.same (.proc j) ?_)
    simp [removeParts, cleanupParts, procParts, startParts, cmdParts, ttyParts, hne]

/-- The actions of the handlers other than that of an addition. -/
def Op.ofAdd : Op → Bool
  | .add _ | .enable => true
  | .reap _ | .remove _ => false

lemma Action.tracked (ha : Action sys (fun _ op => op.ofAdd = false) w w') (h : Tracks w s) :
    ∃ s', OwnSteps s s' ∧ s'.fs = s.fs ∧ Tracks w' s' := by
  cases ha with
  | @quiet S hS hm hflg =>
    have hnot {p : Part} (hp : p.quiet = false) : p ∉ S := fun hpS => by
      rw [hS p hpS] at hp
      cases hp
    exact ⟨s, .refl, rfl, h.kept hm (hnot rfl) (hnot rfl) hflg (fun _ => hnot rfl) fun _ => hnot rfl⟩
  | notified r mask rest hr hq hw =>
    have hm := notified_modifies w r mask rest
    rw [← hw] at hm
    exact ⟨s, .refl, rfl, h.kept hm (by simp) (by simp) (hm.bcstflg_eq (by simp)) (by simp) (by simp)⟩
  | register r b hr hreg =>
    have hm : Modifies {.kproc} w w' := ttyRegisterEvents_modifies r (by simp) hreg
    exact ⟨s, .refl, rfl, h.modifies_kproc hm⟩
  | start id d hid hf =>
    have hpid := (h.children id hid).pid.mpr hf.stopped
    refine ⟨_, (start_runs (h.cmds ▸ hid) hpid).steps, rfl, h.proc (hf.modifies.mono ?_) ?_ rfl rfl rfl rfl rfl⟩
    · rintro p (rfl | rfl | rfl | rfl) <;> simp [startParts]
    · exact ⟨by simp [hf.pid], by simp [hf.pidfd], by simp [hf.pid, hf.pidfd]⟩
  | stop id hid hs =>
    exact ⟨_, (stop_runs (h.cmds ▸ hid)).steps, rfl,
      h.proc hs.modifies ((h.children id hid).ended hs.pid hs.pidfd) rfl rfl rfl rfl rfl⟩
  | reap id hid hok hr =>
    exact ⟨_, (exited_runs (h.cmds ▸ hid)).steps, rfl,
      h.proc hr.modifies ((h.children id hid).ended hr.pid hr.pidfd) rfl rfl rfl rfl rfl⟩
  | remove id hid hok hr => exact ⟨_, (removed_runs (h.cmds ▸ hid)).steps, rfl, h.removed hr⟩
  | add cstr res hok => cases hok
  | enable b hok => cases hok

/-! ## Additions -/

lemma sameHeld_update {ttys ttys' : TtyRef → Tty} {this this' : Tty} (h : ∀ r, SameHeld (ttys r) (ttys' r))
    (hr : SameHeld this this') (r r' : TtyRef) :
    SameHeld (Function.update ttys r this r') (Function.update ttys' r this' r') := by
  by_cases hne : r' = r
  · subst hne
    rwa [Function.update_self, Function.update_self]
  · rw [Function.update_of_ne hne, Function.update_of_ne hne]
    exact h r'

/-- The record of a tty, filled in for a creation. -/
def initTty (this : Tty) (link src₁ dst₁ src₂ dst₂ : Option CStr) : Tty :=
  { this with
    link := link, extralink1 := ⟨src₁, dst₁⟩, extralink2 := ⟨src₂, dst₂⟩
    dfd := none, sfd := none, ifd := none, iwd := none }

/-- The record of a tty that has been created. -/
def openTty (this : Tty) (fd : Fd) : Tty :=
  { this with dfd := some fd, sfd := some (fd + 1), ifd := some (fd + 2), iwd := some (fd + 2) }

/-- The record of a tty without a link. -/
lemma sameHeld_initTty_null (this this' : Tty) :
    SameHeld (initTty this none none none none none) (initTty this' none none none none none) :=
  ⟨fun f => (by cases f <;> simp [initTty, ttyStr]), fun f => (by cases f <;> simp [initTty, ttyStr, NamesEntry]),
    fun f => (by cases f <;> simp [initTty, ttyFd])⟩

/-- The record of a tty with a link of its own only. -/
lemma sameHeld_initTty_single (this this' : Tty) {link link' : CStr} (hlink : link = [] ↔ link' = []) :
    SameHeld (initTty this (some link) none none none none) (initTty this' (some link') none none none none) :=
  ⟨fun f => (by cases f <;> simp [initTty, ttyStr]),
    fun f => (by cases f <;> simp [initTty, ttyStr, NamesEntry, hlink]),
    fun f => (by cases f <;> simp [initTty, ttyFd])⟩

/-- The record of a tty with a link and two extra ones. -/
lemma sameHeld_initTty (this this' : Tty) {link link' src₁ src₁' src₂ src₂' : CStr}
    {dst₁ dst₁' dst₂ dst₂' : Option CStr} (hlink : link = [] ↔ link' = [])
    (hsrc₁ : src₁ ≠ [] ∧ src₁' ≠ []) (hsrc₂ : src₂ ≠ [] ∧ src₂' ≠ []) (hdst₁ : dst₁ = none ↔ dst₁' = none)
    (hdst₂ : dst₂ = none ↔ dst₂' = none) :
    SameHeld (initTty this (some link) (some src₁) dst₁ (some src₂) dst₂)
      (initTty this' (some link') (some src₁') dst₁' (some src₂') dst₂') := by
  refine ⟨fun f => ?_, fun f => ?_, fun f => ?_⟩
  · cases f <;> simp [initTty, ttyStr, hdst₁, hdst₂]
  · cases f <;> simp [initTty, ttyStr, NamesEntry, hlink, hsrc₁, hsrc₂]
  · cases f <;> simp [initTty, ttyFd]

lemma SameHeld.opened {this this' that : Tty} {fd fd' : Fd} (h : SameHeld this this')
    (hst : ttyStatic that = ttyStatic (openTty this' fd')) : SameHeld (openTty this fd) that := by
  have hopen : SameHeld (openTty this fd) (openTty this' fd') := by
    refine ⟨fun f => ?_, fun f => ?_, fun f => ?_⟩
    · have hf := h.strs f
      cases f <;> exact hf
    · have hf := h.names f
      cases f <;> exact hf
    · cases f <;> simp [openTty, ttyFd]
  exact hopen.of_static hst

lemma own_ttyInit {link src₁ dst₁ src₂ dst₂ : Option CStr} (h : (s.ttys r).link = none) :
    Own.ttyInit r link src₁ dst₁ src₂ dst₂ s = .ok ()
      { s with ttys := Function.update s.ttys r (initTty (s.ttys r) link src₁ dst₁ src₂ dst₂) } :=
  get_bind_eq_ok.mpr (require_bind_eq_ok.mpr ⟨h, rfl⟩)

/-- The three descriptors of a tty have been opened. -/
def ownOpened (r : TtyRef) (s : Own) : Own :=
  { s with nextFd := s.nextFd + 3, ttys := Function.update s.ttys r (openTty (s.ttys r) s.nextFd) }

lemma own_ttyCreate (h : (s.ttys r).dfd = none) : Own.ttyCreate r true s = .ok true (ownOpened r s) :=
  get_bind_eq_ok.mpr (require_bind_eq_ok.mpr ⟨h, rfl⟩)

/-- A new command has been filled in. -/
def ownFilled (name cmdstr ttylink : CStr) (s : Own) : Own :=
  { s with
    brk := s.brk + 1
    heap := Function.update s.heap s.brk { cmdstr := some cmdstr, bcstprefix := some (name ++ bytes ": ") }
    ttys := Function.update
      (Function.update s.ttys (.cmd s.brk) (initTty (s.ttys (.cmd s.brk)) none none none none none))
      (.clt s.brk) (initTty (s.ttys (.clt s.brk)) (some ttylink) (some (ttylink ++ bytes ".mon"))
        (s.ttys .mon).link (some (ttylink ++ bytes ".fs")) s.fs.mntpt) }

lemma own_cmdInit {name cmdstr ttylink : CStr} (hclt : (s.ttys (.clt s.brk)).link = none)
    (hcmd : (s.ttys (.cmd s.brk)).link = none) : Own.cmdInit s.brk name cmdstr ttylink
      { s with brk := s.brk + 1 } = .ok () (ownFilled name cmdstr ttylink s) := by
  let s₁ : Own :=
    { s with
      brk := s.brk + 1
      heap := Function.update s.heap s.brk { cmdstr := some cmdstr, bcstprefix := some (name ++ bytes ": ") } }
  let s₂ : Own :=
    { s₁ with
      ttys := Function.update s.ttys (.cmd s.brk) (initTty (s.ttys (.cmd s.brk)) none none none none none) }
  have hinit : Own.ttyInit (.cmd s.brk) none none none none none s₁ = .ok () s₂ := own_ttyInit hcmd
  have hother (r : TtyRef) (hr : r ≠ .cmd s.brk) : s₂.ttys r = s.ttys r := Function.update_of_ne hr _ _
  have hmon := hother .mon (by simp)
  have hown := hother (.clt s.brk) (by simp)
  refine bind_eq_ok.mpr ⟨(), s₁, rfl, bind_eq_ok.mpr ⟨(), s₂, hinit, get_bind_eq_ok.mpr ?_⟩⟩
  rw [own_ttyInit (by rwa [hown]), hmon, hown]
  rfl

/-- Both ttys of the new command have been created. -/
def ownAdded (name cmdstr ttylink : CStr) (s : Own) : Own :=
  { ownOpened (.cmd s.brk) (ownOpened (.clt s.brk) (ownFilled name cmdstr ttylink s)) with
    cmds := s.cmds ++ [s.brk] }

lemma own_GBLSAddCmd {name cmdstr ttylink : CStr} (hclt : (s.ttys (.clt s.brk)).link = none)
    (hcmd : (s.ttys (.cmd s.brk)).link = none) : Own.GBLSAddCmd (fun _ => true) name cmdstr ttylink true true s =
      .ok (some s.brk) (ownAdded name cmdstr ttylink s) := by
  unfold Own.GBLSAddCmd
  rw [bind_of_ok (show Own.mallocCmd s = .ok s.brk { s with brk := s.brk + 1 } from rfl)]
  rw [bind_of_ok (own_cmdInit hclt hcmd)]
  have hclt' : ((ownFilled name cmdstr ttylink s).ttys (.clt s.brk)).dfd = none := by
    simp [ownFilled, initTty]
  have hcmd' : ((ownOpened (.clt s.brk) (ownFilled name cmdstr ttylink s)).ttys (.cmd s.brk)).dfd = none := by
    simp [ownOpened, ownFilled, initTty]
  have hcreate : Own.cmdCreate s.brk true true (ownFilled name cmdstr ttylink s) =
      .ok true (ownOpened (.cmd s.brk) (ownOpened (.clt s.brk) (ownFilled name cmdstr ttylink s))) :=
    (bind_of_ok (own_ttyCreate hclt')).trans (own_ttyCreate hcmd')
  rw [bind_of_ok hcreate]
  rfl

/-- The client tty of the new command could not be created. -/
def ownRefused (s : Own) : Own :=
  givenBack [.cmd s.brk] (cmdCleaned s.brk (ttyCleaned (.clt s.brk) (ownFilled [] [] [] s)))

lemma own_GBLSAddCmd_refused (hclt : (s.ttys (.clt s.brk)).link = none)
    (hcmd : (s.ttys (.cmd s.brk)).link = none) :
    Own.GBLSAddCmd (fun _ => true) [] [] [] false false s = .ok none (ownRefused s) := by
  unfold Own.GBLSAddCmd
  rw [bind_of_ok (show Own.mallocCmd s = .ok s.brk { s with brk := s.brk + 1 } from rfl)]
  rw [bind_of_ok (own_cmdInit hclt hcmd)]
  have hclt' : ((ownFilled [] [] [] s).ttys (.clt s.brk)).dfd = none := by simp [ownFilled, initTty]
  have hcreate : Own.ttyCreate (.clt s.brk) false (ownFilled [] [] [] s) =
      .ok false (ttyCleaned (.clt s.brk) (ownFilled [] [] [] s)) := by
    refine get_bind_eq_ok.mpr (require_bind_eq_ok.mpr ⟨hclt', ?_⟩)
    rw [if_neg (by simp), bind_of_ok (ttyCleanup_eq _ _)]
    rfl
  have hcmd' : Own.cmdCreate s.brk false false (ownFilled [] [] [] s) =
      .ok false (ttyCleaned (.clt s.brk) (ownFilled [] [] [] s)) := bind_of_ok hcreate
  rw [bind_of_ok hcmd']
  refine (bind_of_ok (cmdCleanup_eq fun _ => .inr rfl)).trans ?_
  rfl

/-! ## Both models add -/

lemma sameHeld_opened (h : ∀ r, SameHeld (s.ttys r) (w.ttys r)) (r r' : TtyRef) :
    SameHeld ((ownOpened r s).ttys r') ((createdTty sys r w).ttys r') := by
  by_cases hne : r' = r
  · subst hne
    have htty : (ownOpened r' s).ttys r' = openTty (s.ttys r') s.nextFd := Function.update_self _ _ _
    rw [htty, createdTty_tty]
    exact (h r').opened (show _ = ttyStatic (openTty (w.ttys r') w.kern.nextFd) from rfl)
  · have htty : (ownOpened r s).ttys r' = s.ttys r' := Function.update_of_ne hne _ _
    rw [htty, createdTty_ttys_of_ne hne]
    exact h r'

lemma snprintfPath_ne_nil {link suffix : CStr} (h : suffix ≠ []) : snprintfPath link suffix ≠ [] := by
  rw [snprintfPath, Ne, List.take_eq_nil_iff, List.append_eq_nil_iff, not_or]
  exact ⟨by decide, fun hnil => h hnil.2⟩

/-- The record of a client or broadcast tty that has been filled in, next to that of the monitor. -/
lemma Tracks.sameHeld_linked (h : Tracks w s) (hown : s.fs.mntpt ≠ none) (hmnt : w.gbls.fsmntpt ≠ none)
    (this this' : Tty) {link link' : CStr} (hlink : link = [] ↔ link' = []) : SameHeld
      (initTty this (some link) (some (link ++ bytes ".mon")) (s.ttys .mon).link (some (link ++ bytes ".fs"))
        s.fs.mntpt)
      (initTty this' (some link') (some (snprintfPath link' (bytes ".mon"))) (w.ttys .mon).link
        (some (snprintfPath link' (bytes ".fs"))) w.gbls.fsmntpt) := by
  have hname (suffix : CStr) (hs : suffix ≠ []) : link ++ suffix ≠ [] ∧ snprintfPath link' suffix ≠ [] :=
    ⟨List.append_ne_nil_of_right_ne_nil _ hs, snprintfPath_ne_nil hs⟩
  exact sameHeld_initTty _ _ hlink (hname _ (by decide)) (hname _ (by decide)) ((h.ttys .mon).strs .link)
    (iff_of_false hown hmnt)

variable {spec : CmdSpec}

lemma sameHeld_filled (h : Tracks w s) (hr : AddReady w) (hmntpt : s.fs.mntpt ≠ none) (name cmdstr : CStr)
    (r : TtyRef) :
    SameHeld ((ownFilled name cmdstr (clientLink w.gbls spec) s).ttys r) ((filledIn spec w).ttys r) := by
  have hclt : (filledIn spec w).ttys = Function.update
      (Function.update w.ttys (.cmd w.brk) (initTty (w.ttys (.cmd w.brk)) none none none none none))
      (.clt w.brk) (initTty (w.ttys (.clt w.brk)) (some (clientLink w.gbls spec))
        (some (snprintfPath (clientLink w.gbls spec) (bytes ".mon"))) (w.ttys .mon).link
        (some (snprintfPath (clientLink w.gbls spec) (bytes ".fs"))) w.gbls.fsmntpt) := by
    simp [filledIn, World.updTty, World.updCmd, initTty]
  rw [hclt]
  simp only [ownFilled, h.brk]
  refine sameHeld_update (sameHeld_update h.ttys (sameHeld_initTty_null _ _) _) ?_ _ _
  exact h.sameHeld_linked hmntpt hr.mounted _ _ .rfl

lemma Tracks.added (h : Tracks w s) (hr : AddReady w) (hmntpt : s.fs.mntpt ≠ none)
    (o : Option CmdId) :
    Tracks (listed sys spec w o) (ownAdded spec.name spec.cmdline (clientLink w.gbls spec) s) := by
  refine ⟨?_, ?_, ?_, fun r => ?_, fun j hj => ?_⟩
  · rw [listed_gbls]
    simp only [ownAdded, h.cmds, h.brk]
  · rw [listed_brk, ← h.brk]
    rfl
  · rw [listed_gbls]
    exact h.bcstflg
  · have hclt (r : TtyRef) : SameHeld
        ((ownOpened (.clt s.brk) (ownFilled spec.name spec.cmdline (clientLink w.gbls spec) s)).ttys r)
        ((createdTty sys (.clt s.brk) (filledIn spec w)).ttys r) :=
      sameHeld_opened (sameHeld_filled h hr hmntpt spec.name spec.cmdline) _ r
    have hcmd : SameHeld _ ((createdTty sys (.cmd s.brk) _).ttys r) := sameHeld_opened hclt (.cmd s.brk) r
    rw [h.brk] at hcmd
    simp only [ownAdded, h.brk]
    exact hcmd
  · rw [listed_gbls, List.mem_append, List.mem_singleton] at hj
    have hown : (ownAdded spec.name spec.cmdline (clientLink w.gbls spec) s).heap j =
        Function.update s.heap s.brk
          { cmdstr := some spec.cmdline, bcstprefix := some (spec.name ++ bytes ": ") } j := rfl
    rw [listed_heap, hown, h.brk]
    by_cases hne : j = w.brk
    · subst hne
      rw [Function.update_self]
      constructor <;> simp [filledIn, World.updTty, World.updCmd]
    · rw [Function.update_of_ne hne]
      have hold : (filledIn spec w).heap j = w.heap j := Function.update_of_ne hne _ _
      rw [hold]
      exact h.children j (hj.resolve_right hne)

/-- The ttys of a command that could not be created are closed again. -/
lemma GBLSAddNew_refused (h : GBLSAddNew sys spec w = .ok none w') :
    ttyStatic (w'.ttys (.cmd w.brk)) = ttyStatic {} ∧ ttyStatic (w'.ttys (.clt w.brk)) = ttyStatic {} := by
  obtain ⟨id, w₁, hmalloc, h⟩ := bind_eq_ok.mp h
  obtain ⟨rfl, rfl⟩ := mallocCmd_ok hmalloc
  obtain ⟨_, w₂, -, h⟩ := bind_eq_ok.mp h
  obtain ⟨b, w₃, -, h⟩ := bind_eq_ok.mp h
  cases b with
  | true =>
    obtain ⟨_, w₄, -, h⟩ := bind_eq_ok.mp h
    replace h := modify_bind_eq_ok.mp h
    replace h := modify_bind_eq_ok.mp h
    cases (pure_eq_ok.mp h).1
  | false =>
    obtain ⟨_, w₄, hclean, h⟩ := bind_eq_ok.mp h
    rw [(pure_eq_ok.mp h).2]
    exact cmdCleanup_ttys hclean

lemma Tracks.refused (h : Tracks w s) (ht : TableInv w) (hn : NotAdded w w')
    (hadd : GBLSAddNew sys spec w = .ok none w') : Tracks w' (ownRefused s) := by
  have hm := hn.modifies
  have hcmds : w'.gbls.cmds = w.gbls.cmds := hm.cmds_eq (by simp [cmdParts, ttyParts])
  refine ⟨h.cmds.trans hcmds.symm, ?_, ?_, fun r => ?_, fun j hj => ?_⟩
  · rw [GBLSAddNew_brk hadd, ← h.brk]
    rfl
  · exact h.bcstflg.trans (hm.bcstflg_eq (by simp [cmdParts, ttyParts])).symm
  · have hown : (ownRefused s).ttys (.cmd w.brk) = {} ∧ (ownRefused s).ttys (.clt w.brk) = {} := by
      simp [ownRefused, cmdCleaned, givenBack, h.brk]
    refine h.sameHeld_cleared hm (GBLSAddNew_refused hadd) hown (fun r hr hr' => ⟨?_, ?_⟩) r
    · simp [ownRefused, cmdCleaned, ttyCleaned, ownFilled, givenBack, h.brk, hr, hr']
    · simp [cmdParts, ttyParts, hr, hr']
  · rw [hcmds] at hj
    have hne : j ≠ w.brk := (ht.lt_brk j hj).ne
    have hheap : (ownRefused s).heap j = s.heap j := by
      simp [ownRefused, cmdCleaned, ttyCleaned, ownFilled, givenBack, h.brk, hne]
    rw [hheap]
    exact (h.children j hj).of_proc (hm.same (.proc j) (by simp [cmdParts, ttyParts, hne]))

/-- What an addition does to both, with what it returns. -/
lemma GBLSAddCmd_tracked {cstr : CStr} {res : Option CmdId} (h : Tracks w s) (ht : TableInv w) (hr : AddReady w)
    (hmntpt : s.fs.mntpt ≠ none) (hadd : GBLSAddCmd sys cstr w = .ok res w') :
    (res = none ∧ Tracks w' s) ∨ ∃ name cmdstr ttylink s', (s'.fs = s.fs ∧ s'.str = s.str) ∧ Tracks w' s' ∧
      Own.GBLSAddCmd (fun _ => true) name cmdstr ttylink res.isSome res.isSome s = .ok res s' := by
  have hclt : (s.ttys (.clt s.brk)).link = none := by
    rw [h.brk]
    exact ((h.ttys (.clt w.brk)).strs .link).mpr hr.clt
  have hcmd : (s.ttys (.cmd s.brk)).link = none := by
    rw [h.brk]
    exact ((h.ttys (.cmd w.brk)).strs .link).mpr hr.cmd
  by_cases hf : ∃ f, Admitted sys w cstr f
  · obtain ⟨f, hf⟩ := hf
    rw [hf.eq] at hadd
    have hp : Tracks (parsed f w) s := ⟨h.cmds, h.brk, h.bcstflg, h.ttys, h.children⟩
    have htp : TableInv (parsed f w) := ⟨ht.nodup, ht.lt_brk⟩
    right
    cases res with
    | none =>
      refine ⟨[], [], [], ownRefused s, ⟨rfl, rfl⟩, ?_, own_GBLSAddCmd_refused hclt hcmd⟩
      rcases GBLSAddNew_cases hadd with ⟨-, hn⟩ | ⟨id, hr, -⟩
      · exact hp.refused htp hn hadd
      · cases hr
    | some id =>
      obtain ⟨-, rfl, o, -, rfl⟩ := GBLSAddNew_some (hr.parsed f) hadd
      refine ⟨(f.spec sys w).name, (f.spec sys w).cmdline, clientLink w.gbls (f.spec sys w), _, ⟨?_, ?_⟩,
        hp.added (hr.parsed f) hmntpt o, (own_GBLSAddCmd hclt hcmd).trans ?_⟩
      · rfl
      · rfl
      · rw [h.brk]
        rfl
  · obtain ⟨n, hrun⟩ := GBLSAddCmd_refused (not_exists.mp hf)
    obtain ⟨rfl, rfl⟩ := EStateM.Result.ok.inj (hrun.symm.trans hadd)
    exact .inl ⟨rfl, ⟨h.cmds, h.brk, h.bcstflg, h.ttys, h.children⟩⟩

/-- Both create a tty. -/
lemma Tracks.opened (h : Tracks w s) (r : TtyRef) : Tracks (createdTty sys r w) (ownOpened r s) := by
  have hobjects : objects (createdTty sys r w) = objects w := objects_createdTty
  simp only [objects, Prod.mk.injEq] at hobjects
  obtain ⟨hgbls, hheap, hbrk⟩ := hobjects
  refine ⟨?_, ?_, ?_, fun r' => sameHeld_opened h.ttys r r', fun id hid => ?_⟩
  · rw [hgbls]
    exact h.cmds
  · rw [hbrk]
    exact h.brk
  · rw [hgbls]
    exact h.bcstflg
  · rw [hgbls] at hid
    rw [hheap]
    exact h.children id hid

/-- The end of an addition: the broadcast tty is opened, or the new command started. -/
lemma monAddRegister_tracked {u : Unit} (h : Tracks w s) (hid : id ∈ w.gbls.cmds) (hb : BcstWaits w)
    (hreg : monAddRegister sys id w = .ok u w') :
    ∃ s' s'', (do
        let s ← get
        when (s.bcstflg = false ∧ s.cmds.length > 1) do
          modify fun s => { s with bcstflg := true }
          Own.bcstttyCreate true : Own.OwnAct Unit) s = .ok () s' ∧ OwnSteps s' s'' ∧ s''.fs = s.fs ∧
      Tracks w' s'' := by
  obtain ⟨_, w₁, hevents, hreg⟩ := bind_eq_ok.mp hreg
  have hm : Modifies {.kproc} w w₁ := cmdRegisterttyEvents_modifies id (by simp) hevents
  have h₁ : Tracks w₁ s := h.modifies_kproc hm
  replace hreg := get_bind_eq_ok.mp hreg
  by_cases hnew : w₁.gbls.bcstflg = false ∧ w₁.gbls.cmds.length > 1
  · rw [if_pos hnew] at hreg
    replace hreg := modify_bind_eq_ok.mp hreg
    obtain ⟨_, w₂, hcreate, hreg⟩ := bind_eq_ok.mp hreg
    replace hcreate := get_bind_eq_ok.mp hcreate
    rw [when_pos rfl] at hcreate
    obtain ⟨b, w₃, hcreate, hend⟩ := bind_eq_ok.mp hcreate
    rcases when_eq_ok.mp hend with ⟨-, hexit⟩ | ⟨hb', rfl⟩
    · exact (exit_keeps (R := fun _ _ => False) sys hexit).elim
    rw [Bool.not_eq_false] at hb'
    rw [hb'] at hcreate
    obtain ⟨hdfd, htarget⟩ := (hb.frame hm (by simp) (by simp)) hnew.1
    let w₂ : World := { w₁ with gbls.bcstflg := true }
    have h₂ : Tracks w₂ { s with bcstflg := true } := ⟨h₁.cmds, h₁.brk, rfl, h₁.ttys, h₁.children⟩
    obtain ⟨-, rfl⟩ := (ttyCreate_true_iff (w := w₂) hdfd htarget).mp hcreate
    have hm' : Modifies {.kproc} _ w' := bcstttyRegisterEvents_modifies (by simp) hreg
    have hdfd' : (s.ttys .bcst).dfd = none := ((h₁.ttys .bcst).fds .dfd).mpr hdfd
    refine ⟨ownOpened .bcst { s with bcstflg := true }, _, ?_, .refl, rfl, (h₂.opened .bcst).modifies_kproc hm'⟩
    have hnew' : s.bcstflg = false ∧ s.cmds.length > 1 := by rwa [h₁.bcstflg, h₁.cmds]
    refine get_bind_eq_ok.mpr (when_eq_ok.mpr (.inl ⟨hnew', modify_bind_eq_ok.mpr (get_bind_eq_ok.mpr ?_)⟩))
    rw [when_pos rfl, bind_of_ok (own_ttyCreate (s := { s with bcstflg := true }) hdfd')]
    rfl
  · rw [if_neg hnew] at hreg
    have hown : (do
        let s ← get
        when (s.bcstflg = false ∧ s.cmds.length > 1) do
          modify fun s => { s with bcstflg := true }
          Own.bcstttyCreate true : Own.OwnAct Unit) s = .ok () s := by
      refine get_bind_eq_ok.mpr (when_eq_ok.mpr (.inr ⟨?_, rfl⟩))
      rwa [h₁.bcstflg, h₁.cmds]
    rcases when_eq_ok.mp hreg with ⟨-, hstart⟩ | ⟨-, rfl⟩
    · obtain ⟨b, hstart⟩ := discard_eq_ok.mp hstart
      have hid₁ : id ∈ w₁.gbls.cmds := by rwa [hm.cmds_eq (by simp)]
      rcases cmdStart_cases hstart with ⟨-, -, rfl⟩ | ⟨-, hf⟩
      · exact ⟨s, s, hown, .refl, rfl, h₁⟩
      · obtain ⟨s', hsteps, hfs, h'⟩ := Action.tracked (.start id _ hid₁ hf) h₁
        exact ⟨s, s', hown, hsteps, hfs, h'⟩
    · exact ⟨s, s, hown, .refl, rfl, h₁⟩

lemma monAdd_tracked {cstr : CStr} (h : Tracks w s) (ht : TableInv w) (hl : LoopReady w)
    (hmntpt : s.fs.mntpt ≠ none) (hadd : monAdd sys (some cstr) w = .ok () w') :
    ∃ s', OwnSteps s s' ∧ s'.fs = s.fs ∧ Tracks w' s' := by
  rw [monAdd_some] at hadd
  obtain ⟨res, w₁, hadd, hreg⟩ := bind_eq_ok.mp hadd
  have hcases := GBLSAddCmd_cases hadd
  rcases GBLSAddCmd_tracked h ht hl.addReady hmntpt hadd with
    ⟨rfl, h₁⟩ | ⟨name, cmdstr, ttylink, s₁, ⟨hfs₁, -⟩, h₁, hown⟩
  · rw [(pure_eq_ok.mp hreg).2]
    exact ⟨s, .refl, rfl, h₁⟩
  · cases res with
    | none =>
      rw [(pure_eq_ok.mp hreg).2]
      have hrun : OwnRuns s (.added name cmdstr ttylink false false true) s₁ :=
        get_bind_eq_ok.mpr (bind_eq_ok.mpr ⟨none, s₁, hown, rfl⟩)
      exact ⟨s₁, hrun.steps, hfs₁, h₁⟩
    | some id =>
      have hwaits : BcstWaits w₁ ∧ id ∈ w₁.gbls.cmds := by
        rcases hcases with ⟨hr, -⟩ | ⟨id', spec, hr, ha⟩
        · cases hr
        · obtain rfl := Option.some.inj hr
          refine ⟨hl.bcst.frame ha.modifies ?_ ?_, by simp [ha.table]⟩
          · simp [addParts, cmdParts, ttyParts]
          · simp [addParts, cmdParts, ttyParts]
      obtain ⟨s₂, s₃, hrest, hsteps, hfs, h'⟩ := monAddRegister_tracked h₁ hwaits.2 hwaits.1 hreg
      have hrun : OwnRuns s (.added name cmdstr ttylink true true true) s₂ := by
        refine get_bind_eq_ok.mpr (bind_eq_ok.mpr ⟨some id, s₁, hown, ?_⟩)
        rw [when_pos (by simp)]
        exact hrest
      exact ⟨s₃, hrun.steps.trans hsteps, hfs.trans hfs₁, h'⟩

/-! ## Handlers -/

/-- A handler that returns is a sequence of events of the ownership model. -/
theorem hdlr_tracked {x : Answer} {source : Source} (h : Tracks w s) (ht : TableInv w) (hl : LoopReady w)
    (hmntpt : s.fs.mntpt ≠ none) (hrun : hdlr sys source x w = .ok () w') :
    ∃ s', OwnSteps s s' ∧ s'.fs = s.fs ∧ Tracks w' s' := by
  by_cases hadd : ∃ line cstr, source = .dom .mon ∧ x.line = some line ∧ monLookup line = some (.monAdd, some cstr)
  · obtain ⟨line, cstr, rfl, hx, hlook⟩ := hadd
    simp only [hdlr, hx, monProcess, hlook, monRun] at hrun
    exact monAdd_tracked h ht hl hmntpt (require_bind_eq_ok.mp hrun).2
  · have hacts : Acts sys (fun _ op => op.ofAdd = false) w w' := by
      refine (hdlr_cases hrun).acts ⟨fun line cstr hs hx hlook => ?_, fun line cstr _ _ _ hs hx hlook => ?_,
        fun _ _ _ => rfl, fun _ _ => rfl, fun _ _ _ _ _ _ => rfl⟩
      · exact (hadd ⟨line, cstr, hs, hx, hlook⟩).elim
      · exact (hadd ⟨line, cstr, hs, hx, hlook⟩).elim
    refine hacts.invariant (P := fun w => ∃ s', OwnSteps s s' ∧ s'.fs = s.fs ∧ Tracks w s') ?_ ⟨s, .refl, rfl, h⟩
    rintro w₁ w₂ ⟨s₁, hsteps, hfs, h₁⟩ ha
    obtain ⟨s₂, hsteps', hfs', h₂⟩ := ha.tracked h₁
    exact ⟨s₂, hsteps.trans hsteps', hfs'.trans hfs, h₂⟩


/-! ## The way up -/

/-- The options as the ownership model gets them, with what it is told of the commands. -/
def ownOptions (o : Options) (specs : List (CStr × CStr × CStr)) : Own.OwnOptions where
  logdir := o.logdir
  readystr := o.readystr
  stopstr := o.stopstr
  bcstttylink := o.bcstttylink
  monttylinkdir := o.monttylinkdir
  fsmntptdir := o.fsmntptdir
  keeplog := o.keeplog
  daemonize := o.daemonize
  specs := specs
  cwd := o.cwd

/-- Before the broadcast tty is set up both have the link that the options give it. -/
structure TracksLink (w : World) (s : Own) : Prop where
  tracks : Tracks w s
  link : s.str .bcstttylink = w.gbls.bcstttylink

lemma logInit_bcst {u : Unit} (h : logInit sys w = .ok u w') :
    w'.gbls.bcstflg = w.gbls.bcstflg ∧ w'.gbls.bcstttylink = w.gbls.bcstttylink := by
  obtain ⟨_, w₁, hcall, h⟩ := bind_eq_ok.mp (get_bind_eq_ok.mp h)
  have hcalled : w₁.gbls = w.gbls := by
    rcases when_eq_ok.mp hcall with ⟨-, hcall⟩ | ⟨-, rfl⟩
    · obtain ⟨k, w₂, hk, hreq⟩ := bind_eq_ok.mp hcall
      obtain ⟨-, rfl⟩ := call_ok hk
      rw [(require_eq_ok.mp hreq).2]
      rfl
    · rfl
  rcases when_eq_ok.mp h with ⟨-, h⟩ | ⟨-, rfl⟩
  · obtain ⟨opened, w₂, hopen, hend⟩ := bind_eq_ok.mp (modify_bind_eq_ok.mp h)
    rcases when_eq_ok.mp hend with ⟨-, hexit⟩ | ⟨hopened, rfl⟩
    · exact (throw_eq_ok.mp hexit).elim
    · rcases logopen_cases hopen with ⟨rfl, -⟩ | ⟨-, -, hgbls⟩
      · exact (hopened rfl).elim
      · have hpath (g : Globals) : g.setlogpath.bcstflg = g.bcstflg ∧
            g.setlogpath.bcstttylink = g.bcstttylink := by
          unfold Globals.setlogpath
          dsimp only
          split <;> exact ⟨rfl, rfl⟩
        rw [hgbls]
        exact ⟨(hpath _).1.trans (congrArg Globals.bcstflg hcalled :),
          (hpath _).2.trans (congrArg Globals.bcstttylink hcalled :)⟩
  · rw [hcalled]
    exact ⟨rfl, rfl⟩

lemma boot_tracked {o : Options} {specs : List (CStr × CStr × CStr)} {w₁ : World} {u v : Unit}
    (hlen : specs.length = o.specs.length) (hargs : o.specs.forM (argsParseSpec sys) (boot o) = .ok u w₁)
    (hlog : logInit sys w₁ = .ok v w) : TracksLink w (Own.boot (ownOptions o specs)) := by
  have hm₁ : Modifies ∅ (boot o) w₁ := Keeps.forM (argsParseSpec_modifies sys) _ hargs
  have hm₂ : Modifies {.flags, .names} w₁ w := logInit_modifies sys (by simp) (by simp) hlog
  have hm : Modifies {.flags, .names} (boot o) w := trans_of (Modifies _) (hm₁.mono (by simp)) hm₂
  obtain ⟨hflg, hlink⟩ := logInit_bcst hlog
  refine ⟨⟨(hm.cmds_eq (by simp)).symm, (hm.brk_eq (by simp)).symm, ?_, fun r => ?_, fun id hid => ?_⟩, ?_⟩
  · rw [hflg, hm₁.bcstflg_eq (by simp)]
    simp [Own.boot, ownOptions, boot, hlen]
  · exact sameHeld_empty.of_static (hm.same (.tty r) (by simp))
  · rw [hm.cmds_eq (by simp)] at hid
    cases hid
  · rw [hlink]
    exact (congrArg Globals.bcstttylink (hm₁.flags_eq (by simp)) :).symm

/-- The record of a tty is filled in. -/
lemma Tracks.inited (h : Tracks w s) {this : Tty} {f : Tty → Tty} (hr : SameHeld this (f (w.ttys r))) :
    Tracks (w.updTty r f) { s with ttys := Function.update s.ttys r this } :=
  ⟨h.cmds, h.brk, h.bcstflg, sameHeld_update h.ttys hr r, h.children⟩

/-- `defaultStr` -/
def ownDefaulted (f : GblsStr) (path : CStr) (s : Own) : Own :=
  if s.str f = none then { s with str := Function.update s.str f (some path) } else s

lemma own_defaultStr (f : GblsStr) (path : CStr) (s : Own) :
    Own.defaultStr f path s = .ok () (ownDefaulted f path s) := by
  unfold ownDefaulted
  by_cases hnone : s.str f = none
  · rw [if_pos hnone]
    exact get_bind_eq_ok.mpr (when_eq_ok.mpr (.inl ⟨hnone, rfl⟩))
  · rw [if_neg hnone]
    exact get_bind_eq_ok.mpr (when_eq_ok.mpr (.inr ⟨hnone, rfl⟩))

lemma ownDefaulted_str {f g : GblsStr} (path : CStr) (hg : g ≠ f) :
    (ownDefaulted f path s).str g = s.str g := by
  unfold ownDefaulted
  split
  · exact Function.update_of_ne hg _ _
  · rfl

lemma ownDefaulted_self (f : GblsStr) (path : CStr) :
    (ownDefaulted f path s).str f = some ((s.str f).getD path) := by
  unfold ownDefaulted
  cases hf : s.str f with
  | none => simp
  | some l => simp [hf]

lemma ownDefaulted_fs (f : GblsStr) (path : CStr) : (ownDefaulted f path s).fs = s.fs := by
  unfold ownDefaulted
  split <;> rfl

lemma Tracks.defaulted (h : Tracks w s) (f : GblsStr) (path : CStr) : Tracks w (ownDefaulted f path s) := by
  unfold ownDefaulted
  split
  · exact ⟨h.cmds, h.brk, h.bcstflg, h.ttys, h.children⟩
  · exact h

lemma TracksLink.defaulted (h : TracksLink w s) (f : GblsStr) (path : CStr) (hf : .bcstttylink ≠ f) :
    TracksLink w (ownDefaulted f path s) :=
  ⟨h.tracks.defaulted f path, (ownDefaulted_str path hf).trans h.link⟩

/-- The monitor tty is there. -/
lemma monttyCreate_tracked {u : Unit} (h : TracksLink w s) (hmon : monttyCreate sys w = .ok u w') : ∃ s',
    (do Own.monInit true; Own.monttyCreate true true : Own.OwnAct Unit) s = .ok () s' ∧ TracksLink w' s' := by
  obtain ⟨link, w₁, hlink, hinit, hcreate⟩ := monttyCreate_ok sys hmon
  obtain ⟨hnone, rfl⟩ := ttyInit_ok hinit
  obtain ⟨-, rfl⟩ := (ttyCreate_true_iff (by simp [World.updTty]) (by simp [Targeted, World.updTty])).mp hcreate
  let path := ((s.str .monttylinkdir).getD [] ++ bytes "/.mon")
  let s₁ : Own :=
    { s with ttys := Function.update s.ttys .mon (initTty (s.ttys .mon) (some path) none none none none) }
  have hrun : Own.monInit true s = .ok () s₁ := own_ttyInit (((h.tracks.ttys .mon).strs .link).mpr hnone)
  have hdfd : (s₁.ttys .mon).dfd = none := by simp [s₁, initTty]
  have hpath : path = [] ↔ link = [] := iff_of_false (by simp [path, bytes]) hlink
  have h₁ : Tracks (createdTty sys .mon (w.updTty .mon fun this => initTty this (some link) none none none none))
      (ownOpened .mon s₁) :=
    (h.tracks.inited (sameHeld_initTty_single (s.ttys .mon) (w.ttys .mon) hpath)).opened .mon
  refine ⟨{ ownOpened .mon s₁ with fileptr := ((ownOpened .mon s₁).ttys .mon).dfd }, ?_,
    ⟨⟨h₁.cmds, h₁.brk, h₁.bcstflg, h₁.ttys, h₁.children⟩, ?_⟩⟩
  · rw [bind_of_ok hrun, Own.monttyCreate, bind_of_ok (own_ttyCreate hdfd)]
    rfl
  · have hgbls : (createdTty sys .mon (w.updTty .mon fun this => initTty this (some link) none none none
        none)).gbls = w.gbls := (Prod.mk.inj objects_createdTty).1
    exact h.link.trans (congrArg Globals.bcstttylink hgbls).symm

/-- The file system is mounted. -/
lemma fsCreate_tracked {u : Unit} (h : TracksLink w s) (hfs : fsCreate sys w = .ok u w') : ∃ s',
    (do Own.fsInit true; Own.fsCreate true true : Own.OwnAct Unit) s = .ok () s' ∧ TracksLink w' s' ∧
      s'.fs.mntpt ≠ none := by
  obtain ⟨-, rfl⟩ := fsCreate_mounts hfs
  have hcreate (mntpt : CStr) : ∃ fs, Fs.fsCreate true true (some Fs.yarfsCreate) (Fs.fsInit mntpt) = .ok true fs ∧
      fs.mntpt = some mntpt := ⟨_, rfl, rfl⟩
  let mntpt := (s.str .fsmntptdir).getD [] ++ bytes "/.fs"
  obtain ⟨fs, hrun, hmntpt⟩ := hcreate mntpt
  let s₁ : Own := { s with fs := Fs.fsInit mntpt }
  have hinit : Own.fsInit true s = .ok () s₁ := rfl
  have hown : Own.fsCreate true true s₁ = .ok () _ := (bind_of_ok (onFs_eq hrun)).trans rfl
  refine ⟨_, (bind_of_ok hinit).trans hown, ⟨⟨h.tracks.cmds, h.tracks.brk, h.tracks.bcstflg, h.tracks.ttys,
    h.tracks.children⟩, h.link⟩, ?_⟩
  simp [hmntpt]

/-- The commands of the options are added. -/
lemma mainAddCmds_tracked {specs : List CStr} {u : Unit} (h : TracksLink w s) (ht : TableInv w)
    (hw : FreshTtys w ∧ w.gbls.fsmntpt ≠ none) (hmntpt : s.fs.mntpt ≠ none)
    (hadds : specs.forM (mainAddCmd sys) w = .ok u w') :
    ∃ (l : List (CStr × CStr × CStr)) (s' : Own), l.length = specs.length ∧
      l.forM (Own.mainAddCmd (fun _ => true) {}) s = .ok () s' ∧ TracksLink w' s' ∧ s'.fs.mntpt ≠ none ∧
      w'.gbls.fsmntpt ≠ none := by
  induction specs generalizing w s with
  | nil =>
    obtain ⟨-, rfl⟩ := pure_eq_ok.mp hadds
    exact ⟨[], s, rfl, rfl, h, hmntpt, hw.2⟩
  | cons spec specs ih =>
    obtain ⟨_, w₁, hone, hadds⟩ := forM_cons_eq_ok.mp hadds
    have hw₁ := mainAddCmd_loopReady hone hw
    obtain ⟨res, w₂, hadd, hreq⟩ := bind_eq_ok.mp hone
    obtain ⟨hsome, rfl⟩ := require_eq_ok.mp hreq
    have hr : AddReady w := ⟨(hw.1 _ le_rfl).1, (hw.1 _ le_rfl).2, hw.2⟩
    obtain ⟨id, rfl⟩ := Option.isSome_iff_exists.mp hsome
    rcases GBLSAddCmd_tracked h.tracks ht hr hmntpt hadd with
      ⟨hnone, -⟩ | ⟨name, cmdstr, ttylink, s₁, ⟨hfs, hstr⟩, h₁, hown⟩
    · cases hnone
    have hlink : w₁.gbls.bcstttylink = w.gbls.bcstttylink := by
      rcases GBLSAddCmd_cases hadd with ⟨hr, -⟩ | ⟨id', spec', -, ha⟩
      · cases hr
      · exact (congrArg Globals.bcstttylink (ha.modifies.flags_eq (by simp [addParts, cmdParts, ttyParts])) :)
    obtain ⟨l, s', hlen, hl, h', hend⟩ := ih ⟨h₁, by rw [hstr, hlink, h.link]⟩ (GBLSAddCmd_tableInv ht hadd) hw₁
      (by rwa [hfs]) hadds
    refine ⟨(name, cmdstr, ttylink) :: l, s', by simp [hlen], forM_cons_eq_ok.mpr ⟨(), s₁, ?_, hl⟩, h', hend⟩
    exact bind_eq_ok.mpr ⟨some id, s₁, hown, rfl⟩

/-- The broadcast tty is there, if there is to be one. -/
lemma bcstttyInit_tracked (cwd : CStr) {u : Unit} (h : TracksLink w s) (hmntpt : s.fs.mntpt ≠ none)
    (hmnt : w.gbls.fsmntpt ≠ none) (hbcst : bcstttyInit sys w = .ok u w') : ∃ s', (do
        Own.defaultStr .bcstttylink (cwd ++ bytes "/bcsttty")
        Own.ttyInitLinked .bcst (((← get).str .bcstttylink).getD [])
        Own.bcstttyCreate true : Own.OwnAct Unit) s = .ok () s' ∧ Tracks w' s' ∧ s'.fs.mntpt ≠ none := by
  obtain ⟨link, w₁, hlink, hinit, hrest⟩ := bcstttyInit_ok sys hbcst
  obtain ⟨hnone, rfl⟩ := ttyInit_ok (get_bind_eq_ok.mp hinit)
  let s₀ := ownDefaulted .bcstttylink (cwd ++ bytes "/bcsttty") s
  have h₀ : Tracks { w with gbls.bcstttylink := some link } s₀ := by
    have hd := h.tracks.defaulted .bcstttylink (cwd ++ bytes "/bcsttty")
    exact ⟨hd.cmds, hd.brk, hd.bcstflg, hd.ttys, hd.children⟩
  have hs₀ : s₀.fs.mntpt ≠ none := by rwa [ownDefaulted_fs]
  let path := (s₀.str .bcstttylink).getD []
  have hpath : path = [] ↔ link = [] := by
    simp only [path, s₀, ownDefaulted_self, h.link, hlink]
    cases w.gbls.bcstttylink with
    | none => exact iff_of_false (by simp [bytes]) (by simp [cwdPrefix, bytes])
    | some l => rfl
  let s₁ : Own :=
    { s₀ with ttys := Function.update s₀.ttys .bcst (initTty (s₀.ttys .bcst) (some path)
        (some (path ++ bytes ".mon")) (s₀.ttys .mon).link (some (path ++ bytes ".fs")) s₀.fs.mntpt) }
  have hown : Own.ttyInitLinked .bcst path s₀ = .ok () s₁ :=
    get_bind_eq_ok.mpr (own_ttyInit (((h₀.ttys .bcst).strs .link).mpr hnone))
  have h₁ : Tracks (World.updTty { w with gbls.bcstttylink := some link } .bcst fun this =>
      initTty this (some link) (some (snprintfPath link (bytes ".mon"))) (w.ttys .mon).link
        (some (snprintfPath link (bytes ".fs"))) w.gbls.fsmntpt) s₁ :=
    h₀.inited (h₀.sameHeld_linked hs₀ hmnt (s₀.ttys .bcst) (w.ttys .bcst) hpath)
  have hrun {s' : Own} (hcreate : Own.bcstttyCreate true s₁ = .ok () s') : (do
      Own.defaultStr .bcstttylink (cwd ++ bytes "/bcsttty")
      Own.ttyInitLinked .bcst (((← get).str .bcstttylink).getD [])
      Own.bcstttyCreate true : Own.OwnAct Unit) s = .ok () s' := by
    rw [bind_of_ok (own_defaultStr _ _ s)]
    exact get_bind_eq_ok.mpr ((bind_of_ok hown).trans hcreate)
  rcases hrest with ⟨hoff, rfl⟩ | ⟨hon, hcreate⟩
  · have hflg : s₁.bcstflg = false := h₁.bcstflg.trans hoff
    refine ⟨s₁, hrun (get_bind_eq_ok.mpr (when_eq_ok.mpr (.inr ⟨?_, rfl⟩))), h₁, hs₀⟩
    rw [hflg]
    exact Bool.false_ne_true
  · obtain ⟨-, rfl⟩ :=
      (ttyCreate_true_iff (by simp [World.updTty]) (by simp [Targeted, World.updTty, hmnt])).mp hcreate
    have hdfd : (s₁.ttys .bcst).dfd = none := by simp [s₁, initTty]
    refine ⟨ownOpened .bcst s₁, hrun (get_bind_eq_ok.mpr (when_eq_ok.mpr (.inl ⟨?_, ?_⟩))), h₁.opened .bcst, hs₀⟩
    · exact h₁.bcstflg.trans hon
    · rw [bind_of_ok (own_ttyCreate hdfd)]
      rfl

/-- A start of yar is a start of the ownership model. -/
theorem started_tracked {o : Options} (h : Started sys o w) :
    ∃ s, Own.OwnStarted s ∧ s.fs.mntpt ≠ none ∧ Tracks w s := by
  obtain ⟨_, w₁, hargs, h⟩ := bind_eq_ok.mp h
  obtain ⟨_, w₂, hlog, h⟩ := bind_eq_ok.mp h
  obtain ⟨_, w₃, hmon, h⟩ := bind_eq_ok.mp h
  obtain ⟨_, w₄, hfs, h⟩ := bind_eq_ok.mp h
  obtain ⟨_, w₅, hadds, h⟩ := bind_eq_ok.mp h
  obtain ⟨_, w₆, hbcst, hreg⟩ := bind_eq_ok.mp h
  have hm₁ : Modifies ∅ (boot o) w₁ := Keeps.forM (argsParseSpec_modifies sys) _ hargs
  have hm₂ : Modifies {.flags, .names} w₁ w₂ := logInit_modifies sys (by simp) (by simp) hlog
  have hm₃ : Modifies (ttyParts .mon) w₂ w₃ := monttyCreate_modifies sys subset_rfl hmon
  have hm₄ : Modifies {.flags, .names} w₃ w₄ := fsCreate_modifies sys (by simp) (by simp) hfs
  have hm : Modifies ({.flags, .names} ∪ ttyParts .mon) (boot o) w₄ :=
    trans_of (Modifies _) (trans_of (Modifies _) (hm₁.mono (by simp)) (hm₂.mono (by simp)))
      (trans_of (Modifies _) (hm₃.mono (by simp)) (hm₄.mono (by simp)))
  have hcmds : w₄.gbls.cmds = [] := hm.cmds_eq (by simp [ttyParts])
  have ht : TableInv w₄ := ⟨by simp [hcmds], by simp [hcmds]⟩
  have hfresh₀ : FreshTtys (boot o) := fun _ _ => ⟨rfl, rfl⟩
  have hfresh : FreshTtys w₄ := hfresh₀.frame hm (hm.brk_eq (by simp [ttyParts])).ge (by simp [ttyParts])
  -- only the number of commands is told at the boot, by which the broadcast tty is turned on
  let specs₀ := o.specs.map fun _ => (([], [], []) : CStr × CStr × CStr)
  have hboot : TracksLink w₂ (Own.boot (ownOptions o specs₀)) := boot_tracked (by simp [specs₀]) hargs hlog
  have h₀ := hboot.defaulted .monttylinkdir o.cwd (by simp)
  obtain ⟨s₁, hown₁, h₁⟩ := monttyCreate_tracked h₀ hmon
  have h₁' := h₁.defaulted .fsmntptdir o.cwd (by simp)
  obtain ⟨s₂, hown₂, h₂, hmntpt⟩ := fsCreate_tracked h₁' hfs
  obtain ⟨l, s₃, hlen, hown₃, h₃, hmntpt₃, hmnt⟩ :=
    mainAddCmds_tracked h₂ ht ⟨hfresh, fsCreate_mounted hfs⟩ hmntpt hadds
  obtain ⟨s₄, hown₄, h₄, hmntpt₄⟩ := bcstttyInit_tracked o.cwd h₃ hmntpt₃ hmnt hbcst
  have hm₇ : Modifies {.kproc} w₆ w := theLoopRegister_modifies (by simp) hreg
  refine ⟨s₄, ⟨fun _ => true, ownOptions o l, {}, ?_⟩, hmntpt₄, h₄.modifies_kproc hm₇⟩
  have hmany : decide (l.length > 1) = decide (specs₀.length > 1) := by simp [specs₀, hlen]
  have hsame : Own.boot (ownOptions o l) = Own.boot (ownOptions o specs₀) :=
    congrArg (fun b => { Own.boot (ownOptions o specs₀) with bcstflg := o.bcstttylink.isSome || b }) hmany
  obtain ⟨_, t₁, hinit₁, hcreate₁⟩ := bind_eq_ok.mp hown₁
  obtain ⟨_, t₂, hinit₂, hcreate₂⟩ := bind_eq_ok.mp hown₂
  rw [hsame]
  refine (bind_of_ok (own_defaultStr _ _ _)).trans ?_
  refine (bind_of_ok hinit₁).trans ((bind_of_ok hcreate₁).trans ?_)
  refine (bind_of_ok (own_defaultStr _ _ _)).trans ?_
  refine (bind_of_ok hinit₂).trans ((bind_of_ok hcreate₂).trans ?_)
  exact (bind_of_ok hown₃).trans hown₄

lemma OwnSteps.reachable (h : OwnSteps s s') (hs : Own.OwnReachable s) : Own.OwnReachable s' := by
  induction h with
  | refl => exact hs
  | tail _ hone ih =>
    obtain ⟨e, hone⟩ := hone
    exact .next ih trivial hone

lemma reachable_mounted {ok : World → Event → Prop} (h : Reachable sys ok w) :
    ∃ s, Own.OwnReachable s ∧ s.fs.mntpt ≠ none ∧ Tracks w s := by
  obtain ⟨o, h⟩ := h
  refine Transition.Reach.invariant (P := fun w => ∃ s, Own.OwnReachable s ∧ s.fs.mntpt ≠ none ∧ Tracks w s)
    (fun w hw => ?_) (fun w e w' hr hw _ hstep => ?_) h
  · obtain ⟨s, hs, hmntpt, ht⟩ := started_tracked hw
    exact ⟨s, .start hs, hmntpt, ht⟩
  · obtain ⟨s, hs, hmntpt, ht⟩ := hw
    cases e with
    | env e =>
      obtain rfl := modify_eq_ok.mp hstep
      have hm := apply_modifies w e
      have hflags : .flags ∉ envParts e := by cases e <;> simp [envParts]
      refine ⟨s, hs, hmntpt, ht.kept hm ?_ ?_ (hm.bcstflg_eq hflags) (fun r => ?_) fun id => ?_⟩
      all_goals cases e <;> simp [envParts]
    | hdlr source x =>
      obtain ⟨s', hsteps, hfs, ht'⟩ :=
        hdlr_tracked ht (reachable_tableInv ⟨o, hr⟩) (reachable_loopReady ⟨o, hr⟩) hmntpt hstep
      exact ⟨s', hsteps.reachable hs, by rwa [hfs], ht'⟩

/-- What yar owns in the loop is what is owned in some run of the ownership model, and the two runs of the
cleanup give it back there. -/
theorem reachable_tracked {ok : World → Event → Prop} (h : Reachable sys ok w) :
    ∃ s, Own.OwnReachable s ∧ Tracks w s ∧ CleanedTwice (fun _ => true) s := by
  obtain ⟨s, hs, -, ht⟩ := reachable_mounted h
  exact ⟨s, hs, ht, cleanedTwice_of_sound (sound_of_reachable hs) fun _ _ _ => .inr rfl⟩

end Yar.Proofs
