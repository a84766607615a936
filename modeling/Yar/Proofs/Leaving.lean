import Yar.Proofs.Cleanup

/-!
# The states `cleanup` is called in

The commands in the table have both ttys, with their entries, and a process identifier with the
descriptor that goes with it; the file system is there as a whole or not at all. A tty that has been
initialised only is never seen by `cleanup`: its creation comes next, and clears it if it fails.
-/

namespace Yar.Proofs

open Program Fs

variable {s s' : Own} {accepts : CmdId → Bool} {r : TtyRef} {id : CmdId} {setup : Option TtyRef}

/-! ## Functions that do not exit -/

/-- No run calls `exit`. -/
abbrev Stays {α : Type} (m : Own.OwnAct α) : Prop := Avoids Halt.exit m

instance {α : Type} : Stays (throw .abort : Own.OwnAct α) := Avoids.throw (by decide)
instance {p : Prop} [Decidable p] : Stays (require .abort p) := Avoids.require (by decide)
instance {p : Prop} [Decidable p] : Stays (require .ub p) := Avoids.require (by decide)

instance (x : Res) : Stays (Own.release x) := Avoids.modifyState _
instance (f : GblsStr) (p : Option CStr) : Stays (Own.setStr f p) := Avoids.modifyState _
instance (r : TtyRef) (f : Tty → Tty) : Stays (Own.updTty r f) := Avoids.modifyState _
instance (id : CmdId) (f : OwnCmd → OwnCmd) : Stays (Own.updCmd id f) := Avoids.modifyState _
instance : Stays Own.openFd := by unfold Own.openFd; infer_instance
instance : Stays Own.mallocCmd := by unfold Own.mallocCmd; infer_instance

instance {α : Type} (p : Option α) (x : Res) : Stays (Own.releaseSet p x) := by
  cases p <;> unfold Own.releaseSet <;> infer_instance

instance (r : TtyRef) (f : TtyStr) (name : Option CStr) : Stays (Own.ttyCleanupName r f name) := by
  cases name <;> unfold Own.ttyCleanupName <;> infer_instance

instance (r : TtyRef) : Stays (Own.ttyCleanup r) where
  avoids s s' h := by
    rw [ttyCleanup_eq] at h
    cases h

instance (id : CmdId) : Stays (Own.cmdStop accepts id) := by unfold Own.cmdStop; infer_instance

instance (id : CmdId) : Stays (Own.cmdCleanup accepts id) := by
  unfold Own.cmdCleanup
  infer_instance

instance (id : CmdId) : Stays (Own.hashDel id) := by unfold Own.hashDel; infer_instance

instance (r : TtyRef) (l s₁ d₁ s₂ d₂ : Option CStr) : Stays (Own.ttyInit r l s₁ d₁ s₂ d₂) := by
  unfold Own.ttyInit
  infer_instance

instance (r : TtyRef) (l : CStr) : Stays (Own.ttyInitLinked r l) := by
  unfold Own.ttyInitLinked
  infer_instance

instance (r : TtyRef) (creates : Bool) : Stays (Own.ttyCreate r creates) := by
  unfold Own.ttyCreate
  infer_instance

instance (id : CmdId) (name cmdstr ttylink : CStr) : Stays (Own.cmdInit id name cmdstr ttylink) := by
  unfold Own.cmdInit
  infer_instance

instance (id : CmdId) (clt cmd : Bool) : Stays (Own.cmdCreate id clt cmd) := by
  unfold Own.cmdCreate
  infer_instance

instance (name cmdstr ttylink : CStr) (clt cmd : Bool) :
    Stays (Own.GBLSAddCmd accepts name cmdstr ttylink clt cmd) := by
  unfold Own.GBLSAddCmd
  infer_instance

instance (x : Own.Answers) (spec : CStr × CStr × CStr) : Stays (Own.mainAddCmd accepts x spec) := by
  unfold Own.mainAddCmd
  infer_instance

instance (id : CmdId) : Stays (Own.cmdStart id) := by unfold Own.cmdStart; infer_instance

instance (id : CmdId) : Stays (Own.cmdPidReap id) := by unfold Own.cmdPidReap; infer_instance

instance (f : GblsStr) (path : CStr) : Stays (Own.defaultStr f path) := by
  unfold Own.defaultStr
  infer_instance

/-- From `s`, a run that returns does so in a state with `Q`, and one that exits does so in a state
`cleanup` can be called in. -/
def EndsIn {α : Type} (m : Own.OwnAct α) (s : Own) (Q : Own → Prop) : Prop :=
  (∀ a s', m s = .ok a s' → Q s') ∧ ∀ s', m s = .error .exit s' → Sound none s'

lemma EndsIn.of_stays {α : Type} {m : Own.OwnAct α} [Stays m] {Q : Own → Prop}
    (h : ∀ a s', m s = .ok a s' → Q s') : EndsIn m s Q :=
  ⟨h, fun s' hrun => (Avoids.avoids s s' hrun).elim⟩

lemma EndsIn.bind {α β : Type} {m : Own.OwnAct α} {f : α → Own.OwnAct β} {Q R : Own → Prop}
    (hm : EndsIn m s Q) (hf : ∀ a t, Q t → EndsIn (f a) t R) : EndsIn (m >>= f) s R := by
  refine ⟨fun b s' hrun => ?_, fun s' hrun => ?_⟩
  · obtain ⟨a, t, ha, hb⟩ := bind_eq_ok.mp hrun
    exact (hf a t (hm.1 a t ha)).1 b s' hb
  · rcases bind_eq_error.mp hrun with ha | ⟨a, t, ha, hb⟩
    · exact hm.2 s' ha
    · exact (hf a t (hm.1 a t ha)).2 s' hb

lemma EndsIn.get {β : Type} {f : Own → Own.OwnAct β} {Q : Own → Prop} (h : EndsIn (f s) s Q) :
    EndsIn (get >>= f) s Q := h

lemma EndsIn.pure {α : Type} (a : α) {Q : Own → Prop} (h : Q s) :
    EndsIn (Pure.pure a : Own.OwnAct α) s Q :=
  .of_stays fun b s' hrun => by
    obtain ⟨-, rfl⟩ := pure_eq_ok.mp hrun
    exact h

lemma EndsIn.modify {f : Own → Own} {Q : Own → Prop} (h : Q (f s)) :
    EndsIn (modify f : Own.OwnAct PUnit) s Q :=
  .of_stays fun b s' hrun => by
    obtain rfl := modify_eq_ok.mp hrun
    exact h

lemma EndsIn.when {p : Prop} [Decidable p] {m : Own.OwnAct Unit} {Q : Own → Prop}
    (hm : p → EndsIn m s Q) (hn : ¬p → Q s) : EndsIn (when p m) s Q := by
  by_cases h : p
  · rw [when_pos h]
    exact hm h
  · rw [when_neg h]
    exact EndsIn.pure () (hn h)

/-- A call of `exit`. -/
lemma EndsIn.exit {Q : Own → Prop} (h : Sound none s) : EndsIn (throw .exit : Own.OwnAct Unit) s Q := by
  refine ⟨fun a s' hrun => (throw_eq_ok.mp hrun).elim, fun s' hrun => ?_⟩
  cases hrun
  exact h

lemma EndsIn.forM {α : Type} {f : α → Own.OwnAct PUnit} {Q : Own → Prop} (l : List α)
    (hf : ∀ a s, Q s → EndsIn (f a) s Q) (h : Q s) : EndsIn (l.forM f) s Q := by
  induction l generalizing s with
  | nil => exact EndsIn.pure _ h
  | cons a l ih => exact EndsIn.bind (hf a s h) fun _ t ht => ih ht

/-! ## The invariant under the parts of a step -/

lemma Sound.congr (h : Sound setup s) (hcmds : s'.cmds = s.cmds) (hbrk : s.brk ≤ s'.brk)
    (hflag : s'.bcstflg = s.bcstflg) (httys : ∀ r, Swept s r → some r ≠ setup → s'.ttys r = s.ttys r)
    (hheap : ∀ id ∈ s.cmds, s'.heap id = s.heap id) (hfs : FsSound s') : Sound setup s' := by
  have hswept (r : TtyRef) : Swept s' r ↔ Swept s r := by
    cases r <;> simp [Swept, hcmds, hflag]
  refine ⟨by rw [hcmds]; exact h.nodup, fun id hid => ?_, fun r hr hne hdfd f => ?_, fun id hid => ?_, hfs⟩
  · rw [hcmds] at hid
    exact Nat.lt_of_lt_of_le (h.below id hid) hbrk
  · rw [hswept] at hr
    rw [httys r hr hne] at hdfd ⊢
    exact h.entries r hr hne hdfd f
  · rw [hcmds] at hid
    rw [hheap id hid]
    exact h.forked id hid

/-- What is done to some ttys and some commands, and to nothing else that `Sound` is about. -/
structure Builds (R : TtyRef → Prop) (C : CmdId → Prop) (s s' : Own) : Prop where
  cmds : s'.cmds = s.cmds
  brk : s'.brk = s.brk
  flag : s'.bcstflg = s.bcstflg
  fs : s'.fs = s.fs ∧ s'.fuse_se = s.fuse_se ∧ s'.mounted = s.mounted ∧
    s'.fuse_args = s.fuse_args ∧ s'.fuse_buf = s.fuse_buf
  ttys : ∀ r, ¬R r → s'.ttys r = s.ttys r
  heap : ∀ id, ¬C id → s'.heap id = s.heap id

section
variable {R : TtyRef → Prop} {C : CmdId → Prop}

instance : Std.Refl (Builds R C) where
  refl _ := ⟨rfl, rfl, rfl, ⟨rfl, rfl, rfl, rfl, rfl⟩, fun _ _ => rfl, fun _ _ => rfl⟩

instance : IsTrans Own (Builds R C) where
  trans s t u h h' := by
    obtain ⟨h₁, h₂, h₃, h₄, h₅⟩ := h.fs
    obtain ⟨h₁', h₂', h₃', h₄', h₅'⟩ := h'.fs
    exact ⟨h'.cmds.trans h.cmds, h'.brk.trans h.brk, h'.flag.trans h.flag,
      ⟨h₁'.trans h₁, h₂'.trans h₂, h₃'.trans h₃, h₄'.trans h₄, h₅'.trans h₅⟩,
      fun r hr => (h'.ttys r hr).trans (h.ttys r hr),
      fun id hid => (h'.heap id hid).trans (h.heap id hid)⟩

lemma Builds.fsSound (hb : Builds R C s s') (h : FsSound s) : FsSound s' := by
  obtain ⟨hfs, hse, hmounted, hargs, hbuf⟩ := hb.fs
  refine ⟨fun hm => ?_, fun hm => ?_⟩
  · rw [hfs] at hm ⊢
    rw [hse]
    exact h.made hm
  · rw [hfs] at hm ⊢
    rw [hse, hmounted, hargs, hbuf]
    exact h.unmade hm

/-- What is not in the table yet, or is being set up, may be changed. -/
lemma Sound.of_builds (h : Sound setup s) (hb : Builds R C s s')
    (hR : ∀ r, R r → Swept s r → some r = setup) (hC : ∀ id, C id → id ∉ s.cmds) :
    Sound setup s' := by
  refine h.congr hb.cmds (Nat.le_of_eq hb.brk.symm) hb.flag (fun r hr hne => hb.ttys r fun hRr => ?_)
    (fun id hid => hb.heap id fun hCid => hC id hCid hid) (hb.fsSound h.fs)
  exact hne (hR r hRr hr)

lemma builds_updTty (hr : R r) (f : Tty → Tty) : Keeps (Builds R C) (Own.updTty r f) := by
  refine Keeps.modify fun s => ⟨rfl, rfl, rfl, ⟨rfl, rfl, rfl, rfl, rfl⟩, fun r' hr' => ?_,
    fun _ _ => rfl⟩
  refine Function.update_of_ne ?_ _ _
  rintro rfl
  exact hr' hr

lemma builds_release (x : Res) : Keeps (Builds R C) (Own.release x) :=
  Keeps.modify fun _ => ⟨rfl, rfl, rfl, ⟨rfl, rfl, rfl, rfl, rfl⟩, fun _ _ => rfl, fun _ _ => rfl⟩

lemma builds_releaseSet {α : Type} (p : Option α) (x : Res) :
    Keeps (Builds R C) (Own.releaseSet p x) := by
  cases p with
  | none => exact Keeps.pure _
  | some a => exact builds_release x

lemma builds_openFd : Keeps (Builds R C) Own.openFd := by
  intro s a s' h
  obtain ⟨u, t, hset, h⟩ := bind_eq_ok.mp (get_bind_eq_ok.mp h)
  obtain rfl := set_eq_ok.mp hset
  obtain ⟨-, rfl⟩ := pure_eq_ok.mp h
  exact ⟨rfl, rfl, rfl, ⟨rfl, rfl, rfl, rfl, rfl⟩, fun _ _ => rfl, fun _ _ => rfl⟩

lemma builds_updCmd (hid : C id) (f : OwnCmd → OwnCmd) : Keeps (Builds R C) (Own.updCmd id f) := by
  refine Keeps.modify fun _ => ⟨rfl, rfl, rfl, ⟨rfl, rfl, rfl, rfl, rfl⟩, fun _ _ => rfl,
    fun id' hid' => Function.update_of_ne ?_ _ _⟩
  rintro rfl
  exact hid' hid

lemma builds_ttyCleanup (hr : R r) : Keeps (Builds R C) (Own.ttyCleanup r) := by
  intro s a s' h
  rw [ttyCleanup_eq] at h
  cases h
  refine ⟨rfl, rfl, rfl, ⟨rfl, rfl, rfl, rfl, rfl⟩, fun r' hr' => ttyCleaned_ttys ?_, fun _ _ => rfl⟩
  rintro rfl
  exact hr' hr

lemma builds_ttyInit (hr : R r) (l s₁ d₁ s₂ d₂ : Option CStr) :
    Keeps (Builds R C) (Own.ttyInit r l s₁ d₁ s₂ d₂) :=
  Keeps.bind Keeps.get fun _ => Keeps.bind (Keeps.require _ _) fun _ => builds_updTty hr _

lemma builds_ttyInitLinked (hr : R r) (l : CStr) : Keeps (Builds R C) (Own.ttyInitLinked r l) :=
  Keeps.bind Keeps.get fun _ => builds_ttyInit hr _ _ _ _ _

lemma builds_ttyCreate (hr : R r) (creates : Bool) : Keeps (Builds R C) (Own.ttyCreate r creates) := by
  refine Keeps.bind Keeps.get fun _ => Keeps.bind (Keeps.require _ _) fun _ => Keeps.ite (fun _ => ?_)
    fun _ => ?_
  · refine Keeps.bind builds_openFd fun _ => Keeps.bind builds_openFd fun _ => ?_
    refine Keeps.bind builds_openFd fun _ => Keeps.bind (builds_updTty hr _) fun _ => ?_
    exact Keeps.pure _
  · exact Keeps.bind (builds_ttyCleanup hr) fun _ => Keeps.pure _

end

/-- What is done for one command. -/
abbrev BuildsCmd (id : CmdId) : Own → Own → Prop :=
  Builds (fun r => r = .cmd id ∨ r = .clt id) (fun id' => id' = id)

lemma buildsCmd_cmdInit (name cmdstr ttylink : CStr) :
    Keeps (BuildsCmd id) (Own.cmdInit id name cmdstr ttylink) := by
  refine Keeps.bind (builds_updCmd (by rfl) _) fun _ => ?_
  refine Keeps.bind (builds_ttyInit (.inl rfl) _ _ _ _ _) fun _ => ?_
  exact builds_ttyInitLinked (.inr rfl) _

lemma buildsCmd_cmdCreate (clt cmd : Bool) : Keeps (BuildsCmd id) (Own.cmdCreate id clt cmd) :=
  Keeps.bind (builds_ttyCreate (.inr rfl) _) fun _ =>
    Keeps.ite (fun _ => builds_ttyCreate (.inl rfl) _) fun _ => Keeps.pure _

lemma buildsCmd_cmdCleanup : Keeps (BuildsCmd id) (Own.cmdCleanup accepts id) := by
  refine Keeps.bind (Keeps.bind Keeps.get fun s => Keeps.when fun _ => ?_) fun _ => ?_
  · refine Keeps.bind (Keeps.require _ _) fun _ => Keeps.bind (builds_release _) fun _ => ?_
    exact Keeps.bind (builds_release _) fun _ => builds_updCmd (by rfl) _
  · refine Keeps.bind (builds_ttyCleanup (.inl rfl)) fun _ => ?_
    refine Keeps.bind (builds_ttyCleanup (.inr rfl)) fun _ => Keeps.bind Keeps.get fun s => ?_
    refine Keeps.bind (builds_releaseSet _ _) fun _ => Keeps.bind (builds_releaseSet _ _) fun _ => ?_
    exact builds_updCmd (by rfl) _

lemma Sound.of_buildsCmd (h : Sound setup s) (hid : id ∉ s.cmds) (hb : BuildsCmd id s s') :
    Sound setup s' := by
  refine h.of_builds hb (fun r hr hs => ?_) (fun id' heq => heq ▸ hid)
  rcases hr with rfl | rfl
  · exact (hid hs).elim
  · exact (hid hs).elim

/-! ## Creation of a tty -/

lemma ttyCreate_eq_ok {creates b : Bool} (h : Own.ttyCreate r creates s = .ok b s') :
    b = creates ∧ s'.heap = s.heap ∧ (∀ r', r' ≠ r → s'.ttys r' = s.ttys r') ∧
      (b = true → (s'.ttys r).dfd ≠ none) ∧ (b = false → s'.ttys r = {}) := by
  replace h := (require_bind_eq_ok.mp (get_bind_eq_ok.mp h)).2
  cases creates with
  | true =>
    cases h
    refine ⟨rfl, rfl, fun r' hr => Function.update_of_ne hr _ _, fun _ => ?_, fun hb => by cases hb⟩
    change (Function.update s.ttys r _ r).dfd ≠ none
    rw [Function.update_self]
    simp
  | false =>
    rw [if_neg (by simp), bind_of_ok (ttyCleanup_eq r s)] at h
    cases h
    refine ⟨rfl, rfl, fun r' hr => ttyCleaned_ttys hr, fun hb => Bool.noConfusion hb, fun _ => ?_⟩
    exact Function.update_self r ({} : Tty) s.ttys

lemma namesEntry_empty (f : TtyStr) : ¬NamesEntry {} f := by
  cases f <;> simp [NamesEntry, ttyStr]

/-- The creation ends the set-up of a tty, also when it fails. -/
lemma Sound.ttyCreate (h : Sound (some r) s) {creates b : Bool}
    (hrun : Own.ttyCreate r creates s = .ok b s') : Sound none s' := by
  have hb : Builds (fun r' => r' = r) (fun _ => False) s s' := builds_ttyCreate (by rfl) creates hrun
  have h' : Sound (some r) s' := h.of_builds hb (fun r' hr' _ => by rw [hr']) fun _ hid => hid.elim
  refine ⟨h'.nodup, h'.below, fun r' hr' _ hdfd f => ?_, h'.forked, h'.fs⟩
  by_cases heq : r' = r
  · obtain ⟨-, -, -, htrue, hfalse⟩ := ttyCreate_eq_ok hrun
    subst heq
    cases b with
    | true => exact (htrue rfl hdfd).elim
    | false =>
      rw [hfalse rfl]
      exact namesEntry_empty f
  · exact h'.entries r' hr' (fun hsome => heq (Option.some.inj hsome)) hdfd f

/-! ## Adding a command -/

lemma cmdInit_eq_ok {name cmdstr ttylink : CStr} {u : Unit}
    (h : Own.cmdInit id name cmdstr ttylink s = .ok u s') :
    (s'.heap id).pid = none ∧ (s'.heap id).pidfd = none := by
  obtain ⟨_, s₁, h₁, h⟩ := bind_eq_ok.mp h
  obtain ⟨_, s₂, h₂, h⟩ := bind_eq_ok.mp h
  obtain rfl := modify_eq_ok.mp h₁
  have h₂' := (require_bind_eq_ok.mp (get_bind_eq_ok.mp h₂)).2
  obtain rfl := modify_eq_ok.mp h₂'
  have h₃' := (require_bind_eq_ok.mp (get_bind_eq_ok.mp (get_bind_eq_ok.mp h))).2
  obtain rfl := modify_eq_ok.mp h₃'
  have hheap : Function.update s.heap id { cmdstr := some cmdstr, bcstprefix := some (name ++ bytes ": ") }
      id = _ := Function.update_self _ _ _
  change (Function.update s.heap id _ id).pid = none ∧ (Function.update s.heap id _ id).pidfd = none
  rw [hheap]
  exact ⟨rfl, rfl⟩

lemma cmdCreate_eq_ok {clt cmd : Bool} (h : Own.cmdCreate id clt cmd s = .ok true s') :
    s'.heap = s.heap ∧ (s'.ttys (.clt id)).dfd ≠ none ∧ (s'.ttys (.cmd id)).dfd ≠ none := by
  obtain ⟨b, t, hclt, h⟩ := bind_eq_ok.mp h
  obtain ⟨-, hheap, -, hdfd, -⟩ := ttyCreate_eq_ok hclt
  cases b with
  | false => cases h
  | true =>
    obtain ⟨-, hheap', hother, hdfd', -⟩ := ttyCreate_eq_ok h
    refine ⟨hheap'.trans hheap, ?_, hdfd' rfl⟩
    rw [hother _ (by simp)]
    exact hdfd rfl

lemma Sound.append (h : Sound none s) (hid : id ∉ s.cmds) (hlt : id < s.brk)
    (hclt : (s.ttys (.clt id)).dfd ≠ none) (hcmd : (s.ttys (.cmd id)).dfd ≠ none)
    (hpid : (s.heap id).pid = none ↔ (s.heap id).pidfd = none) :
    Sound none { s with cmds := s.cmds ++ [id] } := by
  refine ⟨?_, fun id' hid' => ?_, fun r hr _ hdfd f => ?_, fun id' hid' => ?_, ⟨h.fs.made, h.fs.unmade⟩⟩
  · exact List.nodup_append'.mpr ⟨h.nodup, List.nodup_singleton _, by simpa using hid⟩
  · rcases List.mem_append.mp hid' with hid' | hid'
    · exact h.below id' hid'
    · rw [List.mem_singleton.mp hid']
      exact hlt
  · cases r with
    | bcst => exact h.entries .bcst hr (by simp) hdfd f
    | mon => exact h.entries .mon hr (by simp) hdfd f
    | cmd id' =>
      rcases List.mem_append.mp hr with hid' | hid'
      · exact h.entries (.cmd id') hid' (by simp) hdfd f
      · rw [List.mem_singleton.mp hid'] at hdfd
        exact (hcmd hdfd).elim
    | clt id' =>
      rcases List.mem_append.mp hr with hid' | hid'
      · exact h.entries (.clt id') hid' (by simp) hdfd f
      · rw [List.mem_singleton.mp hid'] at hdfd
        exact (hclt hdfd).elim
  · rcases List.mem_append.mp hid' with hid' | hid'
    · exact h.forked id' hid'
    · rw [List.mem_singleton.mp hid']
      exact hpid

lemma Sound.addCmd (h : Sound none s) {name cmdstr ttylink : CStr} {clt cmd : Bool}
    {res : Option CmdId} (hrun : Own.GBLSAddCmd accepts name cmdstr ttylink clt cmd s = .ok res s') :
    Sound none s' := by
  obtain ⟨id, s₁, hmalloc, hrun⟩ := bind_eq_ok.mp hrun
  obtain ⟨_, t, hset, hmalloc⟩ := bind_eq_ok.mp (get_bind_eq_ok.mp hmalloc)
  obtain rfl := set_eq_ok.mp hset
  obtain ⟨rfl, rfl⟩ := pure_eq_ok.mp hmalloc
  have hfresh : s.brk ∉ s.cmds := fun hmem => Nat.lt_irrefl _ (h.below _ hmem)
  have h₁ : Sound none { s with brk := s.brk + 1 } :=
    h.congr rfl (Nat.le_succ _) rfl (fun _ _ _ => rfl) (fun _ _ => rfl) ⟨h.fs.made, h.fs.unmade⟩
  obtain ⟨_, s₂, hinit, hrun⟩ := bind_eq_ok.mp hrun
  obtain ⟨hpid, hpidfd⟩ := cmdInit_eq_ok hinit
  have hb₂ := buildsCmd_cmdInit _ _ _ hinit
  obtain ⟨created, s₃, hcreate, hrun⟩ := bind_eq_ok.mp hrun
  have hb₃ : BuildsCmd s.brk { s with brk := s.brk + 1 } s₃ :=
    trans_of (BuildsCmd s.brk) hb₂ (buildsCmd_cmdCreate _ _ hcreate)
  have h₃ : Sound none s₃ := h₁.of_buildsCmd hfresh hb₃
  have hfresh₃ : s.brk ∉ s₃.cmds := by
    rw [hb₃.cmds]
    exact hfresh
  cases created with
  | false =>
    obtain ⟨_, s₄, hclean, hrun⟩ := bind_eq_ok.mp hrun
    obtain ⟨_, s₅, hrelease, hrun⟩ := bind_eq_ok.mp hrun
    obtain ⟨-, rfl⟩ := pure_eq_ok.mp hrun
    exact h₃.of_buildsCmd hfresh₃ (trans_of (BuildsCmd s.brk) (buildsCmd_cmdCleanup hclean)
      (builds_release _ hrelease))
  | true =>
    obtain ⟨hheap, hclt, hcmd⟩ := cmdCreate_eq_ok hcreate
    obtain ⟨_, s₄, happend, hrun⟩ := bind_eq_ok.mp hrun
    obtain rfl := modify_eq_ok.mp happend
    obtain ⟨-, rfl⟩ := pure_eq_ok.mp hrun
    refine h₃.append hfresh₃ ?_ hclt hcmd ?_
    · rw [hb₃.brk]
      exact Nat.lt_succ_self _
    · rw [hheap]
      simp [hpid, hpidfd]

/-! ## The broadcast tty -/

lemma Sound.unused (h : Sound (some .bcst) s) (hflag : s.bcstflg = false) : Sound none s := by
  refine ⟨h.nodup, h.below, fun r hr _ hdfd f => ?_, h.forked, h.fs⟩
  by_cases heq : r = .bcst
  · subst heq
    rw [Swept, hflag] at hr
    cases hr
  · exact h.entries r hr (by simpa using heq) hdfd f

lemma Sound.bcstCreate (h : Sound (some .bcst) s) (creates : Bool) :
    EndsIn (Own.bcstttyCreate creates) s (Sound none) := by
  refine EndsIn.get (EndsIn.when (fun _ => ?_) fun hflag => h.unused (Bool.eq_false_of_not_eq_true hflag))
  refine EndsIn.bind (EndsIn.of_stays fun b t hcreate => h.ttyCreate hcreate) fun b t ht => ?_
  exact EndsIn.when (fun _ => EndsIn.exit ht) fun _ => ht

/-! ## Events -/

lemma cmdStart_sound {u : Unit} (h : Sound none s) (hrun : Own.cmdStart id s = .ok u s') :
    Sound none s' := by
  replace hrun := get_bind_eq_ok.mp hrun
  rcases when_eq_ok.mp hrun with ⟨-, hrun⟩ | ⟨-, rfl⟩
  · replace hrun := get_bind_eq_ok.mp hrun
    cases hrun
    refine ⟨h.nodup, h.below, h.entries, fun id' hid' => ?_, ⟨h.fs.made, h.fs.unmade⟩⟩
    change (Function.update s.heap id _ id').pid = none ↔ (Function.update s.heap id _ id').pidfd = none
    by_cases heq : id' = id
    · rw [heq, Function.update_self]
      simp
    · rw [Function.update_of_ne heq]
      exact h.forked id' hid'
  · exact h

/-- Both fields of a process are reset together. -/
lemma Sound.reset (h : Sound none s) (id : CmdId) {f : OwnCmd → OwnCmd} (hpid : ∀ c, (f c).pid = none)
    (hpidfd : ∀ c, (f c).pidfd = none) (l : List Res) :
    Sound none (givenBack l { s with heap := Function.update s.heap id (f (s.heap id)) }) := by
  refine ⟨h.nodup, h.below, h.entries, fun id' hid' => ?_, ⟨h.fs.made, h.fs.unmade⟩⟩
  change (Function.update s.heap id _ id').pid = none ↔ (Function.update s.heap id _ id').pidfd = none
  by_cases heq : id' = id
  · rw [heq, Function.update_self]
    simp [hpid, hpidfd]
  · rw [Function.update_of_ne heq]
    exact h.forked id' hid'

lemma cmdStop_sound {u : Unit} (h : Sound none s) (hrun : Own.cmdStop accepts id s = .ok u s') :
    Sound none s' := by
  replace hrun := get_bind_eq_ok.mp hrun
  rcases when_eq_ok.mp hrun with ⟨-, hrun⟩ | ⟨-, rfl⟩
  · replace hrun := (require_bind_eq_ok.mp hrun).2
    cases hrun
    exact h.reset id (f := fun this => { this with pidfd := none, pid := none })
      (fun _ => rfl) (fun _ => rfl) [.pidfd id, .child id]
  · exact h

lemma cmdPidReap_sound {u : Unit} (h : Sound none s) (hrun : Own.cmdPidReap id s = .ok u s') :
    Sound none s' := by
  replace hrun := get_bind_eq_ok.mp hrun
  rcases when_eq_ok.mp hrun with ⟨-, hrun⟩ | ⟨-, rfl⟩
  · cases hrun
    exact h.reset id (f := fun this => { this with pidfd := none, pid := none })
      (fun _ => rfl) (fun _ => rfl) [.child id]
  · exact h

lemma Sound.removed (h : Sound none s) : Sound none (cmdRemoved id s) := by
  have hmem {id' : CmdId} (hid : id' ∈ (cmdRemoved id s).cmds) : id' ∈ s.cmds ∧ id' ≠ id := by
    have hfilter := List.mem_filter.mp hid
    exact ⟨hfilter.1, of_decide_eq_true hfilter.2⟩
  refine ⟨h.nodup.filter _, fun id' hid' => h.below id' (hmem hid').1, fun r hr _ hdfd f => ?_,
    fun id' hid' => ?_, ⟨h.fs.made, h.fs.unmade⟩⟩
  · have hkept : r ≠ .cmd id ∧ r ≠ .clt id ∧ Swept s r := by
      cases r with
      | bcst => exact ⟨by simp, by simp, hr⟩
      | mon => exact ⟨by simp, by simp, hr⟩
      | cmd id' => exact ⟨by simpa using (hmem hr).2, by simp, (hmem hr).1⟩
      | clt id' => exact ⟨by simp, by simpa using (hmem hr).2, (hmem hr).1⟩
    rw [cmdRemoved_ttys hkept.1 hkept.2.1] at hdfd ⊢
    exact h.entries r hkept.2.2 (by simp) hdfd f
  · have hheap : (cmdRemoved id s).heap id' = s.heap id' :=
      Function.update_of_ne (hmem hid').2 _ _
    rw [hheap]
    exact h.forked id' (hmem hid').1

/-- A second command brings the broadcast tty into use, between its initialisation and its creation. -/
lemma Sound.use (h : Sound none s) : Sound (some .bcst) { s with bcstflg := true } := by
  refine ⟨h.nodup, h.below, fun r hr hne hdfd f => ?_, h.forked, ⟨h.fs.made, h.fs.unmade⟩⟩
  cases r with
  | bcst => exact (hne rfl).elim
  | mon => exact h.entries .mon hr (by simp) hdfd f
  | cmd id => exact h.entries (.cmd id) hr (by simp) hdfd f
  | clt id => exact h.entries (.clt id) hr (by simp) hdfd f

lemma monAdd_sound (h : Sound none s) (name cmdstr ttylink : CStr) (clt cmd bcst : Bool) :
    EndsIn (Own.monAdd accepts name cmdstr ttylink clt cmd bcst) s (Sound none) := by
  refine EndsIn.bind (EndsIn.of_stays fun res t hadd => h.addCmd hadd) fun res t ht => ?_
  refine EndsIn.when (fun _ => EndsIn.get (EndsIn.when (fun _ => ?_) fun _ => ht)) fun _ => ht
  exact EndsIn.bind (EndsIn.modify ht.use) fun _ t' ht' => ht'.bcstCreate bcst

lemma Sound.received (h : Sound none s) (hse : s.fuse_se = true) :
    Sound none { s with fuse_buf := true } := by
  refine ⟨h.nodup, h.below, h.entries, h.forked, ⟨h.fs.made, fun hmkdir => ?_⟩⟩
  obtain ⟨-, -, hfalse, -⟩ := h.fs.unmade hmkdir
  cases hse.symm.trans hfalse

lemma remove_sound (h : Sound none s) {u : Unit} (hrun : (do
    Own.cmdCleanup accepts id
    Own.hashDel id : Own.OwnAct Unit) s = .ok u s') : Sound none s' := by
  have htaken : StopTaken accepts s id := by
    obtain ⟨_, _, hclean, -⟩ := bind_eq_ok.mp hrun
    obtain ⟨_, _, hstop, -⟩ := bind_eq_ok.mp hclean
    exact stopTaken_of_cmdStop hstop
  cases hrun.symm.trans (remove_eq htaken)
  exact h.removed

lemma event_sound (e : Own.OwnEvent) (h : Sound none s) : EndsIn (e.act accepts) s (Sound none) := by
  refine EndsIn.get ?_
  cases e with
  | start id =>
    exact EndsIn.of_stays fun u s' hrun => cmdStart_sound h (require_bind_eq_ok.mp hrun).2
  | stop id =>
    exact EndsIn.of_stays fun u s' hrun => cmdStop_sound h (require_bind_eq_ok.mp hrun).2
  | exited id =>
    exact EndsIn.of_stays fun u s' hrun => cmdPidReap_sound h (require_bind_eq_ok.mp hrun).2
  | removed id =>
    exact EndsIn.of_stays fun u s' hrun => remove_sound h (require_bind_eq_ok.mp hrun).2
  | added name cmdstr ttylink clt cmd bcst => exact monAdd_sound h _ _ _ _ _ _
  | received => exact EndsIn.when (fun hse => EndsIn.modify (h.received hse)) fun _ => h

/-! ## The file system -/

/-- The tree of yar: the items are the root and files that have been created under these names. -/
def Named (names : List CStr) (fs : Fs) : Prop :=
  ∃ xs, Built (rootFile :: xs) fs ∧ ∀ y ∈ rootFile :: xs, y.name ∈ names

/-- A file more in the root, under a name that nothing has. -/
lemma Built.createfile {xs : List File} {fs fs' : Fs} {name : CStr} {ops : FileOps} {f : Nat}
    (hb : Built (rootFile :: xs) fs) (hname : ∀ y ∈ rootFile :: xs, y.name ≠ name)
    (hrun : fsCreatefile rootIno name none ops fs = .ok f fs') :
    Built (rootFile :: (xs ++ [newFile (xs.length + 2) rootIno name none ops])) fs' := by
  have hdir : ExistsDir fs rootIno :=
    ⟨fill (rootFile :: xs) [] rootFile, hb.holds.mem_items.mpr ⟨0, rootFile, rfl, rfl⟩, by simp [rootFile],
      by simp [rootFile]⟩
  have hfree : NameFree fs rootIno name := by
    intro x hx _ heq
    obtain ⟨g, y, hy, rfl⟩ := hb.holds.mem_items.mp hx
    rw [fill_name] at heq
    exact hname y (List.mem_of_getElem? hy) heq
  have hact : (FsEvent.createfile rootIno name none ops).act fs = .ok () fs' :=
    discard_eq_ok.mpr ⟨f, hrun⟩
  have hroom := hasRoom_of_act hb (e := .createfile rootIno name none ops) (by simp) hact
  obtain ⟨x, t, hitem, hact', hb'⟩ := hb.step (e := .createfile rootIno name none ops) ⟨hdir, hfree⟩ hroom
  cases hact.symm.trans hact'
  cases hitem
  exact hb'

lemma Named.create {names : List CStr} {fs fs' : Fs} {name : CStr} {ops : FileOps} {f : Nat}
    (h : Named names fs) (hname : name ∉ names)
    (hrun : fsCreatefile rootIno name none ops fs = .ok f fs') : Named (name :: names) fs' := by
  obtain ⟨xs, hb, hnames⟩ := h
  have hfresh : ∀ y ∈ rootFile :: xs, y.name ≠ name := fun y hy heq => hname (heq ▸ hnames y hy)
  refine ⟨_, hb.createfile hfresh hrun, fun y hy => ?_⟩
  rw [← List.cons_append] at hy
  rcases List.mem_append.mp hy with hy | hy
  · exact List.mem_cons_of_mem _ (hnames y hy)
  · rw [List.mem_singleton.mp hy]
    exact List.mem_cons_self

lemma yarfsCreate_named {u : Unit} {fs fs' : Fs} (h : Named [bytes "."] fs)
    (hrun : yarfsCreate rootIno fs = .ok u fs') : ∃ names, Named names fs' := by
  obtain ⟨_, s₁, h₁, hrun⟩ := bind_eq_ok.mp hrun
  obtain ⟨_, s₂, h₂, hrun⟩ := bind_eq_ok.mp hrun
  obtain ⟨_, s₃, h₃, hrun⟩ := bind_eq_ok.mp hrun
  obtain ⟨_, s₄, h₄, hrun⟩ := bind_eq_ok.mp hrun
  obtain ⟨_, s₅, h₅, hrun⟩ := bind_eq_ok.mp hrun
  obtain ⟨-, rfl⟩ := pure_eq_ok.mp hrun
  have hpid := h.create (by decide +kernel) h₁
  have hcmds := hpid.create (by decide +kernel) h₂
  have hlcmds := hcmds.create (by decide +kernel) h₃
  have httys := hlcmds.create (by decide +kernel) h₄
  exact ⟨_, httys.create (by decide +kernel) h₅⟩

lemma fsCreate_split {mounts b : Bool} {fs fs' : Fs} {f : Nat → FsAct Unit}
    (h : Fs.fsCreate true mounts (some f) fs = .ok b fs') :
    ∃ t, Fs.fsCreate true true none fs = .ok true t ∧ f rootIno t = .ok () fs' := by
  rw [Fs.fsCreate, if_neg (by simp)] at h ⊢
  replace h := modify_bind_eq_ok.mp h
  obtain ⟨ino, s₁, halloc, h⟩ := bind_eq_ok.mp h
  obtain ⟨hino, h⟩ := require_bind_eq_ok.mp h
  obtain ⟨root, s₂, hdir, h⟩ := bind_eq_ok.mp h
  obtain ⟨x, s₃, hx, h⟩ := bind_eq_ok.mp h
  obtain ⟨hroot, h⟩ := require_bind_eq_ok.mp h
  obtain ⟨_, s₄, hf, h⟩ := bind_eq_ok.mp h
  obtain ⟨-, rfl⟩ := pure_eq_ok.mp h
  rw [hroot] at hf
  refine ⟨s₃, ?_, hf⟩
  refine modify_bind_eq_ok.mpr (bind_eq_ok.mpr ⟨ino, s₁, halloc, ?_⟩)
  refine require_bind_eq_ok.mpr ⟨hino, bind_eq_ok.mpr ⟨root, s₂, hdir, ?_⟩⟩
  exact bind_eq_ok.mpr ⟨x, s₃, hx, require_bind_eq_ok.mpr ⟨hroot, rfl⟩⟩

/-- What `fsCreate` leaves once the directory has been made. -/
lemma fsCreate_named {mounts b : Bool} {mntpt : CStr} {fs : Fs}
    (h : Fs.fsCreate true mounts (some yarfsCreate) (fsInit mntpt) = .ok b fs) :
    ∃ names, Named names fs := by
  obtain ⟨t, hstart, hrun⟩ := fsCreate_split h
  cases hstart.symm.trans (fsCreate_ok mntpt)
  refine yarfsCreate_named ⟨[], fsStarted_built mntpt, fun y hy => ?_⟩ hrun
  rw [List.mem_singleton.mp hy]
  exact List.mem_singleton_self _

/-! ## The way up -/

/-- The state once `fsCreate` has made the tree and the session. -/
lemma Sound.mounted (h : Sound none s) {fs : Fs} {names : List CStr} (hn : Named names fs)
    (args : List CStr) (mounted : Bool) :
    Sound none { s with fs := fs, fuse_args := args, fuse_se := true, mounted := mounted } := by
  obtain ⟨xs, hb, -⟩ := hn
  refine ⟨h.nodup, h.below, h.entries, h.forked, ⟨fun _ => ⟨hb.mounted.1, rfl, _, hb⟩, fun hm => ?_⟩⟩
  cases hm.symm.trans hb.mounted.2

lemma fsCreate_sound (h : Sound none s) {mntpt : CStr} (hfs : s.fs = fsInit mntpt)
    (mkdirs mounts : Bool) : EndsIn (Own.fsCreate mkdirs mounts) s (Sound none) := by
  cases mkdirs with
  | false =>
    have hrun : Own.fsCreate false mounts s = .error .exit s := rfl
    refine ⟨fun u s' hok => (by cases hrun.symm.trans hok), fun s' hexit => ?_⟩
    cases hrun.symm.trans hexit
    exact h
  | true =>
    cases hcreate : Fs.fsCreate true mounts (some yarfsCreate) s.fs with
    | error e fs =>
      have hrun : Own.fsCreate true mounts s = .error e s := by
        refine bind_eq_error.mpr (.inl (get_bind_eq_error.mpr ?_))
        simp only [hcreate]
        rfl
      refine ⟨fun u s' hok => (by cases hrun.symm.trans hok), fun s' hexit => ?_⟩
      cases hrun.symm.trans hexit
      exact h
    | ok b fs =>
      obtain ⟨names, hn⟩ := fsCreate_named (hfs ▸ hcreate)
      have hsound := h.mounted hn [bytes "yar", bytes "-o", bytes "default_permissions"] mounts
      unfold EndsIn Own.fsCreate
      rw [bind_of_ok (onFs_eq hcreate), when_pos rfl]
      exact EndsIn.bind (EndsIn.modify hsound) fun _ t ht => EndsIn.when (fun _ => EndsIn.exit ht) fun _ => ht

lemma Sound.weaken (h : Sound none s) : Sound (some r) s :=
  ⟨h.nodup, h.below, fun r' hr' _ => h.entries r' hr' (by simp), h.forked, h.fs⟩

/-- Nothing of the file system has been made. -/
def Early (setup : Option TtyRef) (s : Own) : Prop := Sound setup s ∧ s.fs.mkdir = false

lemma defaultStr_sound (hs : Early none s) (f : GblsStr) (path : CStr) :
    EndsIn (Own.defaultStr f path) s (Early none) := by
  refine EndsIn.get (EndsIn.when (fun _ => EndsIn.modify ?_) fun _ => hs)
  exact ⟨⟨hs.1.nodup, hs.1.below, hs.1.entries, hs.1.forked, ⟨hs.1.fs.made, hs.1.fs.unmade⟩⟩, hs.2⟩

lemma monInit_sound (hs : Early none s) (fits : Bool) :
    EndsIn (Own.monInit fits) s (Early (some .mon)) := by
  refine EndsIn.bind (Q := Early none) (EndsIn.when (fun _ => EndsIn.exit hs.1) fun _ => hs)
    fun _ t ht => EndsIn.get (EndsIn.of_stays fun u t' hrun => ?_)
  have hb : Builds (fun r => r = .mon) (fun _ => False) t t' := builds_ttyInit (by rfl) _ _ _ _ _ hrun
  refine ⟨ht.1.weaken.of_builds hb (fun r hr _ => congrArg some hr) fun _ hid => hid.elim, ?_⟩
  rw [hb.fs.1]
  exact ht.2

lemma monttyCreate_sound (hs : Early (some .mon) s) (creates opens : Bool) :
    EndsIn (Own.monttyCreate creates opens) s (Early none) := by
  refine EndsIn.bind (Q := Early none) (EndsIn.of_stays fun b t hcreate => ?_) fun b t ht => ?_
  · have hb : Builds (fun r => r = .mon) (fun _ => False) s t := builds_ttyCreate (by rfl) _ hcreate
    refine ⟨hs.1.ttyCreate hcreate, ?_⟩
    rw [hb.fs.1]
    exact hs.2
  · refine EndsIn.bind (Q := Early none) (EndsIn.when (fun _ => EndsIn.exit ht.1) fun _ => ht)
      fun _ t ht => ?_
    refine EndsIn.bind (Q := Early none) (EndsIn.when (fun _ => EndsIn.exit ht.1) fun _ => ht)
      fun _ t ht => EndsIn.modify ?_
    exact ⟨⟨ht.1.nodup, ht.1.below, ht.1.entries, ht.1.forked, ⟨ht.1.fs.made, ht.1.fs.unmade⟩⟩, ht.2⟩

/-- The path of the mount point is there and nothing else. -/
def Pathed (s : Own) : Prop := Sound none s ∧ ∃ mntpt, s.fs = fsInit mntpt

lemma fsInit_sound (hs : Early none s) (fits : Bool) : EndsIn (Own.fsInit fits) s Pathed := by
  refine EndsIn.bind (Q := Early none) (EndsIn.when (fun _ => EndsIn.exit hs.1) fun _ => hs)
    fun _ t ht => EndsIn.modify ⟨⟨ht.1.nodup, ht.1.below, ht.1.entries, ht.1.forked, ?_⟩, _, rfl⟩
  obtain ⟨-, -, hrest⟩ := ht.1.fs.unmade ht.2
  exact ⟨fun hmkdir => (by cases hmkdir), fun _ => ⟨rfl, fun _ => rfl, hrest⟩⟩

lemma ttyInitLinked_bcst_sound (h : Sound none s) (l : CStr) :
    EndsIn (Own.ttyInitLinked .bcst l) s (Sound (some .bcst)) :=
  EndsIn.of_stays fun u t hrun => by
    have hb : Builds (fun r => r = .bcst) (fun _ => False) s t := builds_ttyInitLinked (by rfl) _ hrun
    exact h.weaken.of_builds hb (fun r hr _ => congrArg some hr) fun _ hid => hid.elim

lemma boot_sound (o : Own.OwnOptions) : Early none (Own.boot o) := by
  refine ⟨⟨List.nodup_nil, fun id hid => (by cases hid), fun r hr _ _ f => namesEntry_empty f,
    fun id hid => (by cases hid), ⟨fun hmkdir => (by cases hmkdir), fun _ => ?_⟩⟩, rfl⟩
  exact ⟨rfl, fun _ => rfl, rfl, rfl, rfl, rfl⟩

lemma main_sound (o : Own.OwnOptions) (x : Own.Answers) :
    EndsIn (Own.main accepts o x) (Own.boot o) (Sound none) := by
  refine EndsIn.bind (defaultStr_sound (boot_sound o) _ _) fun _ s hs => ?_
  refine EndsIn.bind (monInit_sound hs _) fun _ s hs => ?_
  refine EndsIn.bind (monttyCreate_sound hs _ _) fun _ s hs => ?_
  refine EndsIn.bind (defaultStr_sound hs _ _) fun _ s hs => ?_
  refine EndsIn.bind (fsInit_sound hs _) fun _ s hs => ?_
  obtain ⟨mntpt, hfs⟩ := hs.2
  refine EndsIn.bind (fsCreate_sound hs.1 hfs _ _) fun _ s hs => ?_
  have hone (spec : CStr × CStr × CStr) (s : Own) (hs : Sound none s) :
      EndsIn (Own.mainAddCmd accepts x spec) s (Sound none) :=
    EndsIn.of_stays fun u t hrun => by
      obtain ⟨res, t', hadd, hrun⟩ := bind_eq_ok.mp hrun
      obtain ⟨-, rfl⟩ := require_eq_ok.mp hrun
      exact hs.addCmd hadd
  refine EndsIn.bind (EndsIn.forM _ hone hs) fun _ s hs => ?_
  refine EndsIn.bind (Q := Sound none) (EndsIn.get (EndsIn.when (fun _ => EndsIn.modify ?_) fun _ => hs))
    fun _ s hs => ?_
  · exact ⟨hs.nodup, hs.below, hs.entries, hs.forked, ⟨hs.fs.made, hs.fs.unmade⟩⟩
  · refine EndsIn.get (EndsIn.bind (ttyInitLinked_bcst_sound hs _) fun _ s hs => ?_)
    exact hs.bcstCreate _

/-! ## Every state `cleanup` is called in -/

lemma sound_of_reachable (h : Own.OwnReachable s) : Sound none s := by
  refine Transition.Reach.invariant (P := Sound none) (fun s hs => ?_) (fun s e s' _ hs _ hstep => ?_) h
  · obtain ⟨accepts, o, x, hrun⟩ := hs
    exact (main_sound o x).1 () s hrun
  · obtain ⟨accepts, hrun⟩ := hstep
    exact (event_sound e hs).1 () s' hrun

lemma sound_of_leaving (h : Own.Leaving s) : Sound none s := by
  cases h with
  | main accepts o x h => exact (main_sound o x).2 s h
  | handler accepts s₀ e hs h => exact (event_sound e (sound_of_reachable hs)).2 s h
  | loop hs => exact sound_of_reachable hs

/-- The two runs of `cleanup` give back what is owned, each thing once, exactly if there is no
directory of the log and nothing owned is left out; and what they do otherwise. -/
theorem cleanup_twice (h : Own.Leaving s) (accepts : CmdId → Bool) :
    (CleanedOnce accepts s ↔ Releasable accepts s) ∧
      (StopsTaken accepts s → CleanedTwice accepts s) :=
  ⟨cleanedOnce_iff (sound_of_leaving h), cleanedTwice_of_sound (sound_of_leaving h)⟩

/-- The state in which a run of `main` ends. -/
def mainEnd (o : Own.OwnOptions) (x : Own.Answers) : Own :=
  match Own.main (fun _ => true) o x (Own.boot o) with
  | .ok _ s => s
  | .error _ s => s

/-- A run of `main` and then of handlers comes to its end, in a state that passes the test. -/
def ownRun (o : Own.OwnOptions) (es : List Own.OwnEvent) (p : Own → Bool) : Bool :=
  match (do Own.main (fun _ => true) o {}; es.forM (Own.OwnEvent.act fun _ => true)) (Own.boot o) with
  | .ok _ s => p s
  | .error _ _ => false

lemma exists_ownReachable (o : Own.OwnOptions) (es : List Own.OwnEvent) (p : Own → Bool)
    (h : ownRun o es p = true) : ∃ s, Own.OwnReachable s ∧ p s = true := by
  have hevents {es : List Own.OwnEvent} {s s' : Own} (hs : Own.OwnReachable s)
      (hes : es.forM (Own.OwnEvent.act fun _ => true) s = .ok () s') : Own.OwnReachable s' := by
    induction es generalizing s with
    | nil =>
      obtain ⟨-, rfl⟩ := pure_eq_ok.mp hes
      exact hs
    | cons e es ih =>
      obtain ⟨_, s₁, hstep, hes⟩ := forM_cons_eq_ok.mp hes
      exact ih (.next hs trivial ⟨_, hstep⟩) hes
  unfold ownRun at h
  split at h
  case h_1 s hrun =>
    obtain ⟨_, s₀, hmain, hes⟩ := bind_eq_ok.mp hrun
    exact ⟨s, hevents (.start ⟨_, o, {}, hmain⟩) hes, h⟩
  case h_2 => cases h

/-- With all strings set, `main` exits because the monitor tty cannot be opened; and yar is left with a
command that has been deleted, one that runs and one that has exited. -/
theorem cleanup_twice_entered :
    (∃ s, Own.Leaving s ∧ Owned s (.str .stopstr) ∧ Owned s (.ttyFd .mon .dfd) ∧
      CleanedOnce (fun _ => true) s) ∧
    ∃ s, Own.Leaving s ∧ s.cmds = [1, 2] ∧ Owned s (.child 1) ∧ Owned s (.ttyFd .bcst .dfd) ∧
      Owned s .mount ∧ CleanedTwice (fun _ => true) s := by
  constructor
  · let o : Own.OwnOptions :=
      { readystr := some (bytes "% "), stopstr := some (bytes "exit"), bcstttylink := some (bytes "/h/all"),
        monttylinkdir := some (bytes "/m"), fsmntptdir := some (bytes "/f"), cwd := bytes "/h",
        specs := [(bytes "a", bytes "a::cat", bytes "/h/a")] }
    have hrun : Own.main (fun _ => true) o { monOpens := false } (Own.boot o) =
      .error .exit (mainEnd o { monOpens := false }) := rfl
    have hleaving := Own.Leaving.main _ _ _ hrun
    refine ⟨_, hleaving, ?_, ?_, (cleanup_twice hleaving _).1.mpr ?_⟩
    · exact nofun
    · exact ⟨trivial, nofun⟩
    · exact ⟨rfl, rfl, nofun, fun _ => rfl, fun id hid => by cases hid⟩
  · obtain ⟨s, hs, hp⟩ := exists_ownReachable
      { specs := [(bytes "a", bytes "a::cat", bytes "/h/a"), (bytes "b", bytes "b::cat", bytes "/h/b")]
        cwd := bytes "/h" }
      [.start 0, .start 1, .added (bytes "c") (bytes "c::cat") (bytes "/h/c") true true true, .start 2,
        .removed 0, .exited 2]
      (fun s => decide (s.cmds = [1, 2] ∧ (s.heap 1).pid ≠ none ∧ (s.ttys .bcst).dfd ≠ none ∧ s.mounted = true))
      (by decide +kernel)
    obtain ⟨hcmds, hpid, hdfd, hmount⟩ := of_decide_eq_true hp
    have hleaving := Own.Leaving.loop hs
    refine ⟨s, hleaving, hcmds, ⟨by simp [hcmds], hpid⟩, ⟨trivial, hdfd⟩, hmount, ?_⟩
    exact (cleanup_twice hleaving _).2 fun id _ _ => .inr rfl

/-- `-L /tmp` and a command. -/
theorem cleanup_not_always_once : ¬∀ s accepts, Own.Leaving s → CleanedOnce accepts s := by
  intro h
  obtain ⟨s, hs, hp⟩ := exists_ownReachable
    { logdir := some (bytes "/tmp"), specs := [(bytes "a", bytes "a::cat", bytes "/home/a")] } []
    (fun s => s.cmds.length == 1 && (s.str .logdir).isSome) (by decide +kernel)
  obtain ⟨-, hlogdir⟩ := (Bool.and_eq_true _ _).mp hp
  have hs : Own.Leaving s := .loop hs
  have hr := (cleanedOnce_iff (sound_of_leaving hs)).mp (h s (fun _ => true) hs)
  rw [hr.logdir] at hlogdir
  cases hlogdir

end Yar.Proofs
