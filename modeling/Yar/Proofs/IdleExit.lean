import Yar.Proofs.Rollback
import Yar.Proofs.Slowest
import Yar.Proofs.Stops

/-!
# idleexit

After `idleexit` every command is to leave the table when its process ends, and yar with the last one.
The exit handler does so. `cmdStop` reaps the process itself and leaves the command in the table, where
no exit event will find it again.
-/

namespace Yar.Proofs

open Program Transition

/-! ## What is promised -/

def forkedFor (id : CmdId) : Obs → Bool
  | .forked j _ => j == id
  | _ => false

/-- The command line has run and has come to its end. -/
def Ended (w : World) (id : CmdId) : Prop := w.trace.any (forkedFor id) = true ∧ (w.heap id).pid = none

instance (w : World) (id : CmdId) : Decidable (Ended w id) := inferInstanceAs (Decidable (_ ∧ _))

/-- A state of yar after `idleexit`. The last command cannot leave the table without yar leaving. -/
structure Draining (sys : Sys) (w : World) : Prop where
  exitonidle : w.gbls.exitonidle = true
  cmddelonexit : w.gbls.cmddelonexit = true
  marked : ∀ id ∈ w.gbls.cmds, (w.heap id).deleteonexit = true
  alive : ∃ id ∈ w.gbls.cmds, ¬Ended w id
  exits : ∀ id fd x w₁, w.gbls.cmds = [id] → cmdPidReap id w = .ok () w₁ →
    ∃ w', hdlr sys (.pidfd id fd) x w = .error .exit w'
  deleted : ∀ id w₁, w.gbls.cmds = [id] → cmdCleanup sys id w = .ok () w₁ →
    ∃ w', monDelFound sys id w = .error .exit w'

/-- A step of yar after `idleexit`: a command whose process has been reaped is no longer in the table,
and the exit handler starts nothing. -/
structure DrainStep (w : World) (e : Event) (w' : World) : Prop where
  removed : ∀ id ∈ w.gbls.cmds, ∀ p ∈ (w.heap id).pid, (∀ q ∈ w'.kern.procs, q.pid ≠ p) →
    id ∉ w'.gbls.cmds
  restarts : ∀ id fd x, e = .hdlr (.pidfd id fd) x →
    ∀ j p, .forked j p ∈ w'.trace → .forked j p ∈ w.trace

/-- `idleexit` has just been handled, in a state of which `P` holds. -/
def IdleExited (sys : Sys) (P : World → Prop) (w : World) : Prop :=
  ∃ w₀, Reachable sys (fun _ _ => True) w₀ ∧ P w₀ ∧ monIdleExit sys w₀ = .ok () w

/-- The event makes yar stop no command. -/
def StopsNone (sys : Sys) (w : World) (e : Event) : Prop :=
  match e with
  | .hdlr (.ifd r) _ =>
    match (w.kern.ports r).notify with
    | [] => True
    | mask :: rest => mask = .IN_OPEN ∨ ∀ id ∈ closedFor w r, ¬Stoppable (notified w r mask rest) id
  | .hdlr (.dom (.clt id)) x => ReadsClt sys w id x.rd → ¬Stoppable (byteTaken w id x.rd) id
  | _ => True

instance (sys : Sys) (w : World) (e : Event) : Decidable (StopsNone sys w e) := by
  unfold StopsNone
  split
  · exact decidableNotified _ _
  · infer_instance
  · infer_instance

/-- A command that is removed is the last one or leaves one behind that has not ended. -/
def LeavesOne (w : World) (e : Event) : Prop :=
  ∀ id ∈ deletes w e, w.gbls.cmds = [id] ∨ ∃ j ∈ w.gbls.cmds, j ≠ id ∧ ¬Ended w j

instance (w : World) (e : Event) : Decidable (LeavesOne w e) :=
  inferInstanceAs (Decidable (∀ id ∈ deletes w e, _))

/-- The condition of a run after `idleexit`. -/
def NoneLeftOver (sys : Sys) (w : World) (e : Event) : Prop := StopsNone sys w e ∧ LeavesOne w e

instance (sys : Sys) (w : World) (e : Event) : Decidable (NoneLeftOver sys w e) :=
  inferInstanceAs (Decidable (_ ∧ _))

variable {sys : Sys} {w w' : World} {id j : CmdId} {S : Set Part}

lemma any_forkedFor {trace : List Obs} :
    trace.any (forkedFor id) = true ↔ ∃ p, .forked id p ∈ trace := by
  rw [List.any_eq_true]
  constructor
  · rintro ⟨o, ho, hf⟩
    cases o with
    | forked k p =>
      obtain rfl : k = id := by simpa [forkedFor] using hf
      exact ⟨p, ho⟩
    | _ => simp [forkedFor] at hf
  · rintro ⟨p, hp⟩
    exact ⟨_, hp, by simp [forkedFor]⟩

/-- A command that has not ended goes on not to have ended. -/
lemma Spared.ended (h : Spared id w w') (he : Ended w' id) : Ended w id := by
  obtain ⟨hf, hpid⟩ := he
  obtain ⟨p, hp⟩ := any_forkedFor.mp hf
  constructor
  · rcases h.forks p hp with hp | hp
    · exact any_forkedFor.mpr ⟨p, hp⟩
    · rw [hpid] at hp
      cases hp
  · by_contra hne
    obtain ⟨q, hq⟩ := Option.ne_none_iff_exists'.mp hne
    rw [h.pid q hq] at hpid
    cases hpid

/-! ## The commands over a step -/

/-- A command that stays in the table over a step. -/
structure Carried (w w' : World) (id : CmdId) : Prop where
  mem : id ∈ w.gbls.cmds
  spared : Spared id w w'
  marked : (w.heap id).deleteonexit = true → (w'.heap id).deleteonexit = true

/-- A command that is new in the table. -/
structure Joined (w w' : World) (id : CmdId) : Prop where
  new : id ∉ w.gbls.cmds
  alive : ¬Ended w' id
  marked : w.gbls.cmddelonexit = true → (w'.heap id).deleteonexit = true

/-- What the step makes of the table: each command in it afterwards has been carried over or is new. -/
def Carries (w w' : World) : Prop := ∀ id ∈ w'.gbls.cmds, Carried w w' id ∨ Joined w w' id

/-- No address is used again, so a new command has never had a process. -/
def ForkedBelow (w : World) : Prop := ∀ id p, .forked id p ∈ w.trace → id < w.brk

lemma carries_of (hcmds : w'.gbls.cmds = w.gbls.cmds) (hs : ∀ id, Spared id w w')
    (hd : ∀ id ∈ w.gbls.cmds, (w.heap id).deleteonexit = true → (w'.heap id).deleteonexit = true) :
    Carries w w' := by
  intro id hid
  rw [hcmds] at hid
  exact .inl ⟨hid, hs id, hd id hid⟩

lemma Modifies.policy_eq (hm : Modifies S w w') (hp : .policy id ∉ S) :
    (w'.heap id).deleteonexit = (w.heap id).deleteonexit :=
  hm.same _ hp

lemma Modifies.carries (hm : Modifies S w w') (ht : .table ∉ S) (hp : ∀ id, .proc id ∉ S)
    (hf : .oForked ∉ S) (hd : ∀ id, .policy id ∉ S) : Carries w w' :=
  carries_of (hm.cmds_eq ht) (fun id => hm.spared (hp id) hf) fun id _ h => (hm.policy_eq (hd id)).trans h

lemma Carries.removed (hcmds : w'.gbls.cmds = w.gbls.cmds.filter (· ≠ j))
    (hs : ∀ id, id ≠ j → Spared id w w')
    (hd : ∀ id, id ≠ j → (w'.heap id).deleteonexit = (w.heap id).deleteonexit) : Carries w w' := by
  intro id hid
  rw [hcmds, List.mem_filter, decide_eq_true_eq] at hid
  exact .inl ⟨hid.1, hs id hid.2, fun h => (hd id hid.2).trans h⟩

lemma NotAdded.carries (hn : NotAdded w w') (ht : TableInv w) : Carries w w' := by
  intro id hid
  rw [hn.modifies.cmds_eq (by simp [cmdParts, ttyParts])] at hid
  have hne : id ≠ w.brk := (ht.lt_brk id hid).ne
  refine .inl ⟨hid, hn.modifies.spared ?_ ?_, fun h => (hn.modifies.policy_eq ?_).trans h⟩ <;>
    simp [cmdParts, ttyParts, hne]

lemma Added.carries {spec : CmdSpec} (ha : Added w w' j spec) (ht : TableInv w) (hb : ForkedBelow w) :
    Carries w w' := by
  intro id hid
  rw [ha.table, List.mem_append, List.mem_singleton] at hid
  rcases hid with hid | rfl
  · have hne : id ≠ j := by
      rw [ha.id_eq]
      exact (ht.lt_brk id hid).ne
    refine .inl ⟨hid, ha.modifies.spared ?_ ?_, fun h => (ha.modifies.policy_eq ?_).trans h⟩ <;>
      simp [addParts, cmdParts, ttyParts, hne]
  · have hnew : ¬id < w.brk := by
      rw [ha.id_eq]
      exact Nat.lt_irrefl _
    refine .inr ⟨fun hid => hnew (ht.lt_brk id hid), fun he => ?_,
      fun hd => ha.init.deleteonexit.trans hd⟩
    obtain ⟨p, hp⟩ := any_forkedFor.mp he.1
    rw [ha.modifies.forked_iff (by simp [addParts, cmdParts, ttyParts])] at hp
    exact hnew (hb id p hp)

/-- What follows an addition in the same step leaves the commands alone. -/
lemma Carries.then {w₁ : World} (h : Carries w w₁) (hcmds : w'.gbls.cmds = w₁.gbls.cmds)
    (hs : ∀ id, Spared id w₁ w')
    (hd : ∀ id, (w'.heap id).deleteonexit = (w₁.heap id).deleteonexit) : Carries w w' := by
  intro id hid
  rw [hcmds] at hid
  rcases h id hid with hc | hj
  · exact .inl ⟨hc.mem, trans_of _ hc.spared (hs id), fun hm => (hd id).trans (hc.marked hm)⟩
  · exact .inr ⟨hj.new, fun he => hj.alive ((hs id).ended he), fun hm => (hd id).trans (hj.marked hm)⟩

lemma monAddRegister_policy {u : Unit} (h : monAddRegister sys j w = .ok u w') :
    (w'.heap id).deleteonexit = (w.heap id).deleteonexit := by
  rcases monAddRegister_cases h with ⟨hm, -⟩ | ⟨hm, -⟩ | ⟨-, w₁, b, hm, hstart⟩
  · exact hm.policy_eq (by simp [bcstParts, ttyParts])
  · exact hm.policy_eq (by simp)
  · have hm' : Modifies (startParts j) w₁ w' := cmdStart_modifies _ subset_rfl hstart
    exact (hm'.policy_eq (by simp [startParts])).trans (hm.policy_eq (by simp))

/-- What `idleexit` has done when yar goes on after it. -/
structure Marked (w w' : World) : Prop where
  cmds : w'.gbls.cmds = w.gbls.cmds
  options : w'.gbls.exitonidle = true ∧ w'.gbls.cmddelonexit = true
  marked : ∀ id ∈ w.gbls.cmds, (w'.heap id).deleteonexit = true
  modifies : Modifies idleExitParts w w'

lemma forM_marks {ids : List CmdId} {u : Unit}
    (h : (ids.forM fun id => updCmd id fun this => { this with deleteonexit := true }) w = .ok u w') :
    w'.gbls = w.gbls ∧ ∀ id, id ∈ ids ∨ (w.heap id).deleteonexit = true →
      (w'.heap id).deleteonexit = true := by
  induction ids generalizing w with
  | nil =>
    rw [(pure_eq_ok.mp h).2]
    simp
  | cons j ids ih =>
    obtain ⟨_, w₁, hupd, h⟩ := forM_cons_eq_ok.mp h
    obtain ⟨hheap, hgbls, -, -, -, hother⟩ := updCmd_ok hupd
    obtain ⟨hg, hmark⟩ := ih h
    refine ⟨hg.trans hgbls, fun id hid => hmark id ?_⟩
    by_cases hj : id = j
    · rw [hj, hheap]
      exact .inr rfl
    · rw [hother id hj]
      simpa [hj] using hid

lemma monIdleExit_ok {u : Unit} (h : monIdleExit sys w = .ok u w') : Marked w w' := by
  have hm : Modifies idleExitParts w w' := monIdleExit_modifies sys (by simp [idleExitParts])
    (by simp [idleExitParts]) (by simp [idleExitParts]) h
  replace h := get_bind_eq_ok.mp (modify_bind_eq_ok.mp h)
  split at h
  · obtain ⟨_, w₁, -, h⟩ := bind_eq_ok.mp h
    exact (exit_keeps (R := fun _ _ => False) sys h).elim
  · obtain ⟨hg, hmark⟩ := forM_marks h
    exact ⟨by rw [hg], by simp [hg], fun id hid => hmark id (.inl hid), hm⟩

/-- A step in which yar stops no command carries the table over. -/
theorem Handled.carries {s : Source} {x : Answer} (ht : TableInv w) (hb : ForkedBelow w)
    (hd : ∀ id ∈ w.gbls.cmds, (w.heap id).deleteonexit = true) (hok : StopsNone sys w (.hdlr s x))
    (hh : Handled sys s x w w') : Carries w w' := by
  have hremoved {w w' : World} {id j : CmdId} (hne : id ≠ j) (hr : Removed w w' j) :
      (w'.heap id).deleteonexit = (w.heap id).deleteonexit :=
    hr.modifies.policy_eq
      (by simp [removeParts, cleanupParts, procParts, startParts, cmdParts, ttyParts, hne])
  cases hh with
  | bcst hs h =>
    have hm : Modifies bcstInputParts w w' := bcstttyEvent_modifies sys _ subset_rfl h
    exact hm.carries (by simp [bcstInputParts]) (by simp [bcstInputParts]) (by simp [bcstInputParts])
      (by simp [bcstInputParts])
  | clt j hs hid h =>
    rw [hs] at hok
    have hm : Modifies (inputParts j) w w' := cmdCltttyEvent_modifies sys _ subset_rfl h
    exact carries_of (hm.cmds_eq (by simp [inputParts, procParts, startParts]))
      (fun id => cmdCltttyEvent_spared (fun hj => hj ▸ hok) h)
      fun _ _ hm' => (hm.policy_eq (by simp [inputParts, procParts, startParts])).trans hm'
  | cmd j hs hid h =>
    have hm : Modifies (outputParts j) w w' :=
      Keeps.discard (cmdttyProcessOutput_modifies sys _ subset_rfl) h
    exact hm.carries (by simp [outputParts]) (by simp [outputParts]) (by simp [outputParts])
      (by simp [outputParts])
  | notify r hs hid h =>
    rw [hs] at hok
    have hm : Modifies ({.notify r, .opens r} ∪ nedParts r) w w' :=
      ttyNotifyEvent_modifies sys r subset_rfl h
    obtain ⟨mask, rest, hq, hned⟩ := ttyNotifyEvent_cases h
    rw [StopsNone, hq] at hok
    have hm₁ := notified_modifies w r mask rest
    refine carries_of (hm.cmds_eq ?_) (fun id => ?_) fun id _ hm' => (hm.policy_eq ?_).trans hm'
    · cases r <;> simp [nedParts, procParts, startParts]
    · refine trans_of _ (hm₁.spared (by simp) (by simp)) (nedHdlr_spared (hok.imp_right fun hs => ?_) hned)
      refine or_iff_not_imp_left.mpr fun hmem => hs id ?_
      cases r <;> exact not_not.mp hmem
    · cases r <;> simp [nedParts, procParts, startParts]
  | pid j fd hs hid h =>
    obtain ⟨w₁, hreap, ⟨-, hr⟩ | ⟨hn, -⟩⟩ := cmdPidEvent_cases hid h
    · have hrem := Removed.of_reaped hreap (monDelFound_removed hr)
      exact Carries.removed hrem.table (fun id hne => trans_of _ ((cmdPidReap_ok hreap).spared hne)
        (monDelFound_spared hne hr)) fun id hne => hremoved hne hrem
    · rw [hd j hid] at hn
      cases hn
  | del line name j hs hx hl hf h =>
    have hrem := monDelFound_removed h
    exact Carries.removed hrem.table (fun id hne => monDelFound_spared hne h)
      fun id hne => hremoved hne hrem
  | add line cmdstr hs hx hl h =>
    rcases monAdd_cases h with hn | ⟨j, spec, w₁, ha, hreg⟩
    · exact hn.carries ht
    · exact (ha.carries ht hb).then (monAddRegister_kept hreg).cmds (fun _ => monAddRegister_spared hreg)
        fun _ => monAddRegister_policy hreg
  | drain line args hs hx hl h =>
    have hm := monDrain_modifies sys (S := {p | ∃ id, p ∈ outputParts id}) (fun id p hp => ⟨id, hp⟩) h
    exact hm.carries (by simp [outputParts]) (by simp [outputParts]) (by simp [outputParts])
      (by simp [outputParts])
  | idleExit line args hs hx hl h =>
    have hi := monIdleExit_ok h
    exact carries_of hi.cmds (fun _ => hi.modifies.spared (by simp [idleExitParts])
      (by simp [idleExitParts])) fun id hid _ => hi.marked id hid
  | toggle line m args g hs hx hl hw hcore hrestart hlb =>
    exact (toggle_modifies hw hcore).carries (by simp) (by simp) (by simp) (by simp)
  | idle hs hw =>
    rw [hw]
    exact carries_of rfl (fun _ => refl_of _ _) fun _ _ hm => hm

lemma apply_carries (w : World) (e : Env) : Carries w (e.apply w) := by
  refine (apply_modifies w e).carries ?_ ?_ ?_ ?_ <;> cases e <;> simp [envParts]

/-- A removal forks nothing. -/
lemma remove_forked {p : Pid} (h : (do cmdCleanup sys j; hashDel j) w = .ok () w') :
    .forked id p ∈ w'.trace ↔ .forked id p ∈ w.trace := by
  obtain ⟨_, w₁, hclean, hdel⟩ := bind_eq_ok.mp h
  obtain ⟨_, w₂, hstop, hclear⟩ := bind_eq_ok.mp hclean
  obtain ⟨b, hstop⟩ := discard_eq_ok.mp hstop
  have hm : Modifies (clearParts j) w₂ w₁ := cmdClear_modifies sys subset_rfl hclear
  have hm' : Modifies {.table, .oRemoved} w₁ w' := hashDel_modifies (by simp) (by simp) hdel
  rw [hm'.forked_iff (by simp), hm.forked_iff (by simp [clearParts, ttyParts])]
  rcases cmdStop_cases hstop with ⟨-, rfl⟩ | ⟨-, -, -, rfl⟩ | ⟨-, -, w₃, hsend, hterm⟩
  · rfl
  · rfl
  · have hsent : Modifies {.lastwrite j, .oWrite (.cmd j)} w w₃ :=
      cmdSendStopstr_modifies sys (by simp) (by simp) hsend
    rw [(cmdTerminate_ok hterm).stopped.modifies.forked_iff (by simp), hsent.forked_iff (by simp)]

/-! ## No address is used again -/

lemma ForkedBelow.frame (h : ForkedBelow w) (hm : Modifies S w w') (hbrk : w.brk ≤ w'.brk)
    (hf : .oForked ∉ S) : ForkedBelow w' :=
  fun id p hp => (h id p ((hm.forked_iff hf).mp hp)).trans_le hbrk

lemma GBLSAddCmd_forkedBelow {cstr : CStr} {res : Option CmdId} (h : ForkedBelow w)
    (ha : GBLSAddCmd sys cstr w = .ok res w') : ForkedBelow w' := by
  rcases GBLSAddCmd_cases ha with ⟨-, hn⟩ | ⟨id, spec, -, hadd⟩
  · exact h.frame hn.modifies hn.brk (by simp [cmdParts, ttyParts])
  · exact h.frame hadd.modifies (hadd.brk ▸ Nat.le_succ _) (by simp [addParts, cmdParts, ttyParts])

lemma Action.forkedBelow {ok : World → Op → Prop} (ha : Action sys ok w w') (ht : TableInv w)
    (h : ForkedBelow w) : ForkedBelow w' := by
  have kept {S : Set Part} (hm : Modifies S w w') (hb : .brk ∉ S) (hf : .oForked ∉ S) :
      ForkedBelow w' := h.frame hm (hm.brk_eq hb).ge hf
  cases ha with
  | @quiet S hS hm hflg =>
    have hnot {p : Part} (hp : p.quiet = false) : p ∉ S := fun hpS => by
      rw [hS p hpS] at hp
      cases hp
    exact kept hm (hnot rfl) (hnot rfl)
  | notified r mask rest hr hq hw =>
    rw [hw]
    have hm := notified_modifies w r mask rest
    exact h.frame hm (hm.brk_eq (by simp)).ge (by simp)
  | start id d hid hf =>
    intro k p hp
    rw [hf.modifies.brk_eq (by simp [forkParts])]
    rw [hf.trace] at hp
    rcases List.mem_cons.mp hp with hp | hp
    · cases hp
      exact ht.lt_brk id hid
    · exact h k p hp
  | stop id hid hs => exact kept hs.stopped.modifies (by simp) (by simp)
  | reap id hid hok hr => exact kept hr.stopped.modifies (by simp) (by simp)
  | remove id hid hok hr =>
    have hb : w'.brk = w.brk := (remove_ok hr).1.brk_eq
      (by simp [removeParts, cleanupParts, procParts, startParts, cmdParts, ttyParts])
    intro k p hp
    rw [hb]
    exact h k p ((remove_forked hr).mp hp)
  | add cstr r hok hadd => exact GBLSAddCmd_forkedBelow h hadd
  | register r c hr hreg =>
    exact kept (ttyRegisterEvents_modifies (S := {.kproc}) r (by simp) hreg) (by simp) (by simp)
  | enable b hok hflg hlen he =>
    exact kept (enable_modifies he) (by simp [bcstParts, ttyParts]) (by simp [bcstParts, ttyParts])

lemma reachable_forkedBelow {ok : World → Event → Prop} (hw : Reachable sys ok w) : ForkedBelow w := by
  have stage {α : Type} {m : Act α} {S : Set Part} (hm : Keeps (Modifies S) m) (hb : .brk ∉ S)
      (hf : .oForked ∉ S) : Preserves ForkedBelow m := fun _ _ _ h hinv =>
    hinv.frame (hm h) ((hm h).brk_eq hb).ge hf
  refine reachable_of_actions (P := ForkedBelow) (Q := ForkedBelow) (fun o id p hp => by cases hp)
    (fun s => ?_) ?_ ?_ ?_ (fun s w id w' _ h ha => GBLSAddCmd_forkedBelow h ha) ?_
    (fun w w' _ h hreg => ?_) (fun w e h _ => ?_) (fun w s x _ _ _ => Permits.trivial s x w)
    (fun w w' ht h ha => ha.forkedBelow ht h) hw
  · exact stage (S := ∅) (argsParseSpec_modifies sys s) (by simp) (by simp)
  · exact stage (S := {.flags, .names}) (logInit_modifies sys (by simp) (by simp)) (by simp) (by simp)
  · exact stage (monttyCreate_modifies sys subset_rfl) (by simp [ttyParts]) (by simp [ttyParts])
  · exact stage (S := {.flags, .names}) (fsCreate_modifies sys (by simp) (by simp)) (by simp) (by simp)
  · exact stage (bcstttyInit_modifies sys subset_rfl) (by simp [bcstParts, ttyParts])
      (by simp [bcstParts, ttyParts])
  · exact stage (S := {.kproc}) (theLoopRegister_modifies (by simp)) (by simp) (by simp) hreg h
  · have hm := apply_modifies w e
    refine h.frame hm (hm.brk_eq ?_).ge ?_ <;> cases e <;> simp [envParts]

/-! ## The last command -/

/-- `cleanup` after the commands. -/
lemma cleanup_end_returns (sys : Sys) (w : World) : Returns (do
    updGbls fun g => { g with slowestcmd := none }
    fsCleanup sys
    ttyCleanup sys .mon
    logCleanup sys
    updGbls Globals.clear) w :=
  .bind (.modifyState _ _) fun _ _ _ => .bind ⟨_, _, fsCleanup_unmounts sys _⟩ fun _ _ _ =>
    (ttyCleanup_returns _).bind fun _ _ _ => .bind ⟨_, _, logCleanup_closes sys _⟩ fun _ _ _ => .modifyState _ _

variable (sys) in
lemma cleanup_returns (h : w.gbls.cmds = []) : Returns (cleanup sys) w := by
  refine .get_bind (.bind (.when fun _ => ttyCleanup_returns w) fun _ w₁ _ => .bind ?_ fun _ w₂ _ =>
    cleanup_end_returns sys w₂)
  rw [h]
  exact .pure _ _

variable (sys) in
lemma exitIfIdle_exits (hcmds : w.gbls.cmds = []) (hx : w.gbls.exitonidle = true) :
    ∃ w', exitIfIdle sys w = .error .exit w' := by
  obtain ⟨_, w₁, h₁⟩ := cleanup_returns sys hcmds
  obtain ⟨_, w₂, h₂⟩ := cleanup_returns sys (cleanup_cmds h₁)
  refine ⟨w₂, get_bind_eq_error.mpr (when_eq_error.mpr ⟨⟨by simp [hcmds], hx⟩, ?_⟩)⟩
  exact bind_eq_error.mpr (.inr ⟨_, w₁, h₁, bind_eq_error.mpr (.inr ⟨_, w₂, h₂, rfl⟩)⟩)

variable (sys) in
lemma hashDel_exits (hcmds : w.gbls.cmds = [id]) (hx : w.gbls.exitonidle = true) :
    ∃ w', (do hashDel id; exitIfIdle sys) w = .error .exit w' := by
  obtain ⟨w', h⟩ := exitIfIdle_exits sys
    (w := { w with gbls.cmds := w.gbls.cmds.filter (· ≠ id), trace := .removed id :: w.trace })
    (by simp [hcmds]) hx
  exact ⟨w', bind_eq_error.mpr (.inr ⟨(), _, rfl, h⟩)⟩

lemma cmdCleanup_globals {u : Unit} (h : cmdCleanup sys id w = .ok u w') :
    w'.gbls.cmds = w.gbls.cmds ∧ w'.gbls.exitonidle = w.gbls.exitonidle := by
  have hm : Modifies (cleanupParts id) w w' := cmdCleanup_modifies sys subset_rfl h
  refine ⟨hm.cmds_eq ?_, (congrArg Globals.exitonidle (hm.flags_eq ?_) :)⟩ <;>
    simp [cleanupParts, procParts, startParts, cmdParts, ttyParts]

lemma monDelFound_exits {w₁ : World} {u : Unit} (hcmds : w.gbls.cmds = [id])
    (hx : w.gbls.exitonidle = true) (hc : cmdCleanup sys id w = .ok u w₁) :
    ∃ w', monDelFound sys id w = .error .exit w' := by
  obtain ⟨hcmds₁, hx₁⟩ := cmdCleanup_globals hc
  obtain ⟨w', h⟩ := hashDel_exits sys (hcmds₁.trans hcmds) (hx₁.trans hx)
  exact ⟨w', bind_eq_error.mpr (.inr ⟨_, w₁, hc, h⟩)⟩

variable (sys) in
/-- The exit of the last command's process ends yar. -/
lemma cmdPidEvent_exits {w₁ : World} {u : Unit} (hcmds : w.gbls.cmds = [id])
    (hx : w.gbls.exitonidle = true) (hd : (w.heap id).deleteonexit = true)
    (hreap : cmdPidReap id w = .ok u w₁) : ∃ w', cmdPidEvent sys id w = .error .exit w' := by
  have hm : Modifies (startParts id) w w₁ := cmdPidReap_modifies subset_rfl hreap
  have hcmds₁ : w₁.gbls.cmds = [id] := (hm.cmds_eq (by simp [startParts])).trans hcmds
  have hx₁ : w₁.gbls.exitonidle = true :=
    (congrArg Globals.exitonidle (hm.flags_eq (by simp [startParts])) :).trans hx
  have hd₁ : (w₁.heap id).deleteonexit = true := (hm.policy_eq (by simp [startParts])).trans hd
  have hfind : w₁.hashFind (w₁.heap id).name = some id := by
    rw [World.hashFind, hcmds₁]
    simp
  obtain ⟨_, w₂, hclean⟩ : Returns (cmdCleanup sys id) w₁ :=
    cmdCleanup_returns (cmdPidReap_ok hreap).pid
  obtain ⟨hcmds₂, hx₂⟩ := cmdCleanup_globals hclean
  obtain ⟨w', h⟩ := hashDel_exits sys (hcmds₂.trans hcmds₁) (hx₂.trans hx₁)
  refine ⟨w', bind_eq_error.mpr (.inr ⟨_, w₁, hreap, get_bind_eq_error.mpr ?_⟩)⟩
  rw [if_pos hd₁]
  refine get_bind_eq_error.mpr (get_bind_eq_error.mpr ?_)
  rw [hfind]
  refine bind_eq_error.mpr (.inr ⟨_, w₂, hclean, bind_eq_error.mpr (.inr ⟨(), w₂, ?_, h⟩)⟩)
  exact require_eq_ok.mpr ⟨rfl, rfl⟩

/-! ## Runs after idleexit -/

/-- What a run after `idleexit` maintains. -/
structure MarkedAll (w : World) : Prop where
  options : w.gbls.exitonidle = true ∧ w.gbls.cmddelonexit = true
  marked : ∀ id ∈ w.gbls.cmds, (w.heap id).deleteonexit = true
  alive : ∃ id ∈ w.gbls.cmds, ¬Ended w id

lemma exitOptions_settled : Settled fun g => (g.exitonidle, g.cmddelonexit) := by
  refine ⟨fun g g' hf hd => ?_, fun _ => rfl, fun g g' hc => ?_⟩
  · exact Prod.ext (congrArg Globals.exitonidle hf :) hd
  · exact Prod.ext (congrArg Globals.exitonidle hc :) (congrArg Globals.cmddelonexit hc :)

lemma MarkedAll.draining (h : MarkedAll w) : Draining sys w := by
  refine ⟨h.options.1, h.options.2, h.marked, h.alive, fun id fd x w₁ hcmds hreap => ?_,
    fun id w₁ hcmds hc => monDelFound_exits hcmds h.options.1 hc⟩
  have hid : id ∈ w.gbls.cmds := by simp [hcmds]
  obtain ⟨w', hexit⟩ := cmdPidEvent_exits sys hcmds h.options.1 (h.marked id hid) hreap
  refine ⟨w', bind_eq_error.mpr (.inr ⟨(), w, ?_, hexit⟩)⟩
  exact get_bind_eq_ok.mpr (require_eq_ok.mpr ⟨hid, rfl⟩)

lemma Carries.marked (h : Carries w w') (hd : MarkedAll w) :
    ∀ id ∈ w'.gbls.cmds, (w'.heap id).deleteonexit = true := by
  intro id hid
  rcases h id hid with hc | hj
  · exact hc.marked (hd.marked id hc.mem)
  · exact hj.marked hd.options.2

/-- A command that has not ended and stays in the table has still not ended. -/
lemma Carries.alive (h : Carries w w') (hid : id ∈ w'.gbls.cmds) (ha : ¬Ended w id) : ¬Ended w' id := by
  rcases h id hid with hc | hj
  · exact fun he => ha (hc.spared.ended he)
  · exact hj.alive

lemma MarkedAll.step {e : Event} (hr : Reachable sys (fun _ _ => True) w) (h : MarkedAll w)
    (hok : NoneLeftOver sys w e) (hs : Step sys w e w') : MarkedAll w' := by
  obtain ⟨id, hid, ha⟩ := h.alive
  cases e with
  | env e =>
    obtain rfl := modify_eq_ok.mp hs
    have hm := apply_modifies w e
    have hc := apply_carries w e
    have hcmds : (e.apply w).gbls.cmds = w.gbls.cmds := hm.cmds_eq (by cases e <;> simp [envParts])
    have hopt : _ = (w.gbls.exitonidle, w.gbls.cmddelonexit) :=
      hm.settled exitOptions_settled (by cases e <;> simp [envParts]) (by cases e <;> simp [envParts])
    obtain ⟨hx, hn⟩ := Prod.mk.inj hopt
    exact ⟨⟨hx.trans h.options.1, hn.trans h.options.2⟩, hc.marked h,
      id, hcmds ▸ hid, hc.alive (hcmds ▸ hid) ha⟩
  | hdlr s x =>
    have hh := hdlr_cases hs
    have hc := hh.carries (reachable_tableInv hr) (reachable_forkedBelow hr) h.marked hok.1
    have hopt : w'.gbls.exitonidle = true ∧ w'.gbls.cmddelonexit = true := by
      rcases hh.settled exitOptions_settled with hopt | hopt
      · obtain ⟨hx, hn⟩ := Prod.mk.inj hopt
        exact ⟨hx.trans h.options.1, hn.trans h.options.2⟩
      · exact Prod.mk.inj hopt
    refine ⟨hopt, hc.marked h, ?_⟩
    cases hh.tableStep with
    | kept hk =>
      have hmem : id ∈ w'.gbls.cmds := hk.cmds ▸ hid
      exact ⟨id, hmem, hc.alive hmem ha⟩
    | added j spec w₁ hadd hk =>
      have hmem : id ∈ w'.gbls.cmds := by
        rw [hk.cmds, hadd.table]
        exact List.mem_append_left _ hid
      exact ⟨id, hmem, hc.alive hmem ha⟩
    | removed j hdel hj hrem =>
      rcases hok.2 j hdel with hlast | ⟨k, hk, hne, hka⟩
      · -- the last command does not leave the table while yar goes on
        have hempty : w'.gbls.cmds = [] := by simp [hrem.table, hlast]
        rw [hrem.stays hempty] at hopt
        cases hopt.1
      · have hmem : k ∈ w'.gbls.cmds := by
          rw [hrem.table, List.mem_filter]
          exact ⟨hk, by simpa using hne⟩
        exact ⟨k, hmem, hc.alive hmem hka⟩

lemma MarkedAll.drainStep {e : Event} (hr : Reachable sys (fun _ _ => True) w) (h : MarkedAll w)
    (hok : NoneLeftOver sys w e) (hs : Step sys w e w') : DrainStep w e w' := by
  have hc : Carries w w' := by
    cases e with
    | env e =>
      obtain rfl := modify_eq_ok.mp hs
      exact apply_carries w e
    | hdlr s x =>
      exact (hdlr_cases hs).carries (reachable_tableInv hr) (reachable_forkedBelow hr) h.marked hok.1
  have hchild : Children w'.gbls.cmds w' := by
    obtain ⟨o, hr⟩ := hr
    exact reachable_children (⟨o, hr.next trivial hs⟩ : Reachable sys (fun _ _ => True) w')
  constructor
  · intro id hid p hp hgone hid'
    rcases hc id hid' with hcar | hj
    · have hpid := hcar.spared.pid p hp
      rcases hchild.running id hid' with ⟨hnone, -⟩ | ⟨_, hq, hown⟩
      · rw [hpid] at hnone
        cases hnone
      · obtain ⟨q, hmem, rfl⟩ := List.mem_map.mp hq
        exact hgone q hmem (Option.some_inj.mp (hown.1.symm.trans hpid))
    · exact hj.new hid
  · rintro id fd x rfl j p hp
    obtain ⟨hid, hpid⟩ := live_ok hs
    obtain ⟨w₁, hreap, ⟨-, hr⟩ | ⟨hn, -⟩⟩ := cmdPidEvent_cases hid hpid
    · obtain ⟨_, w₂, hclean, hr⟩ := bind_eq_ok.mp hr
      obtain ⟨_, w₃, hdel, hr⟩ := bind_eq_ok.mp hr
      rw [(exitIfIdle_ok sys hr).1, remove_forked (bind_eq_ok.mpr ⟨_, w₂, hclean, hdel⟩)] at hp
      exact ((cmdPidReap_ok hreap).stopped.modifies.forked_iff (by simp)).mp hp
    · rw [h.marked id hid] at hn
      cases hn

lemma monIdleExit_exits (hcmds : w.gbls.cmds = []) : ∃ w', monIdleExit sys w = .error .exit w' := by
  obtain ⟨_, w₁, h₁⟩ := cleanup_returns sys
    (w := { w with gbls.exitonidle := true, gbls.cmddelonexit := true }) hcmds
  obtain ⟨_, w₂, h₂⟩ := cleanup_returns sys (cleanup_cmds h₁)
  refine ⟨w₂, modify_bind_eq_error.mpr (get_bind_eq_error.mpr ?_)⟩
  rw [if_pos (by simp [hcmds])]
  exact bind_eq_error.mpr (.inr ⟨_, w₁, h₁, bind_eq_error.mpr (.inr ⟨_, w₂, h₂, rfl⟩)⟩)

lemma IdleExited.reachable {P : World → Prop} (h : IdleExited sys P w) :
    Reachable sys (fun _ _ => True) w := by
  obtain ⟨w₀, ⟨o, hw₀⟩, -, hi⟩ := h
  have hline : monLookup (bytes "ie") = some (.monIdleExit, none) := by decide
  refine ⟨o, hw₀.next (e := .hdlr (.dom .mon) { line := some (bytes "ie") }) trivial ?_⟩
  simpa only [Step, Event.act, hdlr_line, monProcess, hline, monRun] using hi

lemma reach_reachable {P : World → Prop} {ok : World → Event → Prop}
    (hw : Reach (IdleExited sys P) (Step sys) ok w) : Reachable sys (fun _ _ => True) w := by
  induction hw with
  | start h => exact h.reachable
  | next _ _ hs ih =>
    obtain ⟨o, hw⟩ := ih
    exact ⟨o, hw.next trivial hs⟩

/-- At `idleexit`, some command has not ended. -/
def SomeAlive (w : World) : Prop := ∃ id ∈ w.gbls.cmds, ¬Ended w id

instance (w : World) : Decidable (SomeAlive w) :=
  inferInstanceAs (Decidable (∃ id ∈ w.gbls.cmds, ¬Ended w id))

lemma IdleExited.drains (h : IdleExited sys SomeAlive w) : MarkedAll w := by
  obtain ⟨w₀, -, ⟨id, hid, ha⟩, hi⟩ := h
  have hm := monIdleExit_ok hi
  refine ⟨hm.options, fun id hid => hm.marked id (hm.cmds ▸ hid), id, hm.cmds ▸ hid, fun he => ha ?_⟩
  exact (hm.modifies.spared (by simp [idleExitParts]) (by simp [idleExitParts])).ended he

lemma reach_drains (hw : Reach (IdleExited sys SomeAlive) (Step sys) (NoneLeftOver sys) w) : MarkedAll w :=
  hw.invariant (fun _ h => h.drains) fun _ _ _ hr h hok hs => h.step (reach_reachable hr) hok hs

/-- After `idleexit` yar drains and exits, in every run in which it stops no command itself and no
removal leaves only commands that had ended before. -/
theorem idleexit_drains (sys : Sys) :
    (∀ w : World, w.gbls.cmds = [] → ∃ w', monIdleExit sys w = .error .exit w') ∧
      ∀ w, Reach (IdleExited sys SomeAlive) (Step sys) (NoneLeftOver sys) w → Draining sys w ∧
        ∀ e w', NoneLeftOver sys w e → Step sys w e w' → DrainStep w e w' := by
  refine ⟨fun w hcmds => monIdleExit_exits hcmds, fun w hw => ?_⟩
  have h := reach_drains hw
  exact ⟨h.draining, fun e w' hok hs => h.drainStep (reach_reachable hw) hok hs⟩

/-- `idleexit` and the events after it, executed. -/
def runIdleExit (sys : Sys) (P : World → Prop) [DecidablePred P] (ok : World → Event → Prop)
    [∀ w e, Decidable (ok w e)] (es : List Event) (p : World → Bool) (w : World) : Bool :=
  decide (P w) && match monIdleExit sys w with
  | .ok _ w₁ => (runEvents sys ok es w₁).any p
  | .error _ _ => false

lemma exists_idleExited (sys : Sys) (P : World → Prop) [DecidablePred P] (ok : World → Event → Prop)
    [∀ w e, Decidable (ok w e)] (o : Options) (before after : List Event) (p : World → Bool)
    (h : (runFrom sys (fun _ _ => True) o before).any (runIdleExit sys P ok after p) = true) :
    ∃ w, Reach (IdleExited sys P) (Step sys) ok w ∧ p w = true := by
  obtain ⟨w₀, hw₀, hrun⟩ := exists_reachable sys (fun _ _ => True) o before _ h
  rw [runIdleExit, Bool.and_eq_true, decide_eq_true_eq] at hrun
  obtain ⟨hP, hrun⟩ := hrun
  split at hrun
  · obtain ⟨w, hw, hp⟩ := (Option.any_eq_true _ _).mp hrun
    exact ⟨w, runEvents_reach (.start ⟨w₀, hw₀, hP, ‹_›⟩) hw, hp⟩
  · cases hrun

/-- Of two commands that run, the process of the first one ends. -/
theorem idleexit_drains_first : ∃ w,
    Reach (IdleExited quietSys SomeAlive) (Step quietSys) (NoneLeftOver quietSys) w ∧
      w.gbls.cmds = [1] ∧ Draining quietSys w := by
  obtain ⟨w, hw, hp⟩ := exists_idleExited quietSys SomeAlive (NoneLeftOver quietSys) slowFirst
    (openClt ++ [.env (.opened (.clt 1)), .hdlr (.ifd (.clt 1)) {}])
    [.env (.exited 0 0), .hdlr (.pidfd 0 17) {}] (fun w => decide (w.gbls.cmds = [1]))
    (by decide +kernel)
  exact ⟨w, hw, of_decide_eq_true hp, ((idleexit_drains quietSys).2 w hw).1⟩

/-- The client of the only command closes its tty: yar stops the command and stays, with nothing left
that could end. -/
theorem idleexit_not_always_drains :
    ¬∀ (sys : Sys) (w : World), Reach (IdleExited sys fun _ => True) (Step sys) (fun _ _ => True) w →
      Draining sys w ∧ ∀ e w', Step sys w e w' → DrainStep w e w' := by
  intro hall
  obtain ⟨w, hw, hp⟩ := exists_idleExited quietSys (fun _ => True) (fun _ _ => True) oneCmd openClt
    [.env (.closed (.clt 0) true), .hdlr (.ifd (.clt 0)) {}]
    (fun w => decide (∀ id ∈ w.gbls.cmds, Ended w id)) (by decide +kernel)
  obtain ⟨id, hid, ha⟩ := (hall quietSys w hw).1.alive
  exact ha (of_decide_eq_true hp id hid)

end Yar.Proofs
