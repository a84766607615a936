import Yar.Proofs.Ready
import Yar.Proofs.Relay

/-!
# Invariants of a command

What depends on the process of a command, its ready count and its output alone holds in every run,
if starting and stopping the process keep it.
-/

namespace Yar.Proofs

open Program

variable {sys : Sys} {w w' : World} {id j : CmdId} {S : Set Part}

/-- The parts that an invariant of a command may look at. -/
def watchParts (id : CmdId) : Set Part :=
  {.options, .nread (.cmd id), .hist (.cmd id), .ready id, .proc id, .oForked, .oOutput}

/-- The process of the command is gone and has left no complete match behind. -/
structure Stopped (w w' : World) (id : CmdId) : Prop where
  modifies : Modifies {.kproc, .proc id, .ready id, .readycount} w w'
  pid : (w'.heap id).pid = none
  readycnt : (w'.heap id).readycnt = 0 ∨ (w'.heap id).readycnt = (w.heap id).readycnt
  unmatched : w'.gbls.readystrlen ≠ 0 → ¬Matched w' id

structure CmdInv (Q : World → CmdId → Prop) : Prop where
  frame : ∀ {w w' S id}, Q w id → Modifies S w w' → (∀ p ∈ watchParts id, p ∉ S) → Q w' id
  forked : ∀ {sys w w' j d id}, Forked sys w w' j d → Q w id → Q w' id
  stopped : ∀ {w w' id}, Stopped w w' id → Q w id → Q w' id
  added : ∀ {w w' id spec}, Added w w' id spec → Q w' id
  toggled : ∀ {w id} (g : Globals), globalsCore g = globalsCore w.gbls → Q w id →
    Q { w with gbls := g } id

/-! ## The end of a process -/

lemma reset_readycnt (h : cmdIsReady w.gbls (w.heap id) = false ∧ w' = w ∨ ResetReady w w' id) :
    (w'.heap id).readycnt = 0 ∨ (w'.heap id).readycnt = (w.heap id).readycnt := by
  rcases h with ⟨-, hw⟩ | hr
  · exact .inr (by rw [hw])
  · exact .inl hr.readycnt

lemma reset_modifies (h : cmdIsReady w.gbls (w.heap id) = false ∧ w' = w ∨ ResetReady w w' id) :
    Modifies {.ready id, .readycount} w w' := by
  rcases h with ⟨-, hw⟩ | hr
  · rw [hw]
    exact refl_of _ w
  · exact hr.modifies

lemma Terminated.stopped {epoll : Bool} (ht : Terminated w w' id epoll) : Stopped w w' id := by
  obtain ⟨w₁, hreset, hm⟩ := ht.reset
  have hm₁ := reset_modifies hreset
  have hm' : Modifies {.kproc, .proc id, .ready id, .readycount} w w' :=
    trans_of _ (hm₁.mono (by rintro p (rfl | rfl) <;> simp))
      (hm.mono (by rintro p (rfl | rfl) <;> simp))
  have hready : (w'.heap id).readycnt = (w₁.heap id).readycnt := hm.readycnt_eq (by simp)
  have hlen : w'.gbls.readystrlen = w.gbls.readystrlen := readystrlen_eq (hm'.readystr_eq (by simp))
  have hlen₁ : w₁.gbls.readystrlen = w.gbls.readystrlen :=
    readystrlen_eq (hm₁.readystr_eq (by simp))
  refine ⟨hm', ht.pid, hready ▸ reset_readycnt hreset, fun h0 => ?_⟩
  rw [Matched, hready, hlen, ← hlen₁]
  exact not_matched_of_reset hreset (hlen ▸ h0)

lemma Reaped.stopped (hr : Reaped w w' id) : Stopped w w' id := by
  obtain ⟨w₁, hm, hreset⟩ := hr.reset
  have hm₁ := reset_modifies hreset
  have hm' : Modifies {.kproc, .proc id, .ready id, .readycount} w w' :=
    trans_of _ (hm.mono (by rintro p (rfl | rfl) <;> simp))
      (hm₁.mono (by rintro p (rfl | rfl) <;> simp))
  have hready : (w₁.heap id).readycnt = (w.heap id).readycnt := hm.readycnt_eq (by simp)
  have hlen : w'.gbls.readystrlen = w₁.gbls.readystrlen :=
    readystrlen_eq (hm₁.readystr_eq (by simp))
  exact ⟨hm', hr.pid, hready ▸ reset_readycnt hreset, fun h0 =>
    not_matched_of_reset hreset (hlen ▸ h0)⟩

namespace CmdInv

variable {Q : World → CmdId → Prop}

/-! ## Start and stop -/

lemma of_stopped (hQ : CmdInv Q) (hs : Stopped w w' j) (h : Q w id) : Q w' id := by
  by_cases hj : id = j
  · subst hj
    exact hQ.stopped hs h
  · exact hQ.frame h hs.modifies (by simp [watchParts, hj])

lemma keeps (hQ : CmdInv Q) {α : Type} {m : Act α} (hm : Keeps (Modifies S) m)
    (hS : ∀ p ∈ watchParts id, p ∉ S) : Preserves (fun w => Q w id) m :=
  fun _ _ _ hr h => hQ.frame h (hm hr) hS

lemma cmdStart (hQ : CmdInv Q) (d : Double) : Preserves (fun w => Q w id) (cmdStart sys j d) := by
  intro w b w' hs h
  rcases cmdStart_cases hs with ⟨-, -, hw⟩ | ⟨-, hf⟩
  · rwa [hw]
  · exact hQ.forked hf h

lemma cmdStop (hQ : CmdInv Q) (epoll force : Bool) :
    Preserves (fun w => Q w id) (cmdStop sys j epoll force) := by
  intro w b w' hs h
  rcases cmdStop_cases hs with ⟨-, hw⟩ | ⟨-, -, -, hw⟩ | ⟨-, -, w₁, hsend, hterm⟩
  · rwa [hw]
  · rwa [hw]
  · have hm : Modifies {.lastwrite j, .oWrite (.cmd j)} w w₁ :=
      cmdSendStopstr_modifies sys (by simp) (by simp) hsend
    exact hQ.of_stopped (cmdTerminate_ok hterm).stopped (hQ.frame h hm (by simp [watchParts]))

lemma monDelFound (hQ : CmdInv Q) (hj : id ≠ j) :
    Preserves (fun w => Q w id) (monDelFound sys j) := by
  refine Keeps.bind (Keeps.bind (Keeps.discard (hQ.cmdStop _ _)) fun _ =>
    hQ.keeps (cmdClear_modifies sys subset_rfl) ?_) fun _ => ?_
  · simp [watchParts, clearParts, ttyParts, hj]
  · have hdel : Keeps (Modifies {.table, .oRemoved}) (hashDel j) :=
      hashDel_modifies (by simp) (by simp)
    exact Keeps.bind (hQ.keeps hdel (by simp [watchParts])) fun _ =>
      hQ.keeps (S := ∅) (exitIfIdle_modifies sys) (by simp)

lemma cmdPidRestart (hQ : CmdInv Q) : Preserves (fun w => Q w id) (cmdPidRestart sys j) := by
  intro w u w' hr h
  rcases cmdPidRestart_cases hr with ⟨-, hw⟩ | ⟨w₁, d, -, -, hf, hm⟩
  · rwa [hw]
  · exact hQ.frame (hQ.forked hf h) hm (by simp)

lemma nedHdlr (hQ : CmdInv Q) (r : TtyRef) (mask : Mask) :
    Preserves (fun w => Q w id) (nedHdlr sys r mask) := by
  cases r with
  | bcst =>
    refine Keeps.bind Keeps.get fun _ => ?_
    cases mask with
    | IN_OPEN => exact Keeps.forM (fun _ => Keeps.discard (hQ.cmdStart _)) _
    | IN_CLOSE_WRITE => exact Keeps.forM (fun _ => Keeps.discard (hQ.cmdStop _ _)) _
    | IN_CLOSE_NOWRITE => exact Keeps.forM (fun _ => Keeps.discard (hQ.cmdStop _ _)) _
  | clt j =>
    cases mask with
    | IN_OPEN => exact Keeps.discard (hQ.cmdStart _)
    | IN_CLOSE_WRITE => exact Keeps.discard (hQ.cmdStop _ _)
    | IN_CLOSE_NOWRITE => exact Keeps.discard (hQ.cmdStop _ _)
  | mon => exact Keeps.pure _
  | cmd j => exact Keeps.pure _

lemma monAddRegister (hQ : CmdInv Q) : Preserves (fun w => Q w id) (monAddRegister sys j) := by
  intro w u w' ha h
  rcases monAddRegister_cases ha with ⟨hm, -⟩ | ⟨hm, -⟩ | ⟨-, w₁, b, hm, hs⟩
  · exact hQ.frame h hm (by simp [watchParts, bcstParts, ttyParts])
  · exact hQ.frame h hm (by simp [watchParts])
  · exact hQ.cmdStart _ hs (hQ.frame h hm (by simp [watchParts]))

/-! ## The commands of the table -/

lemma table_frame (hQ : CmdInv Q) (h : ∀ id ∈ w.gbls.cmds, Q w id) (hm : Modifies S w w')
    (ht : .table ∉ S) (hS : ∀ id ∈ w.gbls.cmds, ∀ p ∈ watchParts id, p ∉ S) :
    ∀ id ∈ w'.gbls.cmds, Q w' id := by
  intro id hid
  rw [hm.cmds_eq ht] at hid
  exact hQ.frame (h id hid) hm (hS id hid)

lemma table_preserves {α : Type} {m : Act α} {a : α} (h : ∀ id ∈ w.gbls.cmds, Q w id)
    (hcmds : w'.gbls.cmds = w.gbls.cmds) (hm : ∀ id, Preserves (fun w => Q w id) m)
    (hr : m w = .ok a w') : ∀ id ∈ w'.gbls.cmds, Q w' id := by
  intro id hid
  rw [hcmds] at hid
  exact hm id hr (h id hid)

lemma table_removed (h : ∀ id ∈ w.gbls.cmds, Q w id) (hr : Removed w w' j)
    (hm : ∀ id, id ≠ j → Q w id → Q w' id) : ∀ id ∈ w'.gbls.cmds, Q w' id := by
  intro id hid
  rw [hr.table, List.mem_filter, decide_eq_true_eq] at hid
  exact hm id hid.2 (h id hid.1)

lemma table_notAdded (hQ : CmdInv Q) (hn : NotAdded w w') (h : ∀ id ∈ w.gbls.cmds, Q w id)
    (ht : TableInv w) : ∀ id ∈ w'.gbls.cmds, Q w' id := by
  refine hQ.table_frame h hn.modifies (by simp [cmdParts, ttyParts]) fun id hid => ?_
  have hne : id ≠ w.brk := (ht.lt_brk id hid).ne
  simp [watchParts, cmdParts, ttyParts, hne]

lemma table_added (hQ : CmdInv Q) {spec : CmdSpec} (ha : Added w w' j spec)
    (h : ∀ id ∈ w.gbls.cmds, Q w id) (ht : TableInv w) : ∀ id ∈ w'.gbls.cmds, Q w' id := by
  intro id hid
  rw [ha.table, List.mem_append, List.mem_singleton] at hid
  rcases hid with hid | rfl
  · have hne : id ≠ j := by
      rw [ha.id_eq]
      exact (ht.lt_brk id hid).ne
    exact hQ.frame (h id hid) ha.modifies
      (by simp [watchParts, addParts, cmdParts, ttyParts, hne])
  · exact hQ.added ha

/-- A handler keeps the invariant of all commands, if the handling of output does. -/
theorem handled (hQ : CmdInv Q) {s : Source} {x : Answer} (ht : TableInv w)
    (h : ∀ id ∈ w.gbls.cmds, Q w id)
    (houtput : ∀ j u, s = .dom (.cmd j) → j ∈ w.gbls.cmds →
      cmdttyProcessOutput sys j x.rd w = .ok u w' → ∀ id ∈ w.gbls.cmds, Q w' id)
    (hdrain : ∀ line args, s = .dom .mon → x.line = some line →
      monLookup line = some (.monDrain, args) → monDrain sys w = .ok () w' →
      ∀ id ∈ w.gbls.cmds, Q w' id)
    (hh : Handled sys s x w w') : ∀ id ∈ w'.gbls.cmds, Q w' id := by
  cases hh with
  | bcst hs hb =>
    exact hQ.table_frame h (bcstttyEvent_modifies sys _ subset_rfl hb) (by simp [bcstInputParts])
      fun id _ => by simp [watchParts, bcstInputParts]
  | clt j hs hid hc =>
    rcases cmdCltttyEvent_cases hc with ⟨-, hw⟩ | ⟨-, n, c, w₁, hread, hrest⟩
    · rwa [hw]
    have h₁ : ∀ id ∈ w₁.gbls.cmds, Q w₁ id :=
      hQ.table_frame h hread.modifies (by simp) fun id _ => by simp [watchParts]
    rcases hrest with ⟨-, hw⟩ | ⟨-, w₂, b, hrelay, hstop⟩
    · rwa [hw]
    · have h₂ : ∀ id ∈ w₂.gbls.cmds, Q w₂ id :=
        hQ.table_frame h₁ hrelay.modifies (by simp) fun id _ => by simp [watchParts]
      have hm : Modifies (procParts j) w₂ w' := cmdStop_modifies sys _ _ subset_rfl hstop
      exact table_preserves h₂ (hm.cmds_eq (by simp [procParts, startParts]))
        (fun _ => hQ.cmdStop _ _) hstop
  | cmd j hs hid hc =>
    obtain ⟨n, hp⟩ := discard_eq_ok.mp hc
    have hm : Modifies (outputParts j) w w' := cmdttyProcessOutput_modifies sys _ subset_rfl hp
    rw [hm.cmds_eq (by simp [outputParts])]
    exact houtput j n hs hid hp
  | notify r hs hid hned =>
    obtain ⟨mask, rest, -, hned⟩ := ttyNotifyEvent_cases hned
    have h₁ : ∀ id ∈ (notified w r mask rest).gbls.cmds, Q (notified w r mask rest) id :=
      hQ.table_frame h (notified_modifies w r mask rest) (by simp) fun id _ => by simp [watchParts]
    have hm : Modifies (nedParts r) _ w' := nedHdlr_modifies sys r mask subset_rfl hned
    refine table_preserves h₁ (hm.cmds_eq fun hp => ?_) (fun _ => hQ.nedHdlr r mask) hned
    simpa [Part.ofTable] using nedParts_ofTable hp
  | pid j fd hs hid hp =>
    obtain ⟨w₁, hreap, hrest⟩ := cmdPidEvent_cases hid hp
    have hm : Modifies (startParts j) w w₁ := cmdPidReap_modifies subset_rfl hreap
    have h₁ : ∀ id ∈ w₁.gbls.cmds, Q w₁ id := fun id hid' =>
      hQ.of_stopped (cmdPidReap_ok hreap).stopped
        (h id (hm.cmds_eq (by simp [startParts]) ▸ hid'))
    rcases hrest with ⟨-, hdel⟩ | ⟨-, hrestart⟩
    · exact table_removed h₁ (monDelFound_removed hdel) fun id hne => hQ.monDelFound hne hdel
    · have hm' : Modifies (startParts j) w₁ w' := cmdPidRestart_modifies subset_rfl hrestart
      exact table_preserves h₁ (hm'.cmds_eq (by simp [startParts]))
        (fun _ => hQ.cmdPidRestart) hrestart
  | del line name j hs hx hl hf hd =>
    exact table_removed h (monDelFound_removed hd) fun id hne => hQ.monDelFound hne hd
  | add line cmdstr hs hx hl ha =>
    rcases monAdd_cases ha with hnot | ⟨j, spec, w₁, hadd, hreg⟩
    · exact hQ.table_notAdded hnot h ht
    · exact table_preserves (hQ.table_added hadd h ht) (monAddRegister_kept hreg).cmds
        (fun _ => hQ.monAddRegister) hreg
  | drain line args hs hx hl hd =>
    have hm : Modifies {p | ∃ id, p ∈ outputParts id} w w' :=
      monDrain_modifies sys (S := {p | ∃ id, p ∈ outputParts id}) (fun id p hp => ⟨id, hp⟩) hd
    rw [hm.cmds_eq (by simp [outputParts])]
    exact hdrain line args hs hx hl hd
  | idleExit line args hs hx hl hi =>
    exact hQ.table_frame h (monIdleExit_modifies sys (S := idleExitParts) (by simp [idleExitParts])
      (by simp [idleExitParts]) (by simp [idleExitParts]) hi) (by simp [idleExitParts])
      fun id _ => by simp [watchParts, idleExitParts]
  | toggle line m args g hs hx hl hw hcore hrestart hlb =>
    rw [hw]
    intro id hid
    have hcmds : g.cmds = w.gbls.cmds := (congrArg Globals.cmds hcore :)
    exact hQ.toggled g hcore (h id (hcmds ▸ hid))
  | idle hs hw => rwa [hw]

/-- The invariant holds of the commands of the table in every state of a run. -/
theorem reachable (hQ : CmdInv Q) {ok : World → Event → Prop}
    (htyped : ∀ w r c p id, Q w id → Q ((Env.typed r c p).apply w) id)
    (hhandled : ∀ w s x w', TableInv w → (∀ id ∈ w.gbls.cmds, Q w id) → ok w (.hdlr s x) →
      Handled sys s x w w' → ∀ id ∈ w'.gbls.cmds, Q w' id)
    (hw : Reachable sys ok w) : ∀ id ∈ w.gbls.cmds, Q w id := by
  refine reachable_induction (P := fun w => ∀ id ∈ w.gbls.cmds, Q w id) ?_ ?_ ?_ ?_ ?_ ?_ hw
  · intro o id hid
    cases hid
  · exact fun w w' _ h hm => hQ.table_frame h hm (by simp [setupParts, ttyParts]) fun id _ => by
      simp [watchParts, setupParts, ttyParts]
  · exact fun w w' ht h hn => hQ.table_notAdded hn h ht
  · exact fun w w' id spec ht h ha => hQ.table_added ha h ht
  · intro w e _ h _
    have hm := apply_modifies w e
    cases e with
    | typed r c p =>
      intro id hid
      rw [hm.cmds_eq (by simp [envParts])] at hid
      exact htyped w r c p id (h id hid)
    | opened r =>
      exact hQ.table_frame h hm (by simp [envParts]) fun id _ => by simp [watchParts, envParts]
    | closed r wr =>
      exact hQ.table_frame h hm (by simp [envParts]) fun id _ => by simp [watchParts, envParts]
    | exited p st =>
      exact hQ.table_frame h hm (by simp [envParts]) fun id _ => by simp [watchParts, envParts]
    | execed p =>
      exact hQ.table_frame h hm (by simp [envParts]) fun id _ => by simp [watchParts, envParts]
  · exact fun w s x w' _ ht h hok hh => hhandled w s x w' ht h hok hh

end CmdInv

end Yar.Proofs
