import Yar.Proofs.Children
import Yar.Proofs.Opens

/-!
# Commands that run while they are needed

A command is needed while its client tty or the broadcast tty is open or has unread input. An open
starts it. A close that leaves input behind does not stop it, and the handler of the client tty tries
again once the input has been read; that of the broadcast tty does not.
-/

namespace Yar.Proofs

open Program Transition

/-! ## What is promised -/

/-- The ttys in use. -/
def ttysInUse (w : World) : List TtyRef :=
  .mon :: ((if (w.ttys .bcst).dfd = none then [] else [.bcst]) ++
    w.gbls.cmds.flatMap fun id => [.clt id, .cmd id])

/-- The sources of the ttys and processes in use. -/
def sourcesInUse (w : World) : List Source :=
  (ttysInUse w).flatMap (fun r => [.dom r, .ifd r]) ++
    w.gbls.cmds.filterMap fun id => (w.heap id).pidfd.map (.pidfd id)

/-- No event is left to handle. -/
def NothingLeft (w : World) : Prop := ∀ s ∈ sourcesInUse w, ¬w.kern.ready s

instance (w : World) : Decidable (NothingLeft w) := inferInstanceAs (Decidable (∀ s ∈ sourcesInUse w, _))

def Needed (w : World) (id : CmdId) : Prop :=
  w.ttyIdle (.clt id) = false ∨ w.ttyIdle .bcst = false

instance (w : World) (id : CmdId) : Decidable (Needed w id) := inferInstanceAs (Decidable (_ ∨ _))

/-- The process of the command is there and has not died. -/
def Runs (w : World) (id : CmdId) : Prop :=
  ∃ p ∈ w.kern.procs, (w.heap id).pid = some p.pid ∧ p.dead = none

instance (w : World) (id : CmdId) : Decidable (Runs w id) :=
  inferInstanceAs (Decidable (∃ p ∈ w.kern.procs, _))

/-- Once everything has been handled, exactly the commands run that are needed. -/
def RunsAsNeeded (w : World) : Prop :=
  NothingLeft w → ∀ id ∈ w.gbls.cmds, Runs w id ↔ Needed w id

/-- The event makes yar read the last byte that waits on the broadcast tty, which is closed. -/
def DrainsBcst (sys : Sys) (w : World) (e : Event) : Prop :=
  match e with
  | .hdlr (.dom .bcst) x => ¬bcstGateShut w.gbls ∧
      (∃ s ∈ w.gbls.slowestcmd,
        tooEarly (sys.clock w.kern.calls) (some (w.heap s).lastwrite) (w.heap s).delay = false) ∧
      x.rd = .ready ∧ (w.ttys .bcst).dfd ≠ none ∧ (w.ttys .bcst).opens = 0 ∧
      (w.kern.ports .bcst).domq.length = 1
  | _ => False

instance (sys : Sys) (w : World) (e : Event) : Decidable (DrainsBcst sys w e) := by
  unfold DrainsBcst
  split <;> infer_instance

/-- Commands are restarted. -/
def Restarts (w : World) (_ : Event) : Prop := w.gbls.restart = true

instance (w : World) (e : Event) : Decidable (Restarts w e) := inferInstanceAs (Decidable (_ = _))

/-- The condition of a run: where the input of the closed broadcast tty comes to its end, each command
that runs is needed for its own client tty. -/
def DrainedInUse (sys : Sys) (w : World) (e : Event) : Prop :=
  Restarts w e ∧ (DrainsBcst sys w e →
    ∀ id ∈ w.gbls.cmds, cmdIsRunning (w.heap id) = true → w.ttyIdle (.clt id) = false)

instance (sys : Sys) (w : World) (e : Event) : Decidable (DrainedInUse sys w e) :=
  inferInstanceAs (Decidable (_ ∧ (_ → _)))

variable {sys : Sys} {w w' : World} {id j : CmdId} {S : Set Part}

/-! ## One command -/

/-- The process fields of the command go with the opens and the input. -/
structure InStep (w : World) (id : CmdId) : Prop where
  running : (w.heap id).pid ≠ none → Needed w id
  stopped : (w.heap id).pid = none → (w.ttys (.clt id)).opens = 0 ∧ (w.ttys .bcst).opens = 0

lemma Needed.congr (hclt : w'.ttyIdle (.clt id) = w.ttyIdle (.clt id))
    (hbcst : w'.ttyIdle .bcst = w.ttyIdle .bcst) : Needed w' id ↔ Needed w id := by
  rw [Needed, Needed, hclt, hbcst]

/-- The parts a command's running is compared with. -/
def needParts (id : CmdId) : Set Part :=
  {.tty (.clt id), .tty .bcst, .opens (.clt id), .opens .bcst, .hist (.clt id), .hist .bcst,
    .nread (.clt id), .nread .bcst}

lemma Modifies.needed (hm : Modifies S w w') (hS : ∀ p ∈ needParts id, p ∉ S) :
    Needed w' id ↔ Needed w id :=
  Needed.congr
    (hm.ttyIdle_eq (hS _ (by simp [needParts])) (hS _ (by simp [needParts]))
      (hS _ (by simp [needParts])) (hS _ (by simp [needParts])))
    (hm.ttyIdle_eq (hS _ (by simp [needParts])) (hS _ (by simp [needParts]))
      (hS _ (by simp [needParts])) (hS _ (by simp [needParts])))

lemma InStep.frame (h : InStep w id) (hm : Modifies S w w') (hp : .proc id ∉ S)
    (hS : ∀ p ∈ needParts id, p ∉ S) : InStep w' id := by
  refine ⟨fun hpid => ?_, fun hpid => ?_⟩
  · rw [hm.pid_eq hp] at hpid
    exact (hm.needed hS).mpr (h.running hpid)
  · rw [hm.pid_eq hp] at hpid
    rw [hm.opens_eq (hS _ (by simp [needParts])), hm.opens_eq (hS _ (by simp [needParts]))]
    exact h.stopped hpid

lemma needed_of_opens (h : (w.ttys (.clt id)).opens ≠ 0 ∨ (w.ttys .bcst).opens ≠ 0) : Needed w id := by
  rcases h with h | h
  · exact .inl (by simp [World.ttyIdle, h])
  · exact .inr (by simp [World.ttyIdle, h])

/-- A start of a command for an open. -/
lemma InStep.start {d : Double} {b : Bool} (hopens : (w.ttys (.clt id)).opens ≠ 0 ∨ (w.ttys .bcst).opens ≠ 0)
    (h : cmdStart sys id d w = .ok b w') : InStep w' id := by
  have hm : Modifies (startParts id) w w' := cmdStart_modifies d subset_rfl h
  refine ⟨fun _ => needed_of_opens ?_, fun hpid => ?_⟩
  · rw [hm.opens_eq (by simp [startParts]), hm.opens_eq (by simp [startParts])]
    exact hopens
  · rcases cmdStart_cases h with ⟨hrun, -, rfl⟩ | ⟨-, hf⟩
    · exact (hrun hpid).elim
    · rw [hf.pid] at hpid
      cases hpid

/-- An attempt to stop a command after a close or a byte of input. -/
lemma InStep.stop {b : Bool} (hopens : (w.heap id).pid = none →
      (w.ttys (.clt id)).opens = 0 ∧ (w.ttys .bcst).opens = 0)
    (h : cmdStop sys id true false w = .ok b w') : InStep w' id := by
  have hm : Modifies (procParts id) w w' := cmdStop_modifies sys true false subset_rfl h
  rcases cmdStop_cases h with ⟨hpid, rfl⟩ | ⟨hpid, -, hneed, rfl⟩ | ⟨-, hidle, w₁, -, hterm⟩
  · exact ⟨fun hrun => (hrun hpid).elim, hopens⟩
  · exact ⟨fun _ => hneed, fun hnone => (hpid hnone).elim⟩
  · obtain ⟨hclt, hbcst⟩ := hidle.resolve_left (by simp)
    refine ⟨fun hrun => (hrun (cmdTerminate_ok hterm).pid).elim, fun _ => ?_⟩
    rw [hm.opens_eq (by simp [procParts, startParts]), hm.opens_eq (by simp [procParts, startParts])]
    exact ⟨ttyIdle_opens hclt, ttyIdle_opens hbcst⟩

/-! ## The whole state -/

/-- Every command is in step, and the broadcast tty is not open as long as it is turned off. -/
structure AllInStep (w : World) : Prop where
  commands : ∀ id ∈ w.gbls.cmds, InStep w id
  off : w.gbls.bcstflg = false → NoFds (w.ttys .bcst) ∧ (w.ttys .bcst).opens = 0

lemma AllInStep.off_frame (h : AllInStep w) (hm : Modifies S w w') (htty : .tty .bcst ∉ S)
    (ho : .opens .bcst ∉ S) (hflg : w'.gbls.bcstflg = w.gbls.bcstflg) :
    w'.gbls.bcstflg = false → NoFds (w'.ttys .bcst) ∧ (w'.ttys .bcst).opens = 0 := by
  intro hoff
  obtain ⟨hno, hopens⟩ := h.off (hflg.symm.trans hoff)
  exact ⟨hno.of_modifies hm htty, (hm.opens_eq ho).trans hopens⟩

/-- A step that neither processes, opens nor input have to do with. -/
lemma AllInStep.frame (h : AllInStep w) (hm : Modifies S w w') (ht : .table ∉ S)
    (hp : ∀ id, .proc id ∉ S) (hS : ∀ id, ∀ p ∈ needParts id, p ∉ S)
    (hflg : w'.gbls.bcstflg = w.gbls.bcstflg) : AllInStep w' := by
  refine ⟨fun id hid => ?_, h.off_frame hm (hS 0 _ (by simp [needParts])) (hS 0 _ (by simp [needParts])) hflg⟩
  rw [hm.cmds_eq ht] at hid
  exact (h.commands id hid).frame hm (hp id) (hS id)

/-- A step that concerns one command, which is in step after it or no longer there. -/
lemma AllInStep.frame_but (id : CmdId) (h : AllInStep w) (hm : Modifies S w w')
    (hcmds : ∀ j ∈ w'.gbls.cmds, j ∈ w.gbls.cmds) (hp : ∀ j, j ≠ id → .proc j ∉ S)
    (hS : ∀ j, j ≠ id → ∀ p ∈ needParts j, p ∉ S) (htty : .tty .bcst ∉ S) (ho : .opens .bcst ∉ S)
    (hflg : w'.gbls.bcstflg = w.gbls.bcstflg) (hid : id ∈ w'.gbls.cmds → InStep w' id) :
    AllInStep w' := by
  refine ⟨fun j hj => ?_, h.off_frame hm htty ho hflg⟩
  by_cases heq : j = id
  · subst heq
    exact hid hj
  · exact (h.commands j (hcmds j hj)).frame hm (hp j heq) (hS j heq)

/-! ## Input -/

lemma ttyIdle_iff {r : TtyRef} : w.ttyIdle r = true ↔ (w.ttys r).opens = 0 ∧
    ((w.ttys r).dfd = none ∨ (w.kern.ports r).domq = []) := by
  rw [World.ttyIdle, Bool.and_eq_true, beq_iff_eq, beq_iff_eq, ttyDomInQCnt]
  by_cases hd : (w.ttys r).dfd = none
  · simp [hd]
  · simp [hd]

/-- The broadcast tty gets idle nowhere but where its last byte is read. -/
lemma bcstttyEvent_idle {x : Answer} {u : Unit} (h : bcstttyEvent sys x.rd w = .ok u w')
    (hidle : w'.ttyIdle .bcst = true) :
    w.ttyIdle .bcst = true ∨ DrainsBcst sys w (.hdlr (.dom .bcst) x) := by
  rcases bcstttyEvent_cases h with ⟨-, rfl⟩ | ⟨hopen, s, n, c, w₁, hs, -, hread, hrest⟩
  · exact .inl hidle
  have hidle₁ : w₁.ttyIdle .bcst = true := by
    rcases hrest with ⟨-, rfl⟩ | ⟨-, hall⟩
    · exact hidle
    · have hrelay (id : CmdId) : Keeps (Modifies {p | ∃ j, p = .lastwrite j ∨ p = .oWrite (.cmd j) ∨ p = .oRelay})
          (cmdRelay sys id c) := cmdRelay_modifies sys c ⟨id, by simp⟩ ⟨id, by simp⟩ ⟨id, by simp⟩
      have hm := Keeps.forM hrelay _ (get_bind_eq_ok.mp hall)
      rwa [← hm.ttyIdle_eq (by simp) (by simp) (by simp) (by simp)]
  have kept (hm : Modifies ∅ w w₁) : w.ttyIdle .bcst = true := by
    rwa [← hm.ttyIdle_eq (by simp) (by simp) (by simp) (by simp)]
  cases hread with
  | delayed _ _ hm => exact .inl (kept hm)
  | eof _ _ _ _ hm => exact .inl (kept hm)
  | failed _ _ _ hm => exact .inl (kept hm)
  | got p rest hearly _ hdfd hrd hq hnread hm =>
    obtain ⟨hopens, hempty⟩ := ttyIdle_iff.mp hidle₁
    have htty := hm.same (.tty .bcst) (by simp)
    simp only [SameOn, ttyStatic, Prod.mk.injEq] at htty
    rw [hm.opens_eq (by simp)] at hopens
    have hrest : (w₁.kern.ports .bcst).domq = rest := by
      have hhist : (w₁.kern.ports .bcst).hist = (w.kern.ports .bcst).hist := hm.same (.hist _) (by simp)
      rw [Port.domq, hhist, hnread, ← List.drop_drop]
      change ((w.kern.ports .bcst).domq).drop 1 = rest
      rw [hq]
      rfl
    have hnone : rest = [] := by
      rcases hempty with hd | hempty
      · exact (hdfd (htty.2.2.2.1.symm.trans hd)).elim
      · exact hrest.symm.trans hempty
    exact .inr ⟨hopen, ⟨s, hs, hearly⟩, hrd, hdfd, hopens, by rw [hq, hnone]; rfl⟩

lemma bcstttyEvent_inStep {x : Answer} {u : Unit} (h : AllInStep w)
    (hok : DrainedInUse sys w (.hdlr (.dom .bcst) x)) (hrun : bcstttyEvent sys x.rd w = .ok u w') :
    AllInStep w' := by
  have hm : Modifies bcstInputParts w w' := bcstttyEvent_modifies sys _ subset_rfl hrun
  refine ⟨fun id hid => ?_, h.off_frame hm (by simp [bcstInputParts]) (by simp [bcstInputParts])
    (hm.bcstflg_eq (by simp [bcstInputParts]))⟩
  rw [hm.cmds_eq (by simp [bcstInputParts])] at hid
  have hpid : (w'.heap id).pid = (w.heap id).pid := hm.pid_eq (by simp [bcstInputParts])
  have hclt : w'.ttyIdle (.clt id) = w.ttyIdle (.clt id) := by
    refine hm.ttyIdle_eq ?_ ?_ ?_ ?_ <;> simp [bcstInputParts]
  obtain ⟨hrunning, hstopped⟩ := h.commands id hid
  rw [← hpid] at hrunning hstopped
  refine ⟨fun hne => ?_, fun hnone => ?_⟩
  · by_cases hbusy : w'.ttyIdle .bcst = false
    · exact .inr hbusy
    rw [Bool.not_eq_false] at hbusy
    refine .inl (hclt.trans ?_)
    rcases bcstttyEvent_idle hrun hbusy with hidle | hdrain
    · exact (hrunning hne).resolve_right (by simp [hidle])
    · exact hok.2 hdrain id hid ((cmdIsRunning_iff _).mpr (hpid ▸ hne))
  · rw [hm.opens_eq (by simp [bcstInputParts]), hm.opens_eq (by simp [bcstInputParts])]
    exact hstopped hnone

lemma cmdCltttyEvent_inStep {rd : Read} {u : Unit} (h : InStep w id)
    (hrun : cmdCltttyEvent sys id rd w = .ok u w') : InStep w' id := by
  rcases cmdCltttyEvent_cases hrun with ⟨-, rfl⟩ | ⟨-, n, c, w₁, hread, hrest⟩
  · exact h
  rcases hrest with ⟨hn, rfl⟩ | ⟨-, w₂, b, hrelay, hstop⟩
  · have kept (hm : Modifies ∅ w w') : InStep w' id := h.frame hm (by simp) (by simp)
    cases hread with
    | delayed _ _ hm => exact kept hm
    | eof _ _ _ _ hm => exact kept hm
    | failed _ _ _ hm => exact kept hm
    | got p rest _ hone =>
      rw [hone] at hn
      cases hn
  · have hm₁ := hread.modifies
    have hm₂ := hrelay.modifies
    refine InStep.stop (fun hnone => ?_) hstop
    rw [hm₂.pid_eq (by simp), hm₁.pid_eq (by simp)] at hnone
    rw [hm₂.opens_eq (by simp), hm₂.opens_eq (by simp), hm₁.opens_eq (by simp), hm₁.opens_eq (by simp)]
    exact h.stopped hnone

/-! ## Notifications -/

/-- The opens of the client tty and the broadcast tty are 0 where there is no process. -/
def StoppedIdle (w : World) (id : CmdId) : Prop :=
  (w.heap id).pid = none → (w.ttys (.clt id)).opens = 0 ∧ (w.ttys .bcst).opens = 0

lemma bcstttyNotify_opened {u : Unit} (hopens : (w.ttys .bcst).opens ≠ 0)
    (h : (w.gbls.cmds.forM fun id => discard (cmdStart sys id (.fin 0))) w = .ok u w') :
    ∀ id ∈ w.gbls.cmds, InStep w' id := by
  refine (Keeps.forM_establishes (I := fun w => (w.ttys .bcst).opens ≠ 0)
    (P := fun id w => InStep w id) (fun id _ w₁ _ w₂ hstart hopens => ?_) h hopens).1
  obtain ⟨b, hstart⟩ := discard_eq_ok.mp hstart
  have hm : Modifies (startParts id) w₁ w₂ := cmdStart_modifies _ subset_rfl hstart
  refine ⟨?_, InStep.start (.inr hopens) hstart, fun j hj hstep => ?_⟩
  · rwa [hm.opens_eq (by simp [startParts])]
  · exact hstep.frame hm (by simp [startParts, hj]) (by simp [startParts, needParts])

lemma bcstttyNotify_closed {u : Unit} (hidle : ∀ id ∈ w.gbls.cmds, StoppedIdle w id)
    (h : (w.gbls.cmds.forM fun id => discard (cmdStop sys id true false)) w = .ok u w') :
    ∀ id ∈ w.gbls.cmds, InStep w' id := by
  refine (Keeps.forM_establishes (I := fun w₁ => ∀ id ∈ w.gbls.cmds, StoppedIdle w₁ id)
    (P := fun id w => InStep w id) (fun id hid w₁ _ w₂ hstop hidle => ?_) h hidle).1
  obtain ⟨b, hstop⟩ := discard_eq_ok.mp hstop
  have hm : Modifies (procParts id) w₁ w₂ := cmdStop_modifies sys _ _ subset_rfl hstop
  have hstep : InStep w₂ id := InStep.stop (hidle id hid) hstop
  refine ⟨fun j hj => ?_, hstep, fun j hj hother => ?_⟩
  · by_cases heq : j = id
    · exact heq ▸ hstep.stopped
    · rw [StoppedIdle, hm.pid_eq (by simp [procParts, startParts, heq]),
        hm.opens_eq (by simp [procParts, startParts]), hm.opens_eq (by simp [procParts, startParts])]
      exact hidle j hj
  · exact hother.frame hm (by simp [procParts, startParts, hj])
      (by simp [procParts, startParts, needParts])

lemma ttyNotifyEvent_ifd {r : TtyRef} {rd : Read} {u : Unit} (h : ttyNotifyEvent sys r rd w = .ok u w') :
    (w.ttys r).ifd ≠ none :=
  (require_bind_eq_ok.mp (get_bind_eq_ok.mp h)).1.1

lemma notified_opens (w : World) (r : TtyRef) (mask : Mask) (rest : List Mask) :
    ((notified w r mask rest).ttys r).opens = mask.opens (w.ttys r).opens := by
  simp [notified, World.updTty, World.updPort]

/-- A close leaves no opens where there were none. -/
lemma notified_stoppedIdle {r : TtyRef} {mask : Mask} {rest : List Mask} (h : InStep w id)
    (hmask : mask ≠ .IN_OPEN) : StoppedIdle (notified w r mask rest) id := by
  have hm := notified_modifies w r mask rest
  have hzero : mask.opens 0 = 0 := by
    cases mask with
    | IN_OPEN => exact (hmask rfl).elim
    | IN_CLOSE_WRITE => rfl
    | IN_CLOSE_NOWRITE => rfl
  have hopens {q : TtyRef} (hq : (w.ttys q).opens = 0) : ((notified w r mask rest).ttys q).opens = 0 := by
    by_cases heq : q = r
    · rw [heq, notified_opens, ← heq, hq, hzero]
    · rw [hm.opens_eq (by simp [heq]), hq]
  intro hpid
  rw [hm.pid_eq (by simp)] at hpid
  exact ⟨hopens (h.stopped hpid).1, hopens (h.stopped hpid).2⟩

lemma bcstNotify_inStep {rd : Read} {u : Unit} (h : AllInStep w) (hrun : ttyNotifyEvent sys .bcst rd w = .ok u w') :
    AllInStep w' := by
  have hm : Modifies ({.notify .bcst, .opens .bcst} ∪ nedParts .bcst) w w' :=
    ttyNotifyEvent_modifies sys .bcst subset_rfl hrun
  have hcmds : w'.gbls.cmds = w.gbls.cmds := hm.cmds_eq (by simp [nedParts, procParts, startParts])
  obtain ⟨mask, rest, -, hned⟩ := ttyNotifyEvent_cases hrun
  refine ⟨?_, fun hoff => ?_⟩
  · rw [hcmds]
    replace hned := get_bind_eq_ok.mp hned
    cases mask with
    | IN_OPEN =>
      refine bcstttyNotify_opened (w := notified w .bcst .IN_OPEN rest) ?_ hned
      rw [notified_opens]
      exact Nat.succ_ne_zero _
    | IN_CLOSE_WRITE =>
      exact bcstttyNotify_closed (w := notified w .bcst .IN_CLOSE_WRITE rest)
        (fun id hid => notified_stoppedIdle (h.commands id hid) (by simp)) hned
    | IN_CLOSE_NOWRITE =>
      exact bcstttyNotify_closed (w := notified w .bcst .IN_CLOSE_NOWRITE rest)
        (fun id hid => notified_stoppedIdle (h.commands id hid) (by simp)) hned
  · rw [hm.bcstflg_eq (by simp [nedParts, procParts, startParts])] at hoff
    exact (ttyNotifyEvent_ifd hrun (h.off hoff).1.ifd).elim

lemma cltNotify_inStep {mask : Mask} {rest : List Mask} {u : Unit} (h : InStep w id)
    (hned : nedHdlr sys (.clt id) mask (notified w (.clt id) mask rest) = .ok u w') : InStep w' id := by
  cases mask with
  | IN_OPEN =>
    obtain ⟨b, hstart⟩ := discard_eq_ok.mp hned
    refine InStep.start (.inl ?_) hstart
    rw [notified_opens]
    exact Nat.succ_ne_zero _
  | IN_CLOSE_WRITE =>
    obtain ⟨b, hstop⟩ := discard_eq_ok.mp hned
    exact InStep.stop (notified_stoppedIdle h (by simp)) hstop
  | IN_CLOSE_NOWRITE =>
    obtain ⟨b, hstop⟩ := discard_eq_ok.mp hned
    exact InStep.stop (notified_stoppedIdle h (by simp)) hstop

lemma ttyNotifyEvent_inStep {r : TtyRef} {rd : Read} {u : Unit} (h : AllInStep w)
    (hid : ∀ id, r = .clt id → id ∈ w.gbls.cmds) (hrun : ttyNotifyEvent sys r rd w = .ok u w') :
    AllInStep w' := by
  have hm : Modifies ({.notify r, .opens r} ∪ nedParts r) w w' :=
    ttyNotifyEvent_modifies sys r subset_rfl hrun
  cases r with
  | bcst => exact bcstNotify_inStep h hrun
  | clt id =>
    obtain ⟨mask, rest, -, hned⟩ := ttyNotifyEvent_cases hrun
    have hcmds : w'.gbls.cmds = w.gbls.cmds := hm.cmds_eq (by simp [nedParts, procParts, startParts])
    refine h.frame_but id hm (fun j hj => hcmds ▸ hj) (fun j hj => ?_) (fun j hj => ?_) ?_ ?_
      (hm.bcstflg_eq ?_) fun _ => cltNotify_inStep (h.commands id (hid id rfl)) hned
    all_goals simp_all [nedParts, procParts, startParts, needParts]
  | mon =>
    refine h.frame hm ?_ ?_ ?_ (hm.bcstflg_eq ?_)
    all_goals simp [nedParts, needParts]
  | cmd id =>
    refine h.frame hm ?_ ?_ ?_ (hm.bcstflg_eq ?_)
    all_goals simp [nedParts, needParts]

/-! ## Exits, removals and additions -/

lemma child_none (k : Kernel) : k.child none = none :=
  List.find?_eq_none.mpr fun _ _ => by simp

lemma Removed.inStep (hr : Removed w w' id) (h : AllInStep w) : AllInStep w' := by
  refine h.frame_but id hr.modifies (fun j hj => ?_) (fun j hj => ?_) (fun j hj => ?_) ?_ ?_
    (hr.modifies.bcstflg_eq ?_) fun hmem => ?_
  · rw [hr.table] at hj
    exact List.mem_of_mem_filter hj
  · simp [removeParts, cleanupParts, procParts, startParts, cmdParts, ttyParts, hj]
  · simp [removeParts, cleanupParts, procParts, startParts, cmdParts, ttyParts, needParts, hj]
  · simp [removeParts, cleanupParts, procParts, startParts, cmdParts, ttyParts]
  · simp [removeParts, cleanupParts, procParts, startParts, cmdParts, ttyParts]
  · simp [removeParts, cleanupParts, procParts, startParts, cmdParts, ttyParts]
  · rw [hr.table] at hmem
    simp at hmem

/-- A command that has exited is needed as before, and is started again. -/
lemma cmdPidEvent_inStep {u : Unit} (hc : Children w.gbls.cmds w) (h : AllInStep w)
    (hid : id ∈ w.gbls.cmds) (hg : w.gbls.restart = true) (hr : (w.heap id).restart = true)
    (hrun : cmdPidEvent sys id w = .ok u w') : AllInStep w' := by
  obtain ⟨w₁, hreap, hrest⟩ := cmdPidEvent_cases hid hrun
  have hreaped := cmdPidReap_ok hreap
  have hm₁ : Modifies (startParts id) w w₁ := hreaped.modifies
  rcases hrest with ⟨-, hdel⟩ | ⟨-, hrestart⟩
  · exact ((monDelFound_removed hdel).of_reaped hreap).inStep h
  · have hm₂ : Modifies (startParts id) w₁ w' := cmdPidRestart_modifies subset_rfl hrestart
    have hm : Modifies (startParts id) w w' := trans_of _ hm₁ hm₂
    refine h.frame_but id hm (fun j hj => ?_) (fun j hj => ?_) (fun j hj => ?_) ?_ ?_
      (hm.bcstflg_eq ?_) fun _ => ?_
    · rwa [hm.cmds_eq (by simp [startParts])] at hj
    · simp [startParts, hj]
    · simp [startParts, needParts]
    · simp [startParts]
    · simp [startParts]
    · simp [startParts]
    have hran : (w.heap id).pid ≠ none := fun hnone => by
      obtain ⟨p, hchild, -⟩ := hreaped.child
      rw [hc.pidfd_none hid hnone, child_none] at hchild
      cases hchild
    have hneeded : Needed w' id :=
      (hm.needed (by simp [startParts, needParts])).mpr ((h.commands id hid).running hran)
    refine ⟨fun _ => hneeded, fun hnone => ?_⟩
    rcases cmdPidRestart_cases hrestart with ⟨hno, -⟩ | ⟨w₂, d, -, -, hf, hm'⟩
    · refine (hno ⟨?_, ?_⟩).elim
      · rw [← hg]
        exact congrArg (·.2.2.1) (hm₁.same .options (by simp [startParts]))
      · rw [← hr]
        exact congrArg (·.2.2.2.2.2) (hm₁.spec_eq id (by simp [startParts]))
    · rw [hm'.pid_eq (by simp), hf.pid] at hnone
      cases hnone

/-- The second command turns the broadcast tty on. -/
lemma monAddRegister_created {u : Unit} (hflg : w.gbls.bcstflg = false)
    (hlen : w.gbls.cmds.length > 1) (h : monAddRegister sys id w = .ok u w') :
    Created w' .bcst ∧ w'.gbls.bcstflg = true := by
  obtain ⟨_, w₁, hreg, h⟩ := bind_eq_ok.mp h
  have hm : Modifies {.kproc} w w₁ := cmdRegisterttyEvents_modifies id (by simp) hreg
  have hnew : w₁.gbls.bcstflg = false ∧ w₁.gbls.cmds.length > 1 :=
    ⟨(hm.bcstflg_eq (by simp)).trans hflg, by rwa [hm.cmds_eq (by simp)]⟩
  replace h := get_bind_eq_ok.mp h
  rw [if_pos hnew] at h
  replace h := modify_bind_eq_ok.mp h
  obtain ⟨_, w₂, hcreate, h⟩ := bind_eq_ok.mp h
  replace hcreate := get_bind_eq_ok.mp hcreate
  rw [when_pos rfl] at hcreate
  obtain ⟨b, w₃, hcreate, hend⟩ := bind_eq_ok.mp hcreate
  rcases when_eq_ok.mp hend with ⟨-, hexit⟩ | ⟨hb, rfl⟩
  · exact (exit_keeps (R := fun _ _ => False) sys hexit).elim
  rw [Bool.not_eq_false] at hb
  rw [hb] at hcreate
  have hm₂ : Modifies (ttyParts .bcst) _ w₂ := ttyCreate_modifies sys subset_rfl hcreate
  have hm' : Modifies {.kproc} w₂ w' := bcstttyRegisterEvents_modifies (by simp) h
  exact ⟨(ttyCreate_created hcreate).mono hm' (by simp) (by simp) (by simp) (by simp),
    (hm'.bcstflg_eq (by simp)).trans (hm₂.bcstflg_eq (by simp [ttyParts]))⟩

lemma NotAdded.inStep (hn : NotAdded w w') (ht : TableInv w) (h : AllInStep w) : AllInStep w' := by
  refine h.frame_but w.brk hn.modifies (fun j hj => ?_) (fun j hj => ?_) (fun j hj => ?_) ?_ ?_
    (hn.modifies.bcstflg_eq ?_) fun hmem => ?_
  · rwa [hn.modifies.cmds_eq (by simp [cmdParts, ttyParts])] at hj
  · simp [cmdParts, ttyParts, hj]
  · simp [cmdParts, ttyParts, needParts, hj]
  · simp [cmdParts, ttyParts]
  · simp [cmdParts, ttyParts]
  · simp [cmdParts, ttyParts]
  · rw [hn.modifies.cmds_eq (by simp [cmdParts, ttyParts])] at hmem
    exact ((ht.lt_brk _ hmem).false).elim

/-- The others are in step after an addition. -/
lemma Added.others {spec : CmdSpec} (ha : Added w w' id spec) (h : AllInStep w) :
    (∀ j ∈ w'.gbls.cmds, j ≠ id → InStep w' j) ∧
      (w'.gbls.bcstflg = false → NoFds (w'.ttys .bcst) ∧ (w'.ttys .bcst).opens = 0) := by
  have hm := ha.modifies
  refine ⟨fun j hj hne => ?_, h.off_frame hm ?_ ?_ (hm.bcstflg_eq ?_)⟩
  · rw [ha.table, List.mem_append, List.mem_singleton] at hj
    refine (h.commands j (hj.resolve_right hne)).frame hm ?_ ?_
    · simp [addParts, cmdParts, ttyParts, hne]
    · simp [addParts, cmdParts, ttyParts, needParts, hne]
  · simp [addParts, cmdParts, ttyParts]
  · simp [addParts, cmdParts, ttyParts]
  · simp [addParts, cmdParts, ttyParts]

lemma monAdd_inStep {cstr : CStr} {u : Unit} (ht : TableInv w) (h : AllInStep w)
    (hrun : monAdd sys (some cstr) w = .ok u w') : AllInStep w' := by
  rcases monAdd_cases hrun with hn | ⟨id, spec, w₁, ha, hreg⟩
  · exact hn.inStep ht h
  obtain ⟨hothers, hoff⟩ := ha.others h
  have hpid : (w₁.heap id).pid = none := ha.init.pid
  have hclt : (w₁.ttys (.clt id)).opens = 0 := ha.created.1.opens
  rcases monAddRegister_cases hreg with ⟨hm, hflg, hlen⟩ | ⟨hm, hopens⟩ | ⟨hopens, w₂, b, hm, hstart⟩
  · obtain ⟨hcreated, hon⟩ := monAddRegister_created hflg hlen hreg
    refine ⟨fun j hj => ?_, fun hoff' => by rw [hon] at hoff'; cases hoff'⟩
    rw [hm.cmds_eq (by simp [bcstParts, ttyParts])] at hj
    have hidle : w₁.ttyIdle .bcst = true :=
      ttyIdle_iff.mpr ⟨(hoff hflg).2, .inl (hoff hflg).1.dfd⟩
    have hstep : InStep w₁ j := by
      by_cases heq : j = id
      · subst heq
        exact ⟨fun hrun => (hrun hpid).elim, fun _ => ⟨hclt, (hoff hflg).2⟩⟩
      · exact hothers j hj heq
    have hsame : (w'.heap j).pid = (w₁.heap j).pid := hm.pid_eq (by simp [bcstParts, ttyParts])
    refine ⟨fun hrun => .inl ?_, fun hnone => ⟨?_, hcreated.opens⟩⟩
    · rw [hsame] at hrun
      rw [hm.ttyIdle_eq (by simp [bcstParts, ttyParts]) (by simp [bcstParts, ttyParts])
        (by simp [bcstParts, ttyParts]) (by simp [bcstParts, ttyParts])]
      exact (hstep.running hrun).resolve_right (by simp [hidle])
    · rw [hsame] at hnone
      rw [hm.opens_eq (by simp [bcstParts, ttyParts])]
      exact (hstep.stopped hnone).1
  · have h₁ : AllInStep w₁ := by
      refine ⟨fun j hj => ?_, hoff⟩
      by_cases heq : j = id
      · subst heq
        exact ⟨fun hrun => (hrun hpid).elim, fun _ => ⟨hclt, hopens⟩⟩
      · exact hothers j hj heq
    exact h₁.frame hm (by simp) (by simp) (by simp [needParts]) (hm.bcstflg_eq (by simp))
  · have hm' : Modifies (startParts id) w₂ w' := cmdStart_modifies _ subset_rfl hstart
    have hboth : Modifies (startParts id) w₁ w' :=
      trans_of _ (hm.mono (by simp [startParts])) hm'
    have hopens' : (w₂.ttys .bcst).opens ≠ 0 := by
      rw [hm.opens_eq (by simp)]
      exact hopens.ne'
    refine ⟨fun j hj => ?_, fun hoff' => ?_⟩
    · by_cases heq : j = id
      · subst heq
        exact InStep.start (.inr hopens') hstart
      · rw [hboth.cmds_eq (by simp [startParts])] at hj
        exact (hothers j hj heq).frame hboth (by simp [startParts, heq]) (by simp [startParts, needParts])
    · rw [hboth.bcstflg_eq (by simp [startParts])] at hoff'
      exact (hopens.ne' (hoff hoff').2).elim

/-! ## Handlers -/

lemma Handled.inStep {s : Source} {x : Answer} (ht : TableInv w) (hc : Children w.gbls.cmds w)
    (hrestarts : ∀ id ∈ w.gbls.cmds, (w.heap id).restart = true) (h : AllInStep w)
    (hok : DrainedInUse sys w (.hdlr s x)) (hh : Handled sys s x w w') : AllInStep w' := by
  cases hh with
  | bcst hs hrun =>
    subst hs
    exact bcstttyEvent_inStep h hok hrun
  | clt id hs hid hrun =>
    have hm : Modifies (inputParts id) w w' := cmdCltttyEvent_modifies sys _ subset_rfl hrun
    refine h.frame_but id hm (fun j hj => ?_) (fun j hj => ?_) (fun j hj => ?_) ?_ ?_
      (hm.bcstflg_eq ?_) fun _ => cmdCltttyEvent_inStep (h.commands id hid) hrun
    · rwa [hm.cmds_eq (by simp [inputParts, procParts, startParts])] at hj
    all_goals simp_all [inputParts, procParts, startParts, needParts]
  | cmd id hs hid hrun =>
    have hm : Modifies (outputParts id) w w' :=
      Keeps.discard (cmdttyProcessOutput_modifies sys _ subset_rfl) hrun
    refine h.frame hm ?_ ?_ ?_ (hm.bcstflg_eq ?_) <;> simp [outputParts, needParts]
  | notify r hs hid hrun => exact ttyNotifyEvent_inStep h (fun id hr => hid id (.inl hr)) hrun
  | pid id fd hs hid hrun => exact cmdPidEvent_inStep hc h hid hok.1 (hrestarts id hid) hrun
  | del line name id hs hx hl hf hrun => exact (monDelFound_removed hrun).inStep h
  | add line cmdstr hs hx hl hrun => exact monAdd_inStep ht h hrun
  | drain line args hs hx hl hrun =>
    have hm : Modifies {p | ∃ id, p ∈ outputParts id} w w' :=
      monDrain_modifies sys (S := {p | ∃ id, p ∈ outputParts id}) (fun id p hp => ⟨id, hp⟩) hrun
    refine h.frame hm ?_ ?_ ?_ (hm.bcstflg_eq ?_) <;> simp [outputParts, needParts]
  | idleExit line args hs hx hl hrun =>
    have hm : Modifies idleExitParts w w' := monIdleExit_modifies sys (by simp [idleExitParts])
      (by simp [idleExitParts]) (by simp [idleExitParts]) hrun
    refine h.frame hm ?_ ?_ ?_ (monIdleExit_bcstflg hrun) <;> simp [idleExitParts, needParts]
  | toggle line m args g hs hx hl hw hcore hrestart hlb =>
    have hm : Modifies {.options, .flags} w w' := toggle_modifies hw hcore
    refine h.frame hm ?_ ?_ ?_ ?_
    · simp
    · simp
    · simp [needParts]
    · rw [hw]
      exact (congrArg Globals.bcstflg hcore :)
  | idle hs hw => rwa [hw]

/-! ## Runs -/

/-- Input makes no tty idle. -/
lemma typed_busy {r q : TtyRef} {c : Byte} {p : Pid} (h : w.ttyIdle q = false) :
    ((Env.typed r c p).apply w).ttyIdle q = false := by
  rw [← Bool.not_eq_true] at h ⊢
  refine fun hidle => h ?_
  obtain ⟨hopens, hempty⟩ := ttyIdle_iff.mp hidle
  refine ttyIdle_iff.mpr ⟨hopens, hempty.imp_right fun hq => ?_⟩
  by_cases heq : q = r
  · subst heq
    have hdrop : ((w.kern.ports q).hist ++ [(c, p)]).drop (w.kern.ports q).nread = [] := by
      simpa [Env.apply, World.updPort, Port.domq] using hq
    rw [List.drop_append, List.append_eq_nil_iff] at hdrop
    exact hdrop.1
  · simpa [Env.apply, World.updPort, Port.domq, heq] using hq

lemma apply_inStep (w : World) (e : Env) (h : AllInStep w) : AllInStep (e.apply w) := by
  have hm := apply_modifies w e
  cases e with
  | typed r c p =>
    refine ⟨fun id hid => ?_, h.off_frame hm ?_ ?_ (hm.bcstflg_eq ?_)⟩
    · rw [hm.cmds_eq (by simp [envParts])] at hid
      obtain ⟨hrunning, hstopped⟩ := h.commands id hid
      refine ⟨fun hpid => (hrunning ?_).imp typed_busy typed_busy, fun hpid => ?_⟩
      · rwa [hm.pid_eq (by simp [envParts])] at hpid
      · rw [hm.pid_eq (by simp [envParts])] at hpid
        rw [hm.opens_eq (by simp [envParts]), hm.opens_eq (by simp [envParts])]
        exact hstopped hpid
    all_goals simp [envParts]
  | opened r => refine h.frame hm ?_ ?_ ?_ (hm.bcstflg_eq ?_) <;> simp [envParts, needParts]
  | closed r wr => refine h.frame hm ?_ ?_ ?_ (hm.bcstflg_eq ?_) <;> simp [envParts, needParts]
  | exited p st => refine h.frame hm ?_ ?_ ?_ (hm.bcstflg_eq ?_) <;> simp [envParts, needParts]
  | execed p => refine h.frame hm ?_ ?_ ?_ (hm.bcstflg_eq ?_) <;> simp [envParts, needParts]

/-- No command has been started and the broadcast tty has not been created. -/
structure NotStarted (w : World) : Prop where
  commands : ∀ id ∈ w.gbls.cmds, (w.heap id).pid = none ∧ (w.ttys (.clt id)).opens = 0
  bcst : NoFds (w.ttys .bcst)
  opens : (w.ttys .bcst).opens = 0

lemma NotStarted.frame (h : NotStarted w) (hm : Modifies S w w') (ht : .table ∉ S)
    (hp : ∀ id, .proc id ∉ S) (ho : ∀ id, .opens (.clt id) ∉ S) (htty : .tty .bcst ∉ S)
    (hb : .opens .bcst ∉ S) : NotStarted w' := by
  refine ⟨fun id hid => ?_, h.bcst.of_modifies hm htty, (hm.opens_eq hb).trans h.opens⟩
  rw [hm.cmds_eq ht] at hid
  rw [hm.pid_eq (hp id), hm.opens_eq (ho id)]
  exact h.commands id hid

lemma NotStarted.added {spec : CmdSpec} (h : NotStarted w) (ha : Added w w' id spec) :
    NotStarted w' := by
  have hm := ha.modifies
  refine ⟨fun j hj => ?_, h.bcst.of_modifies hm ?_, (hm.opens_eq ?_).trans h.opens⟩
  · rw [ha.table, List.mem_append, List.mem_singleton] at hj
    by_cases heq : j = id
    · subst heq
      exact ⟨ha.init.pid, ha.created.1.opens⟩
    · rw [hm.pid_eq (by simp [addParts, cmdParts, ttyParts, heq]),
        hm.opens_eq (by simp [addParts, cmdParts, ttyParts, heq])]
      exact h.commands j (hj.resolve_right heq)
  all_goals simp [addParts, cmdParts, ttyParts]

lemma bcstttyInit_inStep {u : Unit} (h : NotStarted w) (hrun : bcstttyInit sys w = .ok u w') :
    AllInStep w' := by
  have hm : Modifies bcstParts w w' := bcstttyInit_modifies sys subset_rfl hrun
  obtain ⟨link, w₁, -, hinit, hcreate⟩ := bcstttyInit_ok sys hrun
  have hopens : (w'.ttys .bcst).opens = 0 := by
    rcases hcreate with ⟨-, rfl⟩ | ⟨-, hcreate⟩
    · rw [(ttyInit_ok (get_bind_eq_ok.mp hinit)).2]
      simpa [World.updTty] using h.opens
    · exact (ttyCreate_created hcreate).opens
  refine ⟨fun id hid => ?_, fun hoff => ?_⟩
  · rw [hm.cmds_eq (by simp [bcstParts, ttyParts])] at hid
    obtain ⟨hpid, hclt⟩ := h.commands id hid
    refine ⟨fun hrun => (hrun ?_).elim, fun _ => ⟨?_, hopens⟩⟩
    · rwa [hm.pid_eq (by simp [bcstParts, ttyParts])]
    · rwa [hm.opens_eq (by simp [bcstParts, ttyParts])]
  · rcases hcreate with ⟨-, rfl⟩ | ⟨hon, hcreate⟩
    · exact ⟨ttyInit_noFds (get_bind_eq_ok.mp hinit), hopens⟩
    · have hm' : Modifies (ttyParts .bcst) w₁ w' := ttyCreate_modifies sys subset_rfl hcreate
      rw [hm'.bcstflg_eq (by simp [ttyParts]), hon] at hoff
      cases hoff

/-- Every command of the table is one that is restarted. -/
lemma reachable_restarts {ok : World → Event → Prop} (hw : Reachable sys ok w) :
    ∀ id ∈ w.gbls.cmds, (w.heap id).restart = true := by
  refine reachable_table (P := fun w => ∀ id ∈ w.gbls.cmds, (w.heap id).restart = true)
    (fun o id hid => ?_) (fun w w' ht h hk id hid => ?_) (fun w w' id spec ht h ha j hj => ?_)
    (fun w w' e id _ h _ _ _ hr j hj => ?_) hw
  · cases hid
  · rw [hk.cmds] at hid
    rw [← h id hid]
    exact congrArg (·.2.2.2.2.2) (hk.spec id (ht.lt_brk id hid))
  · rw [ha.table, List.mem_append, List.mem_singleton] at hj
    by_cases heq : j = id
    · subst heq
      exact ha.init.restart
    · rw [← h j (hj.resolve_right heq)]
      exact congrArg (·.2.2.2.2.2) (ha.modifies.spec_eq j (by simp [addParts, cmdParts, ttyParts, heq]))
  · rw [hr.table, List.mem_filter, decide_eq_true_eq] at hj
    rw [← h j hj.1]
    exact congrArg (·.2.2.2.2.2) (hr.modifies.spec_eq j
      (by simp [removeParts, cleanupParts, procParts, startParts, cmdParts, ttyParts, hj.2]))

lemma reachable_inStep (hw : Reachable sys (DrainedInUse sys) w) : AllInStep w := by
  refine reachable_of_stages (P := AllInStep) (Q := NotStarted) (fun o => ?_) (fun s => ?_) ?_ ?_ ?_
    (fun s w id w' h ha => ?_) (fun w _ w' hrun h => bcstttyInit_inStep h hrun) ?_
    (fun w e _ h _ => apply_inStep w e h)
    (fun w s x w' hr h hok hh => hh.inStep (reachable_tableInv hr) (reachable_children hr)
      (reachable_restarts hr) h hok) hw
  · constructor
    · exact fun id hid => by cases hid
    · constructor <;> rfl
    · rfl
  · intro w _ w' hrun h
    have hm : Modifies ∅ w w' := argsParseSpec_modifies sys s hrun
    exact h.frame hm (by simp) (by simp) (by simp) (by simp) (by simp)
  · intro w _ w' hrun h
    have hm : Modifies {.flags, .names} w w' := logInit_modifies sys (by simp) (by simp) hrun
    refine h.frame hm ?_ ?_ ?_ ?_ ?_ <;> simp
  · intro w _ w' hrun h
    have hm : Modifies (ttyParts .mon) w w' := monttyCreate_modifies sys subset_rfl hrun
    refine h.frame hm ?_ ?_ ?_ ?_ ?_ <;> simp [ttyParts]
  · intro w _ w' hrun h
    have hm : Modifies {.flags, .names} w w' := fsCreate_modifies sys (by simp) (by simp) hrun
    refine h.frame hm ?_ ?_ ?_ ?_ ?_ <;> simp
  · rcases GBLSAddCmd_cases ha with ⟨hnone, -⟩ | ⟨j, spec, -, hadd⟩
    · cases hnone
    · exact h.added hadd
  · intro w _ w' hrun h
    have hm : Modifies {.kproc} w w' := theLoopRegister_modifies (by simp) hrun
    exact h.frame hm (by simp) (by simp) (by simp [needParts]) (hm.bcstflg_eq (by simp))

lemma mem_sourcesInUse {r : TtyRef} (hr : r ∈ ttysInUse w) : .dom r ∈ sourcesInUse w ∧ .ifd r ∈ sourcesInUse w := by
  constructor <;> exact List.mem_append_left _ (List.mem_flatMap.mpr ⟨r, hr, by simp⟩)

/-- Where nothing is left to read, a tty is idle if it is not open. -/
lemma NothingLeft.idle (h : NothingLeft w) {r : TtyRef} (hr : r ∈ ttysInUse w ∨ (w.ttys r).dfd = none)
    (hopens : (w.ttys r).opens = 0) : w.ttyIdle r = true := by
  refine ttyIdle_iff.mpr ⟨hopens, ?_⟩
  rcases hr with hr | hdfd
  · exact .inr (not_not.mp (h _ (mem_sourcesInUse hr).1))
  · exact .inl hdfd

/-- Where nothing is left to handle, the process of a command has not died. -/
lemma NothingLeft.runs (h : NothingLeft w) (hc : Children w.gbls.cmds w) (hid : id ∈ w.gbls.cmds)
    (hpid : (w.heap id).pid ≠ none) : Runs w id := by
  obtain ⟨q, hq⟩ := hc.exists_isChild hid hpid
  obtain ⟨-, hqpid, hqfd⟩ := hc.isChild hq
  have hmem : Source.pidfd id q.pidfd ∈ sourcesInUse w := by
    refine List.mem_append_right _ (List.mem_filterMap.mpr ⟨id, hid, ?_⟩)
    rw [hqfd]
    rfl
  have halive : ∃ p ∈ w.kern.procs, p.pidfd = q.pidfd ∧ p.dead = none := by
    simpa [Kernel.ready] using h _ hmem
  obtain ⟨p, hp, hfd, hdead⟩ := halive
  have hkey : (p.pid, p.pidfd) = (q.pid, q.pidfd) :=
    List.inj_on_of_nodup_map hc.pidfds (mem_keys hp) (mem_keys hq.1) hfd
  have hsame : p.pid = q.pid := congrArg Prod.fst hkey
  exact ⟨p, hp, hsame ▸ hqpid, hdead⟩

/-- In a run with restarts in which no command is left running when the last input of the closed
broadcast tty is read, the commands that run are those that are needed. -/
theorem runs_as_needed (hw : Reachable sys (DrainedInUse sys) w) : RunsAsNeeded w := by
  intro hleft id hid
  obtain ⟨hrunning, hstopped⟩ := (reachable_inStep hw).commands id hid
  constructor
  · rintro ⟨p, -, hpid, -⟩
    exact hrunning (by simp [hpid])
  · intro hneeded
    refine hleft.runs (reachable_children hw) hid fun hpid => ?_
    obtain ⟨hclt, hbcst⟩ := hstopped hpid
    have hidle : w.ttyIdle (.clt id) = true :=
      hleft.idle (.inl (by simpa [ttysInUse] using hid)) hclt
    have hidle' : w.ttyIdle .bcst = true := by
      refine hleft.idle ?_ hbcst
      by_cases hdfd : (w.ttys .bcst).dfd = none
      · exact .inr hdfd
      · exact .inl (by simp [ttysInUse, hdfd])
    rcases hneeded with hn | hn
    · rw [hidle] at hn
      cases hn
    · rw [hidle'] at hn
      cases hn

/-- A byte has been broadcast, before the processes of the commands have opened their ttys, and the tty it
came from is still open. -/
theorem runs_as_needed_opened : ∃ w, Reachable quietSys (DrainedInUse quietSys) w ∧
    RunsAsNeeded w ∧ NothingLeft w ∧ w.gbls.cmds = [0, 1] ∧ Runs w 0 ∧ Runs w 1 ∧
    (w.ttys (.cmd 0)).discards 0 = 120 := by
  obtain ⟨w, hw, hp⟩ := exists_reachable quietSys (DrainedInUse quietSys)
    { specs := [bytes "a,,,1,x", bytes "b,,,1,y"], cwd := bytes "/h" }
    [.env (.opened .bcst), .hdlr (.ifd .bcst) {}, .env (.typed .bcst 120 9), .hdlr (.dom .bcst) {}]
    (fun w => decide (NothingLeft w ∧ w.gbls.cmds = [0, 1] ∧ Runs w 0 ∧ Runs w 1 ∧
      (w.ttys (.cmd 0)).discards 0 = 120)) (by decide +kernel)
  exact ⟨w, hw, runs_as_needed hw, of_decide_eq_true hp⟩

/-- A client opens the broadcast tty of two commands, writes a byte and closes it again, and yar looks at
the close before it reads the byte: neither command is stopped. -/
theorem not_always_runs_as_needed :
    ¬∀ (sys : Sys) (w : World), Reachable sys Restarts w → RunsAsNeeded w := by
  intro h
  obtain ⟨w, hw, hp⟩ := exists_reachable quietSys Restarts
    { specs := [bytes "a,,,1,x", bytes "b,,,1,y"], cwd := bytes "/h" }
    [.env (.opened .bcst), .hdlr (.ifd .bcst) {}, .env (.typed .bcst 120 9),
      .env (.closed .bcst true), .hdlr (.ifd .bcst) {}, .hdlr (.dom .bcst) {}]
    (fun w => decide (NothingLeft w ∧ 0 ∈ w.gbls.cmds ∧ Runs w 0 ∧ ¬Needed w 0)) (by decide +kernel)
  obtain ⟨hleft, hid, hruns, hneeded⟩ := of_decide_eq_true hp
  exact hneeded ((h quietSys w hw hleft 0 hid).mp hruns)

end Yar.Proofs
