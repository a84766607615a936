import Yar.Proofs.Commands
import Yar.Proofs.Children

/-!
# Stops

When an event makes yar stop a command: a close of a tty or a byte from the client tty that leaves it
idle. A command that is not stopped, nor reaped, nor deleted keeps its process.
-/

namespace Yar.Proofs

open Program

/-- A stop of the command would go through. -/
def Stoppable (w : World) (id : CmdId) : Prop :=
  cmdIsRunning (w.heap id) = true ∧ w.ttyIdle (.clt id) = true ∧ w.ttyIdle .bcst = true

instance (w : World) (id : CmdId) : Decidable (Stoppable w id) :=
  inferInstanceAs (Decidable (_ ∧ _ ∧ _))

/-- The commands that a close of the tty is to stop. -/
def closedFor (w : World) : TtyRef → List CmdId
  | .bcst => w.gbls.cmds
  | .clt id => [id]
  | .mon => []
  | .cmd _ => []

/-- The client tty of the command is read, and not in vain. -/
def ReadsClt (sys : Sys) (w : World) (id : CmdId) (rd : Read) : Prop :=
  cmdIsReady w.gbls (w.heap id) = true ∧
    tooEarly (sys.clock w.kern.calls) (some (w.heap id).lastwrite) (w.heap id).delay = false ∧
    (rd ≠ .eof ∨ (w.ttys (.clt id)).dfd = none)

instance (sys : Sys) (w : World) (id : CmdId) (rd : Read) : Decidable (ReadsClt sys w id rd) :=
  inferInstanceAs (Decidable (_ ∧ _ ∧ _))

/-- The state with the next byte of the client tty gone, if one is to be read. -/
def byteTaken (w : World) (id : CmdId) (rd : Read) : World :=
  if rd = .ready then w.updPort (.clt id) fun p => { p with nread := p.nread + 1 } else w

variable {sys : Sys} {w w' : World} {id j : CmdId} {S : Set Part}

/-! ## A command that is left alone -/

/-- A process that runs goes on, and one that is forked runs. -/
structure Spared (id : CmdId) (w w' : World) : Prop where
  pid : ∀ p, (w.heap id).pid = some p → (w'.heap id).pid = some p
  forks : ∀ p, .forked id p ∈ w'.trace → .forked id p ∈ w.trace ∨ (w'.heap id).pid = some p

instance : Std.Refl (Spared id) where
  refl _ := ⟨fun _ h => h, fun _ h => .inl h⟩

instance : IsTrans World (Spared id) where
  trans _ _ _ h h' := by
    refine ⟨fun p hp => h'.pid p (h.pid p hp), fun p hp => ?_⟩
    rcases h'.forks p hp with hp | hp
    · exact (h.forks p hp).imp_right (h'.pid p)
    · exact .inr hp

lemma Modifies.spared (hm : Modifies S w w') (hp : .proc id ∉ S) (hf : .oForked ∉ S) :
    Spared id w w' :=
  ⟨fun _ h => (hm.pid_eq hp).trans h, fun _ h => .inl ((hm.forked_iff hf).mp h)⟩

lemma Forked.spared {d : Double} (hf : Forked sys w w' j d) : Spared id w w' := by
  by_cases hj : id = j
  · subst hj
    constructor
    · intro p hp
      rw [hf.stopped] at hp
      cases hp
    · intro p hp
      rw [hf.trace] at hp
      rcases List.mem_cons.mp hp with hp | hp
      · cases hp
        exact .inr hf.pid
      · exact .inl hp
  · constructor
    · intro p hp
      rw [hf.modifies.pid_eq (by simp [forkParts, hj]), hp]
    · intro p hp
      rw [hf.trace] at hp
      rcases List.mem_cons.mp hp with hp | hp
      · cases hp
        exact (hj rfl).elim
      · exact .inl hp

lemma cmdStart_spared (d : Double) : Keeps (Spared id) (cmdStart sys j d) := by
  intro w b w' h
  rcases cmdStart_cases h with ⟨-, -, rfl⟩ | ⟨-, hf⟩
  · exact refl_of _ _
  · exact hf.spared

lemma Stopped.spared (hs : Stopped w w' j) (hne : id ≠ j) : Spared id w w' :=
  hs.modifies.spared (by simp [hne]) (by simp)

/-- A stop forks nothing, and leaves the other commands alone. -/
lemma cmdStop_spared {epoll force : Bool} (hne : id ≠ j) :
    Keeps (Spared id) (cmdStop sys j epoll force) := by
  intro w b w' h
  rcases cmdStop_cases h with ⟨-, rfl⟩ | ⟨-, -, -, rfl⟩ | ⟨-, -, w₁, hsend, hterm⟩
  · exact refl_of _ _
  · exact refl_of _ _
  · have hm : Modifies {.lastwrite j, .oWrite (.cmd j)} w w₁ :=
      cmdSendStopstr_modifies sys (by simp) (by simp) hsend
    exact trans_of _ (hm.spared (by simp) (by simp)) ((cmdTerminate_ok hterm).stopped.spared hne)

lemma monDelFound_spared (hne : id ≠ j) : Keeps (Spared id) (monDelFound sys j) := by
  have hclear : Keeps (Spared id)
      (do ttyCleanup sys (.cmd j); ttyCleanup sys (.clt j); updCmd j cmdClear) := fun _ _ _ h =>
    (cmdClear_modifies sys subset_rfl h).spared (by simp [clearParts, ttyParts, hne])
      (by simp [clearParts, ttyParts])
  have hdel : Keeps (Spared id) (hashDel j) := fun _ _ _ h =>
    (hashDel_modifies (S := {.table, .oRemoved}) (by simp) (by simp) h).spared (by simp) (by simp)
  have hidle : Keeps (Spared id) (exitIfIdle sys) := fun _ _ _ h =>
    (exitIfIdle_modifies (S := ∅) sys h).spared (by simp) (by simp)
  exact Keeps.bind (Keeps.bind (Keeps.discard (cmdStop_spared hne)) fun _ => hclear) fun _ =>
    Keeps.bind hdel fun _ => hidle

/-! ## No stop -/

lemma cmdStop_refused {b : Bool} (hs : ¬Stoppable w id) (h : cmdStop sys id true false w = .ok b w') :
    w' = w := by
  rcases cmdStop_cases h with ⟨-, hw⟩ | ⟨-, -, -, hw⟩ | ⟨hpid, hidle, -⟩
  · exact hw
  · exact hw
  · obtain ⟨hclt, hbcst⟩ := hidle.resolve_left (by simp)
    exact (hs ⟨(cmdIsRunning_iff _).mpr hpid, hclt, hbcst⟩).elim

/-- Where a stop of the command would not go through, it is spared and still cannot be stopped. -/
def Safe (id : CmdId) (w w' : World) : Prop := ¬Stoppable w id → ¬Stoppable w' id ∧ Spared id w w'

instance : Std.Refl (Safe id) where
  refl _ hs := ⟨hs, refl_of _ _⟩

instance : IsTrans World (Safe id) where
  trans _ _ _ h h' hs := by
    obtain ⟨hs₁, h₁⟩ := h hs
    obtain ⟨hs₂, h₂⟩ := h' hs₁
    exact ⟨hs₂, trans_of _ h₁ h₂⟩

lemma cmdStop_safe : Keeps (Safe id) (cmdStop sys j true false) := by
  intro w b w' h hs
  by_cases hj : id = j
  · subst hj
    rw [cmdStop_refused hs h]
    exact ⟨hs, refl_of _ w⟩
  · have hm : Modifies (procParts j) w w' := cmdStop_modifies sys _ _ subset_rfl h
    refine ⟨fun hs' => hs ?_, cmdStop_spared hj h⟩
    have hidle (r : TtyRef) : w'.ttyIdle r = w.ttyIdle r := by
      apply hm.ttyIdle_eq <;> simp [procParts, startParts]
    rwa [Stoppable, cmdIsRunning, hm.pid_eq (by simp [procParts, startParts, hj]), hidle, hidle] at hs'

lemma nedHdlr_spared {r : TtyRef} {mask : Mask} {u : Unit}
    (hs : mask = .IN_OPEN ∨ id ∉ closedFor w r ∨ ¬Stoppable w id)
    (h : nedHdlr sys r mask w = .ok u w') : Spared id w w' := by
  cases r with
  | bcst =>
    have hopen : Keeps (Spared id) (do (← get).gbls.cmds.forM fun id => discard (cmdStart sys id (.fin 0))) :=
      Keeps.bind Keeps.get fun _ => Keeps.forM (fun _ => Keeps.discard (cmdStart_spared _)) _
    have hclose (hs : id ∉ w.gbls.cmds ∨ ¬Stoppable w id)
        (h : (do (← get).gbls.cmds.forM fun id => discard (cmdStop sys id true false) : Act Unit) w =
          .ok u w') : Spared id w w' := by
      replace h := get_bind_eq_ok.mp h
      rcases hs with hid | hs
      · have hother : ∀ j ∈ w.gbls.cmds, Keeps (Spared id) (discard (cmdStop sys j true false)) := by
          intro j hj
          have hne : id ≠ j := fun heq => hid (heq ▸ hj)
          exact Keeps.discard (cmdStop_spared hne)
        exact Keeps.forM_mem hother h
      · exact (Keeps.forM (fun _ => Keeps.discard cmdStop_safe) _ h hs).2
    cases mask with
    | IN_OPEN => exact hopen h
    | IN_CLOSE_WRITE => exact hclose (hs.resolve_left (by simp)) h
    | IN_CLOSE_NOWRITE => exact hclose (hs.resolve_left (by simp)) h
  | clt j =>
    have hclose (hs : id ∉ [j] ∨ ¬Stoppable w id)
        (h : discard (cmdStop sys j true false) w = .ok u w') : Spared id w w' := by
      rcases hs with hid | hs
      · exact Keeps.discard (cmdStop_spared (List.ne_of_not_mem_cons hid)) h
      · exact (Keeps.discard cmdStop_safe h hs).2
    cases mask with
    | IN_OPEN => exact Keeps.discard (cmdStart_spared _) h
    | IN_CLOSE_WRITE => exact hclose (hs.resolve_left (by simp)) h
    | IN_CLOSE_NOWRITE => exact hclose (hs.resolve_left (by simp)) h
  | mon =>
    rw [(pure_eq_ok.mp h).2]
    exact refl_of _ w
  | cmd j =>
    rw [(pure_eq_ok.mp h).2]
    exact refl_of _ w

/-- Whether the client tty is idle after a read that was not in vain. -/
lemma ReadChar.ttyIdle_eq {ts : Option Time} {delay : Double} {rd : Read} {n : Int} {c : Byte}
    (h : ReadChar sys w (.clt id) ts delay rd n c w') (hn : n ≠ 0) :
    w'.ttyIdle (.clt id) = (byteTaken w id rd).ttyIdle (.clt id) := by
  have hm := h.modifies
  have hstatic := hm.same (.tty (.clt id)) (by simp)
  have hhist : (w'.kern.ports (.clt id)).hist = (w.kern.ports (.clt id)).hist := hm.same (.hist _) (by simp)
  simp only [SameOn, ttyStatic, Prod.mk.injEq] at hstatic
  obtain ⟨-, -, -, hdfd, -⟩ := hstatic
  rw [World.ttyIdle, hm.opens_eq (by simp), ttyDomInQCnt, hdfd, Port.domq, hhist]
  cases h with
  | delayed hearly h0 => exact (hn h0).elim
  | eof hearly h0 => exact (hn h0).elim
  | got p rest hearly h1 hd hrd hq hnread =>
    rw [hnread]
    simp [byteTaken, hrd, World.ttyIdle, World.updPort, ttyDomInQCnt, Port.domq]
  | failed hearly h1 hfail hm₀ =>
    have hnread : (w'.kern.ports (.clt id)).nread = (w.kern.ports (.clt id)).nread :=
      hm₀.same (.nread _) (by simp)
    rw [hnread]
    by_cases hrd : rd = .ready
    · by_cases hd : (w.ttys (.clt id)).dfd = none
      · simp [byteTaken, hrd, World.ttyIdle, World.updPort, ttyDomInQCnt, hd]
      · -- there was no byte to take
        have hq : (w.kern.ports (.clt id)).hist.length ≤ (w.kern.ports (.clt id)).nread := by
          simpa [ReadFails, hd, hrd, Port.domq] using hfail
        simp [byteTaken, hrd, World.ttyIdle, World.updPort, ttyDomInQCnt, Port.domq, hq,
          hq.trans (Nat.le_succ _)]
    · simp [byteTaken, hrd, World.ttyIdle, ttyDomInQCnt, Port.domq]

lemma cmdCltttyEvent_spared {rd : Read} {u : Unit}
    (hs : j = id → ReadsClt sys w id rd → ¬Stoppable (byteTaken w id rd) id)
    (h : cmdCltttyEvent sys j rd w = .ok u w') : Spared id w w' := by
  rcases cmdCltttyEvent_cases h with ⟨-, rfl⟩ | ⟨hready, n, c, w₁, hread, hrest⟩
  · exact refl_of _ _
  have h₁ : Spared id w w₁ := hread.modifies.spared (by simp) (by simp)
  rcases hrest with ⟨-, rfl⟩ | ⟨hn, w₂, b, hrelay, hstop⟩
  · exact h₁
  have h₂ : Spared id w w₂ := trans_of _ h₁ (hrelay.modifies.spared (by simp) (by simp))
  by_cases hj : id = j
  · subst hj
    rw [cmdStop_refused ?_ hstop]
    · exact h₂
    rintro ⟨hrun, hclt, hbcst⟩
    have hidle (r : TtyRef) : w₂.ttyIdle r = w₁.ttyIdle r :=
      hrelay.modifies.ttyIdle_eq (by simp) (by simp) (by simp) (by simp)
    have hpid : (w₂.heap id).pid = (w.heap id).pid := by
      rw [hrelay.modifies.pid_eq (by simp), hread.modifies.pid_eq (by simp)]
    refine hs rfl ⟨hready, ?_, ?_⟩ ⟨?_, ?_, ?_⟩
    · cases hread with
      | delayed _ h0 => exact (hn h0).elim
      | got p rest hearly => exact hearly
      | eof hearly => exact hearly
      | failed hearly => exact hearly
    · cases hread with
      | delayed _ h0 => exact (hn h0).elim
      | eof _ h0 => exact (hn h0).elim
      | got p rest _ _ _ hrd => exact .inl (by simp [hrd])
      | failed _ _ hfail =>
        rw [or_iff_not_imp_left, not_not]
        rintro rfl
        simpa [ReadFails] using hfail
    · rw [cmdIsRunning, hpid] at hrun
      have hheap : ((byteTaken w id rd).heap id).pid = (w.heap id).pid := by
        unfold byteTaken
        split <;> rfl
      rwa [cmdIsRunning, hheap]
    · rwa [← hread.ttyIdle_eq hn, ← hidle]
    · have hbcst₁ : w₁.ttyIdle .bcst = w.ttyIdle .bcst :=
        hread.modifies.ttyIdle_eq (by simp) (by simp) (by simp) (by simp)
      have hport : (byteTaken w id rd).ttyIdle .bcst = w.ttyIdle .bcst := by
        unfold byteTaken
        split <;> simp [World.ttyIdle, World.updPort]
      rwa [hport, ← hbcst₁, ← hidle]
  · exact trans_of _ h₂ (cmdStop_spared hj hstop)

lemma Reaped.spared (hr : Reaped w w' j) (hne : id ≠ j) : Spared id w w' := hr.stopped.spared hne

lemma monAddRegister_spared {u : Unit} (h : monAddRegister sys j w = .ok u w') : Spared id w w' := by
  rcases monAddRegister_cases h with ⟨hm, -⟩ | ⟨hm, -⟩ | ⟨-, w₁, b, hm, hstart⟩
  · exact hm.spared (by simp [bcstParts, ttyParts]) (by simp [bcstParts, ttyParts])
  · exact hm.spared (by simp) (by simp)
  · exact trans_of _ (hm.spared (by simp) (by simp)) (cmdStart_spared _ hstart)


/-! ## Handlers -/

/-- What is said of the next notification, if there is one. -/
instance decidableNotified (notify : List Mask) (p : Mask → List Mask → Prop)
    [∀ mask rest, Decidable (p mask rest)] :
    Decidable (match notify with | [] => True | mask :: rest => p mask rest) := by
  cases notify <;> infer_instance

/-- The handler does not stop the command, nor reap its process, nor delete it. -/
def Spares (sys : Sys) (w : World) (s : Source) (x : Answer) (id : CmdId) : Prop :=
  match s with
  | .ifd r =>
    match (w.kern.ports r).notify with
    | [] => True
    | mask :: rest => mask = .IN_OPEN ∨ id ∉ closedFor w r ∨ ¬Stoppable (notified w r mask rest) id
  | .dom (.clt j) => j = id → ReadsClt sys w id x.rd → ¬Stoppable (byteTaken w id x.rd) id
  | .dom .mon => deletes w (.hdlr s x) ≠ some id
  | .pidfd j _ => j ≠ id
  | _ => True

instance (sys : Sys) (w : World) (s : Source) (x : Answer) (id : CmdId) :
    Decidable (Spares sys w s x id) := by
  unfold Spares
  split
  · exact decidableNotified _ _
  all_goals infer_instance

theorem Handled.spared {s : Source} {x : Answer} (hid : id < w.brk) (hok : Spares sys w s x id)
    (hh : Handled sys s x w w') : Spared id w w' := by
  cases hh with
  | bcst hs h =>
    have hm : Modifies bcstInputParts w w' := bcstttyEvent_modifies sys _ subset_rfl h
    exact hm.spared (by simp [bcstInputParts]) (by simp [bcstInputParts])
  | clt j hs hj h =>
    rw [hs] at hok
    exact cmdCltttyEvent_spared hok h
  | cmd j hs hj h =>
    have hm : Modifies (outputParts j) w w' :=
      Keeps.discard (cmdttyProcessOutput_modifies sys _ subset_rfl) h
    exact hm.spared (by simp [outputParts]) (by simp [outputParts])
  | notify r hs hr h =>
    obtain ⟨mask, rest, hq, hned⟩ := ttyNotifyEvent_cases h
    rw [hs, Spares, hq] at hok
    refine trans_of _ ((notified_modifies w r mask rest).spared (by simp) (by simp))
      (nedHdlr_spared (hok.imp_right fun hs => ?_) hned)
    cases r <;> exact hs
  | pid j fd hs hj h =>
    rw [hs] at hok
    obtain ⟨w₁, hreap, hrest⟩ := cmdPidEvent_cases hj h
    have h₁ : Spared id w w₁ := (cmdPidReap_ok hreap).spared (Ne.symm hok)
    rcases hrest with ⟨-, hdel⟩ | ⟨-, hrestart⟩
    · exact trans_of _ h₁ (monDelFound_spared (Ne.symm hok) hdel)
    · rcases cmdPidRestart_cases hrestart with ⟨-, hw⟩ | ⟨w₂, d, -, -, hf, hm⟩
      · rwa [hw]
      · exact trans_of _ h₁ (trans_of _ hf.spared (hm.spared (by simp) (by simp)))
  | del line name j hs hx hl hf h =>
    rw [hs] at hok
    have hne : id ≠ j := by
      rintro rfl
      exact hok (by simp [deletes, hx, hl, hf])
    exact monDelFound_spared hne h
  | add line cmdstr hs hx hl h =>
    rcases monAdd_cases h with hn | ⟨j, spec, w₁, ha, hreg⟩
    · have hne : id ≠ w.brk := hid.ne
      exact hn.modifies.spared (by simp [cmdParts, ttyParts, hne]) (by simp [cmdParts, ttyParts])
    · have hne : id ≠ j := by
        rw [ha.id_eq]
        exact hid.ne
      exact trans_of _ (ha.modifies.spared (by simp [addParts, cmdParts, ttyParts, hne])
        (by simp [addParts, cmdParts, ttyParts])) (monAddRegister_spared hreg)
  | drain line args hs hx hl h =>
    have hm := monDrain_modifies sys (S := {p | ∃ id, p ∈ outputParts id}) (fun id p hp => ⟨id, hp⟩) h
    exact hm.spared (by simp [outputParts]) (by simp [outputParts])
  | idleExit line args hs hx hl h =>
    have hm : Modifies idleExitParts w w' := monIdleExit_modifies sys (by simp [idleExitParts])
      (by simp [idleExitParts]) (by simp [idleExitParts]) h
    exact hm.spared (by simp [idleExitParts]) (by simp [idleExitParts])
  | toggle line m args g hs hx hl hw hcore hrestart hlb =>
    exact (toggle_modifies hw hcore).spared (by simp) (by simp)
  | idle hs hw =>
    rw [hw]
    exact refl_of _ w

end Yar.Proofs
