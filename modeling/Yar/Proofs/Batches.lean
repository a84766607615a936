import Yar.Proofs.Registered
import Yar.Proofs.Stops

/-!
# Batches

`theLoop` fetches up to 1024 events at once. A handler that deletes a command, or stops its process, does
so without a look at the rest of the batch.
-/

namespace Yar.Proofs

open Program Transition

/-! ## What the events of a batch refer to -/

/-- The next event that is dispatched refers to a global or to a command of the table. -/
def RefersLive (l : Loop) : Prop :=
  ∀ s rest, l.batch = s :: rest → ∀ id ∈ Source.owner s, id ∈ l.world.gbls.cmds

/-- The condition of a run: no event of a command that is deleted is left in the batch, and no child that
has not execed holds copies of its descriptors. -/
def DeletesUnawaited (l : Loop) (e : LoopEvent) : Prop :=
  match e, l.batch with
  | .dispatch x, s :: rest => DeletesUnshared (fun _ => True) l.world (.hdlr s x) ∧
      ∀ id ∈ deletes l.world (.hdlr s x), ∀ s' ∈ rest, Source.owner s' ≠ some id
  | _, _ => True

instance (l : Loop) (e : LoopEvent) : Decidable (DeletesUnawaited l e) := by
  unfold DeletesUnawaited
  split <;> infer_instance

/-- The source is the pidfd of a command. -/
def Source.isPidfd : Source → Bool
  | .pidfd _ _ => true
  | _ => false

/-- The process of the command is dead and has not been reaped, and `fd` is its pidfd. -/
def ExitPending (w : World) (id : CmdId) (fd : Fd) : Prop :=
  id ∈ w.gbls.cmds ∧ (w.heap id).pidfd = some fd ∧
    ∃ p ∈ w.kern.procs, p.pidfd = fd ∧ p.dead ≠ none

/-- The exit handler, where it is the next one, finds the process that died and reaps it. -/
def ReapsItsProcess (l : Loop) : Prop :=
  ∀ id fd rest, l.batch = .pidfd id fd :: rest → ExitPending l.world id fd ∧
    ∃ st w, waitid (l.world.heap id).pidfd l.world = .ok st w

/-- The condition of a run: no handler stops or deletes a command whose exit is yet to be handled in the
batch, nor deletes one while a child that has not execed holds a copy of its pidfd. -/
def SparesExited (sys : Sys) (l : Loop) (e : LoopEvent) : Prop :=
  match e, l.batch with
  | .dispatch x, s :: rest => DeletesUnshared (fun s => Source.isPidfd s = true) l.world (.hdlr s x) ∧
      ∀ s' ∈ rest, Source.isPidfd s' = true → ∀ id ∈ Source.owner s', Spares sys l.world s x id
  | _, _ => True

instance (sys : Sys) (l : Loop) (e : LoopEvent) : Decidable (SparesExited sys l e) := by
  unfold SparesExited
  split <;> infer_instance

variable {sys : Sys} {w w' : World} {l : Loop} {id : CmdId} {fd : Fd} {S : Set Part}

/-! ## The table over a batch -/

lemma mem_interest {batch : List Source} {s : Source} (h : Fetched w.kern batch) (hs : s ∈ batch) :
    ∃ e ∈ w.kern.interest, e.2 = s :=
  List.mem_map.mp (h.2.2 s hs).1

/-- A command that is not deleted stays in the table. -/
lemma Handled.mem_cmds {s : Source} {x : Answer} (hh : Handled sys s x w w') (hid : id ∈ w.gbls.cmds)
    (hd : deletes w (.hdlr s x) ≠ some id) : id ∈ w'.gbls.cmds := by
  cases hh.tableStep with
  | kept hk => rwa [hk.cmds]
  | added j spec w₁ ha hk =>
    rw [hk.cmds, ha.table]
    exact List.mem_append_left _ hid
  | removed j hdel hj hr =>
    have hne : id ≠ j := by
      rintro rfl
      exact hd hdel
    rw [hr.table, List.mem_filter, decide_eq_true_eq]
    exact ⟨hid, hne⟩

lemma loop_deletesUnshared (hl : LoopReachable sys DeletesUnawaited l) :
    Reachable sys (DeletesUnshared fun _ => True) l.world :=
  hl.world sys (fun _ _ _ _ hok => hok.1) fun _ _ _ hd => by cases hd

/-- In a run whose deletions leave no event of the command in the batch, every event refers to a command
that is still there. -/
theorem dispatched_live (hl : LoopReachable sys DeletesUnawaited l) : RefersLive l := by
  suffices h : ∀ s ∈ l.batch, ∀ id ∈ Source.owner s, id ∈ l.world.gbls.cmds by
    intro s rest hbatch
    exact h s (by simp [hbatch])
  obtain ⟨o, hl⟩ := hl
  refine hl.invariant (P := fun l => ∀ s ∈ l.batch, ∀ id ∈ Source.owner s, id ∈ l.world.gbls.cmds)
    (fun l h s hs => ?_) fun l e l' hr h hok hstep => ?_
  · rw [h.2] at hs
    cases hs
  cases hstep with
  | env _ e =>
    have hm := apply_modifies l.world e
    intro s hs id hid
    rw [hm.cmds_eq (by cases e <;> simp [envParts])]
    exact h s hs id hid
  | wait hf =>
    intro s hs id hid
    obtain ⟨e, he, rfl⟩ := mem_interest hf hs
    exact (reachable_registered (loop_deletesUnshared ⟨o, hr⟩) e he trivial id hid).mem
  | dispatch hd =>
    intro s' hs' id hid
    refine (hdlr_cases hd).mem_cmds (h s' (List.mem_cons_of_mem _ hs') id hid) fun hdel => ?_
    exact hok.2 id hdel s' hs' hid

/-- The client of a command writes a byte and the monitor deletes the other command, in one batch. -/
theorem dispatched_live_deleted : ∃ l, LoopReachable quietSys DeletesUnawaited l ∧ RefersLive l ∧
    l.batch = [.dom (.clt 0)] ∧ l.world.gbls.cmds = [0] := by
  obtain ⟨l, hl, hp⟩ := exists_loopReachable quietSys DeletesUnawaited
    { specs := [bytes "a,,,1,x", bytes "b,,,1,y"], cwd := bytes "/h" }
    [.env (.typed .mon 100 9), .env (.typed (.clt 0) 107 9), .wait [.dom .mon, .dom (.clt 0)],
      .dispatch { line := some (bytes "del b") }]
    (fun l => decide (l.batch = [.dom (.clt 0)] ∧ l.world.gbls.cmds = [0])) (by decide +kernel)
  exact ⟨l, hl, dispatched_live hl, of_decide_eq_true hp⟩

/-- The client of a command writes a byte and the monitor deletes the command, in one batch. -/
theorem not_always_dispatched_live :
    ¬∀ (sys : Sys) (l : Loop), LoopReachable sys (fun _ _ => True) l → RefersLive l := by
  intro h
  obtain ⟨l, hl, hp⟩ := exists_loopReachable quietSys (fun _ _ => True) oneCmd
    [.env (.typed .mon 97 9), .env (.typed (.clt 0) 107 9), .wait [.dom .mon, .dom (.clt 0)],
      .dispatch { line := some (bytes "del a") }]
    (fun l => decide (l.batch = [.dom (.clt 0)] ∧ 0 ∉ l.world.gbls.cmds)) (by decide +kernel)
  obtain ⟨hbatch, hid⟩ := of_decide_eq_true hp
  exact hid (h quietSys l hl (.dom (.clt 0)) [] hbatch 0 rfl)

/-! ## Processes over a step -/

/-- New children have new pids, and a dead one stays dead. -/
structure Ages (w w' : World) : Prop where
  nextPid : w.kern.nextPid ≤ w'.kern.nextPid
  old : ∀ q ∈ w'.kern.procs, q.pid < w.kern.nextPid →
    ∃ p ∈ w.kern.procs, p.pid = q.pid ∧ p.pidfd = q.pidfd ∧ (p.dead ≠ none → q.dead ≠ none)

instance : Std.Refl Ages where
  refl _ := ⟨le_rfl, fun q hq _ => ⟨q, hq, rfl, rfl, fun hd => hd⟩⟩

instance : IsTrans World Ages where
  trans w w₁ w' h h' := by
    refine ⟨h.nextPid.trans h'.nextPid, fun q hq hlt => ?_⟩
    obtain ⟨p₁, hp₁, hpid₁, hfd₁, hdead₁⟩ := h'.old q hq (hlt.trans_le h.nextPid)
    obtain ⟨p, hp, hpid, hfd, hdead⟩ := h.old p₁ hp₁ (hpid₁ ▸ hlt)
    exact ⟨p, hp, hpid.trans hpid₁, hfd.trans hfd₁, hdead₁ ∘ hdead⟩

lemma Ages.of_subset (hn : w'.kern.nextPid = w.kern.nextPid)
    (hp : ∀ q ∈ w'.kern.procs, q ∈ w.kern.procs) : Ages w w' :=
  ⟨hn.ge, fun q hq _ => ⟨q, hp q hq, rfl, rfl, fun hd => hd⟩⟩

lemma FdStep.ages (h : FdStep w w') : Ages w w' := .of_subset h.nextPid fun _ hq => h.procs ▸ hq

lemma Modifies.ages (hm : Modifies S w w') (hk : .kproc ∉ S) : Ages w w' :=
  (FdStep.of_kernProc (hm.kernProc_eq hk)).ages

lemma Gone.ages {fd : Option Fd} (h : Gone w.kern w'.kern fd) : Ages w w' := by
  refine .of_subset h.nextPid fun q hq => ?_
  rw [h.procs] at hq
  exact List.mem_of_mem_filter hq

lemma Forked.ages {d : Double} (hf : Forked sys w w' id d) : Ages w w' := by
  refine ⟨hf.nextPid ▸ Nat.le_succ _, fun q hq hlt => ?_⟩
  rw [hf.procs, List.mem_append, List.mem_singleton] at hq
  rcases hq with hq | rfl
  · exact ⟨q, hq, rfl, rfl, fun hd => hd⟩
  · exact (Nat.lt_irrefl _ hlt).elim

lemma remove_ages (hid : id ∈ w.gbls.cmds) (hc : Children w.gbls.cmds w)
    (hr : (do cmdCleanup sys id; hashDel id) w = .ok () w') : Ages w w' := by
  obtain ⟨_, w₁, hclean, hdel⟩ := bind_eq_ok.mp hr
  obtain ⟨_, w₂, hstop, hclear⟩ := bind_eq_ok.mp hclean
  obtain ⟨b, hstop⟩ := discard_eq_ok.mp hstop
  have hs := cmdStop_forced hid hc hstop
  have h₂ : Ages w w₂ := .of_subset hs.nextPid fun q hq => (hs.procs q hq).1
  have h₁ : Ages w₂ w₁ := (cmdClear_fdStep sys id hclear).ages
  have h' : Ages w₁ w' := by
    rw [hashDel_ok hdel]
    exact .of_subset rfl fun _ hq => hq
  exact trans_of _ h₂ (trans_of _ h₁ h')

lemma Action.ages {ok : World → Op → Prop} (ha : Action sys ok w w') (hc : Children w.gbls.cmds w) :
    Ages w w' := by
  cases ha with
  | @quiet S hS hm hflg =>
    have hk : .kproc ∉ S := fun hpS => by simpa [Part.quiet] using hS _ hpS
    exact hm.ages hk
  | notified r mask rest hr hq hw =>
    rw [hw]
    exact (notified_modifies w r mask rest).ages (by simp)
  | start id d hid hf => exact hf.ages
  | stop id hid hs => exact hs.gone.ages
  | reap id hid hok hr => exact hr.gone.ages
  | remove id hid hok hr => exact remove_ages hid hc hr
  | add cstr res hok hadd =>
    rcases GBLSAddCmd_cases hadd with ⟨-, hn⟩ | ⟨id, spec, -, ha⟩
    · exact hn.fds.ages
    · exact ha.fds.ages
  | register r c hr hreg =>
    obtain ⟨dfd, ifd, -, -, rfl, -⟩ := ttyRegisterEvents_ok hreg
    exact .of_subset rfl fun _ hq => hq
  | enable b hok hflg hlen he =>
    have h : FdStep { w with gbls.bcstflg := true } w' := ttyCreate_fdStep sys .bcst he
    exact .of_subset h.nextPid fun _ hq => h.procs ▸ hq

/-- A handler leaves the children of a command of the table, and its fields denote one. -/
lemma Handled.children {s : Source} {x : Answer} (hh : Handled sys s x w w') (ht : TableInv w)
    (hc : Children w.gbls.cmds w) : Children w'.gbls.cmds w' ∧ Ages w w' := by
  obtain ⟨-, hc', hages⟩ := (hh.acts (.trivial s x w)).invariant
    (P := fun w₁ => TableInv w₁ ∧ Children w₁.gbls.cmds w₁ ∧ Ages w w₁)
    (fun _ _ hp ha => ⟨ha.tableInv hp.1, ha.children hp.1 hp.2.1, trans_of _ hp.2.2 (ha.ages hp.2.1)⟩)
    ⟨ht, hc, refl_of _ w⟩
  exact ⟨hc', hages⟩

lemma Children.proc_inj {ids : List CmdId} (h : Children ids w) {p q : Proc} (hp : p ∈ w.kern.procs)
    (hq : q ∈ w.kern.procs) (heq : p.pid = q.pid) : p = q := by
  have hn : (w.kern.procs.map Proc.pid).Nodup := by
    have hpids := h.pids
    rwa [keys, List.map_map] at hpids
  exact List.inj_on_of_nodup_map hn hp hq heq

/-- The child of a command whose pidfd it is. -/
lemma ExitPending.child (h : ExitPending w id fd) (hc : Children w.gbls.cmds w) :
    ∃ p, IsChild w id p ∧ p.pidfd = fd ∧ p.dead ≠ none := by
  obtain ⟨hid, hpidfd, p, hp, hfd, hdead⟩ := h
  rcases hc.running id hid with ⟨-, hnone⟩ | ⟨_, hq, ho⟩
  · cases hpidfd.symm.trans hnone
  obtain ⟨q, hmem, rfl⟩ := List.mem_map.mp hq
  have hqfd : q.pidfd = fd := Option.some_inj.mp (ho.2.1.symm.trans hpidfd)
  have hkey : (p.pid, p.pidfd) = (q.pid, q.pidfd) :=
    List.inj_on_of_nodup_map hc.pidfds (mem_keys hp) hq (hfd.trans hqfd.symm)
  have heq : p = q := hc.proc_inj hp hmem (congrArg Prod.fst hkey)
  exact ⟨p, ⟨hp, heq ▸ ho.2.2⟩, hfd, hdead⟩

lemma Spares.deletes_ne {s : Source} {x : Answer} (h : Spares sys w s x id) :
    deletes w (.hdlr s x) ≠ some id := by
  cases s with
  | dom r =>
    cases r with
    | mon => exact h
    | _ => simp [deletes]
  | pidfd j fd =>
    intro hd
    simp only [deletes] at hd
    split at hd
    · exact h (Option.some_inj.mp hd)
    · cases hd
  | _ => simp [deletes]

/-- A pending exit stays pending as long as the command is spared. -/
lemma ExitPending.handled {s : Source} {x : Answer} (h : ExitPending w id fd) (ht : TableInv w)
    (hc : Children w.gbls.cmds w) (hok : Spares sys w s x id) (hh : Handled sys s x w w') :
    ExitPending w' id fd := by
  obtain ⟨p, hchild, hfd, hdead⟩ := h.child hc
  obtain ⟨hid, hpid, -⟩ := hc.isChild hchild
  obtain ⟨hc', hages⟩ := hh.children ht hc
  have hid' : id ∈ w'.gbls.cmds := hh.mem_cmds hid hok.deletes_ne
  have hpid' : (w'.heap id).pid = some p.pid := (hh.spared (ht.lt_brk id hid) hok).pid _ hpid
  obtain ⟨q, hq⟩ := hc'.exists_isChild hid' (by simp [hpid'])
  obtain ⟨-, hqpid, hqfd⟩ := hc'.isChild hq
  have hsame : q.pid = p.pid := Option.some_inj.mp (hqpid.symm.trans hpid')
  obtain ⟨p₀, hp₀, hpid₀, hfd₀, hdead₀⟩ := hages.old q hq.1 (hsame ▸ hc.forked_lt id p.pid hchild.2)
  obtain rfl : p₀ = p := hc.proc_inj hp₀ hchild.1 (hpid₀.trans hsame)
  exact ⟨hid', hqfd.trans (congrArg some (hfd₀.symm.trans hfd)), q, hq.1, hfd₀.symm.trans hfd, hdead₀ hdead⟩

lemma letGo_dead {k : Kernel} {p : Pid} {f : Proc → Proc} {q : Proc} (hq : q ∈ k.procs)
    (hdead : q.dead ≠ none) (hf : ∀ q, (f q).pidfd = q.pidfd ∧ (q.dead ≠ none → (f q).dead ≠ none)) :
    ∃ q' ∈ (k.letGo p f).procs, q'.pidfd = q.pidfd ∧ q'.dead ≠ none := by
  refine ⟨_, List.mem_map_of_mem hq, ?_⟩
  split
  · exact ⟨(hf q).1, (hf q).2 hdead⟩
  · exact ⟨rfl, hdead⟩

lemma ExitPending.applied (h : ExitPending w id fd) (e : Env) : ExitPending (e.apply w) id fd := by
  have hm := apply_modifies w e
  obtain ⟨hid, hpidfd, p, hp, rfl, hdead⟩ := h
  refine ⟨?_, ?_, ?_⟩
  · rwa [hm.cmds_eq (by cases e <;> simp [envParts])]
  · rwa [hm.pidfd_eq (by cases e <;> simp [envParts])]
  cases e with
  | opened r => exact ⟨p, hp, rfl, hdead⟩
  | closed r wr =>
    simp only [Env.apply]
    split <;> exact ⟨p, hp, rfl, hdead⟩
  | typed r c q => exact ⟨p, hp, rfl, hdead⟩
  | exited q st =>
    exact letGo_dead hp hdead fun q => ⟨rfl, fun hd => by cases hq : q.dead <;> simp_all⟩
  | execed q => exact letGo_dead hp hdead fun q => ⟨rfl, fun hd => hd⟩

/-! ## The exit handler -/

lemma ExitPending.waitid (h : ExitPending w id fd) (hc : Children w.gbls.cmds w) :
    ∃ st w', waitid (w.heap id).pidfd w = .ok st w' := by
  obtain ⟨p, hchild, hfd, hdead⟩ := h.child hc
  cases hk : w.kern.child (some fd) with
  | none =>
    have hnot := List.find?_eq_none.mp hk p hchild.1
    simp [hfd] at hnot
  | some q =>
    have hq : q ∈ w.kern.procs := List.mem_of_find?_eq_some hk
    have hqfd : fd = q.pidfd := by simpa using List.find?_some hk
    have hkey : (q.pid, q.pidfd) = (p.pid, p.pidfd) :=
      List.inj_on_of_nodup_map hc.pidfds (mem_keys hq) (mem_keys hchild.1) (hqfd.symm.trans hfd.symm)
    obtain rfl : q = p := hc.proc_inj hq hchild.1 (congrArg Prod.fst hkey)
    obtain ⟨pid, pidfd, startdelay, dead, held⟩ := q
    cases dead with
    | none => exact (hdead rfl).elim
    | some st =>
      refine ⟨st, { w with kern := w.kern.reap pidfd }, get_bind_eq_ok.mpr ?_⟩
      rw [h.2.1]
      simp only [hk]
      rfl

lemma loop_reachable {ok : Loop → LoopEvent → Prop} (hl : LoopReachable sys ok l) :
    Reachable sys (fun _ _ => True) l.world :=
  hl.world sys (fun _ _ _ _ _ => trivial) fun _ _ => trivial

lemma loop_pidfdsUnshared (hl : LoopReachable sys (SparesExited sys) l) :
    Reachable sys (DeletesUnshared fun s => Source.isPidfd s = true) l.world :=
  hl.world sys (fun _ _ _ _ hok => hok.1) fun _ _ _ hd => by cases hd

/-- A pidfd that epoll reports is that of a command whose process is dead. -/
lemma exitPending_of_fetched {batch : List Source} (hf : Fetched w.kern batch)
    (hr : Registered (fun s => Source.isPidfd s = true) w) (hc : Children w.gbls.cmds w)
    (hs : .pidfd id fd ∈ batch) : ExitPending w id fd := by
  obtain ⟨e, he, heq⟩ := mem_interest hf hs
  obtain ⟨hmem, hrec, hfd⟩ := hr e he (by rw [heq]; rfl) id (by rw [heq]; rfl)
  obtain rfl := hfd fd heq
  rw [heq] at hrec
  rcases hc.running id hmem with ⟨-, hnone⟩ | ⟨_, hq, ho⟩
  · cases hrec.symm.trans hnone
  obtain ⟨q, hproc, rfl⟩ := List.mem_map.mp hq
  have hqfd : q.pidfd = e.1 := Option.some_inj.mp (ho.2.1.symm.trans hrec)
  exact ⟨hmem, hrec, q, hproc, hqfd, (hf.2.2 _ hs).2 q hproc hqfd⟩

/-- In a run that stops no command whose exit event has been fetched, the exit handler reaps the process
whose death raised its event. -/
theorem reaps_its_process (hl : LoopReachable sys (SparesExited sys) l) : ReapsItsProcess l := by
  have hc := reachable_children (loop_reachable hl)
  suffices h : l.batch.Nodup ∧ ∀ id fd, .pidfd id fd ∈ l.batch → ExitPending l.world id fd by
    intro id fd rest hbatch
    have hpending := h.2 id fd (by simp [hbatch])
    exact ⟨hpending, hpending.waitid hc⟩
  obtain ⟨o, hl⟩ := hl
  refine hl.invariant
    (P := fun l => l.batch.Nodup ∧ ∀ id fd, .pidfd id fd ∈ l.batch → ExitPending l.world id fd)
    (fun l h => ?_) fun l e l' hr h hok hstep => ?_
  · rw [h.2]
    exact ⟨List.nodup_nil, fun id fd hs => by cases hs⟩
  have hr' : LoopReachable sys (SparesExited sys) l := ⟨o, hr⟩
  have hc := reachable_children (loop_reachable hr')
  have hreg := reachable_registered (loop_pidfdsUnshared hr')
  cases hstep with
  | env _ e => exact ⟨h.1, fun id fd hs => (h.2 id fd hs).applied e⟩
  | wait hf =>
    exact ⟨hf.1, fun id fd hs => exitPending_of_fetched hf hreg hc hs⟩
  | dispatch hd =>
    refine ⟨h.1.of_cons, fun id fd hs => ?_⟩
    have hspares := hok.2 _ hs rfl id rfl
    exact (h.2 id fd (List.mem_cons_of_mem _ hs)).handled (reachable_tableInv (loop_reachable hr')) hc
      hspares (hdlr_cases hd)

/-- The processes of both commands exit while their client ttys are open, and the first exit has been
handled. -/
theorem reaps_its_process_exited : ∃ l, LoopReachable quietSys (SparesExited quietSys) l ∧
    ReapsItsProcess l ∧ l.world.gbls.cmds = [0, 1] ∧ ∃ fd, l.batch = [.pidfd 1 fd, .dom (.clt 0)] := by
  obtain ⟨l, hl, hp⟩ := exists_loopReachable quietSys (SparesExited quietSys)
    { specs := [bytes "a,,,1,x", bytes "b,,,1,y"], cwd := bytes "/h" }
    [.env (.opened (.clt 0)), .env (.opened (.clt 1)), .wait [.ifd (.clt 0), .ifd (.clt 1)], .dispatch {},
      .dispatch {}, .env (.exited 0 0), .env (.exited 1 0), .env (.typed (.clt 0) 107 9),
      .wait [.pidfd 0 20, .pidfd 1 21, .dom (.clt 0)], .dispatch {}]
    (fun l => decide (l.world.gbls.cmds = [0, 1] ∧ l.batch = [.pidfd 1 21, .dom (.clt 0)]))
    (by decide +kernel)
  obtain ⟨hcmds, hbatch⟩ := of_decide_eq_true hp
  exact ⟨l, hl, reaps_its_process hl, hcmds, 21, hbatch⟩

/-- The process exits and the client closes the tty, in one batch, and the close comes first: `cmdStop`
reaps the process, and the exit handler fails. -/
theorem not_always_reaps_its_process :
    ¬∀ (sys : Sys) (l : Loop), LoopReachable sys (fun _ _ => True) l → ReapsItsProcess l := by
  intro h
  obtain ⟨l, hl, hp⟩ := exists_loopReachable quietSys (fun _ _ => True) oneCmd
    [.env (.opened (.clt 0)), .wait [.ifd (.clt 0)], .dispatch {}, .env (.exited 0 0),
      .env (.closed (.clt 0) true), .wait [.ifd (.clt 0), .pidfd 0 11], .dispatch {}]
    (fun l => decide (l.batch = [.pidfd 0 11] ∧ (l.world.heap 0).pidfd = none)) (by decide +kernel)
  obtain ⟨hbatch, hnone⟩ := of_decide_eq_true hp
  obtain ⟨⟨-, hsome, -⟩, -⟩ := h quietSys l hl 0 11 [] hbatch
  cases hnone.symm.trans hsome

end Yar.Proofs
