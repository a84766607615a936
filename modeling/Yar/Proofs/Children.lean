import Mathlib.Data.List.Nodup
import Yar.Proofs.Actions
import Yar.Proofs.Runs

/-!
# Children

Every child that has not been reaped belongs to a command of the table, which has it in its `pid`
and `pidfd`. A stop and the exit handler reap the child they forget, and a start is refused while
there is one.
-/

namespace Yar.Proofs

open Program

variable {sys : Sys} {w w' : World} {id : CmdId} {ids : List CmdId} {S : Set Part}

/-- The pid and the pidfd of each child that has not been reaped. -/
def keys (k : Kernel) : List (Pid × Fd) := k.procs.map fun q => (q.pid, q.pidfd)

/-- The child has been forked for the command, whose fields denote it. -/
def Owns (w : World) (id : CmdId) (q : Pid × Fd) : Prop :=
  (w.heap id).pid = some q.1 ∧ (w.heap id).pidfd = some q.2 ∧ .forked id q.1 ∈ w.trace

structure Children (ids : List CmdId) (w : World) : Prop where
  pids : ((keys w.kern).map Prod.fst).Nodup
  pidfds : ((keys w.kern).map Prod.snd).Nodup
  fd_lt : ∀ q ∈ keys w.kern, q.2 < w.kern.nextFd
  forked_lt : ∀ id p, .forked id p ∈ w.trace → p < w.kern.nextPid
  forked_inj : ∀ id id' p, .forked id p ∈ w.trace → .forked id' p ∈ w.trace → id = id'
  running : ∀ id ∈ ids, ((w.heap id).pid = none ∧ (w.heap id).pidfd = none) ∨
    ∃ q ∈ keys w.kern, Owns w id q
  owner : ∀ q ∈ keys w.kern, ∃ id ∈ ids, Owns w id q

/-! ## Steps that leave the children alone -/

/-- No child has come or gone. -/
structure ProcStep (w w' : World) : Prop where
  keys : keys w'.kern = keys w.kern
  nextFd : w.kern.nextFd ≤ w'.kern.nextFd
  nextPid : w'.kern.nextPid = w.kern.nextPid

instance : Std.Refl ProcStep where
  refl _ := ⟨rfl, le_rfl, rfl⟩

instance : IsTrans World ProcStep where
  trans _ _ _ h h' := ⟨h'.keys.trans h.keys, h.nextFd.trans h'.nextFd, h'.nextPid.trans h.nextPid⟩

lemma FdStep.procStep (h : FdStep w w') : ProcStep w w' :=
  ⟨by rw [keys, h.procs, keys], h.nextFd, h.nextPid⟩

lemma Modifies.procStep (h : Modifies S w w') (hS : .kproc ∉ S) : ProcStep w w' :=
  (FdStep.of_kernProc (h.kernProc_eq hS)).procStep

lemma Modifies.forked_iff {p : Pid} (h : Modifies S w w') (hS : .oForked ∉ S) :
    .forked id p ∈ w'.trace ↔ .forked id p ∈ w.trace := by
  obtain ⟨l, hl, hlS⟩ := h.trace
  rw [hl, List.mem_append]
  exact ⟨fun hmem => hmem.resolve_left fun ho => hS (hlS _ ho), .inr⟩

lemma Children.frame (h : Children ids w) (hp : ProcStep w w')
    (hproc : ∀ id ∈ ids, (w'.heap id).pid = (w.heap id).pid ∧ (w'.heap id).pidfd = (w.heap id).pidfd)
    (hforked : ∀ id p, .forked id p ∈ w'.trace ↔ .forked id p ∈ w.trace) : Children ids w' := by
  have howns {id : CmdId} {q : Pid × Fd} (hid : id ∈ ids) (ho : Owns w id q) : Owns w' id q := by
    refine ⟨?_, ?_, (hforked id q.1).mpr ho.2.2⟩
    · rw [(hproc id hid).1, ho.1]
    · rw [(hproc id hid).2, ho.2.1]
  refine ⟨?_, ?_, ?_, ?_, ?_, fun id hid => ?_, ?_⟩
  · rw [hp.keys]
    exact h.pids
  · rw [hp.keys]
    exact h.pidfds
  · rw [hp.keys]
    exact fun q hq => (h.fd_lt q hq).trans_le hp.nextFd
  · rw [hp.nextPid]
    exact fun id p hf => h.forked_lt id p ((hforked id p).mp hf)
  · exact fun id id' p hf hf' => h.forked_inj id id' p ((hforked id p).mp hf) ((hforked id' p).mp hf')
  · rw [hp.keys, (hproc id hid).1, (hproc id hid).2]
    rcases h.running id hid with hnone | ⟨q, hq, ho⟩
    · exact .inl hnone
    · exact .inr ⟨q, hq, howns hid ho⟩
  · rw [hp.keys]
    intro q hq
    obtain ⟨id, hid, ho⟩ := h.owner q hq
    exact ⟨id, hid, howns hid ho⟩

lemma Modifies.children (hm : Modifies S w w') (hp : ProcStep w w') (hS : ∀ id ∈ ids, .proc id ∉ S)
    (hf : .oForked ∉ S) (h : Children ids w) : Children ids w' :=
  h.frame hp (fun id hid => ⟨hm.pid_eq (hS id hid), hm.pidfd_eq (hS id hid)⟩)
    fun _ _ => hm.forked_iff hf

lemma Keeps.children {α : Type} {m : Act α} (hm : Keeps (Modifies S) m) (hp : Keeps ProcStep m)
    (hS : ∀ id ∈ ids, .proc id ∉ S) (hf : .oForked ∉ S) : Preserves (Children ids) m :=
  fun _ _ _ h => Modifies.children (hm h) (hp h) hS hf

lemma Keeps.procStep {α : Type} {m : Act α} (hm : Keeps (Modifies S) m) (hS : .kproc ∉ S) :
    Keeps ProcStep m :=
  fun _ _ _ h => (hm h).procStep hS

/-! ## Starts and ends -/

lemma Children.forked {startdelay : Double} (h : Children ids w) (hid : id ∈ ids)
    (hf : Forked sys w w' id startdelay) : Children ids w' := by
  have hkeys : keys w'.kern = keys w.kern ++ [(w.kern.nextPid, w.kern.nextFd)] := by
    rw [keys, hf.procs, List.map_append]
    rfl
  have htrace {j : CmdId} {p : Pid} :
      .forked j p ∈ w'.trace ↔ (j = id ∧ p = w.kern.nextPid) ∨ .forked j p ∈ w.trace := by
    rw [hf.trace, List.mem_cons, Obs.forked.injEq]
  have hlt : ∀ q ∈ keys w.kern, q.1 < w.kern.nextPid := by
    intro q hq
    obtain ⟨j, -, ho⟩ := h.owner q hq
    exact h.forked_lt j q.1 ho.2.2
  have hnew : Owns w' id (w.kern.nextPid, w.kern.nextFd) := ⟨hf.pid, hf.pidfd, htrace.mpr (.inl ⟨rfl, rfl⟩)⟩
  have hother {j : CmdId} (hj : j ≠ id) : (w'.heap j).pid = (w.heap j).pid ∧
      (w'.heap j).pidfd = (w.heap j).pidfd :=
    ⟨hf.modifies.pid_eq (by simp [forkParts, hj]), hf.modifies.pidfd_eq (by simp [forkParts, hj])⟩
  have howns {j : CmdId} {q : Pid × Fd} (hj : j ≠ id) (ho : Owns w j q) : Owns w' j q :=
    ⟨(hother hj).1.trans ho.1, (hother hj).2.trans ho.2.1, htrace.mpr (.inr ho.2.2)⟩
  refine ⟨?_, ?_, ?_, ?_, ?_, fun j hj => ?_, ?_⟩
  · rw [hkeys, List.map_append, List.nodup_append]
    refine ⟨h.pids, by simp, ?_⟩
    rintro _ hp _ hp' rfl
    obtain ⟨q, hq, rfl⟩ := List.mem_map.mp hp
    exact (hlt q hq).ne (List.mem_singleton.mp hp')
  · rw [hkeys, List.map_append, List.nodup_append]
    refine ⟨h.pidfds, by simp, ?_⟩
    rintro _ hp _ hp' rfl
    obtain ⟨q, hq, rfl⟩ := List.mem_map.mp hp
    exact (h.fd_lt q hq).ne (List.mem_singleton.mp hp')
  · rw [hkeys, hf.nextFd]
    intro q hq
    rcases List.mem_append.mp hq with hq | hq
    · exact (h.fd_lt q hq).trans (Nat.lt_succ_self _)
    · rw [List.mem_singleton.mp hq]
      exact Nat.lt_succ_self _
  · intro j p hp
    rw [hf.nextPid]
    rcases htrace.mp hp with ⟨-, rfl⟩ | hp
    · exact Nat.lt_succ_self _
    · exact (h.forked_lt j p hp).trans (Nat.lt_succ_self _)
  · intro j j' p hp hp'
    rcases htrace.mp hp with ⟨rfl, rfl⟩ | hp <;> rcases htrace.mp hp' with ⟨rfl, he⟩ | hp'
    · rfl
    · exact absurd (h.forked_lt _ _ hp') (lt_irrefl _)
    · exact absurd (h.forked_lt _ _ (he ▸ hp)) (lt_irrefl _)
    · exact h.forked_inj j j' p hp hp'
  · rw [hkeys]
    by_cases heq : j = id
    · exact .inr ⟨_, List.mem_append_right _ (List.mem_singleton_self _), heq ▸ hnew⟩
    · rw [(hother heq).1, (hother heq).2]
      rcases h.running j hj with hnone | ⟨q, hq, ho⟩
      · exact .inl hnone
      · exact .inr ⟨q, List.mem_append_left _ hq, howns heq ho⟩
  · rw [hkeys]
    intro q hq
    rcases List.mem_append.mp hq with hq | hq
    · obtain ⟨j, hj, ho⟩ := h.owner q hq
      have hne : j ≠ id := by
        rintro rfl
        cases hf.stopped.symm.trans ho.1
      exact ⟨j, hj, howns hne ho⟩
    · rw [List.mem_singleton.mp hq]
      exact ⟨id, hid, hnew⟩

/-- The child of the command has been reaped and its fields are reset. -/
lemma Children.gone (h : Children ids w) (hid : id ∈ ids)
    (hgone : Gone w.kern w'.kern (w.heap id).pidfd) (hpid : (w'.heap id).pid = none)
    (hpidfd : (w'.heap id).pidfd = none)
    (hother : ∀ j, j ≠ id → (w'.heap j).pid = (w.heap j).pid ∧ (w'.heap j).pidfd = (w.heap j).pidfd)
    (hforked : ∀ id p, .forked id p ∈ w'.trace ↔ .forked id p ∈ w.trace) : Children ids w' := by
  have hkeys : keys w'.kern = (keys w.kern).filter fun q => (w.heap id).pidfd ≠ some q.2 := by
    rw [keys, hgone.procs, keys, List.filter_map]
    rfl
  have hmem {q : Pid × Fd} : q ∈ keys w'.kern ↔ q ∈ keys w.kern ∧ (w.heap id).pidfd ≠ some q.2 := by
    rw [hkeys, List.mem_filter, decide_eq_true_eq]
  have howns {j : CmdId} {q : Pid × Fd} (hj : j ≠ id) (ho : Owns w j q) : Owns w' j q :=
    ⟨(hother j hj).1.trans ho.1, (hother j hj).2.trans ho.2.1, (hforked j q.1).mpr ho.2.2⟩
  refine ⟨?_, ?_, ?_, ?_, ?_, fun j hj => ?_, fun q hq => ?_⟩
  · rw [hkeys]
    exact h.pids.sublist (List.filter_sublist.map _)
  · rw [hkeys]
    exact h.pidfds.sublist (List.filter_sublist.map _)
  · rw [hgone.nextFd]
    exact fun q hq => h.fd_lt q (hmem.mp hq).1
  · rw [hgone.nextPid]
    exact fun j p hf => h.forked_lt j p ((hforked j p).mp hf)
  · exact fun j j' p hf hf' => h.forked_inj j j' p ((hforked j p).mp hf) ((hforked j' p).mp hf')
  · by_cases heq : j = id
    · exact .inl (heq ▸ ⟨hpid, hpidfd⟩)
    · rw [(hother j heq).1, (hother j heq).2]
      rcases h.running j hj with hnone | ⟨q, hq, ho⟩
      · exact .inl hnone
      · refine .inr ⟨q, hmem.mpr ⟨hq, fun hfd => heq ?_⟩, howns heq ho⟩
        -- both have the pidfd of one child, which has been forked for one of them
        rcases h.running id hid with ⟨-, hnone⟩ | ⟨q', hq', ho'⟩
        · rw [hnone] at hfd
          cases hfd
        · rw [ho'.2.1, Option.some_inj] at hfd
          obtain rfl := List.inj_on_of_nodup_map h.pidfds hq' hq hfd
          exact h.forked_inj j id q'.1 ho.2.2 ho'.2.2
  · obtain ⟨hq, hfd⟩ := hmem.mp hq
    obtain ⟨j, hj, ho⟩ := h.owner q hq
    have hne : j ≠ id := by
      rintro rfl
      exact hfd ho.2.1
    exact ⟨j, hj, howns hne ho⟩

/-- Only commands without a process join or leave the table. -/
lemma Children.retable {ids' : List CmdId} (h : Children ids w)
    (hjoin : ∀ j ∈ ids', j ∈ ids ∨ (w.heap j).pid = none ∧ (w.heap j).pidfd = none)
    (hleave : ∀ j ∈ ids, j ∈ ids' ∨ (w.heap j).pid = none) : Children ids' w := by
  refine ⟨h.pids, h.pidfds, h.fd_lt, h.forked_lt, h.forked_inj, fun j hj => ?_, fun q hq => ?_⟩
  · rcases hjoin j hj with hj | hnone
    · exact h.running j hj
    · exact .inl hnone
  · obtain ⟨j, hj, ho⟩ := h.owner q hq
    rcases hleave j hj with hj' | hnone
    · exact ⟨j, hj', ho⟩
    · rw [ho.1] at hnone
      cases hnone

lemma Children.pidfd_none (h : Children ids w) (hid : id ∈ ids) (hpid : (w.heap id).pid = none) :
    (w.heap id).pidfd = none := by
  rcases h.running id hid with hnone | ⟨q, -, ho⟩
  · exact hnone.2
  · rw [ho.1] at hpid
    cases hpid

lemma Terminated.children {epoll : Bool} (ht : Terminated w w' id epoll) (h : Children ids w)
    (hid : id ∈ ids) : Children ids w' := by
  obtain ⟨w₁, hreset, hm⟩ := ht.reset
  refine h.gone hid ht.gone ht.pid ht.pidfd (fun j hj => ?_) fun j p => ?_
  · exact ⟨ht.modifies.pid_eq (by simp [startParts, hj]), ht.modifies.pidfd_eq (by simp [startParts, hj])⟩
  · rw [hm.forked_iff (by simp)]
    rcases hreset with ⟨-, rfl⟩ | hr
    · rfl
    · rw [hr.trace]

lemma Reaped.children (hr : Reaped w w' id) (h : Children ids w) (hid : id ∈ ids) :
    Children ids w' := by
  obtain ⟨w₁, hm, hreset⟩ := hr.reset
  refine h.gone hid hr.gone hr.pid hr.pidfd (fun j hj => ?_) fun j p => ?_
  · exact ⟨hr.modifies.pid_eq (by simp [startParts, hj]), hr.modifies.pidfd_eq (by simp [startParts, hj])⟩
  · rw [← hm.forked_iff (w := w) (by simp)]
    rcases hreset with ⟨-, rfl⟩ | hr
    · rfl
    · rw [hr.trace]

/-! ## Cleanup -/

/-- A forced stop leaves no process. -/
lemma cmdStop_children {epoll : Bool} {b : Bool} (hid : id ∈ ids) (h : Children ids w)
    (hs : cmdStop sys id epoll true w = .ok b w') :
    Children ids w' ∧ (w'.heap id).pid = none ∧ (w'.heap id).pidfd = none := by
  rcases cmdStop_cases hs with ⟨hpid, rfl⟩ | ⟨-, hforce, -⟩ | ⟨-, -, w₁, hsend, hterm⟩
  · exact ⟨h, hpid, h.pidfd_none hid hpid⟩
  · cases hforce
  · have hm : Modifies {.lastwrite id, .oWrite (.cmd id)} w w₁ :=
      cmdSendStopstr_modifies sys (by simp) (by simp) hsend
    have ht := cmdTerminate_ok hterm
    exact ⟨ht.children (hm.children (hm.procStep (by simp)) (by simp) (by simp) h) hid, ht.pid, ht.pidfd⟩

lemma cmdCleanup_children {u : Unit} (hid : id ∈ ids) (h : Children ids w)
    (hc : cmdCleanup sys id w = .ok u w') :
    Children ids w' ∧ (w'.heap id).pid = none ∧ (w'.heap id).pidfd = none := by
  obtain ⟨_, w₁, hstop, hclear⟩ := bind_eq_ok.mp hc
  obtain ⟨b, hstop⟩ := discard_eq_ok.mp hstop
  obtain ⟨h₁, hpid, hpidfd⟩ := cmdStop_children hid h hstop
  have hm : Modifies (clearParts id) w₁ w' := cmdClear_modifies sys subset_rfl hclear
  have hfd : FdStep w₁ w' := cmdClear_fdStep sys id hclear
  have hnone : (w'.heap id).pid = none ∧ (w'.heap id).pidfd = none := by
    obtain ⟨_, w₂, -, hclear⟩ := bind_eq_ok.mp hclear
    obtain ⟨_, w₃, -, hupd⟩ := bind_eq_ok.mp hclear
    rw [(updCmd_ok hupd).1]
    exact ⟨rfl, rfl⟩
  refine ⟨h₁.frame hfd.procStep (fun j hj => ?_) fun j p => hm.forked_iff (by simp [clearParts, ttyParts]),
    hnone⟩
  by_cases heq : j = id
  · rw [heq, hnone.1, hnone.2, hpid, hpidfd]
    exact ⟨rfl, rfl⟩
  · exact ⟨hm.pid_eq (by simp [clearParts, ttyParts, heq]),
      hm.pidfd_eq (by simp [clearParts, ttyParts, heq])⟩

lemma remove_children (hid : id ∈ ids) (h : Children ids w)
    (hr : (do cmdCleanup sys id; hashDel id) w = .ok () w') :
    Children ids w' ∧ (w'.heap id).pid = none := by
  obtain ⟨_, w₁, hclean, hdel⟩ := bind_eq_ok.mp hr
  obtain ⟨h₁, hpid, -⟩ := cmdCleanup_children hid h hclean
  rw [hashDel_ok hdel]
  refine ⟨h₁.frame ⟨rfl, le_rfl, rfl⟩ (fun _ _ => ⟨rfl, rfl⟩) fun j p => ?_, hpid⟩
  simp

/-- The commands of the table are removed one after the other. -/
lemma removeAll_children {ids : List CmdId} {u : Unit} (h : Children ids w)
    (hr : (ids.forM fun id => do cmdCleanup sys id; hashDel id) w = .ok u w') : Children [] w' := by
  induction ids generalizing w with
  | nil =>
    obtain ⟨-, rfl⟩ := pure_eq_ok.mp hr
    exact h
  | cons id ids ih =>
    obtain ⟨_, w₁, hid, hr⟩ := forM_cons_eq_ok.mp hr
    obtain ⟨h₁, hpid⟩ := remove_children List.mem_cons_self h hid
    refine ih (h₁.retable (fun j hj => .inl (List.mem_cons_of_mem _ hj)) fun j hj => ?_) hr
    rcases List.mem_cons.mp hj with rfl | hj
    · exact .inr hpid
    · exact .inl hj

/-- `cleanup` reaps every child. -/
lemma cleanup_children {u : Unit} (h : Children w.gbls.cmds w) (hc : cleanup sys w = .ok u w') :
    Children w'.gbls.cmds w' := by
  have tty {w w' : World} {ids : List CmdId} {r : TtyRef} {u : Unit} (h : Children ids w)
      (hm : ttyCleanup sys r w = .ok u w') : Children ids w' := by
    have hm' : Modifies (ttyParts r) w w' := ttyCleanup_modifies sys subset_rfl hm
    exact hm'.children (ttyCleanup_fdStep sys r hm).procStep (by simp [ttyParts]) (by simp [ttyParts]) h
  have place {w w' : World} {ids : List CmdId} (h : Children ids w) {m : Act Unit}
      (hm : Keeps (Modifies placeParts) m) (hrun : m w = .ok () w') : Children ids w' :=
    (hm hrun).children (Keeps.procStep hm (by simp) hrun) (by simp) (by simp) h
  rw [cleanup_cmds hc]
  obtain ⟨w₁, w₂, w₃, hbcst, hall, hmon, rfl⟩ := cleanup_parts hc
  have h₁ : Children w.gbls.cmds w₁ := by
    rcases when_eq_ok.mp hbcst with ⟨-, hbcst⟩ | ⟨-, rfl⟩
    · exact tty h hbcst
    · exact h
  have h₂ : Children [] { w₂ with gbls.slowestcmd := none } :=
    (removeAll_children h₁ hall).frame ⟨rfl, le_rfl, rfl⟩ (fun _ _ => ⟨rfl, rfl⟩) fun _ _ => .rfl
  have h₃ := tty (place h₂ (fsCleanup_modifies subset_rfl) (fsCleanup_unmounts sys _)) hmon
  have h₄ := place h₃ (logCleanup_modifies subset_rfl) (logCleanup_closes sys w₃)
  exact h₄.frame ⟨rfl, le_rfl, rfl⟩ (fun _ _ => ⟨rfl, rfl⟩) fun _ _ => .rfl

/-! ## Actions -/

lemma Added.children {spec : CmdSpec} (ha : Added w w' id spec) (ht : TableInv w)
    (h : Children w.gbls.cmds w) : Children w'.gbls.cmds w' := by
  have h₁ : Children w.gbls.cmds w' := by
    refine ha.modifies.children ha.fds.procStep (fun j hj => ?_) (by simp [addParts, cmdParts, ttyParts]) h
    have hne : j ≠ id := by
      rw [ha.id_eq]
      exact (ht.lt_brk j hj).ne
    simp [addParts, cmdParts, ttyParts, hne]
  rw [ha.table]
  refine h₁.retable (fun j hj => ?_) fun j hj => .inl (List.mem_append_left _ hj)
  rcases List.mem_append.mp hj with hj | hj
  · exact .inl hj
  · rw [List.mem_singleton.mp hj]
    exact .inr ⟨ha.init.pid, ha.init.pidfd⟩

lemma NotAdded.children (hn : NotAdded w w') (ht : TableInv w) (h : Children w.gbls.cmds w) :
    Children w'.gbls.cmds w' := by
  rw [hn.modifies.cmds_eq (by simp [cmdParts, ttyParts])]
  refine hn.modifies.children hn.fds.procStep (fun j hj => ?_) (by simp [cmdParts, ttyParts]) h
  have hne : j ≠ w.brk := (ht.lt_brk j hj).ne
  simp [cmdParts, ttyParts, hne]

lemma GBLSAddCmd_children {cstr : CStr} {r : Option CmdId} (ha : GBLSAddCmd sys cstr w = .ok r w')
    (ht : TableInv w) (h : Children w.gbls.cmds w) : Children w'.gbls.cmds w' := by
  rcases GBLSAddCmd_cases ha with ⟨-, hn⟩ | ⟨id, spec, -, ha⟩
  · exact hn.children ht h
  · exact ha.children ht h

lemma epollAdd_procStep (fd : Fd) (s : Source) : Keeps ProcStep (epollAdd sys fd s) := by
  intro w b w' h
  cases (epollAdd_eq sys fd s w).symm.trans h
  exact ⟨rfl, le_rfl, rfl⟩

lemma ttyRegisterEvents_procStep (r : TtyRef) : Keeps ProcStep (ttyRegisterEvents sys r) := by
  refine Keeps.bind Keeps.get fun w => ?_
  dsimp only
  split
  · exact Keeps.bind (Keeps.require _ _) fun _ => Keeps.bind (epollAdd_procStep _ _) fun _ =>
      Keeps.ite (fun _ => Keeps.pure _) fun _ => epollAdd_procStep _ _
  · exact Keeps.throw _

/-- A step that leaves the table and the processes alone keeps the children. -/
lemma Modifies.childTable (hm : Modifies S w w') (hp : ProcStep w w') (ht : .table ∉ S)
    (hS : ∀ id, .proc id ∉ S) (hf : .oForked ∉ S) (h : Children w.gbls.cmds w) :
    Children w'.gbls.cmds w' := by
  rw [hm.cmds_eq ht]
  exact hm.children hp (fun id _ => hS id) hf h

lemma Action.children {ok : World → Op → Prop} (ha : Action sys ok w w') (ht : TableInv w)
    (h : Children w.gbls.cmds w) : Children w'.gbls.cmds w' := by
  cases ha with
  | @quiet S hS hm hflg =>
    have hnot {p : Part} (hp : p.quiet = false) : p ∉ S := fun hpS => by
      rw [hS p hpS] at hp
      cases hp
    exact hm.childTable (hm.procStep (hnot rfl)) (hnot rfl) (fun _ => hnot rfl) (hnot rfl) h
  | notified r mask rest hr hq hw =>
    rw [hw]
    have hm := notified_modifies w r mask rest
    exact hm.childTable (hm.procStep (by simp)) (by simp) (by simp) (by simp) h
  | start id d hid hf =>
    rw [hf.modifies.cmds_eq (by simp [forkParts])]
    exact h.forked hid hf
  | stop id hid hs =>
    rw [hs.cmds_eq]
    exact hs.children h hid
  | reap id hid hok hr =>
    rw [hr.cmds_eq]
    exact hr.children h hid
  | remove id hid hok hr =>
    obtain ⟨h', hpid⟩ := remove_children hid h hr
    rw [(remove_ok hr).2]
    refine h'.retable (fun j hj => .inl (List.mem_of_mem_filter hj)) fun j hj => ?_
    by_cases heq : j = id
    · exact .inr (heq ▸ hpid)
    · exact .inl (List.mem_filter.mpr ⟨hj, by simpa using heq⟩)
  | add cstr r hok hadd => exact GBLSAddCmd_children hadd ht h
  | register r c hr hreg =>
    have hm : Modifies {.kproc} w w' := ttyRegisterEvents_modifies r (by simp) hreg
    exact hm.childTable (ttyRegisterEvents_procStep r hreg) (by simp) (by simp) (by simp) h
  | enable b hok hflg hlen he =>
    have hfd : FdStep _ w' := ttyCreate_fdStep sys .bcst he
    exact (enable_modifies he).childTable ⟨hfd.procStep.keys, hfd.nextFd, hfd.nextPid⟩
      (by simp [bcstParts, ttyParts]) (by simp [bcstParts, ttyParts]) (by simp [bcstParts, ttyParts]) h

lemma letGo_procStep (w : World) (p : Pid) (f : Proc → Proc)
    (hf : ∀ q, (f q).pid = q.pid ∧ (f q).pidfd = q.pidfd) :
    ProcStep w { w with kern := w.kern.letGo p f } := by
  refine ⟨?_, le_rfl, rfl⟩
  simp only [keys, Kernel.letGo, Kernel.sweep, List.map_map]
  refine List.map_congr_left fun q _ => ?_
  simp only [Function.comp_apply]
  split
  · simp [hf q]
  · rfl

lemma apply_children (w : World) (e : Env) (h : Children w.gbls.cmds w) :
    Children (e.apply w).gbls.cmds (e.apply w) := by
  refine (apply_modifies w e).childTable ?_ ?_ ?_ ?_ h
  · cases e with
    | opened r => exact ⟨rfl, le_rfl, rfl⟩
    | closed r wr =>
      simp only [Env.apply]
      split
      · exact refl_of ProcStep w
      · exact ⟨rfl, le_rfl, rfl⟩
    | typed r c p => exact ⟨rfl, le_rfl, rfl⟩
    | exited p st => exact letGo_procStep w p _ fun q => ⟨rfl, rfl⟩
    | execed p => exact letGo_procStep w p id fun q => ⟨rfl, rfl⟩
  all_goals cases e <;> simp [envParts]

lemma theLoopRegister_procStep : Keeps ProcStep (theLoopRegister sys) :=
  theLoopRegister_keeps (fun _ _ _ => epollAdd_procStep _ _) (fun _ _ => ttyRegisterEvents_procStep _)
    (Keeps.bind Keeps.get fun _ => Keeps.forM (fun _ =>
      cmdRegisterttyEvents_keeps (ttyRegisterEvents_procStep _) (ttyRegisterEvents_procStep _)) _)

variable (sys) in
lemma monttyCreate_fdStep : Keeps FdStep (monttyCreate sys) := by
  have path (g : Globals) : Keeps FdStep (pidPath sys g g.monttylinkdir (bytes ".mon")) :=
    Keeps.ite (fun _ => Keeps.pure _) fun _ => exit_keeps sys
  exact Keeps.bind Keeps.get fun _ => Keeps.bind (path _) fun _ =>
    Keeps.bind (ttyInit_fdStep _ _ _ _ _ _) fun _ => Keeps.bind (ttyCreate_fdStep sys _) fun _ =>
    Keeps.when fun _ => exit_keeps sys

variable (sys) in
lemma bcstttyInit_fdStep : Keeps FdStep (bcstttyInit sys) :=
  Keeps.bind updGbls_fdStep fun _ => Keeps.bind Keeps.get fun _ =>
    Keeps.bind (Keeps.bind Keeps.get fun _ => ttyInit_fdStep _ _ _ _ _ _) fun _ =>
    Keeps.bind Keeps.get fun _ => Keeps.when fun _ =>
    Keeps.bind (ttyCreate_fdStep sys _) fun _ => Keeps.when fun _ => exit_keeps sys

/-- An invariant that needs the children as they are at each action. -/
theorem reachable_with_children {ok : World → Op → Prop} {okE : World → Event → Prop}
    {P Q : World → Prop} (hboot : ∀ o, Q (boot o)) (hargs : ∀ s, Preserves Q (argsParseSpec sys s))
    (hlog : Preserves Q (logInit sys)) (hmon : Preserves Q (monttyCreate sys)) (hfs : Preserves Q (fsCreate sys))
    (hadd : ∀ s w id w', TableInv w → Q w → GBLSAddCmd sys s w = .ok (some id) w' → Q w')
    (hbcst : Keeps (fun w w' => Q w → P w') (bcstttyInit sys))
    (hreg : ∀ w w', TableInv w → P w → theLoopRegister sys w = .ok () w' → P w')
    (henv : ∀ w e, P w → okE w (.env e) → P (Env.apply e w))
    (hpermits : ∀ w s x, TableInv w → P w → okE w (.hdlr s x) → Permits sys ok s x w)
    (hact : ∀ w w', TableInv w → Children w.gbls.cmds w → P w → Action sys ok w w' → P w')
    (hw : Reachable sys okE w) : Children w.gbls.cmds w ∧ P w := by
  have stage {α : Type} {m : Act α} (hm : Keeps (Modifies setupParts) m) (hp : Keeps ProcStep m) :
      Preserves (fun w => Children w.gbls.cmds w) m := fun _ _ _ h hc =>
    (hm h).childTable (hp h) (by simp [setupParts, ttyParts]) (by simp [setupParts, ttyParts])
      (by simp [setupParts, ttyParts]) hc
  have both {α : Type} {m : Act α} {P Q : World → Prop} (hc : Preserves (fun w => Children w.gbls.cmds w) m)
      (hP : Keeps (fun w w' => Q w → P w') m) :
      Keeps (fun w w' => (Children w.gbls.cmds w ∧ Q w) → Children w'.gbls.cmds w' ∧ P w') m :=
    fun _ _ _ h hw => ⟨hc h hw.1, hP h hw.2⟩
  have fdStep {α : Type} {m : Act α} (hm : Keeps FdStep m) : Keeps ProcStep m :=
    hm.mono fun _ _ => FdStep.procStep
  have hmonS : ttyParts .mon ⊆ setupParts := fun p hp => .inl (.inl hp)
  have hbcstS : bcstParts ⊆ setupParts := by
    rintro p (hp | hp)
    · exact .inl (.inr hp)
    · exact .inr hp
  refine reachable_of_actions (P := fun w => Children w.gbls.cmds w ∧ P w)
    (Q := fun w => Children w.gbls.cmds w ∧ Q w) (fun o => ⟨?_, hboot o⟩)
    (fun s => both ?_ (hargs s)) (both ?_ hlog) (both ?_ hmon) (both ?_ hfs)
    (fun s w id w' ht h ha => ⟨GBLSAddCmd_children ha ht h.1, hadd s w id w' ht h.2 ha⟩)
    (both ?_ hbcst) (fun w w' ht h hr => ⟨?_, hreg w w' ht h.2 hr⟩)
    (fun w e h hok => ⟨apply_children w e h.1, henv w e h.2 hok⟩)
    (fun w s x ht h hok => hpermits w s x ht h.2 hok)
    (fun w w' ht h ha => ⟨ha.children ht h.1, hact w w' ht h.1 h.2 ha⟩) hw
  · constructor <;> simp [boot, keys]
  · have hm : Keeps (Modifies ∅) (argsParseSpec sys s) := argsParseSpec_modifies sys s
    exact stage (hm.mono fun _ _ h => h.mono (Set.empty_subset _)) (Keeps.procStep hm (by simp))
  · exact stage (logInit_modifies sys (hbcstS (.inr rfl)) (hmonS (by simp [ttyParts])))
      (Keeps.procStep (S := {.flags, .names}) (logInit_modifies sys (by simp) (by simp)) (by simp))
  · exact stage (monttyCreate_modifies sys hmonS) (fdStep (monttyCreate_fdStep sys))
  · exact stage (fsCreate_modifies sys (hbcstS (.inr rfl)) (hmonS (by simp [ttyParts])))
      (Keeps.procStep (S := {.flags, .names}) (fsCreate_modifies sys (by simp) (by simp)) (by simp))
  · exact stage (bcstttyInit_modifies sys hbcstS) (fdStep (bcstttyInit_fdStep sys))
  · exact stage (theLoopRegister_modifies (hmonS (by simp [ttyParts]))) theLoopRegister_procStep hr h.1

lemma reachable_children {ok : World → Event → Prop} (hw : Reachable sys ok w) :
    Children w.gbls.cmds w := by
  have keep {α : Type} {m : Act α} : Preserves (fun _ => True) m := fun _ _ _ _ h => h
  exact (reachable_with_children (P := fun _ => True) (Q := fun _ => True) (fun _ => trivial)
    (fun _ => keep) keep keep keep (fun _ _ _ _ _ h _ => h) keep (fun _ _ _ h _ => h) (fun _ _ h _ => h)
    (fun w s x _ _ _ => Permits.trivial s x w) (fun _ _ _ _ h _ => h) hw).1

/-! ## One instance per command -/

/-- An unreaped child of the command. -/
def IsChild (w : World) (id : CmdId) (q : Proc) : Prop :=
  q ∈ w.kern.procs ∧ .forked id q.pid ∈ w.trace

lemma mem_keys {k : Kernel} {q : Proc} (hq : q ∈ k.procs) : (q.pid, q.pidfd) ∈ keys k :=
  List.mem_map.mpr ⟨q, hq, rfl⟩

/-- A child is in the fields of its command, which is in the table. -/
lemma Children.isChild (h : Children ids w) {q : Proc} (hc : IsChild w id q) :
    id ∈ ids ∧ (w.heap id).pid = some q.pid ∧ (w.heap id).pidfd = some q.pidfd := by
  obtain ⟨j, hj, ho⟩ := h.owner _ (mem_keys hc.1)
  obtain rfl := h.forked_inj id j q.pid hc.2 ho.2.2
  exact ⟨hj, ho.1, ho.2.1⟩

lemma Children.isChild_unique (h : Children ids w) {q q' : Proc} (hc : IsChild w id q)
    (hc' : IsChild w id q') : q' = q := by
  have hn : (w.kern.procs.map Proc.pid).Nodup := by
    have hp := h.pids
    rwa [keys, List.map_map] at hp
  have heq : some q'.pid = some q.pid := (h.isChild hc').2.1.symm.trans (h.isChild hc).2.1
  exact List.inj_on_of_nodup_map hn hc'.1 hc.1 (Option.some_inj.mp heq)

lemma Children.exists_isChild (h : Children ids w) (hid : id ∈ ids) (hpid : (w.heap id).pid ≠ none) :
    ∃ q, IsChild w id q := by
  rcases h.running id hid with ⟨hnone, -⟩ | ⟨_, hq, ho⟩
  · exact absurd hnone hpid
  · obtain ⟨q, hmem, rfl⟩ := List.mem_map.mp hq
    exact ⟨q, hmem, ho.2.2⟩

lemma cleanup_left {s : Source} {x : Answer} (h : Children w.gbls.cmds w)
    (ht : TableInv w) (hh : hdlr sys s x w = .error .exit w') : w'.kern.procs = [] := by
  obtain ⟨w₁, hexit, w₂, hclean, hleft⟩ := hdlr_exit hh
  have h₁ : Children w₁.gbls.cmds w₁ := (Acts.invariant
    (P := fun w => TableInv w ∧ Children w.gbls.cmds w) hexit.acts
    (fun _ _ h ha => ⟨ha.tableInv h.1, ha.children h.1 h.2⟩) ⟨ht, h⟩).2
  have empty {w : World} (h : Children w.gbls.cmds w) (hempty : w.gbls.cmds = []) :
      w.kern.procs = [] := by
    rw [List.eq_nil_iff_forall_not_mem]
    intro q hq
    obtain ⟨j, hj, -⟩ := h.owner _ (mem_keys hq)
    rw [hempty] at hj
    cases hj
  have h₂ := cleanup_children h₁ hclean
  rcases hleft with rfl | hclean'
  · exact empty h₂ (cleanup_cmds hclean)
  · exact empty (cleanup_children h₂ hclean') (cleanup_cmds hclean')

/-- In every run, a command of the table has an unreaped child exactly when its `pid` is set, the
child is then the only one and the one `pid` and `pidfd` denote, every unreaped child is that of a
command of the table, and when a handler ends in `exit` none is left. -/
theorem one_child_each {ok : World → Event → Prop} (hw : Reachable sys ok w) :
    (∀ id ∈ w.gbls.cmds, ((∃ q, IsChild w id q) ↔ (w.heap id).pid ≠ none) ∧
      ∀ q, IsChild w id q → (w.heap id).pid = some q.pid ∧ (w.heap id).pidfd = some q.pidfd ∧
        ∀ q', IsChild w id q' → q' = q) ∧
      (∀ q ∈ w.kern.procs, ∃ id ∈ w.gbls.cmds, IsChild w id q) ∧
      (∀ id q, IsChild w id q → id ∈ w.gbls.cmds) ∧
      ∀ s x w', hdlr sys s x w = .error .exit w' → w'.kern.procs = [] := by
  have h := reachable_children hw
  refine ⟨fun id hid => ⟨⟨?_, h.exists_isChild hid⟩, fun q hq => ?_⟩, ?_, fun id q hq => (h.isChild hq).1,
    fun s x w' hh => cleanup_left h (reachable_tableInv hw) hh⟩
  · rintro ⟨q, hq⟩
    rw [(h.isChild hq).2.1]
    simp
  · exact ⟨(h.isChild hq).2.1, (h.isChild hq).2.2, fun q' hq' => h.isChild_unique hq hq'⟩
  · intro q hq
    obtain ⟨id, hid, ho⟩ := h.owner _ (mem_keys hq)
    exact ⟨id, hid, hq, ho.2.2⟩

/-- A command added by the options and started by the first open of its client tty. -/
theorem one_child_each_started : ∃ w, Reachable quietSys (fun _ _ => True) w ∧
    (w.gbls.cmds = [0] ∧ w.kern.procs.length = 1) ∧
      ∀ id ∈ w.gbls.cmds, ((∃ q, IsChild w id q) ↔ (w.heap id).pid ≠ none) := by
  obtain ⟨w, hw, hp⟩ := exists_reachable quietSys (fun _ _ => True)
    { specs := [bytes "a,,,1,x"], cwd := bytes "/h" }
    [.env (.opened (.clt 0)), .hdlr (.ifd (.clt 0)) {}]
    (fun w => decide (w.gbls.cmds = [0] ∧ w.kern.procs.length = 1)) (by decide +kernel)
  exact ⟨w, hw, of_decide_eq_true hp, fun id hid => ((one_child_each hw).1 id hid).1⟩

end Yar.Proofs
