import Yar.Proofs.Children
import Yar.Proofs.Decoding
import Yar.Proofs.Ready
import Yar.Proofs.Watched

/-!
# What starts and stops rely on

A command of the table has both sides of its tty, and while it runs it has a child that epoll watches.
The ready count is not below the number of complete matches. A stop that relies on this returns once
the stop string is out, and takes nothing of it from the other commands.
-/

namespace Yar.Proofs

open Program

variable {sys : Sys} {w w' : World} {id : CmdId} {S : Set Part} {fd : Option Fd}

/-! ## The ready count -/

/-- Every complete match has been counted. -/
structure Counted (w : World) : Prop where
  low : w.gbls.readystrlen ≠ 0 → (readyCount w : ℤ) ≤ w.gbls.cmdsreadycnt
  unset : w.gbls.readystrlen = 0 → w.gbls.cmdsreadycnt = 0

lemma ReadyTable.counted {ids : List CmdId} (h : ReadyTable ids w) : Counted w :=
  ⟨fun h0 => (h.count h0).ge, h.unset⟩

lemma Counted.kept (h : Counted w) (hm : Modifies S w w') (hS : ∀ p ∈ S, p.ofReady = false) :
    Counted w' := by
  have hnot {p : Part} (hp : p.ofReady = true) : p ∉ S := fun hpS => by
    rw [hS p hpS] at hp
    cases hp
  have hlen := readystrlen_eq (hm.readystr_eq (hnot rfl))
  have hcnt := hm.count_eq (hnot rfl)
  have hcount : readyCount w' = readyCount w := by
    rw [readyCount, readyCount, hm.cmds_eq (hnot rfl)]
    apply List.countP_congr
    intro j _
    rw [decide_eq_true_iff, decide_eq_true_iff, Matched, Matched, hm.readycnt_eq (hnot rfl), hlen]
  constructor
  · rw [hlen, hcnt, hcount]
    exact h.low
  · rw [hlen, hcnt]
    exact h.unset

lemma ResetReady.counted (hr : ResetReady w w' id) (h : Counted w) (hn : w.gbls.cmds.Nodup)
    (hid : id ∈ w.gbls.cmds) : Counted w' := by
  have hlen : w'.gbls.readystrlen = w.gbls.readystrlen :=
    readystrlen_eq (hr.modifies.readystr_eq (by simp))
  constructor
  · intro h0
    rw [hlen] at h0
    have hm : Matched w id := by
      have hready := hr.ready
      simp only [cmdIsReady, Bool.or_eq_true, beq_iff_eq, h0, false_or] at hready
      exact hready.symm
    have hnot : ¬Matched w' id := by
      rw [Matched, hr.readycnt, hlen]
      exact Ne.symm h0
    have hchange := countP_change (p := fun j => decide (Matched w j))
      (q := fun j => decide (Matched w' j)) hn hid fun j hj hne => by
        rw [decide_eq_decide, Matched, Matched, hr.modifies.readycnt_eq (by simp [hne]), hlen]
    have hlow := h.low h0
    simp only [hm, hnot, decide_true, decide_false, if_true, Bool.false_eq_true, if_false] at hchange
    simp only [readyCount] at hlow
    rw [readyCount, hr.modifies.cmds_eq (by simp), hchange, hr.count, if_pos h0]
    omega
  · intro h0
    rw [hlen] at h0
    rw [hr.count, if_neg (not_not.mpr h0), h.unset h0]

/-- The count survives the removal of a command. -/
lemma Counted.filter (h : Counted w) :
    Counted { w with gbls.cmds := w.gbls.cmds.filter (· ≠ id), trace := .removed id :: w.trace } := by
  constructor
  · intro h0
    have hle : (w.gbls.cmds.filter (· ≠ id)).countP (fun j => decide (Matched w j)) ≤ readyCount w :=
      List.filter_sublist.countP_le
    have hlow := h.low h0
    apply le_trans _ hlow
    exact_mod_cast hle
  · exact h.unset

lemma cmdResetReady_returns (h : Counted w) (hid : id ∈ w.gbls.cmds) : Returns (cmdResetReady id) w := by
  refine .get_bind (.when fun hready => .bind (.modifyState _ _) fun _ w₁ h₁ =>
    .bind (.modifyState _ _) fun _ w₂ h₂ => .get_bind (.require ?_ _))
  rw [decCmdsReadyCnt_ok h₂, modify_eq_ok.mp h₁]
  by_cases h0 : w.gbls.readystrlen ≠ 0
  · have hm : Matched w id := by
      simp only [cmdIsReady, Bool.or_eq_true, beq_iff_eq, h0, false_or] at hready
      exact hready.symm
    have hpos : 0 < readyCount w := List.countP_pos_iff.mpr ⟨id, hid, by simpa using hm⟩
    have hlow := h.low h0
    change 0 ≤ if w.gbls.readystrlen ≠ 0 then w.gbls.cmdsreadycnt - 1 else w.gbls.cmdsreadycnt
    rw [if_pos h0]
    omega
  · change 0 ≤ if w.gbls.readystrlen ≠ 0 then w.gbls.cmdsreadycnt - 1 else w.gbls.cmdsreadycnt
    rw [if_neg h0, h.unset (not_not.mp h0)]

/-! ## Calls on the process -/

lemma killAndPoll_returns {pid : Option Pid} (h : ∃ p ∈ w.kern.procs, pid = some p.pid) :
    Returns (killAndPoll sys pid fd) w := by
  refine (call_returns w).bind fun k w₁ hcall => .get_bind ?_
  obtain ⟨-, rfl⟩ := call_ok hcall
  exact (Returns.require h _).bind fun _ _ _ => ⟨_, _, rfl⟩

/-- The child is there and dead. -/
lemma waitid_returns {q : Proc} (hq : q ∈ w.kern.procs) (hfd : fd = some q.pidfd)
    (hdead : ∀ q ∈ w.kern.procs, fd = some q.pidfd → q.dead ≠ none) : Returns (waitid fd) w := by
  refine .get_bind ?_
  have hsome : (w.kern.child fd).isSome = true := by
    rw [Kernel.child, List.find?_isSome]
    exact ⟨q, hq, by simp [hfd]⟩
  obtain ⟨p, hp⟩ := Option.isSome_iff_exists.mp hsome
  have hpfd : fd = some p.pidfd := by simpa using List.find?_some hp
  obtain ⟨st, hst⟩ := Option.ne_none_iff_exists'.mp (hdead p (List.mem_of_find?_eq_some hp) hpfd)
  obtain ⟨pid, pidfd, startdelay, dead, held⟩ := p
  obtain rfl : dead = some st := hst
  rw [hp]
  exact ⟨_, _, rfl⟩

lemma close_returns (fd : Option Fd) (w : World) : Returns (close fd) w := by
  cases fd with
  | none => exact .pure _ _
  | some fd => exact ⟨_, _, rfl⟩

/-! ## What every command of the table has -/

/-- yar has both sides of the tty open. -/
structure BothEnds (w : World) (r : TtyRef) : Prop where
  dfd : (w.ttys r).dfd ≠ none
  sfd : (w.ttys r).sfd ≠ none

lemma BothEnds.frame {r : TtyRef} (h : BothEnds w r) (hm : Modifies S w w') (hS : .tty r ∉ S) :
    BothEnds w' r := by
  have hsame := hm.same _ hS
  simp only [SameOn, ttyStatic, Prod.mk.injEq] at hsame
  obtain ⟨-, -, -, hdfd, hsfd, -⟩ := hsame
  constructor
  · rw [hdfd]
    exact h.dfd
  · rw [hsfd]
    exact h.sfd

def EndsOpen (w : World) : Prop := ∀ id ∈ w.gbls.cmds, BothEnds w (.cmd id)

lemma EndsOpen.frame (h : EndsOpen w) (hm : Modifies S w w') (ht : .table ∉ S)
    (hS : ∀ id ∈ w.gbls.cmds, .tty (.cmd id) ∉ S) : EndsOpen w' := by
  intro id hid
  rw [hm.cmds_eq ht] at hid
  exact (h id hid).frame hm (hS id hid)

structure Standing (sys : Sys) (w : World) : Prop where
  nodup : w.gbls.cmds.Nodup
  children : Children w.gbls.cmds w
  hears : Hears sys ∅ w
  counted : Counted w
  ends : EndsOpen w

/-- The child of a running command, which epoll watches unless it has not taken the pidfd. -/
lemma Standing.child (h : Standing sys w) (hid : id ∈ w.gbls.cmds) (hrun : (w.heap id).pid ≠ none) :
    ∃ q ∈ w.kern.procs, (w.heap id).pid = some q.pid ∧ (w.heap id).pidfd = some q.pidfd ∧
      ((∃ e ∈ w.kern.interest, (w.heap id).pidfd = some e.1) ∨ sys.deaf q.pidfd = true) := by
  rcases h.children.running id hid with ⟨hnone, -⟩ | ⟨k, hk, hpid, hpidfd, -⟩
  · exact (hrun hnone).elim
  · obtain ⟨q, hq, rfl⟩ := List.mem_map.mp hk
    have hlisten : Listened ∅ w (.pidfd id) := by
      simp [Listened, hpidfd]
    obtain ⟨d, src, hd, -, hheard⟩ := h.hears.heard _ hlisten
    refine ⟨q, hq, hpid, hpidfd, hheard.imp (fun hmem => ⟨(d, src), hmem, hd⟩) ?_⟩
    rintro ⟨-, d', hd' | hd', hdeaf⟩
    all_goals
      obtain rfl := Option.some.inj (hpidfd.symm.trans hd')
      exact hdeaf

lemma Standing.step (h : Standing sys w) (hcmds : w'.gbls.cmds = w.gbls.cmds)
    (hc : Children w.gbls.cmds w') (hl : Hears sys ∅ w') (hcnt : Counted w')
    (hends : EndsOpen w') : Standing sys w' :=
  ⟨hcmds ▸ h.nodup, hcmds ▸ hc, hl, hcnt, hends⟩

/-- The parts that what a command relies on depends on. -/
def Part.ofStanding : Part → Bool
  | .kproc | .table | .brk | .flags | .readycount | .options | .oForked | .tty _ | .proc _ | .ready _ => true
  | _ => false

lemma Standing.frame (h : Standing sys w) (hm : Modifies S w w') (hS : ∀ p ∈ S, p.ofStanding = false) :
    Standing sys w' := by
  have hnot {p : Part} (hp : p.ofStanding = true) : p ∉ S := fun hpS => by
    rw [hS p hpS] at hp
    cases hp
  have hflg : w'.gbls.bcstflg = w.gbls.bcstflg := (congrArg Globals.bcstflg (hm.flags_eq (hnot rfl)) :)
  have hl : Listens sys ∅ w w' :=
    hm.listens (hnot rfl) (hnot rfl) (hnot rfl) hflg (fun _ => hnot rfl) fun _ => hnot rfl
  refine h.step (hm.cmds_eq (hnot rfl)) ?_ (hl ∅ (by simp) h.hears) (h.counted.kept hm fun p hp => ?_)
    (h.ends.frame hm (hnot rfl) fun _ _ => hnot rfl)
  · exact hm.children (hm.procStep (hnot rfl)) (fun _ _ => hnot rfl) (hnot rfl) h.children
  · have hp := hS p hp
    cases p <;> first | rfl | cases hp

lemma Standing.stopstr (h : Standing sys w) {u : Unit} (hs : cmdSendStopstr sys id w = .ok u w') :
    Standing sys w' := by
  have hm : Modifies {.lastwrite id, .oWrite (.cmd id)} w w' :=
    cmdSendStopstr_modifies sys (by simp) (by simp) hs
  apply h.frame hm
  rintro p (rfl | rfl) <;> rfl

lemma Terminated.counted {epoll : Bool} (ht : Terminated w w' id epoll) (h : Standing sys w)
    (hid : id ∈ w.gbls.cmds) : Counted w' := by
  obtain ⟨w₁, hreset, hm⟩ := ht.reset
  have h₁ : Counted w₁ := by
    rcases hreset with ⟨-, rfl⟩ | hr
    · exact h.counted
    · exact hr.counted h.counted h.nodup hid
  apply h₁.kept hm
  rintro p (rfl | rfl) <;> rfl

variable (sys) in
lemma cmdStop_standing (hid : id ∈ w.gbls.cmds) {epoll force b : Bool} (h : Standing sys w)
    (hs : cmdStop sys id epoll force w = .ok b w') : Standing sys w' := by
  have hl : Hears sys ∅ w' := cmdStop_listens (R := ∅) sys id epoll force hs ∅ (by simp) h.hears
  rcases cmdStop_cases hs with ⟨-, rfl⟩ | ⟨-, -, -, rfl⟩ | ⟨-, -, w₁, hsend, hterm⟩
  · exact h
  · exact h
  · have h₁ := h.stopstr hsend
    have hm₁ : Modifies {.lastwrite id, .oWrite (.cmd id)} w w₁ :=
      cmdSendStopstr_modifies sys (by simp) (by simp) hsend
    have hcmds₁ : w₁.gbls.cmds = w.gbls.cmds := hm₁.cmds_eq (by simp)
    have ht := cmdTerminate_ok hterm
    refine h.step (ht.cmds_eq.trans hcmds₁) ?_ hl (ht.counted h₁ (hcmds₁ ▸ hid)) ?_
    · exact ht.children (hcmds₁ ▸ h₁.children) hid
    · exact h₁.ends.frame ht.modifies (by simp [startParts]) (by simp [startParts])

lemma ttyCleanup_standing {r : TtyRef} (hr : ∀ id, r ≠ .cmd id) {u : Unit} (h : Standing sys w)
    (hc : ttyCleanup sys r w = .ok u w') : Standing sys w' := by
  have hm : Modifies (ttyParts r) w w' := ttyCleanup_modifies sys subset_rfl hc
  have hl : Hears sys ∅ w' := ttyCleanup_listens (R := {r}) sys rfl hc ∅ (by simp) h.hears
  refine h.step (hm.cmds_eq (by simp [ttyParts])) ?_ hl
    (h.counted.kept hm fun p hp => ttyParts_ofReady hp) ?_
  · exact hm.children (ttyCleanup_fdStep sys r hc).procStep (by simp [ttyParts]) (by simp [ttyParts])
      h.children
  · exact h.ends.frame hm (by simp [ttyParts]) fun j _ => by simp [ttyParts, (hr j).symm]

/-- A removal leaves the other commands what they have. -/
lemma remove_standing (h : Standing sys w) (hid : id ∈ w.gbls.cmds)
    (hr : (do cmdCleanup sys id; hashDel id) w = .ok () w') : Standing sys w' := by
  obtain ⟨hm, hcmds⟩ := remove_ok hr
  obtain ⟨hchildren, hpid⟩ := remove_children hid h.children hr
  have hcounted : Counted w' := by
    obtain ⟨_, w₁, hclean, hdel⟩ := bind_eq_ok.mp hr
    obtain ⟨_, w₂, hstop, hclear⟩ := bind_eq_ok.mp hclean
    obtain ⟨b, hstop⟩ := discard_eq_ok.mp hstop
    have hclear' : Modifies (clearParts id) w₂ w₁ := cmdClear_modifies sys subset_rfl hclear
    rw [hashDel_ok hdel]
    apply Counted.filter
    apply (cmdStop_standing sys hid h hstop).counted.kept hclear'
    rintro p ((hp | hp) | rfl | rfl | rfl | rfl | rfl)
    · exact ttyParts_ofReady hp
    · exact ttyParts_ofReady hp
    all_goals rfl
  refine ⟨?_, ?_, remove_listens hr (R := ∅) ∅ (by simp) h.hears, hcounted, fun j hj => ?_⟩
  · rw [hcmds]
    exact h.nodup.filter _
  · rw [hcmds]
    refine hchildren.retable (fun j hj => .inl (List.mem_of_mem_filter hj)) fun j hj => ?_
    by_cases hne : j = id
    · exact .inr (hne ▸ hpid)
    · exact .inl (List.mem_filter.mpr ⟨hj, by simpa using hne⟩)
  · rw [hcmds, List.mem_filter, decide_eq_true_eq] at hj
    exact (h.ends j hj.1).frame hm
      (by simp [removeParts, cleanupParts, procParts, startParts, cmdParts, ttyParts, hj.2])

/-! ## Runs -/

lemma GBLSAddCmd_endsOpen {cstr : CStr} {r : Option CmdId} (ht : TableInv w) (h : EndsOpen w)
    (hadd : GBLSAddCmd sys cstr w = .ok r w') : EndsOpen w' := by
  rcases GBLSAddCmd_cases hadd with ⟨-, hn⟩ | ⟨id, spec, rfl, ha⟩
  · refine h.frame hn.modifies (by simp [cmdParts, ttyParts]) fun id hid => ?_
    have hne : id ≠ w.brk := (ht.lt_brk id hid).ne
    simp [cmdParts, ttyParts, hne]
  · intro j hj
    rw [ha.table, List.mem_append, List.mem_singleton] at hj
    rcases hj with hj | rfl
    · have hne : j ≠ id := by
        rw [ha.id_eq]
        exact (ht.lt_brk j hj).ne
      exact (h j hj).frame ha.modifies (by simp [addParts, cmdParts, ttyParts, hne])
    · cases GBLSAddCmd_run hadd with
      | added _ hinit hclt hcmd hm =>
        have hwhole := (ttyCreate_whole hcmd).2
        exact (⟨hwhole.dfd, hwhole.sfd⟩ : BothEnds _ _).frame hm (by simp)

lemma Action.endsOpen {ok : World → Op → Prop} (ha : Action sys ok w w') (ht : TableInv w)
    (h : EndsOpen w) : EndsOpen w' := by
  cases ha with
  | @quiet S hS hm hflg =>
    have hnot {p : Part} (hp : p.quiet = false) : p ∉ S := fun hpS => by
      rw [hS p hpS] at hp
      cases hp
    exact h.frame hm (hnot rfl) fun _ _ => hnot rfl
  | notified r mask rest hr hq hw =>
    rw [hw]
    exact h.frame (notified_modifies w r mask rest) (by simp) (by simp)
  | start id d hid hf => exact h.frame hf.modifies (by simp [forkParts]) (by simp [forkParts])
  | stop id hid hs => exact h.frame hs.modifies (by simp [startParts]) (by simp [startParts])
  | reap id hid hok hr => exact h.frame hr.modifies (by simp [startParts]) (by simp [startParts])
  | remove id hid hok hr =>
    obtain ⟨hm, hcmds⟩ := remove_ok hr
    intro j hj
    rw [hcmds, List.mem_filter, decide_eq_true_eq] at hj
    exact (h j hj.1).frame hm
      (by simp [removeParts, cleanupParts, procParts, startParts, cmdParts, ttyParts, hj.2])
  | add cstr r hok hadd => exact GBLSAddCmd_endsOpen ht h hadd
  | register r c hr hreg =>
    have hm : Modifies {.kproc} w w' := ttyRegisterEvents_modifies r (by simp) hreg
    exact h.frame hm (by simp) (by simp)
  | enable b hok hflg hlen he =>
    exact h.frame (enable_modifies he) (by simp [bcstParts, ttyParts]) (by simp [bcstParts, ttyParts])

lemma reachable_endsOpen {ok : World → Event → Prop} (hw : Reachable sys ok w) : EndsOpen w := by
  have stage {α : Type} {m : Act α} {S : Set Part} (hm : Keeps (Modifies S) m) (ht : .table ∉ S)
      (hS : ∀ id, .tty (.cmd id) ∉ S) : Preserves EndsOpen m :=
    fun _ _ _ h hends => hends.frame (hm h) ht fun id _ => hS id
  refine reachable_of_actions (P := EndsOpen) (Q := EndsOpen) (fun o id hid => ?_) (fun s => ?_) ?_ ?_ ?_
    (fun s w id w' ht h hadd => GBLSAddCmd_endsOpen ht h hadd) ?_ (fun w w' _ h hreg => ?_)
    (fun w e h _ => ?_) (fun w s x _ _ _ => Permits.trivial s x w) (fun w w' ht h ha => ha.endsOpen ht h) hw
  · simp [boot] at hid
  · exact stage (S := ∅) (argsParseSpec_modifies sys s) (by simp) (by simp)
  · exact stage (S := {.flags, .names}) (logInit_modifies sys (by simp) (by simp)) (by simp) (by simp)
  · exact stage (monttyCreate_modifies sys subset_rfl) (by simp [ttyParts]) (by simp [ttyParts])
  · exact stage (S := {.flags, .names}) (fsCreate_modifies sys (by simp) (by simp)) (by simp) (by simp)
  · exact stage (bcstttyInit_modifies sys subset_rfl) (by simp [bcstParts, ttyParts])
      (by simp [bcstParts, ttyParts])
  · exact stage (S := {.kproc}) (theLoopRegister_modifies (by simp)) (by simp) (by simp) hreg h
  · exact h.frame (apply_modifies w e) (by cases e <;> simp [envParts]) (by cases e <;> simp [envParts])

/-- What is in use can be read. -/
lemma Hears.dfd (h : Hears sys (Used w) w) {r : TtyRef} (hr : Present w r) : (w.ttys r).dfd ≠ none := by
  have hlisten : Listened (Used w) w (.dom r) := by
    refine ⟨fun q hq => ?_, hr⟩
    obtain rfl : r = q := Option.some.inj hq
    exact hr
  obtain ⟨fd, src, hfd, -⟩ := h.heard _ hlisten
  exact Option.ne_none_iff_exists'.mpr ⟨fd, hfd⟩

lemma reachable_standing (hw : Reachable sys NoStale w) : Standing sys w := by
  exact ⟨(reachable_tableInv hw).nodup, reachable_children hw,
    (reachable_hears hw).mono (Set.empty_subset _),
    (reachable_readyInv hw).counted, reachable_endsOpen hw⟩

end Yar.Proofs
