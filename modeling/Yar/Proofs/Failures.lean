import Yar.Proofs.AddCommand
import Yar.Proofs.Halts
import Yar.Proofs.Names
import Yar.Proofs.Registered

/-!
# Handlers that fail

One lemma for each handler: what the state has to be like, and what has happened where it fails all the same.
-/

namespace Yar.Proofs

open Program

variable {sys : Sys} {w w' : World} {id : CmdId} {r : TtyRef} {S : Set Part} {s : Source} {x : Answer}

/-! ## Input -/

lemma cmdRelay_fails {c : Byte} (hd : (w.ttys (.cmd id)).dfd ≠ none) :
    FailsOnly (cmdRelay sys id c) w fun _ => WriteLost sys := by
  have hwrite := ttyWriteBuf_outcome sys [c] hd (some id)
  refine .get_bind (.bind hwrite.error fun n w₁ hn => .bind (.require fun hne => ?_) fun _ w₂ _ => ?_)
  · exact hwrite.ok n w₁ hn hne
  · exact .get_bind (.of_returns (.modifyState _ _))

variable (sys) in
lemma cmdRelay_frame (id : CmdId) (c : Byte) :
    Keeps (Modifies {.lastwrite id, .oRelay, .oWrite (.cmd id)}) (cmdRelay sys id c) :=
  cmdRelay_modifies sys c (by simp) (by simp) (by simp)

lemma bcstttyEvent_fails {rd : Read} (h : Standing sys w) : FailsOnly (bcstttyEvent sys rd) w fun _ w' =>
    WriteLost sys w' ∨ ∀ c, w.gbls.slowestcmd = some c → c ∉ w.gbls.cmds := by
  refine .get_bind (.when fun _ => ?_)
  cases hslow : w.gbls.slowestcmd with
  | none => exact .throw (.inr (by simp))
  | some c =>
    dsimp only
    refine .bind (.get_bind (.require fun hc => .inr ?_)) fun _ w₁ hlive => ?_
    · intro c' hc'
      cases hc'
      exact hc
    replace hlive := get_bind_eq_ok.mp hlive
    rw [(require_eq_ok.mp hlive).2]
    refine .bind_returns (ttyReadChar_returns _ _ _ w) fun nc w₂ hread => .when fun _ => .get_bind ?_
    have hm : Modifies {.nread .bcst, .oRead .bcst} w w₂ :=
      ttyReadChar_modifies sys _ _ rd (by simp) (by simp) hread
    have hd : ∀ j ∈ w₂.gbls.cmds, (w₂.ttys (.cmd j)).dfd ≠ none := by
      intro j hj
      rw [hm.cmds_eq (by simp)] at hj
      exact hm.dfd_ne (by simp) (h.ends j hj).dfd
    refine .forM (P := fun w => ∀ j ∈ w₂.gbls.cmds, (w.ttys (.cmd j)).dfd ≠ none) (fun i _ w₃ _ w₄ hr hd j hj => ?_)
      (fun j hj w₃ hd => (cmdRelay_fails (hd j hj)).mono fun _ _ => .inl) hd
    exact (cmdRelay_frame sys i nc.2 hr).dfd_ne (by simp) (hd j hj)

lemma Linked.frame (h : Linked w id) (hm : Modifies S w w') (hS : ∀ r, .tty r ∉ S) : Linked w' id := by
  rw [Linked, hm.tty_link (hS _), hm.tty_link (hS _)]
  exact h

lemma cmdCltttyEvent_fails {rd : Read} (h : Standing sys w) (hid : id ∈ w.gbls.cmds) (hl : Linked w id) :
    FailsOnly (cmdCltttyEvent sys id rd) w fun _ => CallLost sys := by
  refine .get_bind (.when fun _ => .bind_returns (ttyReadChar_returns _ _ _ w) fun nc w₁ hread => ?_)
  have hm₁ : Modifies {.nread (.clt id), .oRead (.clt id)} w w₁ :=
    ttyReadChar_modifies sys _ _ rd (by simp) (by simp) hread
  have h₁ : Standing sys w₁ := h.frame hm₁ (by rintro p (rfl | rfl) <;> rfl)
  have hid₁ : id ∈ w₁.gbls.cmds := hm₁.cmds_eq (by simp) ▸ hid
  refine .when fun _ => .bind ((cmdRelay_fails (h₁.ends id hid₁).dfd).mono fun _ _ => .write)
    fun _ w₂ hrelay => .discard ?_
  have hm₂ := cmdRelay_frame sys id nc.2 hrelay
  refine cmdStop_lost (h₁.frame hm₂ ?_) (hm₂.cmds_eq (by simp) ▸ hid₁) fun _ => ?_
  · rintro p (rfl | rfl | rfl) <;> rfl
  · exact (hl.frame hm₁ (by simp)).frame hm₂ (by simp)

/-! ## Opens and closes -/

lemma Terminated.linked {epoll : Bool} {j : CmdId} (ht : Terminated w w' id epoll) (h : Linked w j) :
    Linked w' j :=
  h.frame ht.modifies (by simp [startParts])

variable (sys) in
lemma cmdStop_linked (id j : CmdId) (epoll force : Bool) :
    Preserves (fun w => Linked w j) (cmdStop sys id epoll force) := by
  intro w b w' h hl
  rcases cmdStop_cases h with ⟨-, rfl⟩ | ⟨-, -, -, rfl⟩ | ⟨-, -, w₁, hsend, hterm⟩
  · exact hl
  · exact hl
  · have hm : Modifies {.lastwrite id, .oWrite (.cmd id)} w w₁ :=
      cmdSendStopstr_modifies sys (by simp) (by simp) hsend
    exact (cmdTerminate_ok hterm).linked (hl.frame hm (by simp))

lemma cmdStop_cmds {epoll force b : Bool} (h : cmdStop sys id epoll force w = .ok b w') :
    w'.gbls.cmds = w.gbls.cmds := by
  rcases cmdStop_cases h with ⟨-, rfl⟩ | ⟨-, -, -, rfl⟩ | ⟨-, -, w₁, hsend, hterm⟩
  · rfl
  · rfl
  · have hm : Modifies {.lastwrite id, .oWrite (.cmd id)} w w₁ :=
      cmdSendStopstr_modifies sys (by simp) (by simp) hsend
    exact (cmdTerminate_ok hterm).cmds_eq.trans (hm.cmds_eq (by simp))

/-- All commands are stopped, or all are started. -/
lemma bcstttyNotify_fails {mask : Mask} (h : Standing sys w) (hl : ∀ j ∈ w.gbls.cmds, Linked w j) :
    FailsOnly (bcstttyNotify sys mask) w fun _ => CallLost sys := by
  have hstop : FailsOnly (w.gbls.cmds.forM fun j => discard (cmdStop sys j true false)) w
      fun _ => CallLost sys := by
    refine .forM (P := fun w₁ => w₁.gbls.cmds = w.gbls.cmds ∧ Standing sys w₁ ∧ ∀ j ∈ w.gbls.cmds, Linked w₁ j)
      (fun i hi => Keeps.discard fun w₁ b w₂ hs hw => ?_) (fun j hj w₁ hw => .discard ?_) ⟨rfl, h, hl⟩
    · obtain ⟨hcmds, hw, hl⟩ := hw
      refine ⟨(cmdStop_cmds hs).trans hcmds, cmdStop_standing sys (hcmds ▸ hi) hw hs, fun j hj => ?_⟩
      exact cmdStop_linked sys i j true false hs (hl j hj)
    · obtain ⟨hcmds, hw, hl⟩ := hw
      exact cmdStop_lost hw (hcmds ▸ hj) fun _ => hl j hj
  apply FailsOnly.get_bind
  cases mask with
  | IN_CLOSE_WRITE => exact hstop
  | IN_CLOSE_NOWRITE => exact hstop
  | IN_OPEN =>
    refine .forM (P := fun w₁ => ∀ j ∈ w.gbls.cmds, BothEnds w₁ (.cmd j))
      (fun i _ => Keeps.discard fun w₁ b w₂ hs hw j hj => ?_)
      (fun j hj w₁ hw => .discard (cmdStart_fails (hw j hj))) h.ends
    rcases cmdStart_cases hs with ⟨-, -, rfl⟩ | ⟨-, hf⟩
    · exact hw j hj
    · exact (hw j hj).frame hf.modifies (by simp [forkParts])

lemma cmdCltttyNotify_fails {mask : Mask} (h : Standing sys w) (hid : id ∈ w.gbls.cmds) (hl : Linked w id) :
    FailsOnly (cmdCltttyNotify sys id mask) w fun _ => CallLost sys := by
  cases mask with
  | IN_OPEN => exact .discard (cmdStart_fails (h.ends id hid))
  | IN_CLOSE_WRITE => exact .discard (cmdStop_lost h hid fun _ => hl)
  | IN_CLOSE_NOWRITE => exact .discard (cmdStop_lost h hid fun _ => hl)

/-- A notification that is there is handled. -/
lemma ttyNotifyEvent_fails (h : Standing sys w) (hl : ∀ j ∈ w.gbls.cmds, Linked w j)
    (hifd : (w.ttys r).ifd ≠ none) (hq : (w.kern.ports r).notify ≠ [])
    (hr : ∀ j, r = .clt j → j ∈ w.gbls.cmds) :
    FailsOnly (ttyNotifyEvent sys r .ready) w fun _ => CallLost sys := by
  refine .get_bind (.bind_returns (.require ⟨hifd, rfl⟩ _) fun _ w₁ hreq => ?_)
  rw [(require_eq_ok.mp hreq).2]
  cases hnote : (w.kern.ports r).notify with
  | nil => exact (hq hnote).elim
  | cons mask rest =>
    dsimp only
    refine .bind_returns (.modifyState _ _) fun _ w₂ h₂ => .bind_returns (.modifyState _ _) fun _ w₃ h₃ => ?_
    obtain rfl : w₃ = notified w r mask rest := by
      rw [modify_eq_ok.mp h₃, modify_eq_ok.mp h₂]
      rfl
    have hm := notified_modifies w r mask rest
    have h' : Standing sys (notified w r mask rest) := h.frame hm (by rintro p (rfl | rfl) <;> rfl)
    have hl' : ∀ j ∈ w.gbls.cmds, Linked (notified w r mask rest) j :=
      fun j hj => (hl j hj).frame hm (by simp)
    cases r with
    | bcst => exact bcstttyNotify_fails h' hl'
    | clt id => exact cmdCltttyNotify_fails h' (hr id rfl) (hl' id (hr id rfl))
    | mon => exact .pure _
    | cmd id => exact .pure _

/-! ## The end of a process -/

/-- The process of the command has died, so it can be reaped. -/
lemma cmdPidReap_fails (h : Standing sys w) (hid : id ∈ w.gbls.cmds) (hrun : (w.heap id).pidfd ≠ none)
    (hdead : ∀ q ∈ w.kern.procs, (w.heap id).pidfd = some q.pidfd → q.dead ≠ none) :
    FailsOnly (cmdPidReap id) w fun _ => CallLost sys := by
  have hpid : (w.heap id).pid ≠ none := fun hnone => hrun (h.children.pidfd_none hid hnone)
  obtain ⟨q, hq, -, hqfd, hheard⟩ := h.child hid hpid
  refine .get_bind (.bind_returns (waitid_returns hq hqfd hdead) fun es w₁ hwait => ?_)
  refine .bind_returns (.modifyState _ _) fun _ w₂ hstatus => .bind (epollDel_fails ?_) fun _ w₃ hdel =>
    .bind_returns (.modifyState _ _) fun _ w₄ hnone => .of_returns ?_
  · obtain ⟨p, -, -, -, hw₁⟩ := waitid_ok hwait
    rcases hheard with ⟨e, he, hefd⟩ | hdeaf
    · -- yar itself still has the pidfd open
      have hopen : e.1 ∈ w.kern.fds := h.hears.held.held.opened (i := .pidfd id) hefd
      refine .inl ⟨e, ?_, hefd⟩
      rw [(updCmd_ok hstatus).2.2.2.1, hw₁]
      refine List.mem_filter.mpr ⟨he, ?_⟩
      simp [Kernel.isOpen, hopen]
    · refine .inr (.epollDel id ⟨q.pidfd, ?_, hdeaf⟩)
      rw [(updCmd_ok hstatus).1, hw₁]
      exact hqfd
  · have hm : Modifies {.kproc, .proc id} w w₄ := by
      refine trans_of _ (waitid_modifies _ (by simp) hwait) (trans_of _ ?_
        (trans_of _ (epollDel_modifies _ (by simp) hdel) ?_))
      · exact updCmd_modifies (f := fun this => { this with exitstatus := es })
          (.inr fun _ => rfl) (.inr fun _ => rfl) (.inr fun _ => rfl) (.inr fun _ => rfl)
          (.inr fun _ => rfl) (.inr fun _ => rfl) hstatus
      · exact updCmd_modifies (f := fun this => { this with pidfd := none, pid := none })
          (.inr fun _ => rfl) (.inr fun _ => rfl) (.inr fun _ => rfl) (.inl (by simp))
          (.inr fun _ => rfl) (.inr fun _ => rfl) hnone
    refine cmdResetReady_returns (h.counted.kept hm ?_) (hm.cmds_eq (by simp) ▸ hid)
    rintro p (rfl | rfl) <;> rfl

lemma Reaped.standing (hr : Reaped w w' id) (h : Standing sys w) (hid : id ∈ w.gbls.cmds)
    (hl : Listens sys ∅ w w') : Standing sys w' := by
  refine h.step hr.cmds_eq (hr.children h.children hid) (hl ∅ (by simp) h.hears) ?_
    (h.ends.frame hr.modifies (by simp [startParts]) (by simp [startParts]))
  obtain ⟨w₁, hm, hreset⟩ := hr.reset
  have h₁ : Counted w₁ := h.counted.kept hm (by rintro p (rfl | rfl) <;> rfl)
  have hcmds : w₁.gbls.cmds = w.gbls.cmds := hm.cmds_eq (by simp)
  rcases hreset with ⟨-, rfl⟩ | hr
  · exact h₁
  · exact hr.counted h₁ (hcmds ▸ h.nodup) (hcmds ▸ hid)

/-- A dead process is reaped, and its command is removed or started again. -/
lemma cmdPidEvent_fails (h : Standing sys w) (hnames : (tableNames w).Nodup) (hid : id ∈ w.gbls.cmds)
    (hrun : (w.heap id).pidfd ≠ none)
    (hdead : ∀ q ∈ w.kern.procs, (w.heap id).pidfd = some q.pidfd → q.dead ≠ none) :
    FailsOnly (cmdPidEvent sys id) w (Leaves sys) := by
  refine .bind ((cmdPidReap_fails h hid hrun hdead).mono fun _ _ => .inr) fun _ w₁ hreap => .get_bind ?_
  have hr := cmdPidReap_ok hreap
  have h₁ : Standing sys w₁ := hr.standing h hid (cmdPidReap_listens id hreap)
  have hid₁ : id ∈ w₁.gbls.cmds := hr.cmds_eq ▸ hid
  have hnames₁ : (tableNames w₁).Nodup := by
    rwa [tableNames_congr hr.cmds_eq fun _ _ => hr.modifies.name_eq (by simp [startParts])]
  refine .ite (fun _ => ?_) fun _ => ?_
  · have hfound : w₁.hashFind (w₁.heap id).name = some id := by
      rw [hashFind_eq]
      exact (Keyed.find_iff hnames₁).mpr ⟨hid₁, rfl⟩
    refine .get_bind (.get_bind ?_)
    rw [hfound]
    refine .bind_returns (cmdCleanup_returns hr.pid) fun _ w₂ _ => ?_
    exact .bind_returns (.require rfl _) fun _ w₃ _ => .bind_returns (hashDel_returns id w₃)
      fun _ _ _ => exitIfIdle_fails.mono fun _ _ => .inl
  · refine .get_bind (.when fun _ => .bind ((cmdStart_fails (h₁.ends id hid₁)).mono fun _ _ => .inr)
      fun b w₂ hstart => ?_)
    have hb : b = true := by
      rcases cmdStart_cases hstart with ⟨hpid, -⟩ | ⟨hb, -⟩
      · exact (hpid hr.pid).elim
      · exact hb
    exact .bind_returns (.require hb _) fun _ _ _ => .of_returns (.modifyState _ _)

/-! ## Drains -/

/-- Output of every command can be handled. -/
structure DrainReady (ids : List CmdId) (w : World) : Prop where
  ready : ReadyTable ids w
  connected : ∀ id ∈ ids, Connected w id

lemma DrainReady.output {ids : List CmdId} (hn : ids.Nodup) (hid : id ∈ ids) :
    Preserves (DrainReady ids) (discard (cmdttyProcessOutput sys id .ready)) := by
  refine Keeps.discard fun w n w' hp h => ⟨cmdttyProcessOutput_readyTable hn hid hp h.ready, fun j hj => ?_⟩
  have hm : Modifies (outputParts id) w w' := cmdttyProcessOutput_modifies sys .ready subset_rfl hp
  exact (h.connected j hj).frame hm (by simp [outputParts]) (by simp [outputParts])

lemma DrainReady.reset {ids : List CmdId} : Preserves (DrainReady ids)
    (updCmd id fun this => { this with bufstart := 0, bufn := 0 }) := by
  intro w u w' hupd h
  have hm : Modifies {.ring id} w w' := updRing_modifies (f := fun this =>
    { this with bufstart := 0, bufn := 0 }) (by simp) (fun _ => rfl) (fun _ => rfl) (fun _ => rfl)
    (fun _ => rfl) (fun _ => rfl) hupd
  refine ⟨h.ready.kept hm ?_, fun j hj => (h.connected j hj).frame hm (by simp) (by simp)⟩
  rintro p rfl
  rfl

lemma monDrain_fails (h : DrainReady w.gbls.cmds w) (hn : w.gbls.cmds.Nodup) :
    FailsOnly (monDrain sys) w fun _ => OutputLost sys := by
  refine .get_bind (.forM (P := DrainReady w.gbls.cmds) (fun j hj => ?_) (fun j hj w₁ h₁ => ?_) h)
  · exact Keeps.bind (Keeps.bind Keeps.get fun _ => Keeps.forM (fun _ => DrainReady.output hn hj) _)
      fun _ => DrainReady.reset
  · refine .bind (.get_bind (.forM (P := DrainReady w.gbls.cmds) (fun _ _ => DrainReady.output hn hj)
      (fun _ _ w₂ h₂ => .discard ?_) h₁)) fun _ _ _ => .of_returns (.modifyState _ _)
    exact cmdttyProcessOutput_fails h₂.ready hj (h₂.connected j hj) (.inl rfl)

/-! ## Additions -/

/-- The specification asks for a log, which is not implemented. -/
def AsksLog (sys : Sys) (w : World) (cstr : CStr) : Prop := ∃ f, Admitted sys w cstr f ∧ f.log ≠ []

lemma GBLSAddCmd_fails {cstr : CStr} (hl : LoopReady w) : FailsOnly (GBLSAddCmd sys cstr) w
    fun _ _ => ¬SlowestLive w ∨ AsksLog sys w cstr := by
  by_cases hf : ∃ f, Admitted sys w cstr f
  · obtain ⟨f, hf⟩ := hf
    by_cases hlog : f.log = []
    · by_cases hslow : SlowestLive w
      · apply FailsOnly.of_returns
        have hnone : (f.spec sys w).log = none := nonempty_eq_none.mpr hlog
        obtain ⟨o, w', hrun⟩ := GBLSAddNew_returns (hl.addReady.parsed f) hnone fun _ => hslow
        exact ⟨o, w', hf.eq.trans hrun⟩
      · exact fun _ _ _ => .inl hslow
    · exact fun _ _ _ => .inr ⟨f, hf, hlog⟩
  · obtain ⟨n, hrun⟩ := GBLSAddCmd_refused (not_exists.mp hf)
    exact .of_returns ⟨_, _, hrun⟩

lemma added_standing {cstr : CStr} (h : Standing sys w) (hready : ReadyTable w.gbls.cmds w) (ht : TableInv w)
    (hadd : GBLSAddCmd sys cstr w = .ok (some id) w') : Standing sys w' := by
  rcases GBLSAddCmd_cases hadd with ⟨hr, -⟩ | ⟨j, spec, -, ha⟩
  · cases hr
  · exact ⟨(ht.added ha).nodup, GBLSAddCmd_children hadd ht h.children,
      GBLSAddCmd_listens sys cstr hadd ∅ (by simp) h.hears, (ha.readyTable hready ht).counted,
      GBLSAddCmd_endsOpen ht h.ends hadd⟩

/-- More descriptors are watched, and the broadcast tty is tried. -/
lemma enable_standing {l : List (Fd × Source)} {b : Bool} (h : Standing sys w) (hl : Hears sys ∅ (told w l))
    (hc : ttyCreate sys .bcst (turnedOn (told w l)) = .ok b w') : Standing sys w' := by
  have hm : Modifies (ttyParts .bcst) (turnedOn (told w l)) w' := ttyCreate_modifies sys subset_rfl hc
  have hon : Hears sys ∅ (turnedOn (told w l)) := by
    refine hl.forget rfl (fun s d hd => by cases s <;> exact hd) (fun r hr => ?_) fun s hs => ?_
    · cases r with
      | bcst => rfl
      | _ => exact hr
    · cases s with
      | pidfd id => exact ⟨hs, rfl⟩
      | dom r => exact hs.1.elim
      | ifd r => exact hs.1.1.elim
      | sub r => exact hs.elim
      | sig => exact hs.elim
      | fs => exact hs.elim
  have hon' : Standing sys (turnedOn (told w l)) := by
    refine h.step rfl ?_ hon ⟨h.counted.low, h.counted.unset⟩ fun j hj => ⟨(h.ends j hj).dfd, (h.ends j hj).sfd⟩
    exact h.children.frame ⟨rfl, le_rfl, rfl⟩ (fun _ _ => ⟨rfl, rfl⟩) fun _ _ => .rfl
  refine hon'.step (hm.cmds_eq (by simp [ttyParts])) ?_ ?_
    (hon'.counted.kept hm fun p hp => ttyParts_ofReady hp)
    (hon'.ends.frame hm (by simp [ttyParts]) (by simp [ttyParts]))
  · exact hm.children (ttyCreate_fdStep sys .bcst hc).procStep (by simp [ttyParts]) (by simp [ttyParts])
      hon'.children
  · exact ttyCreate_listens (R := {.bcst}) sys rfl hc ∅ (by simp) hon

/-- The registration of the ttys of a command can fail by `EPOLL_CTL_ADD` only. -/
lemma cmdRegisterttyEvents_fails (hclt : TtyMade sys w (.clt id)) (hcmd : TtyMade sys w (.cmd id)) :
    FailsOnly (cmdRegisterttyEvents sys id) w fun _ => CallLost sys := by
  have hassert {w : World} {r : TtyRef} (hr : r = .clt id ∨ r = .cmd id) {b : Bool}
      {l : List (Fd × Source)} (hb : b = true ↔ Registrable sys (w.ttys r)) :
      FailsOnly (assert (b = true)) (told w l) fun _ => CallLost sys := by
    refine .require fun hno => ?_
    have hdeaf : ¬Registrable sys (w.ttys r) := mt hb.mpr hno
    unfold Registrable at hdeaf
    push Not at hdeaf
    obtain ⟨fd, hfd, hdeaf⟩ := hdeaf
    exact .epollAdd id r fd hr hfd (by simpa using hdeaf)
  obtain ⟨b₁, w₁, hrun₁, ⟨l, rfl⟩, hb₁, -⟩ := ttyRegisterEvents_runs hclt
  have hcmd₁ : TtyMade sys (told w l) (.cmd id) := hcmd.of_kept rfl fun _ hq => hq
  obtain ⟨b₂, w₂, hrun₂, ⟨l', rfl⟩, hb₂, -⟩ := ttyRegisterEvents_runs hcmd₁
  refine .bind_returns ⟨_, _, hrun₁⟩ fun b w₁ h₁ => .bind ?_ fun _ w₂ hreq => ?_
  · cases hrun₁.symm.trans h₁
    exact hassert (.inl rfl) hb₁
  · cases hrun₁.symm.trans h₁
    obtain ⟨-, rfl⟩ := require_eq_ok.mp hreq
    refine .bind_returns ⟨_, _, hrun₂⟩ fun b w₃ h₂ => ?_
    cases hrun₂.symm.trans h₂
    exact hassert (.inr rfl) hb₂

/-- The rest of an addition comes to its end, unless yar leaves for want of a broadcast tty or a call fails. -/
lemma monAddRegister_fails (h : Standing sys w) (hid : id < w.brk) (hclt : TtyMade sys w (.clt id))
    (hcmd : TtyMade sys w (.cmd id)) (hwait : BcstWaits w) :
    FailsOnly (monAddRegister sys id) w (Leaves sys) := by
  refine .bind ((cmdRegisterttyEvents_fails hclt hcmd).mono fun _ _ => .inr) fun _ w₁ hreg => .get_bind ?_
  obtain ⟨⟨l, rfl⟩, -, hup⟩ := cmdRegisterttyEvents_up hclt hcmd hreg
  have hl : Hears sys ∅ (told w l) :=
    (cmdRegisterttyEvents_hears h.hears hid hreg).2.mono (Set.empty_subset _)
  refine .ite (fun hnew => ?_) fun _ => .when fun _ => .discard ?_
  · have hw := hwait hnew.1
    refine .bind_returns (.modifyState _ _) fun _ w₂ h₂ => ?_
    obtain rfl : w₂ = turnedOn (told w l) := modify_eq_ok.mp h₂
    refine .bind (.get_bind (.when fun _ => ?_)) fun _ w₃ h₃ => .of_returns (.get_bind (.when fun _ => .discard ?_))
    · refine .bind_returns (ttyCreate_returns hw.1 hw.2) fun b w₃ hcreate => .when fun _ => ?_
      exact exit_fails (enable_standing h hl hcreate)
    · obtain ⟨hfit, rfl⟩ := (bcstttyCreate_iff sys (told w l) hw.1 hw.2).mp h₃
      have hmade : TtyMade sys (createdTty sys .bcst (turnedOn (told w l))) .bcst := createdTty_made hfit.unused
      obtain ⟨b, w₄, hrun, -⟩ := ttyRegisterEvents_runs hmade
      exact ⟨b, w₄, hrun⟩
  · exact (cmdStart_fails ⟨hup.dfd, hup.sfd⟩).mono fun _ _ => .inr

/-- What the monitor adds. -/
lemma monAdd_fails {args : Option CStr} (hl : LoopReady w) (h : Standing sys w)
    (hready : ReadyTable w.gbls.cmds w) (ht : TableInv w) : FailsOnly (monAdd sys args) w fun e w' =>
      Leaves sys e w' ∨ ¬SlowestLive w ∨ ∃ cstr, args = some cstr ∧ AsksLog sys w cstr := by
  cases args with
  | none => exact .pure _
  | some cstr =>
    rw [monAdd_some]
    refine .bind ((GBLSAddCmd_fails hl).mono fun _ _ hf => .inr (hf.imp_right fun h => ⟨cstr, rfl, h⟩))
      fun o w₁ hadd => ?_
    cases o with
    | none => exact .pure _
    | some id =>
      refine FailsOnly.mono ?_ fun _ _ => .inl
      have h₁ := added_standing h hready ht hadd
      by_cases hf : ∃ f, Admitted sys w cstr f
      · obtain ⟨f, hf⟩ := hf
        have hadd' := hadd
        rw [hf.eq] at hadd'
        obtain ⟨hcan, rfl, s, -, rfl⟩ := GBLSAddNew_some (hl.addReady.parsed f) hadd'
        have hmade := listed_made (s := s) hcan.ttys
        have hwaits : BcstWaits (parsed f w) := hl.bcst
        refine monAddRegister_fails h₁ ?_ hmade.1 hmade.2 (listed_bcstWaits hwaits)
        rw [listed_brk]
        exact Nat.lt_succ_self _
      · obtain ⟨n, hrun⟩ := GBLSAddCmd_refused (not_exists.mp hf)
        cases hrun.symm.trans hadd

end Yar.Proofs
