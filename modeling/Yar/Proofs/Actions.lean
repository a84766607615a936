import Mathlib.Logic.Relation
import Yar.Proofs.Mountpoint
import Yar.Proofs.Output
import Yar.Proofs.Process

/-!
# Actions

A handler is a sequence of actions. Most of them leave processes, descriptors, epoll and
directory entries alone; the others start, stop or reap the process of a command, add a command
or remove one, register descriptors or create the broadcast tty. What every action preserves
holds after each handler.
-/

namespace Yar.Proofs

open Program Relation

/-- The actions a condition can be put on. -/
inductive Op where
  | add (cstr : CStr)
  | enable
  | reap (id : CmdId)
  | remove (id : CmdId)

/-- The parts an action may change that has to do with neither processes nor ttys nor the table, and
does not handle a notification. -/
def Part.quiet : Part → Bool
  | .readycount | .options | .delonexit | .flags | .ring _ | .ready _ | .lastwrite _ | .policy _
  | .nread _ | .hist _ | .oRead _ | .oOutput | .oRelay | .oWrite _ => true
  | _ => false

inductive Action (sys : Sys) (ok : World → Op → Prop) (w w' : World) : Prop where
  | quiet {S : Set Part} (hS : ∀ p ∈ S, p.quiet = true) (h : Modifies S w w')
      (hflg : w'.gbls.bcstflg = w.gbls.bcstflg)
  | notified (r : TtyRef) (mask : Mask) (rest : List Mask)
      (hr : ∀ id, r = .clt id ∨ r = .cmd id → id ∈ w.gbls.cmds)
      (hq : (w.kern.ports r).notify = mask :: rest) (hw : w' = notified w r mask rest)
  | start (id : CmdId) (startdelay : Double) (hid : id ∈ w.gbls.cmds) (h : Forked sys w w' id startdelay)
  | stop (id : CmdId) (hid : id ∈ w.gbls.cmds) (h : Terminated w w' id true)
  | reap (id : CmdId) (hid : id ∈ w.gbls.cmds) (hok : ok w (.reap id)) (h : Reaped w w' id)
  | remove (id : CmdId) (hid : id ∈ w.gbls.cmds) (hok : ok w (.remove id))
      (h : (do cmdCleanup sys id; hashDel id) w = .ok () w')
  | add (cstr : CStr) (r : Option CmdId) (hok : ok w (.add cstr))
      (h : GBLSAddCmd sys cstr w = .ok r w')
  | register (r : TtyRef) (b : Bool) (hr : ∀ id, r = .clt id ∨ r = .cmd id → id ∈ w.gbls.cmds)
      (h : ttyRegisterEvents sys r w = .ok b w')
  | enable (b : Bool) (hok : ok w .enable) (hflg : w.gbls.bcstflg = false)
      (hlen : 1 < w.gbls.cmds.length)
      (h : ttyCreate sys .bcst { w with gbls.bcstflg := true } = .ok b w')

abbrev Acts (sys : Sys) (ok : World → Op → Prop) : World → World → Prop :=
  ReflTransGen (Action sys ok)

variable {sys : Sys} {ok : World → Op → Prop} {w w' : World} {id : CmdId} {ids : List CmdId}

lemma Acts.invariant {P : World → Prop} (h : Acts sys ok w w')
    (hact : ∀ w w', P w → Action sys ok w w' → P w') (hw : P w) : P w' := by
  induction h with
  | refl => exact hw
  | tail _ hstep ih => exact hact _ _ ih hstep

lemma Acts.quiet {S : Set Part} (hm : Modifies S w w') (hS : ∀ p ∈ S, p.quiet = true)
    (hflags : .flags ∉ S) : Acts sys ok w w' :=
  .single (.quiet hS hm (congrArg Globals.bcstflg (hm.flags_eq hflags) :))

/-! ## Processes -/

/-- A sequence of actions that leaves the table as it is. -/
def ActsOn (sys : Sys) (ok : World → Op → Prop) (ids : List CmdId) (w w' : World) : Prop :=
  w.gbls.cmds = ids → w'.gbls.cmds = ids ∧ Acts sys ok w w'

instance : Std.Refl (ActsOn sys ok ids) where
  refl _ h := ⟨h, .refl⟩

instance : IsTrans World (ActsOn sys ok ids) where
  trans _ _ _ h h' hw := ⟨(h' (h hw).1).1, (h hw).2.trans (h' (h hw).1).2⟩

lemma ActsOn.quiet {S : Set Part} (hm : Modifies S w w') (hS : ∀ p ∈ S, p.quiet = true)
    (hflags : .flags ∉ S) : ActsOn sys ok ids w w' := by
  refine fun hw => ⟨?_, .quiet hm hS hflags⟩
  rw [hm.cmds_eq fun hp => by simpa [Part.quiet] using hS _ hp, hw]

lemma cmdStart_acts (d : Double) (hid : id ∈ ids) : Keeps (ActsOn sys ok ids) (cmdStart sys id d) := by
  intro w b w' h hw
  rcases cmdStart_cases h with ⟨-, -, rfl⟩ | ⟨-, hf⟩
  · exact ⟨hw, .refl⟩
  · refine ⟨?_, .single (.start id d (hw ▸ hid) hf)⟩
    rw [hf.modifies.cmds_eq (by simp [forkParts]), hw]

lemma Terminated.modifies {epoll : Bool} (h : Terminated w w' id epoll) :
    Modifies (startParts id) w w' := by
  obtain ⟨w₁, hreset, hm⟩ := h.reset
  have hm₁ : Modifies (startParts id) w₁ w' := hm.mono (by rintro p (rfl | rfl) <;> simp [startParts])
  rcases hreset with ⟨-, rfl⟩ | hr
  · exact hm₁
  · exact trans_of _ (hr.modifies.mono (by rintro p (rfl | rfl) <;> simp [startParts])) hm₁

lemma Terminated.cmds_eq {epoll : Bool} (h : Terminated w w' id epoll) :
    w'.gbls.cmds = w.gbls.cmds :=
  h.modifies.cmds_eq (by simp [startParts])

lemma Reaped.modifies (h : Reaped w w' id) : Modifies (startParts id) w w' := by
  obtain ⟨w₁, hm, hreset⟩ := h.reset
  have hm₁ : Modifies (startParts id) w w₁ := hm.mono (by rintro p (rfl | rfl) <;> simp [startParts])
  rcases hreset with ⟨-, rfl⟩ | hr
  · exact hm₁
  · exact trans_of _ hm₁ (hr.modifies.mono (by rintro p (rfl | rfl) <;> simp [startParts]))

lemma Reaped.cmds_eq (h : Reaped w w' id) : w'.gbls.cmds = w.gbls.cmds :=
  h.modifies.cmds_eq (by simp [startParts])

lemma cmdSendStopstr_acts : Keeps (ActsOn sys ok ids) (cmdSendStopstr sys id) := by
  intro w u w' h
  have hm : Modifies {.lastwrite id, .oWrite (.cmd id)} w w' :=
    cmdSendStopstr_modifies sys (by simp) (by simp) h
  refine ActsOn.quiet hm ?_ (by simp)
  rintro p (rfl | rfl) <;> rfl

lemma cmdStop_acts (force : Bool) (hid : id ∈ ids) :
    Keeps (ActsOn sys ok ids) (cmdStop sys id true force) := by
  intro w b w' h hw
  rcases cmdStop_cases h with ⟨-, rfl⟩ | ⟨-, -, -, rfl⟩ | ⟨-, -, w₁, hsend, hterm⟩
  · exact ⟨hw, .refl⟩
  · exact ⟨hw, .refl⟩
  · obtain ⟨hw₁, hacts⟩ : _ ∧ Acts sys ok w w₁ := cmdSendStopstr_acts hsend hw
    have ht := cmdTerminate_ok hterm
    exact ⟨ht.cmds_eq.trans hw₁, hacts.tail (.stop id (hw₁ ▸ hid) ht)⟩

lemma cmdPidRestart_acts (hid : id ∈ ids) : Keeps (ActsOn sys ok ids) (cmdPidRestart sys id) := by
  intro w u w' h hw
  rcases cmdPidRestart_cases h with ⟨-, rfl⟩ | ⟨w₁, d, -, -, hf, hm⟩
  · exact ⟨hw, .refl⟩
  · have hw₁ : w₁.gbls.cmds = ids := by rw [hf.modifies.cmds_eq (by simp [forkParts]), hw]
    obtain ⟨hw', hacts⟩ : _ ∧ Acts sys ok w₁ w' := ActsOn.quiet hm (by simp) (by simp) hw₁
    exact ⟨hw', .head (.start id d (hw ▸ hid) hf) hacts⟩

lemma nedHdlr_acts (r : TtyRef) (mask : Mask)
    (hr : ∀ id, r = .clt id ∨ r = .cmd id → id ∈ ids) :
    Keeps (ActsOn sys ok ids) (nedHdlr sys r mask) := by
  have each {f : CmdId → Act Unit} (hf : ∀ id ∈ ids, Keeps (ActsOn sys ok ids) (f id)) :
      Keeps (ActsOn sys ok ids) (do (← get).gbls.cmds.forM f) := by
    intro w u w' h hw
    replace h := get_bind_eq_ok.mp h
    rw [hw] at h
    exact Keeps.forM_mem (R := ActsOn sys ok ids) hf h hw
  cases r with
  | bcst =>
    cases mask with
    | IN_OPEN => exact each fun id hid => Keeps.discard (cmdStart_acts _ hid)
    | IN_CLOSE_WRITE => exact each fun id hid => Keeps.discard (cmdStop_acts _ hid)
    | IN_CLOSE_NOWRITE => exact each fun id hid => Keeps.discard (cmdStop_acts _ hid)
  | clt id =>
    have hid := hr id (.inl rfl)
    cases mask with
    | IN_OPEN => exact Keeps.discard (cmdStart_acts _ hid)
    | IN_CLOSE_WRITE => exact Keeps.discard (cmdStop_acts _ hid)
    | IN_CLOSE_NOWRITE => exact Keeps.discard (cmdStop_acts _ hid)
  | mon => exact Keeps.pure _
  | cmd id => exact Keeps.pure _

/-! ## Removals and additions -/

lemma hashDel_ok {u : Unit} (h : hashDel id w = .ok u w') :
    w' = { w with
      gbls.cmds := w.gbls.cmds.filter (· ≠ id)
      trace := .removed id :: w.trace } := by
  replace h := modify_bind_eq_ok.mp h
  exact modify_eq_ok.mp h

lemma remove_ok (h : (do cmdCleanup sys id; hashDel id) w = .ok () w') :
    Modifies (removeParts id) w w' ∧ w'.gbls.cmds = w.gbls.cmds.filter (· ≠ id) := by
  obtain ⟨_, w₁, hclean, hdel⟩ := bind_eq_ok.mp h
  have hm : Modifies (cleanupParts id) w w₁ := cmdCleanup_modifies sys subset_rfl hclean
  have hm' : Modifies (removeParts id) w₁ w' :=
    hashDel_modifies (by simp [removeParts]) (by simp [removeParts]) hdel
  refine ⟨trans_of _ (hm.mono fun _ hp => .inl hp) hm', ?_⟩
  rw [hashDel_ok hdel, hm.cmds_eq (by simp [cleanupParts, procParts, startParts, cmdParts, ttyParts])]

lemma monDelFound_acts (hid : id ∈ w.gbls.cmds) (hok : ok w (.remove id))
    (h : monDelFound sys id w = .ok () w') : Acts sys ok w w' := by
  obtain ⟨_, w₁, hclean, h⟩ := bind_eq_ok.mp h
  obtain ⟨_, w₂, hdel, h⟩ := bind_eq_ok.mp h
  rw [(exitIfIdle_ok sys h).1]
  exact .single (.remove id hid hok (bind_eq_ok.mpr ⟨_, w₁, hclean, hdel⟩))

lemma removeAll_cmds {ids : List CmdId} {u : Unit}
    (h : (ids.forM fun id => do cmdCleanup sys id; hashDel id) w = .ok u w') :
    w'.gbls.cmds = w.gbls.cmds.filter (· ∉ ids) := by
  induction ids generalizing w with
  | nil =>
    rw [(pure_eq_ok.mp h).2]
    simp
  | cons id ids ih =>
    obtain ⟨_, w₁, hid, h⟩ := forM_cons_eq_ok.mp h
    rw [ih h, (remove_ok hid).2, List.filter_filter]
    refine List.filter_congr fun j _ => ?_
    simp [Bool.and_comm]

lemma cleanup_cmds {u : Unit} (h : cleanup sys w = .ok u w') : w'.gbls.cmds = [] := by
  have tty {w w' : World} {r : TtyRef} {u : Unit} (h : ttyCleanup sys r w = .ok u w') :
      w'.gbls.cmds = w.gbls.cmds := by
    have hm : Modifies (ttyParts r) w w' := ttyCleanup_modifies sys subset_rfl h
    exact hm.cmds_eq (by simp [ttyParts])
  obtain ⟨w₁, w₂, w₃, hbcst, hall, hmon, rfl⟩ := cleanup_parts h
  have hcmds₁ : w₁.gbls.cmds = w.gbls.cmds := by
    rcases when_eq_ok.mp hbcst with ⟨-, hbcst⟩ | ⟨-, rfl⟩
    · exact tty hbcst
    · rfl
  refine logClosed_cmds.trans ((tty hmon).trans (unmounted_cmds.trans ((removeAll_cmds hall).trans ?_)))
  rw [hcmds₁, List.filter_eq_nil_iff]
  simp

lemma cmdRegisterttyEvents_acts (hid : id ∈ ids) :
    Keeps (ActsOn sys ok ids) (cmdRegisterttyEvents sys id) := by
  have register {r : TtyRef} (hr : r = .clt id ∨ r = .cmd id) :
      Keeps (ActsOn sys ok ids) (ttyRegisterEvents sys r) := by
    intro w u w' h hw
    have hm : Modifies {.kproc} w w' := ttyRegisterEvents_modifies r (by simp) h
    refine ⟨by rw [hm.cmds_eq (by simp), hw], .single (.register r _ ?_ h)⟩
    rintro j hj
    rw [hw]
    rcases hr with rfl | rfl <;> simp_all
  exact cmdRegisterttyEvents_keeps (register (.inl rfl)) (register (.inr rfl))

lemma monAddRegister_acts (hid : id ∈ w.gbls.cmds)
    (hok : ∀ w₁, cmdRegisterttyEvents sys id w = .ok () w₁ → ok w₁ .enable)
    (h : monAddRegister sys id w = .ok () w') : Acts sys ok w w' := by
  obtain ⟨_, w₁, hreg, h⟩ := bind_eq_ok.mp h
  obtain ⟨hcmds, hacts⟩ : _ ∧ Acts sys ok w w₁ := cmdRegisterttyEvents_acts hid hreg rfl
  replace h := get_bind_eq_ok.mp h
  by_cases hnew : w₁.gbls.bcstflg = false ∧ w₁.gbls.cmds.length > 1
  · rw [if_pos hnew] at h
    replace h := modify_bind_eq_ok.mp h
    obtain ⟨_, w₂, hcreate, h⟩ := bind_eq_ok.mp h
    replace hcreate := get_bind_eq_ok.mp hcreate
    rcases when_eq_ok.mp hcreate with ⟨-, hcreate⟩ | ⟨hn, -⟩
    · obtain ⟨b, w₃, hcreate, hend⟩ := bind_eq_ok.mp hcreate
      rcases when_eq_ok.mp hend with ⟨-, hexit⟩ | ⟨-, rfl⟩
      · exact (exit_keeps (R := fun _ _ => False) sys hexit).elim
      · refine (hacts.tail (.enable b (hok w₁ hreg) hnew.1 hnew.2 hcreate)).trans ?_
        replace h := get_bind_eq_ok.mp h
        rcases when_eq_ok.mp h with ⟨-, h⟩ | ⟨-, rfl⟩
        · obtain ⟨c, hbcst⟩ := discard_eq_ok.mp h
          exact .single (.register .bcst c (by simp) hbcst)
        · exact .refl
    · exact (hn rfl).elim
  · rw [if_neg hnew] at h
    rcases when_eq_ok.mp h with ⟨-, h⟩ | ⟨-, rfl⟩
    · exact hacts.trans (Keeps.discard (cmdStart_acts _ (hcmds ▸ hid)) h rfl).2
    · exact hacts

/-- The broadcast tty is turned on and created. -/
lemma enable_modifies {b : Bool}
    (h : ttyCreate sys .bcst { w with gbls.bcstflg := true } = .ok b w') : Modifies bcstParts w w' := by
  have hflag : Modifies bcstParts w { w with gbls.bcstflg := true } :=
    Keeps.of_modify (flags_modifies (f := fun g => { g with bcstflg := true }) (.inr rfl)
      fun _ => ⟨rfl, rfl, rfl, rfl, rfl⟩) w
  exact trans_of _ hflag (ttyCreate_modifies sys (fun _ hp => .inl hp) h)

/-- An action changes the table by an addition or a removal. -/
lemma Action.cases_table (h : Action sys ok w w') :
    TableKept w w' ∨ (∃ id spec, Added w w' id spec) ∨
      ∃ id ∈ w.gbls.cmds, (do cmdCleanup sys id; hashDel id) w = .ok () w' := by
  cases h with
  | quiet hS h hflg =>
    refine .inl (h.tableKept fun p hp => ?_)
    have := hS p hp
    cases p <;> first | rfl | cases this
  | notified r mask rest hr hq hw =>
    rw [hw]
    exact .inl ((notified_modifies w r mask rest).tableKept (by rintro p (rfl | rfl) <;> rfl))
  | start id d hid h => exact .inl (h.modifies.tableKept (by rintro p (rfl | rfl | rfl | rfl) <;> rfl))
  | stop id hid h => exact .inl (h.modifies.tableKept fun _ => startParts_ofTable)
  | reap id hid hok h => exact .inl (h.modifies.tableKept fun _ => startParts_ofTable)
  | remove id hid hok h => exact .inr (.inr ⟨id, hid, h⟩)
  | add cstr r hok h =>
    rcases GBLSAddCmd_cases h with ⟨-, hn⟩ | ⟨id, spec, -, ha⟩
    · exact .inl hn.tableKept
    · exact .inr (.inl ⟨id, spec, ha⟩)
  | register r c hr h =>
    have hm : Modifies {.kproc} w w' := ttyRegisterEvents_modifies r (by simp) h
    exact .inl (hm.tableKept (by rintro p rfl; rfl))
  | enable b hok hflg hlen h =>
    refine .inl ((enable_modifies h).tableKept ?_)
    rintro p (hp | rfl)
    · exact ttyParts_ofTable hp
    · rfl

lemma Action.tableInv (h : Action sys ok w w') (ht : TableInv w) : TableInv w' := by
  rcases h.cases_table with hk | ⟨id, spec, ha⟩ | ⟨id, hid, hr⟩
  · exact ht.kept hk
  · exact ht.added ha
  · obtain ⟨hm, hcmds⟩ := remove_ok hr
    refine ⟨hcmds ▸ ht.nodup.filter _, fun j hj => ?_⟩
    rw [hcmds] at hj
    rw [hm.brk_eq (by simp [removeParts, cleanupParts, procParts, startParts, cmdParts, ttyParts])]
    exact ht.lt_brk j (List.mem_of_mem_filter hj)

/-! ## Handlers -/

/-- The condition is met wherever the handling of `s` comes to one of its actions. -/
structure Permits (sys : Sys) (ok : World → Op → Prop) (s : Source) (x : Answer) (w : World) :
    Prop where
  add : ∀ line cstr, s = .dom .mon → x.line = some line →
    monLookup line = some (.monAdd, some cstr) → ok w (.add cstr)
  enable : ∀ line cstr id w₁ w₂, s = .dom .mon → x.line = some line →
    monLookup line = some (.monAdd, some cstr) → GBLSAddCmd sys cstr w = .ok (some id) w₁ →
    cmdRegisterttyEvents sys id w₁ = .ok () w₂ → ok w₂ .enable
  reap : ∀ id fd, s = .pidfd id fd → ok w (.reap id)
  remove : ∀ id, deletes w (.hdlr s x) = some id → ok w (.remove id)
  removeReaped : ∀ id fd w₁, s = .pidfd id fd → deletes w (.hdlr s x) = some id →
    cmdPidReap id w = .ok () w₁ → ok w₁ (.remove id)

lemma Permits.trivial (s : Source) (x : Answer) (w : World) :
    Permits sys (fun _ _ => True) s x w := by
  constructor <;> intros <;> exact True.intro

/-- `idleexit` sets other flags. -/
lemma monIdleExit_bcstflg {u : Unit} (h : monIdleExit sys w = .ok u w') :
    w'.gbls.bcstflg = w.gbls.bcstflg := by
  replace h := get_bind_eq_ok.mp (modify_bind_eq_ok.mp h)
  split at h
  · obtain ⟨_, w₁, -, h⟩ := bind_eq_ok.mp h
    exact (exit_keeps (R := fun _ _ => False) sys h).elim
  · have hpolicy (j : CmdId) : Keeps (Modifies {p | ∃ j, p = .policy j})
        (updCmd j fun this => { this with deleteonexit := true }) :=
      updCmd_modifies (.inr fun _ => rfl) (.inr fun _ => rfl) (.inr fun _ => rfl)
        (.inr fun _ => rfl) (.inr fun _ => rfl) (.inl ⟨j, rfl⟩)
    have hm' := Keeps.forM hpolicy _ h
    exact (congrArg Globals.bcstflg (hm'.flags_eq (by simp)) :)

theorem Handled.acts {s : Source} {x : Answer} (hok : Permits sys ok s x w)
    (hh : Handled sys s x w w') : Acts sys ok w w' := by
  cases hh with
  | bcst hs h =>
    refine .quiet (bcstttyEvent_modifies sys _ subset_rfl h) ?_ (by simp [bcstInputParts])
    rintro p ((rfl | rfl | rfl) | ⟨j, rfl | rfl⟩) <;> rfl
  | clt id hs hid h =>
    rcases cmdCltttyEvent_cases h with ⟨-, rfl⟩ | ⟨-, n, c, w₁, hread, hrest⟩
    · exact .refl
    have hm₁ := hread.modifies
    obtain ⟨hcmds, hacts⟩ : _ ∧ Acts sys ok w w₁ := ActsOn.quiet hm₁ (by
      rintro p (rfl | rfl) <;> rfl) (by simp) rfl
    rcases hrest with ⟨-, rfl⟩ | ⟨-, w₂, b, hrelay, hstop⟩
    · exact hacts
    · obtain ⟨hcmds₂, hacts₂⟩ : _ ∧ Acts sys ok w₁ w₂ := ActsOn.quiet hrelay.modifies (by
        rintro p (rfl | rfl | rfl) <;> rfl) (by simp) hcmds
      exact (hacts.trans hacts₂).trans (cmdStop_acts _ hid hstop hcmds₂).2
  | cmd id hs hid h =>
    refine .quiet (Keeps.discard (cmdttyProcessOutput_modifies sys _ subset_rfl) h) ?_
      (by simp [outputParts])
    rintro p (rfl | rfl | rfl | rfl | rfl | rfl | rfl | rfl) <;> rfl
  | notify r hs hid h =>
    obtain ⟨mask, rest, hq, hned⟩ := ttyNotifyEvent_cases h
    have hcmds : (notified w r mask rest).gbls.cmds = w.gbls.cmds :=
      (notified_modifies w r mask rest).cmds_eq (by simp)
    exact .head (.notified r mask rest hid hq rfl) (nedHdlr_acts r mask hid hned hcmds).2
  | pid id fd hs hid h =>
    obtain ⟨w₁, hreap, hrest⟩ := cmdPidEvent_cases hid h
    have hr := cmdPidReap_ok hreap
    refine .head (.reap id hid (hok.reap id fd hs) hr) ?_
    rcases hrest with ⟨hd, hdel⟩ | ⟨-, hrestart⟩
    · exact monDelFound_acts (hr.cmds_eq ▸ hid)
        (hok.removeReaped id fd w₁ hs (by simp [hs, deletes, hd]) hreap) hdel
    · exact (cmdPidRestart_acts hid hrestart hr.cmds_eq).2
  | del line name id hs hx hl hf h =>
    exact monDelFound_acts (List.mem_of_find?_eq_some hf)
      (hok.remove id (by simp [hs, deletes, hx, hl, hf])) h
  | add line cmdstr hs hx hl h =>
    rw [monAdd_some] at h
    obtain ⟨r, w₁, hadd, h⟩ := bind_eq_ok.mp h
    refine .head (.add cmdstr r (hok.add line cmdstr hs hx hl) hadd) ?_
    rcases GBLSAddCmd_cases hadd with ⟨rfl, -⟩ | ⟨id, spec, rfl, ha⟩
    · rw [(pure_eq_ok.mp h).2]
    · refine monAddRegister_acts (by simp [ha.table]) (fun w₂ hreg => ?_) h
      exact hok.enable line cmdstr id w₁ w₂ hs hx hl hadd hreg
  | drain line args hs hx hl h =>
    refine .quiet (monDrain_modifies sys (S := {p | ∃ id, p ∈ outputParts id})
      (fun id p hp => ⟨id, hp⟩) h) ?_ (by simp [outputParts])
    rintro p ⟨id, rfl | rfl | rfl | rfl | rfl | rfl | rfl | rfl⟩ <;> rfl
  | idleExit line args hs hx hl h =>
    have hm : Modifies idleExitParts w w' := monIdleExit_modifies sys (by simp [idleExitParts])
      (by simp [idleExitParts]) (by simp [idleExitParts]) h
    refine .single (.quiet ?_ hm (monIdleExit_bcstflg h))
    rintro p ((rfl | rfl) | ⟨id, rfl⟩) <;> rfl
  | toggle line m args g hs hx hl hw hcore hrestart hlb =>
    have hm : Modifies {.options, .flags} w w' := toggle_modifies hw hcore
    refine .single (.quiet ?_ hm ?_)
    · rintro p (rfl | rfl) <;> rfl
    · rw [hw]
      exact (congrArg Globals.bcstflg hcore :)
  | idle hs hw => rw [hw]

/-- An invariant holds in every state of a run when the stages of `main`, the surroundings and every
action keep it, where the condition of the run permits the actions its handlers come to. -/
theorem reachable_of_actions {okE : World → Event → Prop} {P Q : World → Prop}
    (hboot : ∀ o, Q (boot o)) (hargs : ∀ s, Preserves Q (argsParseSpec sys s))
    (hlog : Preserves Q (logInit sys)) (hmon : Preserves Q (monttyCreate sys)) (hfs : Preserves Q (fsCreate sys))
    (hadd : ∀ s w id w', TableInv w → Q w → GBLSAddCmd sys s w = .ok (some id) w' → Q w')
    (hbcst : Keeps (fun w w' => Q w → P w') (bcstttyInit sys))
    (hreg : ∀ w w', TableInv w → P w → theLoopRegister sys w = .ok () w' → P w')
    (henv : ∀ w e, P w → okE w (.env e) → P (Env.apply e w))
    (hpermits : ∀ w s x, TableInv w → P w → okE w (.hdlr s x) → Permits sys ok s x w)
    (hact : ∀ w w', TableInv w → P w → Action sys ok w w' → P w')
    (hw : Reachable sys okE w) : P w := by
  have setup {α : Type} {m : Act α} (hm : Keeps (Modifies setupParts) m) : Preserves TableInv m :=
    fun _ _ _ h ht => ht.kept ((hm h).tableKept fun _ => setupParts_ofTable)
  have both {α : Type} {m : Act α} {P Q : World → Prop} (ht : Preserves TableInv m)
      (hP : Keeps (fun w w' => Q w → P w') m) :
      Keeps (fun w w' => (TableInv w ∧ Q w) → TableInv w' ∧ P w') m :=
    fun _ _ _ h hw => ⟨ht h hw.1, hP h hw.2⟩
  have hmonS : ttyParts .mon ⊆ setupParts := fun p hp => .inl (.inl hp)
  have hbcstS : bcstParts ⊆ setupParts := by
    rintro p (hp | hp)
    · exact .inl (.inr hp)
    · exact .inr hp
  suffices h : TableInv w ∧ P w from h.2
  refine reachable_of_stages (P := fun w => TableInv w ∧ P w) (Q := fun w => TableInv w ∧ Q w)
    ?_ ?_ ?_ ?_ ?_ ?_ ?_ ?_ ?_ ?_ hw
  · exact fun o => ⟨⟨List.nodup_nil, by simp [boot]⟩, hboot o⟩
  · exact fun s => both (setup (argsParseSpec_modifies sys s)) (hargs s)
  · exact both (setup (logInit_modifies sys (hbcstS (.inr rfl)) (hmonS (by simp [ttyParts])))) hlog
  · exact both (setup (monttyCreate_modifies sys hmonS)) hmon
  · exact both (setup (fsCreate_modifies sys (hbcstS (.inr rfl)) (hmonS (by simp [ttyParts])))) hfs
  · rintro s w id w' ⟨ht, hP⟩ h
    refine ⟨?_, hadd s w id w' ht hP h⟩
    rcases GBLSAddCmd_cases h with ⟨-, hn⟩ | ⟨id, spec, -, ha⟩
    · exact ht.kept hn.tableKept
    · exact ht.added ha
  · exact both (setup (bcstttyInit_modifies sys hbcstS)) hbcst
  · rintro w _ w' h ⟨ht, hP⟩
    exact ⟨setup (theLoopRegister_modifies (hmonS (by simp [ttyParts]))) h ht, hreg w w' ht hP h⟩
  · exact fun w e _ h hok =>
      ⟨h.1.kept ((apply_modifies w e).tableKept fun _ => envParts_ofTable), henv w e h.2 hok⟩
  · intro w s x w' _ h hok hh
    exact Acts.invariant (P := fun w => TableInv w ∧ P w) (hh.acts (hpermits w s x h.1 h.2 hok))
      (fun _ _ h ha => ⟨ha.tableInv h.1, hact _ _ h.1 h.2 ha⟩) h

/-- The state in which a handler is left is reached by actions as well. -/
theorem ExitFrom.acts {s : Source} {x : Answer} (hs : ExitFrom sys s x w w') :
    Acts sys (fun _ _ => True) w w' := by
  cases hs with
  | now => exact .refl
  | idleExit hempty =>
    have hm : Modifies {.flags, .delonexit} w
        { w with gbls.exitonidle := true, gbls.cmddelonexit := true } := by
      refine Modifies.of_same rfl rfl fun p hp => ?_
      cases p with
      | flags => exact (hp (by simp)).elim
      | delonexit => exact (hp (by simp)).elim
      | _ => first | rfl | trivial
    refine .single (.quiet ?_ hm rfl)
    rintro p (rfl | rfl) <;> rfl
  | del id _ hid hempty h => exact .single (.remove id hid trivial h)
  | pid id w₁ _ hid hempty hreap h =>
    have hr := cmdPidReap_ok hreap
    exact .head (.reap id hid trivial hr) (.single (.remove id (hr.cmds_eq ▸ hid) trivial h))
  | bcst cstr id w₁ w₂ _ hadd hreg hflg hlen h =>
    rcases GBLSAddCmd_cases hadd with ⟨hr, -⟩ | ⟨id', spec, hr, ha⟩
    · cases hr
    · cases hr
      obtain ⟨-, hacts⟩ : _ ∧ Acts sys (fun _ _ => True) w₁ w₂ :=
        cmdRegisterttyEvents_acts (by simp [ha.table]) hreg rfl
      exact .head (.add cstr _ trivial hadd) (hacts.tail (.enable false trivial hflg hlen h))

end Yar.Proofs
