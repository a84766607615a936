import Yar.Proofs.Batches
import Yar.Proofs.Failures

/-!
# Which events end yar

A handler of the loop returns, or yar exits, or one of a few things has happened: output could not be
counted, a call has failed, the tty of a command, the monitor or a notification could not be read, the
slowest command is gone, or a log was asked for. All other assertions on the way of a handler hold, in
whatever order the events of a batch are handled.
-/

namespace Yar.Proofs

open Program Transition

/-- What the handlers rely on. -/
structure Orderly (sys : Sys) (w : World) : Prop extends Standing sys w where
  ready : ReadyTable w.gbls.cmds w
  names : (tableNames w).Nodup
  listable : Listable w
  loop : LoopReady w
  table : TableInv w
  used : Hears sys (Used w) w

/-- There is an open or a close of a tty that is in use. -/
def Noted (w : World) (r : TtyRef) : Prop := Present w r ∧ (w.kern.ports r).notify ≠ []

/-- The event is that of something that is still there. -/
structure Timely (w : World) (s : Source) : Prop where
  live : ∀ id ∈ Source.owner s, id ∈ w.gbls.cmds
  noted : ∀ r, s = .ifd r → Noted w r
  died : ∀ id fd, s = .pidfd id fd → ExitPending w id fd

/-- The handler of `s` went from `w` to an assertion or a call of `NYI` in `w'`. -/
inductive Fault (sys : Sys) (s : Source) (x : Answer) (w w' : World) : Prop where
  | output (h : OutputLost sys w')
  | call (h : CallLost sys w')
  | read (id : CmdId) (hs : s = .dom (.cmd id)) (hrd : x.rd = .eof ∨ x.rd = .fail)
  | unread (hs : s = .dom .mon ∨ ∃ r, s = .ifd r) (hrd : x.rd ≠ .ready)
  | slowest (hs : s = .dom .bcst ∨ s = .dom .mon) (h : ∀ c, w.gbls.slowestcmd = some c → c ∉ w.gbls.cmds)
  | log (line cstr : CStr) (hs : s = .dom .mon) (hx : x.line = some line)
      (hl : monLookup line = some (.monAdd, some cstr)) (h : AsksLog sys w cstr)

variable {sys : Sys} {w w' : World} {l : Loop} {id : CmdId} {r : TtyRef} {s : Source} {x : Answer}
  {S : Set Part}

lemma Orderly.linked (h : Orderly sys w) (hid : id ∈ w.gbls.cmds) : Linked w id :=
  ⟨h.listable.clt id hid, h.listable.bcst⟩

lemma Orderly.connected (h : Orderly sys w) (hid : id ∈ w.gbls.cmds) : Connected w id :=
  ⟨h.used.dfd (r := .cmd id) hid, h.used.dfd (r := .clt id) hid, fun hon => h.used.dfd (r := .bcst) hon⟩

lemma Hears.ifd (h : Hears sys (Used w) w) (hr : Present w r) : (w.ttys r).ifd ≠ none := by
  have hlisten : Listened (Used w) w (.ifd r) := by
    refine ⟨⟨fun q hq => ?_, fun q hq => ?_⟩, hr⟩ <;>
    · obtain rfl : r = q := Option.some.inj hq
      exact hr
  obtain ⟨fd, src, hfd, -⟩ := h.heard _ hlisten
  exact Option.ne_none_iff_exists'.mpr ⟨fd, hfd⟩

lemma live_fails {m : Act Unit} {E : Halt → World → Prop} (hid : id ∈ w.gbls.cmds) (h : FailsOnly m w E) :
    FailsOnly (do live id; m) w E := by
  refine .bind_returns (.get_bind (.require hid _)) fun _ w₁ hlive => ?_
  replace hlive := get_bind_eq_ok.mp hlive
  rw [(require_eq_ok.mp hlive).2]
  exact h

/-! ## The monitor -/

lemma fault_of_leaves {e : Halt} (h : Leaves sys e w') : e = .exit ∨ Fault sys s x w w' := h.imp_right .call

lemma slowest_of_not_live (h : ¬SlowestLive w) : ∀ c, w.gbls.slowestcmd = some c → c ∉ w.gbls.cmds := by
  intro c hc hmem
  apply h
  intro c' hc'
  rw [hc] at hc'
  cases hc'
  exact hmem

lemma monIdleExit_fails : FailsOnly (monIdleExit sys) w fun e _ => e = .exit := by
  refine .bind_returns (.modifyState _ _) fun _ w₁ _ => .get_bind (.ite (fun hempty => ?_) fun _ => ?_)
  · refine .bind_returns (cleanup_returns sys (List.length_eq_zero_iff.mp hempty)) fun _ w₂ h₂ => ?_
    exact .bind_returns (cleanup_returns sys (cleanup_cmds h₂)) fun _ _ _ => .throw rfl
  · exact .forM (P := fun _ => True) (fun _ _ _ _ _ _ h => h)
      (fun _ _ _ _ => .of_returns (.modifyState _ _)) trivial

lemma monRun_fails {line : CStr} {m : MonCmd} {args : Option CStr} (h : Orderly sys w) (hs : s = .dom .mon)
    (hx : x.line = some line) (hl : monLookup line = some (m, args)) :
    FailsOnly (monRun sys m args) w fun e w' => e = .exit ∨ Fault sys s x w w' := by
  cases m with
  | monExit => exact (exit_fails h.toStanding).mono fun _ _ => fault_of_leaves
  | monIdleExit => exact monIdleExit_fails.mono fun _ _ => .inl
  | monDrain =>
    refine (monDrain_fails ⟨h.ready, fun id hid => h.connected hid⟩ h.nodup).mono fun _ _ hf => ?_
    exact .inr (.output hf)
  | monDel =>
    refine .get_bind ?_
    cases args with
    | none => exact .pure _
    | some name =>
      dsimp only
      cases hfind : w.hashFind name with
      | none => exact .pure _
      | some id =>
        exact (monDelFound_fails h.toStanding (List.mem_of_find?_eq_some hfind)).mono
          fun _ _ => fault_of_leaves
  | monAdd =>
    refine (monAdd_fails h.loop h.toStanding h.ready h.table).mono fun _ _ hf => ?_
    rcases hf with hleaves | hslow | ⟨cstr, rfl, hlog⟩
    · exact fault_of_leaves hleaves
    · exact .inr (.slowest (.inr hs) (slowest_of_not_live hslow))
    · exact .inr (.log line cstr hs hx hl hlog)
  | monHelp => exact .pure _
  | monList => exact .pure _
  | _ => exact .of_returns (.modifyState _ _)

lemma monProcess_fails {line : CStr} (h : Orderly sys w) (hs : s = .dom .mon) (hx : x.line = some line) :
    FailsOnly (monProcess sys line) w fun e w' => e = .exit ∨ Fault sys s x w w' := by
  unfold monProcess
  cases hl : monLookup line with
  | none => exact .pure _
  | some ma => exact monRun_fails h hs hx hl

/-! ## Handlers -/

lemma ExitPending.dead {fd : Fd} (hp : ExitPending w id fd) (hc : Children w.gbls.cmds w) :
    ∀ q ∈ w.kern.procs, (w.heap id).pidfd = some q.pidfd → q.dead ≠ none := by
  obtain ⟨hid, hfd, p, hproc, hpfd, hdead⟩ := hp
  intro q hq hqfd
  have heq : q.pidfd = p.pidfd := by
    rw [hpfd]
    exact Option.some.inj (hqfd.symm.trans hfd)
  have hkey : (q.pid, q.pidfd) = (p.pid, p.pidfd) :=
    List.inj_on_of_nodup_map hc.pidfds (mem_keys hq) (mem_keys hproc) heq
  obtain rfl : q = p := hc.proc_inj hq hproc (congrArg Prod.fst hkey)
  exact hdead

theorem hdlr_fails (h : Orderly sys w) (ht : Timely w s) :
    FailsOnly (hdlr sys s x) w fun e w' => e = .exit ∨ Fault sys s x w w' := by
  have hifd {r : TtyRef} (hs : s = .ifd r) : FailsOnly (ttyNotifyEvent sys r x.rd) w fun e w' =>
      e = .exit ∨ Fault sys s x w w' := by
    obtain ⟨hr, hnote⟩ := ht.noted r hs
    by_cases hrd : x.rd = .ready
    · rw [hrd]
      refine (ttyNotifyEvent_fails h.toStanding (fun j hj => h.linked hj) (h.used.ifd hr) hnote ?_).mono
        fun _ _ hlost => .inr (.call hlost)
      intro j hj
      rw [hj] at hr
      exact hr
    · exact fun _ _ _ => .inr (.unread (.inr ⟨r, hs⟩) hrd)
  cases s with
  | dom r =>
    cases r with
    | bcst =>
      refine (bcstttyEvent_fails h.toStanding).mono fun _ _ hf => ?_
      rcases hf with hlost | hslow
      · exact .inr (.call (.write hlost))
      · exact .inr (.slowest (.inl rfl) hslow)
    | mon =>
      refine .bind (.require fun hrd => .inr (.unread (.inl rfl) hrd)) fun _ w₁ hread => ?_
      obtain ⟨-, rfl⟩ := require_eq_ok.mp hread
      cases hx : x.line with
      | none => exact .pure _
      | some line => exact monProcess_fails h rfl hx
    | clt id =>
      have hid := ht.live id rfl
      refine live_fails hid ?_
      exact (cmdCltttyEvent_fails h.toStanding hid (h.linked hid)).mono fun _ _ hlost => .inr (.call hlost)
    | cmd id =>
      have hid := ht.live id rfl
      refine live_fails hid (.discard ?_)
      by_cases hrd : x.rd = .eof ∨ x.rd = .fail
      · exact fun _ _ _ => .inr (.read id rfl hrd)
      · refine (cmdttyProcessOutput_fails h.ready hid (h.connected hid) ?_).mono fun _ _ hf =>
          .inr (.output hf)
        cases hr : x.rd <;> simp_all
  | ifd r =>
    cases r with
    | bcst => exact hifd rfl
    | mon => exact hifd rfl
    | clt id => exact live_fails (ht.live id rfl) (hifd rfl)
    | cmd id => exact live_fails (ht.live id rfl) (hifd rfl)
  | pidfd id fd =>
    have hpending := ht.died id fd rfl
    refine live_fails hpending.1 ((cmdPidEvent_fails h.toStanding h.names hpending.1 ?_
      (hpending.dead h.children)).mono fun _ _ => fault_of_leaves)
    rw [hpending.2.1]
    simp
  | sig =>
    simp only [hdlr, sigEvent]
    split
    · exact .pure _
    · exact (exit_fails h.toStanding).mono fun _ _ => fault_of_leaves
  | fs => exact .pure _

/-! ## What is on epoll's list -/

/-- What an action puts on the list: the pidfd of a command that is started, a tty that has been created. -/
lemma Action.interest {ok : World → Op → Prop} (ha : Action sys ok w w') (hc : Children w.gbls.cmds w) :
    ∀ e ∈ w'.kern.interest, e ∈ w.kern.interest ∨ (∃ id, e.2 = .pidfd id e.1) ∨
      ∃ r, (w.ttys r).dfd ≠ none ∧ (e.2 = .dom r ∨ e.2 = .ifd r) := by
  have kept (h : ∀ e ∈ w'.kern.interest, e ∈ w.kern.interest) :
      ∀ e ∈ w'.kern.interest, e ∈ w.kern.interest ∨ (∃ id, e.2 = .pidfd id e.1) ∨
        ∃ r, (w.ttys r).dfd ≠ none ∧ (e.2 = .dom r ∨ e.2 = .ifd r) := fun e he => .inl (h e he)
  cases ha with
  | @quiet S hS hm hflg =>
    have hk : .kproc ∉ S := fun hpS => by simpa [Part.quiet] using hS _ hpS
    exact kept fun e he => hm.interest_eq hk ▸ he
  | notified r mask rest hr hq hw =>
    rw [hw] at kept ⊢
    exact kept fun e he => he
  | start id d hid hf =>
    intro e he
    rw [hf.interest, List.mem_append, mem_reported] at he
    rcases he with he | ⟨-, rfl⟩
    · exact .inl he
    · exact .inr (.inl ⟨id, rfl⟩)
  | stop id hid hs => exact kept hs.gone.interest
  | reap id hid hok hr => exact kept hr.gone.interest
  | remove id hid hok hr =>
    obtain ⟨_, w₁, hclean, hdel⟩ := bind_eq_ok.mp hr
    obtain ⟨_, w₂, hstop, hclear⟩ := bind_eq_ok.mp hclean
    obtain ⟨b, hstop⟩ := discard_eq_ok.mp hstop
    apply kept
    rw [hashDel_ok hdel]
    intro e he
    exact (cmdStop_forced hid hc hstop).interest e ((cmdClear_fdStep sys id hclear).interest e he)
  | add cstr o hok hadd =>
    rcases GBLSAddCmd_cases hadd with ⟨-, hn⟩ | ⟨id, spec, -, ha⟩
    · exact kept hn.fds.interest
    · exact kept ha.fds.interest
  | register r c hr hreg =>
    obtain ⟨dfd, ifd, hdfd, -, rfl, -⟩ := ttyRegisterEvents_ok hreg
    have hopen : (w.ttys r).dfd ≠ none := by simp [hdfd]
    intro e he
    rw [List.mem_append, mem_heardOf] at he
    rcases he with he | ⟨-, rfl | ⟨-, rfl⟩⟩
    · exact .inl he
    · exact .inr (.inr ⟨r, hopen, .inl rfl⟩)
    · exact .inr (.inr ⟨r, hopen, .inr rfl⟩)
  | enable b hok hflg hlen he => exact kept (ttyCreate_fdStep sys .bcst he).interest

/-- As long as it is turned off, the broadcast tty is not followed. -/
def BcstUnheard (w : World) : Prop :=
  w.gbls.bcstflg = false → (w.ttys .bcst).dfd = none ∧ ∀ e ∈ w.kern.interest, e.2 ≠ .ifd .bcst

lemma Action.bcstUnheard {ok : World → Op → Prop} (ha : Action sys ok w w') (hc : Children w.gbls.cmds w)
    (h : BcstUnheard w) : BcstUnheard w' := by
  intro hoff
  obtain ⟨hold, hst⟩ := ha.bcst_kept hoff
  obtain ⟨hdfd, hnone⟩ := h hold
  simp only [ttyStatic, Prod.mk.injEq] at hst
  refine ⟨hst.2.2.2.1.trans hdfd, fun e he heq => ?_⟩
  rcases ha.interest hc e he with he | ⟨id, hid⟩ | ⟨r, hr, hsrc⟩
  · exact hnone e he heq
  · rw [hid] at heq
    cases heq
  · rw [heq] at hsrc
    rcases hsrc with hsrc | hsrc
    · cases hsrc
    · cases hsrc
      exact hr hdfd

lemma epollAdd_bcstUnheard {fd : Fd} {src : Source} (hne : src ≠ .ifd .bcst) :
    Preserves BcstUnheard (epollAdd sys fd src) := by
  intro w b w' hadd h hoff
  cases (epollAdd_eq sys fd src w).symm.trans hadd
  refine ⟨(h hoff).1, fun e he => ?_⟩
  rw [List.mem_append, mem_reported] at he
  rcases he with he | ⟨-, rfl⟩
  · exact (h hoff).2 e he
  · exact hne

lemma ttyRegisterEvents_bcstUnheard (r : TtyRef) : Preserves BcstUnheard (ttyRegisterEvents sys r) := by
  intro w u w' hreg h hoff
  obtain ⟨dfd, ifd, hdfd, -, rfl, -⟩ := ttyRegisterEvents_ok hreg
  obtain ⟨hnone, hunheard⟩ := h hoff
  refine ⟨hnone, fun e he heq => ?_⟩
  rw [List.mem_append, mem_heardOf] at he
  rcases he with he | ⟨-, rfl | ⟨-, rfl⟩⟩
  · exact hunheard e he heq
  · cases heq
  · cases heq
    rw [hnone] at hdfd
    cases hdfd

lemma theLoopRegister_bcstUnheard : Preserves BcstUnheard (theLoopRegister sys) :=
  theLoopRegister_keeps (fun _ _ hs => epollAdd_bcstUnheard (by rcases hs with rfl | rfl <;> simp))
    (fun _ _ => ttyRegisterEvents_bcstUnheard _) (Keeps.bind Keeps.get fun _ => Keeps.forM (fun _ =>
      cmdRegisterttyEvents_keeps (ttyRegisterEvents_bcstUnheard _) (ttyRegisterEvents_bcstUnheard _)) _)

lemma bcstttyInit_bcstUnheard (hempty : w.kern.interest = []) {u : Unit}
    (h : bcstttyInit sys w = .ok u w') : BcstUnheard w' := by
  have hsub := (bcstttyInit_fdStep sys h).interest
  rw [hempty] at hsub
  intro hoff
  refine ⟨?_, fun e he => by cases hsub e he⟩
  obtain ⟨link, w₁, -, hinit, h⟩ := bcstttyInit_ok sys h
  obtain ⟨-, rfl⟩ := ttyInit_ok (get_bind_eq_ok.mp hinit)
  rcases h with ⟨-, rfl⟩ | ⟨hon, hcreate⟩
  · simp [World.updTty]
  · have hm : Modifies (ttyParts .bcst) _ w' := ttyCreate_modifies sys subset_rfl hcreate
    rw [hm.bcstflg_eq (by simp [ttyParts]), hon] at hoff
    cases hoff

lemma reachable_bcstUnheard {ok : World → Event → Prop} (hw : Reachable sys ok w) : BcstUnheard w := by
  have stage {α : Type} {m : Act α} (hm : Keeps FdStep m) : Preserves (fun w => w.kern.interest = []) m := by
    intro w _ w' h hempty
    have hsub := (hm h).interest
    rw [hempty] at hsub
    exact List.eq_nil_iff_forall_not_mem.mpr fun e he => by cases hsub e he
  refine (reachable_with_children (P := BcstUnheard) (Q := fun w => w.kern.interest = []) (fun _ => rfl)
    (fun s => stage (Keeps.fdStep (S := ∅) (argsParseSpec_modifies sys s) (by simp)))
    (stage (Keeps.fdStep (S := {.flags, .names}) (logInit_modifies sys (by simp) (by simp)) (by simp)))
    (stage (monttyCreate_fdStep sys))
    (stage (Keeps.fdStep (S := {.flags, .names}) (fsCreate_modifies sys (by simp) (by simp)) (by simp)))
    (fun s w id w' _ h ha => ?_) (fun _ _ _ h hempty => bcstttyInit_bcstUnheard hempty h)
    (fun _ _ _ h hreg => theLoopRegister_bcstUnheard hreg h) (fun w e h _ hoff => ?_)
    (fun w s x _ _ _ => Permits.trivial s x w) (fun _ _ _ hc h ha => ha.bcstUnheard hc h) hw).2
  · refine stage (m := GBLSAddCmd sys s) (fun w r w' ha => ?_) ha h
    rcases GBLSAddCmd_cases ha with ⟨-, hn⟩ | ⟨j, spec, -, hadd⟩
    · exact hn.fds
    · exact hadd.fds
  · have hm := apply_modifies w e
    rw [hm.bcstflg_eq (by cases e <;> simp [envParts])] at hoff
    obtain ⟨hdfd, hnone⟩ := h hoff
    have hst := hm.same (.tty .bcst) (by cases e <;> simp [envParts])
    simp only [SameOn, ttyStatic, Prod.mk.injEq] at hst
    exact ⟨hst.2.2.2.1.trans hdfd, fun e' he' => hnone e' ((apply_fds w e).2.2 e' he')⟩

/-! ## Events over a batch -/

lemma Modifies.notify_eq (hm : Modifies S w w') (hS : .notify r ∉ S) :
    (w'.kern.ports r).notify = (w.kern.ports r).notify :=
  (Prod.mk.inj (hm.same _ hS)).1

lemma Registered.tty_present (h : Registered (fun _ => True) w) (hb : BcstUnheard w) {e : Fd × Source}
    (he : e ∈ w.kern.interest) (hr : e.2 = .ifd r) : Present w r := by
  cases r with
  | mon => trivial
  | bcst =>
    by_contra hoff
    exact (hb (Bool.not_eq_true _ ▸ hoff)).2 e he hr
  | clt id => exact (h e he trivial id (by rw [hr]; rfl)).mem
  | cmd id => exact (h e he trivial id (by rw [hr]; rfl)).mem

/-- What `epoll_wait` yields is timely. -/
lemma timely_of_fetched {batch : List Source} (hf : Fetched w.kern batch) (hs : s ∈ batch)
    (hreg : Registered (fun _ => True) w) (hb : BcstUnheard w) (hc : Children w.gbls.cmds w) :
    Timely w s := by
  obtain ⟨e, he, heq⟩ := mem_interest hf hs
  have hready := (hf.2.2 s hs).2
  refine ⟨fun id hid => ?_, fun r hr => ⟨hreg.tty_present hb he (heq.trans hr), ?_⟩, fun id fd hp => ?_⟩
  · rw [← heq] at hid
    exact (hreg e he trivial id hid).mem
  · rw [hr] at hready
    exact hready
  · rw [hp] at hs
    exact exitPending_of_fetched hf (fun e he _ => hreg e he trivial) hc hs

/-- The surroundings add to what there is. -/
lemma Timely.applied (h : Timely w s) (e : Env) : Timely (e.apply w) s := by
  have hm := apply_modifies w e
  have hcmds : (e.apply w).gbls.cmds = w.gbls.cmds := hm.cmds_eq (by cases e <;> simp [envParts])
  have hflg : (e.apply w).gbls.bcstflg = w.gbls.bcstflg := hm.bcstflg_eq (by cases e <;> simp [envParts])
  refine ⟨fun id hid => hcmds ▸ h.live id hid, fun r hr => ?_, fun id fd hs => (h.died id fd hs).applied e⟩
  obtain ⟨hpresent, hnote⟩ := h.noted r hr
  refine ⟨(present_congr hcmds hflg r).mpr hpresent, ?_⟩
  have hpush (p : Port) (mask : Mask) (hp : p.notify ≠ []) : (p.push mask).notify ≠ [] := by
    unfold Port.push
    split
    · exact hp
    · simp
  have hport {q : TtyRef} {f : Port → Port} (hf : ∀ p, p.notify ≠ [] → (f p).notify ≠ []) :
      ((w.updPort q f).kern.ports r).notify ≠ [] := by
    by_cases hq : r = q
    · subst hq
      simpa [World.updPort] using hf _ hnote
    · simpa [World.updPort, hq] using hnote
  cases e with
  | opened q => exact hport fun p hp => hpush _ _ hp
  | closed q wr =>
    simp only [Env.apply]
    split
    · exact hnote
    · exact hport fun p hp => hpush _ _ hp
  | typed q c pid => exact hport fun p hp => hp
  | exited p st => exact hnote
  | execed p => exact hnote

/-- The rest of an addition leaves the notifications of the ttys in use alone. -/
lemma monAddRegister_notify (hr : Present w r) (h : monAddRegister sys id w = .ok () w') :
    (w'.kern.ports r).notify = (w.kern.ports r).notify := by
  by_cases hb : r = .bcst
  · subst hb
    obtain ⟨_, w₁, hreg, h⟩ := bind_eq_ok.mp h
    have hm₁ : Modifies {.kproc} w w₁ := cmdRegisterttyEvents_modifies id (by simp) hreg
    have hon : w₁.gbls.bcstflg = true := (hm₁.bcstflg_eq (by simp)).trans hr
    replace h := get_bind_eq_ok.mp h
    rw [if_neg (by simp [hon])] at h
    have hm₂ : Modifies (startParts id) w₁ w' :=
      Keeps.when (fun _ => Keeps.discard (cmdStart_modifies _ subset_rfl)) h
    rw [hm₂.notify_eq (by simp [startParts]), hm₁.notify_eq (by simp)]
  · have hm : Modifies (startParts id ∪ bcstParts) w w' :=
      monAddRegister_modifies sys id Set.subset_union_left Set.subset_union_right h
    exact hm.notify_eq (by simp [startParts, bcstParts, ttyParts, hb])

lemma Handled.notify_eq (hh : Handled sys s x w w') (ht : TableInv w) (hr : Present w r) (hs : s ≠ .ifd r)
    (hd : ∀ id, r = .clt id ∨ r = .cmd id → deletes w (.hdlr s x) ≠ some id) :
    (w'.kern.ports r).notify = (w.kern.ports r).notify := by
  have removed {w₁ : World} {id : CmdId} (hdel : deletes w (.hdlr s x) = some id)
      (h : monDelFound sys id w₁ = .ok () w') : (w'.kern.ports r).notify = (w₁.kern.ports r).notify := by
    have hm : Modifies (removeParts id) w₁ w' := monDelFound_modifies sys subset_rfl h
    have hclt : r ≠ .clt id := fun heq => hd id (.inl heq) hdel
    have hcmd : r ≠ .cmd id := fun heq => hd id (.inr heq) hdel
    exact hm.notify_eq (by simp [removeParts, cleanupParts, procParts, startParts, cmdParts, ttyParts, hclt, hcmd])
  cases hh with
  | bcst _ h => exact (bcstttyEvent_modifies sys _ subset_rfl h).notify_eq (by simp [bcstInputParts])
  | clt id _ _ h =>
    exact (cmdCltttyEvent_modifies sys _ subset_rfl h).notify_eq (by simp [inputParts, procParts, startParts])
  | cmd id _ _ h =>
    have hm : Modifies (outputParts id) w w' := Keeps.discard (cmdttyProcessOutput_modifies sys _ subset_rfl) h
    exact hm.notify_eq (by simp [outputParts])
  | notify q hq _ h =>
    have hne : r ≠ q := fun heq => hs (heq ▸ hq)
    refine (ttyNotifyEvent_modifies sys q subset_rfl h).notify_eq ?_
    cases q <;> simp [nedParts, procParts, startParts, hne]
  | pid id fd hp hid h =>
    obtain ⟨w₁, hreap, hrest⟩ := cmdPidEvent_cases hid h
    have hm₁ : Modifies (startParts id) w w₁ := cmdPidReap_modifies subset_rfl hreap
    rw [← hm₁.notify_eq (by simp [startParts])]
    rcases hrest with ⟨hdel, h⟩ | ⟨-, h⟩
    · exact removed (by simp [hp, deletes, hdel]) h
    · have hm₂ : Modifies (startParts id) w₁ w' := cmdPidRestart_modifies subset_rfl h
      exact hm₂.notify_eq (by simp [startParts])
  | del line name id hm hx hl hf h => exact removed (by simp [hm, deletes, hx, hl, hf]) h
  | add line cstr _ hx hl h =>
    have hclt : r ≠ .clt w.brk := by
      rintro rfl
      exact (ht.lt_brk _ hr).false
    have hcmd : r ≠ .cmd w.brk := by
      rintro rfl
      exact (ht.lt_brk _ hr).false
    rw [monAdd_some] at h
    obtain ⟨o, w₁, hadd, h⟩ := bind_eq_ok.mp h
    rcases GBLSAddCmd_cases hadd with ⟨rfl, hn⟩ | ⟨id, spec, rfl, ha⟩
    · rw [(pure_eq_ok.mp h).2]
      exact hn.modifies.notify_eq (by simp [cmdParts, ttyParts, hclt, hcmd])
    · have hm := ha.modifies
      rw [ha.id_eq] at hm
      have hr₁ : Present w₁ r := by
        have hflg := hm.bcstflg_eq (by simp [addParts, cmdParts, ttyParts])
        have hmem {j : CmdId} (hj : j ∈ w.gbls.cmds) : j ∈ w₁.gbls.cmds := by
          rw [ha.table]
          exact List.mem_append_left _ hj
        cases r with
        | mon => trivial
        | bcst => exact hflg.trans hr
        | clt j => exact hmem hr
        | cmd j => exact hmem hr
      rw [monAddRegister_notify hr₁ h]
      exact hm.notify_eq (by simp [addParts, cmdParts, ttyParts, hclt, hcmd])
  | drain line args _ hx hl h =>
    have hm := monDrain_modifies sys (S := {p | ∃ id, p ∈ outputParts id}) (fun id p hp => ⟨id, hp⟩) h
    exact hm.notify_eq (by simp [outputParts])
  | idleExit line args _ hx hl h =>
    have hm : Modifies idleExitParts w w' := monIdleExit_modifies sys (by simp [idleExitParts])
      (by simp [idleExitParts]) (by simp [idleExitParts]) h
    exact hm.notify_eq (by simp [idleExitParts])
  | toggle line m args g _ hx hl hw => rw [hw]
  | idle _ hw => rw [hw]

/-- A tty in use stays in use, unless its command is deleted. -/
lemma Handled.present (hh : Handled sys s x w w') (hr : Present w r)
    (hd : ∀ id, r = .clt id ∨ r = .cmd id → deletes w (.hdlr s x) ≠ some id) : Present w' r := by
  cases r with
  | mon => trivial
  | bcst =>
    have hacts : Acts sys (fun _ _ => True) w w' := hh.acts (.trivial s x w)
    refine hacts.invariant (P := fun w => w.gbls.bcstflg = true) (fun w w' hon ha => ?_) hr
    by_contra hoff
    have hold := (ha.bcst_kept (Bool.not_eq_true _ ▸ hoff)).1
    rw [hon] at hold
    cases hold
  | clt id => exact hh.mem_cmds hr (hd id (.inl rfl))
  | cmd id => exact hh.mem_cmds hr (hd id (.inr rfl))

lemma Timely.handled {s' : Source} (h : Timely w s') (hh : Handled sys s x w w') (hne : s ≠ s')
    (hdel : ∀ id ∈ deletes w (.hdlr s x), Source.owner s' ≠ some id)
    (hspares : Source.isPidfd s' = true → ∀ id ∈ Source.owner s', Spares sys w s x id)
    (ht : TableInv w) (hc : Children w.gbls.cmds w) : Timely w' s' := by
  refine ⟨fun id hid => hh.mem_cmds (h.live id hid) fun hd => hdel id hd hid, fun r hr => ?_,
    fun id fd hs => ?_⟩
  · obtain ⟨hpresent, hnote⟩ := h.noted r hr
    have hd : ∀ id, r = .clt id ∨ r = .cmd id → deletes w (.hdlr s x) ≠ some id := by
      intro id hid hd
      apply hdel id hd
      rw [hr]
      rcases hid with rfl | rfl <;> rfl
    refine ⟨hh.present hpresent hd, ?_⟩
    rw [hh.notify_eq ht hpresent (hr ▸ hne) hd]
    exact hnote
  · have hok : Spares sys w s x id := hspares (by rw [hs]; rfl) id (by rw [hs]; rfl)
    exact (h.died id fd hs).handled ht hc hok hh

/-! ## Runs of the loop -/

/-- The handler that the step runs. -/
def LoopEvent.runs (l : Loop) (e : LoopEvent) : Option Event :=
  match e, l.batch with
  | .dispatch x, s :: _ => some (.hdlr s x)
  | _, _ => none

/-- The condition of a run: no handler deletes or stops what another event of the batch is about, no child
that has not execed holds copies of what a deletion closes, and no stale match is left. -/
def InOrder (sys : Sys) (l : Loop) (e : LoopEvent) : Prop :=
  DeletesUnawaited l e ∧ SparesExited sys l e ∧ ∀ h ∈ LoopEvent.runs l e, NoStale l.world h

instance (sys : Sys) (l : Loop) (e : LoopEvent) : Decidable (InOrder sys l e) :=
  inferInstanceAs (Decidable (_ ∧ _ ∧ ∀ h ∈ LoopEvent.runs l e, NoStale l.world h))

lemma loop_orderly (hl : LoopReachable sys (InOrder sys) l) : Orderly sys l.world := by
  have hw : Reachable sys NoStale l.world := by
    refine hl.world sys (fun _ _ _ _ hok => hok.2.2 _ rfl) fun w e _ => ⟨fun id hid => ?_, fun id hid => ?_⟩
    · cases hid
    · cases hid
  exact ⟨reachable_standing hw, reachable_readyInv hw, reachable_names hw, reachable_listable hw,
    reachable_loopReady hw, reachable_tableInv hw, reachable_hears hw⟩

lemma loop_timely (hl : LoopReachable sys (InOrder sys) l) :
    l.batch.Nodup ∧ ∀ s ∈ l.batch, Timely l.world s := by
  obtain ⟨o, hl⟩ := hl
  refine hl.invariant (P := fun l => l.batch.Nodup ∧ ∀ s ∈ l.batch, Timely l.world s)
    (fun l h => ?_) fun l e l' hr h hok hstep => ?_
  · rw [h.2]
    exact ⟨List.nodup_nil, by simp⟩
  have hr' : LoopReachable sys (InOrder sys) l := ⟨o, hr⟩
  have hw : Reachable sys (DeletesUnshared fun _ => True) l.world :=
    hr'.world sys (fun _ _ _ _ hok => hok.1.1) fun _ _ _ hd => by cases hd
  cases hstep with
  | env _ e => exact ⟨h.1, fun s hs => (h.2 s hs).applied e⟩
  | wait hf =>
    exact ⟨hf.1, fun s hs => timely_of_fetched hf hs (reachable_registered hw) (reachable_bcstUnheard hw)
      (reachable_children hw)⟩
  | dispatch hd =>
    obtain ⟨⟨-, hdel⟩, ⟨-, hspares⟩, -⟩ := hok
    have hnodup := List.nodup_cons.mp h.1
    refine ⟨hnodup.2, fun s' hs' => ?_⟩
    exact (h.2 s' (List.mem_cons_of_mem _ hs')).handled (hdlr_cases hd) (ne_of_mem_of_not_mem hs' hnodup.1).symm
      (fun id hid => hdel id hid s' hs') (hspares s' hs') (reachable_tableInv hw) (reachable_children hw)

/-- The handler runs into an assertion or `NYI`. -/
def aborts (sys : Sys) (s : Source) (x : Answer) (w : World) : Bool :=
  match hdlr sys s x w with
  | .error .abort _ => true
  | _ => false

lemma exists_aborted (h : aborts sys s x w = true) : ∃ w', hdlr sys s x w = .error .abort w' := by
  unfold aborts at h
  split at h
  · exact ⟨_, ‹_›⟩
  · cases h

end Yar.Proofs
