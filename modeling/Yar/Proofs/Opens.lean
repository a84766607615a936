import Yar.Proofs.Creates
import Yar.Proofs.Relay

/-!
# The count of opens

`opens` follows the opens and closes of a tty's sub side from one notification to the next. It comes
to the number of clients as long as inotify merges none of them.
-/

namespace Yar.Proofs

open Program Transition

/-! ## What the count comes to -/

/-- The tty is in use. -/
def Live (w : World) : TtyRef → Prop
  | .mon => True
  | .bcst => (w.ttys .bcst).dfd ≠ none
  | .clt id => id ∈ w.gbls.cmds
  | .cmd id => id ∈ w.gbls.cmds

instance (w : World) (r : TtyRef) : Decidable (Live w r) := by
  cases r <;> unfold Live <;> infer_instance

/-- What `opens` is going to be once the notifications that wait have been handled. -/
def settledOpens (this : Tty) (port : Port) : Nat :=
  port.notify.foldl (fun n mask => mask.opens n) this.opens

def OpensOk (w : World) (r : TtyRef) : Prop :=
  settledOpens (w.ttys r) (w.kern.ports r) = (w.kern.ports r).clients

variable {sys : Sys} {w w' : World} {id : CmdId} {r : TtyRef} {S : Set Part}

lemma OpensOk.congr (h : OpensOk w r) (hopens : (w'.ttys r).opens = (w.ttys r).opens)
    (hport : ((w'.kern.ports r).notify, (w'.kern.ports r).clients) =
      ((w.kern.ports r).notify, (w.kern.ports r).clients)) : OpensOk w' r := by
  simp only [Prod.mk.injEq] at hport
  rw [OpensOk, settledOpens, hopens, hport.1, hport.2]
  exact h

lemma OpensOk.frame (h : OpensOk w r) (hm : Modifies S w w') (ho : .opens r ∉ S) (hn : .notify r ∉ S) :
    OpensOk w' r :=
  h.congr (hm.opens_eq ho) (hm.same _ hn)

lemma Created.opensOk (h : Created w r) : OpensOk w r := by
  rw [OpensOk, settledOpens, h.opens, h.port]
  rfl

/-- A step that leaves the table and the creation of the broadcast tty alone makes no tty live. -/
lemma Live.of_modifies (h : Live w' r) (hm : Modifies S w w') (ht : .table ∉ S)
    (hb : .tty .bcst ∉ S) : Live w r := by
  cases r with
  | mon => trivial
  | bcst =>
    have htty := hm.same _ hb
    simp only [SameOn, ttyStatic, Prod.mk.injEq] at htty
    simpa only [Live, htty.2.2.2.1] using h
  | clt id => simpa only [Live, hm.cmds_eq ht] using h
  | cmd id => simpa only [Live, hm.cmds_eq ht] using h

/-- The ttys in use are counted right. -/
def OpensInv (w : World) : Prop := ∀ r, Live w r → OpensOk w r

lemma OpensInv.frame (h : OpensInv w) (hm : Modifies S w w') (ht : .table ∉ S) (hb : .tty .bcst ∉ S)
    (ho : ∀ r, .opens r ∉ S) (hn : ∀ r, .notify r ∉ S) : OpensInv w' :=
  fun r hr => (h r (hr.of_modifies hm ht hb)).frame hm (ho r) (hn r)

/-! ## Creation and cleanup -/

/-- A creation of the broadcast tty. -/
lemma OpensInv.created {b : Bool} (h : OpensInv w) (hm : Modifies bcstParts w w')
    (hyes : b = true → Created w' .bcst) (hno : b = false → (w'.ttys .bcst).dfd = none) :
    OpensInv w' := by
  intro r hr
  have keep (hne : r ≠ .bcst) (hlive : Live w r) : OpensOk w' r :=
    (h r hlive).frame hm (by simp [bcstParts, ttyParts, hne]) (by simp [bcstParts, ttyParts, hne])
  have hcmds : w'.gbls.cmds = w.gbls.cmds := hm.cmds_eq (by simp [bcstParts, ttyParts])
  cases r with
  | mon => exact keep (by simp) trivial
  | bcst =>
    cases b with
    | true => exact (hyes rfl).opensOk
    | false => exact (hr (hno rfl)).elim
  | clt id => exact keep (by simp) (by simpa only [Live, hcmds] using hr)
  | cmd id => exact keep (by simp) (by simpa only [Live, hcmds] using hr)

lemma GBLSAddCmd_opensInv {cstr : CStr} {res : Option CmdId} (ht : TableInv w) (h : OpensInv w)
    (ha : GBLSAddCmd sys cstr w = .ok res w') : OpensInv w' := by
  have hold {r : TtyRef} (hr : Live w r) : r ≠ .clt w.brk ∧ r ≠ .cmd w.brk := by
    constructor
    · rintro rfl
      exact (ht.lt_brk _ hr).ne rfl
    · rintro rfl
      exact (ht.lt_brk _ hr).ne rfl
  have keep {S : Set Part} {r : TtyRef} (hm : Modifies S w w') (hS : S ⊆ addParts w.brk)
      (hr : Live w r) : OpensOk w' r := by
    obtain ⟨hclt, hcmd⟩ := hold hr
    exact (h r hr).frame (hm.mono hS) (by simp [addParts, cmdParts, ttyParts, hclt, hcmd])
      (by simp [addParts, cmdParts, ttyParts, hclt, hcmd])
  intro r hr
  rcases GBLSAddCmd_cases ha with ⟨-, hn⟩ | ⟨id, spec, -, hadd⟩
  · refine keep hn.modifies ?_ (hr.of_modifies hn.modifies (by simp [cmdParts, ttyParts])
      (by simp [cmdParts, ttyParts]))
    rintro p (hp | rfl)
    · exact .inl hp
    · exact .inr (.inl rfl)
  · have hm := hadd.modifies
    rw [hadd.id_eq] at hm
    cases r with
    | mon => exact keep hm subset_rfl trivial
    | bcst =>
      have htty := hm.same (.tty .bcst) (by simp [addParts, cmdParts, ttyParts])
      simp only [SameOn, ttyStatic, Prod.mk.injEq] at htty
      exact keep hm subset_rfl (by simpa only [Live, htty.2.2.2.1] using hr)
    | clt j =>
      have hj : j ∈ w'.gbls.cmds := hr
      rw [hadd.table, List.mem_append, List.mem_singleton] at hj
      rcases hj with hj | rfl
      · exact keep hm subset_rfl hj
      · exact hadd.created.1.opensOk
    | cmd j =>
      have hj : j ∈ w'.gbls.cmds := hr
      rw [hadd.table, List.mem_append, List.mem_singleton] at hj
      rcases hj with hj | rfl
      · exact keep hm subset_rfl hj
      · exact hadd.created.2.opensOk

/-! ## Steps -/

/-- The event is merged into one that is still unread. -/
def Coalesced (w : World) (e : Event) : Prop :=
  match e with
  | .env (.opened r) => Live w r ∧ (w.kern.ports r).notify.getLast? = some .IN_OPEN
  | .env (.closed r wr) => Live w r ∧ (w.kern.ports r).clients ≠ 0 ∧
      (w.kern.ports r).notify.getLast? = some (if wr then .IN_CLOSE_WRITE else .IN_CLOSE_NOWRITE)
  | _ => False

instance (w : World) (e : Event) : Decidable (Coalesced w e) :=
  match e with
  | .env (.opened _) => inferInstanceAs (Decidable (_ ∧ _))
  | .env (.closed _ _) => inferInstanceAs (Decidable (_ ∧ _ ∧ _))
  | .env (.typed _ _ _) | .env (.exited _ _) | .env (.execed _) | .hdlr _ _ => .isFalse False.elim

lemma push_clients (p : Port) (mask : Mask) : (p.push mask).clients = p.clients := by
  unfold Port.push
  split <;> rfl

/-- A notification that is queued counts for one open or close, one that is merged for none. -/
lemma settledOpens_push (this : Tty) (p : Port) (mask : Mask) :
    settledOpens this (p.push mask) = if p.notify.getLast? = some mask then settledOpens this p
      else mask.opens (settledOpens this p) := by
  unfold Port.push
  split
  · rfl
  · rw [settledOpens, settledOpens, List.foldl_append]
    rfl

/-- The count after a client has opened or closed the tty. -/
lemma opensOk_push {n : Nat} {mask : Mask} :
    OpensOk (w.updPort r fun p => { p with clients := n }.push mask) r ↔
      (if (w.kern.ports r).notify.getLast? = some mask then settledOpens (w.ttys r) (w.kern.ports r)
        else mask.opens (settledOpens (w.ttys r) (w.kern.ports r))) = n := by
  have hport : (w.updPort r fun p => { p with clients := n }.push mask).kern.ports r =
      { w.kern.ports r with clients := n }.push mask := by simp [World.updPort]
  rw [OpensOk, hport, push_clients, settledOpens_push]
  rfl

lemma apply_opened (w : World) (r : TtyRef) : (Env.opened r).apply w =
    w.updPort r fun p => { p with clients := (w.kern.ports r).clients + 1 }.push .IN_OPEN := rfl

lemma apply_closed {wr : Bool} (h : (w.kern.ports r).clients ≠ 0) : (Env.closed r wr).apply w =
    w.updPort r fun p => { p with clients := (w.kern.ports r).clients - 1 }.push
      (if wr then .IN_CLOSE_WRITE else .IN_CLOSE_NOWRITE) := by
  rw [Env.apply, if_neg h]
  rfl

lemma apply_opensInv (w : World) (e : Env) (h : OpensInv w) (hok : ¬Coalesced w (.env e)) :
    OpensInv (e.apply w) := by
  have hm := apply_modifies w e
  intro q hq
  have hlive : Live w q := hq.of_modifies hm (by cases e <;> simp [envParts])
    (by cases e <;> simp [envParts])
  have hold : settledOpens (w.ttys q) (w.kern.ports q) = (w.kern.ports q).clients := h q hlive
  cases e with
  | opened r =>
    by_cases hr : r = q
    · subst hr
      rw [apply_opened, opensOk_push, if_neg fun hlast => hok ⟨hlive, hlast⟩, hold]
      rfl
    · exact (h q hlive).frame hm (by simp [envParts]) (by simp [envParts, Ne.symm hr])
  | closed r wr =>
    by_cases hr : r = q
    · subst hr
      by_cases hc : (w.kern.ports r).clients = 0
      · rw [Env.apply, if_pos hc]
        exact h r hlive
      · rw [apply_closed hc, opensOk_push, if_neg fun hlast => hok ⟨hlive, hc, hlast⟩, hold]
        cases wr <;> rfl
    · exact (h q hlive).frame hm (by simp [envParts]) (by simp [envParts, Ne.symm hr])
  | _ => exact (h q hlive).frame hm (by simp [envParts]) (by simp [envParts])

/-- From a merged event on the count is off by one. -/
lemma coalesced_miscounts {e : Env} (h : OpensInv w) (hc : Coalesced w (.env e)) :
    ¬OpensInv (e.apply w) := by
  intro h'
  have hm := apply_modifies w e
  have hlive {q : TtyRef} (hq : Live w q) : Live (e.apply w) q := by
    have hcmds : (e.apply w).gbls.cmds = w.gbls.cmds := hm.cmds_eq (by cases e <;> simp [envParts])
    have htty := hm.same (.tty .bcst) (by cases e <;> simp [envParts])
    simp only [SameOn, ttyStatic, Prod.mk.injEq] at htty
    cases q with
    | mon => trivial
    | bcst => simpa only [Live, htty.2.2.2.1] using hq
    | clt id => simpa only [Live, hcmds] using hq
    | cmd id => simpa only [Live, hcmds] using hq
  cases e with
  | opened r =>
    obtain ⟨hr, hlast⟩ := hc
    have hold : settledOpens (w.ttys r) (w.kern.ports r) = (w.kern.ports r).clients := h r hr
    have hnew := h' r (hlive hr)
    rw [apply_opened, opensOk_push, if_pos hlast] at hnew
    omega
  | closed r wr =>
    obtain ⟨hr, hclients, hlast⟩ := hc
    have hold : settledOpens (w.ttys r) (w.kern.ports r) = (w.kern.ports r).clients := h r hr
    have hnew := h' r (hlive hr)
    rw [apply_closed hclients, opensOk_push, if_pos hlast] at hnew
    omega
  | typed r c p => exact hc
  | exited p status => exact hc
  | execed p => exact hc

/-- A notification that is handled has been counted before. -/
lemma notified_opensInv {mask : Mask} {rest : List Mask} (h : OpensInv w)
    (hq : (w.kern.ports r).notify = mask :: rest) : OpensInv (notified w r mask rest) := by
  have hm := notified_modifies w r mask rest
  intro q hlive
  have hold := h q (hlive.of_modifies hm (by simp) (by simp))
  by_cases hr : r = q
  · subst hr
    rw [OpensOk, settledOpens, hq] at hold
    simpa [OpensOk, settledOpens, notified, World.updPort, World.updTty] using hold
  · exact hold.frame hm (by simp [Ne.symm hr]) (by simp [Ne.symm hr])

lemma Action.opensInv {ok : World → Op → Prop} (ha : Action sys ok w w') (ht : TableInv w)
    (h : OpensInv w) : OpensInv w' := by
  cases ha with
  | @quiet S hS hm hflg =>
    have hnot {p : Part} (hp : p.quiet = false) : p ∉ S := fun hpS => by
      rw [hS p hpS] at hp
      cases hp
    exact h.frame hm (hnot rfl) (hnot rfl) (fun _ => hnot rfl) fun _ => hnot rfl
  | notified r mask rest hr hq hw =>
    rw [hw]
    exact notified_opensInv h hq
  | start id d hid hf =>
    exact h.frame hf.modifies (by simp [forkParts]) (by simp [forkParts]) (by simp [forkParts])
      (by simp [forkParts])
  | stop id hid hs =>
    exact h.frame hs.modifies (by simp [startParts]) (by simp [startParts]) (by simp [startParts])
      (by simp [startParts])
  | reap id hid hok hr =>
    exact h.frame hr.modifies (by simp [startParts]) (by simp [startParts]) (by simp [startParts])
      (by simp [startParts])
  | remove id hid hok hr =>
    obtain ⟨hm, hcmds⟩ := remove_ok hr
    have keep {r : TtyRef} (hlive : Live w r) (hne : r ≠ .clt id ∧ r ≠ .cmd id) : OpensOk w' r := by
      refine (h r hlive).frame hm ?_ ?_ <;>
        simp [removeParts, cleanupParts, procParts, startParts, cmdParts, ttyParts, hne]
    intro r hlive
    cases r with
    | mon => exact keep trivial (by simp)
    | bcst =>
      have htty := hm.same (.tty .bcst)
        (by simp [removeParts, cleanupParts, procParts, startParts, cmdParts, ttyParts])
      simp only [SameOn, ttyStatic, Prod.mk.injEq] at htty
      exact keep (r := .bcst) (by simpa only [Live, htty.2.2.2.1] using hlive) (by simp)
    | clt j =>
      have hj : j ∈ w'.gbls.cmds := hlive
      rw [hcmds, List.mem_filter] at hj
      exact keep (r := .clt j) hj.1 (by simpa using hj.2)
    | cmd j =>
      have hj : j ∈ w'.gbls.cmds := hlive
      rw [hcmds, List.mem_filter] at hj
      exact keep (r := .cmd j) hj.1 (by simpa using hj.2)
  | add cstr res hok hadd => exact GBLSAddCmd_opensInv ht h hadd
  | register r c hr hreg =>
    have hm : Modifies {.kproc} w w' := ttyRegisterEvents_modifies r (by simp) hreg
    exact h.frame hm (by simp) (by simp) (by simp) (by simp)
  | enable b hok hflg hlen he =>
    refine h.created (b := b) (enable_modifies he) (fun hb => ?_) fun hb => ?_
    · exact ttyCreate_created (hb ▸ he)
    · rw [ttyCreate_failed (hb ▸ he)]

theorem reachable_opensInv (hw : Reachable sys (fun w e => ¬Coalesced w e) w) : OpensInv w := by
  have stage {α : Type} {m : Act α} {S : Set Part} (hm : Keeps (Modifies S) m) (ht : .table ∉ S)
      (hb : .tty .bcst ∉ S) (ho : ∀ r, .opens r ∉ S) (hn : ∀ r, .notify r ∉ S) : Preserves OpensInv m :=
    fun _ _ _ h hinv => hinv.frame (hm h) ht hb ho hn
  refine reachable_of_actions (P := OpensInv) (Q := OpensInv) (fun o r _ => rfl) (fun s => ?_) ?_ ?_ ?_
    (fun s w res w' ht h ha => GBLSAddCmd_opensInv ht h ha) ?_ (fun w w' _ h hreg => ?_)
    (fun w e h hok => apply_opensInv w e h hok) (fun w s x _ _ _ => Permits.trivial s x w)
    (fun w w' ht h ha => ha.opensInv ht h) hw
  · exact stage (S := ∅) (argsParseSpec_modifies sys s) (by simp) (by simp) (by simp) (by simp)
  · exact stage (S := {.flags, .names}) (logInit_modifies sys (by simp) (by simp)) (by simp) (by simp) (by simp)
      (by simp)
  · intro w _ w' h hinv r hr
    obtain ⟨link, w₁, -, -, hcreate⟩ := monttyCreate_ok sys h
    by_cases hne : r = .mon
    · rw [hne]
      exact (ttyCreate_created hcreate).opensOk
    · have hm : Modifies (ttyParts .mon) w w' := monttyCreate_modifies sys subset_rfl h
      exact (hinv r (hr.of_modifies hm (by simp [ttyParts]) (by simp [ttyParts]))).frame hm
        (by simp [ttyParts, hne]) (by simp [ttyParts, hne])
  · exact stage (S := {.flags, .names}) (fsCreate_modifies sys (by simp) (by simp)) (by simp) (by simp) (by simp)
      (by simp)
  · intro w _ w' h hinv
    have hm : Modifies bcstParts w w' := bcstttyInit_modifies sys subset_rfl h
    obtain ⟨link, w₁, -, hinit, ⟨-, hw⟩ | ⟨-, hcreate⟩⟩ := bcstttyInit_ok sys h
    · refine hinv.created (b := false) hm (by simp) fun _ => ?_
      rw [hw, (ttyInit_ok (get_bind_eq_ok.mp hinit)).2]
      simp [World.updTty]
    · exact hinv.created (b := true) hm (fun _ => ttyCreate_created hcreate) (by simp)
  · have hm : Modifies {.kproc} w w' := theLoopRegister_modifies (by simp) hreg
    exact h.frame hm (by simp) (by simp) (by simp) (by simp)

/-! ## What is stopped -/

/-- A process that is gone has been stopped with both of its ttys counted as closed. -/
structure StopsIdle (w w' : World) : Prop where
  opens : ∀ r, (w'.ttys r).opens = (w.ttys r).opens
  idle : ∀ id, (w.heap id).pid ≠ none → (w'.heap id).pid ≠ (w.heap id).pid →
    (w.ttys (.clt id)).opens = 0 ∧ (w.ttys .bcst).opens = 0

instance : Std.Refl StopsIdle where
  refl _ := ⟨fun _ => rfl, fun _ _ hne => (hne rfl).elim⟩

instance : IsTrans World StopsIdle where
  trans w w₁ w' h h' := by
    refine ⟨fun r => (h'.opens r).trans (h.opens r), fun id hrun hne => ?_⟩
    by_cases hp : (w₁.heap id).pid = (w.heap id).pid
    · rw [← h.opens, ← h.opens]
      exact h'.idle id (hp ▸ hrun) (hp ▸ hne)
    · exact h.idle id hrun hp

lemma Modifies.stopsIdle (hm : Modifies S w w') (hp : ∀ id, .proc id ∉ S) (ho : ∀ r, .opens r ∉ S) :
    StopsIdle w w' :=
  ⟨fun r => hm.opens_eq (ho r), fun id _ hne => (hne (hm.pid_eq (hp id))).elim⟩

lemma cmdStart_stopsIdle (d : Double) : Keeps StopsIdle (cmdStart sys id d) := by
  intro w b w' h
  rcases cmdStart_cases h with ⟨-, -, rfl⟩ | ⟨-, hf⟩
  · exact refl_of _ _
  · refine ⟨fun r => hf.modifies.opens_eq (by simp [forkParts]), fun j hrun hne => ?_⟩
    by_cases hj : j = id
    · exact (hrun (hj ▸ hf.stopped)).elim
    · exact (hne (hf.modifies.pid_eq (by simp [forkParts, hj]))).elim

/-- An idle tty has no opens. -/
lemma ttyIdle_opens (h : w.ttyIdle r = true) : (w.ttys r).opens = 0 := by
  unfold World.ttyIdle at h
  rw [Bool.and_eq_true, beq_iff_eq] at h
  exact h.1

lemma cmdStop_stopsIdle : Keeps StopsIdle (cmdStop sys id true false) := by
  intro w b w' h
  have hm : Modifies (procParts id) w w' := cmdStop_modifies sys true false subset_rfl h
  have hopens (r : TtyRef) : (w'.ttys r).opens = (w.ttys r).opens :=
    hm.opens_eq (by simp [procParts, startParts])
  rcases cmdStop_cases h with ⟨-, rfl⟩ | ⟨-, -, -, rfl⟩ | ⟨-, hidle, -⟩
  · exact refl_of _ _
  · exact refl_of _ _
  · refine ⟨hopens, fun j _ hne => ?_⟩
    by_cases hj : j = id
    · obtain ⟨hclt, hbcst⟩ := hidle.resolve_left (by simp)
      exact ⟨hj ▸ ttyIdle_opens hclt, ttyIdle_opens hbcst⟩
    · exact (hne (hm.pid_eq (by simp [procParts, startParts, hj]))).elim

lemma nedHdlr_stopsIdle (r : TtyRef) (mask : Mask) : Keeps StopsIdle (nedHdlr sys r mask) := by
  have each {f : CmdId → Act Unit} (hf : ∀ id, Keeps StopsIdle (f id)) :
      Keeps StopsIdle (do (← get).gbls.cmds.forM f) :=
    Keeps.bind Keeps.get fun _ => Keeps.forM hf _
  cases r with
  | bcst =>
    cases mask with
    | IN_OPEN => exact each fun _ => Keeps.discard (cmdStart_stopsIdle _)
    | IN_CLOSE_WRITE => exact each fun _ => Keeps.discard cmdStop_stopsIdle
    | IN_CLOSE_NOWRITE => exact each fun _ => Keeps.discard cmdStop_stopsIdle
  | clt id =>
    cases mask with
    | IN_OPEN => exact Keeps.discard (cmdStart_stopsIdle _)
    | IN_CLOSE_WRITE => exact Keeps.discard cmdStop_stopsIdle
    | IN_CLOSE_NOWRITE => exact Keeps.discard cmdStop_stopsIdle
  | mon => exact Keeps.pure _
  | cmd id => exact Keeps.pure _

lemma cmdCltttyEvent_stopsIdle (rd : Read) : Keeps StopsIdle (cmdCltttyEvent sys id rd) := by
  intro w u w' h
  rcases cmdCltttyEvent_cases h with ⟨-, rfl⟩ | ⟨-, n, c, w₁, hread, hrest⟩
  · exact refl_of _ _
  have hm₁ : StopsIdle w w₁ := hread.modifies.stopsIdle (by simp) (by simp)
  rcases hrest with ⟨-, rfl⟩ | ⟨-, w₂, b, hrelay, hstop⟩
  · exact hm₁
  · exact trans_of _ hm₁ (trans_of _ (hrelay.modifies.stopsIdle (by simp) (by simp))
      (cmdStop_stopsIdle hstop))

/-- The opens and closes that a stop may follow: those of the client tty and the broadcast tty. -/
def ByTty (s : Source) : Prop := (∃ r, s = .ifd r) ∨ ∃ id, s = .dom (.clt id)

/-- A process that an open, a close or a byte from a client makes yar stop has none of its ttys
counted as open when the handler is done. -/
lemma hdlr_stopped {s : Source} {x : Answer} (hs : ByTty s) (h : hdlr sys s x w = .ok () w')
    (hrun : (w.heap id).pid ≠ none) (hne : (w'.heap id).pid ≠ (w.heap id).pid) :
    (w'.ttys (.clt id)).opens = 0 ∧ (w'.ttys .bcst).opens = 0 ∧
      w'.gbls.cmds = w.gbls.cmds ∧ ttyStatic (w'.ttys .bcst) = ttyStatic (w.ttys .bcst) := by
  cases hdlr_cases h with
  | clt j hj hid h =>
    have hm : Modifies (inputParts j) w w' := cmdCltttyEvent_modifies sys _ subset_rfl h
    have hstop := cmdCltttyEvent_stopsIdle _ h
    rw [hstop.opens, hstop.opens]
    exact ⟨(hstop.idle id hrun hne).1, (hstop.idle id hrun hne).2,
      hm.cmds_eq (by simp [inputParts, procParts, startParts]),
      hm.same (.tty .bcst) (by simp [inputParts, procParts, startParts])⟩
  | notify r hr hid h =>
    have hm : Modifies ({.notify r, .opens r} ∪ nedParts r) w w' :=
      ttyNotifyEvent_modifies sys r subset_rfl h
    obtain ⟨mask, rest, -, hned⟩ := ttyNotifyEvent_cases h
    have hstop := nedHdlr_stopsIdle r mask hned
    rw [hstop.opens, hstop.opens]
    refine ⟨(hstop.idle id hrun hne).1, (hstop.idle id hrun hne).2, hm.cmds_eq ?_,
      hm.same (.tty .bcst) ?_⟩ <;>
      cases r <;> simp [nedParts, procParts, startParts]
  | bcst hd => rcases hs with ⟨r, rfl⟩ | ⟨j, rfl⟩ <;> cases hd
  | cmd j hd => rcases hs with ⟨r, rfl⟩ | ⟨j, rfl⟩ <;> cases hd
  | pid j fd hd => rcases hs with ⟨r, rfl⟩ | ⟨j, rfl⟩ <;> cases hd
  | del line name j hd => rcases hs with ⟨r, rfl⟩ | ⟨j, rfl⟩ <;> cases hd
  | add line cmdstr hd => rcases hs with ⟨r, rfl⟩ | ⟨j, rfl⟩ <;> cases hd
  | drain line args hd => rcases hs with ⟨r, rfl⟩ | ⟨j, rfl⟩ <;> cases hd
  | idleExit line args hd => rcases hs with ⟨r, rfl⟩ | ⟨j, rfl⟩ <;> cases hd
  | toggle line m args g hd => rcases hs with ⟨r, rfl⟩ | ⟨j, rfl⟩ <;> cases hd
  | idle hd hw => exact (hne (by rw [hw])).elim

/-! ## The count in runs -/

/-- The opens of every tty in use are counted right once its notifications have been handled, and
a command that is stopped has no client then, neither on its own tty nor on the broadcast tty. -/
structure OpensCounted (sys : Sys) (w : World) : Prop where
  counted : ∀ r, Live w r → (w.kern.ports r).notify = [] →
    (w.ttys r).opens = (w.kern.ports r).clients
  stopped : ∀ s x w' id, ByTty s → hdlr sys s x w = .ok () w' → id ∈ w.gbls.cmds →
    (w.heap id).pid ≠ none → (w'.heap id).pid ≠ (w.heap id).pid →
    ((w'.kern.ports (.clt id)).notify = [] → (w'.kern.ports (.clt id)).clients = 0) ∧
      (Live w .bcst → (w'.kern.ports .bcst).notify = [] → (w'.kern.ports .bcst).clients = 0)

lemma OpensOk.counted (h : OpensOk w r) (hn : (w.kern.ports r).notify = []) :
    (w.ttys r).opens = (w.kern.ports r).clients := by
  rw [OpensOk, settledOpens, hn] at h
  exact h

/-- As long as inotify merges no open or close with one that is still unread, the count is that of
the clients. -/
theorem opens_counts_clients (hw : Reachable sys (fun w e => ¬Coalesced w e) w) :
    OpensCounted sys w := by
  refine ⟨fun r hr hn => (reachable_opensInv hw r hr).counted hn, ?_⟩
  intro s x w' id hs h hid hrun hne
  have hinv : OpensInv w' := by
    obtain ⟨o, hw⟩ := hw
    exact reachable_opensInv ⟨o, .next (e := .hdlr s x) hw not_false h⟩
  obtain ⟨hclt, hbcst, hcmds, htty⟩ := hdlr_stopped hs h hrun hne
  simp only [ttyStatic, Prod.mk.injEq] at htty
  constructor
  · intro hn
    rw [← (hinv (.clt id) (hcmds ▸ hid : id ∈ w'.gbls.cmds)).counted hn, hclt]
  · intro hlive hn
    have hlive' : Live w' .bcst := by simpa only [Live, htty.2.2.2.1] using hlive
    rw [← (hinv .bcst hlive').counted hn, hbcst]

theorem opens_counts_clients_reopened : ∃ w, Reachable quietSys (fun w e => ¬Coalesced w e) w ∧
    OpensCounted quietSys w ∧ (w.kern.ports (.clt 0)).clients = 2 := by
  obtain ⟨w, hw, hp⟩ := exists_reachable quietSys (fun w e => ¬Coalesced w e) oneCmd
    (openClt ++ openClt) (fun w => decide ((w.kern.ports (.clt 0)).clients = 2)) (by decide +kernel)
  exact ⟨w, hw, opens_counts_clients hw, of_decide_eq_true hp⟩

/-- Two clients open the tty before yar looks, and one of them closes it: the command is stopped
under the other. -/
theorem opens_not_always_clients :
    ¬∀ (sys : Sys) (w : World), Reachable sys (fun _ _ => True) w → OpensCounted sys w := by
  intro h
  obtain ⟨w, hw, hp⟩ := exists_reachable quietSys (fun _ _ => True) oneCmd
    [.env (.opened (.clt 0)), .env (.opened (.clt 0)), .hdlr (.ifd (.clt 0)) {},
      .env (.closed (.clt 0) true), .hdlr (.ifd (.clt 0)) {}]
    (fun w => decide (0 ∈ w.gbls.cmds ∧ (w.kern.ports (.clt 0)).notify = [] ∧
      (w.ttys (.clt 0)).opens = 0 ∧ (w.kern.ports (.clt 0)).clients = 1 ∧
      (w.heap 0).pid = none)) (by decide +kernel)
  obtain ⟨hid, hn, hopens, hclients, -⟩ := of_decide_eq_true hp
  have heq := (h quietSys w hw).counted (.clt 0) hid hn
  rw [hopens, hclients] at heq
  cases heq

end Yar.Proofs
