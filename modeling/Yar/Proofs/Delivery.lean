import Yar.Proofs.Process
import Yar.Proofs.Relay

/-!
# Input of a running command

Whether a byte handed to a command is written to its pty or thrown away is decided by the open
count of the command's tty, which follows the process only once the process has opened the tty and
the notify event of that has been handled.
-/

namespace Yar.Proofs

open Program Transition

variable {sys : Sys} {w w' : World} {id : CmdId} {S : Set Part}

/-! ## Which commands a byte is handed to -/

/-- The relay, paced by `s`, goes on to hand over what it reads from `r`. -/
def HandsOver (sys : Sys) (w : World) (r : TtyRef) (s : CmdId) (rd : Read) : Prop :=
  tooEarly (sys.clock w.kern.calls) (some (w.heap s).lastwrite) (w.heap s).delay = false ∧
    ¬(rd = .eof ∧ (w.ttys r).dfd ≠ none)

instance (r : TtyRef) (s : CmdId) (rd : Read) : Decidable (HandsOver sys w r s rd) :=
  inferInstanceAs (Decidable (_ ∧ _))

/-- The commands the handling of an event hands a byte to. -/
def relaysTo (sys : Sys) (w : World) (e : Event) : List CmdId :=
  match e with
  | .hdlr (.dom (.clt id)) x =>
    if cmdIsReady w.gbls (w.heap id) = true ∧ HandsOver sys w (.clt id) id x.rd then [id] else []
  | .hdlr (.dom .bcst) x =>
    if ¬bcstGateShut w.gbls ∧ ∃ s ∈ w.gbls.slowestcmd, HandsOver sys w .bcst s x.rd then w.gbls.cmds
    else []
  | _ => []

/-- Every running command that is handed a byte has had an open of its tty counted. -/
def OpenWhenHanded (sys : Sys) (w : World) (e : Event) : Prop :=
  ∀ id ∈ relaysTo sys w e, (w.heap id).pid ≠ none → (w.ttys (.cmd id)).opens ≠ 0

instance (e : Event) : Decidable (OpenWhenHanded sys w e) :=
  inferInstanceAs (Decidable (∀ id ∈ _, _))

/-- Every byte the step hands to a running command is written to the command's pty, and nothing
is put into the discards of its tty. -/
def Delivers (w w' : World) : Prop :=
  ∃ l, w'.trace = l ++ w.trace ∧ ∀ id c t, .relay id c t ∈ l → (w.heap id).pid ≠ none →
    t ≠ none ∧ (w'.ttys (.cmd id)).discards = (w.ttys (.cmd id)).discards ∧
      (w'.ttys (.cmd id)).wdbytes = (w.ttys (.cmd id)).wdbytes

lemma ReadChar.handsOver {r : TtyRef} {s : CmdId} {rd : Read} {n : Int} {c : Byte}
    (h : ReadChar sys w r (some (w.heap s).lastwrite) (w.heap s).delay rd n c w') :
    n ≠ 0 ↔ HandsOver sys w r s rd := by
  cases h with
  | delayed hearly hn hm => simp [HandsOver, hearly, hn]
  | got p rest hearly hn hdfd hrd hq hnread hm htrace hcalls => simp [HandsOver, hearly, hn, hrd]
  | eof hearly hn hdfd hrd hm => simp [HandsOver, hn, hrd, hdfd]
  | failed hearly hn hfail hm hcalls =>
    have hnot : ¬(rd = .eof ∧ (w.ttys r).dfd ≠ none) := by
      rintro ⟨rfl, hdfd⟩
      simp [ReadFails, hdfd] at hfail
    simp [HandsOver, hearly, hn, hnot]

/-! ## The discards of an open tty -/

/-- A tty that is open stays so, and nothing is discarded on it. -/
def DiscardsKept (w w' : World) : Prop := ∀ r, (w.ttys r).opens ≠ 0 →
  (w'.ttys r).opens ≠ 0 ∧ (w'.ttys r).discards = (w.ttys r).discards ∧
    (w'.ttys r).wdbytes = (w.ttys r).wdbytes

instance : Std.Refl DiscardsKept where
  refl _ _ h := ⟨h, rfl, rfl⟩

instance : IsTrans World DiscardsKept where
  trans _ _ _ h h' r hr := by
    obtain ⟨hopen, hd, hn⟩ := h r hr
    obtain ⟨hopen', hd', hn'⟩ := h' r hopen
    exact ⟨hopen', hd'.trans hd, hn'.trans hn⟩

lemma DiscardsKept.of_ttys (h : w'.ttys = w.ttys) : DiscardsKept w w' := by
  intro r hr
  rw [h]
  exact ⟨hr, rfl, rfl⟩

lemma updTty_discardsKept {r : TtyRef} {f : Tty → Tty}
    (hf : ∀ t, (f t).opens = t.opens ∧ (f t).discards = t.discards ∧ (f t).wdbytes = t.wdbytes) :
    Keeps DiscardsKept (updTty r f) := by
  refine Keeps.modify fun w q hq => ?_
  by_cases hr : q = r
  · subst hr
    simpa [World.updTty, hf] using hq
  · simpa [World.updTty, hr] using hq

lemma modify_discardsKept {f : World → World} (hf : ∀ w, (f w).ttys = w.ttys) :
    Keeps DiscardsKept (modify f : Act PUnit) :=
  Keeps.modify fun w => .of_ttys (hf w)

lemma call_discardsKept : Keeps DiscardsKept call := by
  intro w k w' h
  rw [(call_ok h).2]
  exact .of_ttys rfl

lemma ttyWriteBuf_discardsKept (r : TtyRef) (buf : CStr) (ts : Option CmdId) :
    Keeps DiscardsKept (ttyWriteBuf sys r buf ts) := by
  refine Keeps.bind (modify_discardsKept fun _ => rfl) fun _ => ?_
  intro w n w' h
  replace h := get_bind_eq_ok.mp h
  by_cases hopen : (w.ttys r).opens ≠ 0
  · rw [if_pos hopen] at h
    refine (Keeps.bind (Keeps.bind call_discardsKept fun _ => Keeps.bind Keeps.get fun _ =>
      Keeps.pure _) fun res => ?_ : Keeps DiscardsKept _) h
    cases res with
    | again => exact Keeps.pure _
    | error => exact Keeps.throw _
    | full =>
      refine Keeps.bind ?_ fun _ => Keeps.bind (updTty_discardsKept fun _ => ⟨rfl, rfl, rfl⟩)
        fun _ => Keeps.pure _
      cases ts with
      | none => exact Keeps.pure _
      | some id =>
        exact Keeps.bind (Keeps.bind call_discardsKept fun _ => Keeps.pure _) fun _ =>
          modify_discardsKept fun _ => rfl
  · rw [if_neg hopen] at h
    cases hd : ttyDiscard (w.ttys r) buf with
    | none =>
      rw [hd] at h
      exact (throw_eq_ok.mp h).elim
    | some t =>
      rw [hd] at h
      replace h := modify_bind_eq_ok.mp h
      rw [(pure_eq_ok.mp h).2]
      intro q hq
      have hne : q ≠ r := by
        rintro rfl
        exact hopen hq
      simpa [World.updTty, hne] using hq

lemma cmdRelay_discardsKept (id : CmdId) (c : Byte) : Keeps DiscardsKept (cmdRelay sys id c) :=
  Keeps.bind Keeps.get fun _ => Keeps.bind (ttyWriteBuf_discardsKept _ _ _) fun _ =>
    Keeps.bind (Keeps.require _ _) fun _ => Keeps.bind Keeps.get fun _ =>
    modify_discardsKept fun _ => rfl

lemma cmdResetReady_discardsKept (id : CmdId) : Keeps DiscardsKept (cmdResetReady id) :=
  Keeps.bind Keeps.get fun _ => Keeps.when fun _ =>
    Keeps.bind (modify_discardsKept fun _ => rfl) fun _ =>
    Keeps.bind (modify_discardsKept fun _ => rfl) fun _ => Keeps.bind Keeps.get fun _ =>
    Keeps.require _ _

lemma cmdStop_discardsKept (id : CmdId) (epoll force : Bool) :
    Keeps DiscardsKept (cmdStop sys id epoll force) := by
  have idle (r : TtyRef) : Keeps DiscardsKept (ttyIdle r) :=
    Keeps.bind Keeps.get fun _ => Keeps.bind (Keeps.require _ _) fun _ => Keeps.pure _
  have del (fd : Option Fd) : Keeps DiscardsKept (epollDel fd) :=
    Keeps.bind Keeps.get fun _ => Keeps.bind (Keeps.require _ _) fun _ =>
      modify_discardsKept fun _ => rfl
  have kill (pid : Option Pid) (fd : Option Fd) : Keeps DiscardsKept (killAndPoll sys pid fd) :=
    Keeps.bind call_discardsKept fun _ => Keeps.bind Keeps.get fun _ =>
      Keeps.bind (Keeps.require _ _) fun _ => modify_discardsKept fun _ => rfl
  have wait (fd : Option Fd) : Keeps DiscardsKept (waitid fd) := by
    intro w st w' h
    obtain ⟨p, -, -, -, rfl⟩ := waitid_ok h
    exact .of_ttys rfl
  have shut (fd : Option Fd) : Keeps DiscardsKept (close fd) := by
    cases fd with
    | none => exact Keeps.pure _
    | some fd => exact modify_discardsKept fun _ => rfl
  have send : Keeps DiscardsKept (cmdSendStopstr sys id) := by
    refine Keeps.bind Keeps.get fun w => ?_
    split
    · exact Keeps.forM (fun c => Keeps.bind (ttyWriteBuf_discardsKept _ _ _) fun _ =>
        Keeps.require _ _) _
    · exact Keeps.pure _
  refine Keeps.bind Keeps.get fun _ => Keeps.ite (fun _ => Keeps.pure _) fun _ => Keeps.bind ?_
    fun _ => Keeps.ite (fun _ => Keeps.pure _) fun _ => Keeps.bind (Keeps.bind send fun _ => ?_)
    fun _ => Keeps.pure _
  · exact Keeps.ite (fun _ => Keeps.pure _) fun _ => Keeps.bind (idle _) fun _ =>
      Keeps.ite (fun _ => Keeps.pure _) fun _ => Keeps.bind (idle _) fun _ => Keeps.pure _
  · exact Keeps.bind (cmdResetReady_discardsKept id) fun _ => Keeps.bind Keeps.get fun _ =>
      Keeps.bind (Keeps.when fun _ => del _) fun _ => Keeps.bind (kill _ _) fun _ =>
      Keeps.bind (wait _) fun _ => Keeps.bind (shut _) fun _ => modify_discardsKept fun _ => rfl

/-! ## What a step hands over -/

/-- The commands `ids` are each handed a byte, and no others. It is thrown away by those whose tty
is not open. -/
structure Hands (ids : List CmdId) (w w' : World) : Prop where
  trace : ∃ l, w'.trace = l ++ w.trace ∧
    (∀ id c t, .relay id c t ∈ l → id ∈ ids ∧ (t = none ↔ (w.ttys (.cmd id)).opens = 0)) ∧
    ∀ id ∈ ids, ∃ c t, .relay id c t ∈ l

lemma Modifies.hands (hm : Modifies S w w') (hS : .oRelay ∉ S) : Hands [] w w' := by
  obtain ⟨l, hl, hlS⟩ := hm.trace
  exact ⟨l, hl, fun id c t ho => (hS (hlS _ ho)).elim, by simp⟩

lemma Hands.append {w₁ : World} {ids ids' : List CmdId} (h : Hands ids w w₁) (h' : Hands ids' w₁ w')
    (hopens : ∀ r, (w₁.ttys r).opens = (w.ttys r).opens) : Hands (ids ++ ids') w w' := by
  obtain ⟨l, hl, hrelay, hall⟩ := h.trace
  obtain ⟨l', hl', hrelay', hall'⟩ := h'.trace
  refine ⟨l' ++ l, by rw [hl', hl, List.append_assoc], fun id c t ho => ?_, fun id hid => ?_⟩
  · rcases List.mem_append.mp ho with ho | ho
    · obtain ⟨hid, ht⟩ := hrelay' id c t ho
      rw [hopens] at ht
      exact ⟨List.mem_append_right _ hid, ht⟩
    · obtain ⟨hid, ht⟩ := hrelay id c t ho
      exact ⟨List.mem_append_left _ hid, ht⟩
  · rcases List.mem_append.mp hid with hid | hid
    · obtain ⟨c, t, ho⟩ := hall id hid
      exact ⟨c, t, List.mem_append_right _ ho⟩
    · obtain ⟨c, t, ho⟩ := hall' id hid
      exact ⟨c, t, List.mem_append_left _ ho⟩

lemma Relayed.hands {c : Byte} (h : Relayed sys id c w w') : Hands [id] w w' := by
  obtain ⟨t, htrace, hclosed, hopen⟩ := h.noted
  refine ⟨[.relay id c t, .write (.cmd id) [c]], htrace, fun j d t' ho => ?_, fun j hj => ?_⟩
  · simp only [List.mem_cons, Obs.relay.injEq, reduceCtorEq, List.not_mem_nil, or_false] at ho
    obtain ⟨rfl, rfl, rfl⟩ := ho
    refine ⟨List.mem_singleton_self _, fun ht => ?_, fun h0 => (hclosed h0).1⟩
    by_contra h0
    obtain ⟨k, -, -, ht', -⟩ := hopen h0
    rw [ht] at ht'
    cases ht'
  · exact ⟨c, t, by simp [List.mem_singleton.mp hj]⟩

lemma cmdRelay_forM_hands {c : Byte} {ids : List CmdId} {u : Unit}
    (h : (ids.forM fun j => cmdRelay sys j c) w = .ok u w') : Hands ids w w' := by
  induction ids generalizing w with
  | nil =>
    rw [(pure_eq_ok.mp h).2]
    exact ⟨[], rfl, by simp, by simp⟩
  | cons j ids ih =>
    obtain ⟨_, w₁, hrelay, h⟩ := forM_cons_eq_ok.mp h
    have hr := cmdRelay_ok hrelay
    exact hr.hands.append (ih h) fun r => hr.modifies.opens_eq (by simp)

lemma ttyReadChar_discardsKept (r : TtyRef) (ts : Option Time) (delay : Double) (rd : Read) :
    Keeps DiscardsKept (ttyReadChar sys r ts delay rd) := by
  have read : Keeps DiscardsKept (read sys r rd) := by
    refine Keeps.bind call_discardsKept fun k => Keeps.bind Keeps.get fun w =>
      Keeps.ite (fun _ => Keeps.pure _) fun _ => ?_
    split
    · exact Keeps.bind (modify_discardsKept fun _ => rfl) fun _ =>
        Keeps.bind (modify_discardsKept fun _ => rfl) fun _ => Keeps.pure _
    · exact Keeps.pure _
    · exact Keeps.pure _
  refine Keeps.bind (Keeps.bind call_discardsKept fun _ => Keeps.pure _) fun _ =>
    Keeps.ite (fun _ => ?_) fun _ => Keeps.bind read fun nc => Keeps.ite (fun _ => ?_) fun _ =>
      Keeps.pure _
  · exact Keeps.bind (updTty_discardsKept fun _ => ⟨rfl, rfl, rfl⟩) fun _ =>
      Keeps.bind Keeps.get fun _ => Keeps.pure _
  · exact Keeps.bind (updTty_discardsKept fun _ => ⟨rfl, rfl, rfl⟩) fun _ => Keeps.pure _

lemma cmdCltttyEvent_discardsKept (id : CmdId) (rd : Read) :
    Keeps DiscardsKept (cmdCltttyEvent sys id rd) :=
  Keeps.bind Keeps.get fun _ => Keeps.when fun _ =>
    Keeps.bind (ttyReadChar_discardsKept _ _ _ _) fun _ => Keeps.when fun _ =>
    Keeps.bind (cmdRelay_discardsKept _ _) fun _ => Keeps.discard (cmdStop_discardsKept _ _ _)

lemma bcstttyEvent_discardsKept (rd : Read) : Keeps DiscardsKept (bcstttyEvent sys rd) := by
  refine Keeps.bind Keeps.get fun w => Keeps.when fun _ => ?_
  split
  · exact Keeps.throw _
  · exact Keeps.bind (Keeps.bind Keeps.get fun _ => Keeps.require _ _) fun _ =>
      Keeps.bind (ttyReadChar_discardsKept _ _ _ _) fun _ => Keeps.when fun _ =>
      Keeps.bind Keeps.get fun _ => Keeps.forM (fun _ => cmdRelay_discardsKept _ _) _

lemma cmdCltttyEvent_hands {rd : Read} {u : Unit} (h : cmdCltttyEvent sys id rd w = .ok u w') :
    Hands (if cmdIsReady w.gbls (w.heap id) = true ∧ HandsOver sys w (.clt id) id rd then [id] else [])
      w w' := by
  rcases cmdCltttyEvent_cases h with ⟨hready, rfl⟩ | ⟨hready, n, c, w₁, hread, hrest⟩
  · rw [if_neg (by simp [hready])]
    exact (refl_of (Modifies ∅) w').hands (by simp)
  have hquiet : Hands [] w w₁ := hread.modifies.hands (by simp)
  have hopens (r : TtyRef) : (w₁.ttys r).opens = (w.ttys r).opens := hread.modifies.opens_eq (by simp)
  rcases hrest with ⟨hn, rfl⟩ | ⟨hn, w₂, b, hrelay, hstop⟩
  · rw [if_neg fun hgo => hread.handsOver.mpr hgo.2 hn]
    exact hquiet
  · rw [if_pos ⟨hready, hread.handsOver.mp hn⟩]
    have hm : Modifies (procParts id) w₂ w' := cmdStop_modifies sys _ _ subset_rfl hstop
    exact hquiet.append (hrelay.hands.append (hm.hands (by simp [procParts, startParts]))
      fun r => hrelay.modifies.opens_eq (by simp)) hopens

lemma bcstttyEvent_hands {rd : Read} {u : Unit} (h : bcstttyEvent sys rd w = .ok u w') :
    Hands (if ¬bcstGateShut w.gbls ∧ ∃ s ∈ w.gbls.slowestcmd, HandsOver sys w .bcst s rd
      then w.gbls.cmds else []) w w' := by
  rcases bcstttyEvent_cases h with ⟨hshut, rfl⟩ | ⟨hopen, s, n, c, w₁, hs, -, hread, hrest⟩
  · rw [if_neg fun hgo => hgo.1 hshut]
    exact (refl_of (Modifies ∅) w').hands (by simp)
  have hquiet : Hands [] w w₁ := hread.modifies.hands (by simp)
  have hopens (r : TtyRef) : (w₁.ttys r).opens = (w.ttys r).opens := hread.modifies.opens_eq (by simp)
  have hgo : (∃ s ∈ w.gbls.slowestcmd, HandsOver sys w .bcst s rd) ↔ n ≠ 0 := by
    rw [hread.handsOver, hs]
    simp
  rcases hrest with ⟨hn, rfl⟩ | ⟨hn, hrelay⟩
  · rw [if_neg fun h => hgo.mp h.2 hn]
    exact hquiet
  · rw [if_pos ⟨hopen, hgo.mpr hn⟩]
    replace hrelay := get_bind_eq_ok.mp hrelay
    rw [hread.modifies.cmds_eq (by simp)] at hrelay
    exact hquiet.append (cmdRelay_forM_hands hrelay) hopens

/-- What a handler hands over is read off the state before it. -/
theorem Handled.hands {s : Source} {x : Answer} (hh : Handled sys s x w w') :
    Hands (relaysTo sys w (.hdlr s x)) w w' ∧
      (relaysTo sys w (.hdlr s x) ≠ [] → DiscardsKept w w') := by
  by_cases hbcst : s = .dom .bcst
  · subst hbcst
    have hb : bcstttyEvent sys x.rd w = .ok () w' := by cases hh <;> simp_all
    exact ⟨bcstttyEvent_hands hb, fun _ => bcstttyEvent_discardsKept _ hb⟩
  · by_cases hclt : ∃ id, s = .dom (.clt id)
    · obtain ⟨id, rfl⟩ := hclt
      have hc : cmdCltttyEvent sys id x.rd w = .ok () w' := by cases hh <;> simp_all
      exact ⟨cmdCltttyEvent_hands hc, fun _ => cmdCltttyEvent_discardsKept _ _ hc⟩
    · have hnil : relaysTo sys w (.hdlr s x) = [] := by
        cases s with
        | dom r => cases r <;> first | rfl | simp_all
        | _ => rfl
      rw [hnil]
      exact ⟨(hh.unrelayed (fun id hs => hclt ⟨id, hs⟩) hbcst).hands
        (by simp [unrelayedParts, Part.ofRelay]), fun h => (h rfl).elim⟩

lemma step_hands {e : Event} (h : Step sys w e w') :
    Hands (relaysTo sys w e) w w' ∧ (relaysTo sys w e ≠ [] → DiscardsKept w w') := by
  cases e with
  | env e =>
    rw [modify_eq_ok.mp h]
    exact ⟨(apply_modifies w e).hands (by cases e <;> simp [envParts]), fun h => (h rfl).elim⟩
  | hdlr s x => exact (hdlr_cases h).hands

/-- A step loses nothing exactly when the commands it hands a byte to have been seen to open their
tty, in so far as they are running. -/
lemma delivers_iff {e : Event} (h : Step sys w e w') : Delivers w w' ↔ OpenWhenHanded sys w e := by
  obtain ⟨⟨l, hl, hrelay, hall⟩, hkept⟩ := step_hands h
  constructor
  · rintro ⟨l', hl', hdel⟩ id hid hpid h0
    obtain ⟨c, t, ho⟩ := hall id hid
    obtain rfl : l' = l := List.append_cancel_right (hl'.symm.trans hl)
    exact (hdel id c t ho hpid).1 ((hrelay id c t ho).2.mpr h0)
  · intro hopen
    refine ⟨l, hl, fun id c t ho hpid => ?_⟩
    obtain ⟨hid, ht⟩ := hrelay id c t ho
    have h0 := hopen id hid hpid
    obtain ⟨-, hd, hn⟩ := hkept (List.ne_nil_of_mem hid) (.cmd id) h0
    exact ⟨fun hnone => h0 (ht.mp hnone), hd, hn⟩

/-- A step of a run in which every byte handed to a running command is delivered. -/
def DeliveringStep (sys : Sys) (w : World) (e : Event) (w' : World) : Prop :=
  Step sys w e w' ∧ Delivers w w'

/-- A step throws no byte handed to a running command away exactly when it hands a running command a
byte only after the open of its tty has been counted, and so the runs all of whose steps do the one
are the runs all of whose steps do the other. -/
theorem input_delivered :
    (∀ w e w', Step sys w e w' → (Delivers w w' ↔ OpenWhenHanded sys w e)) ∧
    ∀ o w, Reach (Started sys o) (DeliveringStep sys) (fun _ _ => True) w ↔
      Reach (Started sys o) (Step sys) (OpenWhenHanded sys) w := by
  refine ⟨fun w e w' h => delivers_iff h, fun o w => ⟨?_, ?_⟩⟩
  · exact Reach.imp fun w e w' _ _ h => ⟨(delivers_iff h.1).mp h.2, h.1⟩
  · exact Reach.imp fun w e w' _ hok h => ⟨trivial, h, (delivers_iff h).mpr hok⟩

/-- The byte comes once the open of the process has been counted. -/
theorem input_delivered_typed : ∃ w w', Reachable quietSys (OpenWhenHanded quietSys) w ∧
    Step quietSys w (.hdlr (.dom (.clt 0)) {}) w' ∧ (w.heap 0).pid ≠ none ∧
    relaysTo quietSys w (.hdlr (.dom (.clt 0)) {}) = [0] ∧ Delivers w w' := by
  obtain ⟨w, hw, hp⟩ := exists_reachable quietSys (OpenWhenHanded quietSys) oneCmd
    (openClt ++ [.env (.opened (.cmd 0)), .hdlr (.ifd (.cmd 0)) {}, .env (.typed (.clt 0) 107 9)])
    (fun w => decide ((w.heap 0).pid ≠ none ∧ relaysTo quietSys w (.hdlr (.dom (.clt 0)) {}) = [0] ∧
      OpenWhenHanded quietSys w (.hdlr (.dom (.clt 0)) {})) &&
      handles quietSys (.dom (.clt 0)) {} (fun _ => true) w) (by decide +kernel)
  obtain ⟨hstate, hp⟩ := Bool.and_eq_true_iff.mp hp
  obtain ⟨hpid, hrelay, hopen⟩ := of_decide_eq_true hstate
  obtain ⟨w', h, -⟩ := exists_handled hp
  have hstep : Step quietSys w (.hdlr (.dom (.clt 0)) {}) w' := h
  exact ⟨w, w', hw, hstep, hpid, hrelay, (input_delivered.1 w _ w' hstep).mpr hopen⟩

/-- The first byte of a client comes before the process it has started opens its tty. -/
theorem input_not_always_delivered :
    ¬∀ (sys : Sys) (w w' : World) (e : Event), Reachable sys (fun _ _ => True) w →
      Step sys w e w' → Delivers w w' := by
  intro hall
  obtain ⟨w, hw, hp⟩ := exists_reachable quietSys (fun _ _ => True) oneCmd
    (openClt ++ [.env (.typed (.clt 0) 107 9)])
    (fun w => decide (¬OpenWhenHanded quietSys w (.hdlr (.dom (.clt 0)) {})) &&
      handles quietSys (.dom (.clt 0)) {} (fun _ => true) w) (by decide +kernel)
  obtain ⟨hclosed, hp⟩ := Bool.and_eq_true_iff.mp hp
  obtain ⟨w', h, -⟩ := exists_handled hp
  have hstep : Step quietSys w (.hdlr (.dom (.clt 0)) {}) w' := h
  exact of_decide_eq_true hclosed ((delivers_iff hstep).mp (hall quietSys w w' _ hw hstep))

end Yar.Proofs
