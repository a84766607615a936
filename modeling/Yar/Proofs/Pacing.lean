import Mathlib.Algebra.Order.Group.Defs
import Mathlib.Algebra.Order.Ring.Rat
import Mathlib.Data.List.Chain
import Yar.Proofs.Relay

/-!
# Pacing

The client path of a command is paced by the command's own last write. The broadcast path is
paced by the last write of `slowestcmd` alone, so a command keeps its spacing for as long as a
broadcast that goes ahead happens to find its delay over.
-/

namespace Yar.Proofs

open Program

/-- The times of the bytes the relay wrote to the pty of a command, newest first. -/
def relayTimes (id : CmdId) : List Obs → List Time
  | [] => []
  | .relay j _ (some t) :: l => if j = id then t :: relayTimes id l else relayTimes id l
  | _ :: l => relayTimes id l

/-- Consecutive bytes are at least `d` apart. -/
def Spaced (d : ℚ) (times : List Time) : Prop := times.IsChain fun later earlier => d ≤ later - earlier

/-- A broadcast that goes ahead finds every command it writes to rested: the byte the relay last
wrote to it is as old as the command's delay. The byte's own time is in the trace: `lastwrite` also
moves on when the stop string goes out, which is no reason to hold a broadcast back. -/
def BroadcastsOnPace (sys : Sys) (w : World) (e : Event) : Prop :=
  match e with
  | .hdlr (.dom .bcst) x => ¬bcstGateShut w.gbls → ∀ s ∈ w.gbls.slowestcmd,
      tooEarly (sys.clock w.kern.calls) (some (w.heap s).lastwrite) (w.heap s).delay = false →
      ¬(x.rd = .eof ∧ (w.ttys .bcst).dfd ≠ none) →
      ∀ id ∈ w.gbls.cmds, (w.ttys (.cmd id)).opens ≠ 0 →
        tooEarly (sys.clock w.kern.calls) (relayTimes id w.trace).head? (w.heap id).delay = false
  | _ => True

instance (sys : Sys) (w : World) (e : Event) : Decidable (BroadcastsOnPace sys w e) :=
  match e with
  | .hdlr (.dom .bcst) _ => inferInstanceAs (Decidable (¬bcstGateShut w.gbls → _))
  | .env _ | .hdlr (.dom .mon) _ | .hdlr (.dom (.clt _)) _ | .hdlr (.dom (.cmd _)) _
  | .hdlr (.ifd _) _ | .hdlr (.pidfd _ _) _ | .hdlr .sig _ | .hdlr .fs _ => .isTrue trivial

variable {sys : Sys} {w w' : World} {S : Set Part} {l t : List Obs}

lemma relayTimes_append (id : CmdId) (hl : ∀ o ∈ l, obsPart o ≠ .oRelay) :
    relayTimes id (l ++ t) = relayTimes id t := by
  induction l with
  | nil => rfl
  | cons o l ih =>
    have ih := ih fun o ho => hl o (List.mem_cons_of_mem _ ho)
    have ho := hl o List.mem_cons_self
    cases o <;> simp_all [relayTimes, obsPart]

lemma Modifies.relayTimes_eq (hm : Modifies S w w') (hS : .oRelay ∉ S) (id : CmdId) :
    relayTimes id w'.trace = relayTimes id w.trace := by
  obtain ⟨l, hl, hlS⟩ := hm.trace
  rw [hl]
  exact relayTimes_append id fun o ho heq => hS (heq ▸ hlS o ho)

/-! ## The invariant -/

structure PaceInv (sys : Sys) (w : World) : Prop where
  fresh : ∀ id, w.brk ≤ id → relayTimes id w.trace = []
  last : ∀ id ∈ w.gbls.cmds, ∀ t ∈ (relayTimes id w.trace).head?,
    t ≤ (w.heap id).lastwrite ∧ t ≤ sys.clock w.kern.calls
  spaced : ∀ id ∈ w.gbls.cmds, ∀ d, (w.heap id).delay = .fin d → 0 < d →
    Spaced d (relayTimes id w.trace)

/-- Time stamps only move on to later readings of the clock. -/
def LaterStamp (sys : Sys) (w w' : World) : Prop :=
  w.kern.calls ≤ w'.kern.calls ∧ ∀ id, (w'.heap id).lastwrite = (w.heap id).lastwrite ∨
    sys.clock w.kern.calls ≤ (w'.heap id).lastwrite

instance : Std.Refl (LaterStamp sys) where
  refl _ := ⟨le_rfl, fun _ => .inl rfl⟩

instance : IsTrans World (LaterStamp sys) where
  trans w₁ w₂ w₃ h h' := by
    refine ⟨h.1.trans h'.1, fun id => ?_⟩
    rcases h'.2 id with heq | hle
    · rw [heq]
      exact h.2 id
    · exact .inr ((sys.clock_mono h.1).trans hle)

lemma Modifies.laterStamp (hm : Modifies S w w') (hS : ∀ id, .lastwrite id ∉ S) :
    LaterStamp sys w w' :=
  ⟨hm.calls, fun id => .inl (hm.same (.lastwrite id) (hS id))⟩

/-- A change that relays nothing. A command that is new in the table has been relayed nothing. -/
lemma PaceInv.change (h : PaceInv sys w) (hcalls : w.kern.calls ≤ w'.kern.calls)
    (hbrk : w.brk ≤ w'.brk) (htimes : ∀ id, relayTimes id w'.trace = relayTimes id w.trace)
    (hcmds : ∀ id ∈ w'.gbls.cmds, relayTimes id w.trace = [] ∨
      (id ∈ w.gbls.cmds ∧ (w'.heap id).delay = (w.heap id).delay ∧
        ((w'.heap id).lastwrite = (w.heap id).lastwrite ∨
          sys.clock w.kern.calls ≤ (w'.heap id).lastwrite))) : PaceInv sys w' := by
  refine ⟨fun id hid => ?_, fun id hid => ?_, fun id hid => ?_⟩
  · rw [htimes, h.fresh id (hbrk.trans hid)]
  · rw [htimes]
    rcases hcmds id hid with hnil | ⟨hmem, -, hlast⟩
    · simp [hnil]
    · intro t ht
      obtain ⟨hle, hclock⟩ := h.last id hmem t ht
      refine ⟨?_, hclock.trans (sys.clock_mono hcalls)⟩
      rcases hlast with heq | hlater
      · rwa [heq]
      · exact hclock.trans hlater
  · rw [htimes]
    rcases hcmds id hid with hnil | ⟨hmem, hdelay, -⟩
    · simp [hnil, Spaced]
    · rw [hdelay]
      exact h.spaced id hmem

/-- The parts a step without relay may work on, besides the time stamps. -/
def Part.ofPace : Part → Bool
  | .table | .brk | .spec _ | .oRelay => true
  | _ => false

def unpacedParts : Set Part := {p | p.ofPace = false}

lemma PaceInv.later (h : PaceInv sys w) (hm : Modifies unpacedParts w w')
    (hlater : LaterStamp sys w w') : PaceInv sys w' := by
  have hnot {p : Part} (hp : p.ofPace = true) : p ∉ unpacedParts := by
    simp [unpacedParts, hp]
  refine h.change hm.calls (hm.brk_eq (hnot rfl)).ge (hm.relayTimes_eq (hnot rfl)) fun id hid => ?_
  rw [hm.cmds_eq (hnot rfl)] at hid
  exact .inr ⟨hid, hm.delay_eq (hnot rfl), hlater.2 id⟩

/-! ## One relay -/

lemma tooEarly_fin {now t : Time} {d : ℚ} (hd : 0 < d) :
    tooEarly now (some t) (.fin d) = false ↔ d ≤ now - t := by
  simp [tooEarly, Double.lt, hd]

lemma tooEarly_mono {now t t' : Time} {delay : Double} (ht : t ≤ t')
    (h : tooEarly now (some t') delay = false) : tooEarly now (some t) delay = false := by
  cases delay with
  | fin d =>
    by_cases hd : 0 < d
    · rw [tooEarly_fin hd] at h ⊢
      exact h.trans (sub_le_sub_left ht now)
    · simp [tooEarly, Double.lt, hd]
  | _ => simp_all [tooEarly, Double.lt]

/-- A relay to a command that is rested, or has nothing open to write to. -/
lemma PaceInv.relayed {id : CmdId} {c : Byte} {now : Time} (h : PaceInv sys w)
    (hid : id < w.brk) (hnow : now ≤ sys.clock w.kern.calls)
    (hrest : (w.ttys (.cmd id)).opens ≠ 0 →
      tooEarly now (relayTimes id w.trace).head? (w.heap id).delay = false)
    (hr : Relayed sys id c w w') : PaceInv sys w' := by
  obtain ⟨t, htrace, hclosed, hopen⟩ := hr.noted
  have hcmds : w'.gbls.cmds = w.gbls.cmds := hr.modifies.cmds_eq (by simp)
  have hbrk : w'.brk = w.brk := hr.modifies.brk_eq (by simp)
  have hdelay (j : CmdId) : (w'.heap j).delay = (w.heap j).delay := hr.modifies.delay_eq (by simp)
  have hlast {j : CmdId} (hj : j ≠ id) : (w'.heap j).lastwrite = (w.heap j).lastwrite :=
    hr.modifies.same (.lastwrite j) (by simp [hj])
  by_cases h0 : (w.ttys (.cmd id)).opens = 0
  · obtain ⟨rfl, hsame⟩ := hclosed h0
    refine h.change hr.modifies.calls hbrk.ge (fun j => by rw [htrace]; rfl) fun j hj => ?_
    rw [hcmds] at hj
    refine .inr ⟨hj, hdelay j, .inl ?_⟩
    by_cases hne : j = id
    · rw [hne, hsame]
    · exact hlast hne
  · obtain ⟨k, hk, hk', rfl, hstamp⟩ := hopen h0
    have hnowk : now ≤ sys.clock k := hnow.trans (sys.clock_mono hk.le)
    have hself : relayTimes id w'.trace = sys.clock k :: relayTimes id w.trace := by
      simp [htrace, relayTimes]
    have hother {j : CmdId} (hj : j ≠ id) : relayTimes j w'.trace = relayTimes j w.trace := by
      simp [htrace, relayTimes, hj.symm]
    refine ⟨fun j hj => ?_, fun j hj => ?_, fun j hj d hd hpos => ?_⟩
    · rw [hbrk] at hj
      rw [hother (hid.trans_le hj).ne', h.fresh j hj]
    · rw [hcmds] at hj
      by_cases hne : j = id
      · subst hne
        rw [hself, hstamp]
        simpa using sys.clock_mono hk'.le
      · rw [hother hne, hlast hne]
        intro t ht
        obtain ⟨hle, hclock⟩ := h.last j hj t ht
        exact ⟨hle, hclock.trans (sys.clock_mono hr.modifies.calls)⟩
    · rw [hcmds] at hj
      rw [hdelay] at hd
      by_cases hne : j = id
      · subst hne
        rw [hself]
        refine List.IsChain.cons (h.spaced j hj d hd hpos) fun t ht => ?_
        have hgap := hrest h0
        rw [ht, hd, tooEarly_fin hpos] at hgap
        exact hgap.trans (sub_le_sub_right hnowk t)
      · rw [hother hne]
        exact h.spaced j hj d hd hpos

/-- The byte of a broadcast goes to a table of rested commands. -/
lemma PaceInv.forM_relayed {c : Byte} {now : Time} {ids : List CmdId} {u : Unit}
    (h : PaceInv sys w) (hnodup : ids.Nodup) (hids : ∀ id ∈ ids, id < w.brk)
    (hnow : now ≤ sys.clock w.kern.calls)
    (hrest : ∀ id ∈ ids, (w.ttys (.cmd id)).opens ≠ 0 →
      tooEarly now (relayTimes id w.trace).head? (w.heap id).delay = false)
    (hr : (ids.forM fun id => cmdRelay sys id c) w = .ok u w') : PaceInv sys w' := by
  induction ids generalizing w with
  | nil =>
    rw [(pure_eq_ok.mp hr).2]
    exact h
  | cons id ids ih =>
    obtain ⟨_, w₁, hrelay, hr⟩ := forM_cons_eq_ok.mp hr
    have hone := cmdRelay_ok hrelay
    have hm := hone.modifies
    obtain ⟨hnotin, hnodup⟩ := List.nodup_cons.mp hnodup
    have h₁ := h.relayed (hids id List.mem_cons_self) hnow (hrest id List.mem_cons_self) hone
    refine ih h₁ hnodup (fun j hj => ?_) (hnow.trans (sys.clock_mono hm.calls)) (fun j hj h0 => ?_) hr
    · rw [hm.brk_eq (by simp)]
      exact hids j (List.mem_cons_of_mem _ hj)
    · have hne : id ≠ j := by
        rintro rfl
        exact hnotin hj
      obtain ⟨t, htrace, -⟩ := hone.noted
      have htimes : relayTimes j w₁.trace = relayTimes j w.trace := by
        cases t <;> simp [htrace, relayTimes, hne]
      rw [hm.opens_eq (by simp)] at h0
      rw [htimes, hm.delay_eq (by simp)]
      exact hrest j (List.mem_cons_of_mem _ hj) h0

/-! ## The stop string -/

lemma cmdSendStopstr_later (id : CmdId) : Keeps (LaterStamp sys) (cmdSendStopstr sys id) := by
  have hchar (c : Byte) : Keeps (LaterStamp sys) (cmdStopChar sys id c) := by
    refine Keeps.bind (fun w n w' h => ?_) fun _ => Keeps.require _ _
    have hm : Modifies {.oWrite (.cmd id), .lastwrite id} w w' :=
      cmdWriteChar_modifies sys c (by simp) (by simp) h
    refine ⟨hm.calls, fun j => (ttyWriteBuf_ok h).later j |>.imp_right ?_⟩
    rintro ⟨k, hk, hlast⟩
    rw [hlast]
    exact sys.clock_mono hk
  refine Keeps.bind Keeps.get fun w => ?_
  split
  · exact Keeps.forM hchar _
  · exact Keeps.pure _

lemma cmdStop_later (id : CmdId) (epoll force : Bool) :
    Keeps (LaterStamp sys) (cmdStop sys id epoll force) := by
  have hstart : ∀ j, .lastwrite j ∉ startParts id := by simp [startParts]
  have hterm : Keeps (LaterStamp sys) (cmdTerminate sys id epoll) := fun w u w' h =>
    Modifies.laterStamp (cmdTerminate_modifies sys epoll subset_rfl h) hstart
  have hrefused : Keeps (LaterStamp sys) (cmdStopRefused id force) := fun w u w' h =>
    Modifies.laterStamp (S := ∅) (cmdStopRefused_modifies id force h) (by simp)
  exact Keeps.bind Keeps.get fun w => Keeps.ite (fun _ => Keeps.pure _) fun _ =>
    Keeps.bind hrefused fun b => Keeps.ite (fun _ => Keeps.pure _) fun _ =>
    Keeps.bind (Keeps.bind (cmdSendStopstr_later id) fun _ => hterm) fun _ => Keeps.pure _

lemma nedHdlr_later (r : TtyRef) (mask : Mask) : Keeps (LaterStamp sys) (nedHdlr sys r mask) := by
  have hstart (id : CmdId) : Keeps (LaterStamp sys) (cmdStart sys id (.fin 0)) := fun w b w' h =>
    Modifies.laterStamp (cmdStart_modifies _ subset_rfl h) (by simp [startParts])
  cases r with
  | mon => exact Keeps.pure _
  | cmd id => exact Keeps.pure _
  | clt id => cases mask <;>
      first | exact Keeps.discard (hstart id) | exact Keeps.discard (cmdStop_later id _ _)
  | bcst => cases mask <;> refine Keeps.bind Keeps.get fun w => Keeps.forM (fun id => ?_) _ <;>
      first | exact Keeps.discard (hstart id) | exact Keeps.discard (cmdStop_later id _ _)

lemma ttyNotifyEvent_later (r : TtyRef) (rd : Read) : Keeps (LaterStamp sys) (ttyNotifyEvent sys r rd) := by
  refine Keeps.bind Keeps.get fun w => Keeps.bind (Keeps.require _ _) fun _ => ?_
  split
  · exact Keeps.throw _
  · refine Keeps.bind (Keeps.modify fun w => ⟨le_rfl, fun _ => .inl rfl⟩) fun _ =>
      Keeps.bind (Keeps.modify fun w => ⟨le_rfl, fun _ => .inl rfl⟩) fun _ => nedHdlr_later r _

/-! ## Steps -/

lemma PaceInv.steady (h : PaceInv sys w) (hm : Modifies S w w')
    (hS : ∀ p ∈ S, p.ofPace = false ∧ ∀ id, p ≠ .lastwrite id) : PaceInv sys w' :=
  h.later (hm.mono fun p hp => (hS p hp).1)
    (hm.laterStamp fun id hp => (hS _ hp).2 id rfl)

lemma startParts_steady {id : CmdId} {p : Part} (hp : p ∈ startParts id) :
    p.ofPace = false ∧ ∀ j, p ≠ .lastwrite j := by
  rcases hp with rfl | rfl | rfl | rfl | rfl <;> simp [Part.ofPace]

lemma ttyParts_steady {r : TtyRef} {p : Part} (hp : p ∈ ttyParts r) :
    p.ofPace = false ∧ ∀ j, p ≠ .lastwrite j := by
  rcases hp with rfl | rfl | rfl | rfl | rfl | rfl | rfl | rfl <;> simp [Part.ofPace]

lemma outputParts_steady {id : CmdId} {p : Part} (hp : p ∈ outputParts id) :
    p.ofPace = false ∧ ∀ j, p ≠ .lastwrite j := by
  rcases hp with rfl | rfl | rfl | rfl | rfl | rfl | rfl | rfl <;> simp [Part.ofPace]

lemma procParts_unpaced (id : CmdId) : procParts id ⊆ unpacedParts := by
  rintro p (hp | rfl | rfl)
  · exact (startParts_steady hp).1
  all_goals rfl

lemma PaceInv.notAdded (h : PaceInv sys w) (ht : TableInv w) (hn : NotAdded w w') :
    PaceInv sys w' := by
  have hm := hn.modifies
  refine h.change hm.calls hn.brk (hm.relayTimes_eq (by simp [cmdParts, ttyParts])) fun j hj => ?_
  rw [hm.cmds_eq (by simp [cmdParts, ttyParts])] at hj
  have hne : j ≠ w.brk := (ht.lt_brk j hj).ne
  refine .inr ⟨hj, hm.delay_eq (by simp [cmdParts, ttyParts, hne]), .inl ?_⟩
  exact hm.same (.lastwrite j) (by simp [cmdParts, ttyParts, hne])

lemma PaceInv.added {id : CmdId} {spec : CmdSpec} (h : PaceInv sys w) (ht : TableInv w)
    (ha : Added w w' id spec) : PaceInv sys w' := by
  have hm := ha.modifies
  refine h.change hm.calls (ha.brk ▸ Nat.le_succ _)
    (hm.relayTimes_eq (by simp [addParts, cmdParts, ttyParts])) fun j hj => ?_
  rw [ha.table, List.mem_append, List.mem_singleton] at hj
  rcases hj with hj | rfl
  · have hne : j ≠ id := ha.id_eq ▸ (ht.lt_brk j hj).ne
    refine .inr ⟨hj, hm.delay_eq (by simp [addParts, cmdParts, ttyParts, hne]), .inl ?_⟩
    exact hm.same (.lastwrite j) (by simp [addParts, cmdParts, ttyParts, hne])
  · exact .inl (h.fresh j ha.id_eq.ge)

lemma PaceInv.removed {id : CmdId} (h : PaceInv sys w) (hr : Removed w w' id) : PaceInv sys w' := by
  have hm := hr.modifies
  refine h.change hm.calls
    (hm.brk_eq (by simp [removeParts, cleanupParts, procParts, startParts, cmdParts, ttyParts])).ge
    (hm.relayTimes_eq (by simp [removeParts, cleanupParts, procParts, startParts, cmdParts, ttyParts]))
    fun j hj => ?_
  rw [hr.table, List.mem_filter, decide_eq_true_eq] at hj
  refine .inr ⟨hj.1, hm.delay_eq ?_, .inl (hm.same (.lastwrite j) ?_)⟩ <;>
    simp [removeParts, cleanupParts, procParts, startParts, cmdParts, ttyParts, hj.2]

lemma PaceInv.cltttyEvent {id : CmdId} {rd : Read} {u : Unit} (h : PaceInv sys w)
    (ht : TableInv w) (hid : id ∈ w.gbls.cmds) (hh : cmdCltttyEvent sys id rd w = .ok u w') :
    PaceInv sys w' := by
  rcases cmdCltttyEvent_cases hh with ⟨-, rfl⟩ | ⟨-, n, c, w₁, hread, hrest⟩
  · exact h
  have hread₁ : PaceInv sys w₁ ∧ ∀ hn : n ≠ 0,
      tooEarly (sys.clock w.kern.calls) (some (w.heap id).lastwrite) (w.heap id).delay = false ∧
      Modifies {.nread (.clt id), .oRead (.clt id)} w w₁ := by
    cases hread with
    | delayed hearly hn hm => exact ⟨h.steady hm (by simp), fun h0 => (h0 hn).elim⟩
    | eof hearly hn hdfd hrd hm => exact ⟨h.steady hm (by simp), fun h0 => (h0 hn).elim⟩
    | failed hearly hn hfail hm hcalls =>
      exact ⟨h.steady hm (by simp), fun _ => ⟨hearly, hm.mono (Set.empty_subset _)⟩⟩
    | got p rest hearly hn hdfd hrd hq hnread hm htrace hcalls =>
      exact ⟨h.steady hm (by simp [Part.ofPace]), fun _ => ⟨hearly, hm⟩⟩
  obtain ⟨h₁, hgo⟩ := hread₁
  rcases hrest with ⟨-, rfl⟩ | ⟨hn, w₂, b, hrelay, hstop⟩
  · exact h₁
  obtain ⟨hearly, hm⟩ := hgo hn
  have h₂ : PaceInv sys w₂ := by
    refine h₁.relayed (hm.brk_eq (by simp) ▸ ht.lt_brk id hid) (sys.clock_mono hm.calls) ?_ hrelay
    intro _
    rw [hm.relayTimes_eq (by simp), hm.delay_eq (by simp)]
    -- the last write of the relay is no younger than `lastwrite`, which was tested
    cases htimes : (relayTimes id w.trace).head? with
    | none => rfl
    | some t =>
      have hle := (h.last id hid t htimes).1
      exact tooEarly_mono hle hearly
  exact h₂.later (cmdStop_modifies sys _ _ (procParts_unpaced id) hstop) (cmdStop_later id _ _ hstop)

lemma PaceInv.bcstttyEvent {x : Answer} {u : Unit} (h : PaceInv sys w) (ht : TableInv w)
    (hok : BroadcastsOnPace sys w (.hdlr (.dom .bcst) x))
    (hh : bcstttyEvent sys x.rd w = .ok u w') : PaceInv sys w' := by
  rcases bcstttyEvent_cases hh with ⟨-, rfl⟩ | ⟨hopen, s, n, c, w₁, hs, -, hread, hrest⟩
  · exact h
  have hread₁ : PaceInv sys w₁ ∧ ∀ hn : n ≠ 0,
      tooEarly (sys.clock w.kern.calls) (some (w.heap s).lastwrite) (w.heap s).delay = false ∧
      ¬(x.rd = .eof ∧ (w.ttys .bcst).dfd ≠ none) ∧ Modifies {.nread .bcst, .oRead .bcst} w w₁ := by
    cases hread with
    | delayed hearly hn hm => exact ⟨h.steady hm (by simp), fun h0 => (h0 hn).elim⟩
    | eof hearly hn hdfd hrd hm => exact ⟨h.steady hm (by simp), fun h0 => (h0 hn).elim⟩
    | failed hearly hn hfail hm hcalls =>
      refine ⟨h.steady hm (by simp), fun _ => ⟨hearly, ?_, hm.mono (Set.empty_subset _)⟩⟩
      rintro ⟨hrd, hdfd⟩
      simp [ReadFails, hrd, hdfd] at hfail
    | got p rest hearly hn hdfd hrd hq hnread hm htrace hcalls =>
      exact ⟨h.steady hm (by simp [Part.ofPace]), fun _ => ⟨hearly, by simp [hrd], hm⟩⟩
  obtain ⟨h₁, hgo⟩ := hread₁
  rcases hrest with ⟨-, rfl⟩ | ⟨hn, hrelay⟩
  · exact h₁
  obtain ⟨hearly, heof, hm⟩ := hgo hn
  have hcmds : w₁.gbls.cmds = w.gbls.cmds := hm.cmds_eq (by simp)
  replace hrelay := get_bind_eq_ok.mp hrelay
  rw [hcmds] at hrelay
  refine h₁.forM_relayed ht.nodup (fun id hid => ?_) (sys.clock_mono hm.calls) (fun id hid h0 => ?_)
    hrelay
  · rw [hm.brk_eq (by simp)]
    exact ht.lt_brk id hid
  · rw [hm.opens_eq (by simp)] at h0
    rw [hm.relayTimes_eq (by simp), hm.delay_eq (by simp)]
    exact hok hopen s hs hearly heof id hid h0

theorem PaceInv.handled {s : Source} {x : Answer} (h : PaceInv sys w) (ht : TableInv w)
    (hok : BroadcastsOnPace sys w (.hdlr s x)) (hh : Handled sys s x w w') : PaceInv sys w' := by
  cases hh with
  | bcst hs hb =>
    subst hs
    exact h.bcstttyEvent ht hok hb
  | clt id hs hid hc => exact h.cltttyEvent ht hid hc
  | cmd id hs hid hc =>
    exact h.steady (Keeps.discard (cmdttyProcessOutput_modifies sys _ subset_rfl) hc)
      fun p hp => outputParts_steady hp
  | notify r hs hid hn =>
    refine h.later (ttyNotifyEvent_modifies sys r ?_ hn) (ttyNotifyEvent_later r _ hn)
    rintro p ((rfl | rfl) | hp)
    · rfl
    · rfl
    · cases r with
      | bcst =>
        obtain ⟨id, hp⟩ := hp
        exact procParts_unpaced id hp
      | clt id => exact procParts_unpaced id hp
      | mon => exact hp.elim
      | cmd id => exact hp.elim
  | pid id fd hs hid hp =>
    obtain ⟨w₁, hreap, ⟨-, hr⟩ | ⟨-, hr⟩⟩ := cmdPidEvent_cases hid hp
    · exact h.removed (.of_reaped hreap (monDelFound_removed hr))
    · exact h.steady (trans_of (Modifies (startParts id)) (cmdPidReap_modifies subset_rfl hreap)
        (cmdPidRestart_modifies subset_rfl hr)) fun p hp => startParts_steady hp
  | del line name id hs hx hl hf hd => exact h.removed (monDelFound_removed hd)
  | add line cmdstr hs hx hl ha =>
    rcases monAdd_cases ha with hn | ⟨id, spec, w₁, ha, hreg⟩
    · exact h.notAdded ht hn
    · refine (h.added ht ha).steady (monAddRegister_modifies sys id Set.subset_union_left
        Set.subset_union_right hreg) ?_
      rintro p (hp | hp | rfl)
      · exact startParts_steady hp
      · exact ttyParts_steady hp
      · simp [Part.ofPace]
  | drain line args hs hx hl hd =>
    refine h.steady (monDrain_modifies sys (S := {p | ∃ id, p ∈ outputParts id})
      (fun id p hp => ⟨id, hp⟩) hd) ?_
    rintro p ⟨id, hp⟩
    exact outputParts_steady hp
  | idleExit line args hs hx hl hi =>
    refine h.steady (monIdleExit_modifies sys (S := idleExitParts) (by simp [idleExitParts])
      (by simp [idleExitParts]) (by simp [idleExitParts]) hi) ?_
    rintro p ((rfl | rfl) | ⟨id, rfl⟩) <;> simp [Part.ofPace]
  | toggle line m args g hs hx hl hw hcore hrestart hlb =>
    rw [hw]
    refine h.change le_rfl le_rfl (fun _ => rfl) fun id hid => .inr ⟨?_, rfl, .inl rfl⟩
    have hcmds : g.cmds = w.gbls.cmds := (congrArg Globals.cmds hcore :)
    rwa [hcmds] at hid
  | idle hs hw =>
    rw [hw]
    exact h

/-- In a run whose broadcasts go ahead only when every command they write to is rested, the bytes
the relay writes to a command are the command's delay apart. -/
theorem relay_paced {id : CmdId} {d : ℚ} (hw : Reachable sys (BroadcastsOnPace sys) w)
    (hid : id ∈ w.gbls.cmds) (hd : (w.heap id).delay = .fin d) (hpos : 0 < d) :
    Spaced d (relayTimes id w.trace) := by
  have h : PaceInv sys w := by
    refine reachable_induction ?_ ?_ (fun w w' ht h hn => h.notAdded ht hn)
      (fun w w' id spec ht h ha => h.added ht ha) ?_
      (fun w s x w' _ ht h hok hh => h.handled ht hok hh) hw
    · exact fun o => ⟨fun _ _ => rfl, by simp [boot], by simp [boot]⟩
    · intro w w' _ h hm
      refine h.steady hm ?_
      rintro p ((hp | hp) | rfl)
      · exact ttyParts_steady hp
      · exact ttyParts_steady hp
      · simp [Part.ofPace]
    · intro w e _ h _
      refine h.steady (apply_modifies w e) fun p hp => ?_
      cases e <;> rw [hp] <;> simp [Part.ofPace]
  exact h.spaced id hid d hd hpos

/-- Two bytes on the broadcast tty of two commands with open ttys, and one from a client between them. -/
theorem relay_paced_typed : ∃ w, Reachable quietSys (BroadcastsOnPace quietSys) w ∧
    (relayTimes 0 w.trace).length = 2 ∧ Spaced 2 (relayTimes 0 w.trace) ∧
    (relayTimes 1 w.trace).length = 3 ∧ Spaced 1 (relayTimes 1 w.trace) := by
  obtain ⟨w, hw, hp⟩ := exists_reachable quietSys (BroadcastsOnPace quietSys)
    { specs := [bytes "a,,,2,x", bytes "b,,,1,y"], cwd := bytes "/h" }
    [.env (.opened (.cmd 0)), .hdlr (.ifd (.cmd 0)) {}, .env (.opened (.cmd 1)), .hdlr (.ifd (.cmd 1)) {},
      .env (.typed .bcst 107 9), .hdlr (.dom .bcst) {}, .env (.typed (.clt 1) 108 9),
      .hdlr (.dom (.clt 1)) {}, .env (.typed .bcst 109 9), .hdlr (.dom .bcst) {}]
    (fun w => decide ((relayTimes 0 w.trace).length = 2 ∧ (relayTimes 1 w.trace).length = 3 ∧
      0 ∈ w.gbls.cmds ∧ (w.heap 0).delay = .fin 2 ∧ 1 ∈ w.gbls.cmds ∧ (w.heap 1).delay = .fin 1))
    (by decide +kernel)
  obtain ⟨hlen₀, hlen₁, hid₀, hd₀, hid₁, hd₁⟩ := of_decide_eq_true hp
  exact ⟨w, hw, hlen₀, relay_paced hw hid₀ hd₀ two_pos, hlen₁, relay_paced hw hid₁ hd₁ one_pos⟩

/-- Two commands, of which the slower one has no process with an open tty. -/
def idleSlow : Options where
  specs := [bytes "a,,,9,x", bytes "b,,,5,y"]
  cwd := bytes "/h"
  pid := bytes "7"

theorem relay_not_always_paced :
    ¬∀ (sys : Sys) (w : World), Reachable sys (fun _ _ => True) w →
      ∀ id ∈ w.gbls.cmds, ∀ d, (w.heap id).delay = .fin d → 0 < d →
        Spaced d (relayTimes id w.trace) := by
  intro h
  obtain ⟨w, hw, hp⟩ := exists_reachable quietSys (fun _ _ => True) idleSlow
    [.env (.opened (.cmd 1)), .hdlr (.ifd (.cmd 1)) {}, .env (.typed .bcst 107 9),
      .env (.typed .bcst 108 9), .hdlr (.dom .bcst) {}, .hdlr (.dom .bcst) {}]
    (fun w => decide (1 ∈ w.gbls.cmds ∧ (w.heap 1).delay = .fin 5 ∧
      ¬(relayTimes 1 w.trace).IsChain fun later earlier => (5 : ℚ) ≤ later - earlier))
    (by decide +kernel)
  obtain ⟨hid, hd, hn⟩ := of_decide_eq_true hp
  exact hn (h quietSys w hw 1 hid 5 hd (by norm_num))

end Yar.Proofs
