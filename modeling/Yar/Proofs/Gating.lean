import Yar.Proofs.Commands

/-!
# Ready gating

The match of a command's output runs over a tty that outlives its processes. When every match
is completed by output of the current process alone, both gates open only for a process that
has sent the whole ready string.
-/

namespace Yar.Proofs

open Program Transition

/-- The process of the latest start of a command. -/
def lastStarted (id : CmdId) : List Obs → Option Pid
  | [] => none
  | .forked j p :: t => if j = id then some p else lastStarted id t
  | _ :: t => lastStarted id t

/-- What a process has written to the command's tty. -/
def emitted (w : World) (id : CmdId) (p : Pid) : CStr :=
  ((w.kern.ports (.cmd id)).hist.filter fun x => x.2 = p).map Prod.fst

/-- The current process of the command has sent the complete ready string. -/
def CurrentReady (w : World) (id : CmdId) : Prop :=
  ∃ p, lastStarted id w.trace = some p ∧ readyword w <:+: emitted w id p

/-- The matches completed by the first `n` waiting bytes are made of output of the current
process. -/
def OwnMatches (w : World) (id : CmdId) (n : Nat) : Prop :=
  Matcher.Owned (readyword w) (w.heap id).pid (w.heap id).readycnt
    (Port.seen (w.kern.ports (.cmd id))) ((w.kern.ports (.cmd id)).domq.take n)

instance (w : World) (id : CmdId) (n : Nat) : Decidable (OwnMatches w id n) :=
  inferInstanceAs (Decidable (Matcher.Owned ..))

def drains (x : Answer) : Bool :=
  match x.line.bind monLookup with
  | some (.monDrain, _) => true
  | _ => false

/-- No match is completed with output of an earlier process. -/
def OwnOutput (w : World) (e : Event) : Prop :=
  match e with
  | .hdlr (.dom (.cmd id)) x => x.rd = .ready → OwnMatches w id 1
  | .hdlr (.dom .mon) x => drains x = true → ∀ id ∈ w.gbls.cmds,
      OwnMatches w id (w.kern.ports (.cmd id)).domq.length
  | _ => True

instance (w : World) (e : Event) : Decidable (OwnOutput w e) :=
  match e with
  | .hdlr (.dom (.cmd id)) x => inferInstanceAs (Decidable (x.rd = .ready → OwnMatches w id 1))
  | .hdlr (.dom .mon) x => inferInstanceAs (Decidable (drains x = true → ∀ id ∈ w.gbls.cmds, _))
  | .env _ | .hdlr (.dom .bcst) _ | .hdlr (.dom (.clt _)) _ | .hdlr (.ifd _) _
  | .hdlr (.pidfd _ _) _ | .hdlr .sig _ | .hdlr .fs _ => .isTrue trivial

variable {sys : Sys} {w w' : World} {id j : CmdId} {S : Set Part}

lemma lastStarted_append {l t : List Obs} (id : CmdId) (hl : ∀ o ∈ l, obsPart o ≠ .oForked) :
    lastStarted id (l ++ t) = lastStarted id t := by
  induction l with
  | nil => rfl
  | cons o l ih =>
    have ih := ih fun o ho => hl o (List.mem_cons_of_mem _ ho)
    have ho := hl o List.mem_cons_self
    cases o <;> simp_all [lastStarted, obsPart]

/-! ## The invariant of one command -/

structure GateInv (w : World) (id : CmdId) : Prop where
  nread : (w.kern.ports (.cmd id)).nread ≤ (w.kern.ports (.cmd id)).hist.length
  part : (w.heap id).readycnt < (readyword w).length → Matcher.At (readyword w)
    (w.heap id).readycnt ((Port.seen (w.kern.ports (.cmd id))).map Prod.fst)
  full : w.gbls.readystrlen ≠ 0 → Matched w id →
    ∃ p, (w.heap id).pid = some p ∧ readyword w <:+: emitted w id p
  started : ∀ p ∈ (w.heap id).pid, lastStarted id w.trace = some p

lemma GateInv.not_stale (h : GateInv w id) (h0 : w.gbls.readystrlen ≠ 0) : ¬Stale w id := by
  rintro ⟨hpid, hm⟩
  obtain ⟨p, hp, -⟩ := h.full h0 hm
  rw [hpid] at hp
  cases hp

lemma GateInv.currentReady (h : GateInv w id) (h0 : w.gbls.readystrlen ≠ 0)
    (hready : cmdIsReady w.gbls (w.heap id) = true) : CurrentReady w id := by
  simp only [cmdIsReady, Bool.or_eq_true, beq_iff_eq, h0, false_or] at hready
  obtain ⟨p, hp, hinfix⟩ := h.full h0 hready.symm
  exact ⟨p, h.started p hp, hinfix⟩

/-- The parts the invariant looks at. -/
def gateParts (id : CmdId) : Set Part :=
  {.options, .nread (.cmd id), .hist (.cmd id), .ready id, .proc id, .oForked}

lemma gateParts_subset : gateParts id ⊆ watchParts id := by
  rintro p (rfl | rfl | rfl | rfl | rfl | rfl) <;> simp [watchParts]

lemma GateInv.congr (h : GateInv w id) (hstr : w'.gbls.readystr = w.gbls.readystr)
    (hn : (w'.kern.ports (.cmd id)).nread = (w.kern.ports (.cmd id)).nread)
    (hh : (w'.kern.ports (.cmd id)).hist = (w.kern.ports (.cmd id)).hist)
    (hready : (w'.heap id).readycnt = (w.heap id).readycnt)
    (hpid : (w'.heap id).pid = (w.heap id).pid)
    (hl : lastStarted id w'.trace = lastStarted id w.trace) : GateInv w' id := by
  have hword : readyword w' = readyword w := by rw [readyword, hstr, readyword]
  have hlen := readystrlen_eq hstr
  have hseen : Port.seen (w'.kern.ports (.cmd id)) = Port.seen (w.kern.ports (.cmd id)) := by
    rw [Port.seen, hn, hh, Port.seen]
  have hemit (p : Pid) : emitted w' id p = emitted w id p := by rw [emitted, hh, emitted]
  refine ⟨by rw [hn, hh]; exact h.nread, ?_, ?_, by rw [hpid, hl]; exact h.started⟩
  · rw [hready, hword, hseen]
    exact h.part
  · simp only [hlen, Matched, hready, hpid, hword, hemit]
    exact h.full

lemma GateInv.frame (h : GateInv w id) (hm : Modifies S w w') (hS : ∀ p ∈ gateParts id, p ∉ S) :
    GateInv w' id := by
  obtain ⟨l, hl, hlS⟩ := hm.trace
  refine h.congr (hm.readystr_eq (hS _ (by simp [gateParts])))
    (hm.same _ (hS (.nread (.cmd id)) (by simp [gateParts])))
    (hm.same _ (hS (.hist (.cmd id)) (by simp [gateParts])))
    (hm.readycnt_eq (hS _ (by simp [gateParts]))) (hm.pid_eq (hS _ (by simp [gateParts]))) ?_
  rw [hl, lastStarted_append]
  intro o ho heq
  exact hS .oForked (by simp [gateParts]) (heq ▸ hlS o ho)

/-! ## Start and stop -/

lemma Forked.gateInv {d : Double} (hf : Forked sys w w' j d) (h : GateInv w id) : GateInv w' id := by
  by_cases hj : id = j
  · subst hj
    have hword : readyword w' = readyword w := by
      rw [readyword, hf.modifies.readystr_eq (by simp [forkParts]), readyword]
    have hn := hf.modifies.same (.nread (.cmd id)) (by simp [forkParts])
    have hh := hf.modifies.same (.hist (.cmd id)) (by simp [forkParts])
    simp only [SameOn] at hn hh
    refine ⟨by rw [hn, hh]; exact h.nread, fun _ => ?_, fun h0 hm => ?_, ?_⟩
    · rw [hf.readycnt]
      exact Matcher.At.zero _ _
    · rw [Matched, hf.readycnt] at hm
      exact (h0 hm.symm).elim
    · intro p hp
      rw [hf.pid] at hp
      rw [hf.trace, lastStarted, if_pos rfl]
      exact hp
  · refine h.congr (hf.modifies.readystr_eq (by simp [forkParts]))
      (hf.modifies.same (.nread (.cmd id)) (by simp [forkParts]))
      (hf.modifies.same (.hist (.cmd id)) (by simp [forkParts]))
      (hf.modifies.readycnt_eq (by simp [forkParts, hj]))
      (hf.modifies.pid_eq (by simp [forkParts, hj])) ?_
    rw [hf.trace, lastStarted, if_neg (Ne.symm hj)]

/-- A process that is gone leaves no complete match behind. -/
lemma Stopped.gateInv (hs : Stopped w w' id) (h : GateInv w id) : GateInv w' id := by
  have hm := hs.modifies
  have hword : readyword w' = readyword w := by
    rw [readyword, hm.readystr_eq (by simp), readyword]
  have hn := hm.same (.nread (.cmd id)) (by simp)
  have hh := hm.same (.hist (.cmd id)) (by simp)
  simp only [SameOn] at hn hh
  refine ⟨by rw [hn, hh]; exact h.nread, ?_, fun h0 hmatch => (hs.unmatched h0 hmatch).elim,
    by simp [hs.pid]⟩
  rcases hs.readycnt with hready | hready
  · rw [hready]
    exact fun _ => Matcher.At.zero _ _
  · rw [hready, hword, Port.seen, hn, hh]
    exact h.part

lemma Added.gateInv {spec : CmdSpec} (ha : Added w w' id spec) : GateInv w' id := by
  have hport := ha.created.2.port
  refine ⟨by simp [hport], fun _ => ?_, fun h0 hm => ?_, by simp [ha.init.pid]⟩
  · rw [ha.init.readycnt]
    exact Matcher.At.zero _ _
  · rw [Matched, ha.init.readycnt] at hm
    exact (h0 hm.symm).elim

lemma gateInv_cmdInv : CmdInv GateInv where
  frame h hm hS := h.frame hm fun p hp => hS p (gateParts_subset hp)
  forked hf h := hf.gateInv h
  stopped hs h := hs.gateInv h
  added ha := ha.gateInv
  toggled g hcore h := by
    refine h.congr ?_ rfl rfl rfl rfl rfl
    exact (congrArg Globals.readystr hcore :)

/-! ## Output -/

/-- A byte of output that is read, with the matches among the first `n + 1` waiting bytes owned
by the current process. -/
lemma OutputByte.gateInv {c : Byte} {p : Pid} {rest : List (Byte × Pid)} {w₁ : World} {n : Nat}
    (ho : OutputByte sys w id c p rest w₁ w') (h : GateInv w id) (hown : OwnMatches w id (n + 1)) :
    GateInv w' id ∧ OwnMatches w' id n := by
  have hm : Modifies (outputParts id) w w' := ho.modifies_all
  obtain ⟨hle, htake, hdrop⟩ := seen_succ ho.queue
  have hword : readyword w' = readyword w := by
    rw [readyword, hm.readystr_eq (by simp [outputParts]), readyword]
  have hlen := readyword_length w
  have hlen' : w'.gbls.readystrlen = w.gbls.readystrlen :=
    readystrlen_eq (hm.readystr_eq (by simp [outputParts]))
  have hnread : (w'.kern.ports (.cmd id)).nread = (w.kern.ports (.cmd id)).nread + 1 := by
    rw [← ho.nread]
    exact ho.modifies_rest.same (.nread (.cmd id)) (by simp)
  have hhist : (w'.kern.ports (.cmd id)).hist = (w.kern.ports (.cmd id)).hist :=
    hm.same (.hist (.cmd id)) (by simp [outputParts])
  have hready : (w'.heap id).readycnt = Matcher.step (readyword w) (w.heap id).readycnt c := by
    rw [← ho.readycnt]
    exact ho.modifies_rest.readycnt_eq (by simp)
  have hpid : (w'.heap id).pid = (w.heap id).pid := hm.pid_eq (by simp [outputParts])
  have hseen : Port.seen (w'.kern.ports (.cmd id)) =
      Port.seen (w.kern.ports (.cmd id)) ++ [(c, p)] := by
    rw [Port.seen, hnread, hhist, htake]
  have hqueue : (w'.kern.ports (.cmd id)).domq = rest := by rw [Port.domq, hnread, hhist, hdrop]
  rw [OwnMatches, ho.queue, List.take_succ_cons] at hown
  refine ⟨⟨?_, ?_, ?_, ?_⟩, ?_⟩
  · rw [hnread, hhist]
    exact hle
  · rw [hword, hready, hseen, List.map_append]
    intro hlt
    by_cases hn : (w.heap id).readycnt < (readyword w).length
    · exact (h.part hn).step hn
    · rw [Matcher.step, if_neg hn] at hlt
      exact (hn hlt).elim
  · rw [hlen', Matched, hlen', hword, hready, hpid, ← hlen]
    intro h0 hmatch
    have hemit (q : Pid) : emitted w' id q = emitted w id q := by rw [emitted, hhist, emitted]
    simp only [hemit]
    by_cases hn : (w.heap id).readycnt < (readyword w).length
    · obtain ⟨hp, hinfix⟩ := hown.infix (h.part hn) hn hmatch
      refine ⟨p, hp, hinfix.trans ?_⟩
      rw [← htake]
      exact ((List.take_prefix _ _).isInfix.filter _).map _
    · rw [Matcher.step, if_neg hn] at hmatch
      exact h.full (hlen ▸ h0) (hmatch.trans hlen)
  · obtain ⟨l, hl, hlS⟩ := hm.trace
    rw [hpid, hl, lastStarted_append]
    · exact h.started
    · intro o ho heq
      simpa [heq, outputParts] using hlS o ho
  · rw [OwnMatches, hword, hpid, hready, hseen, hqueue]
    exact hown.2

lemma OwnMatches.frame {n : Nat} (h : OwnMatches w id n) (hm : Modifies S w w')
    (hS : ∀ p ∈ gateParts id, p ∉ S) : OwnMatches w' id n := by
  have hn := hm.same _ (hS (.nread (.cmd id)) (by simp [gateParts]))
  have hh := hm.same _ (hS (.hist (.cmd id)) (by simp [gateParts]))
  simp only [SameOn] at hn hh
  rw [OwnMatches, readyword, hm.readystr_eq (hS _ (by simp [gateParts])),
    hm.pid_eq (hS _ (by simp [gateParts])), hm.readycnt_eq (hS _ (by simp [gateParts])),
    Port.seen, Port.domq, hn, hh]
  exact h

lemma cmdttyProcessOutput_gateInv {rd : Read} {u : Int}
    (hp : cmdttyProcessOutput sys j rd w = .ok u w') (h : GateInv w id)
    (hown : rd = .ready → id = j → OwnMatches w id 1) : GateInv w' id := by
  by_cases hj : id = j
  · subst hj
    rcases cmdttyProcessOutput_cases hp with ⟨-, hm⟩ | ⟨hrd, c, p, rest, w₁, ho⟩
    · exact h.frame hm (by simp)
    · exact (ho.gateInv h (hown hrd rfl)).1
  · exact h.frame (cmdttyProcessOutput_modifies sys rd subset_rfl hp)
      (by simp [gateParts, outputParts, hj])

/-- All that waits may be read. -/
def Drainable (w : World) (id : CmdId) : Prop :=
  GateInv w id ∧ OwnMatches w id (w.kern.ports (.cmd id)).domq.length

lemma Drainable.frame (h : Drainable w id) (hm : Modifies S w w')
    (hS : ∀ p ∈ gateParts id, p ∉ S) : Drainable w' id := by
  have hn := hm.same _ (hS (.nread (.cmd id)) (by simp [gateParts]))
  have hh := hm.same _ (hS (.hist (.cmd id)) (by simp [gateParts]))
  simp only [SameOn] at hn hh
  refine ⟨h.1.frame hm hS, ?_⟩
  rw [Port.domq, hn, hh]
  exact h.2.frame hm hS

lemma cmdttyDrain_drainable : Preserves (fun w => Drainable w id) (cmdttyDrain sys j) := by
  by_cases hj : id = j
  · subst hj
    refine Keeps.bind Keeps.get fun _ => Keeps.forM (fun _ => Keeps.discard ?_) _
    intro w n w' hp h
    rcases cmdttyProcessOutput_cases hp with ⟨-, hm⟩ | ⟨-, c, p, rest, w₁, ho⟩
    · exact h.frame hm (by simp)
    · have hown := h.2
      rw [ho.queue, List.length_cons] at hown
      obtain ⟨h', hown'⟩ := ho.gateInv h.1 hown
      have hqueue : (w'.kern.ports (.cmd id)).domq = rest := by
        have hhist := ho.modifies.same (.hist (.cmd id)) (by simp)
        have hn := ho.modifies_rest.same (.nread (.cmd id)) (by simp)
        have hh := ho.modifies_rest.same (.hist (.cmd id)) (by simp)
        simp only [SameOn] at hhist hn hh
        rw [Port.domq, hn, hh, hhist, ho.nread]
        exact (seen_succ ho.queue).2.2
      exact ⟨h', by rwa [hqueue]⟩
  · intro w u w' hd h
    exact h.frame (cmdttyDrain_modifies sys subset_rfl hd) (by simp [gateParts, outputParts, hj])

lemma monDrain_drainable : Preserves (fun w => Drainable w id) (monDrain sys) := by
  refine Keeps.bind Keeps.get fun _ => Keeps.forM (fun k => ?_) _
  refine Keeps.bind cmdttyDrain_drainable fun _ w u w' hupd h => ?_
  have hm : Modifies {.ring k} w w' := updRing_modifies
    (f := fun this => { this with bufstart := 0, bufn := 0 }) (by simp) (fun _ => rfl)
    (fun _ => rfl) (fun _ => rfl) (fun _ => rfl) (fun _ => rfl) hupd
  exact h.frame hm (by simp [gateParts])

/-! ## Handlers -/

/-- The invariant of every command of the table. -/
def Gated (w : World) : Prop := ∀ id ∈ w.gbls.cmds, GateInv w id

lemma Handled.gated {s : Source} {x : Answer} (ht : TableInv w) (h : Gated w)
    (hok : OwnOutput w (.hdlr s x)) (hh : Handled sys s x w w') : Gated w' := by
  refine gateInv_cmdInv.handled ht h ?_ ?_ hh
  · intro j u hs _ hp id hid
    refine cmdttyProcessOutput_gateInv hp (h id hid) fun hrd hj => ?_
    subst hs hj
    exact hok hrd
  · intro line args hs hx hl hd id hid
    subst hs
    have hdrain : Drainable w id := ⟨h id hid, hok (by simp [drains, hx, hl]) id hid⟩
    exact (monDrain_drainable hd hdrain).1

lemma GateInv.typed (h : GateInv w id) (r : TtyRef) (c : Byte) (p : Pid) :
    GateInv ((Env.typed r c p).apply w) id := by
  have hm := apply_modifies w (.typed r c p)
  by_cases hr : r = .cmd id
  · subst hr
    obtain ⟨w', hw'⟩ : ∃ w', (Env.typed (.cmd id) c p).apply w = w' := ⟨_, rfl⟩
    have hport : w'.kern.ports (.cmd id) =
        { w.kern.ports (.cmd id) with hist := (w.kern.ports (.cmd id)).hist ++ [(c, p)] } := by
      rw [← hw']
      simp [Env.apply, World.updPort]
    rw [hw'] at hm ⊢
    have hstr := hm.readystr_eq (by simp [envParts])
    have hword : readyword w' = readyword w := by rw [readyword, hstr, readyword]
    obtain ⟨l, hl, hlS⟩ := hm.trace
    refine ⟨?_, ?_, ?_, ?_⟩
    · rw [hport, List.length_append]
      exact h.nread.trans (Nat.le_add_right _ _)
    · rw [hword, hm.readycnt_eq (by simp [envParts]), Port.seen, hport,
        List.take_append_of_le_length h.nread]
      exact h.part
    · simp only [readystrlen_eq hstr, Matched, hm.readycnt_eq (Set.notMem_singleton_iff.mpr (by simp)
        : Part.ready id ∉ envParts (.typed (.cmd id) c p)), hword]
      intro h0 hmatch
      obtain ⟨q, hq, hinfix⟩ := h.full h0 hmatch
      refine ⟨q, by rw [hm.pid_eq (by simp [envParts]), hq], hinfix.trans ?_⟩
      rw [emitted, emitted, hport, List.filter_append, List.map_append]
      exact (List.prefix_append _ _).isInfix
    · rw [hm.pid_eq (by simp [envParts]), hl, lastStarted_append]
      · exact h.started
      · intro o ho heq
        simpa [heq, envParts] using hlS o ho
  · exact h.frame hm (by simp [gateParts, envParts, Ne.symm hr])

lemma reachable_gated (hw : Reachable sys OwnOutput w) : Gated w :=
  gateInv_cmdInv.reachable (fun _ r c p _ h => h.typed r c p)
    (fun _ _ _ _ ht h hok hh => Handled.gated ht h hok hh) hw

lemma Gated.noStale {s : Source} {x : Answer} (h : Gated w) (hh : Handled sys s x w w') :
    NoStale w (.hdlr s x) := by
  refine fun h0 => ⟨fun id hid => (h id ?_).not_stale h0, fun id hid => (h id ?_).not_stale h0⟩
  · cases hh with
    | notify r hs hmem hned =>
      subst hs
      cases r with
      | bcst =>
        simp only [starts] at hid
        split at hid
        · exact hid
        · cases hid
      | clt j =>
        simp only [starts] at hid
        split at hid
        · rw [List.mem_singleton.mp hid]
          exact hmem j (.inl rfl)
        · cases hid
      | mon => cases hid
      | cmd j => cases hid
    | idle hs => rcases hs with rfl | rfl | rfl <;> cases hid
    | _ => simp_all [starts]
  · exact hh.deletes_mem hid

/-- Without a stale match a run is one of those in which the count is right. -/
lemma reachable_noStale (hw : Reachable sys OwnOutput w) : Reachable sys NoStale w := by
  obtain ⟨o, hw⟩ := hw
  refine ⟨o, hw.mono fun w e w' hr hok h => ?_⟩
  cases e with
  | env e => exact fun _ => ⟨by simp [starts], by simp [deletes]⟩
  | hdlr s x => exact (reachable_gated ⟨o, hr⟩).noStale (hdlr_cases h)

/-! ## What a step relays -/

/-- The step relays bytes to commands with `P` only. -/
def Relays (P : CmdId → Prop) (w w' : World) : Prop :=
  ∃ l, w'.trace = l ++ w.trace ∧ ∀ id c t, .relay id c t ∈ l → P id

variable {P : CmdId → Prop}

instance : Std.Refl (Relays P) where
  refl _ := ⟨[], rfl, by simp⟩

instance : IsTrans World (Relays P) where
  trans w₁ w₂ w₃ h h' := by
    obtain ⟨l, hl, hP⟩ := h
    obtain ⟨l', hl', hP'⟩ := h'
    refine ⟨l' ++ l, by rw [hl', hl, List.append_assoc], fun id c t ho => ?_⟩
    rcases List.mem_append.mp ho with ho | ho
    · exact hP' id c t ho
    · exact hP id c t ho

lemma Modifies.relays (hm : Modifies S w w') (hS : .oRelay ∉ S) : Relays P w w' := by
  obtain ⟨l, hl, hlS⟩ := hm.trace
  exact ⟨l, hl, fun id c t ho => (hS (hlS _ ho)).elim⟩

lemma Relayed.relays {c : Byte} (h : Relayed sys id c w w') (hP : P id) : Relays P w w' := by
  obtain ⟨t, htrace, -⟩ := h.noted
  refine ⟨[.relay id c t, .write (.cmd id) [c]], htrace, fun j d t' ho => ?_⟩
  simp only [List.mem_cons, Obs.relay.injEq, reduceCtorEq, List.not_mem_nil, or_false] at ho
  exact ho.1 ▸ hP

/-- In a run whose matches are all completed by output of the current process, a byte is relayed
only to a command whose current process has sent the complete ready string. -/
theorem relay_gated (hw : Reachable sys OwnOutput w) (h0 : w.gbls.readystrlen ≠ 0) {e : Event}
    (h : Step sys w e w') : Relays (CurrentReady w) w w' := by
  have hgated := reachable_gated hw
  cases e with
  | env e =>
    rw [modify_eq_ok.mp h]
    exact (apply_modifies w e).relays (by cases e <;> simp [envParts])
  | hdlr s x =>
    have hh := hdlr_cases h
    by_cases hbcst : s = .dom .bcst
    · subst hbcst
      have hb : bcstttyEvent sys x.rd w = .ok () w' := h
      rcases bcstttyEvent_cases hb with ⟨-, hw'⟩ | ⟨hopen, s, n, c, w₁, -, -, hread, hrest⟩
      · rw [hw']
        exact refl_of _ w
      have hrelays₁ : Relays (CurrentReady w) w w₁ := hread.modifies.relays (by simp)
      rcases hrest with ⟨-, hw'⟩ | ⟨-, hrelay⟩
      · rwa [hw']
      · have hstr : w.gbls.readystr ≠ some [] := by
          intro hs
          simp [Globals.readystrlen, hs] at h0
        have hready := ((reachable_readyInv (reachable_noStale hw)).gate.mpr fun hs =>
          (hstr hs).elim).mp hopen
        replace hrelay := get_bind_eq_ok.mp hrelay
        rw [hread.modifies.cmds_eq (by simp)] at hrelay
        refine trans_of _ hrelays₁ ((Keeps.forM_mem fun id hid => ?_ : Keeps (Relays _) _) hrelay)
        exact fun _ _ _ hr => (cmdRelay_ok hr).relays ((hgated id hid).currentReady h0 (hready id hid))
    · by_cases hclt : ∃ id, s = .dom (.clt id)
      · obtain ⟨id, rfl⟩ := hclt
        obtain ⟨hid, hc⟩ := live_ok h
        rcases cmdCltttyEvent_cases hc with ⟨-, hw'⟩ | ⟨hready, n, c, w₁, hread, hrest⟩
        · rw [hw']
          exact refl_of _ w
        have hrelays₁ : Relays (CurrentReady w) w w₁ := hread.modifies.relays (by simp)
        rcases hrest with ⟨-, hw'⟩ | ⟨-, w₂, b, hrelay, hstop⟩
        · rwa [hw']
        · have hm : Modifies (procParts id) w₂ w' := cmdStop_modifies sys _ _ subset_rfl hstop
          exact trans_of _ hrelays₁ (trans_of _
            (hrelay.relays ((hgated id hid).currentReady h0 hready))
            (hm.relays (by simp [procParts, startParts])))
      · exact (hh.unrelayed (fun id hs => hclt ⟨id, hs⟩) hbcst).relays
          (by simp [unrelayedParts, Part.ofRelay])

theorem relay_gated_ready : ∃ w w', Reachable quietSys OwnOutput w ∧
    Step quietSys w (.hdlr (.dom (.clt 0)) {}) w' ∧ handed 0 w'.trace = bytes "x" ∧
    Relays (CurrentReady w) w w' := by
  obtain ⟨w, hw, hp⟩ := exists_reachable quietSys OwnOutput oneReady
    [.env (.opened (.clt 0)), .hdlr (.ifd (.clt 0)) {}, .env (.typed (.cmd 0) 107 0),
      .hdlr (.dom (.cmd 0)) {}, .env (.typed (.clt 0) 120 9)]
    (fun w => decide (w.gbls.readystrlen ≠ 0) && handles quietSys (.dom (.clt 0)) {}
      (fun w' => decide (handed 0 w'.trace = bytes "x")) w) (by decide +kernel)
  obtain ⟨h0, hp⟩ := Bool.and_eq_true_iff.mp hp
  obtain ⟨w', h, hp⟩ := exists_handled hp
  have hstep : Step quietSys w (.hdlr (.dom (.clt 0)) {}) w' := h
  exact ⟨w, w', hw, hstep, of_decide_eq_true hp, relay_gated hw (of_decide_eq_true h0) hstep⟩

/-- The process exits with the ready string still on its way, and the match is completed after
the restart. -/
theorem relay_not_always_gated :
    ¬∀ (sys : Sys) (w w' : World) (e : Event), Reachable sys (fun _ _ => True) w →
      w.gbls.readystrlen ≠ 0 → Step sys w e w' → Relays (CurrentReady w) w w' := by
  intro hall
  obtain ⟨w, hw, hp⟩ := exists_reachable quietSys (fun _ _ => True) oneReady
    [.env (.opened (.clt 0)), .hdlr (.ifd (.clt 0)) {}, .env (.typed (.cmd 0) 107 0),
      .env (.exited 0 0), .hdlr (.pidfd 0 0) {}, .hdlr (.dom (.cmd 0)) {},
      .env (.typed (.clt 0) 120 9)]
    (fun w => decide (w.gbls.readystrlen ≠ 0 ∧ readyword w = bytes "k" ∧
        lastStarted 0 w.trace = some 1 ∧ emitted w 0 1 = [] ∧ handed 0 w.trace = []) &&
      handles quietSys (.dom (.clt 0)) {} (fun w' => decide (handed 0 w'.trace = bytes "x")) w)
    (by decide +kernel)
  obtain ⟨hp, hp'⟩ := Bool.and_eq_true_iff.mp hp
  obtain ⟨h0, hword, hlast, hemit, hbefore⟩ := of_decide_eq_true hp
  obtain ⟨w', h, hp'⟩ := exists_handled hp'
  obtain ⟨l, hl, hready⟩ := hall quietSys w w' (.hdlr (.dom (.clt 0)) {}) hw h0 h
  have hafter := of_decide_eq_true hp'
  rw [hl, handed_append, hbefore] at hafter
  · cases hafter
  · intro c τ ho
    obtain ⟨p, hp, hinfix⟩ := hready 0 c τ ho
    obtain rfl := Option.some.inj (hlast.symm.trans hp)
    rw [hword, hemit] at hinfix
    cases List.infix_nil.mp hinfix

end Yar.Proofs
