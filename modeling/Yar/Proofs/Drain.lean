import Yar.Proofs.Modes

/-!
# Lines after a drain

`monDrain` sets the counters of each ring back itself, but for the overflow count. That is only right
again once a newline has been handled.
-/

namespace Yar.Proofs

open Program Transition

variable {sys : Sys} {w w' : World} {id : CmdId} {S : Set Part} {l t t₀ : List Obs}

/-! ## What has been observed since -/

/-- What has come on top of `t₀`. -/
def since (t₀ t : List Obs) : List Obs := t.take (t.length - t₀.length)

lemma since_self (t : List Obs) : since t t = [] := by
  rw [since, Nat.sub_self, List.take_zero]

lemma since_append (h : t₀ <:+ t) (l : List Obs) : since t₀ (l ++ t) = l ++ since t₀ t := by
  have hle := h.length_le
  rw [since, since, List.length_append, Nat.add_sub_assoc hle, List.take_length_add_append]

lemma since_append_self (h : t₀ <:+ t) : since t₀ t ++ t₀ = t := by
  obtain ⟨r, rfl⟩ := h
  rw [since_append (List.suffix_refl _), since_self, List.append_nil]

lemma Modifies.suffix (hm : Modifies S w w') (h : t₀ <:+ w.trace) : t₀ <:+ w'.trace := by
  obtain ⟨l, hl, -⟩ := hm.trace
  exact hl ▸ h.trans (List.suffix_append _ _)

lemma Modifies.since_eq (id : CmdId) (hm : Modifies S w w') (hS : .oOutput ∉ S) (h : t₀ <:+ w.trace) :
    pending id (since t₀ w'.trace) = pending id (since t₀ w.trace) ∧
      lineBlocks (since t₀ w'.trace) = lineBlocks (since t₀ w.trace) := by
  obtain ⟨l, hl, hlS⟩ := hm.trace
  have hno : ∀ j n c b, .output j n c b ∉ l := fun j n c b ho => hS (hlS _ ho)
  rw [hl, since_append h]
  exact ⟨pending_append hno, lineBlocks_append hno⟩

/-- What is handed over now is handed over since. -/
lemma bcstData_since_append {t' : List Obs} {d : CStr} (h : t₀ <:+ t) (h' : t₀ <:+ t')
    (hd : bcstData t' = bcstData t ++ d) : bcstData (since t₀ t') = bcstData (since t₀ t) ++ d := by
  have hsplit : bcstData t₀ ++ bcstData (since t₀ t') = bcstData t₀ ++ (bcstData (since t₀ t) ++ d) := by
    rw [← bcstData_append, since_append_self h', hd, ← List.append_assoc, ← bcstData_append,
      since_append_self h]
  exact List.append_cancel_left hsplit

/-- What has been put out since is the end of what has been put out. -/
lemma pending_since_suffix (id : CmdId) (h : t₀ <:+ t) :
    pending id (since t₀ t) <:+ relayedOutput id t := by
  refine (pending_suffix id _).trans ?_
  conv_rhs => rw [← since_append_self h]
  generalize since t₀ t = r
  induction r with
  | nil => exact List.nil_suffix
  | cons o r ih =>
    cases o with
    | output j n c b =>
      rw [List.cons_append, relayedOutput, relayedOutput]
      by_cases hj : j = id
      · rw [if_pos hj, if_pos hj]
        exact (List.suffix_append_inj_of_length_eq rfl).mpr ⟨ih, rfl⟩
      · rw [if_neg hj, if_neg hj]
        exact ih
    | _ => exact ih

lemma OutputByte.since_lines {c : Byte} {p : Pid} {rest : List (Byte × Pid)} {w₁ : World}
    (ho : OutputByte sys w id c p rest w₁ w') (h : t₀ <:+ w.trace) (j : CmdId) :
    (pending j (since t₀ w'.trace) = if id = j then
      if c = newline then [] else pending j (since t₀ w.trace) ++ [c] else pending j (since t₀ w.trace)) ∧
    lineBlocks (since t₀ w'.trace) = if c = newline then lineBlocks (since t₀ w.trace) ++
      ((if w.gbls.prefixbcst = true then (w.heap id).name ++ bytes ": " else []) ++
        (pending id (since t₀ w.trace) ++ [newline]).rtake cmdbufSize)
      else lineBlocks (since t₀ w.trace) := by
  have hsince : since t₀ w₁.trace = .output id (w.heap id).name c w.gbls.prefixbcst ::
      .read (.cmd id) c :: since t₀ w.trace := by
    rw [ho.trace]
    exact since_append h [_, _]
  have hsuffix : t₀ <:+ w₁.trace := ho.modifies.suffix h
  obtain ⟨hpending, hblocks⟩ := ho.modifies_rest.since_eq j (by simp) hsuffix
  rw [hpending, hblocks, hsince]
  exact ⟨rfl, rfl⟩

/-! ## The ring of a command -/

/-- The counters measure the line that has been begun since, but the overflow count may still count
rounds from before as long as no line has been completed. -/
structure LineSince (t₀ : List Obs) (w : World) (id : CmdId) : Prop extends RingInv w id where
  counts : ∃ k, Counts (w.heap id) (pending id (since t₀ w.trace)) k ∧ (k = 0 ∨ (w.heap id).bufstart = 0)

lemma LineSince.congr (h : LineSince t₀ w id) (hring : ringOf (w'.heap id) = ringOf (w.heap id))
    (hspec : cmdSpecOf (w'.heap id) = cmdSpecOf (w.heap id))
    (hout : relayedOutput id w'.trace = relayedOutput id w.trace)
    (hpending : pending id (since t₀ w'.trace) = pending id (since t₀ w.trace)) : LineSince t₀ w' id := by
  refine ⟨h.toRingInv.congr hring hspec hout, ?_⟩
  obtain ⟨k, hcounts, hk⟩ := h.counts
  simp only [ringOf, Prod.mk.injEq] at hring
  obtain ⟨-, hn, hstart, hof⟩ := hring
  refine ⟨k, ⟨?_, ?_⟩, hstart ▸ hk⟩
  · rw [hn, hstart, hpending]
    exact hcounts.span
  · rw [hof, hpending]
    exact hcounts.rounds

lemma LineSince.frame (h : LineSince t₀ w id) (hm : Modifies S w w') (hsuf : t₀ <:+ w.trace)
    (hr : .ring id ∉ S) (hs : .spec id ∉ S) (ho : .oOutput ∉ S) : LineSince t₀ w' id :=
  h.congr (hm.ring_eq _ hr) (hm.spec_eq _ hs) (hm.relayedOutput_eq ho) (hm.since_eq _ ho hsuf).1

/-- The next newline of the command finds no rounds counted that its line has not gone through. -/
def CountsLine (this : Cmd) : Prop := this.bufof = 0 ∨ cmdbufSize ≤ this.bufn + 1

instance (this : Cmd) : Decidable (CountsLine this) := inferInstanceAs (Decidable (_ ∨ _))

/-- Broadcasting is on and buffers lines, the monitor does not drain again, and a newline finds the
overflow count 0, unless the ring has been filled since the drain. -/
def RestartsLines (w : World) (e : Event) : Prop :=
  LineMode w e ∧ ∀ id ∈ w.gbls.cmds, Flushes w e id → CountsLine (w.heap id)

instance (w : World) (e : Event) : Decidable (RestartsLines w e) :=
  inferInstanceAs (Decidable (_ ∧ ∀ id ∈ w.gbls.cmds, _))

lemma OutputByte.lineSince {c : Byte} {p : Pid} {rest : List (Byte × Pid)} {w₁ : World}
    (ho : OutputByte sys w id c p rest w₁ w') (h : LineSince t₀ w id) (hsuf : t₀ <:+ w.trace)
    (hmode : bcstMode w = (true, true)) (hline : c = newline → CountsLine (w.heap id)) :
    LineSince t₀ w' id ∧ bcstData w'.trace = bcstData w.trace ++
      if c = newline then
        (if w.gbls.prefixbcst = true then (w.heap id).name ++ bytes ": " else []) ++
          (pending id (since t₀ w.trace) ++ [newline]).rtake cmdbufSize
      else [] := by
  have hring := ho.ringInv h.toRingInv
  have hpending := (ho.since_lines hsuf id).1
  rw [if_pos rfl] at hpending
  obtain ⟨k, hcounts, hk⟩ := h.counts
  have hright : c = newline → k = 0 ∨ cmdbufSize ≤ (pending id (since t₀ w.trace)).length + 1 := by
    intro hc
    have hspan := hcounts.span
    have hrounds := hcounts.rounds
    rcases hk with hk | hstart
    · exact .inl hk
    · rcases hline hc with hof | hfull
      · exact .inl (Nat.eq_zero_of_add_eq_zero_right (hrounds.symm.trans hof))
      · exact .inr (by omega)
  rcases ho.counts h.toRingInv (pending_since_suffix id hsuf) hcounts hmode hright with
    ⟨hc, hcounts, hdata⟩ | ⟨hc, hcounts, hstart, hdata⟩
  · rw [if_pos hc] at hpending ⊢
    exact ⟨⟨hring, 0, hpending ▸ hcounts, .inl rfl⟩, hdata⟩
  · rw [if_neg hc] at hpending ⊢
    rw [List.append_nil]
    exact ⟨⟨hring, k, hpending ▸ hcounts, hstart ▸ hk⟩, hdata⟩

/-! ## Runs from a drain on -/

structure SinceInv (t₀ : List Obs) (w : World) : Prop where
  table : TableInv w
  relayed : RelayedInv w
  suffix : t₀ <:+ w.trace
  cmds : ∀ id ∈ w.gbls.cmds, LineSince t₀ w id
  blocks : bcstData (since t₀ w.trace) = lineBlocks (since t₀ w.trace)

/-- Nothing is broadcast and no output handled. -/
lemma Modifies.bcstData_since (hm : Modifies S w w') (hb : .oWrite .bcst ∉ S) (h : t₀ <:+ w.trace) :
    bcstData (since t₀ w'.trace) = bcstData (since t₀ w.trace) := by
  obtain ⟨l, hl, hlS⟩ := hm.trace
  rw [hl, since_append h, bcstData_append, bcstData_eq_nil fun buf ho => hb (hlS _ ho), List.append_nil]

lemma TableAct.sinceInv (ha : TableAct w w') (h : SinceInv t₀ w) : SinceInv t₀ w' := by
  obtain ⟨S, hm, -, ho, -, hb⟩ := ha.modifies
  have hrelayed := ha.relayedInv h.table h.relayed
  refine ⟨ha.tableInv h.table, hrelayed, hm.suffix h.suffix,
    ha.forall_cmds h.table (fun id S hS hm hi => ?_) (fun id spec hadd => ?_) h.cmds, ?_⟩
  · exact hi.frame hm h.suffix (fun hp => hS _ hp rfl) (fun hp => hS _ hp rfl)
      fun hp => hS _ hp trivial
  · have hnone := (hrelayed.cmds id (by simp [hadd.table])).relayed
    rw [hadd.created.2.port, List.take_nil, List.map_nil] at hnone
    have hpending : pending id (since t₀ w'.trace) = [] :=
      List.suffix_nil.mp (hnone ▸ pending_since_suffix id (hm.suffix h.suffix))
    obtain ⟨hn, hstart, hof⟩ := hadd.init.ring
    exact ⟨hadd.ringInv, 0, ⟨by simp [hn, hstart, hpending], by simp [hof, hpending]⟩, .inl rfl⟩
  · rw [hm.bcstData_since hb h.suffix, (hm.since_eq 0 ho h.suffix).2]
    exact h.blocks

lemma OutputByte.sinceInv {c : Byte} {p : Pid} {rest : List (Byte × Pid)} {w₁ : World}
    (ho : OutputByte sys w id c p rest w₁ w') (hid : id ∈ w.gbls.cmds) (hmode : bcstMode w = (true, true))
    (hline : c = newline → CountsLine (w.heap id)) (h : SinceInv t₀ w) : SinceInv t₀ w' := by
  obtain ⟨hinv, hdata⟩ := ho.lineSince (h.cmds id hid) h.suffix hmode hline
  have hsuffix : t₀ <:+ w'.trace := ho.modifies_all.suffix h.suffix
  refine ⟨ho.tableInv h.table, h.relayed.byte (fun j hj => ((h.table.lt_brk id hid).trans_le hj).ne) ho,
    hsuffix, fun j hj => ?_, ?_⟩
  · rw [ho.modifies_all.cmds_eq (by simp [outputParts])] at hj
    by_cases hne : id = j
    · exact hne ▸ hinv
    · have hout := (ho.observed j).1
      have hpending := (ho.since_lines h.suffix j).1
      rw [if_neg hne, List.append_nil] at hout
      rw [if_neg hne] at hpending
      exact (h.cmds j hj).congr (ho.modifies_all.ring_eq _ (by simp [outputParts, Ne.symm hne]))
        (ho.modifies_all.spec_eq _ (by simp [outputParts])) hout hpending
  · rw [bcstData_since_append h.suffix hsuffix hdata, h.blocks, (ho.since_lines h.suffix id).2]
    by_cases hc : c = newline
    · rw [if_pos hc, if_pos hc]
    · rw [if_neg hc, if_neg hc, List.append_nil]

/-- The parts of a ring. -/
def ringParts : Set Part := {p | ∃ id, p = .ring id}

/-- The monitor has just drained, from a reachable state with any rings. -/
def Drained (sys : Sys) (w : World) : Prop :=
  ∃ w₀ w₁, Reachable sys (fun _ _ => True) w₀ ∧ Modifies ringParts w₀ w₁ ∧ monDrain sys w₁ = .ok () w

lemma monDrain_counters (ht : TableInv w) (h : monDrain sys w = .ok () w') :
    ∀ id ∈ w.gbls.cmds, (w'.heap id).bufn = 0 ∧ (w'.heap id).bufstart = 0 := by
  have hrule := monDrain_rule (P := fun ids w₁ => ∀ id ∈ w.gbls.cmds, id ∉ ids →
    (w₁.heap id).bufn = 0 ∧ (w₁.heap id).bufstart = 0) ht ?_ ?_ ?_ h fun id hid hno => (hno hid).elim
  · exact fun id hid => hrule id hid List.not_mem_nil
  · intro ids w₁ w₂ h hm id hid hno
    have hring := hm.ring_eq id (by simp)
    simp only [ringOf, Prod.mk.injEq] at hring
    rw [hring.2.1, hring.2.2.1]
    exact h id hid hno
  · intro j ids w₁ c p rest w₂ w₃ _ _ _ h ho id hid hno
    have hne : id ≠ j := fun heq => hno (heq ▸ List.mem_cons_self)
    have hring := ho.modifies_all.ring_eq id (by simp [outputParts, hne])
    simp only [ringOf, Prod.mk.injEq] at hring
    rw [hring.2.1, hring.2.2.1]
    exact h id hid hno
  · intro j ids w₁ _ h id hid hno
    by_cases hne : id = j
    · subst hne
      simp [World.updCmd]
    · have hheap : (w₁.updCmd j fun this => { this with bufstart := 0, bufn := 0 }).heap id =
          w₁.heap id := by simp [World.updCmd, hne]
      rw [hheap]
      exact h id hid (by simp [hne, hno])

lemma Drained.sinceInv (h : Drained sys w) : SinceInv w.trace w := by
  obtain ⟨w₀, w₁, hw₀, hrings, hd⟩ := h
  have hm : Modifies {p | ∃ id, p ∈ outputParts id} w₁ w :=
    monDrain_modifies sys (S := {p | ∃ id, p ∈ outputParts id}) (fun id p hp => ⟨id, hp⟩) hd
  have ht₀ := reachable_tableInv hw₀
  have hr₀ := reachable_relayedInv hw₀
  have hcmds₁ : w₁.gbls.cmds = w₀.gbls.cmds := hrings.cmds_eq (by simp [ringParts])
  have hbrk₁ : w₁.brk = w₀.brk := hrings.brk_eq (by simp [ringParts])
  have ht₁ : TableInv w₁ := by
    refine ⟨hcmds₁ ▸ ht₀.nodup, fun id hid => ?_⟩
    rw [hbrk₁]
    exact ht₀.lt_brk id (hcmds₁ ▸ hid)
  have hr₁ : RelayedInv w₁ := by
    refine ⟨fun id hid => ?_, fun id hid => ?_⟩
    · exact (hr₀.cmds id (hcmds₁ ▸ hid)).frame hrings (by simp [ringParts]) (by simp [ringParts])
        (by simp [ringParts]) (by simp [ringParts])
    · exact (hr₀.fresh id (hbrk₁ ▸ hid)).frame hrings (by simp [ringParts]) (by simp [ringParts])
  have hcmds : w.gbls.cmds = w₁.gbls.cmds := hm.cmds_eq (by simp [outputParts])
  have hbrk : w.brk = w₁.brk := hm.brk_eq (by simp [outputParts])
  refine ⟨⟨hcmds ▸ ht₁.nodup, fun id hid => ?_⟩, hr₁.drain ht₁ hd, List.suffix_refl _, fun id hid => ?_,
    by rw [since_self]; rfl⟩
  · rw [hbrk]
    exact ht₁.lt_brk id (hcmds ▸ hid)
  · rw [hcmds] at hid
    obtain ⟨hn, hstart⟩ := monDrain_counters ht₁ hd id hid
    have hspec₁ := hrings.spec_eq id (by simp [ringParts])
    have hspec := hm.spec_eq id (by simp [outputParts])
    have hring₀ := reachable_ringInv hw₀ id (hcmds₁ ▸ hid)
    simp only [cmdSpecOf, Prod.mk.injEq] at hspec₁ hspec
    refine ⟨⟨by simp [hn], by simp [hn, hstart], ?_, ?_⟩, (w.heap id).bufof, ⟨?_, ?_⟩, .inr hstart⟩
    · rw [hn, List.rtake_zero]
      exact .empty
    · rw [hspec.2.1, hspec₁.2.1, hspec.1, hspec₁.1]
      exact hring₀.bcstprefix
    · rw [hn, hstart, since_self]
      rfl
    · rw [since_self, pending, List.length_nil, Nat.zero_div, Nat.add_zero]

lemma SinceInv.step {e : Event} (h : SinceInv t₀ w) (hok : RestartsLines w e) (hs : Step sys w e w') :
    SinceInv t₀ w' := by
  cases e with
  | env e =>
    obtain rfl := modify_eq_ok.mp hs
    have hm := apply_modifies w e
    have hcmds : (e.apply w).gbls.cmds = w.gbls.cmds := hm.cmds_eq (by cases e <;> simp [envParts])
    refine ⟨h.table.kept (hm.tableKept fun _ => envParts_ofTable), apply_relayedInv w e h.relayed,
      hm.suffix h.suffix, fun id hid => ?_, ?_⟩
    · rw [hcmds] at hid
      exact (h.cmds id hid).frame hm h.suffix (by cases e <;> simp [envParts])
        (by cases e <;> simp [envParts]) (by cases e <;> simp [envParts])
    · rw [hm.bcstData_since (by cases e <;> simp [envParts]) h.suffix,
        (hm.since_eq 0 (by cases e <;> simp [envParts]) h.suffix).2]
      exact h.blocks
  | hdlr s x =>
    obtain ⟨⟨hmode, hnodrain⟩, hlines⟩ := hok
    cases (hdlr_cases hs).outputs with
    | acts ha => exact ha.invariant (P := SinceInv t₀) (fun _ _ h ha => ha.sinceInv h) h
    | byte id c p rest w₁ hsrc hrd hid ho =>
      subst hsrc
      refine ho.sinceInv hid hmode (fun hc => hlines id hid ⟨rfl, hrd, ?_⟩) h
      rw [ho.queue, hc]
      rfl
    | drain he hd => exact (hnodrain he).elim

/-- After a drain, whatever the rings were, what is broadcast is one block for each line completed since,
with nothing in it that was put out before: as long as no newline finds rounds counted before the drain. -/
theorem drain_isolates (sys : Sys) {w₀ w : World} (h₀ : Drained sys w₀)
    (hw : Reach (fun w => w = w₀) (Step sys) RestartsLines w) :
    bcstData (since w₀.trace w.trace) = lineBlocks (since w₀.trace w.trace) := by
  have hinv : SinceInv w₀.trace w :=
    hw.invariant (fun _ heq => heq ▸ h₀.sinceInv) fun _ _ _ _ h hok hs => h.step hok hs
  exact hinv.blocks

/-- A drain with the rings as `f` leaves them and the events after it, executed. -/
def runDrain (sys : Sys) (f : World → World) (ok : World → Event → Prop) [∀ w e, Decidable (ok w e)]
    (es : List Event) (p : World → World → Bool) (w : World) : Bool :=
  match monDrain sys (f w) with
  | .ok _ w₀ => (runEvents sys ok es w₀).any (p w₀)
  | .error _ _ => false

lemma exists_drained (sys : Sys) {f : World → World} (hf : ∀ w, Modifies ringParts w (f w))
    (ok : World → Event → Prop) [∀ w e, Decidable (ok w e)] (o : Options) (before after : List Event)
    (p : World → World → Bool)
    (h : (runFrom sys (fun _ _ => True) o before).any (runDrain sys f ok after p) = true) :
    ∃ w₀ w, Drained sys w₀ ∧ Reach (fun w => w = w₀) (Step sys) ok w ∧ p w₀ w = true := by
  obtain ⟨w₁, hw₁, hrun⟩ := exists_reachable sys (fun _ _ => True) o before _ h
  unfold runDrain at hrun
  split at hrun
  · rename_i w₀ hd
    obtain ⟨w, hw, hp⟩ := (Option.any_eq_true _ _).mp hrun
    exact ⟨w₀, w, ⟨w₁, f w₁, hw₁, hf w₁, hd⟩, runEvents_reach (.start rfl) hw, hp⟩
  · cases hrun

/-- The monitor drains in the middle of a line. -/
theorem drain_isolates_halves : ∃ w₀ w, Drained quietSys w₀ ∧
    Reach (fun w => w = w₀) (Step quietSys) RestartsLines w ∧
    bcstData (since w₀.trace w.trace) = bytes "a: h\n" ∧
    bcstData (since w₀.trace w.trace) = lineBlocks (since w₀.trace w.trace) := by
  obtain ⟨w₀, w, h₀, hw, hp⟩ := exists_drained quietSys (f := id) (refl_of _) RestartsLines twoLines
    (puts 0 120) (puts 0 104 ++ puts 0 newline)
    (fun w₀ w => decide (bcstData (since w₀.trace w.trace) = bytes "a: h\n")) (by decide +kernel)
  exact ⟨w₀, w, h₀, hw, of_decide_eq_true hp, drain_isolates quietSys h₀ hw⟩

/-- What a ring is after `cmdbufSize` bytes of a line. -/
def fillRing (w : World) : World :=
  w.updCmd 0 fun this => { this with buf := fun _ => 120, bufn := cmdbufSize, bufof := 1 }

lemma fillRing_modifies (w : World) : Modifies ringParts w (fillRing w) := by
  have hupd : updCmd 0 (fun this => { this with buf := fun _ => 120, bufn := cmdbufSize, bufof := 1 }) w =
      .ok () (fillRing w) := rfl
  refine updRing_modifies (S := ringParts) ⟨0, rfl⟩ ?_ ?_ ?_ ?_ ?_ hupd
  all_goals exact fun _ => rfl

/-- The monitor drains in the middle of a line that has filled the ring. The next newline sends all of it
again. -/
theorem drain_not_always_isolates :
    ¬∀ (sys : Sys) (w₀ w : World), Drained sys w₀ → Reach (fun w => w = w₀) (Step sys) LineMode w →
      bcstData (since w₀.trace w.trace) = lineBlocks (since w₀.trace w.trace) := by
  intro hall
  obtain ⟨w₀, w, h₀, hw, hp⟩ := exists_drained quietSys fillRing_modifies LineMode twoLines []
    (puts 0 newline)
    (fun w₀ w => decide (bcstData (since w₀.trace w.trace) ≠ lineBlocks (since w₀.trace w.trace)))
    (by decide +kernel)
  exact of_decide_eq_true hp (hall quietSys w₀ w h₀ hw)

end Yar.Proofs
