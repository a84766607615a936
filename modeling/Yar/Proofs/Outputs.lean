import Mathlib.Logic.Relation
import Yar.Proofs.Output

/-!
# Output over a run

As far as the output of the commands goes, a handler lets a command come or go and changes nothing
else that output depends on, handles a byte, or drains all commands.
-/

namespace Yar.Proofs

open Program Relation

/-- The parts that the handling of output works on or looks at. -/
def Part.ofOutput : Part → Bool
  | .table | .spec _ | .brk | .oAdded | .oRemoved | .nread (.cmd _) | .hist (.cmd _) | .ring _ | .oOutput
  | .oWrite (.clt _) | .oWrite .bcst => true
  | _ => false

/-- The part concerns the output of the command. -/
def Part.ofOutputOf (id : CmdId) : Part → Prop
  | .spec j | .ring j | .nread (.cmd j) | .hist (.cmd j) | .oWrite (.clt j) => j = id
  | .oOutput | .oWrite .bcst => True
  | _ => False

lemma Part.ofOutputOf.ofOutput {id : CmdId} {p : Part} (h : p.ofOutputOf id) : p.ofOutput = true := by
  unfold Part.ofOutputOf at h
  split at h <;> first | rfl | exact h.elim

inductive TableAct (w w' : World) : Prop where
  | still {S : Set Part} (hS : ∀ p ∈ S, p.ofOutput = false) (h : Modifies S w w')
  | notAdded (h : NotAdded w w')
  | add (id : CmdId) (spec : CmdSpec) (h : Added w w' id spec)
  | remove (id : CmdId) (hid : id ∈ w.gbls.cmds) (h : Removed w w' id)

abbrev TableActs : World → World → Prop := ReflTransGen TableAct

/-- The event runs `monDrain`. -/
def Drains (e : Event) : Prop :=
  match e with
  | .hdlr (.dom .mon) x => (x.line.bind monLookup).map Prod.fst = some .monDrain
  | _ => False

instance (e : Event) : Decidable (Drains e) :=
  match e with
  | .hdlr (.dom .mon) x =>
    inferInstanceAs (Decidable ((x.line.bind monLookup).map Prod.fst = some .monDrain))
  | .env _ | .hdlr (.dom .bcst) _ | .hdlr (.dom (.clt _)) _ | .hdlr (.dom (.cmd _)) _
  | .hdlr (.ifd _) _ | .hdlr (.pidfd _ _) _ | .hdlr .sig _ | .hdlr .fs _ => .isFalse False.elim

/-- What tells how output is broadcast. -/
def bcstMode (w : World) : Bool × Bool := (w.gbls.bcstflg, w.gbls.linebufferbcst)

variable {sys : Sys} {w w' : World} {id : CmdId} {S : Set Part}

lemma TableActs.invariant {P : World → Prop} (h : TableActs w w')
    (hact : ∀ w w', P w → TableAct w w' → P w') (hw : P w) : P w' := by
  induction h with
  | refl => exact hw
  | tail _ hstep ih => exact hact _ _ ih hstep

lemma Modifies.bcstMode_eq (hm : Modifies S w w') (hf : .flags ∉ S) (ho : .options ∉ S) :
    bcstMode w' = bcstMode w := by
  have hflags : w'.gbls.bcstflg = w.gbls.bcstflg := (congrArg Globals.bcstflg (hm.flags_eq hf) :)
  have hoptions := hm.same .options ho
  simp only [SameOn, globalsOptions, Prod.mk.injEq] at hoptions
  rw [bcstMode, bcstMode, hflags, hoptions.2.2.2]

lemma startParts_still {p : Part} (hp : p ∈ startParts id) : p.ofOutput = false := by
  rcases hp with rfl | rfl | rfl | rfl | rfl <;> rfl

lemma procParts_still {p : Part} (hp : p ∈ procParts id) : p.ofOutput = false := by
  rcases hp with hp | rfl | rfl
  · exact startParts_still hp
  all_goals rfl

lemma nedParts_still {r : TtyRef} {p : Part} (hp : p ∈ nedParts r) : p.ofOutput = false := by
  cases r with
  | bcst =>
    obtain ⟨id, hp⟩ := hp
    exact procParts_still hp
  | clt id => exact procParts_still hp
  | mon => exact hp.elim
  | cmd id => exact hp.elim

lemma bcstParts_still {p : Part} (hp : p ∈ bcstParts) : p.ofOutput = false := by
  rcases hp with (rfl | rfl | rfl | rfl | rfl | rfl | rfl | rfl) | rfl <;> rfl

lemma OutputByte.tableInv {c : Byte} {p : Pid} {rest : List (Byte × Pid)} {w₁ : World}
    (h : OutputByte sys w id c p rest w₁ w') (ht : TableInv w) : TableInv w' := by
  have hcmds : w'.gbls.cmds = w.gbls.cmds := h.modifies_all.cmds_eq (by simp [outputParts])
  have hbrk : w'.brk = w.brk := h.modifies_all.brk_eq (by simp [outputParts])
  refine ⟨hcmds ▸ ht.nodup, fun j hj => ?_⟩
  rw [hcmds] at hj
  rw [hbrk]
  exact ht.lt_brk j hj

/-! ## Draining -/

/-- `cmdttyDrain` handles one byte after the other. -/
lemma cmdttyDrain_rule {P : World → Prop}
    (hstill : ∀ w₁ w₂, P w₁ → Modifies ∅ w₁ w₂ → P w₂)
    (hbyte : ∀ w₁ c p rest w₂ w₃, bcstMode w₁ = bcstMode w → w₁.gbls.cmds = w.gbls.cmds → P w₁ →
      OutputByte sys w₁ id c p rest w₂ w₃ → P w₃)
    (h : cmdttyDrain sys id w = .ok () w') (hw : P w) :
    P w' ∧ bcstMode w' = bcstMode w ∧ w'.gbls.cmds = w.gbls.cmds := by
  replace h := get_bind_eq_ok.mp h
  have hkeep : Preserves (fun w₁ => P w₁ ∧ bcstMode w₁ = bcstMode w ∧ w₁.gbls.cmds = w.gbls.cmds)
      (discard (cmdttyProcessOutput sys id .ready)) := by
    refine Keeps.discard fun w₁ n w₂ h ⟨hP, hmode, hcmds⟩ => ?_
    have hm : Modifies (outputParts id) w₁ w₂ := cmdttyProcessOutput_modifies sys .ready subset_rfl h
    refine ⟨?_, (hm.bcstMode_eq (by simp [outputParts]) (by simp [outputParts])).trans hmode,
      (hm.cmds_eq (by simp [outputParts])).trans hcmds⟩
    rcases cmdttyProcessOutput_cases h with ⟨-, hm⟩ | ⟨-, c, p, rest, w₃, ho⟩
    · exact hstill w₁ w₂ hP hm
    · exact hbyte w₁ c p rest w₃ w₂ hmode hcmds hP ho
  exact Keeps.forM (fun _ => hkeep) _ h ⟨hw, rfl, rfl⟩

/-- `monDrain` drains and resets one command after the other. `P ids` holds as long as `ids` are left. -/
theorem monDrain_rule {P : List CmdId → World → Prop} (ht : TableInv w)
    (hstill : ∀ ids w₁ w₂, P ids w₁ → Modifies ∅ w₁ w₂ → P ids w₂)
    (hbyte : ∀ id ids w₁ c p rest w₂ w₃, bcstMode w₁ = bcstMode w → w₁.gbls.cmds = w.gbls.cmds →
      id ∈ w.gbls.cmds → P (id :: ids) w₁ → OutputByte sys w₁ id c p rest w₂ w₃ → P (id :: ids) w₃)
    (hreset : ∀ id ids w₁, id ∉ ids → P (id :: ids) w₁ →
      P ids (w₁.updCmd id fun this => { this with bufstart := 0, bufn := 0 }))
    (h : monDrain sys w = .ok () w') (hw : P w.gbls.cmds w) : P [] w' := by
  replace h := get_bind_eq_ok.mp h
  have hgen : ∀ ids w₁, ids ⊆ w.gbls.cmds → ids.Nodup → bcstMode w₁ = bcstMode w →
      w₁.gbls.cmds = w.gbls.cmds → P ids w₁ →
      (ids.forM fun id => do
        cmdttyDrain sys id
        updCmd id fun this => { this with bufstart := 0, bufn := 0 }) w₁ = .ok () w' → P [] w' := by
    intro ids
    induction ids with
    | nil =>
      intro w₁ _ _ _ _ hP h
      rw [(pure_eq_ok.mp h).2]
      exact hP
    | cons id ids ih =>
      intro w₁ hsub hnd hmode hcmds hP h
      have hid : id ∈ w.gbls.cmds := hsub List.mem_cons_self
      obtain ⟨_, w₂, h₁, h⟩ := forM_cons_eq_ok.mp h
      obtain ⟨_, w₃, hdrain, hupd⟩ := bind_eq_ok.mp h₁
      have hw₂ := modify_eq_ok.mp hupd
      obtain ⟨hP₃, hmode₃, hcmds₃⟩ := cmdttyDrain_rule (P := P (id :: ids))
        (hstill (id :: ids)) (fun w₄ c p rest w₅ w₆ hm hc hP₄ ho => hbyte id ids w₄ c p rest w₅ w₆
          (hm.trans hmode) (hc.trans hcmds) hid hP₄ ho) hdrain hP
      refine ih w₂ (fun j hj => hsub (List.mem_cons_of_mem _ hj)) hnd.of_cons ?_ ?_ ?_ h
      · rw [hw₂]
        exact hmode₃.trans hmode
      · rw [hw₂]
        exact hcmds₃.trans hcmds
      · rw [hw₂]
        exact hreset id ids w₃ (List.nodup_cons.mp hnd).1 hP₃
  exact hgen _ w (List.Subset.refl _) ht.nodup rfl rfl hw h

/-! ## Handlers and runs -/

/-- What the handler of `s` does to the output. -/
inductive Outputs (sys : Sys) (s : Source) (x : Answer) (w w' : World) : Prop where
  | acts (h : TableActs w w')
  | byte (id : CmdId) (c : Byte) (p : Pid) (rest : List (Byte × Pid)) (w₁ : World)
      (hs : s = .dom (.cmd id)) (hx : x.rd = .ready) (hid : id ∈ w.gbls.cmds)
      (h : OutputByte sys w id c p rest w₁ w')
  | drain (he : Drains (.hdlr s x)) (h : monDrain sys w = .ok () w')

theorem Handled.outputs {s : Source} {x : Answer} (hh : Handled sys s x w w') :
    Outputs sys s x w w' := by
  have still {S : Set Part} (hm : Modifies S w w') (hS : ∀ p ∈ S, p.ofOutput = false) :
      Outputs sys s x w w' := .acts (.single (.still hS hm))
  cases hh with
  | bcst hs h =>
    refine still (bcstttyEvent_modifies sys _ subset_rfl h) ?_
    rintro p ((rfl | rfl | rfl) | ⟨j, rfl | rfl⟩) <;> rfl
  | clt id hs hid h =>
    refine still (cmdCltttyEvent_modifies sys _ subset_rfl h) ?_
    rintro p (hp | rfl | rfl | rfl)
    · exact procParts_still hp
    all_goals rfl
  | cmd id hs hid h =>
    obtain ⟨n, h⟩ := discard_eq_ok.mp h
    rcases cmdttyProcessOutput_cases h with ⟨-, hm⟩ | ⟨hrd, c, p, rest, w₁, ho⟩
    · exact still hm (by simp)
    · exact .byte id c p rest w₁ hs hrd hid ho
  | notify r hs hid h =>
    refine still (ttyNotifyEvent_modifies sys r subset_rfl h) ?_
    rintro p ((rfl | rfl) | hp)
    · rfl
    · rfl
    · exact nedParts_still hp
  | pid id fd hs hid h =>
    obtain ⟨w₁, hreap, ⟨-, hr⟩ | ⟨-, hr⟩⟩ := cmdPidEvent_cases hid h
    · exact .acts (.single (.remove id hid (.of_reaped hreap (monDelFound_removed hr))))
    · exact still (trans_of (Modifies (startParts id)) (cmdPidReap_modifies subset_rfl hreap)
        (cmdPidRestart_modifies subset_rfl hr)) fun _ => startParts_still
  | del line name id hs hx hl hf h =>
    exact .acts (.single (.remove id (List.mem_of_find?_eq_some hf) (monDelFound_removed h)))
  | add line cmdstr hs hx hl h =>
    rcases monAdd_cases h with hn | ⟨id, spec, w₁, ha, hreg⟩
    · exact .acts (.single (.notAdded hn))
    · have hm : Modifies (startParts id ∪ bcstParts) w₁ w' :=
        monAddRegister_modifies sys id Set.subset_union_left Set.subset_union_right hreg
      refine .acts (.head (.add id spec ha) (.single (.still ?_ hm)))
      rintro p (hp | hp)
      · exact startParts_still hp
      · exact bcstParts_still hp
  | drain line args hs hx hl h =>
    refine .drain ?_ h
    subst hs
    simp [Drains, hx, hl]
  | idleExit line args hs hx hl h =>
    refine still (monIdleExit_modifies sys (S := idleExitParts) (by simp [idleExitParts])
      (by simp [idleExitParts]) (by simp [idleExitParts]) h) ?_
    rintro p ((rfl | rfl) | ⟨id, rfl⟩) <;> rfl
  | toggle line m args g hs hx hl hw hcore hrestart hlb =>
    refine still (S := {.options, .flags}) (toggle_modifies hw hcore) ?_
    rintro p (rfl | rfl) <;> rfl
  | idle hs hw =>
    rw [hw]
    exact .acts .refl

lemma TableAct.tableInv (h : TableAct w w') (ht : TableInv w) : TableInv w' := by
  cases h with
  | still hS hm =>
    have hnot {p : Part} (hp : p.ofOutput = true) : p ∉ _ := fun hpS => by
      rw [hS p hpS] at hp
      cases hp
    refine ⟨hm.cmds_eq (hnot rfl) ▸ ht.nodup, fun j hj => ?_⟩
    rw [hm.cmds_eq (hnot rfl)] at hj
    rw [hm.brk_eq (hnot rfl)]
    exact ht.lt_brk j hj
  | notAdded hn => exact ht.kept hn.tableKept
  | add id spec ha => exact ht.added ha
  | remove id hid hr => exact ht.removed hr

lemma cmdParts_notOf {j : CmdId} (hne : j ≠ id) {p : Part} (hp : p ∈ cmdParts j) :
    ¬p.ofOutputOf id := by
  rcases hp with (hp | hp) | hp
  · rcases hp with rfl | rfl | rfl | rfl | rfl | rfl | rfl | rfl <;> simp [Part.ofOutputOf, hne]
  · rcases hp with rfl | rfl | rfl | rfl | rfl | rfl | rfl | rfl <;> simp [Part.ofOutputOf]
  · rcases hp with rfl | rfl | rfl | rfl | rfl | rfl <;> simp [Part.ofOutputOf, hne]

/-- What depends on the output of a command alone stays true of the commands that stay. -/
lemma TableAct.forall_cmds {Q : World → CmdId → Prop} (h : TableAct w w') (ht : TableInv w)
    (hframe : ∀ id S, (∀ p ∈ S, ¬p.ofOutputOf id) → Modifies S w w' → Q w id → Q w' id)
    (hnew : ∀ id spec, Added w w' id spec → Q w' id) (hQ : ∀ id ∈ w.gbls.cmds, Q w id) :
    ∀ id ∈ w'.gbls.cmds, Q w' id := by
  have hadd (id : CmdId) (hid : id ∈ w.gbls.cmds) : ∀ p ∈ addParts w.brk, ¬p.ofOutputOf id := by
    rintro p (hp | rfl | rfl | rfl | rfl)
    · exact cmdParts_notOf (ht.lt_brk id hid).ne' hp
    all_goals simp [Part.ofOutputOf]
  intro id hid
  cases h with
  | @still S hS hm =>
    have htable : .table ∉ S := fun hp => by cases hS _ hp
    refine hframe id S (fun p hp hof => ?_) hm (hQ id (hm.cmds_eq htable ▸ hid))
    have hno := hS p hp
    rw [hof.ofOutput] at hno
    cases hno
  | notAdded hn =>
    rw [hn.modifies.cmds_eq (by simp [cmdParts, ttyParts])] at hid
    refine hframe id _ (fun p hp => hadd id hid p ?_) hn.modifies (hQ id hid)
    rcases hp with hp | rfl
    · exact .inl hp
    · exact .inr (.inl rfl)
  | add j spec ha =>
    rw [ha.table, List.mem_append, List.mem_singleton] at hid
    rcases hid with hid | rfl
    · exact hframe id _ (fun p hp => hadd id hid p (ha.id_eq ▸ hp)) ha.modifies (hQ id hid)
    · exact hnew id spec ha
  | remove j hj hr =>
    rw [hr.table, List.mem_filter] at hid
    have hne : j ≠ id := by
      rintro rfl
      simp at hid
    refine hframe id _ (fun p hp => ?_) hr.modifies (hQ id hid.1)
    rcases hp with ((hp | hp) | hp) | rfl | rfl
    · rcases hp with rfl | rfl | rfl | rfl | rfl <;> simp [Part.ofOutputOf]
    · rcases hp with rfl | rfl <;> simp [Part.ofOutputOf]
    · exact cmdParts_notOf hne hp
    all_goals simp [Part.ofOutputOf]

/-- No output is handled meanwhile. -/
lemma TableAct.modifies (ha : TableAct w w') : ∃ S, Modifies S w w' ∧ w.brk ≤ w'.brk ∧ .oOutput ∉ S ∧
    (∀ id, .oWrite (.clt id) ∉ S) ∧ .oWrite .bcst ∉ S := by
  cases ha with
  | @still S hS hm =>
    have hnot {p : Part} (hp : p.ofOutput = true) : p ∉ S := fun hpS => by
      rw [hS p hpS] at hp
      cases hp
    exact ⟨S, hm, (hm.brk_eq (hnot rfl)).ge, hnot rfl, fun _ => hnot rfl, hnot rfl⟩
  | notAdded hn =>
    exact ⟨_, hn.modifies, hn.brk, by simp [cmdParts, ttyParts], by simp [cmdParts, ttyParts],
      by simp [cmdParts, ttyParts]⟩
  | add id spec ha =>
    exact ⟨_, ha.modifies, by rw [ha.brk]; exact Nat.le_succ _, by simp [addParts, cmdParts, ttyParts],
      by simp [addParts, cmdParts, ttyParts], by simp [addParts, cmdParts, ttyParts]⟩
  | remove id hid hr =>
    refine ⟨_, hr.modifies, (hr.modifies.brk_eq ?_).ge, ?_, fun _ => ?_, ?_⟩ <;>
      simp [removeParts, cleanupParts, procParts, startParts, cmdParts, ttyParts]

/-- An invariant of output holds in every state of a run. -/
theorem reachable_of_outputs {ok : World → Event → Prop} {P : World → Prop} (hboot : ∀ o, P (boot o))
    (henv : ∀ w e, P w → P (Env.apply e w))
    (hact : ∀ w w', TableInv w → P w → TableAct w w' → P w')
    (hbyte : ∀ w id x c p rest w₁ w', ok w (.hdlr (.dom (.cmd id)) x) → x.rd = .ready → TableInv w →
      P w → id ∈ w.gbls.cmds → OutputByte sys w id c p rest w₁ w' → P w')
    (hdrain : ∀ w s x w', ok w (.hdlr s x) → Drains (.hdlr s x) → TableInv w → P w →
      monDrain sys w = .ok () w' → P w')
    (hw : Reachable sys ok w) : P w := by
  refine reachable_induction hboot ?_ (fun w w' ht h hn => hact w w' ht h (.notAdded hn))
    (fun w w' id spec ht h ha => hact w w' ht h (.add id spec ha)) (fun w e _ h _ => henv w e h) ?_ hw
  · intro w w' ht h hm
    refine hact w w' ht h (.still ?_ hm)
    rintro p ((hp | hp) | rfl)
    · rcases hp with rfl | rfl | rfl | rfl | rfl | rfl | rfl | rfl <;> rfl
    · exact bcstParts_still (.inl hp)
    · rfl
  · intro w s x w' _ ht h hok hh
    cases hh.outputs with
    | acts ha =>
      exact (TableActs.invariant (P := fun w => TableInv w ∧ P w) ha
        (fun _ _ h ha => ⟨ha.tableInv h.1, hact _ _ h.1 h.2 ha⟩) ⟨ht, h⟩).2
    | byte id c p rest w₁ hs hx hid ho =>
      subst hs
      exact hbyte w id x c p rest w₁ w' hok hx ht h hid ho
    | drain he hd => exact hdrain w s x w' hok he ht h hd

/-! ## What the trace says -/

/-- The bytes `cmdttyProcessOutput` has handled for the command. -/
def relayedOutput (id : CmdId) : List Obs → CStr
  | [] => []
  | .output j _ c _ :: t => if j = id then relayedOutput id t ++ [c] else relayedOutput id t
  | _ :: t => relayedOutput id t

/-- The bytes written to the command's client tty. -/
def sentToClt (id : CmdId) : List Obs → CStr
  | [] => []
  | .write (.clt j) buf :: t => if j = id then sentToClt id t ++ buf else sentToClt id t
  | _ :: t => sentToClt id t

variable {l t : List Obs}

lemma relayedOutput_append (hl : ∀ n c b, .output id n c b ∉ l) :
    relayedOutput id (l ++ t) = relayedOutput id t := by
  induction l with
  | nil => rfl
  | cons o l ih =>
    have ih := ih fun n c b ho => hl n c b (List.mem_cons_of_mem _ ho)
    cases o with
    | output j n c b =>
      have hj : j ≠ id := by
        rintro rfl
        exact hl n c b List.mem_cons_self
      rw [List.cons_append, relayedOutput, if_neg hj, ih]
    | _ => exact ih

lemma sentToClt_append (hl : ∀ buf, .write (.clt id) buf ∉ l) :
    sentToClt id (l ++ t) = sentToClt id t := by
  induction l with
  | nil => rfl
  | cons o l ih =>
    have ih := ih fun buf ho => hl buf (List.mem_cons_of_mem _ ho)
    cases o with
    | write r buf =>
      cases r with
      | clt j =>
        have hj : j ≠ id := by
          rintro rfl
          exact hl buf List.mem_cons_self
        rw [List.cons_append, sentToClt, if_neg hj, ih]
      | _ => exact ih
    | _ => exact ih

lemma Modifies.relayedOutput_eq (hm : Modifies S w w') (hS : .oOutput ∉ S) :
    relayedOutput id w'.trace = relayedOutput id w.trace := by
  obtain ⟨l, hl, hlS⟩ := hm.trace
  rw [hl]
  exact relayedOutput_append fun n c b ho => hS (hlS _ ho)

lemma Modifies.sentToClt_eq (hm : Modifies S w w') (hS : .oWrite (.clt id) ∉ S) :
    sentToClt id w'.trace = sentToClt id w.trace := by
  obtain ⟨l, hl, hlS⟩ := hm.trace
  rw [hl]
  exact sentToClt_append fun buf ho => hS (hlS _ ho)

/-- What a byte of output adds to the trace. -/
lemma OutputByte.observed {c : Byte} {p : Pid} {rest : List (Byte × Pid)} {w₁ : World}
    (h : OutputByte sys w id c p rest w₁ w') (j : CmdId) :
    relayedOutput j w'.trace = relayedOutput j w.trace ++ (if id = j then [c] else []) ∧
      sentToClt j w'.trace = sentToClt j w.trace ++ (if id = j then [c] else []) := by
  obtain ⟨w₂, w₃, hstore, hwrite, hbcst⟩ := h.stored
  have hm₂ : Modifies {.ring id} w₁ w₂ := cmdttyStore_modifies id c (by simp) hstore
  have hm₄ : Modifies {.ring id, .oWrite .bcst} w₃ w' :=
    cmdttyBroadcast_modifies sys id _ c (by simp) (by simp) hbcst
  have htrace := (ttyWriteBuf_ok hwrite).trace
  constructor
  · have hw₃ : relayedOutput j w₃.trace = relayedOutput j w₂.trace := by rw [htrace]; rfl
    rw [hm₄.relayedOutput_eq (by simp), hw₃, hm₂.relayedOutput_eq (by simp), h.trace]
    by_cases hj : id = j
    · simp [relayedOutput, hj]
    · simp [relayedOutput, hj]
  · have hw₁ : sentToClt j w₁.trace = sentToClt j w.trace := by rw [h.trace]; rfl
    rw [hm₄.sentToClt_eq (by simp), htrace, sentToClt, hm₂.sentToClt_eq (by simp), hw₁]
    by_cases hj : id = j
    · rw [if_pos hj, if_pos hj]
    · rw [if_neg hj, if_neg hj, List.append_nil]

/-! ## What has been read has been relayed -/

structure OutInv (w : World) (id : CmdId) : Prop where
  le : (w.kern.ports (.cmd id)).nread ≤ (w.kern.ports (.cmd id)).hist.length
  relayed : relayedOutput id w.trace =
    ((w.kern.ports (.cmd id)).hist.take (w.kern.ports (.cmd id)).nread).map Prod.fst
  sent : sentToClt id w.trace = relayedOutput id w.trace

/-- No output has been handled for a command that has not been added yet. -/
def NoOutput (w : World) (id : CmdId) : Prop :=
  relayedOutput id w.trace = [] ∧ sentToClt id w.trace = []

lemma NoOutput.frame (h : NoOutput w id) (hm : Modifies S w w') (ho : .oOutput ∉ S)
    (hc : .oWrite (.clt id) ∉ S) : NoOutput w' id :=
  ⟨(hm.relayedOutput_eq ho).trans h.1, (hm.sentToClt_eq hc).trans h.2⟩

lemma OutInv.frame (h : OutInv w id) (hm : Modifies S w w') (hn : .nread (.cmd id) ∉ S)
    (hh : .hist (.cmd id) ∉ S) (ho : .oOutput ∉ S) (hc : .oWrite (.clt id) ∉ S) : OutInv w' id := by
  have hnread := hm.same _ hn
  have hhist := hm.same _ hh
  simp only [SameOn] at hnread hhist
  refine ⟨?_, ?_, ?_⟩
  · rw [hnread, hhist]
    exact h.le
  · rw [hm.relayedOutput_eq ho, hnread, hhist]
    exact h.relayed
  · rw [hm.sentToClt_eq hc, hm.relayedOutput_eq ho]
    exact h.sent

lemma OutputByte.outInv {c : Byte} {p : Pid} {rest : List (Byte × Pid)} {w₁ : World} {j : CmdId}
    (ho : OutputByte sys w id c p rest w₁ w') (h : OutInv w j) : OutInv w' j := by
  obtain ⟨hrelayed, hsent⟩ := ho.observed j
  have hhist : (w'.kern.ports (.cmd j)).hist = (w.kern.ports (.cmd j)).hist :=
    ho.modifies_all.same (.hist (.cmd j)) (by simp [outputParts])
  by_cases hj : id = j
  · subst hj
    have hnread : (w'.kern.ports (.cmd id)).nread = (w.kern.ports (.cmd id)).nread + 1 := by
      rw [← ho.nread]
      exact ho.modifies_rest.same (.nread (.cmd id)) (by simp)
    obtain ⟨hle, htake, -⟩ := seen_succ ho.queue
    refine ⟨?_, ?_, ?_⟩
    · rw [hnread, hhist]
      exact hle
    · rw [hrelayed, if_pos rfl, h.relayed, hnread, hhist, htake, List.map_append]
      rfl
    · rw [hsent, hrelayed, h.sent]
  · have hnread : (w'.kern.ports (.cmd j)).nread = (w.kern.ports (.cmd j)).nread :=
      ho.modifies_all.same (.nread (.cmd j)) (by simp [outputParts, Ne.symm hj])
    rw [if_neg hj, List.append_nil] at hrelayed hsent
    refine ⟨?_, ?_, ?_⟩
    · rw [hnread, hhist]
      exact h.le
    · rw [hrelayed, hnread, hhist]
      exact h.relayed
    · rw [hsent, hrelayed, h.sent]

structure RelayedInv (w : World) : Prop where
  cmds : ∀ id ∈ w.gbls.cmds, OutInv w id
  fresh : ∀ id, w.brk ≤ id → NoOutput w id

lemma RelayedInv.frame (h : RelayedInv w) (hm : Modifies S w w') (hS : ∀ p ∈ S, p.ofOutput = false) :
    RelayedInv w' := by
  have hnot {p : Part} (hp : p.ofOutput = true) : p ∉ S := fun hpS => by
    rw [hS p hpS] at hp
    cases hp
  refine ⟨fun id hid => ?_, fun id hid => ?_⟩
  · rw [hm.cmds_eq (hnot rfl)] at hid
    exact (h.cmds id hid).frame hm (hnot rfl) (hnot rfl) (hnot rfl) (hnot rfl)
  · rw [hm.brk_eq (hnot rfl)] at hid
    exact (h.fresh id hid).frame hm (hnot rfl) (hnot rfl)

lemma RelayedInv.byte {c : Byte} {p : Pid} {rest : List (Byte × Pid)} {w₁ : World} (h : RelayedInv w)
    (ht : ∀ j, w.brk ≤ j → id ≠ j) (ho : OutputByte sys w id c p rest w₁ w') : RelayedInv w' := by
  have hm := ho.modifies_all
  refine ⟨fun j hj => ?_, fun j hj => ?_⟩
  · rw [hm.cmds_eq (by simp [outputParts])] at hj
    exact ho.outInv (h.cmds j hj)
  · rw [hm.brk_eq (by simp [outputParts])] at hj
    obtain ⟨hrelayed, hsent⟩ := ho.observed j
    rw [if_neg (ht j hj), List.append_nil] at hrelayed hsent
    exact ⟨hrelayed.trans (h.fresh j hj).1, hsent.trans (h.fresh j hj).2⟩

lemma RelayedInv.drain (h : RelayedInv w) (ht : TableInv w) (hd : monDrain sys w = .ok () w') :
    RelayedInv w' := by
  refine (monDrain_rule (P := fun _ w₁ => RelayedInv w₁ ∧ w₁.brk = w.brk) ht ?_ ?_ ?_ hd ⟨h, rfl⟩).1
  · exact fun _ w₁ w₂ h hm => ⟨h.1.frame hm (by simp), (hm.brk_eq (by simp)).trans h.2⟩
  · intro id _ w₁ c p rest w₂ w₃ _ _ hid h ho
    refine ⟨h.1.byte (fun j hj => ?_) ho, (ho.modifies_all.brk_eq (by simp [outputParts])).trans h.2⟩
    exact ((ht.lt_brk id hid).trans_le (h.2 ▸ hj)).ne
  · exact fun id _ w₁ _ h => ⟨⟨fun j hj => ⟨(h.1.cmds j hj).le, (h.1.cmds j hj).relayed,
      (h.1.cmds j hj).sent⟩, h.1.fresh⟩, h.2⟩

lemma TableAct.relayedInv (ha : TableAct w w') (ht : TableInv w) (h : RelayedInv w) : RelayedInv w' := by
  obtain ⟨S, hm, hbrk, ho, hc, -⟩ := ha.modifies
  have hfresh (id : CmdId) (hid : w.brk ≤ id) : NoOutput w' id := (h.fresh id hid).frame hm ho (hc id)
  refine ⟨ha.forall_cmds ht (fun id S hS hm hi => ?_) (fun id spec ha => ?_) h.cmds,
    fun id hid => hfresh id (hbrk.trans hid)⟩
  · exact hi.frame hm (fun hp => hS _ hp rfl) (fun hp => hS _ hp rfl) (fun hp => hS _ hp trivial)
      fun hp => hS _ hp rfl
  · obtain ⟨hrelayed, hsent⟩ := hfresh id ha.id_eq.ge
    have hport := ha.created.2.port
    exact ⟨by simp [hport], by simp [hport, hrelayed], hsent.trans hrelayed.symm⟩

lemma apply_relayedInv (w : World) (e : Env) (h : RelayedInv w) : RelayedInv (e.apply w) := by
  have hm := apply_modifies w e
  refine ⟨fun id hid => ?_, fun id hid => ?_⟩
  · rw [hm.cmds_eq (by cases e <;> simp [envParts])] at hid
    have hi := h.cmds id hid
    cases e with
    | typed r c p =>
      by_cases hr : r = .cmd id
      · subst hr
        have hport : ((Env.typed (.cmd id) c p).apply w).kern.ports (.cmd id) =
            { w.kern.ports (.cmd id) with hist := (w.kern.ports (.cmd id)).hist ++ [(c, p)] } := by
          simp [Env.apply, World.updPort]
        refine ⟨?_, ?_, hi.sent⟩
        · rw [hport]
          exact hi.le.trans (by simp)
        · rw [hport]
          simp only
          rw [List.take_append_of_le_length hi.le]
          exact hi.relayed
      · exact hi.frame hm (by simp [envParts]) (by simp [envParts, Ne.symm hr]) (by simp [envParts])
          (by simp [envParts])
    | _ =>
      exact hi.frame hm (by simp [envParts]) (by simp [envParts]) (by simp [envParts])
        (by simp [envParts])
  · rw [hm.brk_eq (by cases e <;> simp [envParts])] at hid
    exact (h.fresh id hid).frame hm (by cases e <;> simp [envParts]) (by cases e <;> simp [envParts])

lemma reachable_relayedInv {ok : World → Event → Prop} (hw : Reachable sys ok w) : RelayedInv w := by
  refine reachable_of_outputs (P := RelayedInv) ?_ apply_relayedInv
    (fun w w' ht h ha => ha.relayedInv ht h) ?_ (fun w s x w' _ _ ht h hd => h.drain ht hd) hw
  · exact fun o => ⟨by simp [boot], fun _ _ => ⟨rfl, rfl⟩⟩
  · intro w id x c p rest w₁ w' _ _ ht h hid ho
    exact h.byte (fun j hj => ((ht.lt_brk id hid).trans_le hj).ne) ho

end Yar.Proofs
