import Yar.Proofs.Rollback
import Yar.Proofs.Startup

/-!
# What an addition finds

In every state that the loop comes to, the ttys of commands to come have not been used, there is a mount
point for the extra links, and the broadcast tty can be created if it has not been.
-/

namespace Yar.Proofs

open Program Transition

variable {sys : Sys} {w w' : World} {id : CmdId} {r : TtyRef} {f : SpecFields} {spec : CmdSpec}
  {cstr : CStr} {S : Set Part}

/-! ## One addition -/

/-- The specification is let through and its name is new. -/
def Admitted (sys : Sys) (w : World) (cstr : CStr) (f : SpecFields) : Prop :=
  cstr = f.join ∧ LetThrough sys w f ∧ w.hashFind f.name = none

lemma Admitted.eq (h : Admitted sys w cstr f) :
    GBLSAddCmd sys cstr w = GBLSAddNew sys (f.spec sys w) (parsed f w) := by
  obtain ⟨rfl, hlet, hname⟩ := h
  exact GBLSAddCmd_eq hlet hname

lemma Admitted.unique {g : SpecFields} (hf : Admitted sys w cstr f) (hg : Admitted sys w cstr g) :
    f = g :=
  SpecFields.join_inj (hf.1.symm.trans hg.1) hf.2.1.toCommaFree hg.2.1.toCommaFree

/-- A specification that is not admitted changes nothing. -/
lemma GBLSAddCmd_refused (h : ∀ f, ¬Admitted sys w cstr f) :
    ∃ n, GBLSAddCmd sys cstr w = .ok none (calledBy n w) := by
  obtain ⟨o, n, hparse⟩ := cmdspecParse_runs sys cstr w
  cases o with
  | none => exact ⟨n, bind_of_ok hparse⟩
  | some spec =>
    obtain ⟨f, hcstr, hlet, rfl⟩ := cmdspecParse_iff.mp ⟨_, hparse⟩
    have hname : ((calledBy n w).hashFind (f.spec sys w).name).isSome = true := by
      rw [Option.isSome_iff_ne_none]
      intro hnone
      exact h f ⟨hcstr, hlet, hnone⟩
    refine ⟨n, (bind_of_ok hparse).trans ?_⟩
    change (if ((calledBy n w).hashFind (f.spec sys w).name).isSome then _ else _ : Act _) _ = _
    rw [hname]
    rfl

lemma AddReady.parsed (hr : AddReady w) (f : SpecFields) : AddReady (parsed f w) :=
  ⟨hr.clt, hr.cmd, hr.mounted⟩

/-! ## The states of the loop -/

/-- The ttys of commands to come have not been used. -/
def FreshTtys (w : World) : Prop :=
  ∀ id, w.brk ≤ id → (w.ttys (.clt id)).link = none ∧ (w.ttys (.cmd id)).link = none

/-- The broadcast tty can be created as long as it is turned off. -/
def BcstWaits (w : World) : Prop :=
  w.gbls.bcstflg = false → (w.ttys .bcst).dfd = none ∧ Targeted (w.ttys .bcst)

/-- What an addition relies on. -/
structure LoopReady (w : World) : Prop where
  fresh : FreshTtys w
  mounted : w.gbls.fsmntpt ≠ none
  bcst : BcstWaits w

lemma LoopReady.addReady (h : LoopReady w) : AddReady w :=
  ⟨(h.fresh w.brk le_rfl).1, (h.fresh w.brk le_rfl).2, h.mounted⟩

lemma Modifies.tty_link (hm : Modifies S w w') (hS : .tty r ∉ S) :
    (w'.ttys r).link = (w.ttys r).link := by
  have hst := hm.same _ hS
  simp only [SameOn, ttyStatic, Prod.mk.injEq] at hst
  exact hst.1

lemma FreshTtys.frame (h : FreshTtys w) (hm : Modifies S w w') (hbrk : w.brk ≤ w'.brk)
    (hS : ∀ id, w'.brk ≤ id → .tty (.clt id) ∉ S ∧ .tty (.cmd id) ∉ S) : FreshTtys w' := by
  intro id hid
  rw [hm.tty_link (hS id hid).1, hm.tty_link (hS id hid).2]
  exact h id (hbrk.trans hid)

lemma GBLSAddNew_brk (h : GBLSAddNew sys spec w = .ok none w') : w'.brk = w.brk + 1 := by
  obtain ⟨id, w₁, hmalloc, h⟩ := bind_eq_ok.mp h
  obtain ⟨rfl, rfl⟩ := mallocCmd_ok hmalloc
  obtain ⟨_, w₂, hinit, h⟩ := bind_eq_ok.mp h
  have hm₂ : Modifies (cmdParts w.brk) _ w₂ := cmdInit_modifies _ _ _ _ _ (initParts_subset _) hinit
  obtain ⟨b, w₃, hcreate, h⟩ := bind_eq_ok.mp h
  have hm₃ : Modifies (cmdParts w.brk) w₂ w₃ := cmdCreate_modifies sys (fun _ hp => .inl hp) hcreate
  cases b with
  | true =>
    obtain ⟨_, w₄, -, h⟩ := bind_eq_ok.mp h
    replace h := modify_bind_eq_ok.mp h
    replace h := modify_bind_eq_ok.mp h
    cases (pure_eq_ok.mp h).1
  | false =>
    obtain ⟨_, w₄, hclean, h⟩ := bind_eq_ok.mp h
    obtain ⟨-, rfl⟩ := pure_eq_ok.mp h
    have hm₄ : Modifies (cleanupParts w.brk) w₃ w' := cmdCleanup_modifies sys subset_rfl hclean
    rw [hm₄.brk_eq (by simp [cleanupParts, procParts, startParts, cmdParts, ttyParts]),
      hm₃.brk_eq (by simp [cmdParts, ttyParts]), hm₂.brk_eq (by simp [cmdParts, ttyParts])]

lemma GBLSAddCmd_fresh {o : Option CmdId} (hadd : GBLSAddCmd sys cstr w = .ok o w')
    (h : FreshTtys w) : FreshTtys w' := by
  by_cases hf : ∃ f, Admitted sys w cstr f
  · obtain ⟨f, hf⟩ := hf
    have hbrk : w'.brk = w.brk + 1 := by
      cases o with
      | none =>
        rw [hf.eq] at hadd
        have hnew := GBLSAddNew_brk hadd
        exact hnew
      | some id =>
        rcases GBLSAddCmd_cases hadd with ⟨hnone, -⟩ | ⟨_, spec, -, ha⟩
        · cases hnone
        · exact ha.brk
    have hm : Modifies (addParts w.brk) w w' := by
      rcases GBLSAddCmd_cases hadd with ⟨-, hn⟩ | ⟨_, spec, -, ha⟩
      · refine hn.modifies.mono ?_
        rintro p (hp | hp)
        · exact .inl hp
        · exact .inr (.inl hp)
      · exact ha.id_eq ▸ ha.modifies
    refine h.frame hm (by simp [hbrk]) fun j hj => ?_
    rw [hbrk, Nat.succ_le_iff] at hj
    simp [addParts, cmdParts, ttyParts, hj.ne']
  · obtain ⟨n, hrun⟩ := GBLSAddCmd_refused (not_exists.mp hf)
    rw [hrun] at hadd
    cases hadd
    exact h

lemma Action.fresh {ok : World → Op → Prop} (ha : Action sys ok w w') (ht : TableInv w)
    (h : FreshTtys w) : FreshTtys w' := by
  cases ha with
  | @quiet S hS hm hflg =>
    have hnot {p : Part} (hp : p.quiet = false) : p ∉ S := fun hpS => by
      rw [hS p hpS] at hp
      cases hp
    exact h.frame hm (hm.brk_eq (hnot rfl)).ge fun _ _ => ⟨hnot rfl, hnot rfl⟩
  | notified r mask rest hr hq hw =>
    rw [hw]
    have hm := notified_modifies w r mask rest
    exact h.frame hm (hm.brk_eq (by simp)).ge (by simp)
  | start id d hid hf =>
    have hm := hf.modifies
    exact h.frame hm (hm.brk_eq (by simp [forkParts])).ge (by simp [forkParts])
  | stop id hid hs =>
    have hm := hs.modifies
    exact h.frame hm (hm.brk_eq (by simp [startParts])).ge (by simp [startParts])
  | reap id hid hok hr =>
    have hm := hr.modifies
    exact h.frame hm (hm.brk_eq (by simp [startParts])).ge (by simp [startParts])
  | remove id hid hok hr =>
    have hm := (remove_ok hr).1
    have hbrk : w'.brk = w.brk :=
      hm.brk_eq (by simp [removeParts, cleanupParts, procParts, startParts, cmdParts, ttyParts])
    refine h.frame hm hbrk.ge fun j hj => ?_
    have hne : j ≠ id := by
      rintro rfl
      rw [hbrk] at hj
      exact (ht.lt_brk j hid).not_ge hj
    simp [removeParts, cleanupParts, procParts, startParts, cmdParts, ttyParts, hne]
  | add cstr r hok hadd => exact GBLSAddCmd_fresh hadd h
  | register r c hr hreg =>
    have hm : Modifies {.kproc} w w' := ttyRegisterEvents_modifies r (by simp) hreg
    exact h.frame hm (hm.brk_eq (by simp)).ge (by simp)
  | enable b hok hflg hlen he =>
    have hm := enable_modifies he
    exact h.frame hm (hm.brk_eq (by simp [bcstParts, ttyParts])).ge (by simp [bcstParts, ttyParts])

lemma Modifies.fsmntpt_eq (hm : Modifies S w w') (hf : .flags ∉ S) :
    w'.gbls.fsmntpt = w.gbls.fsmntpt :=
  (congrArg Globals.fsmntpt (hm.flags_eq hf) :)

lemma fsmntpt_settled : Settled Globals.fsmntpt :=
  ⟨fun _ _ hf _ => (congrArg Globals.fsmntpt hf :), fun _ => rfl,
    fun _ _ hc => (congrArg Globals.fsmntpt hc :)⟩

lemma Handled.mounted {s : Source} {x : Answer} (hh : Handled sys s x w w') :
    w'.gbls.fsmntpt = w.gbls.fsmntpt := by
  rcases hh.settled fsmntpt_settled with h | h
  · exact h
  · exact h

lemma BcstWaits.of_static (h : BcstWaits w) (hkept : w'.gbls.bcstflg = false →
    w.gbls.bcstflg = false ∧ ttyStatic (w'.ttys .bcst) = ttyStatic (w.ttys .bcst)) : BcstWaits w' := by
  intro hoff
  obtain ⟨hold, hst⟩ := hkept hoff
  simp only [ttyStatic, Prod.mk.injEq] at hst
  obtain ⟨-, hextra₁, hextra₂, hdfd, -⟩ := hst
  rw [Targeted, hextra₁, hextra₂, hdfd]
  exact h hold

lemma BcstWaits.frame (h : BcstWaits w) (hm : Modifies S w w') (hf : .flags ∉ S)
    (htty : .tty .bcst ∉ S) : BcstWaits w' :=
  h.of_static fun hoff => ⟨(hm.bcstflg_eq hf).symm.trans hoff, hm.same (.tty .bcst) htty⟩

lemma mainAddCmd_loopReady {cmdspec : CStr} {u : Unit} (h : mainAddCmd sys cmdspec w = .ok u w')
    (hw : FreshTtys w ∧ w.gbls.fsmntpt ≠ none) : FreshTtys w' ∧ w'.gbls.fsmntpt ≠ none := by
  obtain ⟨o, w₁, hadd, h⟩ := bind_eq_ok.mp h
  rw [(require_eq_ok.mp h).2]
  refine ⟨GBLSAddCmd_fresh hadd hw.1, ?_⟩
  rcases GBLSAddCmd_cases hadd with ⟨-, hn⟩ | ⟨id, spec, -, ha⟩
  · rw [hn.modifies.fsmntpt_eq (by simp [cmdParts, ttyParts])]
    exact hw.2
  · rw [ha.modifies.fsmntpt_eq (by simp [addParts, cmdParts, ttyParts])]
    exact hw.2

lemma bcstttyInit_loopReady {u : Unit} (h : bcstttyInit sys w = .ok u w')
    (hw : FreshTtys w ∧ w.gbls.fsmntpt ≠ none) : LoopReady w' := by
  have hm : Modifies bcstParts w w' := bcstttyInit_modifies sys subset_rfl h
  have hfresh : FreshTtys w' := hw.1.frame hm (hm.brk_eq (by simp [bcstParts, ttyParts])).ge
    (by simp [bcstParts, ttyParts])
  obtain ⟨link, w₁, -, hinit, h⟩ := bcstttyInit_ok sys h
  obtain ⟨-, rfl⟩ := ttyInit_ok (get_bind_eq_ok.mp hinit)
  rcases h with ⟨-, rfl⟩ | ⟨hon, hcreate⟩
  · refine ⟨hfresh, hw.2, fun _ => ?_⟩
    simp [World.updTty, Targeted, hw.2]
  · have hm' : Modifies (ttyParts .bcst) _ w' := ttyCreate_modifies sys subset_rfl hcreate
    refine ⟨hfresh, ?_, fun hoff => ?_⟩
    · rw [hm'.fsmntpt_eq (by simp [ttyParts])]
      exact hw.2
    · rw [hm'.bcstflg_eq (by simp [ttyParts]), hon] at hoff
      cases hoff

lemma started_loopReady {o : Options} (h : Started sys o w) : LoopReady w := by
  obtain ⟨_, w₁, hargs, h⟩ := bind_eq_ok.mp h
  obtain ⟨_, w₀, hlog, h⟩ := bind_eq_ok.mp h
  obtain ⟨_, w₂, hmon, h⟩ := bind_eq_ok.mp h
  obtain ⟨_, w₃, hfs, h⟩ := bind_eq_ok.mp h
  obtain ⟨_, w₄, hadds, h⟩ := bind_eq_ok.mp h
  obtain ⟨_, w₅, hbcst, h⟩ := bind_eq_ok.mp h
  have hm₁ : Modifies ∅ (boot o) w₁ := Keeps.forM (argsParseSpec_modifies sys) _ hargs
  have hm₀ : Modifies {.flags, .names} w₁ w₀ := logInit_modifies sys (by simp) (by simp) hlog
  have hm₂ : Modifies (ttyParts .mon) w₀ w₂ := monttyCreate_modifies sys subset_rfl hmon
  have hm₃ : Modifies {.flags, .names} w₂ w₃ := fsCreate_modifies sys (by simp) (by simp) hfs
  have hm₆ : Modifies {.kproc} w₅ w := theLoopRegister_modifies (by simp) h
  have hfresh₀ : FreshTtys (boot o) := fun _ _ => ⟨rfl, rfl⟩
  have hfresh₁ : FreshTtys w₁ := hfresh₀.frame hm₁ (hm₁.brk_eq (by simp)).ge (by simp)
  have hfresh : FreshTtys w₀ := hfresh₁.frame hm₀ (hm₀.brk_eq (by simp)).ge (by simp)
  have hfresh₂ : FreshTtys w₂ :=
    hfresh.frame hm₂ (hm₂.brk_eq (by simp [ttyParts])).ge (by simp [ttyParts])
  have hfresh₃ : FreshTtys w₃ := hfresh₂.frame hm₃ (hm₃.brk_eq (by simp)).ge (by simp)
  have hone (c : CStr) : Preserves (fun w => FreshTtys w ∧ w.gbls.fsmntpt ≠ none)
      (mainAddCmd sys c) := fun _ _ _ hadd => mainAddCmd_loopReady hadd
  have h₄ : FreshTtys w₄ ∧ w₄.gbls.fsmntpt ≠ none :=
    Keeps.forM hone _ hadds ⟨hfresh₃, fsCreate_mounted hfs⟩
  have h₅ := bcstttyInit_loopReady hbcst h₄
  refine ⟨h₅.fresh.frame hm₆ (hm₆.brk_eq (by simp)).ge (by simp), ?_,
    h₅.bcst.frame hm₆ (by simp) (by simp)⟩
  rw [hm₆.fsmntpt_eq (by simp)]
  exact h₅.mounted

lemma reachable_loopReady {ok : World → Event → Prop} (hw : Reachable sys ok w) : LoopReady w := by
  obtain ⟨o, hw⟩ := hw
  refine hw.invariant (fun w h => started_loopReady h) fun w e w' hr h hok hstep => ?_
  cases e with
  | env e =>
    obtain rfl := modify_eq_ok.mp hstep
    have hm := apply_modifies w e
    have hflags : .flags ∉ envParts e := by cases e <;> simp [envParts]
    have htty (r : TtyRef) : .tty r ∉ envParts e := by cases e <;> simp [envParts]
    refine ⟨h.fresh.frame hm (hm.brk_eq ?_).ge fun _ _ => ⟨htty _, htty _⟩, ?_,
      h.bcst.frame hm hflags (htty _)⟩
    · cases e <;> simp [envParts]
    · rw [hm.fsmntpt_eq hflags]
      exact h.mounted
  | hdlr s x =>
    have hh := hdlr_cases hstep
    have ht : TableInv w := reachable_tableInv ⟨o, hr⟩
    have hacts : Acts sys (fun _ _ => True) w w' := hh.acts (.trivial s x w)
    obtain ⟨-, hfresh, hbcst⟩ := hacts.invariant
      (P := fun w => TableInv w ∧ FreshTtys w ∧ BcstWaits w)
      (fun w w' hp ha => ⟨ha.tableInv hp.1, ha.fresh hp.1 hp.2.1, hp.2.2.of_static ha.bcst_kept⟩)
      ⟨ht, h.fresh, h.bcst⟩
    refine ⟨hfresh, ?_, hbcst⟩
    rw [hh.mounted]
    exact h.mounted

end Yar.Proofs
