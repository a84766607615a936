import Yar.Proofs.Directory

/-!
# What is left of a run

`main` makes its links one creation after the other, and every run ends in the cleanup of what is there, or
in an abort. The directory is followed from the first creation to the end of the run.
-/

namespace Yar.Proofs

open Program Transition

section
variable (sys : Sys)

/-! ## The creations of `main` -/

/-- `main` up to the registration of `cleanup`. -/
def mainInit (specs : List CStr) : Act Unit := do
  specs.forM (argsParseSpec sys)
  logInit sys

/-- `monttyCreate` up to the creation of the tty. -/
def monttyInit : Act Unit := do
  let g := (← get).gbls
  let link ← pidPath sys g g.monttylinkdir (bytes ".mon")
  ttyInit .mon (some link) none none none none

/-- `bcstttyInit` up to the creation of the tty. -/
def bcstttyFill : Act Unit := do
  updGbls fun g =>
    { g with bcstttylink := some (g.bcstttylink.getD (cwdPrefix g (some (bytes "bcsttty")))) }
  ttyInitLinked .bcst ((← get).gbls.bcstttylink.getD [])

/-- The calls of `ttyCreate` made from the state that a part of `main` returns in. -/
def createsAfter (m : Act Unit) (calls : World → List (TtyRef × World)) (w : World) :
    List (TtyRef × World) :=
  match m w with
  | .ok _ w₁ => calls w₁
  | .error _ _ => []

/-- The calls of `ttyCreate` that the creation of the commands comes to. -/
def specCreates : List CStr → World → List (TtyRef × World)
  | [], _ => []
  | spec :: specs, w => addCreates sys spec w ++ createsAfter (mainAddCmd sys spec) (specCreates specs) w

/-- The calls of `ttyCreate` that `main` comes to. -/
def startCreates (o : Options) : List (TtyRef × World) :=
  createsAfter (mainInit sys o.specs) (fun w =>
    createsAfter (monttyInit sys) (fun w₁ => [(.mon, w₁)]) w ++
    createsAfter (do monttyCreate sys; fsCreate sys) (fun w₁ => specCreates sys o.specs w₁ ++
      createsAfter (do o.specs.forM (mainAddCmd sys); bcstttyFill)
        (fun w₂ => if w₂.gbls.bcstflg then [(.bcst, w₂)] else []) w₁) w) (boot o)

end

variable {sys : Sys} {N L : CStr → Option Node} {w w' : World} {r : TtyRef} {cs cs' : List (TtyRef × World)}

lemma createsAfter_ok {m : Act Unit} {calls : World → List (TtyRef × World)} {u : Unit}
    (h : m w = .ok u w') : createsAfter m calls w = calls w' := by rw [createsAfter, h]

lemma free_append : Free sys (cs ++ cs') ↔ Free sys cs ∧ Free sys cs' := by
  simp only [Free, List.mem_append, or_imp, forall_and]

/-! ## `main` -/

/-- What holds between the parts of `main` before the broadcast tty. -/
structure Stage (sys : Sys) (N L : CStr → Option Node) (w : World) : Prop where
  dir : DirInv sys N L w
  table : TableInv w
  bcst : ttyNames (w.ttys .bcst) = []

instance (r : TtyRef) (ttylink : CStr) : NoExit (ttyInitLinked r ttylink) := by
  unfold ttyInitLinked; infer_instance

instance : NoExit (theLoopRegister sys) := by unfold theLoopRegister; infer_instance

lemma TableInv.brk_notMem (h : TableInv w) : w.brk ∉ w.gbls.cmds :=
  fun hbrk => Nat.lt_irrefl _ (h.lt_brk _ hbrk)

lemma GBLSAddCmd_tableInv {cstr : CStr} {res : Option CmdId} (h : TableInv w)
    (ha : GBLSAddCmd sys cstr w = .ok res w') : TableInv w' := by
  rcases GBLSAddCmd_cases ha with ⟨-, hn⟩ | ⟨id, spec, -, hadded⟩
  · exact h.kept hn.tableKept
  · exact h.added hadded

lemma pidPath_holding {g : Globals} {dir : Option CStr} {suffix : CStr} (h : DirInv sys N L w) :
    Ensures (pidPath sys g dir suffix) w (fun _ w' => w' = w) (Restored sys L) :=
  Ensures.ite (fun _ => Ensures.pure rfl) fun _ => exit_holding h

lemma monttyCreate_holding (h : Stage sys N L w) (hn : ttyNames (w.ttys .mon) = [])
    (hfree : Free sys (createsAfter (monttyInit sys) (fun w₁ => [(.mon, w₁)]) w)) :
    Ensures (monttyCreate sys) w (fun _ w' => Stage sys N L w' ∧ w'.gbls = w.gbls ∧
      w'.kern.mounts = w.kern.mounts) (Restored sys L) := by
  suffices hmain : Ensures (monttyCreate sys) w (fun _ w' => DirInv sys N L w' ∧
      ttyNames (w'.ttys .bcst) = [] ∧ w'.gbls = w.gbls ∧ w'.kern.mounts = w.kern.mounts) (Restored sys L) by
    refine ⟨fun u w' hm => ?_, hmain.error⟩
    have hmod : Modifies setupParts w w' := monttyCreate_modifies sys (fun _ hp => .inl (.inl hp)) hm
    obtain ⟨hdir, hbcst, hsame⟩ := hmain.ok u w' hm
    exact ⟨⟨hdir, h.table.kept (hmod.tableKept fun _ => setupParts_ofTable), hbcst⟩, hsame⟩
  refine Ensures.get_bind (Ensures.bind (pidPath_holding h.dir) fun link w₁ hpath hw₁ => ?_)
  subst hw₁
  have hown : Holding sys N L (fun r => Linking w₁ r ∧ r ≠ .mon) w₁ := h.dir.mono fun r hr => by
    refine ⟨And.left, fun hl => ⟨hl, ?_⟩⟩
    rintro rfl
    exact hr hn
  refine h.dir.toLinksInv.bind fun _ w₂ hinit hd => ?_
  obtain ⟨ha, -, -, -⟩ := ttyInit_names hinit
  have h₂ := hown.around (by simp) hd ha
  have hrun : monttyInit sys w₁ = .ok () w₂ := get_bind_eq_ok.mpr ((bind_of_ok hpath).trans hinit)
  rw [createsAfter_ok hrun] at hfree
  refine Ensures.bind (ttyCreate_holding h₂ (by simp) (hfree _ (List.mem_singleton_self _)))
    fun b w₃ _ htried => ?_
  have hbcst : ttyNames (w₃.ttys .bcst) = [] := by
    rw [htried.around.ttyNames _ (by simp), ha.ttyNames _ (by simp), h.bcst]
  have hlink : (fun r => (Linking w₁ r ∧ r ≠ .mon) ∨ r = .mon) = Linking w₃ := by
    rw [htried.around.linking, ha.linking]
    funext r
    by_cases hr : r = .mon
    · simp [hr, Linking]
    · simp [hr]
  have h₃ : DirInv sys N L w₃ := by
    have hh := htried.holding
    rwa [hlink] at hh
  exact Ensures.when (fun _ => exit_holding h₃) fun _ => ⟨h₃, hbcst, htried.around.gbls.trans ha.gbls,
    htried.around.mounts.trans ha.mounts⟩

/-- With the mount point made, and the file system mounted on it or not. -/
lemma DirInv.mounted {mntpt : CStr} {ms : List CStr} (h : DirInv sys N L w) (hmk : w.gbls.fsmkdir = false)
    (hms : ∀ q ∈ ms, q = sys.resolve mntpt) (hfree : w.kern.names (sys.resolve mntpt) = none)
    (hdir : dirView w' = { dirView w with
      names := Function.update w.kern.names (sys.resolve mntpt) (some .dir)
      mounts := ms
      premises := premises { w.gbls with fsmkdir := true, fsmntpt := some mntpt } })
    (htrace : w'.trace = w.trace) (hn : w'.ttys = w.ttys) (hlink : Linking w' = Linking w) :
    DirInv sys (Function.update N (sys.resolve mntpt) (some .dir)) L w' := by
  have hnames : w'.kern.names = _ := congrArg DirView.names hdir
  have hmounts : w'.kern.mounts = ms := congrArg DirView.mounts hdir
  have hp : premises w'.gbls = _ := congrArg DirView.premises hdir
  simp only [premises, Prod.mk.injEq] at hp
  obtain ⟨hmk', hmnt, hfile, hpath, hkeep⟩ := hp
  have hground := h.toLinksInv.ground_of_free hfree
  have hentry : mountEntry sys w.gbls = none := by simp [mountEntry, hmk]
  have hentry' : mountEntry sys w'.gbls = some (sys.resolve mntpt) := by simp [mountEntry, hmk', hmnt]
  have hlog : logEntry sys w'.gbls = logEntry sys w.gbls := by rw [logEntry, logEntry, hfile, hpath]
  refine ⟨h.toLinksInv.update (h.toLinksInv.made_of_names (.inl hfree)) hnames htrace,
    ⟨fun q hq => ?_, fun q hq => ?_, fun q hq => ?_, fun q => ?_⟩, fun q r => ?_⟩
  · obtain rfl := Option.some_inj.mp (hentry'.symm.trans hq)
    exact Function.update_self ..
  · rw [hentry', hms q (hmounts ▸ hq)]
  · have hq' := h.log q (hlog ▸ hq)
    have hne : q ≠ sys.resolve mntpt := by
      rintro rfl
      exact hq'.1 hground
    rw [Function.update_of_ne hne]
    exact hq'
  · rw [h.left]
    by_cases hq : q = sys.resolve mntpt
    · subst hq
      rw [if_pos (show Passing sys w'.gbls _ from .inl hentry'), hground, ite_self]
    · have hne : mountEntry sys w'.gbls ≠ some q := by
        rw [hentry']
        exact fun heq => hq (Option.some_inj.mp heq).symm
      rw [Function.update_of_ne hq]
      simp only [Passing, hentry, hne, hlog, hkeep, false_or, reduceCtorEq]
  · rw [hlink, made, htrace, hn]
    exact h.held q r

lemma fsCreate_holding (h : Stage sys N L w) (hmk : w.gbls.fsmkdir = false) (hms : w.kern.mounts = []) :
    Ensures (fsCreate sys) w (fun _ w' => Stage sys
      (Function.update N (sys.resolve (mountPath w.gbls)) (some .dir)) L w' ∧
      N (sys.resolve (mountPath w.gbls)) = none) (Restored sys L) := by
  suffices hmain : Ensures (fsCreate sys) w (fun _ w' =>
      DirInv sys (Function.update N (sys.resolve (mountPath w.gbls)) (some .dir)) L w' ∧
      ttyNames (w'.ttys .bcst) = []) (Restored sys L) by
    refine ⟨fun u w' hf => ?_, hmain.error⟩
    have hmod : Modifies setupParts w w' :=
      fsCreate_modifies sys (by simp [setupParts]) (by simp [setupParts, ttyParts]) hf
    obtain ⟨hdir, hbcst⟩ := hmain.ok u w' hf
    exact ⟨⟨hdir, h.table.kept (hmod.tableKept fun _ => setupParts_ofTable), hbcst⟩,
      h.dir.toLinksInv.ground_of_free (fsCreate_mounts hf).1⟩
  refine Ensures.get_bind (Ensures.bind (Q := fun mntpt w' => mntpt = mountPath w.gbls ∧ w' = w)
    ⟨fun _ _ hp => pidPath_ok hp, (pidPath_holding h.dir).error⟩ fun mntpt w₁ _ hpath => ?_)
  obtain ⟨rfl, rfl⟩ := hpath
  have named (k : ℕ) : DirInv sys N L { w₁ with
      gbls.fsmntpt := some (mountPath w₁.gbls), kern.calls := k } := by
    refine ⟨⟨h.dir.own, h.dir.names, h.dir.fresh⟩, h.dir.toSetting.of_entries rfl ?_ rfl rfl, h.dir.held⟩
    simp [mountEntry, hmk]
  refine Ensures.modify_bind (Ensures.bind (Q := fun b w₂ =>
    (b = false ∧ DirInv sys N L w₂) ∨ (b = true ∧ w₁.kern.names (sys.resolve (mountPath w₁.gbls)) = none ∧
      w₂ = { called w₁ with
        gbls.fsmntpt := some (mountPath w₁.gbls)
        kern.names := Function.update w₁.kern.names (sys.resolve (mountPath w₁.gbls)) (some .dir) }))
    (Ensures.of_returns (mkdir_returns _) fun b w₂ hmkdir => ?_) fun b w₂ _ hmade => ?_)
  · rcases mkdir_cases hmkdir with ⟨rfl, rfl⟩ | ⟨rfl, hfree, rfl⟩
    · exact .inl ⟨rfl, named _⟩
    · exact .inr ⟨rfl, hfree, rfl⟩
  rcases hmade with ⟨rfl, h₂⟩ | ⟨rfl, hfree, rfl⟩
  · exact Ensures.bind (Q := fun _ _ => False) (Ensures.when (fun _ => exit_holding h₂) fun hne => hne rfl)
      fun _ _ _ hfalse => hfalse.elim
  have mounted (k : ℕ) (ms : List CStr) (hms' : ∀ q ∈ ms, q = sys.resolve (mountPath w₁.gbls)) :
      DirInv sys (Function.update N (sys.resolve (mountPath w₁.gbls)) (some .dir)) L { w₁ with
        gbls.fsmntpt := some (mountPath w₁.gbls)
        gbls.fsmkdir := true
        kern.calls := k
        kern.mounts := ms
        kern.names := Function.update w₁.kern.names (sys.resolve (mountPath w₁.gbls)) (some .dir) } :=
    DirInv.mounted h.dir hmk hms' hfree rfl rfl rfl rfl
  refine Ensures.bind_of_eq (a := ()) rfl (Ensures.modify_bind (Ensures.bind (Q := fun _ w₃ =>
    DirInv sys (Function.update N (sys.resolve (mountPath w₁.gbls)) (some .dir)) L w₃ ∧
      ttyNames (w₃.ttys .bcst) = []) (Ensures.of_returns (fuse_session_mount_returns _)
        fun b w₃ hmount => ?_) fun b w₃ _ h₃ => ?_))
  · rcases fuse_session_mount_cases hmount with ⟨-, rfl⟩ | ⟨-, rfl⟩
    · exact ⟨mounted _ w₁.kern.mounts (by simp [hms]), h.bcst⟩
    · exact ⟨mounted _ (_ :: w₁.kern.mounts) (by simp [hms]), h.bcst⟩
  · exact Ensures.when (fun _ => exit_holding h₃.1) fun _ => h₃

lemma mainAddCmd_holding {spec : CStr} (h : Stage sys N L w) (hfree : Free sys (addCreates sys spec w)) :
    Ensures (mainAddCmd sys spec) w (fun _ => Stage sys N L) (Restored sys L) := by
  refine Ensures.bind (GBLSAddCmd_holding h.dir h.table.brk_notMem hfree)
    fun res w₁ hadd ⟨h₁, _, hbcst⟩ => ?_
  exact Ensures.require (fun _ => ⟨h₁, GBLSAddCmd_tableInv h.table hadd, hbcst.trans h.bcst⟩)
    fun _ => h₁.toLinksInv.restored rfl nofun

lemma specs_holding {specs : List CStr} (h : Stage sys N L w) (hfree : Free sys (specCreates sys specs w)) :
    Ensures (specs.forM (mainAddCmd sys)) w (fun _ => Stage sys N L) (Restored sys L) := by
  induction specs generalizing w with
  | nil => exact Ensures.pure h
  | cons spec specs ih =>
    rw [specCreates, free_append] at hfree
    obtain ⟨hspec, hspecs⟩ := hfree
    refine Ensures.bind (mainAddCmd_holding h hspec) fun u w₁ hadd h₁ => ih h₁ ?_
    rwa [createsAfter_ok hadd] at hspecs

lemma bcstttyInit_holding (h : Stage sys N L w)
    (hfree : Free sys (createsAfter bcstttyFill
      (fun w₁ => if w₁.gbls.bcstflg then [(.bcst, w₁)] else []) w)) :
    Ensures (bcstttyInit sys) w (fun _ => DirInv sys N L) (Restored sys L) := by
  have hown : Holding sys N L (fun r => Linking w r ∧ r ≠ .bcst) w := h.dir.mono fun r hr => by
    refine ⟨And.left, fun hl => ⟨hl, ?_⟩⟩
    rintro rfl
    exact hr h.bcst
  refine Ensures.bind (Q := fun _ w₀ => linkView w₀ = linkView w) (Ensures.modifyState rfl)
    fun _ w₀ hset hv => Ensures.get_bind ?_
  refine LinksInv.bind (h.dir.toLinksInv.congr (linkView_dir hv)) fun u w₁ hinit hd => ?_
  have hrun : bcstttyFill w = .ok () w₁ := (bind_of_ok hset).trans hinit
  rw [createsAfter_ok hrun] at hfree
  replace hinit := get_bind_eq_ok.mp hinit
  obtain ⟨ha, -, -, -⟩ := ttyInit_names hinit
  have h₀ := hown.congr (linkView_dir hv) fun r _ => linkView_ttyNames hv r
  have h₁ := h₀.around (by simp) hd ha
  have hlink : Linking w₁ = Linking w := ha.linking.trans (linking_congr hv)
  rw [← hlink] at h₁
  refine bcstttyCreate_holding h₁ fun hflg => ?_
  rw [if_pos hflg] at hfree
  exact hfree _ (List.mem_singleton_self _)

/-- The directory with the log and the mount point in it, which the links of the ttys come on top of. -/
def grounds (sys : Sys) (o : Options) : CStr → Option Node :=
  Function.update (logged sys o) (sys.resolve (mntPath o)) (some .dir)

/-- What has been free for the mount point and the log. -/
structure Placed (sys : Sys) (o : Options) : Prop where
  mount : logged sys o (sys.resolve (mntPath o)) = none
  log : ∀ p, logPath o = some p → o.names (sys.resolve p) ≠ some .dir

/-- What an early end of `main` leaves. -/
structure EndsTidy (sys : Sys) (o : Options) (e : Halt) (w : World) : Prop where
  own : OwnUnlinks sys w.trace
  left : e = .exit → Tidy (leftBehind sys o) w ∨
    mainInit sys o.specs (boot o) = .error .exit w ∧ EndedEarly sys o w

lemma Restored.ended {e : Halt} {o : Options} (h : Restored sys (leftBehind sys o) e w) : EndsTidy sys o e w :=
  ⟨h.own, fun he => .inl (h.left he)⟩

lemma mainInit_logging (o : Options) : Ensures (mainInit sys o.specs) (boot o) (fun _ => Logging sys o)
    (fun _ => EndedEarly sys o) :=
  Ensures.bind (Ensures.forM (fun spec _ _ hs => (argsParseSpec_parsing hs spec).mono (fun _ _ h => h)
    fun _ _ h => h.ended) ⟨rfl, rfl, rfl, rfl, rfl⟩) fun _ _ _ h => logInit_logging h

lemma EndedEarly.own {o : Options} (h : EndedEarly sys o w) : OwnUnlinks sys w.trace := by
  rw [h.trace]
  trivial

lemma Logging.stage {o : Options} (h : Logging sys o w) : Stage sys (logged sys o) (leftBehind sys o) w := by
  have hnames (r : TtyRef) : ttyNames (w.ttys r) = [] := by
    rw [h.ttys]
    rfl
  have hmade (q : CStr) : made sys w q = none := by
    rw [made, h.trace]
    rfl
  refine ⟨⟨⟨h.trace ▸ trivial, fun q => ?_, fun q r hq => ?_⟩, h.setting, fun q r => ?_⟩,
    ⟨h.cmds ▸ List.nodup_nil, fun id hid => ?_⟩, hnames .bcst⟩
  · rw [hmade, h.names]
    rfl
  · cases (hmade q).symm.trans hq
  · simp [hmade, hnames, entries]
  · rw [h.cmds] at hid
    cases hid

/-- `main` leaves the invariant, or an early end that is in order. -/
lemma main_holding {o : Options} (hfree : Free sys (startCreates sys o)) :
    Ensures (main sys o.specs) (boot o) (fun _ w => DirInv sys (grounds sys o) (leftBehind sys o) w ∧
      Placed sys o) (EndsTidy sys o) := by
  have hsplit : main sys o.specs = (do
      mainInit sys o.specs
      monttyCreate sys
      fsCreate sys
      o.specs.forM (mainAddCmd sys)
      bcstttyInit sys
      theLoopRegister sys) := by simp only [main, mainInit, bind_assoc]
  rw [hsplit]
  refine Ensures.bind (Q := fun _ => Logging sys o) ⟨(mainInit_logging o).ok, fun e w hinit => ?_⟩
    fun _ w₁ hinit hlog => Ensures.mono (E := Restored sys (leftBehind sys o)) ?_ (fun _ _ h => h)
      fun _ _ h => h.ended
  · have hearly := (mainInit_logging o).error e w hinit
    exact ⟨hearly.own, fun he => .inr ⟨he ▸ hinit, hearly⟩⟩
  rw [startCreates, createsAfter_ok hinit, free_append] at hfree
  obtain ⟨hmon, hfree⟩ := hfree
  have hn : ttyNames (w₁.ttys .mon) = [] := by
    rw [hlog.ttys]
    rfl
  refine Ensures.bind (monttyCreate_holding hlog.stage hn hmon) fun _ w₂ hmonRun ⟨h₂, hg, hm⟩ => ?_
  have hpath : mountPath w₂.gbls = mntPath o := hg ▸ hlog.mountPath
  have hfs := fsCreate_holding h₂ (hg ▸ hlog.fsmkdir) (hm.trans hlog.mounts)
  rw [hpath] at hfs
  refine Ensures.bind hfs fun _ w₃ hfsRun ⟨h₃, hmount⟩ => ?_
  rw [createsAfter_ok ((bind_of_ok hmonRun).trans hfsRun), free_append] at hfree
  obtain ⟨hspecs, hbcst⟩ := hfree
  refine Ensures.bind (specs_holding h₃ hspecs) fun _ w₄ hspecsRun h₄ => ?_
  refine Ensures.bind (bcstttyInit_holding h₄ ?_) fun _ w₅ _ h₅ =>
    (DirInv.linkless h₅).mono (fun _ _ hdir => ⟨hdir, hmount, hlog.file⟩) fun _ _ he => he
  have hsame : createsAfter (do o.specs.forM (mainAddCmd sys); bcstttyFill)
      (fun w₂ => if w₂.gbls.bcstflg then [(.bcst, w₂)] else []) w₃ =
      createsAfter bcstttyFill (fun w₂ => if w₂.gbls.bcstflg then [(.bcst, w₂)] else []) w₄ := by
    unfold createsAfter
    rw [bind_of_ok hspecsRun]
  rwa [← hsame]

/-! ## Runs -/

/-- A run from `main` with the options on, no creation of which comes upon a name that something else has. -/
structure FreeRun (sys : Sys) (o : Options) (w : World) : Prop where
  start : Free sys (startCreates sys o)
  run : Reach (Started sys o) (Step sys) (FreeNames sys) w

/-- The directory is what it was at first, with the mount point, the log and the links of the ttys there
are. -/
structure WithLinks (sys : Sys) (o : Options) (w : World) : Prop where
  mount : o.names (sys.resolve (mntPath o)) = none ∧ w.kern.names (sys.resolve (mntPath o)) = some .dir
  log : ∀ p, logPath o = some p → o.names (sys.resolve p) ≠ some .dir ∧
    w.kern.names (sys.resolve p) = some ((o.names (sys.resolve p)).getD .other)
  links : ∀ r, Linking w r → ∀ q ∈ entries sys (ttyNames (w.ttys r)),
    o.names q = none ∧ w.kern.names q = some (.sym r)
  rest : ∀ q, q ≠ sys.resolve (mntPath o) → (∀ p, logPath o = some p → q ≠ sys.resolve p) →
    (∀ r, Linking w r → q ∉ entries sys (ttyNames (w.ttys r))) → w.kern.names q = o.names q

variable {o : Options}

lemma env_linkView (e : Env) (w : World) : linkView (e.apply w) = linkView w := by
  cases e with
  | closed r wr =>
    simp only [Env.apply]
    split <;> rfl
  | _ => rfl

lemma act_holding {e : Event} (h : DirInv sys N L w) (ht : TableInv w) (hfree : FreeNames sys w e) :
    Ensures (e.act sys) w (fun _ => DirInv sys N L) (Restored sys L) := by
  cases e with
  | env e => exact Ensures.modifyState (DirInv.congr h (env_linkView e w))
  | hdlr s x => exact hdlr_holding h ht.brk_notMem hfree

lemma FreeRun.reachable (h : FreeRun sys o w) : Reachable sys (FreeNames sys) w := ⟨o, h.run⟩

lemma FreeRun.dirInv (h : FreeRun sys o w) : DirInv sys (grounds sys o) (leftBehind sys o) w := by
  refine h.run.invariant (fun w hs => ((main_holding h.start).ok () w hs).1) fun w e w' hr hw hok hstep => ?_
  exact (act_holding hw (reachable_tableInv ⟨o, hr⟩) hok).ok () w' hstep

lemma FreeRun.placed (h : FreeRun sys o w) : Placed sys o :=
  h.run.invariant (P := fun _ => Placed sys o) (fun w hs => ((main_holding h.start).ok () w hs).2)
    fun _ _ _ _ hw _ _ => hw

lemma exists_freeRun (sys : Sys) (o : Options) (es : List Event) (p : World → Bool)
    (hstart : Free sys (startCreates sys o)) (h : (runFrom sys (FreeNames sys) o es).any p = true) :
    ∃ w, FreeRun sys o w ∧ p w = true := by
  obtain ⟨w, hw, hp⟩ := (Option.any_eq_true _ _).mp h
  unfold runFrom at hw
  split at hw
  · exact ⟨w, ⟨hstart, runEvents_reach (.start ‹_›) hw⟩, hp⟩
  · cases hw

/-- What a start unlinks, cut short as it may be. -/
lemma own_start (hstart : Free sys (startCreates sys o)) :
    OwnUnlinks sys (after (main sys o.specs) (boot o)).trace :=
  (main_holding hstart).after (fun _ _ h => h.1.own) fun _ _ h => h.own

/-- What a step unlinks, cut short as it may be. -/
lemma FreeRun.own_step {e : Event} (hw : FreeRun sys o w) (hfree : FreeNames sys w e) :
    OwnUnlinks sys (after (e.act sys) w).trace :=
  (act_holding hw.dirInv (reachable_tableInv hw.reachable) hfree).after (fun _ _ h => h.own) fun _ _ h => h.own

/-- Everything that a run unlinks, cut short as it may be, had been made for the same tty and not been
removed since. -/
theorem unlinks_own (hstart : Free sys (startCreates sys o)) :
    OwnUnlinks sys (after (main sys o.specs) (boot o)).trace ∧
      ∀ w e, FreeRun sys o w → FreeNames sys w e → OwnUnlinks sys (after (e.act sys) w).trace :=
  ⟨own_start hstart, fun _ _ hw hfree => hw.own_step hfree⟩

deriving instance DecidableEq for Obs

/-- The call with this number fails. -/
def failsAt (k : ℕ) : Sys := { quietSys with fails := (· == k) }

/-- The monitor is told to add a command. -/
def addB : Event := .hdlr (.dom .mon) { line := some (bytes "add b,,,1,y") }

/-- There is a file in the directory that yar has nothing to do with. -/
def withFile : Options := { oneCmd with names := fun q => if q = bytes "/h/f" then some .other else none }

/-- The third link of the new command cannot be made, and the cleanup removes the other two. -/
theorem unlinks_own_failed_add : ∃ w, FreeRun (failsAt 29) oneCmd w ∧
    OwnUnlinks (failsAt 29) (after (addB.act (failsAt 29)) w).trace ∧
    Obs.unlink (.clt 1) (bytes "/h/b.mon") (.sym (.clt 1)) ∈ (after (addB.act (failsAt 29)) w).trace := by
  obtain ⟨w, hw, hp⟩ := exists_freeRun (failsAt 29) oneCmd [] (fun w => decide (FreeNames (failsAt 29) w addB ∧
    Obs.unlink (.clt 1) (bytes "/h/b.mon") (.sym (.clt 1)) ∈ (after (addB.act (failsAt 29)) w).trace))
    (by decide +kernel) (by decide +kernel)
  obtain ⟨hfree, hmem⟩ := of_decide_eq_true hp
  exact ⟨w, hw, (unlinks_own hw.start).2 w addB hw hfree, hmem⟩

/-- What is swept is nothing exactly if there is nothing to be unlinked. -/
lemma swept_eq_iff {names : CStr → Option Node} {ps : List CStr} :
    swept sys ps names = names ↔ Unoccupied sys names ps := by
  refine ⟨fun h p hp hne => ?_, fun h => ?_⟩
  · have hq := congrFun h (sys.resolve p)
    unfold swept at hq
    by_cases hdir : names (sys.resolve p) = some .dir
    · exact .inr hdir
    · rw [if_pos ⟨mem_entries hne hp, hdir⟩] at hq
      exact .inl hq.symm
  · funext q
    unfold swept
    split
    · rename_i hq
      obtain ⟨p, hp, rfl⟩ := List.mem_map.mp hq.1
      obtain ⟨hp, hne⟩ := List.mem_filter.mp hp
      exact ((h p hp (by simpa using hne)).resolve_right hq.2).symm
    · rfl

lemma restores_iff (h : ttyCreate sys r w = .ok false w') :
    w'.kern.names = w.kern.names ↔ Unoccupied sys w.kern.names (ttyNames (w.ttys r)) := by
  rw [(ttyCreate_swept h).2]
  exact swept_eq_iff

/-- A creation that fails leaves the directory as it was exactly if it came upon no name that something
else has: its cleanup removes whatever is there. -/
theorem failed_creation_restores (h : ttyCreate sys r w = .ok false w') :
    w'.kern.names = w.kern.names ↔ Unoccupied sys w.kern.names (ttyNames (w.ttys r)) :=
  restores_iff h

/-- A tty whose link is to be made where a file is. -/
def onFile : World := { boot withFile with ttys := fun _ => { link := some (bytes "/h/f") } }

/-- The creation fails. -/
def createFails (sys : Sys) (r : TtyRef) (w : World) : Bool :=
  match ttyCreate sys r w with
  | .ok b _ => !b
  | .error _ _ => false

lemma exists_failed (sys : Sys) (r : TtyRef) (w : World) (h : createFails sys r w = true) :
    ∃ w', ttyCreate sys r w = .ok false w' := by
  unfold createFails at h
  split at h
  · rename_i b w' hrun
    obtain rfl : b = false := by simpa using h
    exact ⟨w', hrun⟩
  · cases h

/-- The file is gone after the creation that has failed for it. -/
theorem failed_creation_removes : ∃ w', ttyCreate quietSys .mon onFile = .ok false w' ∧
    ¬Unoccupied quietSys onFile.kern.names (ttyNames (onFile.ttys .mon)) ∧
    w'.kern.names ≠ onFile.kern.names := by
  have hocc : ¬Unoccupied quietSys onFile.kern.names (ttyNames (onFile.ttys .mon)) := by decide +kernel
  obtain ⟨w', hw'⟩ := exists_failed quietSys .mon onFile (by decide +kernel)
  exact ⟨w', hw', hocc, fun h => hocc ((failed_creation_restores hw').mp h)⟩

/-! ## What is removed -/

/-- Every entry unlinked so far was the tty's own, and each of the creations that fails leaves the
directory as it was. -/
structure RemovesOwn (sys : Sys) (t : List Obs) (cs : List (TtyRef × World)) : Prop where
  own : OwnUnlinks sys t
  failed : ∀ c ∈ cs, ∀ w', ttyCreate sys c.1 c.2 = .ok false w' → w'.kern.names = c.2.kern.names

lemma Free.removesOwn {t : List Obs} (hfree : Free sys cs) (hown : OwnUnlinks sys t) : RemovesOwn sys t cs :=
  ⟨hown, fun c hc _ hfail => (restores_iff hfail).mpr (hfree c hc)⟩

/-- As long as no creation comes upon a name that something else has, yar removes only what it has made. -/
theorem removes_own (hstart : Free sys (startCreates sys o)) :
    RemovesOwn sys (after (main sys o.specs) (boot o)).trace (startCreates sys o) ∧
      ∀ w e, FreeRun sys o w → FreeNames sys w e →
        RemovesOwn sys (after (e.act sys) w).trace (ttyCreates sys w e) :=
  ⟨hstart.removesOwn (own_start hstart), fun _ _ hw hfree => Free.removesOwn hfree (hw.own_step hfree)⟩

/-- The second link of the new command cannot be made. -/
theorem removes_own_failed_add : ∃ w, FreeRun (failsAt 28) withFile w ∧
    RemovesOwn (failsAt 28) (after (addB.act (failsAt 28)) w).trace (ttyCreates (failsAt 28) w addB) ∧
    (ttyCreates (failsAt 28) w addB).any (fun c => createFails (failsAt 28) c.1 c.2) = true ∧
    Obs.unlink (.clt 1) (bytes "/h/b") (.sym (.clt 1)) ∈ (after (addB.act (failsAt 28)) w).trace := by
  obtain ⟨w, hw, hp⟩ := exists_freeRun (failsAt 28) withFile [] (fun w => decide (FreeNames (failsAt 28) w addB ∧
    (ttyCreates (failsAt 28) w addB).any (fun c => createFails (failsAt 28) c.1 c.2) = true ∧
    Obs.unlink (.clt 1) (bytes "/h/b") (.sym (.clt 1)) ∈ (after (addB.act (failsAt 28)) w).trace))
    (by decide +kernel) (by decide +kernel)
  obtain ⟨hfree, hfail, hmem⟩ := of_decide_eq_true hp
  exact ⟨w, hw, (removes_own hw.start).2 w addB hw hfree, hfail, hmem⟩

/-- The monitor is told to add a command that has the name of the file. -/
def addF : Event := .hdlr (.dom .mon) { line := some (bytes "add f,,,1,y") }

/-- The addition fails, and the file is gone. -/
theorem not_always_removes_own : ¬∀ (sys : Sys) (w : World) (e : Event), Reachable sys (fun _ _ => True) w →
    RemovesOwn sys (after (e.act sys) w).trace (ttyCreates sys w e) := by
  intro hall
  obtain ⟨w, hw, hp⟩ := exists_reachable quietSys (fun _ _ => True) withFile []
    (fun w => decide ¬OwnUnlinks quietSys (after (addF.act quietSys) w).trace) (by decide +kernel)
  exact of_decide_eq_true hp (hall quietSys w addF hw).own

/-! ## What is there, and what is left -/

/-- Between handlers the directory is what it was at first, with the mount point, the log and the links of
the ttys there are. -/
theorem directory_exact (hw : FreeRun sys o w) : WithLinks sys o w := by
  have h := hw.dirInv
  obtain ⟨hfree, hfile⟩ := hw.placed
  have hgrounds {q : CStr} (hq : q ≠ sys.resolve (mntPath o)) : grounds sys o q = logged sys o q :=
    Function.update_of_ne hq _ _
  have hmount : grounds sys o (sys.resolve (mntPath o)) = some .dir := Function.update_self ..
  refine ⟨⟨free_of_logged hfree, ?_⟩, fun p hp => ⟨hfile p hp, ?_⟩, fun r hr q hq => ?_,
    fun q hmnt hlog hq => ?_⟩
  · rw [h.toLinksInv.names_of_ground (by simp [hmount]), hmount]
  · have hthere : logged sys o (sys.resolve p) = some ((o.names (sys.resolve p)).getD .other) :=
      logged_of_path hp
    have hne : sys.resolve p ≠ sys.resolve (mntPath o) := by
      intro heq
      rw [heq, hfree] at hthere
      cases hthere
    rw [h.toLinksInv.names_of_ground (by simp [hgrounds hne, hthere]), hgrounds hne, hthere]
  · have hmade := (h.held q r).mpr ⟨hr, hq⟩
    have hnone := h.fresh q r hmade
    have hne : q ≠ sys.resolve (mntPath o) := by
      rintro rfl
      cases hmount.symm.trans hnone
    exact ⟨free_of_logged ((hgrounds hne).symm.trans hnone), h.names_of_made hmade⟩
  · have hnone : made sys w q = none := by
      rw [Option.eq_none_iff_forall_ne_some]
      intro r hr
      obtain ⟨hlink, hmem⟩ := (h.held q r).mp hr
      exact hq r hlink hmem
    rw [h.names, hnone]
    exact (hgrounds hmnt).trans (logged_of_ne hlog)

/-- The output goes to a log, which is kept. -/
def withLog : Options := { withFile with logdir := some (bytes "/h"), keeplog := true }

/-- The second command has brought the broadcast tty along, and a file of the user is still there. -/
theorem directory_exact_added : ∃ w, FreeRun quietSys withLog w ∧ WithLinks quietSys withLog w ∧
    w.kern.names (bytes "/h/bcsttty.fs") = some (.sym .bcst) ∧ w.kern.names (bytes "/h/f") = some .other ∧
    w.kern.names (bytes "/h/7.fs") = some .dir ∧ w.kern.names (bytes "/h/7.log") = some .other := by
  obtain ⟨w, hw, hp⟩ := exists_freeRun quietSys withLog [addB] (fun w => decide
    (w.kern.names (bytes "/h/bcsttty.fs") = some (.sym .bcst) ∧ w.kern.names (bytes "/h/f") = some .other ∧
      w.kern.names (bytes "/h/7.fs") = some .dir ∧ w.kern.names (bytes "/h/7.log") = some .other))
    (by decide +kernel) (by decide +kernel)
  exact ⟨w, hw, directory_exact hw, of_decide_eq_true hp⟩

/-- However yar comes to exit, nothing is left of it but a log that is kept. Only an exit before `cleanup`
has been registered may leave a log that is not to be kept. -/
theorem exit_restores (hstart : Free sys (startCreates sys o)) :
    (∀ w', main sys o.specs (boot o) = .error .exit w' → Tidy (leftBehind sys o) w' ∨
      mainInit sys o.specs (boot o) = .error .exit w' ∧ w'.kern.mounts = [] ∧
        (w'.kern.names = o.names ∨ w'.kern.names = logged sys o)) ∧
      ∀ w s x w', FreeRun sys o w → FreeNames sys w (.hdlr s x) → hdlr sys s x w = .error .exit w' →
        Tidy (leftBehind sys o) w' := by
  refine ⟨fun w' hm => ?_, fun w s x w' hw hfree hh => ?_⟩
  · rcases ((main_holding hstart).error _ w' hm).left rfl with htidy | ⟨hinit, hearly⟩
    · exact .inl htidy
    · exact .inr ⟨hinit, hearly.mounts, hearly.names⟩
  · have hact := act_holding hw.dirInv (reachable_tableInv hw.reachable) hfree
    exact (hact.error _ w' hh).left rfl

/-- The handler ends in `exit`. -/
def exits (sys : Sys) (s : Source) (x : Answer) (w : World) : Bool :=
  match hdlr sys s x w with
  | .error .exit _ => true
  | _ => false

lemma exists_exit {s : Source} {x : Answer} (h : exits sys s x w = true) :
    ∃ w', hdlr sys s x w = .error .exit w' := by
  unfold exits at h
  split at h
  · exact ⟨_, ‹_›⟩
  · cases h

/-- The last link of the broadcast tty cannot be made, and yar exits. -/
theorem exit_restores_failed : ∃ w w', FreeRun (failsAt 46) withLog w ∧
    hdlr (failsAt 46) (.dom .mon) { line := some (bytes "add b,,,1,y") } w = .error .exit w' ∧
    Tidy (leftBehind (failsAt 46) withLog) w' := by
  obtain ⟨w, hw, hp⟩ := exists_freeRun (failsAt 46) withLog [] (fun w => decide (FreeNames (failsAt 46) w addB) &&
    exits (failsAt 46) (.dom .mon) { line := some (bytes "add b,,,1,y") } w)
    (by decide +kernel) (by decide +kernel)
  obtain ⟨hfree, hexit⟩ := (Bool.and_eq_true _ _).mp hp
  obtain ⟨w', hw'⟩ := exists_exit hexit
  exact ⟨w, w', hw, hw', (exit_restores hw.start).2 w _ _ w' hw (of_decide_eq_true hfree) hw'⟩

end Yar.Proofs
