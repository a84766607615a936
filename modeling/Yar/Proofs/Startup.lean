import Yar.Proofs.Additions
import Yar.Proofs.Exits
import Yar.Proofs.Slowest

/-!
# The creation loop of main

The specifications of the command line are parsed a second time when their commands are created, now
against what the earlier ones have left. An addition that fails there trips an assertion, so nothing
is cleaned up.
-/

namespace Yar.Proofs

open Program

variable {sys : Sys} {w w' : World} {o : Options} {f : SpecFields} {fs : List SpecFields} {k : ℕ}

/-- `main` has come as far as the creation of the commands. -/
def SetUp (sys : Sys) (o : Options) (w : World) : Prop :=
  (do
    o.specs.forM (argsParseSpec sys)
    logInit sys
    monttyCreate sys
    fsCreate sys : Act Unit) (boot o) = .ok () w

/-- Every specification has its command. -/
def AllAdded (specs : List CStr) (w : World) : Prop :=
  ∃ fs : List SpecFields, specs = fs.map SpecFields.join ∧ (∀ f ∈ fs, CommaFree f) ∧
    w.gbls.cmds.map (fun id => (w.heap id).name) = fs.map SpecFields.name

/-- Nothing is mounted, and the directory is what it was before the start, but for the log. -/
structure CleanedUp (sys : Sys) (o : Options) (log : Option CStr) (w : World) : Prop where
  mounts : w.kern.mounts = []
  names : ∀ q, (∀ path, log = some path → q ≠ sys.resolve path) → w.kern.names q = o.names q

/-- The loop adds every command, or yar leaves with nothing of its own left in the file system. -/
def CreatedOrCleaned (sys : Sys) (o : Options) (w : World) : Prop :=
  (∃ w', o.specs.forM (mainAddCmd sys) w = .ok () w' ∧ AllAdded o.specs w') ∨
    ∃ w', o.specs.forM (mainAddCmd sys) w = .error .exit w' ∧ CleanedUp sys o w.gbls.logpath w'

/-- The calls that the additions need pass: eleven for each command, after its existence tests. -/
def AdditionsPass (sys : Sys) (k : ℕ) (fs : List SpecFields) : Prop :=
  match fs with
  | [] => True
  | f :: fs => CallsPass sys (k + parseCalls f + 3) 11 ∧ AdditionsPass sys (k + parseCalls f + 14) fs

instance decidableAdditionsPass (sys : Sys) :
    ∀ (k : ℕ) (fs : List SpecFields), Decidable (AdditionsPass sys k fs)
  | _, [] => .isTrue trivial
  | k, f :: fs =>
    have := decidableAdditionsPass sys (k + parseCalls f + 14) fs
    inferInstanceAs (Decidable (_ ∧ _))

/-- The links that the commands get. -/
def allLinks (sys : Sys) (w : World) (fs : List SpecFields) : List CStr :=
  fs.flatMap fun f => clientLinks w.gbls (f.spec sys w)

/-- Nothing stands in the way of the specifications: none asks for a log, no name is used twice, all
links are free and different from each other, and the calls that are needed pass. -/
structure Compatible (sys : Sys) (w : World) (fs : List SpecFields) : Prop where
  log : ∀ f ∈ fs, f.log = []
  fresh : ∀ f ∈ fs, w.hashFind f.name = none
  names : (fs.map SpecFields.name).Nodup
  links : FreePaths sys w.kern.names (allLinks sys w fs)
  calls : AdditionsPass sys w.kern.calls fs

instance (sys : Sys) (w : World) (fs : List SpecFields) : Decidable (Compatible sys w fs) :=
  decidable_of_iff ((∀ f ∈ fs, f.log = []) ∧ (∀ f ∈ fs, w.hashFind f.name = none) ∧
    (fs.map SpecFields.name).Nodup ∧ FreePaths sys w.kern.names (allLinks sys w fs) ∧
    AdditionsPass sys w.kern.calls fs)
    ⟨fun h => ⟨h.1, h.2.1, h.2.2.1, h.2.2.2.1, h.2.2.2.2⟩, fun h => ⟨h.1, h.2, h.3, h.4, h.5⟩⟩

/-- What the check in `argsParse` says about a specification that it has let through. -/
structure Accepted (sys : Sys) (f : SpecFields) : Prop extends CommaFree f where
  range : f.delay = [] ∨ sys.strtod f.delay ≠ none
  cmdline : f.cmdline ≠ []

/-- The state between two additions. -/
structure StartReady (w : World) : Prop where
  lt_brk : ∀ id ∈ w.gbls.cmds, id < w.brk
  clt : ∀ id, w.brk ≤ id → (w.ttys (.clt id)).link = none
  cmd : ∀ id, w.brk ≤ id → (w.ttys (.cmd id)).link = none
  mounted : w.gbls.fsmntpt ≠ none
  slowest : SlowestLive w

lemma StartReady.addReady (h : StartReady w) : AddReady w :=
  ⟨h.clt _ le_rfl, h.cmd _ le_rfl, h.mounted⟩

/-! ## One addition -/

/-- The command of one specification can be added. -/
structure SpecFits (sys : Sys) (w : World) (f : SpecFields) : Prop where
  log : f.log = []
  fresh : w.hashFind f.name = none
  links : FreePaths sys w.kern.names (clientLinks w.gbls (f.spec sys w))
  calls : CallsPass sys (w.kern.calls + parseCalls f + 3) 11

/-- The world after the addition of `f`. -/
def withCommand (sys : Sys) (w : World) (f : SpecFields) (s : Option CmdId) : World :=
  listed sys (f.spec sys w) (parsed f w) s

lemma clientLink_spec : clientLink w.gbls (f.spec sys w) =
    if f.link = [] then cwdPrefix w.gbls (some f.name) else f.link := by
  unfold clientLink SpecFields.spec nonempty
  by_cases hlink : f.link = []
  · simp [hlink]
  · simp [hlink]

lemma SpecFits.letThrough (h : SpecFits sys w f) (ha : Accepted sys f) : LetThrough sys w f := by
  refine ⟨ha.toCommaFree, ?_, ha.range, ha.cmdline⟩
  by_cases hlink : f.link = []
  · exact .inl hlink
  · refine .inr fun hexists => ?_
    have hfree := h.links.free (clientLink w.gbls (f.spec sys w)) (by simp [clientLinks])
    rw [clientLink_spec, if_neg hlink] at hfree
    obtain ⟨-, hsome, -⟩ := hexists
    rw [hfree] at hsome
    cases hsome

lemma nonempty_eq_none {s : CStr} : nonempty s = none ↔ s = [] := by
  unfold nonempty
  split <;> simp [*]

lemma canAdd_iff (hr : StartReady w) : CanAdd sys (f.spec sys w) (parsed f w) ↔
    f.log = [] ∧ FreePaths sys w.kern.names (clientLinks w.gbls (f.spec sys w)) ∧
      CallsPass sys (w.kern.calls + parseCalls f + 3) 11 := by
  constructor
  · exact fun h => ⟨nonempty_eq_none.mp h.log, h.ttys.links, h.ttys.calls⟩
  · exact fun h => ⟨nonempty_eq_none.mpr h.1, ⟨h.2.1, h.2.2⟩, hr.slowest⟩

lemma parsed_addReady (hr : StartReady w) : AddReady (parsed f w) :=
  ⟨hr.clt _ le_rfl, hr.cmd _ le_rfl, hr.mounted⟩

lemma mainAddCmd_ok (hr : StartReady w) (ha : Accepted sys f) {u : Unit}
    (h : mainAddCmd sys f.join w = .ok u w') :
    SpecFits sys w f ∧ ∃ s, (s = some w.brk ∨ s = w.gbls.slowestcmd) ∧ w' = withCommand sys w f s := by
  obtain ⟨cmd, w₁, hadd, h⟩ := bind_eq_ok.mp h
  obtain ⟨hsome, rfl⟩ := require_eq_ok.mp h
  obtain ⟨id, rfl⟩ := Option.isSome_iff_exists.mp hsome
  obtain ⟨-, hname, hnew⟩ := GBLSAddCmd_some ha.toCommaFree hadd
  obtain ⟨hcan, -, s, hs, hw⟩ := GBLSAddNew_some (parsed_addReady hr) hnew
  obtain ⟨hlog, hlinks, hcalls⟩ := (canAdd_iff hr).mp hcan
  exact ⟨⟨hlog, hname, hlinks, hcalls⟩, s, hs, hw⟩

lemma mainAddCmd_runs (hr : StartReady w) (ha : Accepted sys f) (hf : SpecFits sys w f) :
    ∃ w', mainAddCmd sys f.join w = .ok () w' := by
  obtain ⟨s, hrun⟩ := GBLSAddNew_runs (parsed_addReady hr)
    ((canAdd_iff hr).mpr ⟨hf.log, hf.links, hf.calls⟩)
  rw [← GBLSAddCmd_eq (hf.letThrough ha) hf.fresh] at hrun
  exact ⟨_, (bind_of_ok hrun).trans (require_eq_ok.mpr ⟨rfl, rfl⟩)⟩

section
variable {s : Option CmdId}

lemma withCommand_gbls : (withCommand sys w f s).gbls =
    { w.gbls with slowestcmd := s, cmds := w.gbls.cmds ++ [w.brk] } :=
  listed_gbls

lemma withCommand_names : (withCommand sys w f s).kern.names =
    linked sys (.clt w.brk) (clientLinks w.gbls (f.spec sys w)) w.kern.names :=
  listed_names

lemma withCommand_calls :
    (withCommand sys w f s).kern.calls = w.kern.calls + parseCalls f + 14 :=
  listed_calls

lemma withCommand_brk : (withCommand sys w f s).brk = w.brk + 1 :=
  listed_brk

lemma withCommand_name {id : CmdId} : ((withCommand sys w f s).heap id).name =
    if id = w.brk then f.name else (w.heap id).name := by
  unfold withCommand
  rw [listed_heap]
  simp only [filledIn, World.updTty, World.updCmd]
  by_cases hid : id = w.brk
  · simp [hid, parsed, calledBy, SpecFields.spec]
  · simp [hid, parsed, calledBy]

lemma withCommand_tty {r : TtyRef} (hclt : r ≠ .clt w.brk) (hcmd : r ≠ .cmd w.brk) :
    (withCommand sys w f s).ttys r = w.ttys r :=
  listed_tty hclt hcmd

lemma withCommand_clientLinks {g : SpecFields} :
    clientLinks (withCommand sys w f s).gbls (g.spec sys (withCommand sys w f s)) =
      clientLinks w.gbls (g.spec sys w) := by
  rw [withCommand_gbls]
  rfl

lemma StartReady.withCommand (hr : StartReady w) (hs : s = some w.brk ∨ s = w.gbls.slowestcmd) :
    StartReady (withCommand sys w f s) := by
  have htty {r : TtyRef} (hclt : r ≠ .clt w.brk) (hcmd : r ≠ .cmd w.brk) :
      (Proofs.withCommand sys w f s).ttys r = w.ttys r := withCommand_tty hclt hcmd
  refine ⟨fun id hid => ?_, fun id hid => ?_, fun id hid => ?_, ?_, fun j hj => ?_⟩
  · rw [withCommand_brk]
    simp only [withCommand_gbls, List.mem_append, List.mem_singleton] at hid
    rcases hid with hid | rfl
    · exact (hr.lt_brk id hid).trans (Nat.lt_succ_self _)
    · exact Nat.lt_succ_self _
  · rw [withCommand_brk, Nat.succ_le_iff] at hid
    rw [htty (by simpa using hid.ne') (by simp)]
    exact hr.clt id hid.le
  · rw [withCommand_brk, Nat.succ_le_iff] at hid
    rw [htty (by simp) (by simpa using hid.ne')]
    exact hr.cmd id hid.le
  · rw [withCommand_gbls]
    exact hr.mounted
  · rw [withCommand_gbls] at hj ⊢
    simp only [List.mem_append, List.mem_singleton] at hj ⊢
    rcases hs with rfl | rfl
    · exact .inr (Option.some.inj hj).symm
    · exact .inl (hr.slowest j hj)

lemma hashFind_withCommand (hr : StartReady w) {n : CStr} :
    (withCommand sys w f s).hashFind n = none ↔ w.hashFind n = none ∧ n ≠ f.name := by
  simp only [World.hashFind, withCommand_gbls, List.find?_eq_none, List.mem_append,
    List.mem_singleton, withCommand_name, beq_iff_eq]
  constructor
  · intro h
    refine ⟨fun id hid hname => ?_, ?_⟩
    · refine h id (.inl hid) ?_
      rwa [if_neg (hr.lt_brk id hid).ne]
    · have hnew := h w.brk (.inr rfl)
      rw [if_pos rfl] at hnew
      exact fun hn => hnew hn.symm
  · rintro ⟨hold, hnew⟩ id hid
    rcases hid with hid | rfl
    · rw [if_neg (hr.lt_brk id hid).ne]
      exact hold id hid
    · rw [if_pos rfl]
      exact fun hn => hnew hn.symm

lemma compatible_cons (hr : StartReady w) : Compatible sys w (f :: fs) ↔
    SpecFits sys w f ∧ Compatible sys (withCommand sys w f s) fs := by
  have hlinks : allLinks sys (withCommand sys w f s) fs = allLinks sys w fs := by
    simp only [allLinks, withCommand_clientLinks]
  have hfree : FreePaths sys w.kern.names (allLinks sys w (f :: fs)) ↔
      FreePaths sys w.kern.names (clientLinks w.gbls (f.spec sys w)) ∧
        FreePaths sys (withCommand sys w f s).kern.names (allLinks sys w fs) := by
    rw [withCommand_names, ← freePaths_append]
    rfl
  constructor
  · intro h
    have hnames := h.names
    rw [List.map_cons, List.nodup_cons] at hnames
    obtain ⟨hfirst, hrest⟩ := hfree.mp h.links
    refine ⟨⟨h.log f List.mem_cons_self, h.fresh f List.mem_cons_self, hfirst, h.calls.1⟩,
      fun g hg => h.log g (List.mem_cons_of_mem _ hg), fun g hg => ?_, hnames.2, ?_, ?_⟩
    · refine (hashFind_withCommand hr).mpr ⟨h.fresh g (List.mem_cons_of_mem _ hg), fun hn => ?_⟩
      exact hnames.1 (hn ▸ List.mem_map_of_mem hg)
    · rw [hlinks]
      exact hrest
    · rw [withCommand_calls]
      exact h.calls.2
  · rintro ⟨hf, h⟩
    have hfresh (g : SpecFields) (hg : g ∈ fs) := (hashFind_withCommand hr).mp (h.fresh g hg)
    have hrest := h.links
    have hcalls := h.calls
    rw [hlinks] at hrest
    rw [withCommand_calls] at hcalls
    refine ⟨fun g hg => ?_, fun g hg => ?_, ?_, hfree.mpr ⟨hf.links, hrest⟩, hf.calls, hcalls⟩
    · rcases List.mem_cons.mp hg with rfl | hg
      · exact hf.log
      · exact h.log g hg
    · rcases List.mem_cons.mp hg with rfl | hg
      · exact hf.fresh
      · exact (hfresh g hg).1
    · rw [List.map_cons, List.nodup_cons]
      refine ⟨fun hmem => ?_, h.names⟩
      obtain ⟨g, hg, hname⟩ := List.mem_map.mp hmem
      exact (hfresh g hg).2 hname

end

/-! ## The loop -/

/-- The loop comes to its end exactly when nothing stands in the way of the specifications. -/
lemma forM_mainAddCmd_iff (hr : StartReady w) (ha : ∀ f ∈ fs, Accepted sys f) :
    (∃ w', (fs.map SpecFields.join).forM (mainAddCmd sys) w = .ok () w') ↔ Compatible sys w fs := by
  induction fs generalizing w with
  | nil =>
    refine ⟨fun _ => ⟨by simp, by simp, by simp, freePaths_nil, trivial⟩, fun _ => ⟨w, rfl⟩⟩
  | cons f fs ih =>
    have hf := ha f List.mem_cons_self
    have hfs : ∀ g ∈ fs, Accepted sys g := fun g hg => ha g (List.mem_cons_of_mem _ hg)
    constructor
    · rintro ⟨w', h⟩
      obtain ⟨_, w₁, hadd, h⟩ := forM_cons_eq_ok.mp h
      obtain ⟨hfits, s, hs, rfl⟩ := mainAddCmd_ok hr hf hadd
      exact (compatible_cons hr).mpr ⟨hfits, (ih (hr.withCommand hs) hfs).mp ⟨w', h⟩⟩
    · intro h
      have hfits := ((compatible_cons (s := none) hr).mp h).1
      obtain ⟨w₁, hadd⟩ := mainAddCmd_runs hr hf hfits
      obtain ⟨-, s, hs, rfl⟩ := mainAddCmd_ok hr hf hadd
      obtain ⟨w', hrest⟩ := (ih (hr.withCommand hs) hfs).mpr ((compatible_cons hr).mp h).2
      exact ⟨w', forM_cons_eq_ok.mpr ⟨(), _, hadd, hrest⟩⟩

lemma names_added (hr : StartReady w) (ha : ∀ f ∈ fs, Accepted sys f) {u : PUnit}
    (h : (fs.map SpecFields.join).forM (mainAddCmd sys) w = .ok u w') :
    w'.gbls.cmds.map (fun id => (w'.heap id).name) =
      w.gbls.cmds.map (fun id => (w.heap id).name) ++ fs.map SpecFields.name := by
  induction fs generalizing w with
  | nil =>
    obtain ⟨-, rfl⟩ := pure_eq_ok.mp h
    simp
  | cons f fs ih =>
    obtain ⟨_, w₁, hadd, h⟩ := forM_cons_eq_ok.mp h
    obtain ⟨-, s, hs, rfl⟩ := mainAddCmd_ok hr (ha f List.mem_cons_self) hadd
    rw [ih (hr.withCommand hs) (fun g hg => ha g (List.mem_cons_of_mem _ hg)) h]
    have hold : w.gbls.cmds.map (fun id => ((withCommand sys w f s).heap id).name) =
        w.gbls.cmds.map fun id => (w.heap id).name := by
      refine List.map_congr_left fun id hid => ?_
      rw [withCommand_name, if_neg (hr.lt_brk id hid).ne]
    have hcmds : (withCommand sys w f s).gbls.cmds = w.gbls.cmds ++ [w.brk] := by
      rw [withCommand_gbls]
    rw [hcmds, List.map_append, hold, List.map_singleton, withCommand_name, if_pos rfl,
      List.append_assoc]
    rfl

/-! ## From the options on -/

lemma argsParseSpec_accepted {specs : List CStr} {u : PUnit}
    (h : specs.forM (argsParseSpec sys) w = .ok u w') :
    ∃ fs : List SpecFields, specs = fs.map SpecFields.join ∧ ∀ f ∈ fs, Accepted sys f := by
  induction specs generalizing w with
  | nil => exact ⟨[], rfl, by simp⟩
  | cons s specs ih =>
    obtain ⟨_, w₁, hspec, h⟩ := forM_cons_eq_ok.mp h
    obtain ⟨fs, rfl, hfs⟩ := ih h
    obtain ⟨spec, w₂, hparse, hspec⟩ := bind_eq_ok.mp hspec
    cases spec with
    | none => exact (throw_eq_ok.mp hspec).elim
    | some spec =>
      obtain ⟨f, rfl, hlet, -⟩ := cmdspecParse_iff.mp ⟨_, hparse⟩
      refine ⟨f :: fs, rfl, fun g hg => ?_⟩
      rcases List.mem_cons.mp hg with rfl | hg
      · exact ⟨hlet.toCommaFree, hlet.range, hlet.cmdline⟩
      · exact hfs g hg

lemma fsCreate_mounted {u : Unit} (h : fsCreate sys w = .ok u w') : w'.gbls.fsmntpt ≠ none := by
  rw [(fsCreate_mounts h).2]
  exact Option.some_ne_none _

lemma SetUp.accepted (h : SetUp sys o w) :
    ∃ fs : List SpecFields, o.specs = fs.map SpecFields.join ∧ ∀ f ∈ fs, Accepted sys f := by
  obtain ⟨_, w₁, hargs, -⟩ := bind_eq_ok.mp h
  exact argsParseSpec_accepted hargs

lemma SetUp.modifies (h : SetUp sys o w) : Modifies (ttyParts .mon ∪ {.flags}) (boot o) w := by
  obtain ⟨_, w₁, hargs, h⟩ := bind_eq_ok.mp h
  obtain ⟨_, w₂, hlog, h⟩ := bind_eq_ok.mp h
  obtain ⟨_, w₃, hmon, hfs⟩ := bind_eq_ok.mp h
  have hn : .names ∈ ttyParts .mon ∪ ({.flags} : Set Part) := .inl (by simp [ttyParts])
  exact trans_of _ ((Keeps.forM (argsParseSpec_modifies sys) _ : Keeps (Modifies _) _) hargs)
    (trans_of _ (logInit_modifies sys (by simp) hn hlog)
      (trans_of _ (monttyCreate_modifies sys Set.subset_union_left hmon)
        (fsCreate_modifies sys (by simp) hn hfs)))

lemma SetUp.startReady (h : SetUp sys o w) : StartReady w ∧ w.gbls.cmds = [] := by
  have hm := h.modifies
  have hcmds : w.gbls.cmds = [] := hm.cmds_eq (by simp [ttyParts])
  have hslow : w.gbls.slowestcmd = none := hm.slowest_eq (by simp [ttyParts])
  have htty {r : TtyRef} (hr : r ≠ .mon) : (w.ttys r).link = none := by
    have hst := hm.same (.tty r) (by simp [ttyParts, hr])
    simp only [SameOn, ttyStatic, Prod.mk.injEq] at hst
    exact hst.1
  obtain ⟨_, w₁, -, h⟩ := bind_eq_ok.mp h
  obtain ⟨_, w₂, -, h⟩ := bind_eq_ok.mp h
  obtain ⟨_, w₃, -, hfs⟩ := bind_eq_ok.mp h
  refine ⟨⟨by simp [hcmds], fun id _ => htty (by simp), fun id _ => htty (by simp),
    fsCreate_mounted hfs, ?_⟩, hcmds⟩
  simp [SlowestLive, hslow]

lemma map_join_inj {gs : List SpecFields} (h : fs.map SpecFields.join = gs.map SpecFields.join)
    (hf : ∀ f ∈ fs, CommaFree f) (hg : ∀ g ∈ gs, CommaFree g) : fs = gs := by
  induction fs generalizing gs with
  | nil => exact (List.map_eq_nil_iff.mp h.symm).symm
  | cons f fs ih =>
    cases gs with
    | nil => cases h
    | cons g gs =>
      rw [List.map_cons, List.map_cons, List.cons.injEq] at h
      obtain ⟨hhead, htail⟩ := h
      obtain rfl := SpecFields.join_inj hhead (hf f List.mem_cons_self) (hg g List.mem_cons_self)
      rw [ih htail (fun f h => hf f (List.mem_cons_of_mem _ h))
        fun g h => hg g (List.mem_cons_of_mem _ h)]

/-- The loop adds every command, or cleans up, exactly when nothing stands in the way of the
specifications. -/
theorem created_or_cleaned_iff (h : SetUp sys o w) : CreatedOrCleaned sys o w ↔
    ∃ fs : List SpecFields, o.specs = fs.map SpecFields.join ∧ (∀ f ∈ fs, CommaFree f) ∧
      Compatible sys w fs := by
  obtain ⟨hr, hcmds⟩ := h.startReady
  obtain ⟨fs, hspecs, ha⟩ := h.accepted
  have hfree : ∀ f ∈ fs, CommaFree f := fun f hf => (ha f hf).toCommaFree
  constructor
  · rintro (⟨w', hrun, -⟩ | ⟨w', hexit, -⟩)
    · rw [hspecs] at hrun
      exact ⟨fs, hspecs, hfree, (forM_mainAddCmd_iff hr ha).mp ⟨w', hrun⟩⟩
    · have hno : NoExit (o.specs.forM (mainAddCmd sys)) := by
        unfold mainAddCmd
        infer_instance
      exact (hno.avoids _ _ hexit).elim
  · rintro ⟨gs, hgs, hgfree, hcomp⟩
    obtain rfl : gs = fs := map_join_inj (hgs.symm.trans hspecs) hgfree hfree
    obtain ⟨w', hrun⟩ := (forM_mainAddCmd_iff hr ha).mpr hcomp
    refine .inl ⟨w', hspecs ▸ hrun, gs, hspecs, hfree, ?_⟩
    rw [names_added hr ha hrun, hcmds]
    rfl

/-- The state in which the loop starts passes the test. -/
def setsUp (sys : Sys) (o : Options) (p : World → Bool) : Bool :=
  match (do
    o.specs.forM (argsParseSpec sys)
    logInit sys
    monttyCreate sys
    fsCreate sys : Act Unit) (boot o) with
  | .ok _ w => p w
  | .error _ _ => false

lemma exists_setUp {p : World → Bool} (h : setsUp sys o p = true) :
    ∃ w, SetUp sys o w ∧ p w = true := by
  unfold setsUp at h
  split at h
  · exact ⟨_, ‹_›, h⟩
  · cases h

/-- The loop trips an assertion. -/
def loopAborts (sys : Sys) (o : Options) (w : World) : Bool :=
  match o.specs.forM (mainAddCmd sys) w with
  | .error .abort _ => true
  | _ => false

theorem created_or_cleaned_two : ∃ w, SetUp quietSys slowFirst w ∧
    CreatedOrCleaned quietSys slowFirst w := by
  have hcompat : setsUp quietSys slowFirst (fun w => decide (Compatible quietSys w
      [⟨bytes "a", [], [], bytes "5", bytes "x"⟩, ⟨bytes "b", [], [], bytes "1", bytes "y"⟩])) =
      true := by decide +kernel
  obtain ⟨w, hw, hp⟩ := exists_setUp hcompat
  refine ⟨w, hw, (created_or_cleaned_iff hw).mpr ⟨_, by decide, ?_, of_decide_eq_true hp⟩⟩
  simp only [List.mem_cons, List.not_mem_nil, or_false, forall_eq_or_imp, forall_eq]
  exact ⟨⟨by decide, by decide, by decide, by decide⟩, ⟨by decide, by decide, by decide, by decide⟩⟩

/-- Two specifications with the same name are both let through, and the second one trips the assertion
in the loop. -/
def sameNames : Options where
  specs := [bytes "a,,,1,x", bytes "a,/l,,1,y"]
  cwd := bytes "/h"
  pid := bytes "7"

theorem not_always_created_or_cleaned :
    ¬∀ (sys : Sys) (o : Options) (w : World), SetUp sys o w → CreatedOrCleaned sys o w := by
  intro hall
  obtain ⟨w, hw, hp⟩ := exists_setUp
    (show setsUp quietSys sameNames (loopAborts quietSys sameNames) = true by decide +kernel)
  have hc := hall quietSys sameNames w hw
  unfold loopAborts at hp
  rcases hc with ⟨w', hrun, -⟩ | ⟨w', hexit, -⟩
  · rw [hrun] at hp
    cases hp
  · rw [hexit] at hp
    cases hp

end Yar.Proofs
