import Yar.Proofs.Additions

/-!
# What a failed creation leaves behind

A creation or cleanup of a tty touches no other tty. A creation that fails removes what it finds under
the names of its tty, and nothing else has changed then.
-/

namespace Yar.Proofs

open Program

variable {sys : Sys} {w w' : World} {r : TtyRef} {names names' : CStr → Option Node}
  {p : CStr} {ps qs : List CStr} {this : Tty} {R : Set TtyRef} {spec : CmdSpec} {id : CmdId}

/-! ## Entries -/

/-- The entries the paths lead to. -/
def entries (sys : Sys) (ps : List CStr) : List CStr := (ps.filter (· ≠ [])).map sys.resolve

/-- The entries once everything under the paths that can be unlinked has been. -/
def swept (sys : Sys) (ps : List CStr) (names : CStr → Option Node) : CStr → Option Node :=
  fun q => if q ∈ entries sys ps ∧ names q ≠ some .dir then none else names q

/-- Entries have been made under the paths where there were none. -/
def Filled (sys : Sys) (ps : List CStr) (names names' : CStr → Option Node) : Prop :=
  ∀ q, names' q = names q ∨ (q ∈ entries sys ps ∧ names q = none ∧ names' q ≠ some .dir)

instance : Std.Refl (Filled sys ps) where
  refl _ _ := .inl rfl

instance : IsTrans (CStr → Option Node) (Filled sys ps) where
  trans names₁ names₂ names₃ h h' q := by
    rcases h q with hq | ⟨hq, hnone, hdir⟩
    · rcases h' q with hq' | ⟨hq', hnone, hdir⟩
      · exact .inl (hq'.trans hq)
      · exact .inr ⟨hq', hq ▸ hnone, hdir⟩
    · rcases h' q with hq' | ⟨-, -, hdir'⟩
      · exact .inr ⟨hq, hnone, hq' ▸ hdir⟩
      · exact .inr ⟨hq, hnone, hdir'⟩

/-- What has been made is swept away again. -/
lemma Filled.swept_eq (h : Filled sys ps names names') : swept sys ps names' = swept sys ps names := by
  funext q
  unfold swept
  rcases h q with hq | ⟨hq, hnone, hdir⟩
  · rw [hq]
  · rw [if_pos ⟨hq, hdir⟩, if_pos ⟨hq, by simp [hnone]⟩]

lemma entries_append : entries sys (ps ++ qs) = entries sys ps ++ entries sys qs := by
  simp only [entries, List.filter_append, List.map_append]

lemma swept_nil : swept sys [] names = names := by
  funext q
  simp [swept, entries]

lemma swept_append : swept sys qs (swept sys ps names) = swept sys (ps ++ qs) names := by
  funext q
  simp only [swept, entries_append, List.mem_append]
  by_cases hdir : names q = some .dir
  · simp [hdir]
  · by_cases hp : q ∈ entries sys ps
    · simp [hp, hdir]
    · simp [hp, hdir]

/-! ## The steps of a creation -/

/-- Nothing but the ttys in `R` and the kernel has changed. -/
structure OnlyTtys (R : Set TtyRef) (w w' : World) : Prop where
  objects : objects w' = objects w
  ttys : ∀ r, r ∉ R → w'.ttys r = w.ttys r
  ports : ∀ r, r ∉ R → w'.kern.ports r = w.kern.ports r
  mounts : w'.kern.mounts = w.kern.mounts

instance : Std.Refl (OnlyTtys R) where
  refl _ := ⟨rfl, fun _ _ => rfl, fun _ _ => rfl, rfl⟩

instance : IsTrans World (OnlyTtys R) where
  trans _ _ _ h h' := ⟨h'.objects.trans h.objects, fun r hr => (h'.ttys r hr).trans (h.ttys r hr),
    fun r hr => (h'.ports r hr).trans (h.ports r hr), h'.mounts.trans h.mounts⟩

lemma OnlyTtys.mono {R' : Set TtyRef} (h : OnlyTtys R w w') (hR : R ⊆ R') : OnlyTtys R' w w' :=
  ⟨h.objects, fun r hr => h.ttys r fun hr' => hr (hR hr'), fun r hr => h.ports r fun hr' => hr (hR hr'),
    h.mounts⟩

/-- A step in the creation of `r` under the paths. -/
structure Building (sys : Sys) (r : TtyRef) (ps : List CStr) (w w' : World) : Prop
    extends OnlyTtys {r} w w' where
  names : Filled sys ps w.kern.names w'.kern.names
  tty : ttyNames (w'.ttys r) = ttyNames (w.ttys r)

instance : Std.Refl (Building sys r ps) where
  refl _ := ⟨refl_of _ _, refl_of _ _, rfl⟩

instance : IsTrans World (Building sys r ps) where
  trans _ _ _ h h' := ⟨trans_of _ h.toOnlyTtys h'.toOnlyTtys, trans_of _ h.names h'.names,
    h'.tty.trans h.tty⟩

lemma updTty_building {f : Tty → Tty} (hf : ∀ t, ttyNames (f t) = ttyNames t) :
    Keeps (Building sys r ps) (updTty r f) :=
  Keeps.modify fun w =>
    ⟨⟨rfl, fun r' hr => by simp [World.updTty, Set.notMem_singleton_iff.mp hr], fun _ _ => rfl, rfl⟩,
      refl_of _ _, by simp [World.updTty, hf]⟩

lemma updPort_building {f : Port → Port} : Keeps (Building sys r ps) (updPort r f) :=
  Keeps.modify fun w => ⟨⟨rfl, fun _ _ => rfl, fun r' hr => by simp [World.updPort, Set.notMem_singleton_iff.mp hr],
    rfl⟩, refl_of _ _, rfl⟩

lemma call_building : Keeps (Building sys r ps) call := by
  intro w k w' h
  obtain ⟨-, rfl⟩ := call_ok h
  exact ⟨⟨rfl, fun _ _ => rfl, fun _ _ => rfl, rfl⟩, refl_of _ _, rfl⟩

lemma acquire_building : Keeps (Building sys r ps) (acquire sys) := by
  intro w fd w' h
  rcases acquire_ok h with ⟨-, -, rfl⟩ | ⟨-, -, rfl⟩
  · exact ⟨⟨rfl, fun _ _ => rfl, fun _ _ => rfl, rfl⟩, refl_of _ _, rfl⟩
  · exact ⟨⟨rfl, fun _ _ => rfl, fun _ _ => rfl, rfl⟩, refl_of _ _, rfl⟩

lemma mem_entries (hp : p ≠ []) (hmem : p ∈ ps) : sys.resolve p ∈ entries sys ps :=
  List.mem_map_of_mem (List.mem_filter.mpr ⟨hmem, by simpa using hp⟩)

lemma symlink_building (hmem : p ∈ ps) : Keeps (Building sys r ps) (symlink sys r p) := by
  intro w b w' h
  rcases symlink_cases h with ⟨-, rfl, -⟩ | ⟨-, hp, hfree, rfl⟩
  · exact ⟨⟨rfl, fun _ _ => rfl, fun _ _ => rfl, rfl⟩, refl_of _ _, rfl⟩
  · refine ⟨⟨rfl, fun _ _ => rfl, fun _ _ => rfl, rfl⟩, fun q => ?_, rfl⟩
    by_cases hq : q = sys.resolve p
    · subst hq
      exact .inr ⟨mem_entries hp hmem, hfree, by simp⟩
    · exact .inl (Function.update_of_ne hq ..)

lemma ttySymlink_building {name : Option CStr} (hsub : ∀ p ∈ name.toList, p ∈ ps) :
    Keeps (Building sys r ps) (ttySymlink sys r name) := by
  cases name with
  | none => exact Keeps.pure _
  | some p => exact symlink_building (hsub p (by simp))

lemma ttyLinks_building (hsub : ∀ p ∈ ttyNames this, p ∈ ps) :
    Keeps (Building sys r ps) (ttyLinks sys r this) := by
  simp only [ttyNames, List.mem_append] at hsub
  refine Keeps.bind (ttySymlink_building fun p hp => hsub p (.inl hp)) fun _ =>
    Keeps.ite (fun _ => Keeps.pure _) fun _ => Keeps.bind (Keeps.require _ _) fun _ => ?_
  refine Keeps.bind (ttySymlink_building fun p hp => hsub p (.inr (.inl hp))) fun _ =>
    Keeps.ite (fun _ => Keeps.pure _) fun _ => Keeps.bind (Keeps.require _ _) fun _ => ?_
  exact ttySymlink_building fun p hp => hsub p (.inr (.inr hp))

lemma ttyWatch_building : Keeps (Building sys r ps) (ttyWatch sys r) := by
  refine Keeps.bind acquire_building fun ifd => ?_
  cases ifd with
  | none => exact Keeps.pure _
  | some ifd =>
    refine Keeps.bind (updTty_building fun _ => rfl) fun _ => Keeps.bind call_building fun _ => ?_
    exact Keeps.ite (fun _ => Keeps.pure _) fun _ =>
      Keeps.bind (updTty_building fun _ => rfl) fun _ => Keeps.pure _

lemma ttyNamesTaken_building : Keeps (Building sys r ps) (ttyNamesTaken sys this) := by
  have htaken (name : Option CStr) : Keeps (Building sys r ps) (ttyNameTaken sys name) := by
    cases name with
    | none => exact Keeps.pure _
    | some p =>
      intro w b w' h
      obtain ⟨rfl, -⟩ := access_ok h
      exact ⟨⟨rfl, fun _ _ => rfl, fun _ _ => rfl, rfl⟩, refl_of _ _, rfl⟩
  refine Keeps.bind (htaken _) fun _ => Keeps.ite (fun _ => Keeps.pure _) fun _ => ?_
  exact Keeps.bind (htaken _) fun _ => Keeps.ite (fun _ => Keeps.pure _) fun _ => htaken _

lemma ttyBuild_building {b : Bool} (h : ttyBuild sys r w = .ok b w') :
    Building sys r (ttyNames (w.ttys r)) w w' := by
  obtain ⟨-, h⟩ := require_bind_eq_ok.mp (get_bind_eq_ok.mp h)
  refine (Keeps.bind ttyNamesTaken_building fun _ => Keeps.ite (fun _ => Keeps.pure _) fun _ =>
    Keeps.bind acquire_building fun dfd => ?_ :
      Keeps (Building sys r (ttyNames (w.ttys r))) _) h
  cases dfd with
  | none => exact Keeps.pure _
  | some dfd =>
    refine Keeps.bind (updTty_building fun _ => rfl) fun _ => Keeps.bind updPort_building fun _ =>
      Keeps.bind acquire_building fun sfd => ?_
    cases sfd with
    | none => exact Keeps.pure _
    | some sfd =>
      refine Keeps.bind (ttyLinks_building fun _ hp => hp) fun _ =>
        Keeps.ite (fun _ => Keeps.pure _) fun _ => Keeps.bind ttyWatch_building fun _ => ?_
      exact Keeps.ite (fun _ => Keeps.pure _) fun _ =>
        Keeps.bind (updTty_building fun _ => rfl) fun _ => Keeps.pure _

/-! ## Cleanup -/

/-- What is under the paths has been removed as far as it can be. -/
structure Sweeping (sys : Sys) (r : TtyRef) (ps : List CStr) (w w' : World) : Prop
    extends OnlyTtys {r} w w' where
  names : w'.kern.names = swept sys ps w.kern.names
  tty : w'.ttys r = w.ttys r

lemma close_sweeping {fd : Option Fd} {u : Unit} (h : close fd w = .ok u w') :
    Sweeping sys r [] w w' := by
  cases fd with
  | none =>
    obtain ⟨-, rfl⟩ := pure_eq_ok.mp h
    exact ⟨refl_of _ _, swept_nil.symm, rfl⟩
  | some fd =>
    rw [modify_eq_ok.mp h]
    exact ⟨⟨rfl, fun _ _ => rfl, fun _ _ => rfl, rfl⟩, swept_nil.symm, rfl⟩

lemma swept_singleton (hp : p ≠ []) : swept sys [p] names =
    if names (sys.resolve p) = some .dir then names
      else Function.update names (sys.resolve p) none := by
  have hentries : entries sys [p] = [sys.resolve p] := by simp [entries, hp]
  funext q
  simp only [swept, hentries, List.mem_singleton]
  by_cases hq : q = sys.resolve p
  · subst hq
    split <;> simp_all
  · rw [if_neg fun h => hq h.1]
    split
    · rfl
    · rw [Function.update_of_ne hq]

lemma unlink_sweeping {u : Unit} (hp : p ≠ []) (h : unlink sys r p w = .ok u w') :
    Sweeping sys r [p] w w' := by
  replace h := get_bind_eq_ok.mp h
  cases hn : w.kern.names (sys.resolve p) with
  | none =>
    simp only [hn] at h
    obtain ⟨-, rfl⟩ := pure_eq_ok.mp h
    refine ⟨refl_of _ _, ?_, rfl⟩
    rw [swept_singleton hp, if_neg (by simp [hn]), ← hn, Function.update_eq_self]
  | some n =>
    have hgone (h : (do
        updKern fun k => { k with names := Function.update k.names (sys.resolve p) none }
        note (.unlink r p n) : Act Unit) w = .ok u w') (hdir : n ≠ .dir) :
        Sweeping sys r [p] w w' := by
      replace h := modify_bind_eq_ok.mp h
      rw [modify_eq_ok.mp h]
      refine ⟨⟨rfl, fun _ _ => rfl, fun _ _ => rfl, rfl⟩, ?_, rfl⟩
      rw [swept_singleton hp, if_neg (by simpa [hn] using hdir)]
    cases n with
    | dir =>
      simp only [hn] at h
      obtain ⟨-, rfl⟩ := pure_eq_ok.mp h
      refine ⟨refl_of _ _, ?_, rfl⟩
      rw [swept_singleton hp, if_pos hn]
    | other =>
      simp only [hn] at h
      exact hgone h (by simp)
    | sym r' =>
      simp only [hn] at h
      exact hgone h (by simp)

lemma ttyUnlink_sweeping {name : Option CStr} {u : Unit} (h : ttyUnlink sys r name w = .ok u w') :
    Sweeping sys r name.toList w w' := by
  cases name with
  | none =>
    obtain ⟨-, rfl⟩ := pure_eq_ok.mp h
    exact ⟨refl_of _ _, swept_nil.symm, rfl⟩
  | some p =>
    cases p with
    | nil =>
      obtain ⟨-, rfl⟩ := pure_eq_ok.mp h
      refine ⟨refl_of _ _, ?_, rfl⟩
      funext q
      simp [swept, entries]
    | cons c path => exact unlink_sweeping (List.cons_ne_nil _ _) h

lemma Sweeping.trans {w₁ : World} (h : Sweeping sys r ps w w₁) (h' : Sweeping sys r qs w₁ w') :
    Sweeping sys r (ps ++ qs) w w' :=
  ⟨trans_of _ h.toOnlyTtys h'.toOnlyTtys, by rw [h'.names, h.names, swept_append], h'.tty.trans h.tty⟩

/-- The cleanup of a tty removes what is under its names. -/
lemma ttyCleanup_swept {u : Unit} (h : ttyCleanup sys r w = .ok u w') :
    OnlyTtys {r} w w' ∧ w'.kern.names = swept sys (ttyNames (w.ttys r)) w.kern.names := by
  replace h := get_bind_eq_ok.mp h
  obtain ⟨_, w₁, hifd, h⟩ := bind_eq_ok.mp h
  obtain ⟨_, w₂, hdfd, h⟩ := bind_eq_ok.mp h
  obtain ⟨_, w₃, hsfd, h⟩ := bind_eq_ok.mp h
  obtain ⟨_, w₄, hlink, h⟩ := bind_eq_ok.mp h
  obtain ⟨_, w₅, hextra₁, h⟩ := bind_eq_ok.mp h
  obtain ⟨_, w₆, hextra₂, h⟩ := bind_eq_ok.mp h
  have hclosed : Sweeping sys r [] w w₃ :=
    ((close_sweeping hifd).trans (close_sweeping hdfd)).trans (close_sweeping hsfd)
  have hs : Sweeping sys r (ttyNames (w.ttys r)) w w₆ :=
    hclosed.trans ((ttyUnlink_sweeping hlink).trans ((ttyUnlink_sweeping hextra₁).trans
      (ttyUnlink_sweeping hextra₂)))
  have hupd : OnlyTtys {r} w₆ (w₆.updTty r fun _ => {}) :=
    ⟨rfl, fun r' hr => by simp [World.updTty, Set.notMem_singleton_iff.mp hr], fun _ _ => rfl, rfl⟩
  rw [modify_eq_ok.mp h]
  exact ⟨trans_of _ hs.toOnlyTtys hupd, hs.names⟩

/-- A failed creation has removed what was under the names of its tty. -/
lemma ttyCreate_swept (h : ttyCreate sys r w = .ok false w') :
    OnlyTtys {r} w w' ∧ w'.kern.names = swept sys (ttyNames (w.ttys r)) w.kern.names := by
  obtain ⟨b, w₁, hbuild, h⟩ := bind_eq_ok.mp h
  cases b with
  | true => cases (pure_eq_ok.mp h).1
  | false =>
    obtain ⟨_, w₂, hclean, h⟩ := bind_eq_ok.mp h
    obtain ⟨-, rfl⟩ := pure_eq_ok.mp h
    have hb := ttyBuild_building hbuild
    obtain ⟨honly, hnames⟩ := ttyCleanup_swept hclean
    exact ⟨trans_of _ hb.toOnlyTtys honly, by rw [hnames, hb.tty, hb.names.swept_eq]⟩

/-! ## Additions -/

/-- What an addition leaves behind whose ttys could not be created. -/
structure RolledBack (sys : Sys) (spec : CmdSpec) (w w' : World) : Prop where
  gbls : w'.gbls = w.gbls
  brk : w'.brk = w.brk + 1
  heap : ∀ id, id ≠ w.brk → w'.heap id = w.heap id
  ttys : ∀ r, r ≠ .clt w.brk → r ≠ .cmd w.brk → w'.ttys r = w.ttys r
  ports : ∀ r, r ≠ .clt w.brk → r ≠ .cmd w.brk → w'.kern.ports r = w.kern.ports r
  names : w'.kern.names = swept sys (clientLinks w.gbls spec) w.kern.names

/-- The ttys of a command. -/
def ttysOf (id : CmdId) : Set TtyRef := {.clt id, .cmd id}

lemma ttyNames_default : ttyNames {} = [] := rfl

lemma cmdCreate_swept {u : Unit} {w₁ : World} (h : cmdCreate sys id w = .ok false w₁)
    (hclear : clearCmd sys id w₁ = .ok u w') (hcmd : ttyNames (w.ttys (.cmd id)) = []) :
    ∃ w₂, OnlyTtys (ttysOf id) w w₂ ∧
      w₂.kern.names = swept sys (ttyNames (w.ttys (.clt id))) w.kern.names ∧
      w' = w₂.updCmd id cmdClear := by
  have hclt_sub : ({.clt id} : Set TtyRef) ⊆ ttysOf id := by simp [ttysOf]
  have hcmd_sub : ({.cmd id} : Set TtyRef) ⊆ ttysOf id := by simp [ttysOf]
  have hne : (.clt id : TtyRef) ∉ ({.cmd id} : Set TtyRef) := by simp
  have hne' : (.cmd id : TtyRef) ∉ ({.clt id} : Set TtyRef) := by simp
  obtain ⟨_, w₃, hclean₁, hclear⟩ := bind_eq_ok.mp hclear
  obtain ⟨_, w₄, hclean₂, hclear⟩ := bind_eq_ok.mp hclear
  obtain ⟨honly₃, hnames₃⟩ := ttyCleanup_swept hclean₁
  obtain ⟨honly₄, hnames₄⟩ := ttyCleanup_swept hclean₂
  rw [honly₃.ttys _ hne] at hnames₄
  have hrest : OnlyTtys (ttysOf id) w₁ w₄ :=
    trans_of _ (honly₃.mono hcmd_sub) (honly₄.mono hclt_sub)
  obtain ⟨b, w₂, hclt, h⟩ := bind_eq_ok.mp h
  cases b with
  | false =>
    obtain ⟨-, rfl⟩ := pure_eq_ok.mp h
    obtain ⟨honly, hnames⟩ := ttyCreate_swept hclt
    refine ⟨w₄, trans_of _ (honly.mono hclt_sub) hrest, ?_, modify_eq_ok.mp hclear⟩
    rw [hnames₄, ttyCreate_failed hclt, ttyNames_default, swept_nil, hnames₃, honly.ttys _ hne',
      hcmd, swept_nil, hnames]
  | true =>
    obtain ⟨c, w₅, hbuild, hclt⟩ := bind_eq_ok.mp hclt
    cases c with
    | false =>
      obtain ⟨_, w₆, -, hclt⟩ := bind_eq_ok.mp hclt
      cases (pure_eq_ok.mp hclt).1
    | true =>
      obtain ⟨-, rfl⟩ := pure_eq_ok.mp hclt
      have hb := ttyBuild_building hbuild
      obtain ⟨honly, hnames⟩ := ttyCreate_swept h
      refine ⟨w₄, trans_of _ (hb.toOnlyTtys.mono hclt_sub) (trans_of _ (honly.mono hcmd_sub) hrest),
        ?_, modify_eq_ok.mp hclear⟩
      rw [hnames₄, honly.ttys _ hne, hb.tty, hnames₃, ttyCreate_failed h, ttyNames_default, swept_nil,
        hnames, hb.ttys _ hne', hcmd, swept_nil, hb.names.swept_eq]

lemma GBLSAddNew_none (hr : AddReady w) (h : GBLSAddNew sys spec w = .ok none w') :
    spec.log = none ∧ ¬TtysCreatable sys spec w ∧ RolledBack sys spec w w' := by
  obtain ⟨id', w₁, hmalloc, h⟩ := bind_eq_ok.mp h
  obtain ⟨rfl, rfl⟩ := mallocCmd_ok hmalloc
  obtain ⟨_, w₂, hinit, h⟩ := bind_eq_ok.mp h
  obtain ⟨hlog, rfl⟩ := (cmdInit_iff hr).mp hinit
  obtain ⟨b, w₃, hcreate, h⟩ := bind_eq_ok.mp h
  cases b with
  | true =>
    obtain ⟨_, w₄, -, h⟩ := bind_eq_ok.mp h
    replace h := modify_bind_eq_ok.mp h
    replace h := modify_bind_eq_ok.mp h
    cases (pure_eq_ok.mp h).1
  | false =>
    obtain ⟨_, w₄, hclean, h⟩ := bind_eq_ok.mp h
    obtain ⟨-, rfl⟩ := pure_eq_ok.mp h
    have hm : Modifies (ttyParts (.cmd w.brk) ∪ ttyParts (.clt w.brk)) (filledIn spec w) w₃ :=
      cmdCreate_modifies sys subset_rfl hcreate
    have hpid : (w₃.heap w.brk).pid = none := by
      rw [hm.pid_eq (by simp [ttyParts])]
      simp [filledIn, World.updTty, World.updCmd]
    obtain ⟨w₅, honly, hnames, rfl⟩ := cmdCreate_swept hcreate (cmdCleanup_stopped sys hpid hclean)
      filledIn_cmd
    have hobj := honly.objects
    simp only [objects, Prod.mk.injEq] at hobj
    obtain ⟨hgbls, hheap, hbrk⟩ := hobj
    refine ⟨hlog, fun hcan => ?_, hgbls, hbrk, fun id hid => ?_, fun r hclt hcmd => ?_,
      fun r hclt hcmd => ?_, ?_⟩
    · rw [(cmdCreate_true_iff hr).mpr ⟨hcan, rfl⟩] at hcreate
      cases hcreate
    · simp only [World.updCmd]
      rw [Function.update_of_ne hid, hheap]
      simp [filledIn, World.updTty, World.updCmd, Function.update_of_ne hid]
    · have htty := honly.ttys r (by simp [ttysOf, hclt, hcmd])
      refine htty.trans ?_
      simp [filledIn, World.updTty, World.updCmd, hclt, hcmd]
    · exact honly.ports r (by simp [ttysOf, hclt, hcmd])
    · rw [filledIn_clt] at hnames
      exact hnames

/-! ## Runs that return -/

lemma call_returns (w : World) : Returns call w := ⟨_, _, rfl⟩

lemma ttyNamesTaken_returns (w : World) : Returns (ttyNamesTaken sys this) w := by
  have htaken (name : Option CStr) (w : World) : Returns (ttyNameTaken sys name) w := by
    cases name with
    | none => exact ⟨_, _, rfl⟩
    | some p => exact ⟨_, _, rfl⟩
  refine (htaken _ _).bind fun _ _ _ => .ite (fun _ => .pure _ _) fun _ => ?_
  exact (htaken _ _).bind fun _ _ _ => .ite (fun _ => .pure _ _) fun _ => htaken _ _

lemma acquire_returns (w : World) : Returns (acquire sys) w :=
  (call_returns w).bind fun _ _ _ => .ite (fun _ => .pure _ _) fun _ =>
    .bind ⟨_, _, rfl⟩ fun _ _ _ => .pure _ _

lemma symlink_returns (w : World) : Returns (symlink sys r p) w :=
  (call_returns w).bind fun _ _ _ => .bind ⟨_, _, rfl⟩ fun _ _ _ =>
    .ite (fun _ => .pure _ _) fun _ => ⟨_, _, rfl⟩

lemma ttyLinks_returns (ht : Targeted this) (w : World) : Returns (ttyLinks sys r this) w := by
  have hlink (name : Option CStr) (w : World) : Returns (ttySymlink sys r name) w := by
    cases name with
    | none => exact ⟨_, _, rfl⟩
    | some p => exact symlink_returns w
  refine (hlink _ _).bind fun _ _ _ => .ite (fun _ => .pure _ _) fun _ =>
    (Returns.require ht.1 _).bind fun _ _ _ => ?_
  refine (hlink _ _).bind fun _ _ _ => .ite (fun _ => .pure _ _) fun _ =>
    (Returns.require ht.2 _).bind fun _ _ _ => hlink _ _

lemma ttyWatch_returns (w : World) : Returns (ttyWatch sys r) w := by
  refine (acquire_returns w).bind fun ifd _ _ => ?_
  cases ifd with
  | none => exact .pure _ _
  | some ifd =>
    exact .bind (.modifyState _ _) fun _ _ _ => (call_returns _).bind fun _ _ _ =>
      .ite (fun _ => .pure _ _) fun _ => ⟨_, _, rfl⟩

lemma ttyCleanup_returns (w : World) : Returns (ttyCleanup sys r) w := by
  have hclose (fd : Option Fd) (w : World) : Returns (close fd) w := by
    cases fd with
    | none => exact ⟨_, _, rfl⟩
    | some fd => exact ⟨_, _, rfl⟩
  have hunlink (p : CStr) (w : World) : Returns (unlink sys r p) w := by
    refine .bind ⟨_, _, rfl⟩ fun w₀ _ _ => ?_
    cases w₀.kern.names (sys.resolve p) with
    | none => exact .pure _ _
    | some n =>
      cases n with
      | dir => exact .pure _ _
      | other => exact ⟨_, _, rfl⟩
      | sym r => exact ⟨_, _, rfl⟩
  have hname (name : Option CStr) (w : World) : Returns (ttyUnlink sys r name) w := by
    cases name with
    | none => exact .pure _ _
    | some p =>
      cases p with
      | nil => exact .pure _ _
      | cons c p => exact hunlink _ _
  exact .bind ⟨_, _, rfl⟩ fun _ _ _ => (hclose _ _).bind fun _ _ _ => (hclose _ _).bind fun _ _ _ =>
    (hclose _ _).bind fun _ _ _ => (hname _ _).bind fun _ _ _ => (hname _ _).bind fun _ _ _ =>
    (hname _ _).bind fun _ _ _ => .modifyState _ _

lemma ttyCreate_returns (hd : (w.ttys r).dfd = none) (ht : Targeted (w.ttys r)) :
    Returns (ttyCreate sys r) w := by
  have hbuild : Returns (ttyBuild sys r) w := by
    refine .get_bind ?_
    refine (Returns.require hd _).bind fun _ _ _ => (ttyNamesTaken_returns _).bind fun _ _ _ =>
      .ite (fun _ => .pure _ _) fun _ => (acquire_returns _).bind fun dfd _ _ => ?_
    cases dfd with
    | none => exact .pure _ _
    | some dfd =>
      refine .bind (.modifyState _ _) fun _ _ _ => .bind (.modifyState _ _) fun _ _ _ =>
        (acquire_returns _).bind fun sfd _ _ => ?_
      cases sfd with
      | none => exact .pure _ _
      | some sfd =>
        exact (ttyLinks_returns ht _).bind fun _ _ _ => .ite (fun _ => .pure _ _) fun _ =>
          (ttyWatch_returns _).bind fun _ _ _ => .ite (fun _ => .pure _ _) fun _ => ⟨_, _, rfl⟩
  exact hbuild.bind fun _ _ _ => .ite (fun _ => .pure _ _) fun _ =>
    (ttyCleanup_returns _).bind fun _ _ _ => .pure _ _

lemma clearCmd_returns (w : World) : Returns (clearCmd sys id) w :=
  (ttyCleanup_returns _).bind fun _ _ _ => (ttyCleanup_returns _).bind fun _ _ _ =>
    .modifyState _ _

lemma cmdCleanup_returns (hpid : (w.heap id).pid = none) : Returns (cmdCleanup sys id) w := by
  have hstop : cmdStop sys id false true w = .ok false w := by
    refine get_bind_eq_ok.mpr ?_
    rw [if_pos (by simp [cmdIsRunning, hpid])]
    rfl
  refine .bind (.discard ⟨_, _, hstop⟩) fun _ w₁ h => ?_
  obtain ⟨b, h⟩ := discard_eq_ok.mp h
  rw [hstop] at h
  cases h
  exact clearCmd_returns w

/-- The addition of a command without a log returns, unless its ttys are created and then the slowest
command cannot be followed. -/
lemma GBLSAddNew_returns (hr : AddReady w) (hlog : spec.log = none)
    (hslow : TtysCreatable sys spec w → SlowestLive w) : Returns (GBLSAddNew sys spec) w := by
  refine .bind ⟨_, _, rfl⟩ fun id w₁ hmalloc => ?_
  obtain ⟨rfl, rfl⟩ := mallocCmd_ok hmalloc
  refine .bind ⟨(), _, (cmdInit_iff hr).mpr ⟨hlog, rfl⟩⟩ fun _ w₂ hinit => ?_
  obtain ⟨-, rfl⟩ := (cmdInit_iff hr).mp hinit
  have hclt : Returns (ttyCreate sys (.clt w.brk)) (filledIn spec w) :=
    ttyCreate_returns (by simp [filledIn, World.updTty])
      (by simp [Targeted, filledIn, World.updTty, hr.mounted])
  have hcreate : Returns (cmdCreate sys w.brk) (filledIn spec w) := by
    refine hclt.bind fun b w₃ hclt => .ite (fun hb => ?_) fun _ => .pure _ _
    have hcmd : w₃.ttys (.cmd w.brk) = (filledIn spec w).ttys (.cmd w.brk) := by
      have hb' : b = true := hb
      subst hb'
      obtain ⟨-, rfl⟩ := (ttyCreate_true_iff (by simp [filledIn, World.updTty])
        (by simp [Targeted, filledIn, World.updTty, hr.mounted])).mp hclt
      exact createdTty_ttys_of_ne (by simp)
    refine ttyCreate_returns ?_ ?_
    · rw [hcmd]
      simp [filledIn, World.updTty]
    · rw [hcmd]
      simp [Targeted, filledIn, World.updTty]
  refine hcreate.bind fun b w₃ hcreate => .ite (fun hb => ?_) fun hb => ?_
  · have hm : Modifies (ttyParts (.cmd w.brk) ∪ ttyParts (.clt w.brk)) (filledIn spec w) w₃ :=
      cmdCreate_modifies sys subset_rfl hcreate
    have hpid : (w₃.heap w.brk).pid = none := by
      rw [hm.pid_eq (by simp [ttyParts])]
      simp [filledIn, World.updTty, World.updCmd]
    exact (cmdCleanup_returns hpid).bind fun _ _ _ => .pure _ _
  · rw [Bool.not_eq_true, Bool.not_eq_false'] at hb
    rw [hb] at hcreate
    obtain ⟨httys, rfl⟩ := (cmdCreate_true_iff hr).mp hcreate
    obtain ⟨w₄, hrun⟩ := (updSlowest_iff w.brk spec.delay).mpr
      (slowestLive_addedTtys.mpr (hslow httys))
    exact .bind ⟨(), w₄, hrun⟩ fun _ _ _ => ⟨_, _, rfl⟩

end Yar.Proofs
