import Yar.Lib.Paths
import Yar.Proofs.Removal

/-!
# The name space

What the lookups for a path lead to. Each item has one path, a create adds one, and a removal takes away
those of the items that go.
-/

namespace Yar.Proofs

open Program Fs Paths

/-- The lookups for a path, one name after the other. -/
def walk (ino : Nat) (path : List CStr) : FsAct (Option Nat) :=
  match path with
  | [] => return some ino
  | name :: path => do
    match ← fs_fuse_lookup ino name with
    | none => return none
    | some i => walk i path

/-- The inode that a path leads to. -/
def pathIno (s : Fs) (path : List CStr) : Option Nat :=
  match walk rootIno path s with
  | .ok i _ => i
  | .error _ _ => none

/-- The answer to a lookup. -/
def lookupIno (s : Fs) (ino : Nat) (name : CStr) : Option Nat :=
  match fs_fuse_lookup ino name s with
  | .ok i _ => i
  | .error _ _ => none

/-- An item with this inode is in the directory, under this name. -/
def Entered (s : Fs) (dir : Nat) (name : CStr) (ino : Nat) : Prop :=
  ∃ g y, s.heap g = some y ∧ y.ino ≠ rootIno ∧ y.dir = dir ∧ y.name = name ∧ y.ino = ino

/-- The inodes of the items that exist. -/
def liveInos (s : Fs) : Set Nat := {i | ∃ f x, s.heap f = some x ∧ x.ino = i}

variable {s s' : Fs} {xs : List File} {R l : List Nat} {x y : File} {f g i k : Nat} {name : CStr}
  {path : List CStr} {e : FsEvent}

/-! ## Lookups -/

lemma lookupIno_eq {o : Option Nat} (h : fs_fuse_lookup i name s = .ok o s) : lookupIno s i name = o := by
  unfold lookupIno
  rw [h]

/-- The lookup of a name returns, and finds what is entered under it. -/
lemma Agree.lookup (h : Agree s) (hx : s.heap f = some x) (name : CStr) :
    fs_fuse_lookup x.ino name s = .ok (lookupIno s x.ino name) s ∧
      ∀ k, lookupIno s x.ino name = some k ↔ Entered s x.ino name k := by
  suffices hex : ∃ o, fs_fuse_lookup x.ino name s = .ok o s ∧ ∀ k, o = some k ↔ Entered s x.ino name k by
    obtain ⟨o, hrun, ho⟩ := hex
    rw [lookupIno_eq hrun]
    exact ⟨hrun, ho⟩
  obtain ⟨hlt, hnode⟩ := h.inode f x hx
  unfold fs_fuse_lookup
  rw [bind_of_ok (ino2inodesc_ok hlt), hnode]
  simp only [ne_eq, not_true_eq_false, if_false]
  rw [bind_of_ok (deref_ok hx)]
  by_cases htype : x.type = .DIRECTORY
  · obtain ⟨d, hdata, -, hperm, hmem⟩ := h.dir f x hx htype
    rw [if_neg (not_not_intro htype), hdata]
    simp only
    rw [bind_of_ok (show (get : FsAct Fs) s = .ok s s from rfl)]
    cases hfind : s.findName d.nm_files name with
    | none =>
      refine ⟨none, rfl, fun k => ⟨fun hk => (by cases hk), ?_⟩⟩
      rintro ⟨g, y, hy, hroot, hdir, rfl, -⟩
      have hg : g ∈ d.nm_files := hperm.mem_iff.mpr ((hmem g).mpr ⟨y, hy, hroot, hdir⟩)
      have hnot := List.find?_eq_none.mp hfind g hg
      simp [hy] at hnot
    | some g =>
      have hg : g ∈ d.ino_files := hperm.mem_iff.mp (List.mem_of_find?_eq_some hfind)
      obtain ⟨y, hy, hroot, hdir⟩ := (hmem g).mp hg
      have hname := List.find?_some hfind
      simp only [hy, Option.any_some, beq_iff_eq] at hname
      simp only
      rw [bind_of_ok (deref_ok hy)]
      refine ⟨some y.ino, rfl, fun k => ⟨fun hk => ?_, ?_⟩⟩
      · exact ⟨g, y, hy, hroot, hdir, hname, Option.some.inj hk⟩
      · rintro ⟨g', y', hy', -, hdir', hname', rfl⟩
        obtain rfl := h.names g g' y y' hy hy' (hdir.trans hdir'.symm) (hname.trans hname'.symm)
        rw [hy, Option.some_inj] at hy'
        rw [hy']
  · rw [if_pos htype]
    refine ⟨none, rfl, fun k => ⟨fun hk => (by cases hk), ?_⟩⟩
    rintro ⟨g, y, hy, hroot, hdir, -⟩
    -- only a directory has something in it
    obtain ⟨-, p, z, hz, hino, hztype⟩ := h.parent g y hy hroot
    obtain rfl := h.ino_inj hz hx (hino.trans hdir)
    rw [hx, Option.some_inj] at hz
    exact (htype (hz ▸ hztype)).elim

lemma Agree.lookup_eq_some (h : Agree s) (hi : i ∈ liveInos s) :
    lookupIno s i name = some k ↔ Entered s i name k := by
  obtain ⟨f, x, hx, rfl⟩ := hi
  exact (h.lookup hx name).2 k

lemma Agree.walk (h : Agree s) (hi : i ∈ liveInos s) (path : List CStr) :
    walk i path s = .ok (resolve (lookupIno s) i path) s := by
  induction path generalizing i with
  | nil => rfl
  | cons name path ih =>
    obtain ⟨f, x, hx, rfl⟩ := hi
    obtain ⟨hrun, hentered⟩ := h.lookup hx name
    rw [Proofs.walk, bind_of_ok hrun, resolve]
    cases hk : lookupIno s x.ino name with
    | none => rfl
    | some k =>
      obtain ⟨g, y, hy, -, -, -, rfl⟩ := (hentered k).mp hk
      exact ih ⟨g, y, hy, rfl⟩

lemma Agree.pathIno (h : Agree s) (hroot : rootIno ∈ liveInos s) (path : List CStr) :
    pathIno s path = resolve (lookupIno s) rootIno path := by
  rw [Proofs.pathIno, h.walk hroot path]

/-! ## Paths -/

/-- The items that are left are the nodes of a tree, with the inodes as ranks. -/
lemma Kept.isTree (h : Kept xs R s) (hroot : rootIno ∈ liveInos s) :
    IsTree (lookupIno s) rootIno (liveInos s) id := by
  have ha := h.agree
  constructor
  · exact hroot
  · intro i hi n k hk
    obtain ⟨g, y, hy, -, -, -, hino⟩ := (ha.lookup_eq_some hi).mp hk
    exact ⟨g, y, hy, hino⟩
  · intro i hi n hk
    obtain ⟨g, y, -, hne, -, -, hino⟩ := (ha.lookup_eq_some hi).mp hk
    exact hne hino
  · intro i hi j hj m n k hm hn
    obtain ⟨g, y, hy, -, hdir, hname, hino⟩ := (ha.lookup_eq_some hi).mp hm
    obtain ⟨g', y', hy', -, hdir', hname', hino'⟩ := (ha.lookup_eq_some hj).mp hn
    obtain rfl := ha.ino_inj hy hy' (hino.trans hino'.symm)
    rw [hy, Option.some_inj] at hy'
    subst hy'
    exact ⟨hdir.symm.trans hdir', hname.symm.trans hname'⟩
  · rintro k ⟨f, x, hx, rfl⟩ hne
    obtain ⟨-, p, y, hy, hino, -⟩ := ha.parent f x hx hne
    have hlt : y.ino < x.ino := by
      obtain ⟨-, v, hv, rfl⟩ := h.pruned.holds.live hx
      obtain ⟨-, u, hu, rfl⟩ := h.pruned.holds.live hy
      have hvino := h.tree.ino f v hv
      rw [fill_ino, hvino] at hne
      obtain ⟨q, w, hdir, hlt, -⟩ := h.tree.parent f v (fun h0 => hne (by rw [h0])) hv
      rw [hino, fill_dir, fill_ino, hvino, hdir]
      omega
    refine ⟨y.ino, ⟨p, y, hy, rfl⟩, x.name, hlt, ?_⟩
    exact ((ha.lookup hy x.name).2 x.ino).mpr ⟨f, x, hx, hne, hino.symm, rfl, rfl⟩

/-! ## Creation -/

lemma Kept.mem_liveInos (h : Kept xs R s) : i ∈ liveInos s ↔ ∃ f, f ∉ R ∧ f < xs.length ∧ i = f + 1 := by
  constructor
  · rintro ⟨f, x, hx, rfl⟩
    obtain ⟨hf, y, hy, rfl⟩ := h.pruned.holds.live hx
    exact ⟨f, hf, (List.getElem?_eq_some_iff.mp hy).1, by rw [fill_ino, h.tree.ino f y hy]⟩
  · rintro ⟨f, hf, hlt, rfl⟩
    have hx : xs[f]? = some xs[f] := List.getElem?_eq_getElem hlt
    exact ⟨f, _, h.pruned.holds.item hf hx, by rw [fill_ino, h.tree.ino f _ hx]⟩

/-- A new item is entered, and the others are as before. -/
lemma Built.entered_concat (h : Built xs s) (h' : Built (xs ++ [x]) s') : Entered s' i name k ↔
    Entered s i name k ∨ (x.dir = i ∧ x.name = name ∧ x.ino = k) := by
  have hino : x.ino = xs.length + 1 := h'.tree.ino xs.length x (by simp)
  have hpos := h.tree.pos
  constructor
  · rintro ⟨g, y, hy, hroot, hdir, hname, rfl⟩
    obtain ⟨-, z, hz, rfl⟩ := h'.holds.live hy
    rcases getElem?_concat.mp hz with hz | ⟨rfl, rfl⟩
    · exact .inl ⟨g, _, h.holds.item List.not_mem_nil hz, by simpa using hroot, by simpa using hdir,
        by simpa using hname, by simp⟩
    · exact .inr ⟨by simpa using hdir, by simpa using hname, by simp⟩
  · rintro (⟨g, y, hy, hroot, hdir, hname, rfl⟩ | ⟨rfl, rfl, rfl⟩)
    · obtain ⟨-, z, hz, rfl⟩ := h.holds.live hy
      refine ⟨g, _, h'.holds.item List.not_mem_nil (getElem?_concat.mpr (.inl hz)), ?_⟩
      exact ⟨by simpa using hroot, by simpa using hdir, by simpa using hname, by simp⟩
    · refine ⟨xs.length, _, h'.holds.item List.not_mem_nil (getElem?_concat.mpr (.inr ⟨rfl, rfl⟩)), ?_⟩
      refine ⟨?_, by simp, by simp, by simp⟩
      rw [fill_ino, hino]
      exact show xs.length + 1 ≠ 1 by omega

/-- A path more, for the new item. -/
lemma Built.pathIno_concat (h : Built xs s) (h' : Built (xs ++ [x]) s') (hdir : x.dir ∈ liveInos s)
    (hname : NameFree s x.dir x.name) : ∃ dp, pathIno s dp = some x.dir ∧
      pathIno s (dp ++ [x.name]) = none ∧ (∀ path, pathIno s path ≠ some x.ino) ∧
      pathIno s' = Function.update (pathIno s) (dp ++ [x.name]) (some x.ino) := by
  have hino : x.ino = xs.length + 1 := h'.tree.ino xs.length x (by simp)
  have hpos := h.tree.pos
  have hroot : rootIno ∈ liveInos s := h.kept.mem_liveInos.mpr ⟨0, List.not_mem_nil, hpos, rfl⟩
  have hroot' : rootIno ∈ liveInos s' :=
    h'.kept.mem_liveInos.mpr ⟨0, List.not_mem_nil, by simp, rfl⟩
  have hgrown : ∀ i ∈ liveInos s, i ∈ liveInos s' := by
    intro i hi
    obtain ⟨f, hf, hlt, rfl⟩ := h.kept.mem_liveInos.mp hi
    refine h'.kept.mem_liveInos.mpr ⟨f, hf, ?_, rfl⟩
    rw [List.length_append]
    omega
  have htree := h.kept.isTree hroot
  have hnew : x.ino ∉ liveInos s := by
    intro hmem
    obtain ⟨f, -, hlt, heq⟩ := h.kept.mem_liveInos.mp hmem
    omega
  obtain ⟨dp, hdp⟩ := htree.exists_path hdir
  have hfree : lookupIno s x.dir x.name = none := by
    cases hk : lookupIno s x.dir x.name with
    | none => rfl
    | some k =>
      obtain ⟨g, y, hy, -, hyd, hyn, -⟩ := (h.kept.agree.lookup_eq_some hdir).mp hk
      have hmem : y ∈ items s := by
        rw [h.holds.mem_items]
        obtain ⟨-, z, hz, rfl⟩ := h.holds.live hy
        exact ⟨g, z, hz, rfl⟩
      exact (hname y hmem hyd hyn).elim
  have hresolve (path : List CStr) : resolve (lookupIno s') rootIno path =
      if path = dp ++ [x.name] then some x.ino else resolve (lookupIno s) rootIno path := by
    refine htree.resolve_insert hdp hfree ?_ (fun n => ?_) fun i hi n hne => ?_
    · exact (h'.kept.agree.lookup_eq_some (hgrown _ hdir)).mpr ((h.entered_concat h').mpr (.inr ⟨rfl, rfl, rfl⟩))
    · -- nothing is entered in the new item
      have hlive : x.ino ∈ liveInos s' := by
        refine h'.kept.mem_liveInos.mpr ⟨xs.length, List.not_mem_nil, by simp, hino⟩
      cases hk : lookupIno s' x.ino n with
      | none => rfl
      | some k =>
        rcases (h.entered_concat h').mp ((h'.kept.agree.lookup_eq_some hlive).mp hk) with
          ⟨g, y, hy, hne, hyd, -⟩ | ⟨hxd, -⟩
        · obtain ⟨-, p, z, hz, hzino, -⟩ := h.kept.agree.parent g y hy hne
          exact (hnew ⟨p, z, hz, hzino.trans hyd⟩).elim
        · rw [hxd] at hdir
          exact (hnew hdir).elim
    · apply Option.ext
      intro k
      rw [h'.kept.agree.lookup_eq_some (hgrown i hi), h.kept.agree.lookup_eq_some hi, h.entered_concat h']
      constructor
      · rintro (hk | ⟨rfl, rfl, -⟩)
        · exact hk
        · exact (hne ⟨rfl, rfl⟩).elim
      · exact .inl
  refine ⟨dp, ?_, ?_, fun path hp => ?_, ?_⟩
  · rw [h.kept.agree.pathIno hroot, hdp]
  · rw [h.kept.agree.pathIno hroot, resolve_concat, hdp, Option.bind_some, hfree]
  · rw [h.kept.agree.pathIno hroot] at hp
    exact hnew (htree.mem hp)
  · funext path
    rw [h'.kept.agree.pathIno hroot', hresolve, Function.update_apply, h.kept.agree.pathIno hroot]

/-! ## Removal -/

/-- The paths of the items that go are gone. -/
lemma ItemsGone.pathIno (hg : ItemsGone s l s') (h : Kept xs R s) {xs' : List File} {R' : List Nat}
    (h' : Kept xs' R' s') (hroot' : rootIno ∈ liveInos s') (path : List CStr) :
    pathIno s' path = (pathIno s path).filter fun i => i ∉ inosOf s l := by
  have ha := h.agree
  have ha' := h'.agree
  have hlive {f : Nat} {x : File} : s'.heap f = some x ↔
      f ∉ l ∧ ∃ y, s.heap f = some y ∧ x = without l y := by
    rw [hg.heap]
    by_cases hf : f ∈ l
    · simp [hf]
    · rw [if_neg hf, Option.map_eq_some_iff]
      simp [hf, eq_comm]
  have hold {i : Nat} : i ∈ liveInos s' ↔ i ∈ liveInos s ∧ i ∉ inosOf s l := by
    constructor
    · rintro ⟨f, x, hx, rfl⟩
      obtain ⟨hf, y, hy, rfl⟩ := hlive.mp hx
      refine ⟨⟨f, y, hy, by simp⟩, fun hmem => ?_⟩
      obtain ⟨g, hgl, hgi⟩ := List.mem_filterMap.mp hmem
      obtain ⟨z, hz, hzi⟩ := Option.map_eq_some_iff.mp hgi
      obtain rfl := ha.ino_inj hz hy (by simpa using hzi)
      exact hf hgl
    · rintro ⟨⟨f, x, hx, rfl⟩, hnot⟩
      refine ⟨f, _, hlive.mpr ⟨fun hf => hnot ?_, x, hx, rfl⟩, by simp⟩
      exact List.mem_filterMap.mpr ⟨f, hf, by simp [hx]⟩
  have hroot : rootIno ∈ liveInos s := (hold.mp hroot').1
  have htree := h.isTree hroot
  have hentered {i k : Nat} {n : CStr} : Entered s' i n k ↔ Entered s i n k ∧ k ∉ inosOf s l := by
    constructor
    · rintro ⟨g, y, hy, hne, hdir, hname, rfl⟩
      have hk := (hold.mp ⟨g, y, hy, rfl⟩).2
      obtain ⟨-, z, hz, rfl⟩ := hlive.mp hy
      exact ⟨⟨g, z, hz, by simpa using hne, by simpa using hdir, by simpa using hname, by simp⟩, hk⟩
    · rintro ⟨⟨g, y, hy, hne, hdir, hname, rfl⟩, hk⟩
      have hgl : g ∉ l := fun hmem => hk (List.mem_filterMap.mpr ⟨g, hmem, by simp [hy]⟩)
      exact ⟨g, _, hlive.mpr ⟨hgl, y, hy, rfl⟩, by simpa using hne, by simpa using hdir,
        by simpa using hname, by simp⟩
  rw [ha'.pathIno hroot', ha.pathIno hroot]
  refine resolve_prune (hold.mp hroot').2 (fun p i n k hp hi hk => ?_) fun p i n hp hi => ?_
  · -- an item that is left has its directory left
    by_contra hkeep
    have hke := hentered.mpr ⟨(ha.lookup_eq_some (htree.mem hp)).mp hk, hkeep⟩
    obtain ⟨g, y, hy, hne, rfl, -⟩ := hke
    obtain ⟨-, q, z, hz, hzino, -⟩ := ha'.parent g y hy hne
    exact (hold.mp ⟨q, z, hz, hzino⟩).2 hi
  · apply Option.ext
    intro k
    rw [ha'.lookup_eq_some (hold.mpr ⟨htree.mem hp, hi⟩), hentered, ← ha.lookup_eq_some (htree.mem hp),
      Option.filter_eq_some_iff, decide_eq_true_eq]

/-! ## Runs -/

/-- The root exists. -/
def RootLeft (s : Fs) : Prop := ∃ x ∈ items s, x.ino = rootIno

instance (s : Fs) : Decidable (RootLeft s) := inferInstanceAs (Decidable (∃ x ∈ items s, _))

/-- A path leads to an item or nowhere, and each item has one path, which ends in its name. -/
structure NamesItems (s : Fs) : Prop where
  walks : ∀ path, walk rootIno path s = .ok (pathIno s path) s
  found : ∀ path i, pathIno s path = some i → ∃ x ∈ items s, x.ino = i
  named : ∀ x ∈ items s, ∃! path, pathIno s path = some x.ino
  below : ∀ x ∈ items s, x.ino ≠ rootIno → ∀ dir, pathIno s dir = some x.dir →
    pathIno s (dir ++ [x.name]) = some x.ino

/-- What a call makes of the map from paths to inodes. -/
inductive NamesChange (s : Fs) : FsEvent → (List CStr → Option Nat) → Prop where
  | created {e : FsEvent} {x : File} {dir : List CStr} (hx : e.item x.ino = some x)
      (hdir : pathIno s dir = some x.dir) (hfree : pathIno s (dir ++ [x.name]) = none)
      (hnew : ∀ path, pathIno s path ≠ some x.ino) :
      NamesChange s e (Function.update (pathIno s) (dir ++ [x.name]) (some x.ino))
  | refused {f : Nat} {x : File} {purge : Bool} (hx : s.heap f = some x) (h : NonemptyDir s x) :
      NamesChange s (.remove f purge) (pathIno s)
  | removed {f : Nat} {purge : Bool} {l : List Nat} (h : Chain s purge f l) :
      NamesChange s (.remove f purge) fun path => (pathIno s path).filter fun i => i ∉ inosOf s l

lemma Agree.mem_items (h : Agree s) : x ∈ items s ↔ ∃ f, s.heap f = some x := by
  rw [items, List.mem_filterMap]
  constructor
  · rintro ⟨f, -, hf⟩
    exact ⟨f, hf⟩
  · rintro ⟨f, hf⟩
    exact ⟨f, List.mem_range.mpr (h.brk f x hf), hf⟩

lemma Agree.rootLeft (h : Agree s) (hroot : RootLeft s) : rootIno ∈ liveInos s := by
  obtain ⟨x, hx, hino⟩ := hroot
  obtain ⟨f, hf⟩ := h.mem_items.mp hx
  exact ⟨f, x, hf, hino⟩

lemma Kept.namesItems (h : Kept xs R s) (hroot : RootLeft s) : NamesItems s := by
  have ha := h.agree
  have hlive := ha.rootLeft hroot
  have htree := h.isTree hlive
  constructor
  · intro path
    rw [ha.pathIno hlive, ha.walk hlive]
  · intro path i hp
    rw [ha.pathIno hlive] at hp
    obtain ⟨f, x, hx, hino⟩ := htree.mem hp
    exact ⟨x, ha.mem_items.mpr ⟨f, hx⟩, hino⟩
  · intro x hx
    obtain ⟨f, hf⟩ := ha.mem_items.mp hx
    simp only [ha.pathIno hlive]
    exact htree.existsUnique_path ⟨f, x, hf, rfl⟩
  · intro x hx hne dir hdir
    obtain ⟨f, hf⟩ := ha.mem_items.mp hx
    obtain ⟨-, p, y, hy, hyino, -⟩ := ha.parent f x hf hne
    rw [ha.pathIno hlive] at hdir ⊢
    refine resolve_concat_eq_some.mpr ⟨x.dir, hdir, ?_⟩
    rw [← hyino]
    exact ((ha.lookup hy x.name).2 x.ino).mpr ⟨f, x, hf, hne, hyino.symm, rfl, rfl⟩

lemma Kept.create_change (h : Kept xs R s) (he : CreatesUnique s e) (hroom : HasRoom s)
    (hne : ∀ f purge, e ≠ .remove f purge) (hstep : FsStep s e s') : NamesChange s e (pathIno s') := by
  by_cases hR : R = []
  · have hb := h.built hR
    obtain ⟨x, t, hx, hrun, hbuilt⟩ := hb.step he hroom
    cases hstep.symm.trans hrun
    obtain ⟨x', hx', hdir, hname⟩ := he.item (xs.length + 1)
    obtain rfl : x = x' := Option.some.inj (hx.symm.trans hx')
    have hlive : x.dir ∈ liveInos s := by
      obtain ⟨p, y, hp, hy, -⟩ := hb.dirAt hdir
      exact h.mem_liveInos.mpr ⟨p, by simp [hR], (List.getElem?_eq_some_iff.mp hy).1, hp⟩
    obtain ⟨dp, hdp, hfree, hnew, hpaths⟩ := hb.pathIno_concat hbuilt hlive hname
    rw [hpaths]
    rw [← FsEvent.item_ino hx] at hx
    exact .created hx hdp hfree hnew
  · exact (h.create_fails hR hne hstep).elim

lemma Kept.remove_change (h : Kept xs R s) {purge : Bool} (hf : s.heap f ≠ none)
    (hstep : FsStep s (.remove f purge) s') {xs' : List File} {R' : List Nat} (h' : Kept xs' R' s')
    (hroot' : RootLeft s') : NamesChange s (.remove f purge) (pathIno s') := by
  have ha := h.agree
  obtain ⟨x, hx⟩ := Option.ne_none_iff_exists'.mp hf
  obtain ⟨b, hrun⟩ := discard_eq_ok.mp hstep
  by_cases hsome : NonemptyDir s x
  · cases hrun.symm.trans (ha.refused hx hsome)
    exact .refused hx hsome
  · have hcard : (liveItems s).card ≤ s.brk + 1 := by
      have hle := Finset.card_filter_le (Finset.range s.brk) fun g => (s.heap g).isSome
      rw [Finset.card_range] at hle
      exact hle.trans (Nat.le_succ _)
    obtain ⟨l, t, hchain, hremove, hgone⟩ := ha.fsRemove (s.brk + 1) hcard hx hsome
    have hremove' : fsRemoveitem f purge s = .ok true t := hremove
    cases hrun.symm.trans hremove'
    have hpaths : pathIno s' = fun path => (pathIno s path).filter fun i => i ∉ inosOf s l := by
      funext path
      exact hgone.pathIno h h' (h'.agree.rootLeft hroot') path
    rw [hpaths]
    exact .removed hchain

/-- As long as the root exists, the items have a path each, creates add one, and removals take away those of
the items that go. -/
theorem paths_name_items (h : FsReachable Called s) (hroot : RootLeft s) : NamesItems s ∧
    ∀ e s', Called s e → FsStep s e s' → RootLeft s' → NamesChange s e (pathIno s') := by
  obtain ⟨xs, R, hk⟩ := kept_of_reachable h
  refine ⟨hk.namesItems hroot, fun e s' he hstep hroot' => ?_⟩
  cases e with
  | createdir dir name ops => exact hk.create_change he.1 he.2 (by simp) hstep
  | createfile dir name symlink ops => exact hk.create_change he.1 he.2 (by simp) hstep
  | remove f purge =>
    obtain ⟨xs', R', hk'⟩ := kept_of_reachable (.next h he hstep)
    exact hk.remove_change he hstep hk' hroot'

/-- A file alone in its directory, beside another file: the directory goes with it. -/
theorem paths_name_items_purged : ∃ s s', FsReachable Called s ∧ NamesItems s ∧
    pathIno s [bytes "a", bytes "f"] = some 3 ∧ FsStep s (.remove 2 true) s' ∧
    NamesChange s (.remove 2 true) (pathIno s') ∧ pathIno s' [bytes "a"] = none ∧
    pathIno s' [bytes "g"] = some 4 := by
  obtain ⟨s, hs, hp⟩ := exists_fsReachable Called (bytes "/yar.fs")
    [.createdir 1 (bytes "a") .fs_dir_ops, .createfile 2 (bytes "f") none .fs_pid_ops,
      .createfile 1 (bytes "g") none .fs_cmds_ops]
    (fun s => decide (RootLeft s ∧ Called s (.remove 2 true) ∧ pathIno s [bytes "a", bytes "f"] = some 3) &&
      (fsExec (.remove 2 true) s).any fun s' => decide (RootLeft s' ∧ pathIno s' [bytes "a"] = none ∧
        pathIno s' [bytes "g"] = some 4)) (by decide +kernel)
  rw [Bool.and_eq_true, decide_eq_true_eq] at hp
  obtain ⟨⟨hroot, hcalled, hfile⟩, hexec⟩ := hp
  obtain ⟨s', hs', hp'⟩ := (Option.any_eq_true _ _).mp hexec
  obtain ⟨hroot', ha, hg⟩ := of_decide_eq_true hp'
  have hstep : FsStep s (.remove 2 true) s' := by
    unfold fsExec at hs'
    split at hs'
    · rename_i hact
      cases hs'
      exact hact
    · cases hs'
  obtain ⟨hnames, hchange⟩ := paths_name_items hs hroot
  exact ⟨s, s', hs, hnames, hfile, hstep, hchange _ s' hcalled hstep hroot', ha, hg⟩

end Yar.Proofs
