import Yar.Proofs.Purge

/-!
# Directories and names

The two tables of a directory hold the items created in it as long as no name is used twice. The
creates do not look at what `dir_add` returns, so an item whose name is taken stays in the inode
table and is in no directory.
-/

namespace Yar.Proofs

open Program Fs

variable {s s' : Fs} {xs : List File} {R : List Nat} {x y : File} {f g p : Nat} {e : FsEvent}

/-- A create in a directory that exists, whatever the name. -/
def CreatesAny (s : Fs) (e : FsEvent) : Prop :=
  match e with
  | .createdir dir _ _ => ExistsDir s dir
  | .createfile dir _ _ _ => ExistsDir s dir
  | .remove _ _ => False

instance (s : Fs) (e : FsEvent) : Decidable (CreatesAny s e) :=
  match e with
  | .createdir dir _ _ => inferInstanceAs (Decidable (ExistsDir s dir))
  | .createfile dir _ _ _ => inferInstanceAs (Decidable (ExistsDir s dir))
  | .remove _ _ => inferInstanceAs (Decidable False)

/-- The tables of the directories and the inode table agree, and a name is found exactly when an
item was created under it. -/
structure TablesAgree (s : Fs) : Prop where
  same : ∀ f x, s.heap f = some x → x.type = .DIRECTORY →
    ∃ d, x.data = .dir d ∧ ∀ g, g ∈ d.ino_files ↔ g ∈ d.nm_files
  listed : ∀ f x, s.heap f = some x → x.ino ≠ rootIno →
    ∃ p y d, (s.ino_table x.dir).file = some p ∧ s.heap p = some y ∧ y.type = .DIRECTORY ∧
      y.data = .dir d ∧ s.findIno d.ino_files x.ino = some f ∧ s.findName d.nm_files x.name = some f
  only : ∀ p y d, s.heap p = some y → y.type = .DIRECTORY → y.data = .dir d →
    ∀ g ∈ d.ino_files, ∃ x, s.heap g = some x ∧ x.ino ≠ rootIno ∧ x.dir = y.ino
  once : ∀ f g i j dir name, .created f i dir name ∈ s.trace → .created g j dir name ∈ s.trace → f = g
  lookup : ∀ dir name i, ExistsDir s dir →
    (fs_fuse_lookup dir name s = .ok (some i) s ↔ ∃ f, .created f i dir name ∈ s.trace)

lemma Built.lookup_eq (h : Built xs s) (hy : xs[p]? = some y) (htype : y.type = .DIRECTORY)
    (name : CStr) :
    fs_fuse_lookup (p + 1) name s =
      .ok ((s.findName (children xs [] (p + 1)) name).map (· + 1)) s := by
  have hat : DirAt s (p + 1) p (fill xs [] y) :=
    h.pruned.dirAt h.tree.length List.not_mem_nil hy htype
  unfold fs_fuse_lookup
  rw [bind_of_ok (ino2inodesc_ok hat.lt), if_neg (by simp [hat.next])]
  simp only [hat.file]
  rw [bind_of_ok (deref_ok hat.heap), if_neg (not_not_intro hat.type), fill_data htype,
    h.tree.ino p y hy]
  simp only
  rw [bind_of_ok (show (get : FsAct Fs) s = .ok s s from rfl)]
  cases hfind : s.findName (children xs [] (p + 1)) name with
  | none => rfl
  | some f =>
    obtain ⟨-, z, hz, -⟩ := mem_children.mp (List.mem_of_find?_eq_some hfind)
    simp only
    rw [bind_of_ok (deref_ok (h.holds.item List.not_mem_nil hz)), fill_ino, h.tree.ino f z hz]
    rfl

lemma Built.mem_trace (h : Built xs s) {i dir : Nat} {name : CStr} :
    FsObs.created f i dir name ∈ s.trace ↔
      ∃ x, xs[f]? = some x ∧ i = f + 1 ∧ dir = x.dir ∧ name = x.name := by
  rw [h.trace, creations, List.mem_reverse, List.mem_map]
  constructor
  · rintro ⟨x, hx, hobs⟩
    obtain ⟨g, hg⟩ := List.mem_iff_getElem?.mp hx
    have hino := h.tree.ino g x hg
    injection hobs with hf hi hd hn
    rw [hino, Nat.add_sub_cancel] at hf
    subst hf
    exact ⟨x, hg, hi.symm.trans hino, hd.symm, hn.symm⟩
  · rintro ⟨x, hx, rfl, rfl, rfl⟩
    refine ⟨x, List.mem_iff_getElem?.mpr ⟨f, hx⟩, ?_⟩
    rw [h.tree.ino f x hx, Nat.add_sub_cancel]

/-- What the table of names finds in a directory. -/
lemma Built.findName_iff (h : Built xs s) {dir : Nat} {name : CStr} :
    s.findName (children xs [] dir) name = some f ↔
      ∃ x, xs[f]? = some x ∧ x.dir = dir ∧ x.name = name := by
  constructor
  · intro hfind
    obtain ⟨-, x, hx, hd⟩ := mem_children.mp (List.mem_of_find?_eq_some hfind)
    have hname := List.find?_some hfind
    rw [h.holds.item List.not_mem_nil hx] at hname
    exact ⟨x, hx, hd, by simpa using hname⟩
  · rintro ⟨x, hx, rfl, rfl⟩
    exact findName_children h.tree h.holds List.not_mem_nil hx

lemma Built.tablesAgree (h : Built xs s) : TablesAgree s where
  same f z hz htype := by
    obtain ⟨-, x, hx, rfl⟩ := h.holds.live hz
    rw [fill_type] at htype
    exact ⟨_, fill_data htype, fun g => Iff.rfl⟩
  listed f z hz hroot := by
    obtain ⟨-, x, hx, rfl⟩ := h.holds.live hz
    have hino := h.tree.ino f x hx
    have h0 : f ≠ 0 := by
      rintro rfl
      rw [fill_ino, hino] at hroot
      exact hroot rfl
    obtain ⟨p, y, hd, -, hy, htype⟩ := h.tree.parent f x h0 hx
    have hat : DirAt s (p + 1) p (fill xs [] y) :=
      h.pruned.dirAt h.tree.length List.not_mem_nil hy htype
    have hyino := h.tree.ino p y hy
    have hmem : f ∈ children xs [] (p + 1) := mem_children.mpr ⟨List.not_mem_nil, x, hx, hd⟩
    refine ⟨p, fill xs [] y, _, ?_, hat.heap, hat.type, fill_data htype, ?_, ?_⟩
    · rw [fill_dir, hd]
      exact hat.file
    · rw [fill_ino, hyino]
      exact findIno_children h.tree h.holds List.not_mem_nil hx hmem
    · rw [fill_name, hyino, ← hd]
      exact findName_children h.tree h.holds List.not_mem_nil hx
  only p z d hz htype hdata g hg := by
    obtain ⟨-, y, hy, rfl⟩ := h.holds.live hz
    rw [fill_type] at htype
    rw [fill_data htype] at hdata
    cases hdata
    obtain ⟨-, x, hx, hd⟩ := mem_children.mp hg
    refine ⟨fill xs [] x, h.holds.item List.not_mem_nil hx, ?_, ?_⟩
    · have hlt : p < g := h.tree.lt_of_child (R := []) (by rwa [← h.tree.ino p y hy])
      rw [fill_ino, h.tree.ino g x hx]
      exact show g + 1 ≠ 1 by omega
    · rw [fill_dir, fill_ino, hd]
  once f g i j dir name hf hg := by
    obtain ⟨x, hx, -, hdx, hnx⟩ := h.mem_trace.mp hf
    obtain ⟨y, hy, -, hdy, hny⟩ := h.mem_trace.mp hg
    exact h.tree.names f g x y hx hy (hdx.symm.trans hdy) (hnx.symm.trans hny)
  lookup dir name i hdir := by
    obtain ⟨p, y, rfl, hy, htype⟩ := h.dirAt hdir
    rw [h.lookup_eq hy htype]
    constructor
    · intro hres
      have hmap : (s.findName (children xs [] (p + 1)) name).map (· + 1) = some i := by
        injection hres
      obtain ⟨f, hfind, rfl⟩ := Option.map_eq_some_iff.mp hmap
      obtain ⟨x, hx, hd, hn⟩ := h.findName_iff.mp hfind
      exact ⟨f, h.mem_trace.mpr ⟨x, hx, rfl, hd.symm, hn.symm⟩⟩
    · rintro ⟨f, hf⟩
      obtain ⟨x, hx, rfl, hd, hn⟩ := h.mem_trace.mp hf
      rw [h.findName_iff.mpr ⟨x, hx, hd.symm, hn.symm⟩]
      rfl

/-- As long as no name is used twice in a directory, tables and inodes agree. -/
theorem tables_agree (h : FsReachable CreatesUnique s) : TablesAgree s := by
  obtain ⟨xs, hb⟩ := built_of_reachable h
  exact hb.tablesAgree

theorem tables_agree_nested : ∃ s, FsReachable CreatesUnique s ∧ (items s).length = 4 ∧
    TablesAgree s := by
  obtain ⟨s, hs, hlen⟩ := exists_fsReachable CreatesUnique (bytes "/yar.fs")
    [.createdir 1 (bytes "a") .fs_dir_ops, .createfile 2 (bytes "f") none .fs_pid_ops,
      .createfile 1 (bytes "f") none .fs_pid_ops] (fun s => (items s).length == 4)
    (by decide +kernel)
  exact ⟨s, hs, beq_iff_eq.mp hlen, tables_agree hs⟩

/-- Two files of one name in the root. -/
theorem tables_not_always_agree : ¬∀ s, FsReachable CreatesAny s → TablesAgree s := by
  intro hall
  obtain ⟨s, hs, hp⟩ := exists_fsReachable CreatesAny (bytes "/yar.fs")
    [.createfile 1 (bytes "f") none .fs_pid_ops, .createfile 1 (bytes "f") none .fs_cmds_ops]
    (fun s => decide (.created 1 2 1 (bytes "f") ∈ s.trace) &&
      decide (.created 2 3 1 (bytes "f") ∈ s.trace)) (by decide +kernel)
  rw [Bool.and_eq_true, decide_eq_true_iff, decide_eq_true_iff] at hp
  cases (hall s hs).once 1 2 2 3 1 (bytes "f") hp.1 hp.2

lemma CreatesAny.item (he : CreatesAny s e) (ino : Nat) :
    ∃ x, e.item ino = some x ∧ ExistsDir s x.dir ∧ (NameFree s x.dir x.name → CreatesUnique s e) := by
  cases e with
  | createdir dir name ops => exact ⟨_, rfl, he, fun hn => ⟨he, hn⟩⟩
  | createfile dir name symlink ops => exact ⟨_, rfl, he, fun hn => ⟨he, hn⟩⟩
  | remove f purge => exact he.elim

/-- A create under a name that is taken returns, and its item is in neither table. -/
theorem taken_not_listed (h : FsReachable CreatesUnique s) (he : CreatesAny s e)
    (hname : ¬CreatesUnique s e) (hroom : HasRoom s) :
    ∃ s', e.act s = .ok () s' ∧ s'.heap s.brk ≠ none ∧ ¬TablesAgree s' := by
  obtain ⟨xs, hb⟩ := built_of_reachable h
  obtain ⟨x, hitem, hdir, hfree⟩ := he.item (xs.length + 1)
  obtain ⟨p, y, hp, hy, htype⟩ := hb.dirAt hdir
  have hat := allocated_dirAt hb hroom hy htype
  have hyino := hb.tree.ino p y hy
  have hxino : x.ino = xs.length + 1 := FsEvent.item_ino hitem
  have hplt : p < xs.length := (List.getElem?_eq_some_iff.mp hy).1
  obtain ⟨v, hv, hvd, hvn⟩ : ∃ v ∈ items s, v.dir = x.dir ∧ v.name = x.name := by
    by_contra hno
    exact hname (hfree fun v hv hd hn => hno ⟨v, hv, hd, hn⟩)
  obtain ⟨g, z, hz, rfl⟩ := hb.holds.mem_items.mp hv
  rw [fill_dir] at hvd
  have hg : g ∈ children xs [] y.ino :=
    mem_children.mpr ⟨List.not_mem_nil, z, hz, by rw [hvd, hp, hyino]⟩
  have hglt : g < xs.length := (List.getElem?_eq_some_iff.mp hz).1
  have hrun := createItem_taken (x := x) (s := allocated s (xs.length + 1)) (f := p)
    (hplt.trans_eq hb.holds.brk.symm).ne hat.heap hat.type (fill_data htype) hg
    (hglt.trans_eq hb.holds.brk.symm).ne (hb.holds.item List.not_mem_nil hz) hvn
  have hgrown := orphaned_grown (x := x) hb.holds.brk hxino hplt.ne hat.heap
  refine ⟨orphaned (allocated s (xs.length + 1)) x, ?_, ?_, fun hagree => ?_⟩
  · rw [FsEvent.act_eq hitem (hb.allocated hroom) hp (createDir_ok hat)]
    exact discard_eq_ok.mpr ⟨_, hrun⟩
  · rw [hb.holds.brk, hgrown.new]
    exact Option.some_ne_none x
  · -- the directory is the one before the call, so the new item is not found in it
    obtain ⟨q, w, d, hq, hw, -, hdata, hfind, -⟩ := hagree.listed xs.length x hgrown.new (by
      rw [hxino]
      exact show xs.length + 1 ≠ 1 by omega)
    rw [hp, hgrown.slots (p + 1) (by omega), hb.holds.file, if_neg (by omega)] at hq
    cases hq
    rw [Nat.add_sub_cancel, hgrown.parent] at hw
    cases hw
    rw [fill_data htype] at hdata
    cases hdata
    obtain ⟨-, u, hu, -⟩ := mem_children.mp (List.mem_of_find?_eq_some hfind)
    exact ((List.getElem?_eq_some_iff.mp hu).1).false

end Yar.Proofs
