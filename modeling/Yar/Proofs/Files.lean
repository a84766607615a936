import Yar.Lib.Linked
import Yar.Lib.Reach
import Yar.Fs

/-!
# The file system as a list of items

As long as names are unique and nothing is removed, the inode table, the heap and the directories
are those of the list of items in the order of their creation: the item with address `f` has inode
`f + 1`, and a directory comes before what is in it. `Holds xs R s` says that `s` is the file
system of the items `xs` after the items of `R` have been removed.
-/

namespace Yar.Proofs

open Program Fs

variable {s s' : Fs} {xs : List File} {R : List Nat} {x y : File} {f g : Nat}

/-! ## Steps of a file system -/

inductive FsEvent where
  | createdir (parentino : Nat) (name : CStr) (ops : FileOps)
  | createfile (dirino : Nat) (name : CStr) (symlink : Option CStr) (ops : FileOps)
  | remove (item : Nat) (purgeemptydir : Bool)

def FsEvent.act (e : FsEvent) : FsAct Unit :=
  match e with
  | .createdir parentino name ops => discard (fsCreatedir parentino name ops)
  | .createfile dirino name symlink ops => discard (fsCreatefile dirino name symlink ops)
  | .remove item purgeemptydir => discard (fsRemoveitem item purgeemptydir)

/-- `fsCreate` has succeeded. What a `createfsfunc` does comes down to further steps. -/
def FsStarted (s : Fs) : Prop := ∃ mntpt, fsCreate true true none (fsInit mntpt) = .ok true s

def FsStep (s : Fs) (e : FsEvent) (s' : Fs) : Prop := e.act s = .ok () s'

/-- The file systems that come about in runs whose steps all meet `ok`. -/
abbrev FsReachable (ok : Fs → FsEvent → Prop) (s : Fs) : Prop :=
  Transition.Reach FsStarted FsStep ok s

/-- The items that have been created and not been freed. -/
def items (s : Fs) : List File := (List.range s.brk).filterMap s.heap

def ExistsDir (s : Fs) (ino : Nat) : Prop := ∃ x ∈ items s, x.ino = ino ∧ x.type = .DIRECTORY

def NameFree (s : Fs) (dir : Nat) (name : CStr) : Prop := ∀ x ∈ items s, x.dir = dir → x.name ≠ name

/-- Inode 0 is always in use. -/
def HasRoom (s : Fs) : Prop := (items s).length + 1 < s.ino_num

instance (s : Fs) (ino : Nat) : Decidable (ExistsDir s ino) :=
  inferInstanceAs (Decidable (∃ x ∈ items s, _ ∧ _))

instance (s : Fs) (dir : Nat) (name : CStr) : Decidable (NameFree s dir name) :=
  inferInstanceAs (Decidable (∀ x ∈ items s, _ → _))

instance (s : Fs) : Decidable (HasRoom s) := inferInstanceAs (Decidable (_ < _))

/-- A create in a directory that exists, under a name that no item of the directory has. -/
def CreatesUnique (s : Fs) (e : FsEvent) : Prop :=
  match e with
  | .createdir dir name _ => ExistsDir s dir ∧ NameFree s dir name
  | .createfile dir name _ _ => ExistsDir s dir ∧ NameFree s dir name
  | .remove _ _ => False

instance (s : Fs) (e : FsEvent) : Decidable (CreatesUnique s e) :=
  match e with
  | .createdir dir name _ => inferInstanceAs (Decidable (ExistsDir s dir ∧ NameFree s dir name))
  | .createfile dir name _ _ => inferInstanceAs (Decidable (ExistsDir s dir ∧ NameFree s dir name))
  | .remove _ _ => inferInstanceAs (Decidable False)

/-! ## Items and what is in them -/

/-- The items that are in the directory with this inode, but for those removed. -/
def children (xs : List File) (R : List Nat) (ino : Nat) : List Nat :=
  (List.range xs.length).filter fun g => g ∉ R ∧ (xs[g]?).any fun x => x.dir == ino

lemma mem_children {ino : Nat} :
    g ∈ children xs R ino ↔ g ∉ R ∧ ∃ x, xs[g]? = some x ∧ x.dir = ino := by
  rw [children, List.mem_filter, List.mem_range]
  simp only [decide_eq_true_eq, Option.any_eq_true, beq_iff_eq]
  constructor
  · exact fun h => h.2
  · rintro ⟨hR, x, hx, hd⟩
    exact ⟨(List.getElem?_eq_some_iff.mp hx).1, hR, x, hx, hd⟩

lemma children_nodup (xs : List File) (R : List Nat) (ino : Nat) : (children xs R ino).Nodup :=
  List.nodup_range.filter _

lemma children_append (ino : Nat) :
    children (xs ++ [x]) [] ino = children xs [] ino ++ if x.dir = ino then [xs.length] else [] := by
  rw [children, List.length_append, List.length_singleton, List.range_succ, List.filter_append]
  congr 1
  · rw [children]
    refine List.filter_congr fun g hg => ?_
    rw [List.getElem?_append_left (List.mem_range.mp hg)]
  · by_cases hd : x.dir = ino <;> simp [hd]

/-- An item with the tables a directory has. -/
def fill (xs : List File) (R : List Nat) (x : File) : File :=
  if x.type = .DIRECTORY then
    { x with data := .dir ⟨children xs R x.ino, children xs R x.ino⟩ }
  else x

@[simp] lemma fill_ino : (fill xs R x).ino = x.ino := by unfold fill; split <;> rfl
@[simp] lemma fill_name : (fill xs R x).name = x.name := by unfold fill; split <;> rfl
@[simp] lemma fill_dir : (fill xs R x).dir = x.dir := by unfold fill; split <;> rfl
@[simp] lemma fill_type : (fill xs R x).type = x.type := by unfold fill; split <;> rfl

lemma fill_data (h : x.type = .DIRECTORY) :
    (fill xs R x).data = .dir ⟨children xs R x.ino, children xs R x.ino⟩ := by
  rw [fill, if_pos h]

/-- The list of items of a tree: numbered in order, below a root, each below a directory that
comes before it, with names unique in each directory. -/
structure FileTree (xs : List File) : Prop where
  length : xs.length < inoNum
  nonempty : xs ≠ []
  ino : ∀ (f : Nat) (x : File), xs[f]? = some x → x.ino = f + 1
  root : ∀ x, xs[0]? = some x → x.dir = invalidIno ∧ x.type = .DIRECTORY
  parent : ∀ (f : Nat) (x : File), f ≠ 0 → xs[f]? = some x →
    ∃ (p : Nat) (y : File), x.dir = p + 1 ∧ p < f ∧ xs[p]? = some y ∧ y.type = .DIRECTORY
  names : ∀ (f g : Nat) (x y : File), xs[f]? = some x → xs[g]? = some y → x.dir = y.dir → x.name = y.name → f = g

lemma FileTree.pos (ht : FileTree xs) : 0 < xs.length := List.length_pos_iff.mpr ht.nonempty

/-- The state is that of the items `xs` with those of `R` removed. -/
structure Holds (xs : List File) (R : List Nat) (s : Fs) : Prop where
  num : s.ino_num = inoNum
  numfree : s.ino_numfree = inoNum - (xs.length + 1) + R.length
  brk : s.brk = xs.length
  heap : ∀ f, s.heap f = if f ∈ R then none else (xs[f]?).map (fill xs R)
  file : ∀ i, (s.ino_table i).file = if i = 0 ∨ xs.length < i then none else some (i - 1)
  next : ∀ i ≤ xs.length, i = 0 ∨ i - 1 ∉ R → (s.ino_table i).next = none

/-- The inodes above those in use are free, in order. -/
structure Unused (n : Nat) (s : Fs) : Prop where
  freelist : s.ino_freelist = if n + 1 < inoNum then some (n + 1) else none
  next : ∀ i, n < i → (s.ino_table i).next = if i + 1 < inoNum then some (i + 1) else none

lemma Holds.item (h : Holds xs R s) (hf : f ∉ R) (hx : xs[f]? = some x) :
    s.heap f = some (fill xs R x) := by
  rw [h.heap, if_neg hf, hx]
  rfl

/-- A live item is one of the list. -/
lemma Holds.live (h : Holds xs R s) (hx : s.heap f = some x) :
    f ∉ R ∧ ∃ y, xs[f]? = some y ∧ x = fill xs R y := by
  rw [h.heap] at hx
  split at hx
  · cases hx
  · obtain ⟨y, hy, rfl⟩ := Option.map_eq_some_iff.mp hx
    exact ⟨‹_›, y, hy, rfl⟩

lemma Holds.mem_items (h : Holds xs [] s) :
    x ∈ items s ↔ ∃ (f : Nat) (y : File), xs[f]? = some y ∧ x = fill xs [] y := by
  rw [items, List.mem_filterMap]
  constructor
  · rintro ⟨f, -, hf⟩
    obtain ⟨-, y, hy⟩ := h.live hf
    exact ⟨f, y, hy⟩
  · rintro ⟨f, y, hy, rfl⟩
    refine ⟨f, ?_, h.item List.not_mem_nil hy⟩
    rw [h.brk, List.mem_range]
    exact (List.getElem?_eq_some_iff.mp hy).1

lemma filterMap_range {α : Type} (l : List α) :
    (List.range l.length).filterMap (fun i => l[i]?) = l := by
  induction l using List.reverseRecOn with
  | nil => rfl
  | append_singleton l a ih =>
    rw [List.length_append, List.length_singleton, List.range_succ, List.filterMap_append]
    congr 1
    · conv_rhs => rw [← ih]
      refine List.filterMap_congr fun i hi => ?_
      rw [List.getElem?_append_left (List.mem_range.mp hi)]
    · simp

lemma Holds.items_length (h : Holds xs [] s) : (items s).length = xs.length := by
  have hmap : items s = xs.map (fill xs []) := by
    rw [items, h.brk, ← filterMap_range (xs.map (fill xs [])), List.length_map]
    refine List.filterMap_congr fun f _ => ?_
    rw [h.heap, if_neg List.not_mem_nil, List.getElem?_map]
  rw [hmap, List.length_map]

/-! ## Creating an item -/

/-- The state after the next inode has been taken. -/
def allocated (s : Fs) (ino : Nat) : Fs :=
  { s.updInode ino fun id => { id with next := none } with
    ino_freelist := (s.ino_table ino).next
    ino_numfree := s.ino_numfree - 1 }

lemma inoalloc_ok {ino : Nat} (hfree : s.ino_freelist = some ino) (hnum : 1 ≤ s.ino_numfree)
    (hfile : (s.ino_table ino).file = none) (hlt : ino < s.ino_num) :
    inoalloc s = .ok ino (allocated s ino) := by
  have hinit : when (s.ino_num = 0) init_inotable s = .ok () s :=
    when_eq_ok.mpr (.inr ⟨Nat.ne_zero_of_lt hlt, rfl⟩)
  unfold inoalloc
  rw [bind_of_ok (show (get : FsAct Fs) s = .ok s s from rfl), bind_of_ok hinit]
  rw [bind_of_ok (show (get : FsAct Fs) s = .ok s s from rfl)]
  simp only [hfree]
  rw [bind_of_ok (show (modify _ : FsAct PUnit) s = .ok ⟨⟩ (allocated s ino) from rfl)]
  rw [bind_of_ok (require_eq_ok (u := ()).mpr ⟨by omega, rfl⟩)]
  rw [bind_of_ok (require_eq_ok (u := ()).mpr ⟨hfile, rfl⟩)]
  rw [bind_of_ok (require_eq_ok (u := ()).mpr ⟨hlt, rfl⟩)]
  rfl

lemma ino2inodesc_ok {ino : Nat} (hlt : ino < s.ino_num) :
    ino2inodesc ino s = .ok (s.ino_table ino) s := by
  unfold ino2inodesc
  rw [bind_of_ok (show (get : FsAct Fs) s = .ok s s from rfl)]
  rw [bind_of_ok (require_eq_ok (u := ()).mpr ⟨hlt, rfl⟩)]
  rfl

lemma deref_ok (h : s.heap f = some x) : deref f s = .ok x s := by
  unfold deref
  rw [bind_of_ok (show (get : FsAct Fs) s = .ok s s from rfl), h]
  rfl

lemma createIno_ok {ino : Nat} (hfree : s.ino_freelist = some ino) (hnum : 1 ≤ s.ino_numfree)
    (hfile : (s.ino_table ino).file = none) (hlt : ino < s.ino_num) :
    createIno s = .ok ino (allocated s ino) := by
  have hget : ino2inodesc ino (allocated s ino) =
      .ok { file := none, next := none } (allocated s ino) := by
    rw [ino2inodesc_ok (by exact hlt)]
    simp [allocated, updInode, hfile]
  unfold createIno
  rw [bind_of_ok (inoalloc_ok hfree hnum hfile hlt), bind_of_ok hget]
  rw [bind_of_ok (require_eq_ok (u := ()).mpr ⟨⟨rfl, rfl⟩, rfl⟩)]
  rfl

/-- What a pointer to a directory in the inode table stands for. -/
structure DirAt (s : Fs) (ino : Nat) (f : Nat) (x : File) : Prop where
  lt : ino < s.ino_num
  next : (s.ino_table ino).next = none
  file : (s.ino_table ino).file = some f
  heap : s.heap f = some x
  type : x.type = .DIRECTORY

lemma createDir_ok {ino : Nat} (h : DirAt s ino f x) : createDir ino s = .ok f s := by
  unfold createDir
  rw [bind_of_ok (ino2inodesc_ok h.lt), bind_of_ok (require_eq_ok (u := ()).mpr ⟨h.next, rfl⟩)]
  simp only [h.file]
  rw [bind_of_ok (deref_ok h.heap), bind_of_ok (require_eq_ok (u := ()).mpr ⟨h.type, rfl⟩)]
  rfl

lemma containingDir_ok (h : DirAt s x.dir f y) : containingDir x s = .ok f s := by
  unfold containingDir
  rw [bind_of_ok (ino2inodesc_ok h.lt), bind_of_ok (require_eq_ok (u := ()).mpr ⟨h.next, rfl⟩)]
  simp only [h.file]
  rw [bind_of_ok (deref_ok h.heap), bind_of_ok (require_eq_ok (u := ()).mpr ⟨h.type, rfl⟩)]
  rfl

/-- The state after an item has been put on the heap. -/
def malloced (s : Fs) (x : File) : Fs :=
  { s with heap := Function.update s.heap s.brk (some x), brk := s.brk + 1 }

lemma mallocFile_ok : mallocFile x s = .ok s.brk (malloced s x) := rfl

/-- The state after the contents of an item have been replaced. -/
def setHeap (s : Fs) (f : Nat) (x : Option File) : Fs :=
  { s with heap := Function.update s.heap f x }

lemma setFile_ok (x : Option File) : setFile f x s = .ok () (setHeap s f x) := rfl

lemma dir_add_ok {d : Dir} (hf : s.heap f = some x) (htype : x.type = .DIRECTORY)
    (hdata : x.data = .dir d) (hg : s.heap g = some y) (hino : s.findIno d.ino_files y.ino = none)
    (hname : s.findName d.nm_files y.name = none) :
    dir_add f g s = .ok true (setHeap s f
      (some { x with data := .dir ⟨d.ino_files ++ [g], d.nm_files ++ [g]⟩ })) := by
  unfold dir_add
  rw [bind_of_ok (deref_ok hf), bind_of_ok (deref_ok hg)]
  simp only [htype, hdata]
  rw [bind_of_ok (show (get : FsAct Fs) s = .ok s s from rfl)]
  rw [if_neg (by simp [hino]), if_neg (by simp [hname])]
  rfl

/-- A name that is taken makes `dir_add` fail. -/
lemma dir_add_taken {d : Dir} (hf : s.heap f = some x) (htype : x.type = .DIRECTORY)
    (hdata : x.data = .dir d) (hg : s.heap g = some y) (hname : s.findName d.nm_files y.name ≠ none) :
    dir_add f g s = .ok false s := by
  unfold dir_add
  rw [bind_of_ok (deref_ok hf), bind_of_ok (deref_ok hg)]
  simp only [htype, hdata]
  rw [bind_of_ok (show (get : FsAct Fs) s = .ok s s from rfl)]
  rw [if_pos (Option.isSome_iff_ne_none.mpr hname), ite_self]
  rfl

/-- What a create does once its inode and its directory have been found. -/
def createItem (parent : Nat) (x : File) : FsAct Nat := do
  let item ← mallocFile x
  discard (dir_add parent item)
  setInode x.ino item
  Fs.note (.created item x.ino x.dir x.name)
  return item

lemma fsCreatedir_eq {parentino ino : Nat} {name : CStr} {ops : FileOps} (h0 : parentino ≠ invalidIno)
    (hino : createIno s = .ok ino s') (hdir : createDir parentino s' = .ok f s') :
    fsCreatedir parentino name ops s = createItem f
      { ops := ops, data := .dir {}, name := name, ino := ino, dir := parentino,
        type := .DIRECTORY } s' := by
  have hparent : (some <$> createDir parentino) s' = .ok (some f) s' :=
    map_eq_ok.mpr ⟨f, hdir, rfl⟩
  unfold fsCreatedir
  rw [bind_of_ok hino, if_pos h0, bind_of_ok hparent]
  rfl

/-- The item `fsCreatefile` makes. -/
def newFile (ino dirino : Nat) (name : CStr) (symlink : Option CStr) (ops : FileOps) : File where
  ops := ops
  data := match symlink with
    | some target => .symlink target
    | none => .null
  name := name
  ino := ino
  dir := dirino
  type := if symlink.isSome then .SYMLINK else .REGULAR

lemma fsCreatefile_eq {dirino ino : Nat} {name : CStr} {symlink : Option CStr} {ops : FileOps}
    (h0 : dirino ≠ invalidIno) (hino : createIno s = .ok ino s')
    (hdir : createDir dirino s' = .ok f s') :
    fsCreatefile dirino name symlink ops s =
      createItem f (newFile ino dirino name symlink ops) s' := by
  unfold fsCreatefile
  rw [bind_of_ok hino, bind_of_ok (require_eq_ok (u := ()).mpr ⟨h0, rfl⟩), bind_of_ok hdir]
  rfl

/-- The state `createItem` leaves when the directory takes the item. -/
def created (s : Fs) (parent : Nat) (d : File) (tables : Dir) (x : File) : Fs :=
  let s₁ := setHeap (malloced s x) parent (some { d with data := .dir tables })
  { s₁.updInode x.ino fun id => { id with file := some s.brk } with
    trace := .created s.brk x.ino x.dir x.name :: s.trace }

lemma createItem_ok {d : Dir} (hparent : f ≠ s.brk) (hf : s.heap f = some y)
    (htype : y.type = .DIRECTORY) (hdata : y.data = .dir d)
    (hino : ∀ g ∈ d.ino_files, g ≠ s.brk ∧ ∀ z ∈ s.heap g, z.ino ≠ x.ino)
    (hname : ∀ g ∈ d.nm_files, g ≠ s.brk ∧ ∀ z ∈ s.heap g, z.name ≠ x.name) :
    createItem f x s =
      .ok s.brk (created s f y ⟨d.ino_files ++ [s.brk], d.nm_files ++ [s.brk]⟩ x) := by
  have hf' : (malloced s x).heap f = some y := by simpa [malloced, hparent] using hf
  have hx : (malloced s x).heap s.brk = some x := by simp [malloced]
  have hfind₁ : (malloced s x).findIno d.ino_files x.ino = none := by
    refine List.find?_eq_none.mpr fun g hg => ?_
    obtain ⟨hne, hz⟩ := hino g hg
    simp only [malloced, ne_eq, hne, not_false_eq_true, Function.update_of_ne, Option.any_eq_true,
      beq_iff_eq, not_exists, not_and]
    exact hz
  have hfind₂ : (malloced s x).findName d.nm_files x.name = none := by
    refine List.find?_eq_none.mpr fun g hg => ?_
    obtain ⟨hne, hz⟩ := hname g hg
    simp only [malloced, ne_eq, hne, not_false_eq_true, Function.update_of_ne, Option.any_eq_true,
      beq_iff_eq, not_exists, not_and]
    exact hz
  have hadd : discard (dir_add f s.brk) (malloced s x) = .ok () _ :=
    discard_eq_ok.mpr ⟨true, dir_add_ok hf' htype hdata hx hfind₁ hfind₂⟩
  unfold createItem
  rw [bind_of_ok (mallocFile_ok (s := s) (x := x)), bind_of_ok hadd]
  rfl

/-- The state `createItem` leaves when the name is taken. -/
def orphaned (s : Fs) (x : File) : Fs :=
  { (malloced s x).updInode x.ino fun id => { id with file := some s.brk } with
    trace := .created s.brk x.ino x.dir x.name :: s.trace }

lemma createItem_taken {d : Dir} {z : File} (hparent : f ≠ s.brk) (hf : s.heap f = some y)
    (htype : y.type = .DIRECTORY) (hdata : y.data = .dir d) (hg : g ∈ d.nm_files)
    (hgb : g ≠ s.brk) (hz : s.heap g = some z) (hname : z.name = x.name) :
    createItem f x s = .ok s.brk (orphaned s x) := by
  have hf' : (malloced s x).heap f = some y := by simpa [malloced, hparent] using hf
  have hx : (malloced s x).heap s.brk = some x := by simp [malloced]
  have hfind : (malloced s x).findName d.nm_files x.name ≠ none := by
    rw [findName, ne_eq, List.find?_eq_none]
    intro hall
    have hno := hall g hg
    simp [malloced, hgb, hz, hname] at hno
  have hadd : discard (dir_add f s.brk) (malloced s x) = .ok () (malloced s x) :=
    discard_eq_ok.mpr ⟨false, dir_add_taken hf' htype hdata hx hfind⟩
  unfold createItem
  rw [bind_of_ok (mallocFile_ok (s := s) (x := x)), bind_of_ok hadd]
  rfl

/-! ## A file system without removals -/

/-- The observations that the creation of the items has left, newest first. -/
def creations (xs : List File) : List FsObs :=
  (xs.map fun x => .created (x.ino - 1) x.ino x.dir x.name).reverse

/-- The items that have been created, with nothing removed. -/
structure Built (xs : List File) (s : Fs) : Prop where
  tree : FileTree xs
  holds : Holds xs [] s
  unused : Unused xs.length s
  trace : s.trace = creations xs
  mounted : s.mntpt ≠ none ∧ s.mkdir = true

/-- The directory with an inode that exists. -/
lemma Built.dirAt (h : Built xs s) {ino : Nat} (hd : ExistsDir s ino) :
    ∃ p y, ino = p + 1 ∧ xs[p]? = some y ∧ y.type = .DIRECTORY := by
  obtain ⟨x, hx, rfl, htype⟩ := hd
  obtain ⟨p, y, hy, rfl⟩ := h.holds.mem_items.mp hx
  exact ⟨p, y, by rw [fill_ino, h.tree.ino p y hy], hy, by simpa using htype⟩

/-- The state in which the next inode has been taken. -/
lemma Built.allocated (h : Built xs s) (hroom : HasRoom s) :
    createIno s = .ok (xs.length + 1) (allocated s (xs.length + 1)) := by
  rw [HasRoom, h.holds.items_length, h.holds.num] at hroom
  refine createIno_ok ?_ ?_ ?_ ?_
  · rw [h.unused.freelist, if_pos hroom]
  · rw [h.holds.numfree]
    simp only [List.length_nil]
    omega
  · rw [h.holds.file, if_pos (.inr (Nat.lt_succ_self _))]
  · rw [h.holds.num]
    exact hroom

lemma allocated_dirAt (h : Built xs s) {p : Nat} (hroom : HasRoom s) (hy : xs[p]? = some y)
    (htype : y.type = .DIRECTORY) :
    DirAt (Proofs.allocated s (xs.length + 1)) (p + 1) p (fill xs [] y) := by
  have hp : p < xs.length := (List.getElem?_eq_some_iff.mp hy).1
  have hne : p + 1 ≠ xs.length + 1 := by omega
  rw [HasRoom, h.holds.items_length] at hroom
  refine ⟨?_, ?_, ?_, h.holds.item List.not_mem_nil hy, by simpa using htype⟩
  · exact (Nat.succ_lt_succ hp).trans hroom
  · simp only [Proofs.allocated, updInode, ne_eq, hne, not_false_eq_true, Function.update_of_ne]
    exact h.holds.next _ hp (.inr List.not_mem_nil)
  · simp only [Proofs.allocated, updInode, ne_eq, hne, not_false_eq_true, Function.update_of_ne]
    rw [h.holds.file, if_neg (by omega), Nat.add_sub_cancel]

lemma getElem?_concat {f : Nat} {z : File} :
    (xs ++ [x])[f]? = some z ↔ xs[f]? = some z ∨ f = xs.length ∧ z = x := by
  rcases lt_trichotomy f xs.length with hlt | rfl | hlt
  · rw [List.getElem?_append_left hlt]
    exact ⟨.inl, fun h => h.resolve_right fun h => hlt.ne h.1⟩
  · rw [List.getElem?_concat_length, List.getElem?_eq_none le_rfl]
    simp [eq_comm]
  · rw [List.getElem?_eq_none (by simp; omega), List.getElem?_eq_none hlt.le]
    simp only [reduceCtorEq, false_or, false_iff]
    exact fun h => hlt.ne' h.1

lemma FileTree.concat {p : Nat} (ht : FileTree xs) (hroom : xs.length + 1 < inoNum)
    (hino : x.ino = xs.length + 1) (hdir : x.dir = p + 1) (hy : xs[p]? = some y)
    (htype : y.type = .DIRECTORY)
    (hname : ∀ (f : Nat) (z : File), xs[f]? = some z → z.dir = x.dir → z.name ≠ x.name) :
    FileTree (xs ++ [x]) := by
  have hp : p < xs.length := (List.getElem?_eq_some_iff.mp hy).1
  refine ⟨?_, by simp, ?_, ?_, ?_, ?_⟩
  · rw [List.length_append]
    exact hroom
  · intro f z hz
    rcases getElem?_concat.mp hz with hz | ⟨rfl, rfl⟩
    · exact ht.ino f z hz
    · exact hino
  · intro z hz
    rw [List.getElem?_append_left ht.pos] at hz
    exact ht.root z hz
  · intro f z h0 hz
    rcases getElem?_concat.mp hz with hz | ⟨rfl, rfl⟩
    · obtain ⟨q, v, hd, hlt, hv, hv'⟩ := ht.parent f z h0 hz
      exact ⟨q, v, hd, hlt, getElem?_concat.mpr (.inl hv), hv'⟩
    · exact ⟨p, y, hdir, hp, getElem?_concat.mpr (.inl hy), htype⟩
  · intro f g z v hz hv hd hn
    rcases getElem?_concat.mp hz with hz' | ⟨rfl, rfl⟩ <;>
      rcases getElem?_concat.mp hv with hv' | ⟨rfl, rfl⟩
    · exact ht.names f g z v hz' hv' hd hn
    · exact (hname f z hz' hd hn).elim
    · exact (hname g v hv' hd.symm hn.symm).elim
    · rfl

/-- The next item has been put on the heap and into its slot, and its directory is `d` now. -/
structure Grown (s s' : Fs) (n p : Nat) (d x : File) : Prop where
  num : s'.ino_num = s.ino_num
  numfree : s'.ino_numfree = s.ino_numfree - 1
  freelist : s'.ino_freelist = (s.ino_table (n + 1)).next
  brk : s'.brk = n + 1
  parent : s'.heap p = some d
  new : s'.heap n = some x
  heap : ∀ f, f ≠ p → f ≠ n → s'.heap f = s.heap f
  slot : s'.ino_table (n + 1) = { file := some n }
  slots : ∀ i, i ≠ n + 1 → s'.ino_table i = s.ino_table i
  trace : s'.trace = .created n (n + 1) x.dir x.name :: s.trace
  mounted : s'.mntpt = s.mntpt ∧ s'.mkdir = s.mkdir

lemma created_grown {n p : Nat} {d : File} {t : Dir} (hbrk : s.brk = n) (hino : x.ino = n + 1)
    (hp : p ≠ n) : Grown s (created (Proofs.allocated s (n + 1)) p d t x) n p
      { d with data := .dir t } x := by
  subst hbrk
  refine ⟨rfl, rfl, rfl, rfl, ?_, ?_, fun f hfp hfn => ?_, ?_, fun i hi => ?_, ?_, rfl, rfl⟩
  · exact Function.update_self ..
  · simp [created, setHeap, malloced, updInode, Proofs.allocated, Ne.symm hp]
  · simp [created, setHeap, malloced, updInode, Proofs.allocated, hfp, hfn]
  · simp [created, setHeap, malloced, updInode, Proofs.allocated, hino]
  · simp [created, setHeap, malloced, updInode, Proofs.allocated, hino, hi]
  · simp [created, setHeap, malloced, updInode, Proofs.allocated, hino]

lemma orphaned_grown {n p : Nat} {d : File} (hbrk : s.brk = n) (hino : x.ino = n + 1)
    (hp : p ≠ n) (hd : s.heap p = some d) :
    Grown s (orphaned (Proofs.allocated s (n + 1)) x) n p d x := by
  subst hbrk
  refine ⟨rfl, rfl, rfl, rfl, ?_, ?_, fun f hfp hfn => ?_, ?_, fun i hi => ?_, ?_, rfl, rfl⟩
  · simp [orphaned, malloced, updInode, Proofs.allocated, hp, hd]
  · simp [orphaned, malloced, updInode, Proofs.allocated]
  · simp [orphaned, malloced, updInode, Proofs.allocated, hfn]
  · simp [orphaned, malloced, updInode, Proofs.allocated, hino]
  · simp [orphaned, malloced, updInode, Proofs.allocated, hino, hi]
  · simp [orphaned, malloced, updInode, Proofs.allocated, hino]

lemma fill_concat (hd : x.dir ≠ y.ino) : fill (xs ++ [x]) [] y = fill xs [] y := by
  unfold fill
  rw [children_append, if_neg hd, List.append_nil]

/-- The directory of the new item. -/
lemma fill_concat_parent (htype : y.type = .DIRECTORY) (hd : x.dir = y.ino) :
    fill (xs ++ [x]) [] y = { fill xs [] y with
      data := .dir ⟨children xs [] y.ino ++ [xs.length], children xs [] y.ino ++ [xs.length]⟩ } := by
  unfold fill
  rw [if_pos htype, if_pos htype, children_append, if_pos hd]

/-- A new directory is empty. -/
lemma fill_new (ht : FileTree (xs ++ [x])) (hdata : x.type = .DIRECTORY → x.data = .dir {}) :
    fill (xs ++ [x]) [] x = x := by
  unfold fill
  split
  · have hnone : children (xs ++ [x]) [] x.ino = [] := by
      rw [List.eq_nil_iff_forall_not_mem]
      intro g hg
      obtain ⟨-, z, hz, hd⟩ := mem_children.mp hg
      have hlt := (List.getElem?_eq_some_iff.mp hz).1
      have hino := ht.ino xs.length x (by simp)
      rw [List.length_append, List.length_singleton] at hlt
      rcases Nat.eq_zero_or_pos g with rfl | hpos
      · rw [(ht.root z hz).1, hino] at hd
        cases hd
      · obtain ⟨q, v, hq, hqlt, -⟩ := ht.parent g z hpos.ne' hz
        omega
    rw [hnone, ← hdata ‹_›]
  · rfl

lemma Grown.built {p : Nat} (h : Built xs s) (hg : Grown s s' xs.length p (fill (xs ++ [x]) [] y) x)
    (ht : FileTree (xs ++ [x])) (hy : xs[p]? = some y) (hdir : x.dir = p + 1)
    (hnew : fill (xs ++ [x]) [] x = x) : Built (xs ++ [x]) s' := by
  have hp : p < xs.length := (List.getElem?_eq_some_iff.mp hy).1
  have hino : x.ino = xs.length + 1 := ht.ino xs.length x (by simp)
  have hlen : (xs ++ [x]).length = xs.length + 1 := by simp
  refine ⟨ht, ⟨hg.num.trans h.holds.num, ?_, hg.brk.trans hlen.symm, fun f => ?_, fun i => ?_,
    fun i hi _ => ?_⟩, ⟨?_, fun i hi => ?_⟩, ?_, ?_⟩
  · rw [hg.numfree, h.holds.numfree, hlen]
    push_cast
    omega
  · rw [if_neg List.not_mem_nil]
    rcases eq_or_ne f p with rfl | hfp
    · rw [hg.parent, List.getElem?_append_left hp, hy, Option.map_some]
    · rcases eq_or_ne f xs.length with rfl | hfn
      · rw [hg.new, List.getElem?_concat_length, Option.map_some, hnew]
      · rw [hg.heap f hfp hfn, h.holds.heap, if_neg List.not_mem_nil]
        cases hz : xs[f]? with
        | none =>
          rw [List.getElem?_eq_none_iff] at hz
          rw [List.getElem?_eq_none (by omega)]
          rfl
        | some z =>
          rw [List.getElem?_append_left (List.getElem?_eq_some_iff.mp hz).1, hz, Option.map_some,
            Option.map_some, fill_concat]
          rw [h.tree.ino f z hz, hdir]
          omega
  · rw [hlen]
    rcases eq_or_ne i (xs.length + 1) with rfl | hi
    · rw [hg.slot, if_neg (by omega), Nat.add_sub_cancel]
    · rw [hg.slots i hi, h.holds.file]
      exact if_congr (by omega) rfl rfl
  · rw [hlen] at hi
    rcases eq_or_ne i (xs.length + 1) with rfl | hne
    · rw [hg.slot]
    · rw [hg.slots i hne]
      exact h.holds.next i (by omega) (.inr List.not_mem_nil)
  · rw [hg.freelist, h.unused.next _ (Nat.lt_succ_self _), hlen]
  · rw [hlen] at hi
    rw [hg.slots i (by omega)]
    exact h.unused.next i (by omega)
  · rw [hg.trace, h.trace, creations, creations, List.map_append, List.reverse_append,
      List.map_singleton, List.reverse_singleton, hino, Nat.add_sub_cancel]
    rfl
  · rw [hg.mounted.1, hg.mounted.2]
    exact h.mounted

/-- A create in a directory that exists, under a name that is free. -/
lemma Built.create {p : Nat} (h : Built xs s) (hroom : HasRoom s) (hino : x.ino = xs.length + 1)
    (hdir : x.dir = p + 1) (hy : xs[p]? = some y) (htype : y.type = .DIRECTORY)
    (hname : NameFree s x.dir x.name) (hdata : x.type = .DIRECTORY → x.data = .dir {}) :
    ∃ s', createItem p x (Proofs.allocated s (xs.length + 1)) = .ok xs.length s' ∧
      Built (xs ++ [x]) s' := by
  have hat := allocated_dirAt h hroom hy htype
  have hp : p < xs.length := (List.getElem?_eq_some_iff.mp hy).1
  have hbrk : (Proofs.allocated s (xs.length + 1)).brk = xs.length := h.holds.brk
  have hyino := h.tree.ino p y hy
  rw [HasRoom, h.holds.items_length, h.holds.num] at hroom
  have hname' : ∀ (f : Nat) (z : File), xs[f]? = some z → z.dir = x.dir → z.name ≠ x.name := by
    intro f z hz hd
    have hmem : fill xs [] z ∈ items s := h.holds.mem_items.mpr ⟨f, z, hz, rfl⟩
    simpa using hname _ hmem (by simpa using hd)
  have hchild : ∀ g ∈ children xs [] y.ino, g ≠ xs.length ∧
      ∀ z ∈ s.heap g, z.ino ≠ x.ino ∧ z.name ≠ x.name := by
    intro g hg
    obtain ⟨-, z, hz, hd⟩ := mem_children.mp hg
    have hlt : g < xs.length := (List.getElem?_eq_some_iff.mp hz).1
    refine ⟨hlt.ne, ?_⟩
    rw [h.holds.item List.not_mem_nil hz]
    rintro _ ⟨⟩
    rw [fill_ino, fill_name, h.tree.ino g z hz, hino]
    exact ⟨by omega, hname' g z hz (by rw [hd, hdir, hyino])⟩
  have hrun := createItem_ok (x := x) (s := Proofs.allocated s (xs.length + 1)) (f := p)
    (by rw [hbrk]; exact hp.ne) hat.heap hat.type (fill_data htype)
    (fun g hg => by
      rw [hbrk]
      exact ⟨(hchild g hg).1, fun z hz => ((hchild g hg).2 z hz).1⟩)
    (fun g hg => by
      rw [hbrk]
      exact ⟨(hchild g hg).1, fun z hz => ((hchild g hg).2 z hz).2⟩)
  rw [hbrk] at hrun
  have ht := h.tree.concat hroom hino hdir hy htype hname'
  have hgrown := created_grown (d := fill xs [] y) (t := ⟨children xs [] y.ino ++ [xs.length],
    children xs [] y.ino ++ [xs.length]⟩) h.holds.brk hino hp.ne
  rw [← fill_concat_parent htype (hdir.trans hyino.symm)] at hgrown
  exact ⟨_, hrun, hgrown.built h ht hy hdir (fill_new ht hdata)⟩

/-- With every inode in use there is no next one. -/
lemma hasRoom_of_inoalloc (h : Built xs s) {ino : Nat} (hrun : inoalloc s = .ok ino s') :
    HasRoom s := by
  by_contra hroom
  rw [HasRoom, h.holds.items_length, h.holds.num] at hroom
  have hnone : s.ino_freelist = none := by rw [h.unused.freelist, if_neg hroom]
  have hinit : when (s.ino_num = 0) init_inotable s = .ok () s := by
    refine when_eq_ok.mpr (.inr ⟨?_, rfl⟩)
    rw [h.holds.num]
    decide
  unfold inoalloc at hrun
  rw [bind_of_ok (show (get : FsAct Fs) s = .ok s s from rfl), bind_of_ok hinit] at hrun
  rw [bind_of_ok (show (get : FsAct Fs) s = .ok s s from rfl)] at hrun
  simp only [hnone] at hrun
  exact throw_eq_ok.mp hrun

lemma hasRoom_of_createIno (h : Built xs s) {ino : Nat} (hrun : createIno s = .ok ino s') :
    HasRoom s := by
  obtain ⟨i, t, hino, -⟩ := bind_eq_ok.mp hrun
  exact hasRoom_of_inoalloc h hino

lemma hasRoom_of_act (h : Built xs s) {e : FsEvent} (he : ∀ f purge, e ≠ .remove f purge)
    (hrun : e.act s = .ok () s') : HasRoom s := by
  cases e with
  | createdir dir name ops =>
    obtain ⟨f, hrun⟩ := discard_eq_ok.mp hrun
    obtain ⟨ino, t, hino, -⟩ := bind_eq_ok.mp hrun
    exact hasRoom_of_createIno h hino
  | createfile dir name symlink ops =>
    obtain ⟨f, hrun⟩ := discard_eq_ok.mp hrun
    obtain ⟨ino, t, hino, -⟩ := bind_eq_ok.mp hrun
    exact hasRoom_of_createIno h hino
  | remove f purge => exact (he f purge rfl).elim

/-- The item a create makes. -/
def FsEvent.item (e : FsEvent) (ino : Nat) : Option File :=
  match e with
  | .createdir parentino name ops =>
    some { ops := ops, data := .dir {}, name := name, ino := ino, dir := parentino,
           type := .DIRECTORY }
  | .createfile dirino name symlink ops => some (newFile ino dirino name symlink ops)
  | .remove _ _ => none

lemma FsEvent.item_ino {e : FsEvent} {ino : Nat} (h : e.item ino = some x) : x.ino = ino := by
  cases e <;> cases h <;> rfl

/-- A new item has nothing in it. -/
lemma FsEvent.item_data {e : FsEvent} {ino : Nat} (h : e.item ino = some x)
    (htype : x.type = .DIRECTORY) : x.data = .dir {} := by
  cases e with
  | createdir parentino name ops =>
    cases h
    rfl
  | createfile dirino name symlink ops =>
    cases h
    cases symlink <;> cases htype
  | remove f purge => cases h

/-- A create takes the next inode and goes on in the directory. -/
lemma FsEvent.act_eq {e : FsEvent} {ino p : Nat} (hitem : e.item ino = some x)
    (hino : createIno s = .ok ino s') (hd : x.dir = p + 1) (hdir : createDir (p + 1) s' = .ok p s') :
    e.act s = discard (createItem p x) s' := by
  have h0 : p + 1 ≠ invalidIno := Nat.succ_ne_zero p
  have hmap {m m' : FsAct Nat} {t t' : Fs} (h : m t = m' t') : discard m t = discard m' t' := by
    change EStateM.map _ m t = EStateM.map _ m' t'
    unfold EStateM.map
    rw [h]
  cases e with
  | createdir parentino name ops =>
    cases hitem
    cases hd
    exact hmap (fsCreatedir_eq h0 hino hdir)
  | createfile dirino name symlink ops =>
    cases hitem
    cases hd
    exact hmap (fsCreatefile_eq h0 hino hdir)
  | remove f purge => cases hitem

lemma CreatesUnique.item {e : FsEvent} (h : CreatesUnique s e) (ino : Nat) :
    ∃ x, e.item ino = some x ∧ ExistsDir s x.dir ∧ NameFree s x.dir x.name := by
  cases e with
  | createdir dir name ops => exact ⟨_, rfl, h⟩
  | createfile dir name symlink ops => exact ⟨_, rfl, h⟩
  | remove f purge => exact h.elim

/-- A create of a unique name succeeds as long as there is an inode for it. -/
lemma Built.step (h : Built xs s) {e : FsEvent} (he : CreatesUnique s e) (hroom : HasRoom s) :
    ∃ x s', e.item (xs.length + 1) = some x ∧ e.act s = .ok () s' ∧ Built (xs ++ [x]) s' := by
  obtain ⟨x, hx, hdir, hname⟩ := he.item (xs.length + 1)
  obtain ⟨p, y, hp, hy, htype⟩ := h.dirAt hdir
  have hat := allocated_dirAt h hroom hy htype
  obtain ⟨s', hrun, hbuilt⟩ := h.create hroom (FsEvent.item_ino hx) hp hy htype hname
    (FsEvent.item_data hx)
  refine ⟨x, s', hx, ?_, hbuilt⟩
  rw [FsEvent.act_eq hx (h.allocated hroom) hp (createDir_ok hat)]
  exact discard_eq_ok.mpr ⟨_, hrun⟩

/-! ## The file system that `fsCreate` makes -/

def rootFile : File where
  ops := .fs_dir_ops
  data := .dir {}
  name := bytes "."
  ino := rootIno
  dir := invalidIno
  type := .DIRECTORY

/-- The state after `fsCreate`, with the inodes 0 and 1 taken. -/
def fsStarted (mntpt : CStr) : Fs where
  mntpt := some mntpt
  mkdir := true
  ino_table i :=
    { file := if i = 1 then some 0 else none
      next := if 1 < i ∧ i + 1 < inoNum then some (i + 1) else none }
  ino_freelist := some 2
  ino_num := inoNum
  ino_numfree := inoNum - 2
  heap f := if f = 0 then some rootFile else none
  brk := 1
  trace := [.created 0 rootIno invalidIno (bytes ".")]

lemma fsCreate_ok (mntpt : CStr) :
    fsCreate true true none (fsInit mntpt) = .ok true (fsStarted mntpt) := by
  refine Eq.trans (b := .ok true _) rfl (congrArg _ ?_)
  apply Fs.ext
  case ino_table =>
    funext i
    rcases i with _ | _ | i
    · rfl
    · rfl
    · simp [updInode, fsStarted]
  case heap =>
    funext f
    cases f <;> rfl
  all_goals rfl

lemma fsStarted_built (mntpt : CStr) : Built [rootFile] (fsStarted mntpt) := by
  have hroot {f : Nat} {x : File} (hx : [rootFile][f]? = some x) : f = 0 ∧ x = rootFile := by
    cases f with
    | zero => exact ⟨rfl, (Option.some.inj hx).symm⟩
    | succ f => simp at hx
  refine ⟨⟨by decide, by simp, fun f x hx => ?_, fun x hx => ?_, fun f x h0 hx => ?_,
    fun f g x y hx hy _ _ => ?_⟩, ⟨rfl, rfl, rfl, fun f => ?_, fun i => ?_, fun i hi _ => ?_⟩,
    ⟨rfl, fun i hi => ?_⟩, rfl, ⟨by simp [fsStarted], rfl⟩⟩
  · obtain ⟨rfl, rfl⟩ := hroot hx
    rfl
  · obtain ⟨-, rfl⟩ := hroot hx
    exact ⟨rfl, rfl⟩
  · exact (h0 (hroot hx).1).elim
  · rw [(hroot hx).1, (hroot hy).1]
  · cases f with
    | zero => rfl
    | succ f => simp [fsStarted]
  · rcases i with _ | _ | i
    · rfl
    · rfl
    · simp [fsStarted]
  · rw [List.length_singleton] at hi
    simp only [fsStarted, if_neg (show ¬(1 < i ∧ i + 1 < inoNum) by omega)]
  · rw [List.length_singleton] at hi
    simp only [fsStarted, hi, true_and]

lemma FsStarted.built (h : FsStarted s) : ∃ xs, Built xs s := by
  obtain ⟨mntpt, hrun⟩ := h
  rw [fsCreate_ok] at hrun
  cases hrun
  exact ⟨_, fsStarted_built mntpt⟩

/-- A file system is that of some list of items as long as it only grows. -/
theorem built_of_reachable (h : FsReachable CreatesUnique s) : ∃ xs, Built xs s := by
  refine Transition.Reach.invariant (P := fun s => ∃ xs, Built xs s) (fun s hs => hs.built) ?_ h
  rintro s e s' - ⟨xs, hbuilt⟩ he hstep
  have hne : ∀ f purge, e ≠ .remove f purge := by
    rintro f purge rfl
    exact he
  obtain ⟨x, t, -, hrun, hbuilt'⟩ := hbuilt.step he (hasRoom_of_act hbuilt hne hstep)
  have hsame := hstep.symm.trans hrun
  cases hsame
  exact ⟨_, hbuilt'⟩

/-! ## Runs that are executed -/

def fsExec (e : FsEvent) (s : Fs) : Option Fs :=
  match e.act s with
  | .ok _ s' => some s'
  | .error _ _ => none

/-- What holds at the end of an execution holds in a reachable state. -/
theorem exists_fsReachable (ok : Fs → FsEvent → Prop) [∀ s e, Decidable (ok s e)] (mntpt : CStr)
    (es : List FsEvent) (p : Fs → Bool)
    (h : (Transition.execute fsExec ok es (fsStarted mntpt)).any p = true) :
    ∃ s, FsReachable ok s ∧ p s = true := by
  obtain ⟨s, hrun, hp⟩ := (Option.any_eq_true _ _).mp h
  refine ⟨s, Transition.Reach.execute (fun s e s' hact => ?_) (.start ⟨mntpt, fsCreate_ok mntpt⟩) hrun,
    hp⟩
  unfold fsExec at hact
  cases hres : e.act s with
  | ok u t =>
    rw [hres] at hact
    cases hact
    exact hres
  | error err t =>
    rw [hres] at hact
    cases hact

end Yar.Proofs
