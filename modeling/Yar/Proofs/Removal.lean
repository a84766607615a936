import Mathlib.Data.Finset.Card
import Yar.Proofs.Inodes

/-!
# Removal of an item

What `fsRemoveitem` does in any state in which the directories and the inode table agree. An item
with nothing in it goes, and when asked for the directories above it go as well as long as each of
them held nothing but the one before it.
-/

namespace Yar.Proofs

open Program Fs

variable {s s' : Fs} {f g p : Nat} {x y : File} {l : List Nat} {purge : Bool} {d : Dir}

/-- The directories and the inode table agree. The inodes of the items that exist are in use, and
both tables of a directory list the items with its inode in `dir`, under different names. -/
structure Agree (s : Fs) : Prop where
  brk : ∀ f x, s.heap f = some x → f < s.brk
  inode : ∀ f x, s.heap f = some x → x.ino < s.ino_num ∧ s.ino_table x.ino = { file := some f }
  dir : ∀ f x, s.heap f = some x → x.type = .DIRECTORY →
    ∃ d, x.data = .dir d ∧ d.ino_files.Nodup ∧ d.nm_files.Perm d.ino_files ∧
      ∀ g, g ∈ d.ino_files ↔ ∃ y, s.heap g = some y ∧ y.ino ≠ rootIno ∧ y.dir = x.ino
  parent : ∀ f x, s.heap f = some x → x.ino ≠ rootIno →
    x.dir ≠ invalidIno ∧ ∃ p y, s.heap p = some y ∧ y.ino = x.dir ∧ y.type = .DIRECTORY
  root : ∀ f x, s.heap f = some x → x.ino = rootIno → x.dir = invalidIno ∧ x.type = .DIRECTORY
  names : ∀ f g x y, s.heap f = some x → s.heap g = some y → x.dir = y.dir → x.name = y.name → f = g

/-- There is something in the directory. -/
def NonemptyDir (s : Fs) (x : File) : Prop :=
  x.type = .DIRECTORY ∧ ∃ g y, s.heap g = some y ∧ y.ino ≠ rootIno ∧ y.dir = x.ino

/-- The items that a removal takes along: the item, and with `purge` each directory above it that
holds nothing but the one before it. -/
inductive Chain (s : Fs) (purge : Bool) : Nat → List Nat → Prop where
  | last {f : Nat} {x : File} (hx : s.heap f = some x)
      (h : purge = false ∨ x.ino = rootIno ∨ ∃ g y, s.heap g = some y ∧ y.dir = x.dir ∧ g ≠ f) :
      Chain s purge f [f]
  | up {f p : Nat} {x y : File} {l : List Nat} (hpurge : purge = true) (hx : s.heap f = some x)
      (hroot : x.ino ≠ rootIno) (hy : s.heap p = some y) (hdir : y.ino = x.dir)
      (honly : ∀ g z, s.heap g = some z → z.dir = x.dir → g = f) (h : Chain s purge p l) :
      Chain s purge f (f :: l)

/-- An item without the entries of `l`. -/
def without (l : List Nat) (x : File) : File :=
  match x.type, x.data with
  | .DIRECTORY, .dir d =>
    { x with data := .dir ⟨d.ino_files.filter (· ∉ l), d.nm_files.filter (· ∉ l)⟩ }
  | _, _ => x

def inosOf (s : Fs) (l : List Nat) : List Nat := l.filterMap fun f => (s.heap f).map File.ino

/-- The items of `l` have been removed from both tables of the directories they were in and their
inodes have been put on the free list, and nothing else has changed. -/
structure ItemsGone (s : Fs) (l : List Nat) (s' : Fs) : Prop where
  heap : ∀ g, s'.heap g = if g ∈ l then none else (s.heap g).map (without l)
  file : ∀ i, (s'.ino_table i).file = (s.ino_table i).file
  next : ∀ i, i ∉ inosOf s l → (s'.ino_table i).next = (s.ino_table i).next
  freelist : ∀ free, (∀ i ∈ free, i ∉ inosOf s l) →
    Linked.Runs (fun i => (s.ino_table i).next) s.ino_freelist free →
    Linked.Runs (fun i => (s'.ino_table i).next) s'.ino_freelist ((inosOf s l).reverse ++ free)
  numfree : s'.ino_numfree = s.ino_numfree + l.length
  rest : s'.ino_num = s.ino_num ∧ s'.brk = s.brk ∧ s'.mntpt = s.mntpt ∧ s'.mkdir = s.mkdir

@[simp] lemma without_ino (l : List Nat) (x : File) : (without l x).ino = x.ino := by
  unfold without; split <;> rfl
@[simp] lemma without_dir (l : List Nat) (x : File) : (without l x).dir = x.dir := by
  unfold without; split <;> rfl
@[simp] lemma without_name (l : List Nat) (x : File) : (without l x).name = x.name := by
  unfold without; split <;> rfl
@[simp] lemma without_type (l : List Nat) (x : File) : (without l x).type = x.type := by
  unfold without; split <;> rfl

lemma without_data (htype : x.type = .DIRECTORY) (h : x.data = .dir d) : without l x =
    { x with data := .dir ⟨d.ino_files.filter (· ∉ l), d.nm_files.filter (· ∉ l)⟩ } := by
  rw [without.eq_def, htype, h]

lemma without_of_ne (h : ∀ d, x.type = .DIRECTORY → x.data ≠ .dir d) : without l x = x := by
  unfold without
  split
  · rename_i d htype hdata
    exact (h d htype hdata).elim
  · rfl

lemma without_without (l l' : List Nat) (x : File) : without l' (without l x) = without (l ++ l') x := by
  by_cases h : ∃ d, x.type = .DIRECTORY ∧ x.data = .dir d
  · obtain ⟨d, htype, hd⟩ := h
    simp only [without, htype, hd, List.filter_filter, List.mem_append, not_or]
    congr 3 <;>
    · refine List.filter_congr fun g _ => ?_
      simp [Bool.and_comm]
  · have hne : ∀ d, x.type = .DIRECTORY → x.data ≠ .dir d := fun d ht hd => h ⟨d, ht, hd⟩
    rw [without_of_ne hne, without_of_ne hne, without_of_ne hne]

/-- What does not list the item stays as it is. -/
lemma without_eq_self (h : ∀ d, x.type = .DIRECTORY → x.data = .dir d →
    ∀ g ∈ l, g ∉ d.ino_files ∧ g ∉ d.nm_files) : without l x = x := by
  unfold without
  split
  · rename_i d htype hdata
    have hfilter {k : List Nat} (hk : ∀ g ∈ l, g ∉ k) : k.filter (· ∉ l) = k := by
      refine List.filter_eq_self.mpr fun g hg => ?_
      simpa using fun hgl => hk g hgl hg
    rw [hfilter fun g hg => (h d htype hdata g hg).1, hfilter fun g hg => (h d htype hdata g hg).2,
      ← hdata]
  · rfl

/-! ## One item -/

/-- The state after one item has been taken out of its directory and freed. -/
def removedOne (s : Fs) (f : Nat) (x : File) : Fs :=
  { s with
    heap := fun g => if g = f then none else (s.heap g).map (without [f])
    ino_table := Function.update s.ino_table x.ino { s.ino_table x.ino with next := s.ino_freelist }
    ino_freelist := some x.ino
    ino_numfree := s.ino_numfree + 1
    trace := .removed f :: s.trace }

lemma Agree.ino_inj (h : Agree s) (hx : s.heap f = some x) (hy : s.heap g = some y)
    (hino : x.ino = y.ino) : f = g := by
  have hf := (h.inode f x hx).2
  rw [hino, (h.inode g y hy).2] at hf
  injection hf with hf
  exact (Option.some.inj hf).symm

lemma Agree.dirAt (h : Agree s) (hx : s.heap f = some x) (htype : x.type = .DIRECTORY) :
    DirAt s x.ino f x := by
  obtain ⟨hlt, hnode⟩ := h.inode f x hx
  exact ⟨hlt, by rw [hnode], by rw [hnode], hx, htype⟩

lemma Agree.findIno (h : Agree s) (hx : s.heap f = some x) {l : List Nat} (hl : f ∈ l) :
    s.findIno l x.ino = some f := by
  have hsome : (s.findIno l x.ino).isSome := List.find?_isSome.mpr ⟨f, hl, by simp [hx]⟩
  obtain ⟨g, hg⟩ := Option.isSome_iff_exists.mp hsome
  have hp := List.find?_some hg
  simp only [Option.any_eq_true, beq_iff_eq] at hp
  obtain ⟨y, hy, hino⟩ := hp
  rw [hg, h.ino_inj hy hx hino]

lemma Agree.findName (h : Agree s) (hx : s.heap f = some x) {l : List Nat} (hl : f ∈ l)
    (hdir : ∀ g ∈ l, ∃ y, s.heap g = some y ∧ y.dir = x.dir) :
    s.findName l x.name = some f := by
  have hsome : (s.findName l x.name).isSome := List.find?_isSome.mpr ⟨f, hl, by simp [hx]⟩
  obtain ⟨g, hg⟩ := Option.isSome_iff_exists.mp hsome
  have hp := List.find?_some hg
  simp only [Option.any_eq_true, beq_iff_eq] at hp
  obtain ⟨y, hy, hname⟩ := hp
  obtain ⟨z, hz, hzd⟩ := hdir g (List.mem_of_find?_eq_some hg)
  rw [hy, Option.some_inj] at hz
  rw [hg, h.names g f y x hy hx (by rw [hz, hzd]) hname]

/-- A directory with something in it is not removed. -/
lemma Agree.refused (h : Agree s) (hx : s.heap f = some x) (hsome : NonemptyDir s x) :
    fsRemoveitem f purge s = .ok false s := by
  obtain ⟨htype, g, y, hy, hroot, hdir⟩ := hsome
  obtain ⟨d, hdata, hnodup, hperm, hmem⟩ := h.dir f x hx htype
  have hg : g ∈ d.ino_files := (hmem g).mpr ⟨y, hy, hroot, hdir⟩
  have hlen : d.ino_files.length ≠ 0 := (List.length_pos_of_mem hg).ne'
  have hremove : removeDir x s = .ok none s := by
    unfold removeDir
    rw [if_pos htype, hdata]
    simp only
    rw [bind_of_ok (require_eq_ok (u := ()).mpr ⟨hperm.length_eq.symm, rfl⟩), if_pos hlen]
    rfl
  change fsRemove (s.brk + 1) f purge s = .ok false s
  unfold fsRemove
  rw [bind_of_ok (deref_ok hx), bind_of_ok hremove]
  rfl

/-- The directory that holds an item. -/
structure HeldBy (s : Fs) (x : File) (p : Nat) (y : File) : Prop where
  heap : s.heap p = some y
  ino : y.ino = x.dir
  type : y.type = .DIRECTORY

lemma Agree.heldBy (h : Agree s) (hx : s.heap f = some x) (hroot : x.ino ≠ rootIno) :
    ∃ p y, HeldBy s x p y := by
  obtain ⟨-, p, y, hy, hino, htype⟩ := h.parent f x hx hroot
  exact ⟨p, y, hy, hino, htype⟩

lemma Agree.containingDir (h : Agree s) (hp : HeldBy s x p y) : containingDir x s = .ok p s :=
  containingDir_ok (hp.ino ▸ h.dirAt hp.heap hp.type)

/-- The first part of a removal that is not refused finds the containing directory. -/
lemma Agree.removeDir (h : Agree s) (hx : s.heap f = some x) (hempty : ¬NonemptyDir s x) :
    (x.ino = rootIno → removeDir x s = .ok (some none) s) ∧
      (∀ p y, HeldBy s x p y → x.ino ≠ rootIno → removeDir x s = .ok (some (some p)) s) := by
  by_cases htype : x.type = .DIRECTORY
  · obtain ⟨d, hdata, hnodup, hperm, hmem⟩ := h.dir f x hx htype
    have hnil : d.ino_files = [] := by
      rw [List.eq_nil_iff_forall_not_mem]
      intro g hg
      obtain ⟨y, hy, hroot, hdir⟩ := (hmem g).mp hg
      exact hempty ⟨htype, g, y, hy, hroot, hdir⟩
    have hlen : ¬d.ino_files.length ≠ 0 := by simp [hnil]
    constructor
    · intro hroot
      unfold Fs.removeDir
      rw [if_pos htype, hdata]
      simp only
      rw [bind_of_ok (require_eq_ok (u := ()).mpr ⟨hperm.length_eq.symm, rfl⟩), if_neg hlen,
        if_neg (not_not_intro hroot)]
      rw [bind_of_ok (require_eq_ok (u := ()).mpr ⟨(h.root f x hx hroot).1, rfl⟩)]
      rfl
    · intro p y hp hroot
      unfold Fs.removeDir
      rw [if_pos htype, hdata]
      simp only
      rw [bind_of_ok (require_eq_ok (u := ()).mpr ⟨hperm.length_eq.symm, rfl⟩), if_neg hlen,
        if_pos hroot, bind_of_ok (h.containingDir hp)]
      rfl
  · have hroot : x.ino ≠ rootIno := fun hroot => htype (h.root f x hx hroot).2
    refine ⟨fun h => (hroot h).elim, fun p y hp _ => ?_⟩
    unfold Fs.removeDir
    rw [if_neg htype]
    rw [bind_of_ok (require_eq_ok (u := ()).mpr ⟨⟨hroot, (h.parent f x hx hroot).1⟩, rfl⟩)]
    rw [bind_of_ok (h.containingDir hp)]
    rfl

/-- Only the directory that holds an item lists it. -/
lemma Agree.not_listed (h : Agree s) (hx : s.heap f = some x) (hy : s.heap g = some y)
    (hdir : x.ino ≠ rootIno → y.ino ≠ x.dir) : without [f] y = y := by
  refine without_eq_self fun d htype hdata k hk => ?_
  rw [List.mem_singleton.mp hk]
  obtain ⟨d', hdata', -, hperm, hmem⟩ := h.dir g y hy htype
  rw [hdata, FileData.dir.injEq] at hdata'
  subst hdata'
  have hino : f ∉ d.ino_files := by
    intro hf
    obtain ⟨z, hz, hroot, hzd⟩ := (hmem f).mp hf
    rw [hx, Option.some_inj] at hz
    subst hz
    exact hdir hroot hzd.symm
  exact ⟨hino, fun hf => hino (hperm.mem_iff.mp hf)⟩

/-- The state in which an item is in no directory any more. -/
def unlisted (s : Fs) (f : Nat) : Fs := { s with heap := fun g => (s.heap g).map (without [f]) }

/-- Only the directory that holds the item changes. -/
lemma Agree.unlisted_eq (h : Agree s) (hx : s.heap f = some x) (hp : HeldBy s x p y)
    (hdata : y.data = .dir d) :
    setHeap s p (some { y with data := .dir ⟨d.ino_files.erase f, d.nm_files.erase f⟩ }) =
      unlisted s f := by
  obtain ⟨d', hdata', hnodup, hperm, hmem⟩ := h.dir p y hp.heap hp.type
  rw [hdata, FileData.dir.injEq] at hdata'
  subst hdata'
  have herase {l : List Nat} (hl : l.Nodup) : l.erase f = l.filter (· ∉ [f]) := by
    rw [hl.erase_eq_filter]
    refine List.filter_congr fun g _ => ?_
    by_cases hg : g = f <;> simp [hg]
  apply Fs.ext
  case heap =>
    funext g
    change Function.update s.heap p _ g = (s.heap g).map (without [f])
    rcases eq_or_ne g p with rfl | hg
    · rw [Function.update_self, hp.heap, Option.map_some, without_data hp.type hdata]
      simp only [herase hnodup, herase (hperm.nodup_iff.mpr hnodup)]
    · rw [Function.update_of_ne hg]
      cases hz : s.heap g with
      | none => rfl
      | some z =>
        rw [Option.map_some, h.not_listed hx hz]
        intro _ hdir
        exact hg (h.ino_inj hz hp.heap (hdir.trans hp.ino.symm))
  all_goals rfl

lemma Agree.unlisted_root (h : Agree s) (hx : s.heap f = some x) (hroot : x.ino = rootIno) :
    unlisted s f = s := by
  apply Fs.ext
  case heap =>
    funext g
    change (s.heap g).map (without [f]) = s.heap g
    cases hz : s.heap g with
    | none => rfl
    | some z => rw [Option.map_some, h.not_listed hx hz fun hne => (hne hroot).elim]
  all_goals rfl

/-- The item is the only one in its directory. -/
def OnlyIn (s : Fs) (f : Nat) (x : File) : Prop := ∀ g z, s.heap g = some z → z.dir = x.dir → g = f

lemma Agree.removeEntry (h : Agree s) (hx : s.heap f = some x) (hroot : x.ino ≠ rootIno)
    (hp : HeldBy s x p y) :
    ∃ b, removeEntry p f x s = .ok b (unlisted s f) ∧ (b = true ↔ OnlyIn s f x) := by
  obtain ⟨d, hdata, hnodup, hperm, hmem⟩ := h.dir p y hp.heap hp.type
  have hf : f ∈ d.ino_files := (hmem f).mpr ⟨x, hx, hroot, hp.ino.symm⟩
  have hf' : f ∈ d.nm_files := hperm.mem_iff.mpr hf
  have hname : s.findName d.nm_files x.name = some f := by
    refine h.findName hx hf' fun g hg => ?_
    obtain ⟨z, hz, -, hdir⟩ := (hmem g).mp (hperm.mem_iff.mp hg)
    exact ⟨z, hz, hdir.trans hp.ino⟩
  have hlen : (d.ino_files.erase f).length = (d.nm_files.erase f).length := by
    rw [List.length_erase_of_mem hf, List.length_erase_of_mem hf', hperm.length_eq]
  refine ⟨(d.ino_files.erase f).length == 0, ?_, ?_⟩
  · unfold Fs.removeEntry
    rw [bind_of_ok (deref_ok hp.heap), hdata]
    simp only
    rw [bind_of_ok (require_eq_ok (u := ()).mpr ⟨hperm.length_eq.symm, rfl⟩)]
    rw [bind_of_ok (require_eq_ok (u := ()).mpr ⟨List.length_pos_of_mem hf, rfl⟩)]
    rw [bind_of_ok (show (get : FsAct Fs) s = .ok s s from rfl)]
    rw [bind_of_ok (require_eq_ok (u := ()).mpr ⟨h.findIno hx hf, rfl⟩)]
    rw [bind_of_ok (require_eq_ok (u := ()).mpr ⟨hname, rfl⟩), bind_of_ok (setFile_ok _)]
    rw [h.unlisted_eq hx hp hdata, bind_of_ok (require_eq_ok (u := ()).mpr ⟨hlen, rfl⟩)]
    rfl
  · rw [beq_iff_eq, List.length_eq_zero_iff, List.eq_nil_iff_forall_not_mem]
    constructor
    · intro hnil g z hz hdir
      by_contra hne
      refine hnil g (hnodup.mem_erase_iff.mpr ⟨hne, (hmem g).mpr ⟨z, hz, ?_, hdir.trans hp.ino.symm⟩⟩)
      intro hzr
      exact (h.parent f x hx hroot).1 (hdir.symm.trans (h.root g z hz hzr).1)
    · intro honly g hg
      obtain ⟨hne, hg⟩ := hnodup.mem_erase_iff.mp hg
      obtain ⟨z, hz, -, hdir⟩ := (hmem g).mp hg
      exact hne (honly g z hz (hdir.trans hp.ino))

/-! ## The whole removal -/

/-- What a call does before it calls itself. -/
lemma Agree.freeItem (h : Agree s) (hx : s.heap f = some x) :
    (do
      inofree x.ino
      setFile f none
      Fs.note (.removed f) : FsAct Unit) (unlisted s f) = .ok () (removedOne s f x) := by
  obtain ⟨hlt, hnode⟩ := h.inode f x hx
  have hnext : ((unlisted s f).ino_table x.ino).next = none := by
    change (s.ino_table x.ino).next = none
    rw [hnode]
  rw [bind_of_ok (inofree_ok (s := unlisted s f) hlt hnext), bind_of_ok (setFile_ok none)]
  have heq : { setHeap (freed (unlisted s f) x.ino) f none with trace := .removed f :: s.trace } =
      removedOne s f x := by
    apply Fs.ext
    case heap =>
      funext g
      change Function.update (fun g => (s.heap g).map (without [f])) f none g =
        if g = f then none else (s.heap g).map (without [f])
      rcases eq_or_ne g f with rfl | hg
      · rw [Function.update_self, if_pos rfl]
      · rw [Function.update_of_ne hg, if_neg hg]
    all_goals rfl
  exact congrArg _ heq

lemma removedOne_live : (removedOne s f x).heap g = some y ↔
    g ≠ f ∧ ∃ z, s.heap g = some z ∧ y = without [f] z := by
  change (if g = f then none else (s.heap g).map (without [f])) = some y ↔ _
  by_cases hg : g = f
  · simp [hg]
  · simp [hg, eq_comm]

/-- The tables still agree when an item with nothing in it has gone. -/
lemma Agree.removedOne (h : Agree s) (hx : s.heap f = some x) (hempty : ¬NonemptyDir s x) :
    Agree (removedOne s f x) where
  brk g y hy := by
    obtain ⟨-, z, hz, -⟩ := removedOne_live.mp hy
    exact h.brk g z hz
  inode g y hy := by
    obtain ⟨hg, z, hz, rfl⟩ := removedOne_live.mp hy
    rw [without_ino]
    refine ⟨(h.inode g z hz).1, ?_⟩
    have hne : z.ino ≠ x.ino := fun hino => hg (h.ino_inj hz hx hino)
    exact (Function.update_of_ne hne _ _).trans (h.inode g z hz).2
  dir g y hy htype := by
    obtain ⟨-, z, hz, rfl⟩ := removedOne_live.mp hy
    rw [without_type] at htype
    obtain ⟨d, hdata, hnodup, hperm, hmem⟩ := h.dir g z hz htype
    refine ⟨_, by rw [without_data htype hdata], hnodup.filter _, hperm.filter _, fun k => ?_⟩
    rw [List.mem_filter, hmem, without_ino, decide_eq_true_iff, List.mem_singleton]
    constructor
    · rintro ⟨⟨v, hv, hroot, hdir⟩, hk⟩
      exact ⟨_, removedOne_live.mpr ⟨hk, v, hv, rfl⟩, by simpa using hroot, by simpa using hdir⟩
    · rintro ⟨v', hv', hroot, hdir⟩
      obtain ⟨hk, v, hv, rfl⟩ := removedOne_live.mp hv'
      exact ⟨⟨v, hv, by simpa using hroot, by simpa using hdir⟩, hk⟩
  parent g y hy hroot := by
    obtain ⟨-, z, hz, rfl⟩ := removedOne_live.mp hy
    rw [without_ino] at hroot
    obtain ⟨h0, p, v, hv, hino, htype⟩ := h.parent g z hz hroot
    rw [without_dir]
    have hp : p ≠ f := by
      rintro rfl
      rw [hx, Option.some_inj] at hv
      subst hv
      exact hempty ⟨htype, g, z, hz, hroot, hino.symm⟩
    exact ⟨h0, p, _, removedOne_live.mpr ⟨hp, v, hv, rfl⟩, by simpa using hino, by simpa using htype⟩
  root g y hy hroot := by
    obtain ⟨-, z, hz, rfl⟩ := removedOne_live.mp hy
    rw [without_ino] at hroot
    rw [without_dir, without_type]
    exact h.root g z hz hroot
  names g k y v hy hv hdir hname := by
    obtain ⟨-, z, hz, rfl⟩ := removedOne_live.mp hy
    obtain ⟨-, u, hu, rfl⟩ := removedOne_live.mp hv
    exact h.names g k z u hz hu (by simpa using hdir) (by simpa using hname)

/-- A chain of what is left after the item in front of it has gone. -/
lemma Chain.of_removedOne (hx : s.heap f = some x) (honly : OnlyIn s f x)
    (h : Chain (removedOne s f x) purge p l) : Chain s purge p l := by
  induction h with
  | last hy hlast =>
    obtain ⟨-, z, hz, rfl⟩ := removedOne_live.mp hy
    refine .last hz ?_
    rw [without_ino, without_dir] at hlast
    refine hlast.imp_right (Or.imp_right ?_)
    rintro ⟨g, v, hv, hdir, hne⟩
    obtain ⟨-, u, hu, rfl⟩ := removedOne_live.mp hv
    exact ⟨g, u, hu, by simpa using hdir, hne⟩
  | up hpurge hy hroot hq hdir hsingle _ ih =>
    obtain ⟨hne, z, hz, rfl⟩ := removedOne_live.mp hy
    obtain ⟨-, v, hv, rfl⟩ := removedOne_live.mp hq
    rw [without_ino, without_dir] at hdir
    rw [without_ino] at hroot
    refine .up hpurge hz hroot hv hdir (fun g u hu hud => ?_) ih
    by_cases hg : g = f
    · -- the item that has gone was alone in its directory
      subst hg
      rw [hx, Option.some_inj] at hu
      subst hu
      exact (hne (honly _ _ hz hud.symm)).elim
    · exact hsingle g _ (removedOne_live.mpr ⟨hg, u, hu, rfl⟩) (by simpa using hud)

lemma Chain.live (h : Chain s purge p l) : ∀ g ∈ l, ∃ y, s.heap g = some y := by
  induction h with
  | last hx _ =>
    intro g hg
    rw [List.mem_singleton.mp hg]
    exact ⟨_, hx⟩
  | up _ hx _ _ _ _ _ ih =>
    intro g hg
    rcases List.mem_cons.mp hg with rfl | hg
    · exact ⟨_, hx⟩
    · exact ih g hg

/-- One item, and then those of a list. -/
lemma ItemsGone.cons (h : Agree s) (hx : s.heap f = some x)
    (hlive : ∀ g ∈ l, ∃ y, (Proofs.removedOne s f x).heap g = some y)
    (hl : ItemsGone (Proofs.removedOne s f x) l s') : ItemsGone s (f :: l) s' := by
  have hcons : inosOf s (f :: l) = x.ino :: inosOf s l := by simp [inosOf, hx]
  have hinos : inosOf (Proofs.removedOne s f x) l = inosOf s l := by
    refine List.filterMap_congr fun g hg => ?_
    obtain ⟨y, hy⟩ := hlive g hg
    obtain ⟨-, z, hz, rfl⟩ := removedOne_live.mp hy
    rw [hy, hz, Option.map_some, Option.map_some, without_ino]
  have hnew : x.ino ∉ inosOf s l := by
    intro hmem
    obtain ⟨g, hg, z, hz, hino⟩ : ∃ g ∈ l, ∃ z, s.heap g = some z ∧ z.ino = x.ino := by
      simpa [inosOf] using hmem
    obtain ⟨y, hy⟩ := hlive g hg
    exact (removedOne_live.mp hy).1 (h.ino_inj hz hx hino)
  have hslot {i : Nat} (hi : i ≠ x.ino) :
      (Proofs.removedOne s f x).ino_table i = s.ino_table i := Function.update_of_ne hi _ _
  have hself : (Proofs.removedOne s f x).ino_table x.ino =
      { s.ino_table x.ino with next := s.ino_freelist } := Function.update_self ..
  refine ⟨fun g => ?_, fun i => ?_, fun i hi => ?_, fun free hfree hruns => ?_, ?_, hl.rest⟩
  · rw [hl.heap g]
    change (if g ∈ l then none else
      (if g = f then none else (s.heap g).map (without [f])).map (without l)) = _
    by_cases hg : g ∈ l
    · rw [if_pos hg, if_pos (List.mem_cons_of_mem f hg)]
    · by_cases hgf : g = f
      · rw [if_neg hg, if_pos hgf, if_pos (by simp [hgf]), Option.map_none]
      · rw [if_neg hg, if_neg hgf, if_neg (by simp [hg, hgf]), Option.map_map]
        refine congrArg (Option.map · (s.heap g)) (funext fun z => ?_)
        exact without_without [f] l z
  · rw [hl.file i]
    by_cases hi : i = x.ino
    · rw [hi, hself]
    · rw [hslot hi]
  · rw [hcons, List.mem_cons, not_or] at hi
    rw [hl.next i (hinos ▸ hi.2), hslot hi.1]
  · have hne : ∀ i ∈ free, i ≠ x.ino := by
      rintro i hi rfl
      exact hfree _ hi (by simp [hcons])
    have hfirst : Linked.Runs (fun i => ((Proofs.removedOne s f x).ino_table i).next)
        (Proofs.removedOne s f x).ino_freelist (x.ino :: free) := by
      refine ⟨rfl, ?_⟩
      simp only [hself]
      exact hruns.congr fun i hi => by rw [hslot (hne i hi)]
    rw [hcons, List.reverse_cons, List.append_assoc, List.singleton_append, ← hinos]
    refine hl.freelist _ (fun i hi => ?_) hfirst
    rw [hinos]
    rcases List.mem_cons.mp hi with rfl | hi
    · exact hnew
    · exact fun hmem => hfree i hi (by simp [hcons, hmem])
  · rw [hl.numfree]
    change s.ino_numfree + 1 + _ = _
    rw [List.length_cons]
    push_cast
    omega

lemma ItemsGone.nil (s : Fs) : ItemsGone s [] s := by
  refine ⟨fun g => ?_, fun i => rfl, fun i _ => rfl, fun free _ hruns => hruns, ?_, rfl, rfl, rfl, rfl⟩
  · rw [if_neg List.not_mem_nil]
    cases hz : s.heap g with
    | none => rfl
    | some z => rw [Option.map_some, without_eq_self (by simp)]
  · simp

/-- What `fsRemove` comes to when the call is not refused. -/
lemma Agree.fsRemove_eq (h : Agree s) (purge : Bool) (hx : s.heap f = some x) (hempty : ¬NonemptyDir s x)
    (fuel : Nat) :
    (x.ino = rootIno → fsRemove (fuel + 1) f purge s = .ok true (Proofs.removedOne s f x)) ∧
      ∀ p y, HeldBy s x p y → x.ino ≠ rootIno →
        (¬(purge = true ∧ OnlyIn s f x) →
          fsRemove (fuel + 1) f purge s = .ok true (Proofs.removedOne s f x)) ∧
        (purge = true → OnlyIn s f x → ∀ b s',
          fsRemove fuel p purge (Proofs.removedOne s f x) = .ok b s' →
            fsRemove (fuel + 1) f purge s = .ok true s') := by
  obtain ⟨_, s₁, hfree, hrest⟩ := bind_eq_ok.mp (h.freeItem hx)
  obtain ⟨_, s₂, hset, hnote⟩ := bind_eq_ok.mp hrest
  constructor
  · intro hroot
    have hfrom : removeFrom none f x s = .ok false (unlisted s f) := by
      rw [h.unlisted_root hx hroot]
      rfl
    unfold fsRemove
    rw [bind_of_ok (deref_ok hx), bind_of_ok ((h.removeDir hx hempty).1 hroot)]
    simp only
    rw [bind_of_ok hfrom, bind_of_ok hfree, bind_of_ok hset, bind_of_ok hnote]
    rfl
  · intro p y hp hroot
    obtain ⟨b, hentry, hb⟩ := h.removeEntry hx hroot hp
    have hfrom : removeFrom (some p) f x s = .ok b (unlisted s f) := hentry
    constructor
    · intro hstop
      have hcond : ¬(b = true ∧ purge = true) := fun hc => hstop ⟨hc.2, hb.mp hc.1⟩
      unfold fsRemove
      rw [bind_of_ok (deref_ok hx), bind_of_ok ((h.removeDir hx hempty).2 p y hp hroot)]
      simp only
      rw [bind_of_ok hfrom, bind_of_ok hfree, bind_of_ok hset, bind_of_ok hnote]
      rw [bind_of_ok (when_eq_ok (u := ()).mpr (.inr ⟨hcond, rfl⟩))]
      rfl
    · intro hpurge honly b' s' hrun
      have hdone : discard (fsRemove fuel p purge) (Proofs.removedOne s f x) = .ok () s' :=
        discard_eq_ok.mpr ⟨b', hrun⟩
      unfold fsRemove
      rw [bind_of_ok (deref_ok hx), bind_of_ok ((h.removeDir hx hempty).2 p y hp hroot)]
      simp only
      rw [bind_of_ok hfrom, bind_of_ok hfree, bind_of_ok hset, bind_of_ok hnote]
      rw [bind_of_ok (when_eq_ok.mpr (.inl ⟨⟨hb.mpr honly, hpurge⟩, hdone⟩))]
      rfl

/-- The addresses of the items that exist. -/
def liveItems (s : Fs) : Finset Nat := {g ∈ Finset.range s.brk | (s.heap g).isSome}

lemma Agree.mem_live (h : Agree s) : f ∈ liveItems s ↔ ∃ x, s.heap f = some x := by
  rw [liveItems, Finset.mem_filter, Finset.mem_range, Option.isSome_iff_exists]
  exact ⟨And.right, fun ⟨x, hx⟩ => ⟨h.brk f x hx, x, hx⟩⟩

lemma Agree.live_removedOne (h : Agree s) (hx : s.heap f = some x) (hempty : ¬NonemptyDir s x) :
    liveItems (Proofs.removedOne s f x) = (liveItems s).erase f := by
  ext g
  rw [(h.removedOne hx hempty).mem_live, Finset.mem_erase, h.mem_live]
  constructor
  · rintro ⟨y, hy⟩
    obtain ⟨hne, z, hz, -⟩ := removedOne_live.mp hy
    exact ⟨hne, z, hz⟩
  · rintro ⟨hne, z, hz⟩
    exact ⟨_, removedOne_live.mpr ⟨hne, z, hz, rfl⟩⟩

/-- A call for an item with nothing in it frees the chain that begins with the item. The induction
is on the number of calls inside each other, of which there are at most as many as items. -/
lemma Agree.fsRemove (h : Agree s) (fuel : Nat) (hfuel : (liveItems s).card ≤ fuel)
    (hx : s.heap f = some x) (hempty : ¬NonemptyDir s x) :
    ∃ l s', Chain s purge f l ∧ fsRemove fuel f purge s = .ok true s' ∧ ItemsGone s l s' := by
  induction fuel generalizing f x s with
  | zero =>
    have hcard : liveItems s = ∅ := Finset.card_eq_zero.mp (Nat.le_zero.mp hfuel)
    have hmem := h.mem_live.mpr ⟨x, hx⟩
    rw [hcard] at hmem
    exact (Finset.notMem_empty f hmem).elim
  | succ fuel ih =>
    obtain ⟨hroots, hothers⟩ := h.fsRemove_eq purge hx hempty fuel
    have hone : ItemsGone s [f] (Proofs.removedOne s f x) :=
      .cons h hx (by simp) (.nil _)
    by_cases hroot : x.ino = rootIno
    · exact ⟨[f], _, .last hx (.inr (.inl hroot)), hroots hroot, hone⟩
    · obtain ⟨p, y, hp⟩ := h.heldBy hx hroot
      obtain ⟨hstop, hgoon⟩ := hothers p y hp hroot
      by_cases hup : purge = true ∧ OnlyIn s f x
      · -- the containing directory is empty now, and goes as well
        obtain ⟨hpurge, honly⟩ := hup
        have hagree := h.removedOne hx hempty
        have hpf : p ≠ f := by
          rintro rfl
          have hyx := hx.symm.trans hp.heap
          rw [Option.some_inj] at hyx
          subst hyx
          exact hempty ⟨hp.type, p, x, hx, hroot, hp.ino.symm⟩
        have hy : (Proofs.removedOne s f x).heap p = some (without [f] y) :=
          removedOne_live.mpr ⟨hpf, y, hp.heap, rfl⟩
        have hempty' : ¬NonemptyDir (Proofs.removedOne s f x) (without [f] y) := by
          rintro ⟨-, g, v, hv, -, hdir⟩
          obtain ⟨hne, u, hu, rfl⟩ := removedOne_live.mp hv
          rw [without_dir, without_ino, hp.ino] at hdir
          exact hne (honly g u hu hdir)
        have hcard : (liveItems (Proofs.removedOne s f x)).card ≤ fuel := by
          rw [h.live_removedOne hx hempty, Finset.card_erase_of_mem (h.mem_live.mpr ⟨x, hx⟩)]
          omega
        obtain ⟨l, s', hchain, hrun, hgone⟩ := ih hagree hcard hy hempty'
        exact ⟨f :: l, s', .up hpurge hx hroot hp.heap hp.ino honly (hchain.of_removedOne hx honly),
          hgoon hpurge honly true s' hrun, .cons h hx hchain.live hgone⟩
      · refine ⟨[f], _, .last hx ?_, hstop hup, hone⟩
        cases purge with
        | false => exact .inl rfl
        | true =>
          refine .inr (.inr ?_)
          by_contra hno
          exact hup ⟨rfl, fun g z hz hdir => by_contra fun hne => hno ⟨g, z, hz, hdir, hne⟩⟩

/-- A directory with something in it stays. Any other item goes, with the chain above it. -/
theorem fsRemoveitem_effect (h : Agree s) (hx : s.heap f = some x) (purge : Bool) :
    (NonemptyDir s x → fsRemoveitem f purge s = .ok false s) ∧
      (¬NonemptyDir s x → ∃ l s', Chain s purge f l ∧ fsRemoveitem f purge s = .ok true s' ∧
        ItemsGone s l s') := by
  refine ⟨fun hsome => h.refused hx hsome, fun hempty => ?_⟩
  have hcard : (liveItems s).card ≤ s.brk + 1 := by
    have hle := Finset.card_filter_le (Finset.range s.brk) fun g => (s.heap g).isSome
    rw [Finset.card_range] at hle
    exact hle.trans (Nat.le_succ _)
  exact h.fsRemove (s.brk + 1) hcard hx hempty

/-! ## Reachable states -/

/-- In every state that calls within their preconditions lead to the tables agree. -/
lemma Kept.agree {xs : List File} {R : List Nat} (h : Kept xs R s) : Agree s := by
  have hlen := h.tree.length
  have hholds := h.pruned.holds
  have hlive {f : Nat} {x : File} (hx : s.heap f = some x) : f ∉ R ∧ f < xs.length ∧
      ∃ y, xs[f]? = some y ∧ x = fill xs R y ∧ x.ino = f + 1 := by
    obtain ⟨hf, y, hy, rfl⟩ := hholds.live hx
    exact ⟨hf, (List.getElem?_eq_some_iff.mp hy).1, y, hy, rfl, by rw [fill_ino, h.tree.ino f y hy]⟩
  constructor
  · intro f x hx
    rw [hholds.brk]
    exact (hlive hx).2.1
  · intro f x hx
    obtain ⟨hf, hlt, y, hy, rfl, hino⟩ := hlive hx
    rw [hino, hholds.num]
    refine ⟨by omega, ?_⟩
    have hfile : (s.ino_table (f + 1)).file = some f := by
      rw [hholds.file, if_neg (by omega), Nat.add_sub_cancel]
    have hnext := hholds.next (f + 1) hlt (.inr hf)
    cases hs : s.ino_table (f + 1)
    simp_all
  · intro f x hx htype
    obtain ⟨hf, hlt, y, hy, rfl, hino⟩ := hlive hx
    rw [fill_type] at htype
    refine ⟨_, fill_data htype, children_nodup _ _ _, .refl _, fun g => ?_⟩
    rw [mem_children, fill_ino]
    constructor
    · rintro ⟨hg, z, hz, hdir⟩
      refine ⟨_, hholds.item hg hz, ?_, by rw [fill_dir, hdir]⟩
      rw [fill_ino, h.tree.ino g z hz]
      intro hroot
      obtain rfl : g = 0 := by simpa using hroot
      rw [(h.tree.root z hz).1, h.tree.ino f y hy] at hdir
      cases hdir
    · rintro ⟨v, hv, -, hdir⟩
      obtain ⟨hg, -, z, hz, rfl, -⟩ := hlive hv
      rw [fill_dir] at hdir
      exact ⟨hg, z, hz, hdir⟩
  · intro f x hx hroot
    obtain ⟨hf, -, y, hy, rfl, hino⟩ := hlive hx
    have h0 : f ≠ 0 := by
      rintro rfl
      exact hroot hino
    obtain ⟨p, z, hdir, -, hz, htype⟩ := h.tree.parent f y h0 hy
    rw [fill_dir, hdir]
    refine ⟨Nat.succ_ne_zero p, p, _, hholds.item (h.pruned.parent hf hy hdir) hz, ?_, ?_⟩
    · rw [fill_ino, h.tree.ino p z hz]
    · rwa [fill_type]
  · intro f x hx hroot
    obtain ⟨-, -, y, hy, rfl, hino⟩ := hlive hx
    rw [hino] at hroot
    obtain rfl : f = 0 := by simpa using hroot
    rw [fill_dir, fill_type]
    exact h.tree.root y hy
  · intro f g x y hx hy hdir hname
    obtain ⟨-, -, u, hu, rfl, -⟩ := hlive hx
    obtain ⟨-, -, v, hv, rfl, -⟩ := hlive hy
    exact h.tree.names f g u v hu hv (by simpa using hdir) (by simpa using hname)

/-- The only file of a directory that is alone in the root: all three go. -/
theorem fsRemoveitem_effect_nested : ∃ s s' l, FsReachable Called s ∧ Chain s true 2 l ∧
    fsRemoveitem 2 true s = .ok true s' ∧ ItemsGone s l s' ∧ items s' = [] := by
  obtain ⟨s, hs, hp⟩ := exists_fsReachable Called (bytes "/yar.fs")
    [.createdir 1 (bytes "a") .fs_dir_ops, .createfile 2 (bytes "f") none .fs_pid_ops]
    (fun s => (s.heap 2).any (fun x => x.type == .REGULAR) &&
      (fsExec (.remove 2 true) s).any fun s => items s == []) (by decide +kernel)
  rw [Bool.and_eq_true] at hp
  obtain ⟨x, hx, htype⟩ := (Option.any_eq_true _ _).mp hp.1
  obtain ⟨xs, R, hk⟩ := kept_of_reachable hs
  obtain ⟨l, s', hchain, hrun, hgone⟩ := (fsRemoveitem_effect hk.agree hx true).2 (by
    rintro ⟨hdir, -⟩
    rw [hdir] at htype
    cases htype)
  refine ⟨s, s', l, hs, hchain, hrun, hgone, ?_⟩
  obtain ⟨s₁, hexec, hnil⟩ := (Option.any_eq_true _ _).mp hp.2
  have hact : FsEvent.act (.remove 2 true) s = .ok () s' := discard_eq_ok.mpr ⟨true, hrun⟩
  rw [fsExec, hact] at hexec
  cases hexec
  exact eq_of_beq hnil

end Yar.Proofs
