import Yar.Proofs.Inodes
import Yar.Proofs.Listing

/-!
# Requests on inodes without an item

The handlers take an inode for free when its descriptor has a `next`. That is so for every entry of
the free list but the last, and not for inode 0, which is in use without an item.
-/

namespace Yar.Proofs

open Program Fs

variable {s s' : Fs} {l : List Nat} {x y : File} {f g ino i : Nat} {e : FsEvent}

/-- No item has the inode. -/
def Unallocated (s : Fs) (ino : Nat) : Prop := ∀ x ∈ items s, x.ino ≠ ino

/-- The three requests on the inode are all answered with `ENOENT`. -/
def AnswersENOENT (w : World) (fuse_add_direntry : Direntry) (s : Fs) (ino : Nat) : Prop :=
  (∀ name, fs_fuse_lookup ino name s = .ok none s) ∧ fs_fuse_getattr w ino s = .ok none s ∧
    ∀ size off, fs_fuse_readdir fuse_add_direntry ino size off s = .ok none s

/-- The inode is on the free list and not its last entry. -/
def FreeNotLast (s : Fs) (ino : Nat) : Prop :=
  ∃ l, Linked.Runs (fun i => (s.ino_table i).next) s.ino_freelist l ∧ ino ∈ l.dropLast

/-- The free list is `l`, and an item is what the inode table has for its inode. -/
structure Tabled (s : Fs) (l : List Nat) : Prop where
  pos : 0 < s.ino_num
  runs : Linked.Runs (fun i => (s.ino_table i).next) s.ino_freelist l
  nodup : l.Nodup
  lt : ∀ i ∈ l, i < s.ino_num
  next : ∀ i, i ∉ l → (s.ino_table i).next = none
  item : ∀ f x, s.heap f = some x →
    f < s.brk ∧ x.ino < s.ino_num ∧ x.ino ∉ l ∧ (s.ino_table x.ino).file = some f
  file : ∀ i f, (s.ino_table i).file = some f → f < s.brk ∧ ∀ x, s.heap f = some x → x.ino = i

/-- The items have the inodes they had, and nothing but items has changed. -/
structure SameInodes (s s' : Fs) : Prop where
  num : s'.ino_num = s.ino_num
  freelist : s'.ino_freelist = s.ino_freelist
  table : s'.ino_table = s.ino_table
  brk : s'.brk = s.brk
  heap : ∀ f, (s'.heap f).map File.ino = (s.heap f).map File.ino

lemma SameInodes.refl (s : Fs) : SameInodes s s := ⟨rfl, rfl, rfl, rfl, fun _ => rfl⟩

lemma SameInodes.setHeap (hx : s.heap f = some x) (hino : y.ino = x.ino) :
    SameInodes s (setHeap s f (some y)) := by
  refine ⟨rfl, rfl, rfl, rfl, fun g => ?_⟩
  by_cases hg : g = f
  · subst hg
    change (Function.update s.heap g (some y) g).map File.ino = _
    rw [Function.update_self, hx, Option.map_some, Option.map_some, hino]
  · change (Function.update s.heap f (some y) g).map File.ino = _
    rw [Function.update_of_ne hg]

lemma SameInodes.item (h : SameInodes s s') (hx : s'.heap f = some x) :
    ∃ y, s.heap f = some y ∧ y.ino = x.ino := by
  have hf := h.heap f
  rw [hx, Option.map_some] at hf
  obtain ⟨y, hy, hino⟩ := Option.map_eq_some_iff.mp hf.symm
  exact ⟨y, hy, hino⟩

lemma SameInodes.symm (h : SameInodes s s') : SameInodes s' s :=
  ⟨h.num.symm, h.freelist.symm, h.table.symm, h.brk.symm, fun f => (h.heap f).symm⟩

lemma Tabled.same (h : Tabled s l) (hs : SameInodes s s') : Tabled s' l where
  pos := by rw [hs.num]; exact h.pos
  runs := by rw [hs.freelist, hs.table]; exact h.runs
  nodup := h.nodup
  lt := by rw [hs.num]; exact h.lt
  next := by rw [hs.table]; exact h.next
  item f x hx := by
    obtain ⟨y, hy, hino⟩ := hs.item hx
    rw [hs.num, hs.table, hs.brk, ← hino]
    exact h.item f y hy
  file i f hf := by
    rw [hs.table] at hf
    obtain ⟨hlt, hitem⟩ := h.file i f hf
    refine ⟨by rw [hs.brk]; exact hlt, fun x hx => ?_⟩
    obtain ⟨y, hy, hino⟩ := hs.item hx
    rw [← hino]
    exact hitem y hy

/-! ## Reads -/

lemma keeps_deref : Keeps Eq (deref f) := by
  refine Keeps.bind Keeps.get fun s => ?_
  cases s.heap f with
  | none => exact Keeps.throw _
  | some x => exact Keeps.pure _

lemma keeps_ino2inodesc : Keeps Eq (ino2inodesc i) :=
  Keeps.bind Keeps.get fun _ => Keeps.bind (Keeps.require _ _) fun _ => Keeps.pure _

lemma keeps_createDir : Keeps Eq (createDir i) := by
  refine Keeps.bind keeps_ino2inodesc fun did => Keeps.bind (Keeps.require _ _) fun _ => ?_
  cases did.file with
  | none => exact Keeps.throw _
  | some dir =>
    exact Keeps.bind keeps_deref fun d => Keeps.bind (Keeps.require _ _) fun _ => Keeps.pure _

lemma keeps_containingDir : Keeps Eq (containingDir x) := by
  refine Keeps.bind keeps_ino2inodesc fun id => Keeps.bind (Keeps.require _ _) fun _ => ?_
  cases id.file with
  | none => exact Keeps.throw _
  | some dir =>
    exact Keeps.bind keeps_deref fun d => Keeps.bind (Keeps.require _ _) fun _ => Keeps.pure _

lemma keeps_removeDir : Keeps Eq (removeDir x) := by
  unfold removeDir
  refine Keeps.ite (fun _ => ?_) fun _ => ?_
  · cases x.data with
    | dir d =>
      refine Keeps.bind (Keeps.require _ _) fun _ => Keeps.ite (fun _ => Keeps.pure _) fun _ => ?_
      refine Keeps.ite (fun _ => ?_) fun _ => ?_
      · exact Keeps.bind keeps_containingDir fun _ => Keeps.pure _
      · exact Keeps.bind (Keeps.require _ _) fun _ => Keeps.pure _
    | null => exact Keeps.throw _
    | symlink target => exact Keeps.throw _
  · refine Keeps.bind (Keeps.require _ _) fun _ => ?_
    exact Keeps.bind keeps_containingDir fun _ => Keeps.pure _

lemma deref_eq_ok (h : deref f s = .ok x s') : s.heap f = some x ∧ s' = s := by
  replace h := get_bind_eq_ok.mp h
  cases hf : s.heap f with
  | none =>
    rw [hf] at h
    exact (throw_eq_ok.mp h).elim
  | some y =>
    rw [hf] at h
    obtain ⟨rfl, rfl⟩ := pure_eq_ok.mp h
    exact ⟨rfl, rfl⟩

/-! ## Creates -/

lemma dir_add_same {b : Bool} (h : dir_add f g s = .ok b s') : SameInodes s s' := by
  obtain ⟨d, t, hd, hrest⟩ := bind_eq_ok.mp h
  obtain ⟨hf, rfl⟩ := deref_eq_ok hd
  obtain ⟨x, t', hx, hadd⟩ := bind_eq_ok.mp hrest
  obtain ⟨-, rfl⟩ := deref_eq_ok hx
  by_cases hdir : ∃ dd, d.type = .DIRECTORY ∧ d.data = .dir dd
  · obtain ⟨dd, htype, hdata⟩ := hdir
    simp only [htype, hdata] at hadd
    replace hadd := get_bind_eq_ok.mp hadd
    split at hadd
    · obtain ⟨-, rfl⟩ := pure_eq_ok.mp hadd
      exact SameInodes.refl _
    · split at hadd
      · obtain ⟨-, rfl⟩ := pure_eq_ok.mp hadd
        exact SameInodes.refl _
      · obtain ⟨u, t, hset, hadd⟩ := bind_eq_ok.mp hadd
        obtain ⟨-, rfl⟩ := pure_eq_ok.mp hadd
        obtain rfl := modify_eq_ok.mp hset
        exact SameInodes.setHeap hf rfl
  · cases htype : d.type <;> cases hdata : d.data <;> simp only [htype, hdata] at hadd <;>
      first
      | exact (throw_eq_ok.mp hadd).elim
      | exact (hdir ⟨_, htype, hdata⟩).elim

/-- A create takes the first entry of the free list. -/
lemma Tabled.createIno (h : Tabled s l) (hrun : createIno s = .ok ino s') :
    ∃ l', l = ino :: l' ∧ s' = allocated s ino ∧ (s.ino_table ino).file = none := by
  obtain ⟨i, t, halloc, hrest⟩ := bind_eq_ok.mp hrun
  have hinit : when (s.ino_num = 0) init_inotable s = .ok () s :=
    when_eq_ok.mpr (.inr ⟨Nat.ne_of_gt h.pos, rfl⟩)
  unfold inoalloc at halloc
  rw [bind_of_ok (show (get : FsAct Fs) s = .ok s s from rfl), bind_of_ok hinit] at halloc
  rw [bind_of_ok (show (get : FsAct Fs) s = .ok s s from rfl)] at halloc
  have hruns := h.runs
  cases l with
  | nil =>
    simp only [show s.ino_freelist = none from hruns] at halloc
    exact (throw_eq_ok.mp halloc).elim
  | cons j l =>
    simp only [hruns.1] at halloc
    replace halloc := modify_bind_eq_ok.mp halloc
    replace halloc := (require_bind_eq_ok.mp halloc).2
    obtain ⟨hfile, halloc⟩ := require_bind_eq_ok.mp halloc
    replace halloc := (require_bind_eq_ok.mp halloc).2
    obtain ⟨rfl, rfl⟩ := pure_eq_ok.mp halloc
    obtain ⟨id, t, hget, hrest⟩ := bind_eq_ok.mp hrest
    obtain rfl := keeps_ino2inodesc hget
    replace hrest := (require_bind_eq_ok.mp hrest).2
    obtain ⟨rfl, rfl⟩ := pure_eq_ok.mp hrest
    exact ⟨l, rfl, rfl, hfile⟩

lemma Tabled.allocated (h : Tabled s (ino :: l)) : Tabled (allocated s ino) l := by
  have htable (i : Nat) : (Proofs.allocated s ino).ino_table i =
      if i = ino then { s.ino_table ino with next := none } else s.ino_table i := by
    change Function.update s.ino_table ino _ i = _
    rw [Function.update_apply]
  have hfile (i : Nat) : ((Proofs.allocated s ino).ino_table i).file = (s.ino_table i).file := by
    rw [htable]
    split
    case isTrue heq => rw [heq]
    case isFalse => rfl
  have hino : ino ∉ l := (List.nodup_cons.mp h.nodup).1
  refine ⟨h.pos, ?_, (List.nodup_cons.mp h.nodup).2, fun i hi => h.lt i (List.mem_cons_of_mem _ hi),
    fun i hi => ?_, fun f x hx => ?_, fun i f hf => ?_⟩
  · refine h.runs.2.congr fun i hi => ?_
    rw [htable, if_neg (fun heq : i = ino => hino (heq ▸ hi))]
  · rw [htable]
    split
    case isTrue => rfl
    case isFalse hne => exact h.next i (by simp [hne, hi])
  · obtain ⟨hlt, hnum, hmem, hitem⟩ := h.item f x hx
    exact ⟨hlt, hnum, fun hl => hmem (List.mem_cons_of_mem _ hl), by rw [hfile, hitem]⟩
  · rw [hfile] at hf
    exact h.file i f hf

/-- The state after the inode of a new item has got its pointer. -/
def pointed (s : Fs) (ino file : Nat) (o : FsObs) : Fs :=
  { s.updInode ino fun id => { id with file := some file } with trace := o :: s.trace }

lemma Tabled.created (h : Tabled s l) (hino : x.ino < s.ino_num) (hfree : x.ino ∉ l)
    (hfile : (s.ino_table x.ino).file = none) {t : Fs} (ht : SameInodes (malloced s x) t)
    (o : FsObs) : Tabled (pointed t x.ino s.brk o) l := by
  have htable (i : Nat) : (pointed t x.ino s.brk o).ino_table i =
      if i = x.ino then { s.ino_table x.ino with file := some s.brk } else s.ino_table i := by
    change Function.update t.ino_table x.ino _ i = _
    rw [ht.table, Function.update_apply]
    rfl
  have hnext (i : Nat) : ((pointed t x.ino s.brk o).ino_table i).next = (s.ino_table i).next := by
    rw [htable]
    split
    case isTrue heq => rw [heq]
    case isFalse => rfl
  have hheap {f : Nat} {y : File} (hy : t.heap f = some y) :
      f = s.brk ∧ y.ino = x.ino ∨ f ≠ s.brk ∧ ∃ z, s.heap f = some z ∧ z.ino = y.ino := by
    obtain ⟨z, hz, hzino⟩ := ht.item hy
    change Function.update s.heap s.brk (some x) f = some z at hz
    by_cases hf : f = s.brk
    · rw [hf, Function.update_self, Option.some_inj] at hz
      exact .inl ⟨hf, by rw [← hzino, hz]⟩
    · rw [Function.update_of_ne hf] at hz
      exact .inr ⟨hf, z, hz, hzino⟩
  refine ⟨?_, ?_, h.nodup, fun i hi => ?_, fun i hi => ?_, fun f y hy => ?_, fun i f hf => ?_⟩
  · rw [show (pointed t x.ino s.brk o).ino_num = s.ino_num from ht.num]
    exact h.pos
  · rw [show (pointed t x.ino s.brk o).ino_freelist = s.ino_freelist from ht.freelist]
    exact h.runs.congr fun i _ => hnext i
  · rw [show (pointed t x.ino s.brk o).ino_num = s.ino_num from ht.num]
    exact h.lt i hi
  · rw [hnext, h.next i hi]
  · rw [show (pointed t x.ino s.brk o).ino_num = s.ino_num from ht.num,
      show (pointed t x.ino s.brk o).brk = s.brk + 1 from ht.brk, htable]
    rcases hheap hy with ⟨rfl, heq⟩ | ⟨hne, z, hz, heq⟩
    · rw [heq, if_pos rfl]
      exact ⟨Nat.lt_succ_self _, hino, hfree, rfl⟩
    · obtain ⟨hlt, hnum, hmem, hitem⟩ := h.item f z hz
      rw [← heq, if_neg (fun hx => by rw [hx, hfile] at hitem; cases hitem)]
      exact ⟨Nat.lt_succ_of_lt hlt, hnum, hmem, hitem⟩
  · rw [show (pointed t x.ino s.brk o).brk = s.brk + 1 from ht.brk]
    rw [htable] at hf
    split at hf
    case isTrue hi =>
      cases hf
      refine ⟨Nat.lt_succ_self _, fun y hy => ?_⟩
      rcases hheap hy with ⟨-, heq⟩ | ⟨hne, -⟩
      · rw [hi, heq]
      · exact (hne rfl).elim
    case isFalse hi =>
      obtain ⟨hlt, hitem⟩ := h.file i f hf
      refine ⟨Nat.lt_succ_of_lt hlt, fun y hy => ?_⟩
      rcases hheap hy with ⟨rfl, -⟩ | ⟨-, z, hz, heq⟩
      · exact absurd hlt (Nat.lt_irrefl _)
      · rw [← heq]
        exact hitem z hz

/-- A create that returns, in whatever directory and under whatever name. -/
lemma Tabled.create (h : Tabled s l) (hne : ∀ f purge, e ≠ .remove f purge)
    (hstep : FsStep s e s') : ∃ l, Tabled s' l := by
  have hfinish {ino : Nat} {x : File} {t : Fs} {o : FsObs} (hino : Fs.createIno s = .ok ino t)
      (hx : x.ino = ino) {t' : Fs} (ht : SameInodes (malloced t x) t')
      (hs : s' = pointed t' ino t.brk o) : ∃ l, Tabled s' l := by
    obtain ⟨l', rfl, rfl, hfile⟩ := h.createIno hino
    subst hx
    refine ⟨l', hs ▸ h.allocated.created (h.lt _ List.mem_cons_self)
      (List.nodup_cons.mp h.nodup).1 ?_ ht o⟩
    change (Function.update s.ino_table x.ino _ x.ino).file = none
    rw [Function.update_self]
    exact hfile
  cases e with
  | createdir parentino name ops =>
    obtain ⟨f, hrun⟩ := discard_eq_ok.mp hstep
    obtain ⟨ino, t, hino, hrun⟩ := bind_eq_ok.mp hrun
    split at hrun
    case isTrue =>
      obtain ⟨parent, t₁, hparent, hrun⟩ := bind_eq_ok.mp hrun
      obtain ⟨p, hp, rfl⟩ := map_eq_ok.mp hparent
      obtain rfl := keeps_createDir hp
      obtain ⟨dir, t₂, hmalloc, hrun⟩ := bind_eq_ok.mp hrun
      cases hmalloc
      obtain ⟨u, t₃, hadd, hrun⟩ := bind_eq_ok.mp hrun
      obtain ⟨b, hb⟩ := discard_eq_ok.mp hadd
      cases hrun
      exact hfinish hino rfl (dir_add_same hb) rfl
    case isFalse =>
      cases hrun
      exact hfinish hino rfl (SameInodes.refl _) rfl
  | createfile dirino name symlink ops =>
    obtain ⟨f, hrun⟩ := discard_eq_ok.mp hstep
    obtain ⟨ino, t, hino, hrun⟩ := bind_eq_ok.mp hrun
    replace hrun := (require_bind_eq_ok.mp hrun).2
    obtain ⟨dir, t₁, hdir, hrun⟩ := bind_eq_ok.mp hrun
    obtain rfl := keeps_createDir hdir
    obtain ⟨file, t₂, hmalloc, hrun⟩ := bind_eq_ok.mp hrun
    cases hmalloc
    obtain ⟨u, t₃, hadd, hrun⟩ := bind_eq_ok.mp hrun
    obtain ⟨b, hb⟩ := discard_eq_ok.mp hadd
    cases hrun
    exact hfinish hino rfl (dir_add_same hb) rfl
  | remove f purge => exact (hne f purge rfl).elim

/-! ## Removals -/

lemma removeFrom_same {c : Option Nat} {b : Bool} (h : removeFrom c f x s = .ok b s') :
    SameInodes s s' := by
  cases c with
  | none =>
    obtain ⟨-, rfl⟩ := pure_eq_ok.mp h
    exact SameInodes.refl _
  | some dir =>
    obtain ⟨c, t, hc, hrun⟩ := bind_eq_ok.mp h
    obtain ⟨hdir, rfl⟩ := deref_eq_ok hc
    cases hdata : c.data with
    | null =>
      simp only [hdata] at hrun
      exact (throw_eq_ok.mp hrun).elim
    | symlink target =>
      simp only [hdata] at hrun
      exact (throw_eq_ok.mp hrun).elim
    | dir d =>
      simp only [hdata] at hrun
      replace hrun := (require_bind_eq_ok.mp hrun).2
      replace hrun := (require_bind_eq_ok.mp hrun).2
      replace hrun := get_bind_eq_ok.mp hrun
      replace hrun := (require_bind_eq_ok.mp hrun).2
      replace hrun := (require_bind_eq_ok.mp hrun).2
      replace hrun := modify_bind_eq_ok.mp hrun
      replace hrun := (require_bind_eq_ok.mp hrun).2
      obtain ⟨-, rfl⟩ := pure_eq_ok.mp hrun
      exact SameInodes.setHeap hdir rfl

/-- The state after an item has been freed and its inode put back. -/
def putBack (s : Fs) (f ino : Nat) : Fs :=
  { setHeap (freed s ino) f none with trace := .removed f :: s.trace }

lemma Tabled.putBack (h : Tabled s l) (hx : s.heap f = some x) :
    Tabled (putBack s f x.ino) (x.ino :: l) := by
  obtain ⟨hlt, hnum, hmem, hfile⟩ := h.item f x hx
  have htable (i : Nat) : (Proofs.putBack s f x.ino).ino_table i =
      if i = x.ino then { s.ino_table x.ino with next := s.ino_freelist } else s.ino_table i := by
    change Function.update s.ino_table x.ino _ i = _
    rw [Function.update_apply]
  have hfiles (i : Nat) : ((Proofs.putBack s f x.ino).ino_table i).file = (s.ino_table i).file := by
    rw [htable]
    split
    case isTrue heq => rw [heq]
    case isFalse => rfl
  have hheap {g : Nat} {y : File} (hy : (Proofs.putBack s f x.ino).heap g = some y) :
      g ≠ f ∧ s.heap g = some y := by
    change Function.update s.heap f none g = some y at hy
    by_cases hg : g = f
    · rw [hg, Function.update_self] at hy
      cases hy
    · rw [Function.update_of_ne hg] at hy
      exact ⟨hg, hy⟩
  refine ⟨h.pos, ⟨rfl, ?_⟩, List.nodup_cons.mpr ⟨hmem, h.nodup⟩, ?_, fun i hi => ?_,
    fun g y hy => ?_, fun i g hg => ?_⟩
  · change Linked.Runs _ ((Proofs.putBack s f x.ino).ino_table x.ino).next l
    rw [htable, if_pos rfl]
    refine h.runs.congr fun i hi => ?_
    rw [htable, if_neg fun heq : i = x.ino => hmem (heq ▸ hi)]
  · intro i hi
    rcases List.mem_cons.mp hi with rfl | hi
    · exact hnum
    · exact h.lt i hi
  · rw [List.mem_cons, not_or] at hi
    rw [htable, if_neg hi.1, h.next i hi.2]
  · obtain ⟨hne, hy⟩ := hheap hy
    obtain ⟨hglt, hgnum, hgmem, hgfile⟩ := h.item g y hy
    refine ⟨hglt, hgnum, ?_, by rw [hfiles, hgfile]⟩
    rw [List.mem_cons, not_or]
    refine ⟨fun heq => hne ?_, hgmem⟩
    rw [heq, hfile] at hgfile
    exact (Option.some.inj hgfile).symm
  · rw [hfiles] at hg
    obtain ⟨hglt, hitem⟩ := h.file i g hg
    exact ⟨hglt, fun y hy => hitem y (hheap hy).2⟩

lemma Tabled.fsRemove {purge b : Bool} (fuel : Nat) (h : Tabled s l)
    (hrun : fsRemove fuel f purge s = .ok b s') : ∃ l, Tabled s' l := by
  induction fuel generalizing s l f b s' with
  | zero => exact (throw_eq_ok.mp hrun).elim
  | succ fuel ih =>
    obtain ⟨x, t, hderef, hrest⟩ := bind_eq_ok.mp hrun
    obtain ⟨hx, rfl⟩ := deref_eq_ok hderef
    obtain ⟨c, t₁, hdir, hrun⟩ := bind_eq_ok.mp hrest
    obtain rfl := keeps_removeDir hdir
    cases c with
    | none =>
      obtain ⟨-, rfl⟩ := pure_eq_ok.mp hrun
      exact ⟨l, h⟩
    | some c =>
      obtain ⟨empty, t₂, hfrom, hrun⟩ := bind_eq_ok.mp hrun
      have hsame := removeFrom_same hfrom
      obtain ⟨y, hy, hino⟩ := hsame.symm.item hx
      obtain ⟨u, t₃, hfree, hrun⟩ := bind_eq_ok.mp hrun
      have ht := (h.same hsame).putBack hy
      rw [inofree_ok (by rw [hsame.num]; exact (h.item f x hx).2.1)
        (by rw [hsame.table]; exact h.next x.ino (h.item f x hx).2.2.1)] at hfree
      cases hfree
      replace hrun := modify_bind_eq_ok.mp hrun
      replace hrun := modify_bind_eq_ok.mp hrun
      rw [hino] at ht
      cases c with
      | none =>
        obtain ⟨-, rfl⟩ := pure_eq_ok.mp hrun
        exact ⟨_, ht⟩
      | some dir =>
        obtain ⟨v, t₄, hup, hlast⟩ := bind_eq_ok.mp hrun
        obtain ⟨-, rfl⟩ := pure_eq_ok.mp hlast
        rcases when_eq_ok.mp hup with ⟨-, hup⟩ | ⟨-, rfl⟩
        · obtain ⟨b', hup⟩ := discard_eq_ok.mp hup
          exact ih ht hup
        · exact ⟨_, ht⟩

/-! ## Runs -/

lemma FsStarted.tabled (h : FsStarted s) : ∃ l, Tabled s l := by
  obtain ⟨xs, hb⟩ := h.built
  have hl := hb.freeList
  refine ⟨_, ⟨?_, hl.runs, hl.nodup, hl.lt, fun i hi => ?_, fun f x hx => ?_, fun i f hf => ?_⟩⟩
  · rw [hb.holds.num]
    decide
  · by_cases hlt : i < s.ino_num
    · exact (hl.used i hlt hi).1
    · rw [hb.holds.num] at hlt
      have hlen := hb.tree.length
      rw [hb.unused.next i (by omega), if_neg (by omega)]
  · obtain ⟨-, y, hy, rfl⟩ := hb.holds.live hx
    have hf : f < xs.length := (List.getElem?_eq_some_iff.mp hy).1
    have hlen := hb.tree.length
    have hfile : (s.ino_table (f + 1)).file = some f := by
      rw [hb.holds.file, if_neg (by omega)]
      rfl
    rw [fill_ino, hb.tree.ino f y hy, hb.holds.num, hb.holds.brk]
    refine ⟨hf, by omega, fun hmem => ?_, hfile⟩
    rw [hl.free _ hmem] at hfile
    cases hfile
  · rw [hb.holds.file] at hf
    split at hf
    case isTrue => cases hf
    case isFalse hi =>
      cases hf
      rw [hb.holds.brk]
      refine ⟨by omega, fun x hx => ?_⟩
      obtain ⟨-, y, hy, rfl⟩ := hb.holds.live hx
      rw [fill_ino, hb.tree.ino _ y hy]
      omega

/-- The table is what it should be in every run of calls that return. -/
theorem tabled_of_reachable (h : FsReachable (fun _ _ => True) s) : ∃ l, Tabled s l := by
  refine Transition.Reach.invariant (P := fun s => ∃ l, Tabled s l) (fun s hs => hs.tabled) ?_ h
  rintro s e s' - ⟨l, hl⟩ - hstep
  cases e with
  | remove f purge =>
    obtain ⟨b, hrun⟩ := discard_eq_ok.mp hstep
    exact hl.fsRemove _ hrun
  | createdir dir name ops => exact hl.create (fun _ _ => FsEvent.noConfusion) hstep
  | createfile dir name symlink ops => exact hl.create (fun _ _ => FsEvent.noConfusion) hstep

lemma Tabled.mem_items (h : Tabled s l) (hx : s.heap f = some x) : x ∈ items s :=
  List.mem_filterMap.mpr ⟨f, List.mem_range.mpr (h.item f x hx).1, hx⟩

lemma Tabled.freeNotLast_iff (h : Tabled s l) (ino : Nat) :
    FreeNotLast s ino ↔ ino < s.ino_num ∧ (s.ino_table ino).next ≠ none := by
  constructor
  · rintro ⟨l', hruns, hmem⟩
    have hnext := ((hruns.mem_dropLast ino).mp hmem).2
    refine ⟨?_, hnext⟩
    by_contra hlt
    exact hnext (h.next ino fun hl => hlt (h.lt ino hl))
  · rintro ⟨-, hnext⟩
    have hmem : ino ∈ l := by
      by_contra hl
      exact hnext (h.next ino hl)
    exact ⟨l, h.runs, (h.runs.mem_dropLast ino).mpr ⟨hmem, hnext⟩⟩

lemma answers_of_next (w : World) (D : Direntry) (hlt : ino < s.ino_num)
    (hnext : (s.ino_table ino).next ≠ none) : AnswersENOENT w D s ino := by
  refine ⟨fun name => ?_, ?_, fun size off => ?_⟩
  · unfold fs_fuse_lookup
    rw [bind_of_ok (ino2inodesc_ok hlt), if_pos hnext]
    rfl
  · unfold fs_fuse_getattr
    rw [bind_of_ok (ino2inodesc_ok hlt), if_pos hnext]
    rfl
  · unfold fs_fuse_readdir
    rw [bind_of_ok (ino2inodesc_ok hlt), if_pos hnext]
    rfl

/-- A request that returns for an inode without a `next` has found an item. -/
lemma getattr_item {w : World} {r : Option Stat} (hnext : (s.ino_table ino).next = none)
    (hrun : fs_fuse_getattr w ino s = .ok r s') :
    ∃ f x, (s.ino_table ino).file = some f ∧ s.heap f = some x := by
  obtain ⟨id, t, hget, hrun⟩ := bind_eq_ok.mp hrun
  obtain ⟨hlt, hget⟩ := require_bind_eq_ok.mp (get_bind_eq_ok.mp hget)
  obtain ⟨hid, ht⟩ := pure_eq_ok.mp hget
  rw [hid, ht, if_neg (not_not_intro hnext)] at hrun
  cases hfile : (s.ino_table ino).file with
  | none =>
    simp only [hfile] at hrun
    exact (throw_eq_ok.mp hrun).elim
  | some f =>
    simp only [hfile] at hrun
    obtain ⟨x, t', hx, -⟩ := bind_eq_ok.mp hrun
    exact ⟨f, x, rfl, (deref_eq_ok hx).1⟩

/-- An inode without an item is reported as such exactly when it is on the free list and not its
last entry. -/
theorem unallocated_noent (w : World) (fuse_add_direntry : Direntry)
    (h : FsReachable (fun _ _ => True) s) (hino : Unallocated s ino) :
    AnswersENOENT w fuse_add_direntry s ino ↔ FreeNotLast s ino := by
  obtain ⟨l, hl⟩ := tabled_of_reachable h
  rw [hl.freeNotLast_iff]
  refine ⟨fun hanswers => ?_, fun hfree => answers_of_next w _ hfree.1 hfree.2⟩
  have hget := hanswers.2.1
  obtain ⟨id, t, hid, -⟩ := bind_eq_ok.mp hget
  refine ⟨(require_bind_eq_ok.mp (get_bind_eq_ok.mp hid)).1, fun hnext => ?_⟩
  -- an inode in use would have its own item
  obtain ⟨f, x, hfile, hx⟩ := getattr_item hnext hget
  exact hino x (hl.mem_items hx) ((hl.file ino f hfile).2 x hx)

/-- The first free inode of a file system with one file. -/
theorem unallocated_noent_free : ∃ s, FsReachable (fun _ _ => True) s ∧ Unallocated s 3 ∧
    AnswersENOENT {} fuseDirent s 3 := by
  obtain ⟨s, hs, hp⟩ := exists_fsReachable (fun _ _ => True) (bytes "/yar.fs")
    [.createfile 1 (bytes "pid") none .fs_pid_ops]
    (fun s => decide ((∀ x ∈ items s, x.ino ≠ 3) ∧ 3 < s.ino_num ∧ (s.ino_table 3).next ≠ none))
    (by decide +kernel)
  obtain ⟨hino, hfree⟩ := of_decide_eq_true hp
  obtain ⟨l, hl⟩ := tabled_of_reachable hs
  exact ⟨s, hs, hino, (unallocated_noent {} fuseDirent hs hino).mpr
    ((hl.freeNotLast_iff 3).mpr hfree)⟩

/-- Inode 0 is not on the free list. -/
theorem unallocated_not_always_noent : ¬∀ s ino, FsReachable (fun _ _ => True) s →
    Unallocated s ino → AnswersENOENT {} fuseDirent s ino := by
  intro hall
  obtain ⟨s, hs, hp⟩ := exists_fsReachable (fun _ _ => True) (bytes "/yar.fs") []
    (fun s => decide ((∀ x ∈ items s, x.ino ≠ 0) ∧ s.ino_table 0 = {})) (by decide +kernel)
  obtain ⟨hino, htable⟩ := of_decide_eq_true hp
  obtain ⟨f, x, hfile, -⟩ := getattr_item (by rw [htable]) (hall s 0 hs hino).2.1
  rw [htable] at hfile
  cases hfile

end Yar.Proofs
