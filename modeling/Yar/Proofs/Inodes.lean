import Yar.Proofs.Purge

/-!
# The inode table

`inofree` puts an inode back without clearing the pointer to its item, and `inoalloc` asserts that
there is none. The table is right as long as nothing has been removed, and no item can be created
once something has.
-/

namespace Yar.Proofs

open Program Fs

variable {s s' : Fs} {xs : List File} {R : List Nat} {x : File} {f : Nat} {e : FsEvent}

/-- The free list is `l`, and each inode is in it and has no item or is in use by the item of that
number. -/
structure FreeList (s : Fs) (l : List Nat) : Prop where
  runs : Linked.Runs (fun i => (s.ino_table i).next) s.ino_freelist l
  nodup : l.Nodup
  numfree : s.ino_numfree = l.length
  lt : ∀ i ∈ l, i < s.ino_num
  free : ∀ i ∈ l, (s.ino_table i).file = none
  used : ∀ i < s.ino_num, i ∉ l → (s.ino_table i).next = none ∧
    (i ≠ invalidIno → ∃ f x, (s.ino_table i).file = some f ∧ s.heap f = some x ∧ x.ino = i)

/-- A call whose own preconditions hold. -/
def Called (s : Fs) (e : FsEvent) : Prop :=
  match e with
  | .remove item _ => s.heap item ≠ none
  | e => CreatesUnique s e ∧ HasRoom s

/-- The table is right and every call whose preconditions hold returns. -/
def InodesOk (s : Fs) : Prop :=
  (∃ l, FreeList s l) ∧ ∀ e, Called s e → ∃ s', e.act s = .ok () s'

/-- There is something in the item. -/
def InUse (s : Fs) (item : Nat) : Prop := ∃ x ∈ s.heap item, ∃ y ∈ items s, y.dir = x.ino

/-- A removal is asked for only where it is refused. -/
def NothingRemoved (s : Fs) (e : FsEvent) : Prop :=
  match e with
  | .remove item _ => InUse s item
  | e => CreatesUnique s e ∧ HasRoom s

instance (s : Fs) (item : Nat) : Decidable (InUse s item) :=
  inferInstanceAs (Decidable (∃ x ∈ s.heap item, _))

instance (s : Fs) (e : FsEvent) : Decidable (Called s e) :=
  match e with
  | .createdir .. => inferInstanceAs (Decidable (_ ∧ _))
  | .createfile .. => inferInstanceAs (Decidable (_ ∧ _))
  | .remove .. => inferInstanceAs (Decidable (_ ≠ _))

instance (s : Fs) (e : FsEvent) : Decidable (NothingRemoved s e) :=
  match e with
  | .createdir .. => inferInstanceAs (Decidable (_ ∧ _))
  | .createfile .. => inferInstanceAs (Decidable (_ ∧ _))
  | .remove item _ => inferInstanceAs (Decidable (InUse s item))

/-! ## What each call does -/

/-- The list of items that a state is the state of, with those removed. -/
structure Kept (xs : List File) (R : List Nat) (s : Fs) : Prop where
  tree : FileTree xs
  pruned : Pruned xs (creations xs) R s
  built : R = [] → Built xs s

lemma Built.kept (h : Built xs s) : Kept xs [] s where
  tree := h.tree
  pruned := h.trace ▸ h.pruned
  built _ := h

lemma Built.freeList (h : Built xs s) :
    FreeList s (List.range' (xs.length + 1) (inoNum - (xs.length + 1))) := by
  have hlen := h.tree.length
  have hmem (i : Nat) : i ∈ List.range' (xs.length + 1) (inoNum - (xs.length + 1)) ↔
      xs.length + 1 ≤ i ∧ i < inoNum := by
    rw [List.mem_range'_1]
    omega
  refine ⟨?_, List.nodup_range', ?_, fun i hi => ?_, fun i hi => ?_, fun i hi hl => ?_⟩
  · have hruns : Linked.Runs (fun i => (s.ino_table i).next) _ _ :=
      Linked.runs_range' (xs.length + 1) (inoNum - (xs.length + 1)) fun i hle _ => by
        rw [h.unused.next i hle]
        exact if_congr (by omega) rfl rfl
    rw [h.unused.freelist]
    convert hruns using 1
    by_cases hroom : xs.length + 1 < inoNum
    · rw [if_pos hroom, if_neg (by omega)]
    · rw [if_neg hroom, if_pos (by omega)]
  · rw [h.holds.numfree, List.length_range', List.length_nil]
    omega
  · rw [h.holds.num]
    exact ((hmem i).mp hi).2
  · rw [h.holds.file, if_pos (.inr ((hmem i).mp hi).1)]
  · rw [h.holds.num] at hi
    have hle : i ≤ xs.length := by
      by_contra hgt
      exact hl ((hmem i).mpr ⟨by omega, hi⟩)
    refine ⟨h.holds.next i hle (.inr List.not_mem_nil), fun h0 => ?_⟩
    obtain ⟨f, rfl⟩ := Nat.exists_eq_succ_of_ne_zero h0
    have hx : xs[f]? = some xs[f] := List.getElem?_eq_getElem hle
    refine ⟨f, fill xs [] xs[f], ?_, h.holds.item List.not_mem_nil hx, ?_⟩
    · rw [h.holds.file, if_neg (by omega)]
      rfl
    · rw [fill_ino, h.tree.ino f _ hx]

lemma Pruned.remove_refused {t : List FsObs} {purge : Bool} (ht : FileTree xs) (h : Pruned xs t R s)
    (hf : f ∉ R) (hx : xs[f]? = some x) (hsome : children xs R (f + 1) ≠ []) :
    FsEvent.act (.remove f purge) s = .ok () s :=
  discard_eq_ok.mpr ⟨false, fsRemove_refused ht h hf hx hsome⟩

/-- A removal is refused and changes nothing, or leaves fewer items. -/
lemma Kept.remove (h : Kept xs R s) {purge : Bool} (hlive : s.heap f ≠ none) :
    ∃ s', FsEvent.act (.remove f purge) s = .ok () s' ∧
      (children xs R (f + 1) ≠ [] ∧ s' = s ∨ ∃ R', R' ≠ [] ∧ Kept xs R' s') := by
  obtain ⟨z, hz⟩ := Option.ne_none_iff_exists'.mp hlive
  obtain ⟨hf, x, hx, -⟩ := h.pruned.holds.live hz
  have hlt : f < xs.length := (List.getElem?_eq_some_iff.mp hx).1
  have hget : fsRemoveitem f purge s = fsRemove (s.brk + 1) f purge s := rfl
  by_cases hnone : children xs R (f + 1) = []
  · obtain ⟨R', s', hrun, hp, -⟩ :=
      fsRemove_ok h.tree (s.brk + 1) h.pruned hf hx hnone (by
        rw [h.pruned.holds.brk]
        omega)
    have hne : R' ≠ [] := List.ne_nil_of_mem hp.mem
    exact ⟨s', discard_eq_ok.mpr ⟨true, hget.trans hrun⟩,
      .inr ⟨R', hne, h.tree, hp.pruned, fun hnil => (hne hnil).elim⟩⟩
  · exact ⟨s, h.pruned.remove_refused h.tree hf hx hnone, .inl ⟨hnone, rfl⟩⟩

/-- The inode that was put back last still has a pointer to its item. -/
lemma Kept.stale (h : Kept xs R s) (hR : R ≠ []) :
    ∃ i f, s.ino_freelist = some i ∧ (s.ino_table i).file = some f := by
  obtain ⟨g, R', rfl⟩ := List.exists_cons_of_ne_nil hR
  have hlt := h.pruned.lt g List.mem_cons_self
  refine ⟨g + 1, g, h.pruned.freelist g rfl, ?_⟩
  rw [h.pruned.holds.file, if_neg (by omega)]
  rfl

lemma inoalloc_stale {i g ino : Nat} (hnum : s.ino_num ≠ 0) (hfree : s.ino_freelist = some i)
    (hfile : (s.ino_table i).file = some g) : inoalloc s ≠ .ok ino s' := by
  intro hrun
  have hinit : when (s.ino_num = 0) init_inotable s = .ok () s := when_eq_ok.mpr (.inr ⟨hnum, rfl⟩)
  unfold inoalloc at hrun
  rw [bind_of_ok (show (get : FsAct Fs) s = .ok s s from rfl), bind_of_ok hinit] at hrun
  rw [bind_of_ok (show (get : FsAct Fs) s = .ok s s from rfl)] at hrun
  simp only [hfree] at hrun
  replace hrun := modify_bind_eq_ok.mp hrun
  replace hrun := (require_bind_eq_ok.mp hrun).2
  have hnone := (require_bind_eq_ok.mp hrun).1
  rw [hfile] at hnone
  cases hnone

/-- No item can be created once something has been removed. -/
lemma Kept.create_fails (h : Kept xs R s) (hR : R ≠ []) (he : ∀ f purge, e ≠ .remove f purge) :
    e.act s ≠ .ok () s' := by
  obtain ⟨i, g, hfree, hfile⟩ := h.stale hR
  have hnum : s.ino_num ≠ 0 := by
    rw [h.pruned.holds.num]
    decide
  intro hrun
  cases e with
  | createdir dir name ops =>
    obtain ⟨f, hrun⟩ := discard_eq_ok.mp hrun
    obtain ⟨ino, t, hino, -⟩ := bind_eq_ok.mp hrun
    obtain ⟨ino', t', halloc, -⟩ := bind_eq_ok.mp hino
    exact inoalloc_stale hnum hfree hfile halloc
  | createfile dir name symlink ops =>
    obtain ⟨f, hrun⟩ := discard_eq_ok.mp hrun
    obtain ⟨ino, t, hino, -⟩ := bind_eq_ok.mp hrun
    obtain ⟨ino', t', halloc, -⟩ := bind_eq_ok.mp hino
    exact inoalloc_stale hnum hfree hfile halloc
  | remove f purge => exact he f purge rfl

lemma Built.inodesOk (h : Built xs s) : InodesOk s := by
  refine ⟨⟨_, h.freeList⟩, fun e he => ?_⟩
  cases e with
  | createdir dir name ops =>
    obtain ⟨x, s', -, hrun, -⟩ := h.step he.1 he.2
    exact ⟨s', hrun⟩
  | createfile dir name symlink ops =>
    obtain ⟨x, s', -, hrun, -⟩ := h.step he.1 he.2
    exact ⟨s', hrun⟩
  | remove f purge =>
    obtain ⟨s', hrun, -⟩ := h.kept.remove he
    exact ⟨s', hrun⟩

/-! ## Runs -/

/-- A step, whatever has happened so far: a call that returns leaves a state of the same kind. -/
lemma Kept.step (h : Kept xs R s) (he : Called s e) (hstep : FsStep s e s') :
    ∃ xs' R', Kept xs' R' s' ∧ (R ≠ [] → R' ≠ []) := by
  have hcreate (hu : CreatesUnique s e ∧ HasRoom s) (hne : ∀ f purge, e ≠ .remove f purge) :
      ∃ xs' R', Kept xs' R' s' ∧ (R ≠ [] → R' ≠ []) := by
    by_cases hR : R = []
    · obtain ⟨x, t, -, hrun, hbuilt⟩ := (h.built hR).step hu.1 hu.2
      cases hstep.symm.trans hrun
      exact ⟨_, [], hbuilt.kept, fun h => (h hR).elim⟩
    · exact (h.create_fails hR hne hstep).elim
  cases e with
  | createdir dir name ops => exact hcreate he fun f purge => FsEvent.noConfusion
  | createfile dir name symlink ops => exact hcreate he fun f purge => FsEvent.noConfusion
  | remove f purge =>
    obtain ⟨t, hrun, hkept⟩ := h.remove he
    cases hstep.symm.trans hrun
    rcases hkept with ⟨-, rfl⟩ | ⟨R', hR', hkept⟩
    · exact ⟨xs, R, h, id⟩
    · exact ⟨xs, R', hkept, fun _ => hR'⟩

theorem kept_of_reachable (h : FsReachable Called s) : ∃ xs R, Kept xs R s := by
  refine Transition.Reach.invariant (P := fun s => ∃ xs R, Kept xs R s) ?_ ?_ h
  · intro s hs
    obtain ⟨xs, hb⟩ := hs.built
    exact ⟨xs, [], hb.kept⟩
  · rintro s e s' - ⟨xs, R, hk⟩ he hstep
    obtain ⟨xs', R', hk', -⟩ := hk.step he hstep
    exact ⟨xs', R', hk'⟩

lemma Built.remove_inUse {purge : Bool} (h : Built xs s) (hf : InUse s f) :
    FsEvent.act (.remove f purge) s = .ok () s := by
  obtain ⟨z, hz, w, hw, hdir⟩ := hf
  obtain ⟨hlive, x, hx, rfl⟩ := h.holds.live hz
  obtain ⟨g, y, hy, rfl⟩ := h.holds.mem_items.mp hw
  rw [fill_dir, fill_ino, h.tree.ino f x hx] at hdir
  have hchild : g ∈ children xs [] (f + 1) := mem_children.mpr ⟨List.not_mem_nil, y, hy, hdir⟩
  exact h.pruned.remove_refused h.tree hlive hx (List.ne_nil_of_mem hchild)

/-- As long as every removal is refused the table is right. -/
theorem inodes_ok (h : FsReachable NothingRemoved s) : InodesOk s := by
  have hbuilt : ∃ xs, Built xs s := by
    refine Transition.Reach.invariant (P := fun s => ∃ xs, Built xs s) (fun s hs => hs.built) ?_ h
    rintro s e s' - ⟨xs, hb⟩ he hstep
    have hcreate (hu : CreatesUnique s e ∧ HasRoom s) : ∃ xs, Built xs s' := by
      obtain ⟨x, t, -, hrun, hbuilt⟩ := hb.step hu.1 hu.2
      cases hstep.symm.trans hrun
      exact ⟨_, hbuilt⟩
    cases e with
    | createdir dir name ops => exact hcreate he
    | createfile dir name symlink ops => exact hcreate he
    | remove f purge =>
      cases hstep.symm.trans (hb.remove_inUse he)
      exact ⟨xs, hb⟩
  obtain ⟨xs, hb⟩ := hbuilt
  exact hb.inodesOk

theorem inodes_ok_refused : ∃ s, FsReachable NothingRemoved s ∧ InUse s 0 ∧ InodesOk s := by
  obtain ⟨s, hs, hp⟩ := exists_fsReachable NothingRemoved (bytes "/yar.fs")
    [.createdir 1 (bytes "a") .fs_dir_ops, .createfile 2 (bytes "f") none .fs_pid_ops,
      .remove 1 true] (fun s => decide (InUse s 0)) (by decide +kernel)
  exact ⟨s, hs, of_decide_eq_true hp, inodes_ok hs⟩

/-- A file that is removed again, and another create. -/
theorem inodes_not_always_ok : ¬∀ s, FsReachable Called s → InodesOk s := by
  intro hall
  obtain ⟨s, hs, hp⟩ := exists_fsReachable Called (bytes "/yar.fs")
    [.createfile 1 (bytes "f") none .fs_pid_ops, .remove 1 false]
    (fun s => decide (Called s (.createfile 1 (bytes "g") none .fs_pid_ops)) &&
      (fsExec (.createfile 1 (bytes "g") none .fs_pid_ops) s).isNone) (by decide +kernel)
  rw [Bool.and_eq_true, decide_eq_true_iff] at hp
  obtain ⟨s', hrun⟩ := (hall s hs).2 _ hp.1
  rw [fsExec, hrun] at hp
  cases hp.2

/-- A removal that has taken effect leaves the table wrong for good, and nothing can be created
from then on. -/
theorem removal_breaks_table (h : FsReachable Called s) (hf : FsObs.removed f ∈ s.trace) :
    (¬∃ l, FreeList s l) ∧
      ∀ (e : FsEvent) (s' : Fs), (∀ g purge, e ≠ .remove g purge) → e.act s ≠ .ok () s' := by
  obtain ⟨xs, R, hk⟩ := kept_of_reachable h
  have hR : R ≠ [] := by
    rintro rfl
    rw [hk.pruned.trace, List.map_nil, List.nil_append, creations, List.mem_reverse,
      List.mem_map] at hf
    obtain ⟨x, -, hx⟩ := hf
    cases hx
  refine ⟨?_, fun e s' he => hk.create_fails hR he⟩
  rintro ⟨l, hl⟩
  obtain ⟨i, g, hfree, hfile⟩ := hk.stale hR
  have hmem : i ∈ l := by
    cases l with
    | nil => exact absurd (hfree.symm.trans hl.runs) (Option.some_ne_none i)
    | cons j l =>
      have hj := hfree.symm.trans hl.runs.1
      cases hj
      exact List.mem_cons_self
  rw [hl.free i hmem] at hfile
  cases hfile

end Yar.Proofs
