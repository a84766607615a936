import Yar.Proofs.Files

/-!
# Removal

A removal takes the item out of its directory and puts its inode back. With `purgeemptydir` it
goes on with the directory when that is empty now, which comes before the item in the list, so it
ends.
-/

namespace Yar.Proofs

open Program Fs

variable {s s' : Fs} {xs : List File} {R : List Nat} {x y : File} {f g p : Nat} {purge : Bool}

lemma children_cons (f ino : Nat) : children xs (f :: R) ino = (children xs R ino).erase f := by
  rw [(children_nodup xs R ino).erase_eq_filter, children, children, List.filter_filter]
  refine List.filter_congr fun g _ => ?_
  by_cases hg : g = f <;> simp [hg]

lemma children_cons_of_ne {ino : Nat} (hx : xs[f]? = some x) (hd : x.dir ≠ ino) :
    children xs (f :: R) ino = children xs R ino := by
  rw [children_cons, List.erase_of_not_mem]
  intro hmem
  obtain ⟨-, z, hz, hd'⟩ := mem_children.mp hmem
  rw [hx, Option.some_inj] at hz
  exact hd (hz ▸ hd')

lemma FileTree.lt_of_child (ht : FileTree xs) (hg : g ∈ children xs R (f + 1)) : f < g := by
  obtain ⟨-, z, hz, hd⟩ := mem_children.mp hg
  rcases Nat.eq_zero_or_pos g with rfl | hpos
  · rw [(ht.root z hz).1] at hd
    cases hd
  · obtain ⟨q, v, hq, hlt, -⟩ := ht.parent g z hpos.ne' hz
    omega

/-- The directory of an item, none for the root. -/
def parentOf (f : Nat) (x : File) : Option Nat := if f = 0 then none else some (x.dir - 1)

/-- The state of the items `xs` with those of `R` removed, one after the other, since the trace was
`t`. -/
structure Pruned (xs : List File) (t : List FsObs) (R : List Nat) (s : Fs) : Prop where
  holds : Holds xs R s
  nodup : R.Nodup
  lt : ∀ f ∈ R, f < xs.length
  closed : ∀ f ∈ R, children xs R (f + 1) = []
  freelist : ∀ f ∈ R.head?, s.ino_freelist = some (f + 1)
  trace : s.trace = R.map .removed ++ t

variable {t : List FsObs}

lemma Built.pruned (h : Built xs s) : Pruned xs s.trace [] s where
  holds := h.holds
  nodup := List.nodup_nil
  lt f hf := (List.not_mem_nil hf).elim
  closed f hf := (List.not_mem_nil hf).elim
  freelist f hf := by cases hf
  trace := rfl

/-- The parent of a live item is live. -/
lemma Pruned.parent (h : Pruned xs t R s) (hf : f ∉ R) (hx : xs[f]? = some x) (hd : x.dir = p + 1) :
    p ∉ R := by
  intro hp
  have hmem : f ∈ children xs R (p + 1) := mem_children.mpr ⟨hf, x, hx, hd⟩
  rw [h.closed p hp] at hmem
  cases hmem

lemma Pruned.dirAt (h : Pruned xs t R s) (hlen : xs.length < inoNum) (hp : p ∉ R)
    (hy : xs[p]? = some y) (htype : y.type = .DIRECTORY) : DirAt s (p + 1) p (fill xs R y) := by
  have hlt : p < xs.length := (List.getElem?_eq_some_iff.mp hy).1
  refine ⟨?_, ?_, ?_, h.holds.item hp hy, by simpa using htype⟩
  · rw [h.holds.num]
    omega
  · exact h.holds.next _ (by omega) (.inr (by simpa using hp))
  · rw [h.holds.file, if_neg (by omega), Nat.add_sub_cancel]

/-- A directory with something in it is not removed. -/
lemma removeDir_refused (htype : x.type = .DIRECTORY) (hne : children xs R x.ino ≠ []) :
    removeDir (fill xs R x) s = .ok none s := by
  have hlen : (children xs R x.ino).length ≠ 0 := fun h => hne (List.length_eq_zero_iff.mp h)
  unfold removeDir
  rw [if_pos (by simpa using htype), fill_data htype]
  simp only
  rw [bind_of_ok (require_eq_ok (u := ()).mpr ⟨rfl, rfl⟩), if_pos hlen]
  rfl

lemma removeDir_ok (ht : FileTree xs) (h : Pruned xs t R s) (hf : f ∉ R) (hx : xs[f]? = some x)
    (hnone : children xs R (f + 1) = []) :
    removeDir (fill xs R x) s = .ok (some (parentOf f x)) s := by
  have hino := ht.ino f x hx
  have hcont (h0 : f ≠ 0) : containingDir (fill xs R x) s = .ok (x.dir - 1) s := by
    obtain ⟨p, y, hd, hlt, hy, htype⟩ := ht.parent f x h0 hx
    rw [hd, Nat.add_sub_cancel]
    refine containingDir_ok (y := fill xs R y) ?_
    rw [fill_dir, hd]
    exact h.dirAt ht.length (h.parent hf hx hd) hy htype
  unfold removeDir
  by_cases htype : x.type = .DIRECTORY
  · rw [if_pos (by simpa using htype), fill_data htype, hino, hnone]
    simp only
    rw [bind_of_ok (require_eq_ok (u := ()).mpr ⟨rfl, rfl⟩), if_neg (by simp), fill_ino, hino]
    by_cases h0 : f = 0
    · have hdir : x.dir = invalidIno := (ht.root x (h0 ▸ hx)).1
      rw [if_neg (by simp [h0]), bind_of_ok (require_eq_ok (u := ()).mpr ⟨by simpa, rfl⟩)]
      rw [parentOf, if_pos h0]
      rfl
    · rw [if_pos (by simpa using h0), bind_of_ok (hcont h0), parentOf, if_neg h0]
      rfl
  · have h0 : f ≠ 0 := by
      rintro rfl
      exact htype (ht.root x hx).2
    obtain ⟨p, y, hd, -⟩ := ht.parent f x h0 hx
    rw [if_neg (by simpa using htype), fill_ino, fill_dir, hino, hd]
    rw [bind_of_ok (require_eq_ok (u := ()).mpr ⟨⟨by simpa using h0, by simp⟩, rfl⟩)]
    rw [bind_of_ok (hcont h0), parentOf, if_neg h0]
    rfl

/-- The item is the only one of the list with its inode. -/
lemma findIno_children (ht : FileTree xs) (h : Holds xs R s) (hf : f ∉ R) (hx : xs[f]? = some x)
    {l : List Nat} (hl : f ∈ l) : s.findIno l x.ino = some f := by
  have hsome : (s.findIno l x.ino).isSome := by
    refine List.find?_isSome.mpr ⟨f, hl, ?_⟩
    simp [h.item hf hx]
  obtain ⟨g, hg⟩ := Option.isSome_iff_exists.mp hsome
  have hp := List.find?_some hg
  simp only [Option.any_eq_true, beq_iff_eq] at hp
  obtain ⟨z, hz, hino⟩ := hp
  obtain ⟨-, v, hv, rfl⟩ := h.live hz
  rw [fill_ino, ht.ino g v hv, ht.ino f x hx] at hino
  rw [hg]
  congr 1
  omega

/-- The item is the only one of its directory with its name. -/
lemma findName_children (ht : FileTree xs) (h : Holds xs R s) (hf : f ∉ R) (hx : xs[f]? = some x) :
    s.findName (children xs R x.dir) x.name = some f := by
  have hsome : (s.findName (children xs R x.dir) x.name).isSome := by
    refine List.find?_isSome.mpr ⟨f, mem_children.mpr ⟨hf, x, hx, rfl⟩, ?_⟩
    simp [h.item hf hx]
  obtain ⟨g, hg⟩ := Option.isSome_iff_exists.mp hsome
  have hp := List.find?_some hg
  simp only [Option.any_eq_true, beq_iff_eq] at hp
  obtain ⟨z, hz, hname⟩ := hp
  obtain ⟨-, v, hv, rfl⟩ := h.live hz
  obtain ⟨-, v', hv', hdir⟩ := mem_children.mp (List.mem_of_find?_eq_some hg)
  rw [hv, Option.some_inj] at hv'
  rw [fill_name] at hname
  rw [hg, ht.names g f v x hv hx (by rw [hv', hdir]) hname]

/-- The state in which the item is not in its directory any more. -/
def delisted (s : Fs) (xs : List File) (R : List Nat) (f : Nat) : Fs :=
  { s with heap := fun g => if g ∈ R then none else (xs[g]?).map (fill xs (f :: R)) }

lemma fill_cons_of_ne (hx : xs[f]? = some x) (hd : x.dir ≠ y.ino) :
    fill xs (f :: R) y = fill xs R y := by
  unfold fill
  rw [children_cons_of_ne hx hd]

/-- Only the directory of the item changes. -/
lemma delisted_eq (ht : FileTree xs) (h : Pruned xs t R s) (hf : f ∉ R) (hx : xs[f]? = some x)
    (hd : x.dir = p + 1) (hy : xs[p]? = some y) (htype : y.type = .DIRECTORY) {d : Dir}
    (hdir : d = ⟨children xs (f :: R) (p + 1), children xs (f :: R) (p + 1)⟩) :
    setHeap s p (some { fill xs R y with data := .dir d }) = delisted s xs R f := by
  have hyino := ht.ino p y hy
  apply Fs.ext
  case heap =>
    funext g
    change Function.update s.heap p _ g = if g ∈ R then none else (xs[g]?).map (fill xs (f :: R))
    rcases eq_or_ne g p with rfl | hg
    · rw [Function.update_self, if_neg (h.parent hf hx hd), hy, Option.map_some, hdir]
      simp only [fill, htype, if_true, hyino]
    · rw [Function.update_of_ne hg, h.holds.heap]
      cases hz : xs[g]? with
      | none => rfl
      | some z =>
        rw [Option.map_some, Option.map_some, fill_cons_of_ne hx]
        rw [ht.ino g z hz, hd]
        omega
  all_goals rfl

/-- The root is in no directory. -/
lemma delisted_root (ht : FileTree xs) (h : Pruned xs t R s) (hx : xs[0]? = some x) :
    delisted s xs R 0 = s := by
  have hdir : x.dir = 0 := (ht.root x hx).1
  apply Fs.ext
  case heap =>
    funext g
    change (if g ∈ R then none else (xs[g]?).map (fill xs (0 :: R))) = s.heap g
    rw [h.holds.heap]
    cases hz : xs[g]? with
    | none => rfl
    | some z =>
      rw [Option.map_some, Option.map_some, fill_cons_of_ne hx]
      rw [ht.ino g z hz, hdir]
      omega
  all_goals rfl

lemma removeEntry_ok (ht : FileTree xs) (h : Pruned xs t R s) (hf : f ∉ R) (hx : xs[f]? = some x)
    (hd : x.dir = p + 1) (hy : xs[p]? = some y) (htype : y.type = .DIRECTORY) :
    removeEntry p f (fill xs R x) s =
      .ok ((children xs (f :: R) (p + 1)).length == 0) (delisted s xs R f) := by
  have hyino := ht.ino p y hy
  have hmem : f ∈ children xs R (p + 1) := mem_children.mpr ⟨hf, x, hx, hd⟩
  have hname := findName_children ht h.holds hf hx
  have hdir := delisted_eq ht h hf hx hd hy htype (by rw [children_cons])
  rw [hd] at hname
  unfold removeEntry
  rw [bind_of_ok (deref_ok (h.holds.item (h.parent hf hx hd) hy)), fill_data htype, hyino]
  simp only
  rw [bind_of_ok (require_eq_ok (u := ()).mpr ⟨rfl, rfl⟩)]
  rw [bind_of_ok (require_eq_ok (u := ()).mpr ⟨List.length_pos_of_mem hmem, rfl⟩)]
  rw [bind_of_ok (show (get : FsAct Fs) s = .ok s s from rfl), fill_ino, fill_name]
  rw [bind_of_ok (require_eq_ok (u := ()).mpr ⟨findIno_children ht h.holds hf hx hmem, rfl⟩)]
  rw [bind_of_ok (require_eq_ok (u := ()).mpr ⟨hname, rfl⟩), bind_of_ok (setFile_ok _), hdir]
  rw [bind_of_ok (require_eq_ok (u := ()).mpr ⟨rfl, rfl⟩), children_cons]
  rfl

lemma removeFrom_ok (ht : FileTree xs) (h : Pruned xs t R s) (hf : f ∉ R) (hx : xs[f]? = some x) :
    removeFrom (parentOf f x) f (fill xs R x) s =
      .ok (decide (f ≠ 0 ∧ children xs (f :: R) x.dir = [])) (delisted s xs R f) := by
  unfold removeFrom parentOf
  by_cases h0 : f = 0
  · subst h0
    rw [if_pos rfl, delisted_root ht h hx]
    rfl
  · obtain ⟨p, y, hd, -, hy, htype⟩ := ht.parent f x h0 hx
    rw [if_neg h0, hd, Nat.add_sub_cancel]
    simp only
    rw [removeEntry_ok ht h hf hx hd hy htype]
    congr 1
    rw [Bool.eq_iff_iff, beq_iff_eq, decide_eq_true_iff, List.length_eq_zero_iff]
    exact ⟨fun h => ⟨h0, h⟩, fun h => h.2⟩

/-- The state after an inode has been put back. -/
def freed (s : Fs) (ino : Nat) : Fs :=
  { s.updInode ino fun id => { id with next := s.ino_freelist } with
    ino_freelist := some ino
    ino_numfree := s.ino_numfree + 1 }

lemma inofree_ok {ino : Nat} (hlt : ino < s.ino_num) (hnext : (s.ino_table ino).next = none) :
    inofree ino s = .ok () (freed s ino) := by
  unfold inofree
  rw [bind_of_ok (ino2inodesc_ok hlt), bind_of_ok (require_eq_ok (u := ()).mpr ⟨hnext, rfl⟩)]
  rfl

/-- The state after the item has been freed as well. -/
def dropped (s : Fs) (f : Nat) : Fs :=
  { setHeap (freed s (f + 1)) f none with trace := .removed f :: s.trace }

lemma Pruned.dropped (h : Pruned xs t R s) (hf : f ∉ R) (hx : xs[f]? = some x)
    (hnone : children xs R (f + 1) = []) :
    Pruned xs t (f :: R) (dropped (delisted s xs R f) f) := by
  have hlt : f < xs.length := (List.getElem?_eq_some_iff.mp hx).1
  have hclosed : ∀ g ∈ f :: R, children xs (f :: R) (g + 1) = [] := by
    intro g hg
    have hbefore : children xs R (g + 1) = [] := by
      rcases List.mem_cons.mp hg with rfl | hg
      · exact hnone
      · exact h.closed g hg
    rw [children_cons, hbefore, List.erase_nil]
  refine ⟨⟨h.holds.num, ?_, h.holds.brk, fun g => ?_, fun i => ?_, fun i hi hR => ?_⟩,
    List.nodup_cons.mpr ⟨hf, h.nodup⟩, ?_, hclosed, ?_, ?_⟩
  · have hnum : (Proofs.dropped (delisted s xs R f) f).ino_numfree = s.ino_numfree + 1 := rfl
    rw [hnum, h.holds.numfree, List.length_cons]
    push_cast
    rw [add_assoc]
  · simp only [Proofs.dropped, setHeap, freed, updInode, delisted, List.mem_cons]
    rcases eq_or_ne g f with rfl | hg
    · rw [Function.update_self, if_pos (.inl rfl)]
    · rw [Function.update_of_ne hg]
      exact if_congr (by simp [hg]) rfl rfl
  · rw [← h.holds.file i]
    rcases eq_or_ne i (f + 1) with rfl | hi
    · simp [Proofs.dropped, setHeap, freed, delisted, updInode]
    · simp [Proofs.dropped, setHeap, freed, delisted, updInode, hi]
  · have hne : i ≠ f + 1 := by
      rintro rfl
      rcases hR with h0 | hR
      · cases h0
      · exact hR (by simp)
    have hnext : i = 0 ∨ i - 1 ∉ R := hR.imp_right fun hR hmem => hR (List.mem_cons_of_mem _ hmem)
    simpa [Proofs.dropped, setHeap, freed, delisted, updInode, hne] using h.holds.next i hi hnext
  · intro g hg
    rcases List.mem_cons.mp hg with rfl | hg
    · exact hlt
    · exact h.lt g hg
  · rintro g hg
    obtain rfl := Option.some.inj hg
    rfl
  · rw [List.map_cons, List.cons_append, ← h.trace]
    rfl

/-- Each of the first `m` items that are left has something in it. -/
def Cleared (xs : List File) (R : List Nat) (m : Nat) : Prop :=
  ∀ g < m, g < xs.length → g ∉ R → children xs R (g + 1) ≠ []

/-- What a removal that has not been refused leaves: the item is gone and perhaps some of the
directories above it, which come before it. -/
structure Purged (xs : List File) (t : List FsObs) (R R' : List Nat) (f : Nat) (s' : Fs) :
    Prop where
  pruned : Pruned xs t R' s'
  mem : f ∈ R'
  subset : R ⊆ R'
  le : ∀ g ∈ R', g ∉ R → g ≤ f

/-- A call for a directory that is not empty changes nothing. -/
lemma fsRemove_refused {fuel : Nat} (ht : FileTree xs) (h : Pruned xs t R s) (hf : f ∉ R)
    (hx : xs[f]? = some x) (hsome : children xs R (f + 1) ≠ []) :
    fsRemove (fuel + 1) f purge s = .ok false s := by
  have htype : x.type = .DIRECTORY := by
    obtain ⟨g, hg⟩ := List.exists_mem_of_ne_nil _ hsome
    obtain ⟨-, z, hz, hd⟩ := mem_children.mp hg
    have h0 : g ≠ 0 := (Nat.zero_le f).trans_lt (ht.lt_of_child hg) |>.ne'
    obtain ⟨p, y, hp, -, hy, hy'⟩ := ht.parent g z h0 hz
    obtain rfl : p = f := by omega
    rw [hx, Option.some_inj] at hy
    rwa [hy]
  have hrefused : removeDir (fill xs R x) s = .ok none s :=
    removeDir_refused htype (by rwa [ht.ino f x hx])
  unfold fsRemove
  rw [bind_of_ok (deref_ok (h.holds.item hf hx)), bind_of_ok hrefused]
  rfl

/-- A call for an item with nothing in it removes the item, and then perhaps the directories above
it. The induction is on the number of calls inside each other. -/
lemma fsRemove_ok (ht : FileTree xs) (fuel : Nat) (h : Pruned xs t R s) (hf : f ∉ R)
    (hx : xs[f]? = some x) (hnone : children xs R (f + 1) = []) (hfuel : f < fuel) :
    ∃ R' s', fsRemove fuel f purge s = .ok true s' ∧ Purged xs t R R' f s' ∧
      ∀ m, purge = true → (∀ g < m, g < xs.length → g ∉ R → g ≠ f → children xs R (g + 1) ≠ []) →
        Cleared xs R' m := by
  induction fuel generalizing f x R s with
  | zero => exact absurd hfuel (Nat.not_lt_zero f)
  | succ fuel ih =>
    have hlt : f < xs.length := (List.getElem?_eq_some_iff.mp hx).1
    have hlen := ht.length
    have hnum : f + 1 < (delisted s xs R f).ino_num :=
      lt_of_lt_of_eq (b := inoNum) (by omega) h.holds.num.symm
    have hnext : ((delisted s xs R f).ino_table (f + 1)).next = none :=
      h.holds.next _ hlt (.inr (by simpa using hf))
    have hdropped := h.dropped hf hx hnone
    have hrest (g : Nat) (hg : g ∉ f :: R) (hd : x.dir ≠ g + 1) (hne : children xs R (g + 1) ≠ []) :
        children xs (f :: R) (g + 1) ≠ [] := by
      rwa [children_cons_of_ne hx hd]
    unfold fsRemove
    rw [bind_of_ok (deref_ok (h.holds.item hf hx)), bind_of_ok (removeDir_ok ht h hf hx hnone)]
    simp only
    rw [bind_of_ok (removeFrom_ok ht h hf hx), fill_ino, ht.ino f x hx]
    rw [bind_of_ok (inofree_ok hnum hnext), bind_of_ok (setFile_ok none)]
    rw [bind_of_ok (show Fs.note (.removed f) _ = .ok () (dropped (delisted s xs R f) f) from rfl)]
    unfold parentOf
    by_cases h0 : f = 0
    · have hd : x.dir = invalidIno := (ht.root x (h0 ▸ hx)).1
      rw [if_pos h0]
      refine ⟨f :: R, _, rfl, ⟨hdropped, List.mem_cons_self, List.subset_cons_self f R, ?_⟩, ?_⟩
      · intro g hg hgR
        exact (List.mem_cons.mp hg).resolve_right hgR |>.le
      · intro m _ hbefore g hgm hglen hg
        have hg' := List.ne_and_not_mem_of_not_mem_cons hg
        exact hrest g hg (by rw [hd]; exact (Nat.succ_ne_zero g).symm)
          (hbefore g hgm hglen hg'.2 hg'.1)
    · obtain ⟨p, y, hd, hpf, hy, -⟩ := ht.parent f x h0 hx
      have hpR : p ∉ f :: R := by
        rw [List.mem_cons, not_or]
        exact ⟨hpf.ne, h.parent hf hx hd⟩
      rw [if_neg h0, hd, Nat.add_sub_cancel]
      simp only
      by_cases hpurge : decide (f ≠ 0 ∧ children xs (f :: R) (p + 1) = []) = true ∧ purge = true
      · -- the directory is empty now, and goes as well
        have hempty : children xs (f :: R) (p + 1) = [] := (of_decide_eq_true hpurge.1).2
        obtain ⟨R', s', hrun, hrem, hclear⟩ := ih hdropped hpR hy hempty (by omega)
        refine ⟨R', s', ?_, ⟨hrem.pruned, hrem.subset List.mem_cons_self,
          fun g hg => hrem.subset (List.mem_cons_of_mem f hg), fun g hg hgR => ?_⟩, ?_⟩
        · have hdone : discard (fsRemove fuel p purge) (dropped (delisted s xs R f) f) = .ok () s' :=
            discard_eq_ok.mpr ⟨true, hrun⟩
          rw [bind_of_ok (when_eq_ok.mpr (.inl ⟨hpurge, hdone⟩))]
          rfl
        · by_cases hgf : g = f
          · exact hgf.le
          · exact (hrem.le g hg (List.not_mem_cons_of_ne_of_not_mem hgf hgR)).trans hpf.le
        · intro m hp hbefore
          refine hclear m hp fun g hgm hglen hg hgp => ?_
          have hg' := List.ne_and_not_mem_of_not_mem_cons hg
          exact hrest g hg (by omega) (hbefore g hgm hglen hg'.2 hg'.1)
      · refine ⟨f :: R, _, ?_, ⟨hdropped, List.mem_cons_self, List.subset_cons_self f R, ?_⟩, ?_⟩
        · rw [bind_of_ok (when_eq_ok (u := ()).mpr (.inr ⟨hpurge, rfl⟩))]
          rfl
        · intro g hg hgR
          exact (List.mem_cons.mp hg).resolve_right hgR |>.le
        · intro m hp hbefore g hgm hglen hg
          have hg' := List.ne_and_not_mem_of_not_mem_cons hg
          by_cases hgp : g = p
          · rw [hgp]
            exact fun hempty => hpurge ⟨decide_eq_true ⟨h0, hempty⟩, hp⟩
          · exact hrest g hg (by omega) (hbefore g hgm hglen hg'.2 hg'.1)

end Yar.Proofs
