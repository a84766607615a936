import Yar.Proofs.Purge

/-!
# Teardown

`fsCleanup` goes through the inodes in order and counts every item it finds, also a directory
whose removal is refused because something is in it. Such a directory comes before what is in it,
so the removal of the last item in it, later in the scan, removes it as well; and it only ever
removes what the scan has passed.
-/

namespace Yar.Proofs

open Program Fs

variable {s s' : Fs} {xs : List File} {R : List Nat} {x : File} {f : Nat} {t : List FsObs}

/-- The call that the scan makes for an item: the item is gone afterwards or has something in it. -/
lemma fsRemoveitem_purge (ht : FileTree xs) (h : Pruned xs t R s) (hx : xs[f]? = some x)
    (hf : f ∉ R) (hclear : Cleared xs R f) :
    ∃ b R' s', fsRemoveitem f true s = .ok b s' ∧ Pruned xs t R' s' ∧
      (∀ g ∈ R', g ∉ R → g ≤ f) ∧ Cleared xs R' (f + 1) := by
  have hlt : f < xs.length := (List.getElem?_eq_some_iff.mp hx).1
  have hget : fsRemoveitem f true s = fsRemove (s.brk + 1) f true s := rfl
  rw [hget, h.holds.brk]
  by_cases hnone : children xs R (f + 1) = []
  · obtain ⟨R', s', hrun, hp, hclear'⟩ :=
      fsRemove_ok ht (xs.length + 1) h hf hx hnone (by omega)
    refine ⟨true, R', s', hrun, hp.pruned, hp.le, hclear' (f + 1) rfl fun g hg hglen hgR hgf => ?_⟩
    exact hclear g (by omega) hglen hgR
  · refine ⟨false, R, s, fsRemove_refused ht h hf hx hnone, h, fun g hg hgR => (hgR hg).elim, ?_⟩
    intro g hg hglen hgR
    rcases Nat.lt_succ_iff_lt_or_eq.mp hg with hg | rfl
    · exact hclear g hg hglen hgR
    · exact hnone

/-- The scan from a slot on: what it has not passed is still there, and what it has passed is gone
or has something in it. -/
lemma fsScan_ok (ht : FileTree xs) (k i : Nat) (h : Pruned xs t R s)
    (hlive : ∀ g, i ≤ g + 1 → g ∉ R) (hclear : Cleared xs R (i - 1)) :
    ∃ R' s', fsScan i k s = .ok ((min (i + k) (xs.length + 1) - max i 1 : Nat) : Int) s' ∧
      Pruned xs t R' s' ∧ Cleared xs R' (i + k - 1) := by
  induction k generalizing i R s with
  | zero =>
    refine ⟨R, s, ?_, h, hclear⟩
    have hzero : min (i + 0) (xs.length + 1) - max i 1 = 0 := by omega
    rw [hzero]
    rfl
  | succ k ih =>
    have hfile := h.holds.file i
    unfold fsScan
    rw [bind_of_ok (show (get : FsAct Fs) s = .ok s s from rfl)]
    by_cases hi : i = 0 ∨ xs.length < i
    · rw [if_pos hi] at hfile
      simp only [hfile]
      obtain ⟨R', s', hrun, hp, hclear'⟩ := ih (i + 1) h (fun g hg => hlive g (by omega)) (by
        intro g hg hglen hgR
        exact hclear g (by omega) hglen hgR)
      have hcount : min (i + (k + 1)) (xs.length + 1) - max i 1 =
          min (i + 1 + k) (xs.length + 1) - max (i + 1) 1 := by omega
      refine ⟨R', s', ?_, hp, ?_⟩
      · rw [hcount]
        exact hrun
      · rwa [show i + (k + 1) - 1 = i + 1 + k - 1 by omega]
    · obtain ⟨f, rfl⟩ : ∃ f, i = f + 1 := ⟨i - 1, by omega⟩
      have hf : f ∉ R := hlive f le_rfl
      have hlt : f < xs.length := by omega
      have hx : xs[f]? = some xs[f] := List.getElem?_eq_getElem hlt
      have hnext : (s.ino_table (f + 1)).next = none := h.holds.next _ hlt (.inr (by simpa using hf))
      obtain ⟨b, R₁, s₁, hremove, hp₁, hle, hclear₁⟩ := fsRemoveitem_purge ht h hx hf hclear
      have hlive₁ : ∀ g, f + 1 + 1 ≤ g + 1 → g ∉ R₁ := by
        intro g hg hg₁
        have hgf := hle g hg₁ (hlive g (by omega))
        omega
      obtain ⟨R', s', hrun, hp, hclear'⟩ := ih (f + 1 + 1) hp₁ hlive₁ hclear₁
      rw [if_neg hi, Nat.add_sub_cancel] at hfile
      simp only [hfile]
      rw [bind_of_ok (require_eq_ok (u := ()).mpr ⟨hnext, rfl⟩), bind_of_ok hremove]
      rw [bind_of_ok hrun]
      have hcount : min (f + 1 + (k + 1)) (xs.length + 1) - max (f + 1) 1 =
          min (f + 1 + 1 + k) (xs.length + 1) - max (f + 1 + 1) 1 + 1 := by omega
      refine ⟨R', s', ?_, hp, ?_⟩
      · rw [hcount]
        push_cast
        rfl
      · rwa [show f + 1 + (k + 1) - 1 = f + 1 + 1 + k - 1 by omega]

/-- An item that has something in it comes before that, so nothing is left. -/
lemma Cleared.all (ht : FileTree xs) (h : Cleared xs R xs.length) (hf : f < xs.length) : f ∈ R := by
  induction hk : xs.length - f using Nat.strong_induction_on generalizing f with
  | h k ih =>
    by_contra hR
    obtain ⟨g, hg⟩ := List.exists_mem_of_ne_nil _ (h f hf hf hR)
    have hfg := ht.lt_of_child hg
    obtain ⟨hgR, z, hz, -⟩ := mem_children.mp hg
    have hglen : g < xs.length := (List.getElem?_eq_some_iff.mp hz).1
    exact hgR (ih (xs.length - g) (by omega) hglen rfl)

lemma fsCleanupTable_ok (ht : FileTree xs) (h : Pruned xs t [] s) :
    ∃ (R : List Nat) (s' : Fs), fsCleanupTable s = .ok () s' ∧
      s'.trace = R.map .removed ++ t ∧ R.Nodup ∧ (∀ f, f ∈ R ↔ f < xs.length) ∧ ∀ f, s'.heap f = none := by
  have hlen := ht.length
  have hpos := ht.pos
  obtain ⟨R, s₁, hscan, hp, hclear⟩ := fsScan_ok ht inoNum 0 h (fun g _ => List.not_mem_nil)
    (fun g hg => absurd hg (Nat.not_lt_zero g))
  have hclear' : Cleared xs R xs.length := fun g hg => hclear g (by omega)
  have hall (f : Nat) : f ∈ R ↔ f < xs.length := ⟨hp.lt f, hclear'.all ht⟩
  have hcount : R.length = xs.length := by
    have hperm : R.Perm (List.range xs.length) :=
      (List.perm_ext_iff_of_nodup hp.nodup List.nodup_range).mpr fun f => by
        rw [hall, List.mem_range]
    rw [hperm.length_eq, List.length_range]
  have hfree : inofree invalidIno s₁ = .ok () (freed s₁ invalidIno) := by
    refine inofree_ok ?_ (hp.holds.next 0 (Nat.zero_le _) (.inl rfl))
    rw [hp.holds.num]
    decide
  have hscan' : fsScan 0 s.ino_num s = .ok (xs.length : Int) s₁ := by
    rw [h.holds.num, hscan, show min (0 + inoNum) (xs.length + 1) - max 0 1 = xs.length by omega]
  have hremoved : (xs.length : Int) + 1 = s.ino_num - s.ino_numfree := by
    rw [h.holds.num, h.holds.numfree, List.length_nil]
    push_cast
    omega
  have hnum : ((freed s₁ invalidIno).ino_num : Int) = (freed s₁ invalidIno).ino_numfree := by
    have hone : (freed s₁ invalidIno).ino_numfree = s₁.ino_numfree + 1 := rfl
    rw [hone, hp.holds.numfree, hcount, show (freed s₁ invalidIno).ino_num = s₁.ino_num from rfl,
      hp.holds.num]
    omega
  refine ⟨R, { freed s₁ invalidIno with ino_num := 0, ino_freelist := none, ino_numfree := 0 }, ?_,
    hp.trace, hp.nodup, hall, fun f => ?_⟩
  · unfold fsCleanupTable
    rw [bind_of_ok (show (get : FsAct Fs) s = .ok s s from rfl)]
    rw [bind_of_ok hscan', bind_of_ok hfree]
    rw [bind_of_ok (require_eq_ok (u := ()).mpr ⟨hremoved, rfl⟩)]
    rw [bind_of_ok (show (get : FsAct Fs) _ = .ok _ _ from rfl)]
    rw [bind_of_ok (show (get : FsAct Fs) _ = .ok _ _ from rfl)]
    rw [bind_of_ok (require_eq_ok (u := ()).mpr ⟨hnum, rfl⟩)]
    rfl
  · change s₁.heap f = none
    rw [hp.holds.heap]
    split
    · rfl
    · rw [List.getElem?_eq_none, Option.map_none]
      exact Nat.le_of_not_lt fun hlt => ‹f ∉ R› ((hall f).mpr hlt)

lemma Built.unmounted (h : Built xs s) : Pruned xs s.trace [] { s with mntpt := none } := by
  obtain ⟨⟨h₁, h₂, h₃, h₄, h₅, h₆⟩, h₇, h₈, h₉, h₁₀, h₁₁⟩ := h.pruned
  exact ⟨⟨h₁, h₂, h₃, h₄, h₅, h₆⟩, h₇, h₈, h₉, h₁₀, h₁₁⟩

lemma Built.heap_ne_none (h : Built xs s) : s.heap f ≠ none ↔ f < xs.length := by
  rw [h.holds.heap, if_neg List.not_mem_nil, ne_eq, Option.map_eq_none_iff,
    List.getElem?_eq_none_iff, not_le]

/-- Whatever tree has been built, the cleanup ends without a failed assertion and has removed each
item once. -/
theorem cleanup_complete (h : FsReachable CreatesUnique s) :
    ∃ (R : List Nat) (s' : Fs), fsCleanup s = .ok true s' ∧ s'.trace = R.map .removed ++ s.trace ∧
      R.Nodup ∧ (∀ f, f ∈ R ↔ s.heap f ≠ none) ∧ ∀ f, s'.heap f = none := by
  obtain ⟨xs, hb⟩ := built_of_reachable h
  obtain ⟨R, s', hrun, htrace, hnodup, hall, hheap⟩ := fsCleanupTable_ok hb.tree hb.unmounted
  have hnum : s.ino_num ≠ 0 := by
    rw [hb.holds.num]
    decide
  refine ⟨R, s', ?_, htrace, hnodup, fun f => ?_, hheap⟩
  · unfold fsCleanup
    rw [bind_of_ok (show (get : FsAct Fs) s = .ok s s from rfl)]
    have hbody : (do
        modify fun s => { s with mntpt := none }
        when (s.ino_num ≠ 0) fsCleanupTable : FsAct Unit) s = .ok () s' := by
      rw [bind_of_ok (show (modify _ : FsAct PUnit) s = .ok ⟨⟩ { s with mntpt := none } from rfl)]
      exact when_eq_ok.mpr (.inl ⟨hnum, hrun⟩)
    rw [bind_of_ok (when_eq_ok.mpr (.inl ⟨hb.mounted, hbody⟩))]
    rfl
  · rw [hall, hb.heap_ne_none]

/-- Files and empty directories at several depths. -/
theorem cleanup_complete_nested : ∃ s, FsReachable CreatesUnique s ∧ (items s).length = 6 ∧
    ∃ (R : List Nat) (s' : Fs), fsCleanup s = .ok true s' ∧ s'.trace = R.map .removed ++ s.trace ∧
      R.Nodup ∧ (∀ f, f ∈ R ↔ s.heap f ≠ none) ∧ ∀ f, s'.heap f = none := by
  obtain ⟨s, hs, hlen⟩ := exists_fsReachable CreatesUnique (bytes "/yar.fs")
    [.createdir 1 (bytes "a") .fs_dir_ops, .createdir 2 (bytes "b") .fs_dir_ops,
      .createfile 3 (bytes "f") none .fs_pid_ops, .createdir 2 (bytes "c") .fs_dir_ops,
      .createfile 1 (bytes "g") (some (bytes "a")) .fs_cmds_ops]
    (fun s => (items s).length == 6) (by decide +kernel)
  exact ⟨s, hs, beq_iff_eq.mp hlen, cleanup_complete hs⟩

end Yar.Proofs
