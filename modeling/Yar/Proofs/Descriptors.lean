import Mathlib.Algebra.BigOperators.Group.Multiset.Basic
import Yar.Proofs.Children
import Yar.Proofs.Creates
import Yar.Proofs.Relay

/-!
# Accounting for descriptors

The descriptors that are open are those recorded in the ttys and commands in use, as long as no exit
handler runs and no creation of a tty fails after it has opened the sub side.
-/

namespace Yar.Proofs

open Program

variable {sys : Sys} {w w' : World} {id : CmdId} {r : TtyRef} {S : Set Part} {rest : Multiset Fd}

/-! ## What is recorded -/

def ttyFds (this : Tty) : Multiset Fd := this.ifd.toList + (this.dfd.toList + this.sfd.toList)

def cmdFds (w : World) (id : CmdId) : Multiset Fd :=
  ttyFds (w.ttys (.cmd id)) + ttyFds (w.ttys (.clt id)) + (w.heap id).pidfd.toList

/-- The descriptors in the fields of the objects in use. -/
def recordedFds (w : World) : Multiset Fd :=
  ttyFds (w.ttys .mon) + ttyFds (w.ttys .bcst) + (w.gbls.cmds.map (cmdFds w)).sum

def openFds (w : World) : Multiset Fd := w.kern.fds

lemma NoFds.ttyFds_eq {this : Tty} (h : NoFds this) : ttyFds this = 0 := by
  simp [ttyFds, h.dfd, h.sfd, h.ifd]

lemma noFds_default : NoFds {} := ⟨rfl, rfl, rfl⟩

lemma Modifies.openFds_eq (h : Modifies S w w') (hS : .kproc ∉ S) : openFds w' = openFds w := by
  have hk := h.kernProc_eq hS
  simp only [kernProc, Prod.mk.injEq] at hk
  rw [openFds, hk.2.1, openFds]

lemma ttyFds_congr {t t' : Tty} (h : ttyStatic t' = ttyStatic t) : ttyFds t' = ttyFds t := by
  simp only [ttyStatic, Prod.mk.injEq] at h
  rw [ttyFds, ttyFds, h.2.2.2.1, h.2.2.2.2.1, h.2.2.2.2.2.1]

lemma Modifies.ttyFds_eq (h : Modifies S w w') (hS : .tty r ∉ S) :
    ttyFds (w'.ttys r) = ttyFds (w.ttys r) :=
  ttyFds_congr (h.same _ hS)

/-! ## Creation and cleanup -/

lemma close_fds {fd : Option Fd} {u : Unit} (h : close fd w = .ok u w')
    (hf : openFds w = fd.toList + rest) : openFds w' = rest ∧ w'.ttys = w.ttys := by
  cases fd with
  | none =>
    rw [(pure_eq_ok.mp h).2, hf]
    simp
  | some fd =>
    rw [modify_eq_ok.mp h]
    refine ⟨?_, rfl⟩
    have herase : openFds { w with kern := w.kern.close fd } = (openFds w).erase fd :=
      (Multiset.coe_erase w.kern.fds fd).symm
    rw [herase, hf, Option.toList_some, Multiset.coe_singleton, Multiset.singleton_add,
      Multiset.erase_cons_head]

lemma ttyCleanup_fds {u : Unit} (h : ttyCleanup sys r w = .ok u w')
    (hf : openFds w = ttyFds (w.ttys r) + rest) : openFds w' = rest := by
  rw [ttyFds, add_assoc, add_assoc] at hf
  replace h := get_bind_eq_ok.mp h
  obtain ⟨_, w₁, hifd, h⟩ := bind_eq_ok.mp h
  obtain ⟨_, w₂, hdfd, h⟩ := bind_eq_ok.mp h
  obtain ⟨_, w₃, hsfd, h⟩ := bind_eq_ok.mp h
  obtain ⟨hf₁, -⟩ := close_fds hifd hf
  obtain ⟨hf₂, -⟩ := close_fds hdfd hf₁
  obtain ⟨hf₃, -⟩ := close_fds hsfd hf₂
  have hm : Modifies {.names, .oLink, .tty r, .opens r} w₃ w' :=
    (Keeps.bind (ttyUnlink_modifies sys r _ (by simp) (by simp)) fun _ =>
      Keeps.bind (ttyUnlink_modifies sys r _ (by simp) (by simp)) fun _ =>
      Keeps.bind (ttyUnlink_modifies sys r _ (by simp) (by simp)) fun _ =>
      updTty_modifies (.inl (by simp)) (.inl (by simp)) : Keeps (Modifies _) _) h
  rw [hm.openFds_eq (by simp), hf₃]

/-- The world after `n` more calls. -/
def calledBy (n : Nat) (w : World) : World := { w with kern.calls := w.kern.calls + n }

lemma acquire_ok {fd : Option Fd} (h : acquire sys w = .ok fd w') :
    (sys.fails w.kern.calls = true ∧ fd = none ∧ w' = called w) ∨
      (sys.fails w.kern.calls = false ∧ fd = some w.kern.nextFd ∧
        w' = { called w with kern.fds := w.kern.nextFd :: w.kern.fds, kern.nextFd := w.kern.nextFd + 1 }) := by
  obtain ⟨k, w₁, hcall, h⟩ := bind_eq_ok.mp h
  obtain ⟨rfl, rfl⟩ := call_ok hcall
  by_cases hfail : sys.fails w.kern.calls = true
  · rw [if_pos hfail] at h
    obtain ⟨rfl, rfl⟩ := pure_eq_ok.mp h
    exact .inl ⟨hfail, rfl, rfl⟩
  · rw [if_neg hfail] at h
    obtain ⟨fd', w₂, hopen, h⟩ := bind_eq_ok.mp h
    obtain ⟨rfl, rfl⟩ := openFd_ok hopen
    obtain ⟨rfl, rfl⟩ := pure_eq_ok.mp h
    exact .inr ⟨by simpa using hfail, rfl, rfl⟩

/-! ## How far a creation gets -/

/-- The names a tty has, in the order in which they are tested and linked. -/
def ttyNames (this : Tty) : List CStr :=
  this.link.toList ++ (this.extralink1.src.toList ++ this.extralink2.src.toList)

/-- None of the names passes for taken when the tests start at call `k`. -/
def NamesPass (sys : Sys) (names : CStr → Option Node) (k : Nat) (ns : List CStr) : Prop :=
  ∀ e ∈ ns.zipIdx k, e.1 = [] ∨ names (sys.resolve e.1) = none ∨ sys.fails e.2 = true

/-- All the names can be linked one after the other from call `k` on. -/
def Linkable (sys : Sys) (names : CStr → Option Node) (k : Nat) (ns : List CStr) : Prop :=
  (∀ e ∈ ns.zipIdx k, e.1 ≠ [] ∧ names (sys.resolve e.1) = none ∧ sys.fails e.2 = false) ∧
    (ns.map sys.resolve).Nodup

instance (sys : Sys) (names : CStr → Option Node) (k : Nat) (ns : List CStr) :
    Decidable (NamesPass sys names k ns) :=
  inferInstanceAs (Decidable (∀ e ∈ ns.zipIdx k, _ ∨ _ ∨ _))

instance (sys : Sys) (names : CStr → Option Node) (k : Nat) (ns : List CStr) :
    Decidable (Linkable sys names k ns) :=
  inferInstanceAs (Decidable ((∀ e ∈ ns.zipIdx k, _ ∧ _ ∧ _) ∧ _))

/-- A creation of `r` now gets as far as the opening of the sub side. -/
def OpensSub (sys : Sys) (w : World) (r : TtyRef) : Prop :=
  let ns := ttyNames (w.ttys r)
  let k := w.kern.calls
  NamesPass sys w.kern.names k ns ∧ sys.fails (k + ns.length) = false ∧
    sys.fails (k + ns.length + 1) = false

/-- What comes after the opening of the sub side succeeds: the links, the inotify descriptor and
its watch. -/
def Completes (sys : Sys) (w : World) (r : TtyRef) : Prop :=
  let ns := ttyNames (w.ttys r)
  let k := w.kern.calls + ns.length + 2
  Linkable sys w.kern.names k ns ∧ sys.fails (k + ns.length) = false ∧
    sys.fails (k + ns.length + 1) = false

instance (sys : Sys) (w : World) (r : TtyRef) : Decidable (OpensSub sys w r) :=
  inferInstanceAs (Decidable (_ ∧ _ ∧ _))

instance (sys : Sys) (w : World) (r : TtyRef) : Decidable (Completes sys w r) :=
  inferInstanceAs (Decidable (_ ∧ _ ∧ _))

lemma access_ok {path : CStr} {b : Bool} (h : access sys path w = .ok b w') : w' = called w ∧
    b = (!path.isEmpty && (w.kern.names (sys.resolve path)).isSome && !sys.fails w.kern.calls) := by
  obtain ⟨k, w₁, hcall, h⟩ := bind_eq_ok.mp h
  obtain ⟨rfl, rfl⟩ := call_ok hcall
  replace h := get_bind_eq_ok.mp h
  obtain ⟨rfl, rfl⟩ := pure_eq_ok.mp h
  exact ⟨rfl, rfl⟩

lemma ttyNameTaken_ok {name : Option CStr} (h : ttyNameTaken sys name w = .ok false w') :
    w' = calledBy name.toList.length w ∧
      NamesPass sys w.kern.names w.kern.calls name.toList := by
  cases name with
  | none =>
    obtain ⟨-, rfl⟩ := pure_eq_ok.mp h
    exact ⟨rfl, by simp [NamesPass]⟩
  | some path =>
    obtain ⟨hw, hb⟩ := access_ok h
    refine ⟨hw, ?_⟩
    simp only [NamesPass, Option.toList_some, List.zipIdx_singleton, List.mem_singleton,
      forall_eq]
    by_contra hcon
    simp only [not_or, Bool.not_eq_true] at hcon
    obtain ⟨hne, hfree, hok⟩ := hcon
    rw [hok, Option.isSome_iff_ne_none.mpr hfree, List.isEmpty_eq_false_iff.mpr hne] at hb
    cases hb

lemma NamesPass.append {names : CStr → Option Node} {k : Nat} {ns ns' : List CStr}
    (h : NamesPass sys names k ns) (h' : NamesPass sys names (k + ns.length) ns') :
    NamesPass sys names k (ns ++ ns') := by
  intro e he
  rw [List.zipIdx_append, List.mem_append] at he
  rcases he with he | he
  · exact h e he
  · exact h' e he

lemma ttyNamesTaken_ok {this : Tty} (h : ttyNamesTaken sys this w = .ok false w') :
    w' = calledBy (ttyNames this).length w ∧
      NamesPass sys w.kern.names w.kern.calls (ttyNames this) := by
  obtain ⟨b₁, w₁, h₁, h⟩ := bind_eq_ok.mp h
  cases b₁ with
  | true => cases (pure_eq_ok.mp h).1
  | false =>
    obtain ⟨b₂, w₂, h₂, h⟩ := bind_eq_ok.mp h
    cases b₂ with
    | true => cases (pure_eq_ok.mp h).1
    | false =>
      obtain ⟨rfl, hp₁⟩ := ttyNameTaken_ok h₁
      obtain ⟨rfl, hp₂⟩ := ttyNameTaken_ok h₂
      obtain ⟨rfl, hp₃⟩ := ttyNameTaken_ok h
      refine ⟨?_, hp₁.append (hp₂.append hp₃)⟩
      simp only [calledBy, ttyNames, List.length_append, Nat.add_assoc]

/-! ## Links -/

lemma symlink_cases {path : CStr} {b : Bool} (h : symlink sys r path w = .ok b w') :
    (b = false ∧ w' = called w ∧ (path = [] ∨ w.kern.names (sys.resolve path) ≠ none ∨
      sys.fails w.kern.calls = true)) ∨
    (b = true ∧ path ≠ [] ∧ w.kern.names (sys.resolve path) = none ∧
      w' = { called w with
        kern.names := Function.update w.kern.names (sys.resolve path) (some (.sym r))
        trace := .symlink r path :: w.trace }) := by
  obtain ⟨k, w₁, hcall, h⟩ := bind_eq_ok.mp h
  obtain ⟨rfl, rfl⟩ := call_ok hcall
  replace h := get_bind_eq_ok.mp h
  by_cases hno : (path.isEmpty || ((called w).kern.names (sys.resolve path)).isSome ||
      sys.fails w.kern.calls) = true
  · rw [if_pos hno] at h
    obtain ⟨rfl, rfl⟩ := pure_eq_ok.mp h
    simp only [Bool.or_eq_true, List.isEmpty_iff, Option.isSome_iff_ne_none, or_assoc] at hno
    exact .inl ⟨rfl, rfl, hno⟩
  · rw [if_neg hno] at h
    replace h := modify_bind_eq_ok.mp h
    replace h := modify_bind_eq_ok.mp h
    obtain ⟨rfl, rfl⟩ := pure_eq_ok.mp h
    simp only [Bool.or_eq_true, List.isEmpty_iff, Option.isSome_iff_ne_none, not_or, not_not] at hno
    exact .inr ⟨rfl, hno.1.1, hno.1.2, rfl⟩

/-- The link of the first name leaves the others as they were. -/
lemma Linkable.tail {names : CStr → Option Node} {k : Nat} {p : CStr} {ps : List CStr} {n : Option Node}
    (h : Linkable sys names k (p :: ps)) :
    Linkable sys (Function.update names (sys.resolve p) n) (k + 1) ps := by
  obtain ⟨hall, hnodup⟩ := h
  rw [List.map_cons, List.nodup_cons] at hnodup
  refine ⟨fun e he => ?_, hnodup.2⟩
  obtain ⟨hne, hfree, hok⟩ := hall e (by simp [he])
  have hmem : sys.resolve e.1 ∈ ps.map sys.resolve :=
    List.mem_map_of_mem (List.fst_mem_of_mem_zipIdx he)
  have hother : sys.resolve e.1 ≠ sys.resolve p := by
    intro heq
    exact hnodup.1 (heq ▸ hmem)
  refine ⟨hne, ?_, hok⟩
  rw [Function.update_of_ne hother, hfree]

lemma ttySymlink_ok {name : Option CStr} {ns : List CStr} {b : Bool}
    (hl : Linkable sys w.kern.names w.kern.calls (name.toList ++ ns))
    (h : ttySymlink sys r name w = .ok b w') : b = true ∧
      w'.kern.calls = w.kern.calls + name.toList.length ∧
      Linkable sys w'.kern.names w'.kern.calls ns := by
  cases name with
  | none =>
    obtain ⟨rfl, rfl⟩ := pure_eq_ok.mp h
    exact ⟨rfl, rfl, hl⟩
  | some path =>
    obtain ⟨hne, hfree, hok⟩ := hl.1 (path, w.kern.calls) (by simp)
    rcases symlink_cases h with ⟨-, -, hp | hp | hp⟩ | ⟨rfl, -, -, rfl⟩
    · exact (hne hp).elim
    · exact (hp hfree).elim
    · rw [hok] at hp
      cases hp
    · exact ⟨rfl, rfl, hl.tail⟩

lemma ttyLinks_ok {this : Tty} {b : Bool}
    (hl : Linkable sys w.kern.names w.kern.calls (ttyNames this))
    (h : ttyLinks sys r this w = .ok b w') : b = true ∧
      w'.kern.calls = w.kern.calls + (ttyNames this).length := by
  obtain ⟨b₁, w₁, h₁, h⟩ := bind_eq_ok.mp h
  obtain ⟨rfl, hc₁, hl₁⟩ := ttySymlink_ok hl h₁
  obtain ⟨-, h⟩ := require_bind_eq_ok.mp h
  obtain ⟨b₂, w₂, h₂, h⟩ := bind_eq_ok.mp h
  obtain ⟨rfl, hc₂, hl₂⟩ := ttySymlink_ok hl₁ h₂
  obtain ⟨-, h⟩ := require_bind_eq_ok.mp h
  rw [← List.append_nil this.extralink2.src.toList] at hl₂
  obtain ⟨rfl, hc₃, -⟩ := ttySymlink_ok hl₂ h
  refine ⟨rfl, ?_⟩
  rw [hc₃, hc₂, hc₁, ttyNames, List.length_append, List.length_append]
  omega

/-! ## The whole creation -/

/-- Nothing that a creation of `r` opens now gets lost. -/
def KeepsSub (sys : Sys) (w : World) (r : TtyRef) : Prop :=
  OpensSub sys w r → Completes sys w r

instance (sys : Sys) (w : World) (r : TtyRef) : Decidable (KeepsSub sys w r) :=
  inferInstanceAs (Decidable (_ → _))

lemma ttyWatch_ok {b : Bool} (h : ttyWatch sys r w = .ok b w') :
    (w'.ttys r).dfd = (w.ttys r).dfd ∧ (w'.ttys r).sfd = (w.ttys r).sfd ∧
      ((w.ttys r).ifd = none → openFds w' = (w'.ttys r).ifd.toList + openFds w) ∧
      (sys.fails w.kern.calls = false → sys.fails (w.kern.calls + 1) = false → b = true) := by
  obtain ⟨ifd, w₁, hacq, h⟩ := bind_eq_ok.mp h
  rcases acquire_ok hacq with ⟨hfail, rfl, rfl⟩ | ⟨-, rfl, rfl⟩
  · obtain ⟨rfl, rfl⟩ := pure_eq_ok.mp h
    refine ⟨rfl, rfl, fun hifd => ?_, fun hok => ?_⟩
    · rw [called_ttys, hifd]
      simp [openFds, called]
    · rw [hfail] at hok
      cases hok
  · replace h := modify_bind_eq_ok.mp h
    obtain ⟨k, w₂, hcall, h⟩ := bind_eq_ok.mp h
    obtain ⟨rfl, rfl⟩ := call_ok hcall
    split at h
    case isTrue hfail =>
      obtain ⟨rfl, rfl⟩ := pure_eq_ok.mp h
      refine ⟨by simp [World.updTty], by simp [World.updTty], fun _ => ?_, fun _ hok => ?_⟩
      · simp [openFds, called, World.updTty]
      · cases hok.symm.trans hfail
    case isFalse hok =>
      replace h := modify_bind_eq_ok.mp h
      obtain ⟨rfl, rfl⟩ := pure_eq_ok.mp h
      refine ⟨by simp [World.updTty], by simp [World.updTty], fun _ => ?_, fun _ _ => rfl⟩
      simp [openFds, called, World.updTty]

/-- The part of `ttyBuild` in which the sub side is only held in a local variable. -/
lemma ttyBuild_rest {this : Tty} {sfd : Fd} {b : Bool}
    (h : (do
      if !(← ttyLinks sys r this) then return false
      else if !(← ttyWatch sys r) then return false
      else do
        updTty r fun this => { this with sfd := some sfd, rbytes := 0, wbytes := 0, opens := 0 }
        return true : Act Bool) w = .ok b w')
    (hifd : (w.ttys r).ifd = none) (hf : openFds w = (w.ttys r).dfd.toList + ({sfd} + rest))
    (hkeep : b = false → Linkable sys w.kern.names w.kern.calls (ttyNames this) ∧
      sys.fails (w.kern.calls + (ttyNames this).length) = false ∧
      sys.fails (w.kern.calls + (ttyNames this).length + 1) = false) :
    openFds w' = ttyFds (w'.ttys r) + rest := by
  obtain ⟨linked, w₁, hlinks, h⟩ := bind_eq_ok.mp h
  have hm : Modifies {.names, .oLink} w w₁ := ttyLinks_modifies sys r this (by simp) (by simp) hlinks
  have htty := hm.same (.tty r) (by simp)
  simp only [SameOn, ttyStatic, Prod.mk.injEq] at htty
  obtain ⟨-, -, -, hdfd₁, -, hifd₁, -⟩ := htty
  cases linked with
  | false =>
    obtain ⟨rfl, rfl⟩ := pure_eq_ok.mp h
    cases (ttyLinks_ok (hkeep rfl).1 hlinks).1
  | true =>
    obtain ⟨watched, w₂, hwatch, h⟩ := bind_eq_ok.mp h
    obtain ⟨hdfd₂, -, hfds, htrue⟩ := ttyWatch_ok hwatch
    cases watched with
    | false =>
      obtain ⟨rfl, rfl⟩ := pure_eq_ok.mp h
      obtain ⟨hl, hok₁, hok₂⟩ := hkeep rfl
      rw [(ttyLinks_ok hl hlinks).2] at htrue
      cases htrue hok₁ hok₂
    | true =>
      replace h := modify_bind_eq_ok.mp h
      obtain ⟨rfl, rfl⟩ := pure_eq_ok.mp h
      have htty' : ttyFds ((w₂.updTty r fun this =>
          { this with sfd := some sfd, rbytes := 0, wbytes := 0, opens := 0 }).ttys r) =
          (w₂.ttys r).ifd.toList + ((w.ttys r).dfd.toList + {sfd}) := by
        rw [← hdfd₁, ← hdfd₂]
        simp [ttyFds, World.updTty]
      have hopen : openFds w₂ = (w₂.ttys r).ifd.toList + openFds w := by
        rw [← hm.openFds_eq (by simp)]
        exact hfds (hifd₁.trans hifd)
      rw [htty']
      refine hopen.trans ?_
      rw [hf]
      simp only [add_assoc]

lemma ttyBuild_fds {b : Bool} (h : ttyBuild sys r w = .ok b w') (hn : NoFds (w.ttys r))
    (hkeep : b = false → KeepsSub sys w r) : openFds w' = ttyFds (w'.ttys r) + openFds w := by
  obtain ⟨-, h⟩ := require_bind_eq_ok.mp (get_bind_eq_ok.mp h)
  obtain ⟨taken, w₁, htaken, h⟩ := bind_eq_ok.mp h
  cases taken with
  | true =>
    obtain ⟨rfl, rfl⟩ := pure_eq_ok.mp h
    have hm : Modifies ∅ w w' := ttyNamesTaken_modifies sys _ htaken
    rw [hm.openFds_eq (by simp), hm.ttyFds_eq (by simp), hn.ttyFds_eq, zero_add]
  | false =>
    obtain ⟨rfl, hpass⟩ := ttyNamesTaken_ok htaken
    obtain ⟨dfd, w₂, hdfd, h⟩ := bind_eq_ok.mp h
    rcases acquire_ok hdfd with ⟨-, rfl, rfl⟩ | ⟨hok₁, rfl, rfl⟩
    · obtain ⟨rfl, rfl⟩ := pure_eq_ok.mp h
      have hnone : ttyFds ((called (calledBy (ttyNames (w.ttys r)).length w)).ttys r) = 0 :=
        hn.ttyFds_eq
      rw [hnone, zero_add]
      rfl
    · replace h := modify_bind_eq_ok.mp h
      replace h := modify_bind_eq_ok.mp h
      obtain ⟨sfd, w₃, hsfd, h⟩ := bind_eq_ok.mp h
      rcases acquire_ok hsfd with ⟨-, rfl, rfl⟩ | ⟨hok₂, rfl, rfl⟩
      · obtain ⟨rfl, rfl⟩ := pure_eq_ok.mp h
        simp [openFds, ttyFds, called, calledBy, World.updTty, World.updPort, hn.sfd, hn.ifd]
      · -- the sub side is open
        refine ttyBuild_rest h ?_ ?_ fun hb => ?_
        · simpa [World.updTty, World.updPort, calledBy] using hn.ifd
        · simp only [openFds, World.updTty, World.updPort, called, calledBy, Function.update_self,
            Option.toList_some, Multiset.singleton_add, ← Multiset.cons_coe]
          exact Multiset.cons_swap _ _ _
        · exact hkeep hb ⟨hpass, hok₁, hok₂⟩

/-- A creation opens the descriptors it records, and none when it fails. -/
lemma ttyCreate_fds {b : Bool} (h : ttyCreate sys r w = .ok b w') (hn : NoFds (w.ttys r))
    (hkeep : b = false → KeepsSub sys w r) : openFds w' = ttyFds (w'.ttys r) + openFds w := by
  obtain ⟨built, w₁, hbuild, hrest⟩ := bind_eq_ok.mp h
  cases built with
  | true =>
    obtain ⟨rfl, rfl⟩ := pure_eq_ok.mp hrest
    exact ttyBuild_fds hbuild hn hkeep
  | false =>
    obtain ⟨_, w₂, hclean, hrest⟩ := bind_eq_ok.mp hrest
    obtain ⟨rfl, rfl⟩ := pure_eq_ok.mp hrest
    rw [ttyCleanup_tty hclean, noFds_default.ttyFds_eq, zero_add]
    exact ttyCleanup_fds hclean (ttyBuild_fds hbuild hn hkeep)

lemma clearCmd_fds {u : Unit} (h : clearCmd sys id w = .ok u w')
    (hf : openFds w = ttyFds (w.ttys (.cmd id)) + (ttyFds (w.ttys (.clt id)) + rest)) :
    openFds w' = rest := by
  obtain ⟨_, w₁, hcmd, h⟩ := bind_eq_ok.mp h
  obtain ⟨_, w₂, hclt, h⟩ := bind_eq_ok.mp h
  have hm : Modifies (ttyParts (.cmd id)) w w₁ := ttyCleanup_modifies sys subset_rfl hcmd
  have hf₁ : openFds w₁ = ttyFds (w₁.ttys (.clt id)) + rest := by
    rw [hm.ttyFds_eq (by simp [ttyParts])]
    exact ttyCleanup_fds hcmd hf
  have hw : openFds w' = openFds w₂ := by
    rw [modify_eq_ok.mp h]
    rfl
  exact hw.trans (ttyCleanup_fds hclt hf₁)

/-! ## Additions -/

lemma Prepared.openFds_eq {w₁ : World} (h : Prepared w w₁ id) : openFds w₁ = openFds w :=
  h.modifies.openFds_eq (by simp [initParts])

/-- An addition opens the descriptors of the new command, and none when it fails. -/
lemma GBLSAddCmd_fds {cstr : CStr} {res : Option CmdId} (h : GBLSAddCmd sys cstr w = .ok res w')
    (hkeep : res = none → ∀ c ∈ addCreates sys cstr w, KeepsSub sys c.2 c.1) :
    (res = none → openFds w' = openFds w) ∧
      ∀ id, res = some id → openFds w' = cmdFds w' id + openFds w := by
  cases GBLSAddCmd_run h with
  | refused hm => exact ⟨fun _ => hm.openFds_eq (by simp), by simp⟩
  | @cltFailed w₁ w₂ _ id hinit hclt hclear =>
    have hp := addInit_prepared hinit
    refine ⟨fun _ => ?_, by simp⟩
    have hm : Modifies (ttyParts (.clt id)) w₁ w₂ := ttyCreate_modifies sys subset_rfl hclt
    refine clearCmd_fds hclear ?_
    rw [(hp.cmd.of_modifies hm (by simp [ttyParts])).ttyFds_eq, zero_add, ← hp.openFds_eq]
    exact ttyCreate_fds hclt hp.clt fun _ => hkeep rfl _ (mem_addCreates_clt hinit)
  | @cmdFailed w₁ w₂ w₃ _ id hinit hclt hcmd hclear =>
    have hp := addInit_prepared hinit
    refine ⟨fun _ => ?_, by simp⟩
    have hm : Modifies (ttyParts (.clt id)) w₁ w₂ := ttyCreate_modifies sys subset_rfl hclt
    have hm' : Modifies (ttyParts (.cmd id)) w₂ w₃ := ttyCreate_modifies sys subset_rfl hcmd
    refine clearCmd_fds hclear ?_
    rw [hm'.ttyFds_eq (r := .clt id) (by simp [ttyParts]), ← hp.openFds_eq,
      ← ttyCreate_fds hclt hp.clt (by simp)]
    exact ttyCreate_fds hcmd (hp.cmd.of_modifies hm (by simp [ttyParts]))
      fun _ => hkeep rfl _ (mem_addCreates_cmd hinit hclt)
  | @added w₁ w₂ w₃ _ id hinit hclt hcmd hm =>
    have hp := addInit_prepared hinit
    refine ⟨by simp, fun id' hid => ?_⟩
    rw [Option.some_inj] at hid
    subst hid
    have hm₂ : Modifies (ttyParts (.clt id)) w₁ w₂ := ttyCreate_modifies sys subset_rfl hclt
    have hm₃ : Modifies (ttyParts (.cmd id)) w₂ w₃ := ttyCreate_modifies sys subset_rfl hcmd
    have hpidfd : (w'.heap id).pidfd = none := by
      rw [hm.pidfd_eq (by simp), hm₃.pidfd_eq (by simp [ttyParts]), hm₂.pidfd_eq (by simp [ttyParts])]
      exact hp.pidfd
    rw [hm.openFds_eq (by simp), cmdFds, hpidfd, hm.ttyFds_eq (by simp), hm.ttyFds_eq (by simp),
      ttyCreate_fds hcmd (hp.cmd.of_modifies hm₂ (by simp [ttyParts])) (by simp),
      ttyCreate_fds hclt hp.clt (by simp), hp.openFds_eq, hm₃.ttyFds_eq (r := .clt id) (by simp [ttyParts])]
    simp only [Option.toList_none, Multiset.coe_nil, add_zero, add_assoc]

/-! ## The account -/

/-- What is open is what is recorded, besides the signalfd and the fuse descriptor. A monitor or
broadcast tty that has not been created records nothing. -/
structure FdInv (w : World) : Prop where
  recorded : openFds w = recordedFds w + {0, 1}
  ok : FdsOk w.kern
  idle : ∀ r, r = .mon ∨ r = .bcst → (w.ttys r).link = none ∨ (w.ttys r).dfd = none →
    NoFds (w.ttys r)

lemma cmdFds_congr (hcmd : ttyFds (w'.ttys (.cmd id)) = ttyFds (w.ttys (.cmd id)))
    (hclt : ttyFds (w'.ttys (.clt id)) = ttyFds (w.ttys (.clt id)))
    (hpidfd : (w'.heap id).pidfd = (w.heap id).pidfd) : cmdFds w' id = cmdFds w id := by
  rw [cmdFds, hcmd, hclt, hpidfd, cmdFds]

lemma Modifies.cmdFds_eq (hm : Modifies S w w') (hcmd : .tty (.cmd id) ∉ S) (hclt : .tty (.clt id) ∉ S)
    (hproc : .proc id ∉ S) : cmdFds w' id = cmdFds w id :=
  cmdFds_congr (hm.ttyFds_eq hcmd) (hm.ttyFds_eq hclt) (hm.pidfd_eq hproc)

/-- The commands but for one. -/
lemma recordedFds_eq (hid : id ∈ w.gbls.cmds) : recordedFds w = cmdFds w id +
    (ttyFds (w.ttys .mon) + ttyFds (w.ttys .bcst) + ((w.gbls.cmds.erase id).map (cmdFds w)).sum) := by
  rw [recordedFds, ← List.sum_map_erase (cmdFds w) hid]
  exact add_left_comm _ _ _

lemma FdInv.idle_frame (h : FdInv w) (hm : Modifies S w w') (hmon : .tty .mon ∉ S)
    (hbcst : .tty .bcst ∉ S) {r : TtyRef} (hr : r = .mon ∨ r = .bcst)
    (hn : (w'.ttys r).link = none ∨ (w'.ttys r).dfd = none) : NoFds (w'.ttys r) := by
  have hnot : .tty r ∉ S := by rcases hr with rfl | rfl <;> assumption
  have htty := hm.same _ hnot
  simp only [SameOn, ttyStatic, Prod.mk.injEq] at htty
  rw [htty.1, htty.2.2.2.1] at hn
  exact (h.idle r hr hn).of_modifies hm hnot

/-- A step that opens and closes nothing. -/
lemma FdInv.frame (h : FdInv w) (hm : Modifies S w w') (ho : openFds w' = openFds w)
    (hok : FdsOk w'.kern) (ht : .table ∉ S) (htty : ∀ r, .tty r ∉ S) (hp : ∀ id, .proc id ∉ S) :
    FdInv w' := by
  refine ⟨?_, hok, fun r hr hn => h.idle_frame hm (htty _) (htty _) hr hn⟩
  have hcmds : ∀ id ∈ w.gbls.cmds, cmdFds w' id = cmdFds w id := fun id _ =>
    hm.cmdFds_eq (htty _) (htty _) (hp _)
  rw [ho, h.recorded, recordedFds, recordedFds, hm.cmds_eq ht, hm.ttyFds_eq (htty _),
    hm.ttyFds_eq (htty _), List.map_congr_left hcmds]

/-- A step that only changes what one command of the table records. -/
lemma FdInv.frame_but (h : FdInv w) (ht : TableInv w) (hid : id ∈ w.gbls.cmds) (hm : Modifies S w w')
    (hok : FdsOk w'.kern) (hS : .table ∉ S) (htty : ∀ r, .tty r ∉ S) (hp : ∀ j, j ≠ id → .proc j ∉ S)
    (ho : ∀ rest, openFds w = cmdFds w id + rest → openFds w' = cmdFds w' id + rest) : FdInv w' := by
  refine ⟨?_, hok, fun r hr hn => h.idle_frame hm (htty _) (htty _) hr hn⟩
  have hothers : ∀ j ∈ w.gbls.cmds.erase id, cmdFds w' j = cmdFds w j := fun j hj =>
    hm.cmdFds_eq (htty _) (htty _) (hp _ fun heq => ht.nodup.not_mem_erase (heq ▸ hj))
  have hid' : id ∈ w'.gbls.cmds := hm.cmds_eq hS ▸ hid
  rw [recordedFds_eq hid', hm.cmds_eq hS, List.map_congr_left hothers, hm.ttyFds_eq (htty _),
    hm.ttyFds_eq (htty _), add_assoc]
  refine ho _ ?_
  rw [h.recorded, recordedFds_eq hid, add_assoc]

/-! ## Starts, stops and removals -/

lemma Forked.fdInv {d : Double} (hf : Forked sys w w' id d) (ht : TableInv w)
    (hc : Children w.gbls.cmds w) (hid : id ∈ w.gbls.cmds) (h : FdInv w) : FdInv w' := by
  have hok : FdsOk w'.kern := by
    have hopen := h.ok.openFd
    exact ⟨hf.fds ▸ hopen.nodup, hf.fds ▸ hf.nextFd ▸ hopen.lt⟩
  refine h.frame_but ht hid hf.modifies hok (by simp [forkParts]) (by simp [forkParts])
    (fun j hj => by simp [forkParts, hj]) fun rest ho => ?_
  have hnone : (w.heap id).pidfd = none := hc.pidfd_none hid hf.stopped
  have hopen : openFds w' = {w.kern.nextFd} + openFds w := by
    rw [openFds, hf.fds]
    rfl
  rw [hopen, ho, cmdFds, cmdFds, hnone, hf.pidfd, hf.modifies.ttyFds_eq (r := .cmd id) (by simp [forkParts]),
    hf.modifies.ttyFds_eq (r := .clt id) (by simp [forkParts])]
  simp only [Option.toList_none, Option.toList_some, Multiset.coe_nil, add_zero, Multiset.coe_singleton]
  rw [← add_assoc]
  exact congrArg (· + rest) (add_comm _ _)

/-- The stop closes the pidfd. -/
lemma Terminated.openFds_eq {epoll : Bool} (ht : Terminated w w' id epoll)
    (ho : openFds w = (w.heap id).pidfd.toList + rest) : openFds w' = rest := by
  obtain ⟨fd, hfd, hfds⟩ := ht.fds
  have herase : openFds w' = (openFds w).erase fd := by
    rw [openFds, hfds]
    exact (Multiset.coe_erase w.kern.fds fd).symm
  rw [herase, ho, hfd, Option.toList_some, Multiset.coe_singleton, Multiset.singleton_add,
    Multiset.erase_cons_head]

lemma Terminated.fdInv {epoll : Bool} (hs : Terminated w w' id epoll) (ht : TableInv w)
    (hid : id ∈ w.gbls.cmds) (h : FdInv w) : FdInv w' := by
  refine h.frame_but ht hid hs.modifies (hs.gone.fds h.ok) (by simp [startParts]) (by simp [startParts])
    (fun j hj => by simp [startParts, hj]) fun rest ho => ?_
  rw [cmdFds, hs.pidfd, hs.modifies.ttyFds_eq (r := .cmd id) (by simp [startParts]),
    hs.modifies.ttyFds_eq (r := .clt id) (by simp [startParts]), Option.toList_none, Multiset.coe_nil,
    add_zero]
  refine hs.openFds_eq ?_
  rw [ho, cmdFds, add_comm _ (((w.heap id).pidfd.toList : List Fd) : Multiset Fd), add_assoc]

/-- An exit that is handled leaves a pidfd open that nothing records any more. -/
lemma Reaped.leaks {fd : Fd} (hr : Reaped w w' id) (ht : TableInv w) (hid : id ∈ w.gbls.cmds)
    (hfd : (w.heap id).pidfd = some fd) (h : openFds w = recordedFds w + rest) :
    openFds w' = recordedFds w' + ({fd} + rest) := by
  have hm := hr.modifies
  have hcmds := hr.cmds_eq
  have hothers : ∀ j ∈ w.gbls.cmds.erase id, cmdFds w' j = cmdFds w j := fun j hj => by
    have hne : j ≠ id := fun heq => ht.nodup.not_mem_erase (heq ▸ hj)
    exact hm.cmdFds_eq (by simp [startParts]) (by simp [startParts]) (by simp [startParts, hne])
  have hold : cmdFds w id = cmdFds w' id + {fd} := by
    rw [cmdFds, cmdFds, hfd, hr.pidfd, hm.ttyFds_eq (r := .cmd id) (by simp [startParts]),
      hm.ttyFds_eq (r := .clt id) (by simp [startParts])]
    simp
  have hopen : openFds w' = openFds w := by rw [openFds, hr.fds, openFds]
  rw [hopen, h, recordedFds_eq hid, recordedFds_eq (hcmds ▸ hid : id ∈ w'.gbls.cmds), hcmds,
    List.map_congr_left hothers, hm.ttyFds_eq (r := .mon) (by simp [startParts]),
    hm.ttyFds_eq (r := .bcst) (by simp [startParts]), hold]
  simp only [add_assoc, add_left_comm {fd}]

/-- The cleanup of a command closes what the command records. -/
lemma cmdCleanup_fds {u : Unit} (h : cmdCleanup sys id w = .ok u w') (hid : id ∈ w.gbls.cmds)
    (hc : Children w.gbls.cmds w) (ho : openFds w = cmdFds w id + rest) : openFds w' = rest := by
  obtain ⟨_, w₁, hstop, hclear⟩ := bind_eq_ok.mp h
  obtain ⟨b, hstop⟩ := discard_eq_ok.mp hstop
  have hm : Modifies (procParts id) w w₁ := cmdStop_modifies sys false true subset_rfl hstop
  refine clearCmd_fds hclear ?_
  rw [hm.ttyFds_eq (r := .cmd id) (by simp [procParts, startParts]),
    hm.ttyFds_eq (r := .clt id) (by simp [procParts, startParts])]
  have ho' : openFds w = (w.heap id).pidfd.toList +
      (ttyFds (w.ttys (.cmd id)) + (ttyFds (w.ttys (.clt id)) + rest)) := by
    rw [ho, cmdFds, add_comm _ (((w.heap id).pidfd.toList : List Fd) : Multiset Fd), add_assoc, add_assoc]
  rcases cmdStop_cases hstop with ⟨hpid, rfl⟩ | ⟨-, hforce, -⟩ | ⟨-, -, w₂, hsend, hterm⟩
  · rw [ho', hc.pidfd_none hid hpid]
    simp
  · cases hforce
  · have hm₂ : Modifies {.lastwrite id, .oWrite (.cmd id)} w w₂ :=
      cmdSendStopstr_modifies sys (by simp) (by simp) hsend
    refine (cmdTerminate_ok hterm).openFds_eq ?_
    rw [hm₂.openFds_eq (by simp), hm₂.pidfd_eq (by simp), ho']

/-- What one removal or addition leaves to the other objects. -/
lemma FdInv.others (ids : List CmdId) (h : FdInv w) (hm : Modifies S w w') (hmon : .tty .mon ∉ S)
    (hbcst : .tty .bcst ∉ S) (hS : ∀ j ∈ ids, .tty (.cmd j) ∉ S ∧ .tty (.clt j) ∉ S ∧ .proc j ∉ S) :
    ttyFds (w'.ttys .mon) + ttyFds (w'.ttys .bcst) + (ids.map (cmdFds w')).sum =
        ttyFds (w.ttys .mon) + ttyFds (w.ttys .bcst) + (ids.map (cmdFds w)).sum ∧
      ∀ r, r = .mon ∨ r = .bcst → (w'.ttys r).link = none ∨ (w'.ttys r).dfd = none →
        NoFds (w'.ttys r) := by
  have hids : ∀ j ∈ ids, cmdFds w' j = cmdFds w j := fun j hj =>
    hm.cmdFds_eq (hS j hj).1 (hS j hj).2.1 (hS j hj).2.2
  refine ⟨?_, fun r hr hn => h.idle_frame hm hmon hbcst hr hn⟩
  rw [hm.ttyFds_eq hmon, hm.ttyFds_eq hbcst, List.map_congr_left hids]

lemma cmdCleanup_fdsOk : Preserves (fun w => FdsOk w.kern) (cmdCleanup sys id) := by
  refine Keeps.bind (Keeps.discard ?_) fun _ => (cmdClear_fdStep sys id).mono fun _ _ h => h.fds
  intro w b w' h hok
  rcases cmdStop_cases h with ⟨-, rfl⟩ | ⟨-, hforce, -⟩ | ⟨-, -, w₁, hsend, hterm⟩
  · exact hok
  · cases hforce
  · have hm : Modifies {.lastwrite id, .oWrite (.cmd id)} w w₁ :=
      cmdSendStopstr_modifies sys (by simp) (by simp) hsend
    exact (cmdTerminate_ok hterm).gone.fds
      ((FdStep.of_kernProc (hm.kernProc_eq (by simp))).fds hok)

lemma remove_fdInv (hr : (do cmdCleanup sys id; hashDel id) w = .ok () w') (ht : TableInv w)
    (hc : Children w.gbls.cmds w) (hid : id ∈ w.gbls.cmds) (h : FdInv w) : FdInv w' := by
  obtain ⟨hm, hcmds⟩ := remove_ok hr
  obtain ⟨_, w₁, hclean, hdel⟩ := bind_eq_ok.mp hr
  have hopen : openFds w' = openFds w₁ := by
    rw [hashDel_ok hdel]
    rfl
  have hok : FdsOk w'.kern := by
    have hok₁ : FdsOk w₁.kern := cmdCleanup_fdsOk hclean h.ok
    rw [hashDel_ok hdel]
    exact hok₁
  have hne {j : CmdId} (hj : j ∈ w.gbls.cmds.erase id) : j ≠ id := fun heq =>
    ht.nodup.not_mem_erase (heq ▸ hj)
  obtain ⟨hsum, hidle⟩ := h.others (w.gbls.cmds.erase id) hm
    (by simp [removeParts, cleanupParts, procParts, startParts, cmdParts, ttyParts])
    (by simp [removeParts, cleanupParts, procParts, startParts, cmdParts, ttyParts])
    fun j hj => by
      simp [removeParts, cleanupParts, procParts, startParts, cmdParts, ttyParts, hne hj]
  refine ⟨?_, hok, hidle⟩
  have herase : w'.gbls.cmds = w.gbls.cmds.erase id := by
    rw [hcmds, ht.nodup.erase_eq_filter]
    refine List.filter_congr fun j _ => ?_
    by_cases hj : j = id <;> simp [hj]
  rw [recordedFds, herase, hsum, hopen]
  refine cmdCleanup_fds hclean hid hc ?_
  rw [h.recorded, recordedFds_eq hid, add_assoc]

lemma GBLSAddCmd_fdInv {cstr : CStr} {res : Option CmdId} (ha : GBLSAddCmd sys cstr w = .ok res w')
    (ht : TableInv w) (hkeep : res = none → ∀ c ∈ addCreates sys cstr w, KeepsSub sys c.2 c.1)
    (h : FdInv w) : FdInv w' := by
  have hne {j : CmdId} (hj : j ∈ w.gbls.cmds) : j ≠ w.brk := (ht.lt_brk j hj).ne
  obtain ⟨hnone, hsome⟩ := GBLSAddCmd_fds ha hkeep
  rcases GBLSAddCmd_cases ha with ⟨rfl, hn⟩ | ⟨id, spec, rfl, hadd⟩
  · obtain ⟨hsum, hidle⟩ := h.others w.gbls.cmds hn.modifies
      (by simp [cmdParts, ttyParts]) (by simp [cmdParts, ttyParts]) fun j hj => by
        simp [cmdParts, ttyParts, hne hj]
    refine ⟨?_, hn.fds.fds h.ok, hidle⟩
    rw [hnone rfl, h.recorded, recordedFds, recordedFds,
      hn.modifies.cmds_eq (by simp [cmdParts, ttyParts]), hsum]
  · obtain ⟨hsum, hidle⟩ := h.others w.gbls.cmds hadd.modifies
      (by simp [addParts, cmdParts, ttyParts]) (by simp [addParts, cmdParts, ttyParts]) fun j hj => by
        simp [addParts, cmdParts, ttyParts, hadd.id_eq, hne hj]
    refine ⟨?_, hadd.fds.fds h.ok, hidle⟩
    have hnew : recordedFds w' = cmdFds w' id + recordedFds w := by
      rw [recordedFds, hadd.table, List.map_append, List.sum_append, ← add_assoc, hsum,
        List.map_singleton, List.sum_singleton]
      exact add_comm _ _
    rw [hsome id rfl, h.recorded, hnew, add_assoc]

/-- A creation of the broadcast or the monitor tty. -/
lemma ttyCreate_fdInv {b : Bool} (hr : r = .mon ∨ r = .bcst) (hcreate : ttyCreate sys r w = .ok b w')
    (hn : NoFds (w.ttys r)) (hlink : (w.ttys r).link ≠ none) (hkeep : b = false → KeepsSub sys w r)
    (h : FdInv w) : FdInv w' := by
  have hm : Modifies (ttyParts r) w w' := ttyCreate_modifies sys subset_rfl hcreate
  have hfd : FdStep w w' := ttyCreate_fdStep sys r hcreate
  have hcmds : ∀ id ∈ w.gbls.cmds, cmdFds w' id = cmdFds w id := fun id _ =>
    hm.cmdFds_eq (by rcases hr with rfl | rfl <;> simp [ttyParts])
      (by rcases hr with rfl | rfl <;> simp [ttyParts]) (by simp [ttyParts])
  refine ⟨?_, hfd.fds h.ok, fun q hq hnone => ?_⟩
  · rw [ttyCreate_fds hcreate hn hkeep, h.recorded, recordedFds, recordedFds,
      hm.cmds_eq (by simp [ttyParts]), List.map_congr_left hcmds]
    rcases hr with rfl | rfl
    · rw [hm.ttyFds_eq (r := .bcst) (by simp [ttyParts]), hn.ttyFds_eq]
      simp only [zero_add, add_assoc]
    · rw [hm.ttyFds_eq (r := .mon) (by simp [ttyParts]), hn.ttyFds_eq, add_zero]
      simp only [add_assoc]
      exact add_left_comm _ _ _
  · by_cases hqr : q = r
    · subst hqr
      cases b with
      | false =>
        rw [ttyCreate_failed hcreate]
        exact noFds_default
      | true =>
        have hwhole := (ttyCreate_whole hcreate).2
        rcases hnone with hnone | hnone
        · exact (hlink (hwhole.link ▸ hnone)).elim
        · exact (hwhole.dfd hnone).elim
    · have htty := hm.same (.tty q) (by simp [ttyParts, hqr])
      simp only [SameOn, ttyStatic, Prod.mk.injEq] at htty
      rw [htty.1, htty.2.2.2.1] at hnone
      exact (h.idle q hq hnone).of_modifies hm (by simp [ttyParts, hqr])

/-! ## Runs -/

/-- What a step may not do: handle an exit, which forgets a pidfd without closing it, or come to a
creation that loses the sub side. -/
def KeepsFds (sys : Sys) (w : World) (e : Event) : Prop :=
  (match e with
    | .hdlr (.pidfd _ _) _ => False
    | _ => True) ∧ ∀ c ∈ ttyCreates sys w e, KeepsSub sys c.2 c.1

instance (sys : Sys) (w : World) (e : Event) : Decidable (KeepsFds sys w e) :=
  match e with
  | .hdlr (.pidfd _ _) _ => .isFalse And.left
  | .env _ | .hdlr (.dom _) _ | .hdlr (.ifd _) _ | .hdlr .sig _ | .hdlr .fs _ =>
    inferInstanceAs (Decidable (True ∧ ∀ c ∈ ttyCreates sys w _, _))

/-- The same of the actions a step consists of. -/
def OpKeepsFds (sys : Sys) (w : World) : Op → Prop
  | .add cstr => ∀ c ∈ addCreates sys cstr w, KeepsSub sys c.2 c.1
  | .enable => w.gbls.bcstflg = false → 1 < w.gbls.cmds.length →
      KeepsSub sys { w with gbls.bcstflg := true } .bcst
  | .reap _ => False
  | .remove _ => True

lemma KeepsFds.permits {s : Source} {x : Answer} (h : KeepsFds sys w (.hdlr s x)) :
    Permits sys (OpKeepsFds sys) s x w := by
  obtain ⟨hpid, hkeep⟩ := h
  constructor
  · rintro line cstr rfl hx hl c hc
    refine hkeep c ?_
    simp only [ttyCreates, hx, Option.bind_some, hl]
    exact List.mem_append_left _ hc
  · rintro line cstr id w₁ w₂ rfl hx hl hadd hreg hflg hlen
    refine hkeep (.bcst, _) ?_
    simp only [ttyCreates, hx, Option.bind_some, hl]
    exact List.mem_append_right _ (mem_enableCreates hadd hreg hflg hlen)
  · rintro id fd rfl
    exact hpid
  · intros
    trivial
  · intros
    trivial

lemma ttyRegisterEvents_fds : Keeps (fun w w' => w'.kern.fds = w.kern.fds ∧ w'.kern.nextFd = w.kern.nextFd)
    (ttyRegisterEvents sys r) := by
  intro w u w' h
  obtain ⟨dfd, ifd, -, -, rfl, -⟩ := ttyRegisterEvents_ok h
  exact ⟨rfl, rfl⟩

/-- A registration only tells epoll. -/
lemma FdInv.registered (h : FdInv w) (hm : Modifies {.kproc} w w')
    (hk : w'.kern.fds = w.kern.fds ∧ w'.kern.nextFd = w.kern.nextFd) : FdInv w' := by
  refine h.frame hm ?_ ⟨?_, ?_⟩ (by simp) (by simp) (by simp)
  · rw [openFds, hk.1, openFds]
  · rw [hk.1]
    exact h.ok.nodup
  · rw [hk.1, hk.2]
    exact h.ok.lt

lemma Modifies.fdsOk (hm : Modifies S w w') (hS : .kproc ∉ S) (hok : FdsOk w.kern) : FdsOk w'.kern :=
  (FdStep.of_kernProc (hm.kernProc_eq hS)).fds hok

/-- The broadcast tty has its names before it is turned on. -/
def BcstLinked (w : World) : Prop := w.gbls.bcstflg = false → (w.ttys .bcst).link ≠ none

/-- The broadcast tty is not touched as long as it is turned off. -/
lemma Action.bcst_kept {ok : World → Op → Prop} (ha : Action sys ok w w')
    (hoff : w'.gbls.bcstflg = false) :
    w.gbls.bcstflg = false ∧ ttyStatic (w'.ttys .bcst) = ttyStatic (w.ttys .bcst) := by
  have kept {S : Set Part} (hm : Modifies S w w') (htty : .tty .bcst ∉ S) (hf : .flags ∉ S) :
      w.gbls.bcstflg = false ∧ ttyStatic (w'.ttys .bcst) = ttyStatic (w.ttys .bcst) :=
    ⟨(hm.bcstflg_eq hf).symm.trans hoff, hm.same (.tty .bcst) htty⟩
  cases ha with
  | @quiet S hS hm hflg =>
    have hnot : .tty .bcst ∉ S := fun hp => by cases hS _ hp
    exact ⟨hflg.symm.trans hoff, hm.same (.tty .bcst) hnot⟩
  | notified r mask rest hr hq hw =>
    subst hw
    exact kept (notified_modifies w r mask rest) (by simp) (by simp)
  | start id d hid hf => exact kept hf.modifies (by simp [forkParts]) (by simp [forkParts])
  | stop id hid hs => exact kept hs.modifies (by simp [startParts]) (by simp [startParts])
  | reap id hid hok hr => exact kept hr.modifies (by simp [startParts]) (by simp [startParts])
  | remove id hid hok hr =>
    exact kept (remove_ok hr).1
      (by simp [removeParts, cleanupParts, procParts, startParts, cmdParts, ttyParts])
      (by simp [removeParts, cleanupParts, procParts, startParts, cmdParts, ttyParts])
  | add cstr r hok hadd =>
    rcases GBLSAddCmd_cases hadd with ⟨-, hn⟩ | ⟨id, spec, -, ha⟩
    · exact kept hn.modifies (by simp [cmdParts, ttyParts]) (by simp [cmdParts, ttyParts])
    · exact kept ha.modifies (by simp [addParts, cmdParts, ttyParts])
        (by simp [addParts, cmdParts, ttyParts])
  | register r c hr hreg =>
    have hm : Modifies {.kproc} w w' := ttyRegisterEvents_modifies r (by simp) hreg
    exact kept hm (by simp) (by simp)
  | enable b hok hflg hlen he =>
    have hm : Modifies (ttyParts .bcst) _ w' := ttyCreate_modifies sys subset_rfl he
    rw [hm.bcstflg_eq (by simp [ttyParts])] at hoff
    cases hoff

lemma BcstLinked.frame (h : BcstLinked w) (hm : Modifies S w w') (htty : .tty .bcst ∉ S)
    (hflg : w'.gbls.bcstflg = w.gbls.bcstflg) : BcstLinked w' := by
  have hst := hm.same _ htty
  simp only [SameOn, ttyStatic, Prod.mk.injEq] at hst
  intro hn
  rw [hst.1]
  exact h (hflg ▸ hn)

lemma Action.bcstLinked {ok : World → Op → Prop} (ha : Action sys ok w w') (h : BcstLinked w) :
    BcstLinked w' := by
  intro hoff
  obtain ⟨hold, hst⟩ := ha.bcst_kept hoff
  simp only [ttyStatic, Prod.mk.injEq] at hst
  rw [hst.1]
  exact h hold

lemma Action.fdInv (ha : Action sys (OpKeepsFds sys) w w') (ht : TableInv w)
    (hc : Children w.gbls.cmds w) (hl : BcstLinked w) (h : FdInv w) : FdInv w' := by
  cases ha with
  | @quiet S hS hm hflg =>
    have hnot {p : Part} (hp : p.quiet = false) : p ∉ S := fun hpS => by
      rw [hS p hpS] at hp
      cases hp
    exact h.frame hm (hm.openFds_eq (hnot rfl)) (hm.fdsOk (hnot rfl) h.ok) (hnot rfl)
      (fun _ => hnot rfl) fun _ => hnot rfl
  | notified r mask rest hr hq hw =>
    rw [hw]
    have hm := notified_modifies w r mask rest
    exact h.frame hm (hm.openFds_eq (by simp)) (hm.fdsOk (by simp) h.ok) (by simp) (by simp) (by simp)
  | start id d hid hf => exact hf.fdInv ht hc hid h
  | stop id hid hs => exact hs.fdInv ht hid h
  | reap id hid hok hr => exact hok.elim
  | remove id hid hok hr => exact remove_fdInv hr ht hc hid h
  | add cstr r hok hadd => exact GBLSAddCmd_fdInv hadd ht (fun _ => hok) h
  | register r c hr hreg =>
    exact h.registered (ttyRegisterEvents_modifies r (by simp) hreg) (ttyRegisterEvents_fds hreg)
  | enable b hok hflg hlen he =>
    have hdfd : (w.ttys .bcst).dfd = none := by
      obtain ⟨built, w₁, hbuild, -⟩ := bind_eq_ok.mp he
      exact (require_bind_eq_ok.mp (get_bind_eq_ok.mp hbuild)).1
    have hn : NoFds (w.ttys .bcst) := h.idle .bcst (.inr rfl) (.inr hdfd)
    have hflag : FdInv { w with gbls.bcstflg := true } := ⟨h.recorded, h.ok, h.idle⟩
    exact ttyCreate_fdInv (.inr rfl) he hn (hl hflg) (fun _ => hok hflg hlen) hflag

lemma theLoopRegister_fdInv : Preserves FdInv (theLoopRegister sys) := by
  have hadd (fd : Fd) (src : Source) : Preserves FdInv (epollAdd sys fd src) := by
    intro w b w' h hinv
    have hm : Modifies {.kproc} w w' := epollAdd_modifies fd src (by simp) h
    cases (epollAdd_eq sys fd src w).symm.trans h
    exact hinv.registered hm ⟨rfl, rfl⟩
  have hreg (r : TtyRef) : Preserves FdInv (ttyRegisterEvents sys r) := fun w _ w' h hinv =>
    hinv.registered (ttyRegisterEvents_modifies r (by simp) h) (ttyRegisterEvents_fds h)
  exact theLoopRegister_keeps (fun _ _ _ => hadd _ _) (fun _ _ => hreg _)
    (Keeps.bind Keeps.get fun _ => Keeps.forM (fun _ => cmdRegisterttyEvents_keeps (hreg _) (hreg _)) _)

/-- `ttyInit` of a tty that records nothing. -/
lemma ttyInit_fdInv {ttylink src₁ dst₁ src₂ dst₂ : Option CStr} {u : Unit}
    (hr : r = .mon ∨ r = .bcst) (hinit : ttyInit r ttylink src₁ dst₁ src₂ dst₂ w = .ok u w')
    (h : FdInv w) : FdInv w' := by
  obtain ⟨hlink, hw⟩ := ttyInit_ok hinit
  have hold := h.idle r hr (.inl hlink)
  have hnew := ttyInit_noFds hinit
  have hm : Modifies {.tty r} w w' := ttyInit_modifies _ _ _ _ _ (by simp) hinit
  have htty (q : TtyRef) : ttyFds (w'.ttys q) = ttyFds (w.ttys q) := by
    by_cases hq : q = r
    · rw [hq, hnew.ttyFds_eq, hold.ttyFds_eq]
    · exact hm.ttyFds_eq (by simp [hq])
  have hcmds : ∀ id ∈ w.gbls.cmds, cmdFds w' id = cmdFds w id := fun id _ =>
    cmdFds_congr (htty _) (htty _) (hm.pidfd_eq (by simp))
  refine ⟨?_, hm.fdsOk (by simp) h.ok, fun q hq hn => ?_⟩
  · rw [hm.openFds_eq (by simp), h.recorded, recordedFds, recordedFds, hm.cmds_eq (by simp), htty, htty,
      List.map_congr_left hcmds]
  · by_cases hqr : q = r
    · exact hqr ▸ hnew
    · have hst := hm.same (.tty q) (by simp [hqr])
      simp only [SameOn, ttyStatic, Prod.mk.injEq] at hst
      rw [hst.1, hst.2.2.2.1] at hn
      exact (h.idle q hq hn).of_modifies hm (by simp [hqr])

lemma ttyInit_link {ttylink src₁ dst₁ src₂ dst₂ : Option CStr} {u : Unit}
    (hinit : ttyInit r ttylink src₁ dst₁ src₂ dst₂ w = .ok u w') : (w'.ttys r).link = ttylink := by
  rw [(ttyInit_ok hinit).2]
  simp [World.updTty]

lemma reachable_fdInv (hw : Reachable sys (KeepsFds sys) w) : FdInv w := by
  have stage {α : Type} {m : Act α} {S : Set Part} (hm : Keeps (Modifies S) m) (hk : .kproc ∉ S)
      (ht : .table ∉ S) (htty : ∀ r, .tty r ∉ S) (hp : ∀ id, .proc id ∉ S) : Preserves FdInv m :=
    fun _ _ _ h hinv => hinv.frame (hm h) ((hm h).openFds_eq hk) ((hm h).fdsOk hk hinv.ok) ht htty hp
  refine (reachable_with_children (P := fun w => FdInv w ∧ BcstLinked w) (Q := FdInv)
    (fun o => ?_) (fun s => ?_) ?_ ?_ ?_ (fun s w id w' ht h ha => ?_) ?_ (fun w w' _ h hr => ⟨theLoopRegister_fdInv hr h.1, ?_⟩) (fun w e h _ => ⟨?_, ?_⟩)
    (fun w s x _ _ hok => hok.permits)
    (fun w w' ht hc h ha => ⟨ha.fdInv ht hc h.2 h.1, ha.bcstLinked h.2⟩) hw).2.1
  · refine ⟨rfl, ⟨by simp [boot], by simp [boot]⟩, fun r _ _ => noFds_default⟩
  · exact stage (S := ∅) (argsParseSpec_modifies sys s) (by simp) (by simp) (by simp) (by simp)
  · exact stage (S := {.flags, .names}) (logInit_modifies sys (by simp) (by simp)) (by simp) (by simp) (by simp)
      (by simp)
  · intro w _ w' h hinv
    obtain ⟨link, w₁, -, hinit, hcreate⟩ := monttyCreate_ok sys h
    refine ttyCreate_fdInv (.inl rfl) hcreate (ttyInit_noFds hinit) ?_ (by simp)
      (ttyInit_fdInv (.inl rfl) hinit hinv)
    rw [ttyInit_link hinit]
    simp
  · exact stage (S := {.flags, .names}) (fsCreate_modifies sys (by simp) (by simp)) (by simp) (by simp) (by simp)
      (by simp)
  · exact GBLSAddCmd_fdInv ha ht (by simp) h
  · intro w _ w' h hinv
    obtain ⟨link, w₁, -, hinit, hrest⟩ := bcstttyInit_ok sys h
    replace hinit := get_bind_eq_ok.mp hinit
    have hlinked : FdInv { w with gbls.bcstttylink := some link } := ⟨hinv.recorded, hinv.ok, hinv.idle⟩
    have h₁ : FdInv w₁ := ttyInit_fdInv (.inr rfl) hinit hlinked
    have hlink : (w₁.ttys .bcst).link ≠ none := by
      rw [ttyInit_link hinit]
      simp
    rcases hrest with ⟨-, rfl⟩ | ⟨-, hcreate⟩
    · exact ⟨h₁, fun _ => hlink⟩
    · refine ⟨ttyCreate_fdInv (.inr rfl) hcreate (ttyInit_noFds hinit) hlink (by simp) h₁, fun _ => ?_⟩
      rw [(ttyCreate_whole hcreate).2.link]
      exact hlink
  · have hm : Modifies {.kproc} w w' := theLoopRegister_modifies (by simp) hr
    exact h.2.frame hm (by simp) (hm.bcstflg_eq (by simp))
  · have hfds : (e.apply w).kern.fds = w.kern.fds ∧ (e.apply w).kern.nextFd = w.kern.nextFd := by
      cases e with
      | closed r wr =>
        simp only [Env.apply]
        split <;> exact ⟨rfl, rfl⟩
      | _ => exact ⟨rfl, rfl⟩
    have hm := apply_modifies w e
    refine h.1.frame hm ?_ ⟨?_, ?_⟩ ?_ ?_ ?_
    · rw [openFds, hfds.1, openFds]
    · rw [hfds.1]
      exact h.1.ok.nodup
    · rw [hfds.1, hfds.2]
      exact h.1.ok.lt
    all_goals cases e <;> simp [envParts]
  · have hm := apply_modifies w e
    exact h.2.frame hm (by cases e <;> simp [envParts]) (hm.bcstflg_eq (by cases e <;> simp [envParts]))

/-- The descriptors that are open are the recorded ones, each once, and their number is bounded by
that of the commands. -/
structure FdsAccounted (w : World) : Prop where
  recorded : openFds w = recordedFds w + {0, 1}
  distinct : w.kern.fds.Nodup
  bounded : w.kern.fds.length ≤ 8 + 7 * w.gbls.cmds.length

lemma card_toList_le (fd : Option Fd) : Multiset.card (fd.toList : Multiset Fd) ≤ 1 := by
  cases fd <;> simp

lemma card_ttyFds_le (this : Tty) : Multiset.card (ttyFds this) ≤ 3 := by
  have h₁ := card_toList_le this.ifd
  have h₂ := card_toList_le this.dfd
  have h₃ := card_toList_le this.sfd
  rw [ttyFds, Multiset.card_add, Multiset.card_add]
  omega

lemma card_cmdFds_le (w : World) (id : CmdId) : Multiset.card (cmdFds w id) ≤ 7 := by
  have h₁ := card_ttyFds_le (w.ttys (.cmd id))
  have h₂ := card_ttyFds_le (w.ttys (.clt id))
  have h₃ := card_toList_le (w.heap id).pidfd
  rw [cmdFds, Multiset.card_add, Multiset.card_add]
  omega

lemma card_sum_cmdFds_le (w : World) (ids : List CmdId) :
    Multiset.card (ids.map (cmdFds w)).sum ≤ 7 * ids.length := by
  induction ids with
  | nil => simp
  | cons id ids ih =>
    have hid := card_cmdFds_le w id
    rw [List.map_cons, List.sum_cons, Multiset.card_add, List.length_cons]
    omega

/-- As long as no exit is handled and no creation loses its sub side, no descriptor leaks. -/
theorem fds_accounted (hw : Reachable sys (KeepsFds sys) w) : FdsAccounted w := by
  have h := reachable_fdInv hw
  refine ⟨h.recorded, h.ok.nodup, ?_⟩
  have hcard : w.kern.fds.length = Multiset.card (recordedFds w) + 2 := by
    have hlen := congrArg Multiset.card h.recorded
    rwa [openFds, Multiset.coe_card, Multiset.card_add] at hlen
  have h₁ := card_ttyFds_le (w.ttys .mon)
  have h₂ := card_ttyFds_le (w.ttys .bcst)
  have h₃ := card_sum_cmdFds_le w w.gbls.cmds
  rw [hcard, recordedFds, Multiset.card_add, Multiset.card_add]
  omega

/-- A command is added and opened, closed again and deleted. -/
theorem fds_accounted_deleted : ∃ w, Reachable quietSys (KeepsFds quietSys) w ∧
    FdsAccounted w ∧ w.gbls.cmds = [0] ∧ w.kern.fds.length = 14 := by
  obtain ⟨w, hw, hp⟩ := exists_reachable quietSys (KeepsFds quietSys) oneCmd
    [.hdlr (.dom .mon) { line := some (bytes "add b,,,1,y") }, .env (.opened (.clt 1)),
      .hdlr (.ifd (.clt 1)) {}, .env (.closed (.clt 1) true), .hdlr (.ifd (.clt 1)) {},
      .hdlr (.dom .mon) { line := some (bytes "del b") }]
    (fun w => decide (w.gbls.cmds = [0] ∧ w.kern.fds.length = 14)) (by decide +kernel)
  exact ⟨w, hw, fds_accounted hw, of_decide_eq_true hp⟩

/-- A command exits and is restarted. -/
theorem fds_not_always_accounted :
    ¬∀ (sys : Sys) (w : World), Reachable sys (fun _ _ => True) w → FdsAccounted w := by
  intro h
  obtain ⟨w, hw, hp⟩ := exists_reachable quietSys (fun _ _ => True) oneCmd
    (openClt ++ [.env (.exited 0 0), .hdlr (.pidfd 0 11) {}])
    (fun w => decide (w.kern.fds.length = 13 ∧ Multiset.card (recordedFds w) = 10)) (by decide +kernel)
  obtain ⟨hlen, hcard⟩ := of_decide_eq_true hp
  have heq := congrArg Multiset.card (h quietSys w hw).recorded
  rw [openFds, Multiset.coe_card, Multiset.card_add, hlen, hcard] at heq
  cases heq

end Yar.Proofs
