import Mathlib.Data.List.Count
import Yar.Own
import Yar.Proofs.Requests
import Yar.Proofs.Teardown

/-!
# What the parts of `cleanup` give back

Each function that cleans up returns, and what it has added to the list of what was given back
depends on its own fields only. How often something is on such a list is 1 or 0, by a condition on
these fields, so that the counts of the parts add up.
-/

namespace Yar.Proofs

open Program Fs

variable {s s' : Own} {accepts : CmdId → Bool} {r : TtyRef} {id : CmdId} {x : Res}

/-! ## Counting -/

open Classical in
/-- 1 for what holds and 0 for what does not. -/
noncomputable def oneIf (p : Prop) : Nat := if p then 1 else 0

@[simp] lemma oneIf_true : oneIf True = 1 := if_pos trivial

@[simp] lemma oneIf_false : oneIf False = 0 := if_neg id

lemma oneIf_of {p : Prop} (h : p) : oneIf p = 1 := if_pos h

lemma oneIf_of_not {p : Prop} (h : ¬p) : oneIf p = 0 := if_neg h

lemma oneIf_congr {p q : Prop} (h : p ↔ q) : oneIf p = oneIf q := by rw [propext h]

lemma oneIf_pos_iff {p : Prop} : 0 < oneIf p ↔ p := by
  by_cases h : p
  · simp [h]
  · simp [h]

lemma oneIf_le (p : Prop) : oneIf p ≤ 1 := by
  by_cases h : p
  · simp [h]
  · simp [h]

/-- Something that is on one list at most and there once is on all of them together once. -/
lemma count_flatMap_eq {f : CmdId → List Res} {P : CmdId → Prop} {ids : List CmdId}
    (hnodup : ids.Nodup) (hf : ∀ id ∈ ids, (f id).count x = oneIf (P id))
    (huniq : ∀ id id', P id → P id' → id = id') :
    (ids.flatMap f).count x = oneIf (∃ id ∈ ids, P id) := by
  induction ids with
  | nil => simp
  | cons a ids ih =>
    obtain ⟨ha, hnodup⟩ := List.nodup_cons.mp hnodup
    have hrest := ih hnodup fun id hid => hf id (List.mem_cons_of_mem _ hid)
    rw [List.flatMap_cons, List.count_append, hf a List.mem_cons_self, hrest]
    by_cases hP : P a
    · have hnone : ¬∃ id ∈ ids, P id := by
        rintro ⟨id, hid, hPid⟩
        exact ha (huniq _ _ hP hPid ▸ hid)
      rw [oneIf_of hP, oneIf_of_not hnone, oneIf_of ⟨a, List.mem_cons_self, hP⟩]
    · rw [oneIf_of_not hP, Nat.zero_add]
      exact oneIf_congr (by simp [hP])

/-! ## The state after something has been given back -/

def givenBack (l : List Res) (s : Own) : Own := { s with released := l ++ s.released }

lemma givenBack_givenBack (l l' : List Res) :
    givenBack l (givenBack l' s) = givenBack (l ++ l') s := by
  unfold givenBack
  simp only [List.append_assoc]

/-- What a field that can be null gives back. -/
def held {α : Type} (p : Option α) (x : Res) : List Res :=
  match p with
  | some _ => [x]
  | none => []

@[simp] lemma held_none {α : Type} (x : Res) : held (none : Option α) x = [] := rfl

@[simp] lemma count_held {α : Type} (p : Option α) (y : Res) :
    (held p y).count x = oneIf (x = y ∧ p ≠ none) := by
  cases p with
  | none => simp
  | some a =>
    by_cases h : x = y
    · simp [held, h]
    · simp [held, h, Ne.symm h]

def heldIf (p : Prop) [Decidable p] (l : List Res) : List Res := if p then l else []

lemma heldIf_pos {p : Prop} [Decidable p] {l : List Res} (h : p) : heldIf p l = l := if_pos h

lemma heldIf_neg {p : Prop} [Decidable p] {l : List Res} (h : ¬p) : heldIf p l = [] := if_neg h

@[simp] lemma count_heldIf {p : Prop} [Decidable p] (l : List Res) :
    (heldIf p l).count x = if p then l.count x else 0 := by
  unfold heldIf
  split <;> rfl

lemma releaseSet_eq {α : Type} (p : Option α) (x : Res) (s : Own) :
    Own.releaseSet p x s = .ok () (givenBack (held p x) s) := by
  cases p <;> rfl

def strFreed (f : GblsStr) (s : Own) : Own :=
  givenBack (held (s.str f) (.str f)) { s with str := Function.update s.str f none }

lemma freeStr_eq (f : GblsStr) (s : Own) : Own.freeStr f s = .ok () (strFreed f s) := by
  unfold Own.freeStr
  rw [bind_of_ok (show (get : Own.OwnAct Own) s = .ok s s from rfl)]
  rw [bind_of_ok (releaseSet_eq _ _ _)]
  rfl

/-! ## Ttys -/

def ttyStr (this : Tty) (f : TtyStr) : Option CStr :=
  match f with
  | .link => this.link
  | .src1 => this.extralink1.src
  | .dst1 => this.extralink1.dst
  | .src2 => this.extralink2.src
  | .dst2 => this.extralink2.dst

def ttyFd (this : Tty) (f : TtyFd) : Option Fd :=
  match f with
  | .ifd => this.ifd
  | .dfd => this.dfd
  | .sfd => this.sfd

/-- The string is one of the three names and not empty. -/
def NamesEntry (this : Tty) (f : TtyStr) : Prop :=
  match f with
  | .link | .src1 | .src2 => ∃ path, ttyStr this f = some path ∧ path ≠ []
  | .dst1 | .dst2 => False

def heldName (r : TtyRef) (f : TtyStr) (name : Option CStr) : List Res :=
  match name with
  | some path => .ttyStr r f :: heldIf (path ≠ []) [.entry r f]
  | none => []

@[simp] lemma count_heldName (f : TtyStr) (name : Option CStr) : (heldName r f name).count x =
    oneIf (x = .ttyStr r f ∧ name ≠ none) +
      oneIf (x = .entry r f ∧ ∃ path, name = some path ∧ path ≠ []) := by
  cases name with
  | none => simp [heldName]
  | some path =>
    by_cases hpath : path = []
    · by_cases h : x = .ttyStr r f
      · simp [heldName, hpath, h]
      · simp [heldName, hpath, h, Ne.symm h]
    · by_cases h : x = .ttyStr r f
      · simp [heldName, hpath, h]
      · by_cases he : x = .entry r f
        · simp [heldName, hpath, he]
        · simp [heldName, hpath, h, he, Ne.symm h, Ne.symm he]

lemma ttyCleanupName_eq (r : TtyRef) (f : TtyStr) (name : Option CStr) (s : Own) :
    Own.ttyCleanupName r f name s = .ok () (givenBack (heldName r f name) s) := by
  cases name with
  | none => rfl
  | some path =>
    by_cases hpath : path = []
    · have hwhen : when (path ≠ []) (Own.release (.entry r f)) s = .ok () s :=
        when_eq_ok.mpr (.inr ⟨fun h => h hpath, rfl⟩)
      refine (bind_of_ok hwhen).trans ?_
      simp [heldName, heldIf, hpath, Own.release, givenBack]
    · have hwhen : when (path ≠ []) (Own.release (.entry r f)) s =
          .ok () (givenBack [.entry r f] s) := when_eq_ok.mpr (.inl ⟨hpath, rfl⟩)
      refine (bind_of_ok hwhen).trans ?_
      simp [heldName, heldIf, hpath, Own.release, givenBack]

/-- What the cleanup of a tty gives back. -/
def ttyHeld (r : TtyRef) (this : Tty) : List Res :=
  held this.extralink2.dst (.ttyStr r .dst2) ++ (heldName r .src2 this.extralink2.src ++
    (held this.extralink1.dst (.ttyStr r .dst1) ++ (heldName r .src1 this.extralink1.src ++
      (heldName r .link this.link ++ (held this.sfd (.ttyFd r .sfd) ++
        (held this.dfd (.ttyFd r .dfd) ++ held this.ifd (.ttyFd r .ifd)))))))

def ttyCleaned (r : TtyRef) (s : Own) : Own :=
  givenBack (ttyHeld r (s.ttys r)) { s with ttys := Function.update s.ttys r {} }

lemma ttyCleanup_eq (r : TtyRef) (s : Own) : Own.ttyCleanup r s = .ok () (ttyCleaned r s) := by
  unfold Own.ttyCleanup
  rw [bind_of_ok (show (get : Own.OwnAct Own) s = .ok s s from rfl)]
  rw [bind_of_ok (releaseSet_eq _ _ _), bind_of_ok (releaseSet_eq _ _ _)]
  rw [bind_of_ok (releaseSet_eq _ _ _), bind_of_ok (ttyCleanupName_eq _ _ _ _)]
  rw [bind_of_ok (ttyCleanupName_eq _ _ _ _), bind_of_ok (releaseSet_eq _ _ _)]
  rw [bind_of_ok (ttyCleanupName_eq _ _ _ _), bind_of_ok (releaseSet_eq _ _ _)]
  simp only [givenBack_givenBack]
  rfl

lemma ttyCleaned_ttys {r' : TtyRef} (h : r' ≠ r) : (ttyCleaned r s).ttys r' = s.ttys r' := by
  change Function.update s.ttys r {} r' = _
  rw [Function.update_of_ne h]

/-- What a tty holds, by its fields. -/
def TtyHolds (r : TtyRef) (this : Tty) (x : Res) : Prop :=
  match x with
  | .ttyStr r' f => r' = r ∧ ttyStr this f ≠ none
  | .ttyFd r' f => r' = r ∧ ttyFd this f ≠ none
  | .entry r' f => r' = r ∧ NamesEntry this f
  | _ => False

@[simp] lemma count_ttyHeld (this : Tty) : (ttyHeld r this).count x = oneIf (TtyHolds r this x) := by
  cases x with
  | ttyStr r' f => cases f <;> simp [ttyHeld, TtyHolds, ttyStr]
  | ttyFd r' f => cases f <;> simp [ttyHeld, TtyHolds, ttyFd]
  | entry r' f => cases f <;> simp [ttyHeld, TtyHolds, NamesEntry, ttyStr]
  | _ => simp [ttyHeld, TtyHolds]

/-! ## Commands -/

/-- A running command takes the stop string it is sent. -/
def StopTaken (accepts : CmdId → Bool) (s : Own) (id : CmdId) : Prop :=
  (s.heap id).pid ≠ none → ((s.heap id).stopstr <|> s.str .stopstr) = none ∨ accepts id = true

def childHeld (id : CmdId) (s : Own) : List Res :=
  held (s.heap id).pid (.pidfd id) ++ held (s.heap id).pid (.child id)

def cmdStopped (id : CmdId) (s : Own) : Own :=
  givenBack (childHeld id s)
    { s with
      heap := Function.update s.heap id
        { s.heap id with
          pidfd := if (s.heap id).pid = none then (s.heap id).pidfd else none
          pid := none } }

lemma cmdStop_eq (h : StopTaken accepts s id) :
    Own.cmdStop accepts id s = .ok () (cmdStopped id s) := by
  unfold Own.cmdStop
  rw [bind_of_ok (show (get : Own.OwnAct Own) s = .ok s s from rfl)]
  cases hpid : (s.heap id).pid with
  | none =>
    have hsame : cmdStopped id s = s := by
      have hheap : { s.heap id with pidfd := (s.heap id).pidfd, pid := none } = s.heap id := by
        rw [← hpid]
      unfold cmdStopped childHeld
      rw [hpid, if_pos rfl, hheap, Function.update_eq_self]
      rfl
    rw [hsame]
    exact when_eq_ok.mpr (.inr ⟨by simp, rfl⟩)
  | some pid =>
    have hset : (s.heap id).pid ≠ none := by simp [hpid]
    refine when_eq_ok.mpr (.inl ⟨by simp, ?_⟩)
    rw [bind_of_ok (require_eq_ok (u := ()).mpr ⟨h hset, rfl⟩)]
    unfold cmdStopped childHeld
    rw [if_neg hset, hpid]
    rfl

/-- What the cleanup of a command gives back. -/
def cmdHeld (id : CmdId) (s : Own) : List Res :=
  held (s.heap id).cmdstr (.cmdstr id) ++ (held ( OwnCmd.bcstprefix (s.heap id)) (.bcstprefixstr id) ++
    (ttyHeld (.clt id) (s.ttys (.clt id)) ++ (ttyHeld (.cmd id) (s.ttys (.cmd id)) ++ childHeld id s)))

def cmdCleaned (id : CmdId) (s : Own) : Own :=
  givenBack (cmdHeld id s)
    { s with
      ttys := Function.update (Function.update s.ttys (.cmd id) {}) (.clt id) {}
      heap := Function.update s.heap id { stopstr := (s.heap id).stopstr } }

lemma cmdCleanup_eq (h : StopTaken accepts s id) :
    Own.cmdCleanup accepts id s = .ok () (cmdCleaned id s) := by
  unfold Own.cmdCleanup
  rw [bind_of_ok (cmdStop_eq h), bind_of_ok (ttyCleanup_eq _ _), bind_of_ok (ttyCleanup_eq _ _)]
  rw [bind_of_ok (show (get : Own.OwnAct Own) _ = .ok _ _ from rfl)]
  rw [bind_of_ok (releaseSet_eq _ _ _), bind_of_ok (releaseSet_eq _ _ _)]
  have hclt : (ttyCleaned (.cmd id) (cmdStopped id s)).ttys (.clt id) = s.ttys (.clt id) :=
    ttyCleaned_ttys (by simp)
  have hheap : (ttyCleaned (.clt id) (ttyCleaned (.cmd id) (cmdStopped id s))).heap id =
      { s.heap id with
        pidfd := if (s.heap id).pid = none then (s.heap id).pidfd else none, pid := none } :=
    Function.update_self _ _ _
  rw [hheap]
  unfold ttyCleaned at hclt ⊢
  rw [hclt]
  refine congrArg (EStateM.Result.ok ()) ?_
  unfold cmdCleaned cmdHeld cmdStopped
  simp only [givenBack, List.append_assoc, Function.update_self, Function.update_idem]

/-- The command is cleaned up and taken out of the table. -/
def cmdRemoved (id : CmdId) (s : Own) : Own :=
  givenBack [.cmd id] { cmdCleaned id s with cmds := s.cmds.filter (· ≠ id) }

lemma remove_eq (h : StopTaken accepts s id) :
    (do
      Own.cmdCleanup accepts id
      Own.hashDel id : Own.OwnAct Unit) s = .ok () (cmdRemoved id s) := by
  rw [bind_of_ok (cmdCleanup_eq h)]
  rfl

lemma cmdRemoved_ttys (hcmd : r ≠ .cmd id) (hclt : r ≠ .clt id) :
    (cmdRemoved id s).ttys r = s.ttys r :=
  (Function.update_of_ne hclt _ _).trans (Function.update_of_ne hcmd _ _)

/-- What a command holds, by its fields. -/
def CmdHolds (s : Own) (id : CmdId) (x : Res) : Prop :=
  match x with
  | .cmd id' => id' = id
  | .cmdstr id' => id' = id ∧ (s.heap id).cmdstr ≠ none
  | .bcstprefixstr id' => id' = id ∧ OwnCmd.bcstprefix (s.heap id) ≠ none
  | .child id' | .pidfd id' => id' = id ∧ (s.heap id).pid ≠ none
  | .ttyStr _ _ | .ttyFd _ _ | .entry _ _ =>
    TtyHolds (.cmd id) (s.ttys (.cmd id)) x ∨ TtyHolds (.clt id) (s.ttys (.clt id)) x
  | _ => False

lemma TtyHolds.ref {this this' : Tty} {r' : TtyRef} (h : TtyHolds r this x)
    (h' : TtyHolds r' this' x) : r = r' := by
  cases x <;> first | exact h.1.symm.trans h'.1 | exact h.elim

lemma oneIf_or {p q : Prop} (h : p → ¬q) : oneIf (p ∨ q) = oneIf p + oneIf q := by
  by_cases hp : p
  · simp [hp, h hp]
  · simp [hp]

lemma count_cmdHeld : (.cmd id :: cmdHeld id s : List Res).count x = oneIf (CmdHolds s id x) := by
  have hne : TtyHolds (.cmd id) (s.ttys (.cmd id)) x → ¬TtyHolds (.clt id) (s.ttys (.clt id)) x := by
    intro h h'
    cases h.ref h'
  cases x with
  | ttyStr r f | ttyFd r f | entry r f =>
    simp only [CmdHolds, oneIf_or hne]
    simp [cmdHeld, childHeld, Nat.add_comm]
  | cmd id' =>
    by_cases h : id' = id
    · simp [cmdHeld, childHeld, CmdHolds, TtyHolds, h]
    · simp [cmdHeld, childHeld, CmdHolds, TtyHolds, h, Ne.symm h]
  | _ => simp [cmdHeld, childHeld, CmdHolds, TtyHolds]

lemma CmdHolds.ref {id' : CmdId} (h : CmdHolds s id x) (h' : CmdHolds s id' x) : id = id' := by
  cases x <;> first
    | exact h.symm.trans h'
    | exact h.1.symm.trans h'.1
    | exact h.elim
    | (rcases h with h | h <;> rcases h' with h' | h' <;> cases h.ref h' <;> rfl)

lemma cmdHeld_congr (hheap : s'.heap id = s.heap id) (hcmd : s'.ttys (.cmd id) = s.ttys (.cmd id))
    (hclt : s'.ttys (.clt id) = s.ttys (.clt id)) : cmdHeld id s' = cmdHeld id s := by
  unfold cmdHeld childHeld
  rw [hheap, hcmd, hclt]

/-- The loop over the commands, with the heap and the ttys it leaves. -/
lemma cmds_eq (ids : List CmdId) (hnodup : ids.Nodup) (s : Own)
    (h : ∀ id ∈ ids, StopTaken accepts s id) : ∃ s' ttys heap,
      (ids.forM fun id => do
        Own.cmdCleanup accepts id
        Own.hashDel id : Own.OwnAct Unit) s = .ok () s' ∧
      s' = givenBack (ids.reverse.flatMap fun id => .cmd id :: cmdHeld id s)
        { s with cmds := s.cmds.filter (· ∉ ids), ttys := ttys, heap := heap } ∧
      ttys .bcst = s.ttys .bcst ∧ ttys .mon = s.ttys .mon := by
  induction ids generalizing s with
  | nil =>
    refine ⟨s, s.ttys, s.heap, rfl, ?_, rfl, rfl⟩
    simp [givenBack]
  | cons a ids ih =>
    obtain ⟨ha, hnodup⟩ := List.nodup_cons.mp hnodup
    have hother {id : CmdId} (hid : id ∈ ids) : (cmdRemoved a s).heap id = s.heap id ∧
        (cmdRemoved a s).ttys (.cmd id) = s.ttys (.cmd id) ∧
        (cmdRemoved a s).ttys (.clt id) = s.ttys (.clt id) := by
      have hne : id ≠ a := fun heq => ha (heq ▸ hid)
      exact ⟨Function.update_of_ne hne _ _, cmdRemoved_ttys (by simpa using hne) (by simp),
        cmdRemoved_ttys (by simp) (by simpa using hne)⟩
    obtain ⟨s', ttys, heap, hrun, hs', hbcst, hmon⟩ := ih hnodup (cmdRemoved a s) fun id hid => by
      have htaken := h id (List.mem_cons_of_mem _ hid)
      unfold StopTaken at htaken ⊢
      rwa [(hother hid).1]
    refine ⟨s', ttys, heap, ?_, ?_, hbcst.trans rfl, hmon.trans rfl⟩
    · exact forM_cons_eq_ok.mpr ⟨(), cmdRemoved a s, remove_eq (h a List.mem_cons_self), hrun⟩
    have hsame : (ids.reverse.flatMap fun id => .cmd id :: cmdHeld id (cmdRemoved a s)) =
        ids.reverse.flatMap fun id => (.cmd id :: cmdHeld id s : List Res) := by
      refine List.flatMap_congr fun id hid => ?_
      obtain ⟨hheap, hcmd, hclt⟩ := hother (List.mem_reverse.mp hid)
      rw [cmdHeld_congr hheap hcmd hclt]
    have hfilter : (cmdRemoved a s).cmds.filter (· ∉ ids) = s.cmds.filter (· ∉ a :: ids) := by
      change (s.cmds.filter (· ≠ a)).filter (· ∉ ids) = _
      rw [List.filter_filter]
      refine List.filter_congr fun id _ => ?_
      simp [Bool.and_comm]
    rw [hs', hsame, hfilter, List.reverse_cons, List.flatMap_append, List.flatMap_singleton]
    unfold givenBack cmdRemoved cmdCleaned
    simp [givenBack]

end Yar.Proofs
