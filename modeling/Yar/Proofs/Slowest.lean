import Yar.Proofs.Runs
import Yar.Proofs.Table

/-!
# `GBLS.slowestcmd`

The pointer is right after every addition. No removal updates it, so it is right for as long
as no removal takes away the command it points to.
-/

namespace Yar

/-- The C comparison `a <= b`. -/
def Double.le (a b : Double) : Bool := a != .nan && b != .nan && !Double.lt b a

namespace Proofs

open Program

lemma lt_irrefl (a : Double) : Double.lt a a = false := by
  cases a <;> simp [Double.lt]

lemma lt_trans {a b c : Double} (hab : Double.lt a b = true) (hbc : Double.lt b c = true) :
    Double.lt a c = true := by
  cases a <;> cases b <;> cases c <;> simp_all [Double.lt]
  exact hab.trans hbc

lemma le_of_not_lt {a b : Double} (ha : a ≠ .nan) (hb : b ≠ .nan) (h : Double.lt b a = false) :
    Double.le a b = true := by
  simp [Double.le, ha, hb, h]

/-- `GBLS.slowestcmd` is null exactly for an empty table, and otherwise a command of the table
with the largest delay. -/
structure SlowestValid (w : World) : Prop where
  null : w.gbls.slowestcmd = none ↔ w.gbls.cmds = []
  mem : ∀ s ∈ w.gbls.slowestcmd, s ∈ w.gbls.cmds
  max : ∀ s ∈ w.gbls.slowestcmd, ∀ id ∈ w.gbls.cmds,
    Double.le (w.heap id).delay (w.heap s).delay = true

/-- Wherever `bcstttyEvent` comes to evaluate `slowestcmd->lastwrite`, it has a live command. -/
def BcstUsesLive (w : World) : Prop :=
  w.gbls.bcstflg = true → ¬bcstGateShut w.gbls → ∃ s ∈ w.gbls.slowestcmd, s ∈ w.gbls.cmds

/-- The step removes `slowestcmd` only where yar then leaves at once. -/
def KeepsSlowest (w : World) (e : Event) : Prop :=
  ∀ id ∈ deletes w e, w.gbls.slowestcmd = some id →
    w.gbls.cmds = [id] ∧ w.gbls.exitonidle = true

instance (w : World) (e : Event) : Decidable (KeepsSlowest w e) :=
  inferInstanceAs (Decidable (∀ id ∈ deletes w e, _))

/-- What the code maintains: no command of the table is slower. -/
structure SlowestInv (w : World) : Prop where
  null : w.gbls.slowestcmd = none ↔ w.gbls.cmds = []
  mem : ∀ s ∈ w.gbls.slowestcmd, s ∈ w.gbls.cmds
  max : ∀ s ∈ w.gbls.slowestcmd, ∀ id ∈ w.gbls.cmds,
    Double.lt (w.heap s).delay (w.heap id).delay = false

variable {sys : Sys} {w w' : World} {id : CmdId}

lemma SlowestInv.kept (ht : TableInv w) (h : SlowestInv w) (hk : TableKept w w') :
    SlowestInv w' := by
  have hdelay : ∀ j ∈ w.gbls.cmds, (w'.heap j).delay = (w.heap j).delay := fun j hj =>
    congrArg (·.2.2.2.2.1) (hk.spec j (ht.lt_brk j hj))
  refine ⟨by rw [hk.slowest, hk.cmds, h.null], by rw [hk.slowest, hk.cmds]; exact h.mem, ?_⟩
  rw [hk.slowest, hk.cmds]
  intro s hs j hj
  rw [hdelay s (h.mem s hs), hdelay j hj]
  exact h.max s hs j hj

lemma SlowestInv.added {spec : CmdSpec} (ht : TableInv w) (h : SlowestInv w)
    (ha : Added w w' id spec) : SlowestInv w' := by
  have hdelay : ∀ j ∈ w.gbls.cmds, (w'.heap j).delay = (w.heap j).delay := by
    intro j hj
    have hne : j ≠ id := by
      rw [ha.id_eq]
      exact (ht.lt_brk j hj).ne
    exact ha.modifies.delay_eq (by simp [addParts, cmdParts, ttyParts, hne])
  have hmem : ∀ j, j ∈ w'.gbls.cmds ↔ j ∈ w.gbls.cmds ∨ j = id := by simp [ha.table]
  rcases ha.slowest with ⟨hnone, hnew⟩ | ⟨s, hs, hold, hnew⟩
  · have hcmds : w'.gbls.cmds = [id] := by rw [ha.table, h.null.mp hnone, List.nil_append]
    refine ⟨by simp [hnew, hcmds], by simp [hnew, hcmds], ?_⟩
    simp [hnew, hcmds, lt_irrefl]
  · have hmax : ∀ j ∈ w.gbls.cmds, Double.lt (w'.heap s).delay (w'.heap j).delay = false := by
      intro j hj
      rw [hdelay s hs, hdelay j hj]
      exact h.max s hold j hj
    have hne : w'.gbls.cmds ≠ [] := by simp [ha.table]
    by_cases hlt : Double.lt (w'.heap s).delay (w'.heap id).delay = true
    · rw [if_pos hlt] at hnew
      refine ⟨by simp [hnew, hne], by simp [hnew, hmem], ?_⟩
      simp only [hnew, Option.mem_some_iff, forall_eq', hmem]
      rintro j (hj | rfl)
      · -- slower than the new command would be slower than the old `slowestcmd`
        by_contra hcon
        rw [Bool.not_eq_false] at hcon
        have hmaxj := lt_trans hlt hcon
        rw [hmax j hj] at hmaxj
        cases hmaxj
      · exact lt_irrefl _
    · rw [if_neg hlt] at hnew
      refine ⟨by simp [hnew, hne], by simp [hnew, hmem, hs], ?_⟩
      simp only [hnew, Option.mem_some_iff, forall_eq', hmem]
      rintro j (hj | rfl)
      · exact hmax j hj
      · simpa using hlt

lemma SlowestInv.removed {e : Event} (h : SlowestInv w) (hok : KeepsSlowest w e)
    (hd : deletes w e = some id) (hid : id ∈ w.gbls.cmds) (hr : Removed w w' id) :
    SlowestInv w' := by
  have hslow : w'.gbls.slowestcmd = w.gbls.slowestcmd :=
    hr.modifies.slowest_eq (by simp [removeParts, cleanupParts, procParts, startParts, cmdParts, ttyParts])
  have hdelay : ∀ j, j ≠ id → (w'.heap j).delay = (w.heap j).delay := fun j hne =>
    hr.modifies.delay_eq (by simp [removeParts, cleanupParts, procParts, startParts, cmdParts, ttyParts, hne])
  have hexit : w'.gbls.exitonidle = w.gbls.exitonidle :=
    (congrArg Globals.exitonidle (hr.modifies.flags_eq
      (by simp [removeParts, cleanupParts, procParts, startParts, cmdParts, ttyParts])) :)
  have hne : w.gbls.slowestcmd ≠ some id := by
    intro hs
    obtain ⟨hcmds, hidle⟩ := hok id hd hs
    have hempty : w'.gbls.cmds = [] := by simp [hr.table, hcmds]
    rw [← hexit, hr.stays hempty] at hidle
    cases hidle
  obtain ⟨s, hs⟩ : ∃ s, w.gbls.slowestcmd = some s := by
    cases hs : w.gbls.slowestcmd with
    | none => simp [h.null.mp hs] at hid
    | some s => exact ⟨s, rfl⟩
  have hsne : s ≠ id := fun heq => hne (heq ▸ hs)
  have hmem : s ∈ w'.gbls.cmds := by simp [hr.table, h.mem s hs, hsne]
  refine ⟨?_, ?_, ?_⟩
  · simp [hslow, hs, List.ne_nil_of_mem hmem]
  · simp [hslow, hs, hmem]
  · simp only [hslow, hs, hr.table, Option.mem_some_iff, forall_eq', List.mem_filter,
      decide_eq_true_eq]
    rintro j ⟨hj, hjne⟩
    rw [hdelay s hsne, hdelay j hjne]
    exact h.max s hs j hj

/-- A removal that takes `slowestcmd` away leaves the pointer behind. -/
theorem slowest_dangles (hs : w.gbls.slowestcmd = some id) (hr : Removed w w' id) :
    ¬SlowestValid w' := by
  intro h
  have hslow : w'.gbls.slowestcmd = some id := by
    rw [hr.modifies.slowest_eq (by simp [removeParts, cleanupParts, procParts, startParts, cmdParts, ttyParts]),
      hs]
  have hmem := h.mem id hslow
  simp [hr.table] at hmem

lemma reachable_slowestInv (hw : Reachable sys KeepsSlowest w) : SlowestInv w :=
  reachable_table (fun o => ⟨by simp [boot], by simp [boot], by simp [boot]⟩)
    (fun _ _ ht h hk => h.kept ht hk) (fun _ _ _ _ ht h ha => h.added ht ha)
    (fun _ _ _ _ _ h hok hd hid hr => h.removed hok hd hid hr) hw

/-- In a run that never removes `slowestcmd` and goes on, the pointer is a valid maximum unless
a delay in the table is a NaN, and a broadcast finds it live unless the table is empty. -/
theorem slowestcmd_valid (hw : Reachable sys KeepsSlowest w) :
    (SlowestValid w ↔ ∀ id ∈ w.gbls.cmds, (w.heap id).delay ≠ .nan) ∧
      (BcstUsesLive w ↔ (w.gbls.bcstflg = true → w.gbls.cmds ≠ [])) := by
  have h := reachable_slowestInv hw
  have hsome : w.gbls.cmds ≠ [] → ∃ s, w.gbls.slowestcmd = some s := by
    intro hne
    rw [← Option.ne_none_iff_exists']
    exact fun hs => hne (h.null.mp hs)
  refine ⟨⟨fun hv id hid hnan => ?_, fun hnan => ⟨h.null, h.mem, fun s hs id hid => ?_⟩⟩,
    ⟨fun hlive hb hempty => ?_, fun hne hb _ => ?_⟩⟩
  · obtain ⟨s, hs⟩ := hsome (List.ne_nil_of_mem hid)
    have hle := hv.max s hs id hid
    simp [Double.le, hnan] at hle
  · exact le_of_not_lt (hnan id hid) (hnan s (h.mem s hs)) (h.max s hs id hid)
  · have hopen : ¬bcstGateShut w.gbls := by simp [bcstGateShut, hempty]
    obtain ⟨s, -, hs⟩ := hlive hb hopen
    simp [hempty] at hs
  · obtain ⟨s, hs⟩ := hsome (hne hb)
    exact ⟨s, hs, h.mem s hs⟩

/-- Two commands, of which the slower one was added first. -/
def slowFirst : Options where
  specs := [bytes "a,,,5,x", bytes "b,,,1,y"]
  cwd := bytes "/h"
  pid := bytes "7"

def monLine (line : String) : Event := .hdlr (.dom .mon) { line := some (bytes line) }

theorem slowestcmd_valid_after_del : ∃ w, Reachable quietSys KeepsSlowest w ∧
    w.gbls.cmds = [0] ∧ SlowestValid w ∧ BcstUsesLive w := by
  obtain ⟨w, hw, hp⟩ := exists_reachable quietSys KeepsSlowest slowFirst [monLine "del b"]
    (fun w => decide (w.gbls.cmds = [0] ∧ ∀ id ∈ w.gbls.cmds, (w.heap id).delay ≠ .nan))
    (by decide +kernel)
  obtain ⟨hcmds, hnan⟩ := of_decide_eq_true hp
  have h := slowestcmd_valid hw
  exact ⟨w, hw, hcmds, h.1.mpr hnan, h.2.mpr fun _ => by simp [hcmds]⟩

theorem slowestcmd_not_always_valid :
    ¬∀ (sys : Sys) (w : World), Reachable sys (fun _ _ => True) w →
      SlowestValid w ∧ BcstUsesLive w := by
  intro h
  obtain ⟨w, hw, hp⟩ := exists_reachable quietSys (fun _ _ => True) slowFirst [monLine "del a"]
    (fun w => decide (w.gbls.slowestcmd = some 0 ∧ w.gbls.cmds = [1])) (by decide +kernel)
  obtain ⟨hs, hcmds⟩ := of_decide_eq_true hp
  have hmem := (h quietSys w hw).1.mem 0 hs
  simp [hcmds] at hmem

end Proofs

end Yar
