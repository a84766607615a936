import Yar.Lib.Keyed
import Yar.Proofs.LoopReady
import Yar.Proofs.Relay

/-!
# The names of the commands

The command table is a dictionary: no two commands have one name, a name finds the one command that
has it, and what handlers do to the names are insertions of new ones and deletions.
-/

namespace Yar.Proofs

open Program

variable {sys : Sys} {w w' : World} {id : CmdId} {n : CStr}

def nameOf (w : World) (id : CmdId) : CStr := (w.heap id).name

def tableNames (w : World) : List CStr := w.gbls.cmds.map (nameOf w)

lemma hashFind_eq : w.hashFind n = Keyed.find (nameOf w) w.gbls.cmds n := by
  unfold World.hashFind Keyed.find nameOf
  rfl

/-! ## What changes the names -/

lemma tableNames_congr (hcmds : w'.gbls.cmds = w.gbls.cmds)
    (hname : ∀ id ∈ w.gbls.cmds, nameOf w' id = nameOf w id) : tableNames w' = tableNames w := by
  rw [tableNames, hcmds]
  exact List.map_congr_left hname

lemma TableKept.names (h : TableKept w w') (ht : TableInv w) : tableNames w' = tableNames w :=
  tableNames_congr h.cmds fun id hid => congrArg Prod.fst (h.spec id (ht.lt_brk id hid))

/-- The name of a new command comes behind the others. -/
lemma GBLSAddNew_names {spec : CmdSpec} (ht : TableInv w) (h : GBLSAddNew sys spec w = .ok (some id) w') :
    tableNames w' = tableNames w ++ [spec.name] := by
  rcases GBLSAddNew_cases h with ⟨hr, -⟩ | ⟨id', -, ha⟩
  · cases hr
  · have hold : ∀ j ∈ w.gbls.cmds, nameOf w' j = nameOf w j := by
      intro j hj
      have hne : j ≠ id' := ha.id_eq ▸ (ht.lt_brk j hj).ne
      exact ha.modifies.name_eq (by simp [addParts, cmdParts, ttyParts, hne])
    have hnew : nameOf w' id' = spec.name := ha.init.name
    rw [tableNames, ha.table, List.map_append, List.map_singleton, List.map_congr_left hold, hnew]
    rfl

/-- An addition inserts a name that no command has. -/
lemma GBLSAddCmd_names {cstr : CStr} (ht : TableInv w) (h : GBLSAddCmd sys cstr w = .ok (some id) w') :
    ∃ n, n ∉ tableNames w ∧ tableNames w' = tableNames w ++ [n] := by
  obtain ⟨spec, w₁, hparse, h⟩ := bind_eq_ok.mp h
  have hm : Modifies ∅ w w₁ := cmdspecParse_modifies sys cstr hparse
  have hk : TableKept w w₁ := hm.tableKept fun _ hp => hp.elim
  cases spec with
  | none => cases (pure_eq_ok.mp h).1
  | some spec =>
    replace h := get_bind_eq_ok.mp h
    by_cases hn : (w₁.hashFind spec.name).isSome
    · rw [if_pos hn] at h
      cases (pure_eq_ok.mp h).1
    · rw [if_neg hn] at h
      rw [Option.not_isSome_iff_eq_none, hashFind_eq] at hn
      have hfresh : spec.name ∉ tableNames w₁ := Keyed.find_none_iff.mp hn
      rw [hk.names ht] at hfresh
      exact ⟨spec.name, hfresh, (GBLSAddNew_names (ht.kept hk) h).trans (by rw [hk.names ht])⟩

/-- A removal deletes the name of the command. -/
lemma remove_names (hnames : (tableNames w).Nodup) (hid : id ∈ w.gbls.cmds)
    (hm : Modifies (removeParts id) w w') (hcmds : w'.gbls.cmds = w.gbls.cmds.filter (· ≠ id)) :
    tableNames w' = (tableNames w).erase (nameOf w id) := by
  have hold : ∀ j ∈ w.gbls.cmds.filter (· ≠ id), nameOf w' j = nameOf w j := by
    intro j hj
    have hne : j ≠ id := by simpa using (List.mem_filter.mp hj).2
    exact hm.name_eq (by simp [removeParts, cleanupParts, procParts, startParts, cmdParts, ttyParts, hne])
  rw [tableNames, hcmds, List.map_congr_left hold]
  exact Keyed.map_filter hnames hid

/-! ## Runs -/

inductive NameStep : List CStr → List CStr → Prop where
  | insert (l : List CStr) (n : CStr) (hn : n ∉ l) : NameStep l (l ++ [n])
  | delete (l : List CStr) (n : CStr) (hn : n ∈ l) : NameStep l (l.erase n)

lemma NameStep.nodup {l l' : List CStr} (h : NameStep l l') (hl : l.Nodup) : l'.Nodup := by
  cases h with
  | insert _ hn =>
    apply List.nodup_append_comm.mp
    exact List.nodup_cons.mpr ⟨hn, hl⟩
  | delete n hn => exact hl.erase n

/-- An action changes the names only where a command is added or removed. -/
lemma Action.names {ok : World → Op → Prop} (ha : Action sys ok w w') (ht : TableInv w)
    (hnames : (tableNames w).Nodup) : tableNames w' = tableNames w ∨
      NameStep (tableNames w) (tableNames w') ∧ ((∃ cstr, ok w (.add cstr)) ∨ ∃ id, ok w (.remove id)) := by
  have kept (hk : TableKept w w') : tableNames w' = tableNames w ∨ NameStep (tableNames w) (tableNames w') ∧
      ((∃ cstr, ok w (.add cstr)) ∨ ∃ id, ok w (.remove id)) := .inl (hk.names ht)
  cases ha with
  | add cstr r hok hadd =>
    cases r with
    | none =>
      rcases GBLSAddCmd_cases hadd with ⟨-, hn⟩ | ⟨id, spec, hr, -⟩
      · exact kept hn.tableKept
      · cases hr
    | some id =>
      obtain ⟨n, hn, heq⟩ := GBLSAddCmd_names ht hadd
      rw [heq]
      exact .inr ⟨.insert _ n hn, .inl ⟨cstr, hok⟩⟩
  | remove id hid hok hr =>
    obtain ⟨hm, hcmds⟩ := remove_ok hr
    rw [remove_names hnames hid hm hcmds]
    exact .inr ⟨.delete _ _ (List.mem_map_of_mem hid), .inr ⟨id, hok⟩⟩
  | quiet hS hm hflg =>
    refine kept (hm.tableKept fun p hp => ?_)
    have hquiet := hS p hp
    cases p <;> first | rfl | cases hquiet
  | notified r mask rest hr hq hw =>
    rw [hw]
    exact .inl (tableNames_congr rfl fun _ _ => rfl)
  | start id d hid hf => exact kept (hf.modifies.tableKept (by rintro p (rfl | rfl | rfl | rfl) <;> rfl))
  | stop id hid hs => exact kept (hs.modifies.tableKept fun _ => startParts_ofTable)
  | reap id hid hok hr => exact kept (hr.modifies.tableKept fun _ => startParts_ofTable)
  | register r c hr hreg =>
    have hm : Modifies {.kproc} w w' := ttyRegisterEvents_modifies r (by simp) hreg
    exact kept (hm.tableKept (by rintro p rfl; rfl))
  | enable b hok hflg hlen he =>
    refine kept ((enable_modifies he).tableKept ?_)
    rintro p (hp | rfl)
    · exact ttyParts_ofTable hp
    · rfl

lemma apply_names (w : World) (e : Env) : tableNames (e.apply w) = tableNames w := by
  have hm := apply_modifies w e
  apply tableNames_congr
  · exact hm.cmds_eq (by cases e <;> simp [envParts])
  · exact fun id _ => hm.name_eq (by cases e <;> simp [envParts])

lemma reachable_names {ok : World → Event → Prop} (hw : Reachable sys ok w) : (tableNames w).Nodup := by
  have stage {α : Type} {m : Act α} {S : Set Part} (hm : Keeps (Modifies S) m) (ht : .table ∉ S)
      (hs : ∀ id, .spec id ∉ S) : Preserves (fun w => (tableNames w).Nodup) m := by
    intro w a w' h hnames
    rwa [tableNames_congr ((hm h).cmds_eq ht) fun id _ => (hm h).name_eq (hs id)]
  refine reachable_of_actions (P := fun w => (tableNames w).Nodup) (Q := fun w => (tableNames w).Nodup)
    (fun o => List.nodup_nil) (fun s => ?_) ?_ ?_ ?_ (fun s w id w' ht hnames h => ?_) ?_
    (fun w w' _ hnames h => ?_) (fun w e hnames _ => ?_) (fun w s x _ _ _ => Permits.trivial s x w)
    (fun w w' ht hnames ha => ?_) hw
  · exact stage (S := ∅) (argsParseSpec_modifies sys s) (by simp) (by simp)
  · exact stage (S := {.flags, .names}) (logInit_modifies sys (by simp) (by simp)) (by simp) (by simp)
  · exact stage (monttyCreate_modifies sys subset_rfl) (by simp [ttyParts]) (by simp [ttyParts])
  · exact stage (S := {.flags, .names}) (fsCreate_modifies sys (by simp) (by simp)) (by simp) (by simp)
  · obtain ⟨n, hn, heq⟩ := GBLSAddCmd_names ht h
    rw [heq]
    exact (NameStep.insert _ n hn).nodup hnames
  · exact stage (bcstttyInit_modifies sys subset_rfl) (by simp [bcstParts, ttyParts])
      (by simp [bcstParts, ttyParts])
  · exact stage (S := {.kproc}) (theLoopRegister_modifies (by simp)) (by simp) (by simp) h hnames
  · rwa [apply_names]
  · rcases ha.names ht hnames with heq | ⟨hstep, -⟩
    · rwa [heq]
    · exact hstep.nodup hnames

/-! ## What each event does -/

/-- The event is an addition that comes off, of a command with this name. -/
def Inserts (sys : Sys) (w : World) (e : Event) (n : CStr) : Prop :=
  match e with
  | .hdlr (.dom .mon) x => ∃ line cstr f, x.line = some line ∧ monLookup line = some (.monAdd, some cstr) ∧
      Admitted sys w cstr f ∧ CanAdd sys (f.spec sys w) (parsed f w) ∧ f.name = n
  | _ => False

/-- An addition that comes off puts its name behind the others, which do not have it; a removal deletes
the name of its command; all other events leave the names as they are. -/
structure Renames (sys : Sys) (w : World) (e : Event) (w' : World) : Prop where
  inserted : ∀ n, Inserts sys w e n → n ∉ tableNames w ∧ tableNames w' = tableNames w ++ [n]
  deleted : ∀ id, deletes w e = some id →
    id ∈ w.gbls.cmds ∧ tableNames w' = (tableNames w).erase (nameOf w id)
  kept : (∀ n, ¬Inserts sys w e n) → deletes w e = none → tableNames w' = tableNames w

/-- What has been deleted by its name is what had that name, and nothing else. -/
lemma del_names {x : Answer} {line : CStr} (hnames : (tableNames w).Nodup) (hx : x.line = some line)
    (hl : monLookup line = some (.monDel, some n)) (h : hdlr sys (.dom .mon) x w = .ok () w') :
    tableNames w' = (tableNames w).erase n := by
  simp only [hdlr, hx, monProcess, hl, monRun, monDel] at h
  replace h := (require_bind_eq_ok.mp h).2
  replace h := get_bind_eq_ok.mp h
  cases hf : w.hashFind n with
  | none =>
    simp only [hf] at h
    rw [(pure_eq_ok.mp h).2]
    exact (List.erase_of_not_mem (Keyed.find_none_iff.mp (hashFind_eq.symm.trans hf))).symm
  | some id =>
    simp only [hf] at h
    obtain ⟨hid, rfl⟩ := (Keyed.find_iff hnames).mp (hashFind_eq.symm.trans hf)
    have hr := monDelFound_removed h
    exact remove_names hnames hid hr.modifies hr.table

lemma deleted_names {s : Source} {x : Answer} (hnames : (tableNames w).Nodup)
    (h : hdlr sys s x w = .ok () w') (hdel : deletes w (.hdlr s x) = some id) :
    id ∈ w.gbls.cmds ∧ tableNames w' = (tableNames w).erase (nameOf w id) := by
  have hid : id ∈ w.gbls.cmds := (hdlr_cases h).deletes_mem hdel
  refine ⟨hid, ?_⟩
  cases s with
  | dom r =>
    cases r with
    | mon =>
      simp only [deletes] at hdel
      split at hdel
      case h_1 name hlook =>
        obtain ⟨line, hx, hl⟩ := Option.bind_eq_some_iff.mp hlook
        rw [del_names hnames hx hl h, ((Keyed.find_iff hnames).mp (hashFind_eq.symm.trans hdel)).2]
      case h_2 => cases hdel
    | _ => cases hdel
  | pidfd j fd =>
    simp only [deletes] at hdel
    split at hdel
    case isTrue hd =>
      cases hdel
      cases hdlr_cases h with
      | pid id fd hs _ h =>
        cases hs
        obtain ⟨w₁, hreap, ⟨-, hrun⟩ | ⟨hkeep, -⟩⟩ := cmdPidEvent_cases hid h
        · have hr := Removed.of_reaped hreap (monDelFound_removed hrun)
          exact remove_names hnames hid hr.modifies hr.table
        · rw [hd] at hkeep
          cases hkeep
      | idle hs => simp at hs
      | _ => simp_all
    case isFalse => cases hdel
  | _ => cases hdel

/-- What an addition does, in a state the loop comes to. -/
lemma monAdd_names {cstr : CStr} (hl : LoopReady w) (ht : TableInv w)
    (h : monAdd sys (some cstr) w = .ok () w') :
    (∃ f, Admitted sys w cstr f ∧ CanAdd sys (f.spec sys w) (parsed f w) ∧
      tableNames w' = tableNames w ++ [f.name]) ∨
    (∀ f, Admitted sys w cstr f → ¬CanAdd sys (f.spec sys w) (parsed f w)) ∧
      tableNames w' = tableNames w := by
  rw [monAdd_some] at h
  obtain ⟨res, w₁, hadd, h⟩ := bind_eq_ok.mp h
  cases res with
  | none =>
    rw [(pure_eq_ok.mp h).2]
    refine .inr ⟨fun f hf hcan => ?_, ?_⟩
    · rw [hf.eq] at hadd
      obtain ⟨s, hrun⟩ := GBLSAddNew_runs (hl.addReady.parsed f) hcan
      cases hrun.symm.trans hadd
    · rcases GBLSAddCmd_cases hadd with ⟨-, hn⟩ | ⟨id, spec, hr, -⟩
      · exact hn.tableKept.names ht
      · cases hr
  | some id =>
    have ht₁ : TableInv w₁ := by
      rcases GBLSAddCmd_cases hadd with ⟨hr, -⟩ | ⟨_, spec, -, ha⟩
      · cases hr
      · exact ht.added ha
    by_cases hf : ∃ f, Admitted sys w cstr f
    · obtain ⟨f, hf⟩ := hf
      rw [hf.eq] at hadd
      obtain ⟨hcan, -⟩ := GBLSAddNew_some (hl.addReady.parsed f) hadd
      have hk : TableInv (parsed f w) := ⟨ht.nodup, ht.lt_brk⟩
      refine .inl ⟨f, hf, hcan, ?_⟩
      rw [(monAddRegister_kept h).names ht₁, GBLSAddNew_names hk hadd]
      rfl
    · obtain ⟨n, hrun⟩ := GBLSAddCmd_refused (not_exists.mp hf)
      cases hrun.symm.trans hadd

/-- The actions that add a command or remove one. -/
def Op.ofTable : Op → Bool
  | .add _ | .remove _ => true
  | .enable | .reap _ => false

/-- The event asks for no addition and comes down to no removal. -/
lemma other_names {s : Source} {x : Answer} (ht : TableInv w) (hnames : (tableNames w).Nodup)
    (hadd : ∀ line cstr, s = .dom .mon → x.line = some line → monLookup line ≠ some (.monAdd, some cstr))
    (hdel : deletes w (.hdlr s x) = none) (hh : Handled sys s x w w') : tableNames w' = tableNames w := by
  have hacts : Acts sys (fun _ op => op.ofTable = false) w w' := by
    refine hh.acts ⟨fun line cstr hs hx hl => (hadd line cstr hs hx hl).elim, fun _ _ _ _ _ _ _ _ _ _ => rfl,
      fun _ _ _ => rfl, fun id h => ?_, fun id _ _ _ h => ?_⟩
    · rw [hdel] at h
      cases h
    · rw [hdel] at h
      cases h
  refine (hacts.invariant (P := fun v => TableInv v ∧ tableNames v = tableNames w) ?_ ⟨ht, rfl⟩).2
  rintro v v' ⟨htv, hv⟩ ha
  refine ⟨ha.tableInv htv, ?_⟩
  rcases ha.names htv (hv ▸ hnames) with heq | ⟨-, ⟨_, hop⟩ | ⟨_, hop⟩⟩
  · exact heq.trans hv
  · cases hop
  · cases hop

lemma hdlr_renames {s : Source} {x : Answer} (hl : LoopReady w) (ht : TableInv w)
    (hnames : (tableNames w).Nodup) (h : hdlr sys s x w = .ok () w') : Renames sys w (.hdlr s x) w' := by
  by_cases hadd : ∃ line cstr, s = .dom .mon ∧ x.line = some line ∧ monLookup line = some (.monAdd, some cstr)
  · obtain ⟨line, cstr, rfl, hx, hlook⟩ := hadd
    have hnone : deletes w (.hdlr (.dom .mon) x) = none := by simp [deletes, hx, hlook]
    simp only [hdlr, hx, monProcess, hlook, monRun] at h
    replace h := (require_bind_eq_ok.mp h).2
    have hins (n : CStr) : Inserts sys w (.hdlr (.dom .mon) x) n ↔
        ∃ f, Admitted sys w cstr f ∧ CanAdd sys (f.spec sys w) (parsed f w) ∧ f.name = n := by
      simp [Inserts, hx, hlook]
    refine ⟨fun n hn => ?_, fun id hid => ?_, fun hno _ => ?_⟩
    · obtain ⟨f, hf, hcan, rfl⟩ := (hins n).mp hn
      rcases monAdd_names hl ht h with ⟨g, hg, -, heq⟩ | ⟨hnot, -⟩
      · obtain rfl := hg.unique hf
        exact ⟨Keyed.find_none_iff.mp (hashFind_eq.symm.trans hg.2.2), heq⟩
      · exact (hnot f hf hcan).elim
    · rw [hnone] at hid
      cases hid
    · rcases monAdd_names hl ht h with ⟨f, hf, hcan, -⟩ | ⟨-, heq⟩
      · exact (hno f.name ((hins _).mpr ⟨f, hf, hcan, rfl⟩)).elim
      · exact heq
  · have hh := hdlr_cases h
    refine ⟨fun n hn => ?_, fun id hid => ?_, fun _ hnone => other_names ht hnames ?_ hnone hh⟩
    · cases s with
      | dom r =>
        cases r with
        | mon =>
          obtain ⟨line, cstr, -, hx, hlook, -⟩ := hn
          exact (hadd ⟨line, cstr, rfl, hx, hlook⟩).elim
        | _ => exact hn.elim
      | _ => exact hn.elim
    · exact deleted_names hnames h hid
    · exact fun line cstr hs hx hlook => hadd ⟨line, cstr, hs, hx, hlook⟩

/-- The command table is a dictionary in every state of a run: names are unique, a name finds the
command that has it, additions insert a name that is new and removals delete the name of their command,
and `del` deletes its name. -/
theorem names_dictionary {ok : World → Event → Prop} (hw : Reachable sys ok w) :
    (tableNames w).Nodup ∧
      (∀ n id, w.hashFind n = some id ↔ id ∈ w.gbls.cmds ∧ (w.heap id).name = n) ∧
      (∀ e w', Step sys w e w' → Renames sys w e w') ∧
      ∀ x line n w', x.line = some line → monLookup line = some (.monDel, some n) →
        hdlr sys (.dom .mon) x w = .ok () w' → tableNames w' = (tableNames w).erase n := by
  have hnames := reachable_names hw
  refine ⟨hnames, fun n id => ?_, fun e w' hstep => ?_, fun x line n w' hx hl h => del_names hnames hx hl h⟩
  · rw [hashFind_eq]
    exact Keyed.find_iff hnames
  · cases e with
    | env e =>
      rw [modify_eq_ok.mp hstep]
      exact ⟨fun n hn => hn.elim, fun id hid => (by cases hid), fun _ _ => apply_names w e⟩
    | hdlr s x => exact hdlr_renames (reachable_loopReady hw) (reachable_tableInv hw) hnames hstep

/-- A second command has been added, and the first one deleted after it. -/
theorem names_dictionary_added : ∃ w w', Reachable quietSys (fun _ _ => True) w ∧
    tableNames w = [bytes "a", bytes "b"] ∧ (tableNames w).Nodup ∧ w.hashFind (bytes "b") = some 1 ∧
    Step quietSys w (.hdlr (.dom .mon) { line := some (bytes "del a") }) w' ∧ tableNames w' = [bytes "b"] := by
  obtain ⟨w, hw, hp⟩ := exists_reachable quietSys (fun _ _ => True) oneCmd
    [.hdlr (.dom .mon) { line := some (bytes "add b,,,1,y") }]
    (fun w => decide (tableNames w = [bytes "a", bytes "b"] ∧ 1 ∈ w.gbls.cmds ∧
      (w.heap 1).name = bytes "b" ∧
      deletes w (.hdlr (.dom .mon) { line := some (bytes "del a") }) = some 0 ∧ nameOf w 0 = bytes "a") &&
      handles quietSys (.dom .mon) { line := some (bytes "del a") } (fun _ => true) w) (by decide +kernel)
  obtain ⟨hstate, hp⟩ := Bool.and_eq_true_iff.mp hp
  obtain ⟨hnames, hid, hname, hdel, ha⟩ := of_decide_eq_true hstate
  obtain ⟨w', hstep, -⟩ := exists_handled hp
  obtain ⟨hnodup, hfind, hrenames, -⟩ := names_dictionary hw
  refine ⟨w, w', hw, hnames, hnodup, (hfind _ _).mpr ⟨hid, hname⟩, hstep, ?_⟩
  have hstep' : Step quietSys w (.hdlr (.dom .mon) { line := some (bytes "del a") }) w' := hstep
  rw [((hrenames _ w' hstep').deleted 0 hdel).2, hnames, ha]
  decide

end Yar.Proofs
