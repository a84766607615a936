import Yar.Proofs.Exits
import Yar.Proofs.Io

/-!
# The mount point and the log

Besides the links of its ttys yar makes two entries in the directory: the directory it mounts its file
system on, and the log. `cleanup` removes both, the log unless it is to be kept.
-/

namespace Yar.Proofs

open Program

variable {sys : Sys} {w w' : World} {path : CStr} {S : Set Part}

/-! ## Calls -/

lemma mkdir_cases {b : Bool} (h : mkdir sys path w = .ok b w') :
    (b = false ∧ w' = called w) ∨
    (b = true ∧ w.kern.names (sys.resolve path) = none ∧
      w' = { called w with
        kern.names := Function.update w.kern.names (sys.resolve path) (some .dir) }) := by
  obtain ⟨k, w₁, hcall, h⟩ := bind_eq_ok.mp h
  obtain ⟨rfl, rfl⟩ := call_ok hcall
  replace h := get_bind_eq_ok.mp h
  by_cases hno : (path.isEmpty || ((called w).kern.names (sys.resolve path)).isSome ||
      sys.fails w.kern.calls) = true
  · rw [if_pos hno] at h
    obtain ⟨rfl, rfl⟩ := pure_eq_ok.mp h
    exact .inl ⟨rfl, rfl⟩
  · rw [if_neg hno] at h
    replace h := modify_bind_eq_ok.mp h
    obtain ⟨rfl, rfl⟩ := pure_eq_ok.mp h
    simp only [Bool.or_eq_true, not_or, Option.not_isSome_iff_eq_none] at hno
    exact .inr ⟨rfl, hno.1.2, rfl⟩

lemma mkdir_returns (w : World) : Returns (mkdir sys path) w :=
  .bind ⟨_, _, rfl⟩ fun _ _ _ => .get_bind (.ite (fun _ => .pure _ _) fun _ =>
    .bind (.modifyState _ _) fun _ _ _ => .pure _ _)

lemma fuse_session_mount_returns (w : World) : Returns (fuse_session_mount sys path) w :=
  .bind ⟨_, _, rfl⟩ fun _ _ _ => .ite (fun _ => .pure _ _) fun _ =>
    .bind (.modifyState _ _) fun _ _ _ => .pure _ _

lemma fuse_session_mount_cases {b : Bool} (h : fuse_session_mount sys path w = .ok b w') :
    (b = false ∧ w' = called w) ∨
    (b = true ∧ w' = { called w with kern.mounts := sys.resolve path :: w.kern.mounts }) := by
  obtain ⟨k, w₁, hcall, h⟩ := bind_eq_ok.mp h
  obtain ⟨rfl, rfl⟩ := call_ok hcall
  by_cases hfail : sys.fails w.kern.calls = true
  · rw [if_pos hfail] at h
    obtain ⟨rfl, rfl⟩ := pure_eq_ok.mp h
    exact .inl ⟨rfl, rfl⟩
  · rw [if_neg hfail] at h
    replace h := modify_bind_eq_ok.mp h
    obtain ⟨rfl, rfl⟩ := pure_eq_ok.mp h
    exact .inr ⟨rfl, rfl⟩

/-- The entries once the file has been opened for writing. -/
def reopened (sys : Sys) (path : Option CStr) (names : CStr → Option Node) : CStr → Option Node :=
  match path with
  | some path =>
    if names (sys.resolve path) = none then Function.update names (sys.resolve path) (some .other)
    else names
  | none => names

/-- A file that can be opened is no directory. -/
lemma freopen_cases {path : Option CStr} {b : Bool} (h : freopen sys path w = .ok b w') :
    (b = false ∧ w' = called w) ∨
    (b = true ∧ (∀ p, path = some p → w.kern.names (sys.resolve p) ≠ some .dir) ∧
      w' = { called w with kern.names := reopened sys path w.kern.names }) := by
  obtain ⟨k, w₁, hcall, h⟩ := bind_eq_ok.mp h
  obtain ⟨rfl, rfl⟩ := call_ok hcall
  by_cases hfail : sys.fails w.kern.calls = true
  · rw [if_pos hfail] at h
    obtain ⟨rfl, rfl⟩ := pure_eq_ok.mp h
    exact .inl ⟨rfl, rfl⟩
  rw [if_neg hfail] at h
  cases path with
  | none =>
    obtain ⟨rfl, rfl⟩ := pure_eq_ok.mp h
    exact .inr ⟨rfl, nofun, rfl⟩
  | some path =>
    replace h := get_bind_eq_ok.mp h
    have hnames : (called w).kern.names = w.kern.names := rfl
    rw [hnames] at h
    cases hn : w.kern.names (sys.resolve path) with
    | none =>
      simp only [hn] at h
      replace h := modify_bind_eq_ok.mp h
      obtain ⟨rfl, rfl⟩ := pure_eq_ok.mp h
      refine .inr ⟨rfl, ?_, ?_⟩
      · rintro p hp
        obtain rfl := Option.some_inj.mp hp
        simp [hn]
      · simp only [reopened, hn, if_true]
        rfl
    | some n =>
      have hkeeps : reopened sys (some path) w.kern.names = w.kern.names := by simp [reopened, hn]
      have hkept (hn' : n ≠ .dir) : ∀ p, some path = some p → w.kern.names (sys.resolve p) ≠ some .dir := by
        rintro p hp
        obtain rfl := Option.some_inj.mp hp
        simpa [hn] using hn'
      rw [hkeeps]
      cases n with
      | dir =>
        simp only [hn] at h
        obtain ⟨rfl, rfl⟩ := pure_eq_ok.mp h
        exact .inl ⟨rfl, rfl⟩
      | other =>
        simp only [hn] at h
        obtain ⟨rfl, rfl⟩ := pure_eq_ok.mp h
        exact .inr ⟨rfl, hkept (by simp), rfl⟩
      | sym r =>
        simp only [hn] at h
        obtain ⟨rfl, rfl⟩ := pure_eq_ok.mp h
        exact .inr ⟨rfl, hkept (by simp), rfl⟩

lemma freopen_returns (path : Option CStr) (w : World) : Returns (freopen sys path) w := by
  refine .bind ⟨_, _, rfl⟩ fun _ w₁ _ => .ite (fun _ => .pure _ _) fun _ => ?_
  cases path with
  | none => exact .pure _ _
  | some path =>
    refine .get_bind ?_
    split
    · exact .pure _ _
    · exact .pure _ _
    · exact .bind (.modifyState _ _) fun _ _ _ => .pure _ _

/-- The entries once what is under the path has been removed, be it a directory or not. -/
def removed (sys : Sys) (path : CStr) (k : Kernel) : CStr → Option Node :=
  if k.names (sys.resolve path) = some .dir ∧ sys.resolve path ∈ k.mounts then k.names
  else Function.update k.names (sys.resolve path) none

lemma remove_removes (sys : Sys) (path : CStr) (w : World) :
    remove sys path w = .ok () { w with kern.names := removed sys path w.kern } := by
  unfold removed
  by_cases hdir : w.kern.names (sys.resolve path) = some .dir
  · have hrun : remove sys path w = rmdir sys path w := by
      change (if w.kern.names (sys.resolve path) = some .dir then rmdir sys path else _) w = _
      rw [if_pos hdir]
    rw [hrun]
    change when _ _ w = _
    by_cases hmount : sys.resolve path ∈ w.kern.mounts
    · rw [when_neg (by simp [hmount]), if_pos ⟨hdir, hmount⟩]
      rfl
    · rw [when_pos ⟨hdir, hmount⟩, if_neg (by simp [hmount])]
      rfl
  · change (if w.kern.names (sys.resolve path) = some .dir then _ else updKern _) w = _
    rw [if_neg hdir, if_neg (by simp [hdir])]
    rfl

/-- The mount point that the options lead to. -/
def mountPath (g : Globals) : CStr := g.fsmntptdir.getD [] ++ bytes "/" ++ g.pid ++ bytes ".fs"

/-- The file system is mounted on a directory that has been made for it. -/
lemma fsCreate_mounts {u : Unit} (h : fsCreate sys w = .ok u w') :
    w.kern.names (sys.resolve (mountPath w.gbls)) = none ∧
      w' = { called (called w) with
        gbls.fsmntpt := some (mountPath w.gbls)
        gbls.fsmkdir := true
        kern.names := Function.update w.kern.names (sys.resolve (mountPath w.gbls)) (some .dir)
        kern.mounts := sys.resolve (mountPath w.gbls) :: w.kern.mounts } := by
  obtain ⟨mntpt, w₁, hpath, h⟩ := bind_eq_ok.mp (get_bind_eq_ok.mp h)
  obtain ⟨rfl, rfl⟩ := pidPath_ok hpath
  replace h := modify_bind_eq_ok.mp h
  obtain ⟨made, w₂, hmkdir, hrest⟩ := bind_eq_ok.mp h
  obtain ⟨_, w₃, hexit, hrest⟩ := bind_eq_ok.mp hrest
  rcases when_eq_ok.mp hexit with ⟨-, hexit⟩ | ⟨hmade, hw₃⟩
  · exact (exit_keeps (R := fun _ _ => False) sys hexit).elim
  rw [hw₃] at hrest
  rcases mkdir_cases hmkdir with ⟨rfl, -⟩ | ⟨-, hfree, rfl⟩
  · exact (hmade rfl).elim
  replace hrest := modify_bind_eq_ok.mp hrest
  obtain ⟨mounted, w₄, hmount, hend⟩ := bind_eq_ok.mp hrest
  rcases when_eq_ok.mp hend with ⟨-, hexit⟩ | ⟨hmounted, rfl⟩
  · exact (exit_keeps (R := fun _ _ => False) sys hexit).elim
  rcases fuse_session_mount_cases hmount with ⟨rfl, -⟩ | ⟨-, rfl⟩
  · exact (hmounted rfl).elim
  · exact ⟨hfree, rfl⟩

/-! ## The log -/

lemma reopened_twice {path : Option CStr} {names : CStr → Option Node} :
    reopened sys path (reopened sys path names) = reopened sys path names := by
  cases path with
  | none => rfl
  | some path =>
    by_cases hn : names (sys.resolve path) = none
    · simp [reopened, hn]
    · simp [reopened, hn]

/-- A world in which the log has been opened, or been tried to. -/
structure LogTried (sys : Sys) (path : Option CStr) (w w' : World) : Prop where
  trace : w'.trace = w.trace
  ttys : w'.ttys = w.ttys
  mounts : w'.kern.mounts = w.kern.mounts
  names : w'.kern.names = w.kern.names ∨ w'.kern.names = reopened sys path w.kern.names

/-- A world in which the log has been opened. -/
structure LogOpen (sys : Sys) (path : Option CStr) (w w' : World) : Prop extends LogTried sys path w w' where
  opened : w'.kern.names = reopened sys path w.kern.names
  file : ∀ p, path = some p → w.kern.names (sys.resolve p) ≠ some .dir

lemma logopen_returns (w : World) : Returns (logopen sys) w :=
  .bind (.modifyState _ _) fun _ _ _ => .get_bind (.bind ⟨_, _, rfl⟩ fun _ _ _ =>
    .ite (fun _ => .pure _ _) fun _ => (freopen_returns _ _).bind fun _ _ _ =>
      .ite (fun _ => .pure _ _) fun _ => .bind (.modifyState _ _) fun _ _ _ => freopen_returns _ _)

lemma logopen_cases {b : Bool} (h : logopen sys w = .ok b w') :
    (b = false ∧ LogTried sys w.gbls.setlogpath.logpath w w') ∨
    (b = true ∧ LogOpen sys w.gbls.setlogpath.logpath w w' ∧
      w'.gbls = { w.gbls.setlogpath with logfile := true }) := by
  replace h := get_bind_eq_ok.mp (modify_bind_eq_ok.mp h)
  dsimp only at h
  obtain ⟨k, w₁, hcall, h⟩ := bind_eq_ok.mp h
  obtain ⟨rfl, rfl⟩ := call_ok hcall
  split at h
  · obtain ⟨rfl, rfl⟩ := pure_eq_ok.mp h
    exact .inl ⟨rfl, rfl, rfl, rfl, .inl rfl⟩
  obtain ⟨out, w₂, hout, hrest⟩ := bind_eq_ok.mp h
  rcases freopen_cases hout with ⟨rfl, rfl⟩ | ⟨rfl, hfile, rfl⟩
  · obtain ⟨rfl, rfl⟩ := pure_eq_ok.mp hrest
    exact .inl ⟨rfl, rfl, rfl, rfl, .inl rfl⟩
  replace hrest := modify_bind_eq_ok.mp hrest
  rcases freopen_cases hrest with ⟨rfl, rfl⟩ | ⟨rfl, -, rfl⟩
  · exact .inl ⟨rfl, rfl, rfl, rfl, .inr rfl⟩
  · have hnames : reopened sys w.gbls.setlogpath.logpath
        (reopened sys w.gbls.setlogpath.logpath w.kern.names) =
        reopened sys w.gbls.setlogpath.logpath w.kern.names := reopened_twice
    exact .inr ⟨rfl, ⟨⟨rfl, rfl, rfl, .inr hnames⟩, hnames, hfile⟩, rfl⟩

/-! ## Cleanup -/

/-- What `fsCleanup` leaves: nothing is mounted on the entry, and it is free if the directory was there. -/
def unmounted (sys : Sys) (w : World) : World :=
  match w.gbls.fsmntpt with
  | some mntpt =>
    if w.gbls.fsmkdir = true then
      { w with
        gbls.fsmntpt := none
        kern.mounts := w.kern.mounts.filter (· ≠ sys.resolve mntpt)
        kern.names :=
          if w.kern.names (sys.resolve mntpt) = some .dir then
            Function.update w.kern.names (sys.resolve mntpt) none
          else w.kern.names }
    else w
  | none => w

lemma fsCleanup_unmounts (sys : Sys) (w : World) : fsCleanup sys w = .ok () (unmounted sys w) := by
  unfold unmounted
  cases hmnt : w.gbls.fsmntpt with
  | none =>
    change (match w.gbls.fsmntpt with | some mntpt => _ | none => pure () : Act Unit) w = _
    rw [hmnt]
    rfl
  | some mntpt =>
    have hrun : fsCleanup sys w = when (w.gbls.fsmkdir = true) (do
        fuse_session_unmount sys mntpt
        rmdir sys mntpt
        updGbls fun g => { g with fsmntpt := none }) w := by
      change (match w.gbls.fsmntpt with | some mntpt => _ | none => pure () : Act Unit) w = _
      rw [hmnt]
    rw [hrun]
    dsimp only
    by_cases hmk : w.gbls.fsmkdir = true
    · rw [when_pos hmk, if_pos hmk]
      refine (bind_of_ok (t := { w with
        kern.mounts := w.kern.mounts.filter (· ≠ sys.resolve mntpt) }) rfl).trans ?_
      by_cases hdir : w.kern.names (sys.resolve mntpt) = some .dir
      · refine (bind_of_ok (a := ()) (t := { w with
          kern.mounts := w.kern.mounts.filter (· ≠ sys.resolve mntpt)
          kern.names := Function.update w.kern.names (sys.resolve mntpt) none }) ?_).trans ?_
        · change when _ _ _ = _
          rw [when_pos ⟨hdir, by simp⟩]
          rfl
        · rw [if_pos hdir]
          rfl
      · refine (bind_of_ok (a := ()) (t := { w with
          kern.mounts := w.kern.mounts.filter (· ≠ sys.resolve mntpt) }) ?_).trans ?_
        · change when _ _ _ = _
          rw [when_neg fun hc => hdir hc.1]
          rfl
        · rw [if_neg hdir]
          rfl
    · rw [when_neg hmk, if_neg hmk]
      rfl

/-- The entries once the log has been removed, unless it is kept. -/
def withoutLog (sys : Sys) (w : World) : CStr → Option Node :=
  match w.gbls.logpath with
  | some path => if w.gbls.keeplog = false then removed sys path w.kern else w.kern.names
  | none => w.kern.names

/-- What the end of the log leaves. -/
def logClosed (sys : Sys) (w : World) : World :=
  if w.gbls.logfile = true then { w with gbls.logfile := false, kern.names := withoutLog sys w } else w

lemma logCleanup_closes (sys : Sys) (w : World) : logCleanup sys w = .ok () (logClosed sys w) := by
  unfold logClosed
  change when (w.gbls.logfile = true) _ w = _
  by_cases hlog : w.gbls.logfile = true
  · rw [when_pos hlog, if_pos hlog]
    unfold withoutLog
    cases hpath : w.gbls.logpath with
    | none => rfl
    | some path =>
      dsimp only
      by_cases hkeep : w.gbls.keeplog = false
      · rw [when_pos hkeep, if_pos hkeep]
        exact bind_of_ok (remove_removes sys path w)
      · rw [when_neg hkeep, if_neg hkeep]
        rfl
  · rw [when_neg hlog, if_neg hlog]
    rfl

/-- The parts that the mount point and the log belong to. -/
abbrev placeParts : Set Part := {.flags, .names}

lemma unmounted_modifies : Modifies placeParts w (unmounted sys w) := by
  unfold unmounted
  cases w.gbls.fsmntpt with
  | none => exact refl_of _ w
  | some mntpt =>
    dsimp only
    split
    · refine Modifies.of_same rfl rfl fun p hp => ?_
      cases p with
      | flags => exact (hp (by simp)).elim
      | names => exact (hp (by simp)).elim
      | _ => first | rfl | trivial
    · exact refl_of _ w

lemma logClosed_modifies : Modifies placeParts w (logClosed sys w) := by
  unfold logClosed
  split
  · refine Modifies.of_same rfl rfl fun p hp => ?_
    cases p with
    | flags => exact (hp (by simp)).elim
    | names => exact (hp (by simp)).elim
    | _ => first | rfl | trivial
  · exact refl_of _ w

lemma fsCleanup_modifies (hS : placeParts ⊆ S) : Keeps (Modifies S) (fsCleanup sys) := by
  intro w u w' h
  cases (fsCleanup_unmounts sys w).symm.trans h
  exact unmounted_modifies.mono hS

lemma logCleanup_modifies (hS : placeParts ⊆ S) : Keeps (Modifies S) (logCleanup sys) := by
  intro w u w' h
  cases (logCleanup_closes sys w).symm.trans h
  exact logClosed_modifies.mono hS

lemma unmounted_cmds : (unmounted sys w).gbls.cmds = w.gbls.cmds :=
  unmounted_modifies.cmds_eq (by simp)

lemma logClosed_cmds : (logClosed sys w).gbls.cmds = w.gbls.cmds :=
  logClosed_modifies.cmds_eq (by simp)

lemma cleanup_parts {u : Unit} (h : cleanup sys w = .ok u w') : ∃ w₁ w₂ w₃,
    when (w.gbls.bcstflg = true) (ttyCleanup sys .bcst) w = .ok () w₁ ∧
    (w.gbls.cmds.forM fun id => do cmdCleanup sys id; hashDel id) w₁ = .ok () w₂ ∧
    ttyCleanup sys .mon (unmounted sys { w₂ with gbls.slowestcmd := none }) = .ok () w₃ ∧
    w' = { logClosed sys w₃ with gbls := (logClosed sys w₃).gbls.clear } := by
  replace h := get_bind_eq_ok.mp h
  obtain ⟨_, w₁, hbcst, h⟩ := bind_eq_ok.mp h
  obtain ⟨_, w₂, hall, h⟩ := bind_eq_ok.mp h
  replace h := modify_bind_eq_ok.mp h
  obtain ⟨_, w₂', hfs, h⟩ := bind_eq_ok.mp h
  rw [fsCleanup_unmounts] at hfs
  cases hfs
  obtain ⟨_, w₃, hmon, h⟩ := bind_eq_ok.mp h
  obtain ⟨_, w₃', hlog, h⟩ := bind_eq_ok.mp h
  rw [logCleanup_closes] at hlog
  cases hlog
  exact ⟨w₁, w₂, w₃, hbcst, hall, hmon, modify_eq_ok.mp h⟩

end Yar.Proofs
