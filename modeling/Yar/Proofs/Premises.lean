import Yar.Proofs.Additions
import Yar.Proofs.Mountpoint
import Yar.Proofs.Unlinks

/-!
# Mount point and log in the directory

The directory that the links of the ttys are made in is `N`: the one yar was started in, with the mount
point and the log as long as they are there. `Setting` ties it to the globals and to `L`, what is to be
left of it.
-/

namespace Yar.Proofs

open Program

variable {sys : Sys} {N L : CStr → Option Node} {w w' : World} {q : CStr} {n : Option Node}

/-- The entry of the mount point that yar has made. -/
def mountEntry (sys : Sys) (g : Globals) : Option CStr :=
  if g.fsmkdir then g.fsmntpt.map sys.resolve else none

/-- The entry of the log that is open. -/
def logEntry (sys : Sys) (g : Globals) : Option CStr :=
  if g.logfile then g.logpath.map sys.resolve else none

/-- The entry is to be removed at the end. -/
def Passing (sys : Sys) (g : Globals) (q : CStr) : Prop :=
  mountEntry sys g = some q ∨ logEntry sys g = some q ∧ g.keeplog = false

instance (sys : Sys) (g : Globals) (q : CStr) : Decidable (Passing sys g q) :=
  inferInstanceAs (Decidable (_ ∨ _ ∧ _))

/-- Without the links of the ttys the directory is `N`, and `L` is to be left of it. -/
structure Setting (sys : Sys) (N L : CStr → Option Node) (w : World) : Prop where
  mount : ∀ q, mountEntry sys w.gbls = some q → N q = some .dir
  mounts : ∀ q ∈ w.kern.mounts, mountEntry sys w.gbls = some q
  log : ∀ q, logEntry sys w.gbls = some q → N q ≠ none ∧ N q ≠ some .dir
  left : ∀ q, L q = if Passing sys w.gbls q then none else N q

lemma dirView_entries (h : dirView w' = dirView w) : mountEntry sys w'.gbls = mountEntry sys w.gbls ∧
    logEntry sys w'.gbls = logEntry sys w.gbls ∧ w'.gbls.keeplog = w.gbls.keeplog := by
  have hp : premises w'.gbls = premises w.gbls := congrArg DirView.premises h
  simp only [premises, Prod.mk.injEq] at hp
  obtain ⟨hmk, hmnt, hfile, hpath, hkeep⟩ := hp
  exact ⟨by rw [mountEntry, mountEntry, hmk, hmnt], by rw [logEntry, logEntry, hfile, hpath], hkeep⟩

lemma Setting.of_entries (h : Setting sys N L w) (hmounts : w'.kern.mounts = w.kern.mounts)
    (hm : mountEntry sys w'.gbls = mountEntry sys w.gbls) (hl : logEntry sys w'.gbls = logEntry sys w.gbls)
    (hk : w'.gbls.keeplog = w.gbls.keeplog) : Setting sys N L w' := by
  refine ⟨hm ▸ h.mount, hmounts ▸ hm ▸ h.mounts, hl ▸ h.log, fun q => ?_⟩
  simp only [Passing, hm, hl, hk]
  exact h.left q

lemma Setting.congr (h : Setting sys N L w) (hd : dirView w' = dirView w) : Setting sys N L w' := by
  have hent : mountEntry sys w'.gbls = mountEntry sys w.gbls ∧ logEntry sys w'.gbls = logEntry sys w.gbls ∧
      w'.gbls.keeplog = w.gbls.keeplog := dirView_entries hd
  obtain ⟨hm, hl, hk⟩ := hent
  exact h.of_entries (congrArg DirView.mounts hd) hm hl hk

/-- With neither a mount point nor a log to be removed everything is to be left. -/
lemma Setting.left_eq (h : Setting sys N L w) (hp : ∀ q, ¬Passing sys w.gbls q) : L = N :=
  funext fun q => by rw [h.left, if_neg (hp q)]

/-! ## Entries that no tty makes -/

/-- No tty has made an entry that was there before. -/
lemma LinksInv.made_of_ground (h : LinksInv sys N w) (hq : N q ≠ none) : made sys w q = none := by
  cases hm : made sys w q with
  | none => rfl
  | some r => exact (hq (h.fresh q r hm)).elim

lemma LinksInv.names_of_ground (h : LinksInv sys N w) (hq : N q ≠ none) : w.kern.names q = N q := by
  rw [h.names, h.made_of_ground hq]
  rfl

/-- A free entry was free before. -/
lemma LinksInv.ground_of_free (h : LinksInv sys N w) (hq : w.kern.names q = none) : N q = none := by
  have hN := h.names q
  rw [h.made_of_names (.inl hq)] at hN
  exact hN.symm.trans hq

/-- An entry that no tty has made changes. -/
lemma LinksInv.update (h : LinksInv sys N w) (hq : made sys w q = none)
    (hnames : w'.kern.names = Function.update w.kern.names q n) (ht : w'.trace = w.trace) :
    LinksInv sys (Function.update N q n) w' := by
  have hmade : made sys w' = made sys w := by
    unfold made
    rw [ht]
  refine ⟨ht ▸ h.own, fun q' => ?_, fun q' r hr => ?_⟩
  · rw [hnames, hmade]
    by_cases heq : q' = q
    · subst heq
      simp [hq]
    · rw [Function.update_of_ne heq, Function.update_of_ne heq]
      exact h.names q'
  · rw [hmade] at hr
    have heq : q' ≠ q := by
      rintro rfl
      cases hq.symm.trans hr
    rw [Function.update_of_ne heq]
    exact h.fresh q' r hr

/-! ## Cleanup -/

/-- After `fsCleanup` nothing is mounted and the mount point is gone. -/
lemma Setting.unmounted (h : Setting sys N L w) (hl : LinksInv sys N w) : ∃ N',
    LinksInv sys N' (unmounted sys w) ∧ Setting sys N' L (unmounted sys w) ∧
      mountEntry sys (unmounted sys w).gbls = none ∧ (unmounted sys w).kern.mounts = [] := by
  cases hentry : mountEntry sys w.gbls with
  | none =>
    have hsame : Proofs.unmounted sys w = w := by
      unfold Proofs.unmounted
      cases hmnt : w.gbls.fsmntpt with
      | none => rfl
      | some mntpt =>
        have hmk : w.gbls.fsmkdir ≠ true := fun hmk => by simp [mountEntry, hmk, hmnt] at hentry
        simp only [if_neg hmk]
    have hmounts : w.kern.mounts = [] := by
      refine List.eq_nil_iff_forall_not_mem.mpr fun q hq => ?_
      cases hentry.symm.trans (h.mounts q hq)
    rw [hsame]
    exact ⟨N, hl, h, hentry, hmounts⟩
  | some q =>
    obtain ⟨hmk, mntpt, hmnt, rfl⟩ : w.gbls.fsmkdir = true ∧
        ∃ mntpt, w.gbls.fsmntpt = some mntpt ∧ sys.resolve mntpt = q := by
      by_cases hmk : w.gbls.fsmkdir = true
      · exact ⟨hmk, by simpa [mountEntry, hmk] using hentry⟩
      · simp [mountEntry, hmk] at hentry
    have hdir := h.mount _ hentry
    have hground : N (sys.resolve mntpt) ≠ none := by simp [hdir]
    have hnames := (hl.names_of_ground hground).trans hdir
    have hrun : Proofs.unmounted sys w = { w with
        gbls.fsmntpt := none
        kern.mounts := w.kern.mounts.filter (· ≠ sys.resolve mntpt)
        kern.names := Function.update w.kern.names (sys.resolve mntpt) none } := by
      unfold Proofs.unmounted
      simp only [hmnt, hmk, hnames, if_true]
    have hgone : mountEntry sys { w.gbls with fsmntpt := none } = none := by simp [mountEntry]
    have hmounts : w.kern.mounts.filter (· ≠ sys.resolve mntpt) = [] := by
      refine List.filter_eq_nil_iff.mpr fun q hq => ?_
      have hq := Option.some_inj.mp ((h.mounts q hq).symm.trans hentry)
      simpa using hq
    rw [hrun]
    refine ⟨Function.update N (sys.resolve mntpt) none, hl.update (hl.made_of_ground hground) rfl rfl,
      ⟨fun q hq => ?_, fun q hq => ?_, fun q hq => ?_, fun q => ?_⟩, hgone, hmounts⟩
    · cases hgone.symm.trans hq
    · rw [hmounts] at hq
      cases hq
    · have hlog := h.log q hq
      have hne : q ≠ sys.resolve mntpt := by
        rintro rfl
        exact hlog.2 hdir
      rw [Function.update_of_ne hne]
      exact hlog
    · rw [h.left]
      by_cases hq : q = sys.resolve mntpt
      · subst hq
        rw [if_pos (.inl hentry), Function.update_self, ite_self]
      · rw [Function.update_of_ne hq]
        have hne : mountEntry sys w.gbls ≠ some q := by
          rw [hentry]
          exact fun heq => hq (Option.some_inj.mp heq).symm
        simp only [Passing, hne, hgone, false_or, reduceCtorEq]
        rfl

/-- After the end of the log nothing is left to be removed. -/
lemma Setting.logClosed (h : Setting sys N L w) (hl : LinksInv sys N w)
    (hentry : mountEntry sys w.gbls = none) (hmounts : w.kern.mounts = []) :
    LinksInv sys L (logClosed sys w) ∧ Setting sys L L { logClosed sys w with
      gbls := (logClosed sys w).gbls.clear } ∧ (logClosed sys w).kern.mounts = [] := by
  have hnolog {g : Globals} (hlog : logEntry sys g = none) (hm : mountEntry sys g = none) (q : CStr) :
      ¬Passing sys g q := by simp [Passing, hlog, hm]
  have hend (w₁ : World) (hm : mountEntry sys w₁.gbls = none) (hmt : w₁.kern.mounts = [])
      (hfile : w₁.gbls.logfile = false) : Setting sys L L { w₁ with gbls := w₁.gbls.clear } := by
    have hlog : logEntry sys w₁.gbls.clear = none := by simp [logEntry, Globals.clear, hfile]
    have hm' : mountEntry sys w₁.gbls.clear = none := hm
    refine ⟨fun q hq => ?_, fun q hq => ?_, fun q hq => ?_, fun q => ?_⟩
    · cases hm'.symm.trans hq
    · exact (List.not_mem_nil (hmt ▸ hq)).elim
    · cases hlog.symm.trans hq
    · rw [if_neg (hnolog hlog hm' q)]
  by_cases hfile : w.gbls.logfile = true
  · have hrun : Proofs.logClosed sys w = { w with
        gbls.logfile := false
        kern.names := withoutLog sys w } := by
      unfold Proofs.logClosed
      rw [if_pos hfile]
    rw [hrun]
    refine ⟨?_, hend _ hentry hmounts rfl, hmounts⟩
    have kept (hp : ∀ q, ¬Passing sys w.gbls q) {w' : World} (hd : w'.kern.names = w.kern.names)
        (ht : w'.trace = w.trace) : LinksInv sys L w' := by
      rw [h.left_eq hp]
      refine ⟨ht ▸ hl.own, ?_, ?_⟩
      · simp only [made, hd, ht]
        exact hl.names
      · simp only [made, ht]
        exact hl.fresh
    cases hpath : w.gbls.logpath with
    | none =>
      refine kept (hnolog (by simp [logEntry, hpath]) hentry) ?_ rfl
      simp only [withoutLog, hpath]
    | some path =>
      have hlog : logEntry sys w.gbls = some (sys.resolve path) := by simp [logEntry, hfile, hpath]
      by_cases hkeep : w.gbls.keeplog = false
      · obtain ⟨hsome, hdir⟩ := h.log _ hlog
        have hleft : L = Function.update N (sys.resolve path) none := by
          funext q
          rw [h.left]
          by_cases hq : q = sys.resolve path
          · subst hq
            rw [if_pos (.inr ⟨hlog, hkeep⟩), Function.update_self]
          · rw [if_neg, Function.update_of_ne hq]
            rintro (hm | ⟨hlog', -⟩)
            · cases hentry.symm.trans hm
            · exact hq (Option.some_inj.mp (hlog.symm.trans hlog')).symm
        rw [hleft]
        refine hl.update (hl.made_of_ground hsome) ?_ rfl
        simp only [withoutLog, hpath]
        rw [if_pos hkeep, removed, if_neg]
        rintro ⟨-, hmem⟩
        exact List.not_mem_nil (hmounts ▸ hmem)
      · refine kept (fun q => ?_) ?_ rfl
        · simp [Passing, hentry, hkeep]
        · simp only [withoutLog, hpath]
          rw [if_neg hkeep]
  · have hrun : Proofs.logClosed sys w = w := by
      unfold Proofs.logClosed
      rw [if_neg hfile]
    rw [hrun]
    have hlog : logEntry sys w.gbls = none := by simp [logEntry, hfile]
    rw [h.left_eq (hnolog hlog hentry)]
    refine ⟨hl, ?_, hmounts⟩
    have hset := hend w hentry hmounts (by simpa using hfile)
    rwa [h.left_eq (hnolog hlog hentry)] at hset

/-! ## The start -/

/-- The path of the log, if there is to be one and the path is not too long. -/
def logPath (o : Options) : Option CStr :=
  if o.logdir.isSome = true ∨ o.daemonize = true then
    let path := o.logdir.getD o.cwd ++ bytes "/" ++ o.pid ++ bytes ".log"
    if path.length < pathMax then some path else none
  else none

/-- The path that the mount point gets. -/
def mntPath (o : Options) : CStr := mountPath (boot o).gbls

/-- The directory once the log has been opened. -/
def logged (sys : Sys) (o : Options) : CStr → Option Node := reopened sys (logPath o) o.names

/-- The directory as it is left at the end: the log is there if it is kept, and is not if it is not, also
if there was a file of that name at first. -/
def leftBehind (sys : Sys) (o : Options) : CStr → Option Node := fun q =>
  if (logPath o).map sys.resolve = some q ∧ o.keeplog = false then none else logged sys o q

lemma logged_of_path {o : Options} {p : CStr} (hp : logPath o = some p) :
    logged sys o (sys.resolve p) = some ((o.names (sys.resolve p)).getD .other) := by
  rw [logged, hp, reopened]
  cases hn : o.names (sys.resolve p) with
  | none => simp
  | some n => simp [hn]

lemma logged_of_ne {o : Options} (hq : ∀ p, logPath o = some p → q ≠ sys.resolve p) :
    logged sys o q = o.names q := by
  rw [logged]
  cases hp : logPath o with
  | none => rfl
  | some p =>
    rw [reopened]
    split
    · exact Function.update_of_ne (hq p hp) _ _
    · rfl

lemma free_of_logged {o : Options} (hq : logged sys o q = none) : o.names q = none := by
  by_cases hlog : ∀ p, logPath o = some p → q ≠ sys.resolve p
  · exact (logged_of_ne hlog).symm.trans hq
  · push Not at hlog
    obtain ⟨p, hp, rfl⟩ := hlog
    cases (logged_of_path hp).symm.trans hq

/-- A world that `main` has done nothing in but parse specifications. -/
structure Parsing (o : Options) (w : World) : Prop where
  gbls : w.gbls = (boot o).gbls
  ttys : w.ttys = (boot o).ttys
  trace : w.trace = []
  mounts : w.kern.mounts = []
  names : w.kern.names = o.names

/-- A world in which the log of `main`, if there is one, is open. -/
structure Logging (sys : Sys) (o : Options) (w : World) : Prop where
  setting : Setting sys (logged sys o) (leftBehind sys o) w
  ttys : w.ttys = (boot o).ttys
  trace : w.trace = []
  mounts : w.kern.mounts = []
  names : w.kern.names = logged sys o
  file : ∀ p, logPath o = some p → o.names (sys.resolve p) ≠ some .dir
  cmds : w.gbls.cmds = []
  fsmkdir : w.gbls.fsmkdir = false
  mountPath : mountPath w.gbls = mntPath o

/-- What is there when `main` ends before it has registered its cleanup. -/
structure EndedEarly (sys : Sys) (o : Options) (w : World) : Prop where
  trace : w.trace = []
  mounts : w.kern.mounts = []
  names : w.kern.names = o.names ∨ w.kern.names = logged sys o

variable {o : Options}

lemma Parsing.ended (h : Parsing o w) : EndedEarly sys o w := ⟨h.trace, h.mounts, .inl h.names⟩

lemma Parsing.calledBy (h : Parsing o w) (n : ℕ) : Parsing o (calledBy n w) :=
  ⟨h.gbls, h.ttys, h.trace, h.mounts, h.names⟩

lemma argsParseSpec_parsing (h : Parsing o w) (spec : CStr) :
    Ensures (argsParseSpec sys spec) w (fun _ => Parsing o) (fun _ => Parsing o) := by
  obtain ⟨res, n, hparse⟩ := cmdspecParse_runs sys spec w
  refine Ensures.bind_of_eq hparse ?_
  cases res with
  | none => exact Ensures.throw (h.calledBy n)
  | some spec => exact Ensures.pure (h.calledBy n)

/-- The globals with the directory of the log. -/
def logging (o : Options) : Globals := { (boot o).gbls with logdir := some (o.logdir.getD o.cwd) }

lemma logging_setlogpath (huse : o.logdir.isSome = true ∨ o.daemonize = true) :
    (logging o).setlogpath = { logging o with logpath := logPath o } := by
  rw [logPath, if_pos huse]
  change (if (o.logdir.getD o.cwd ++ bytes "/" ++ o.pid ++ bytes ".log").length < pathMax then
    { logging o with logpath := some (o.logdir.getD o.cwd ++ bytes "/" ++ o.pid ++ bytes ".log") }
    else logging o) = _
  by_cases hlen : (o.logdir.getD o.cwd ++ bytes "/" ++ o.pid ++ bytes ".log").length < pathMax
  · dsimp only
    rw [if_pos hlen, if_pos hlen]
  · dsimp only
    rw [if_neg hlen, if_neg hlen]
    rfl

/-- Without a mount point only the log is to be removed. -/
lemma setting_of_log (hmk : w.gbls.fsmkdir = false) (hmounts : w.kern.mounts = [])
    (hentry : logEntry sys w.gbls = (logPath o).map sys.resolve) (hkeep : w.gbls.keeplog = o.keeplog)
    (hfile : ∀ p, logPath o = some p → o.names (sys.resolve p) ≠ some .dir) :
    Setting sys (logged sys o) (leftBehind sys o) w := by
  have hmount : mountEntry sys w.gbls = none := by simp [mountEntry, hmk]
  refine ⟨fun q hq => ?_, fun q hq => ?_, fun q hq => ?_, fun q => ?_⟩
  · cases hmount.symm.trans hq
  · rw [hmounts] at hq
    cases hq
  · obtain ⟨p, hp, rfl⟩ := Option.map_eq_some_iff.mp (hentry.symm.trans hq)
    have hdir := hfile p hp
    rw [logged, hp, reopened]
    by_cases hnone : o.names (sys.resolve p) = none
    · simp [hnone]
    · simp [hnone, hdir]
  · simp only [leftBehind, Passing, hmount, hentry, hkeep, false_or, reduceCtorEq]

/-- The log is opened, or `main` ends. -/
lemma logopen_logging (huse : o.logdir.isSome = true ∨ o.daemonize = true) (hg : w.gbls = logging o)
    (h : Parsing o { w with gbls := (boot o).gbls }) :
    Ensures (logopen sys) w (fun opened w' => (opened = false → EndedEarly sys o w') ∧
      (opened = true → Logging sys o w')) (fun _ => EndedEarly sys o) := by
  refine Ensures.of_returns (logopen_returns w) fun opened w' hrun => ?_
  have hopened := logopen_cases hrun
  rw [hg, logging_setlogpath huse] at hopened
  rcases hopened with ⟨rfl, htried⟩ | ⟨rfl, hopen, hgbls⟩
  · refine ⟨fun _ => ⟨htried.trace.trans h.trace, htried.mounts.trans h.mounts, ?_⟩, nofun⟩
    have hnames := htried.names
    rwa [show w.kern.names = o.names from h.names] at hnames
  · have hfile : ∀ p, logPath o = some p → o.names (sys.resolve p) ≠ some .dir := by
      rw [← show w.kern.names = o.names from h.names]
      exact hopen.file
    have hmk : w'.gbls.fsmkdir = false := by
      rw [hgbls]
      rfl
    refine ⟨nofun, fun _ => ⟨setting_of_log hmk (hopen.mounts.trans h.mounts) ?_ ?_ hfile,
      hopen.ttys.trans h.ttys, hopen.trace.trans h.trace, hopen.mounts.trans h.mounts, ?_, hfile, ?_, hmk, ?_⟩⟩
    · simp [hgbls, logEntry]
    · rw [hgbls]
      rfl
    · rw [hopen.opened, show w.kern.names = o.names from h.names]
      rfl
    · rw [hgbls]
      rfl
    · rw [hgbls]
      rfl

/-- Without a log nothing is to be removed. -/
lemma Parsing.logging (h : Parsing o w) (huse : ¬(o.logdir.isSome = true ∨ o.daemonize = true)) :
    Logging sys o w := by
  have hpath : logPath o = none := by rw [logPath, if_neg huse]
  have hlogged : logged sys o = o.names := by rw [logged, hpath, reopened]
  have hfile : ∀ p, logPath o = some p → o.names (sys.resolve p) ≠ some .dir := by simp [hpath]
  have hmk : w.gbls.fsmkdir = false := by
    rw [h.gbls]
    rfl
  refine ⟨setting_of_log hmk h.mounts ?_ ?_ hfile, h.ttys, h.trace, h.mounts, h.names.trans hlogged.symm,
    hfile, ?_, hmk, ?_⟩
  · rw [h.gbls, hpath]
    rfl
  · rw [h.gbls]
    rfl
  · rw [h.gbls]
    rfl
  · rw [h.gbls]
    rfl

lemma logInit_logging (h : Parsing o w) :
    Ensures (logInit sys) w (fun _ => Logging sys o) (fun _ => EndedEarly sys o) := by
  refine Ensures.get_bind (Ensures.bind (Q := fun _ => Parsing o) (Ensures.when (fun _ => ?_) fun _ => h)
    fun _ w₁ _ h₁ => ?_)
  · exact Ensures.bind_of_eq (a := w.kern.calls) (t := called w) rfl
      (Ensures.require (fun _ => h.calledBy 1) fun _ => (h.calledBy 1).ended)
  rw [h.gbls]
  refine Ensures.when (fun huse => ?_) fun huse => h₁.logging huse
  have hlogging : { w₁.gbls with logdir := some (w₁.gbls.logdir.getD w₁.gbls.cwd) } = Proofs.logging o := by
    rw [h₁.gbls]
    rfl
  have hopen : Ensures (logopen sys) { w₁ with gbls.logdir := some (w₁.gbls.logdir.getD w₁.gbls.cwd) }
      (fun opened w' => (opened = false → EndedEarly sys o w') ∧ (opened = true → Logging sys o w'))
      (fun _ => EndedEarly sys o) :=
    logopen_logging (w := { w₁ with gbls.logdir := some (w₁.gbls.logdir.getD w₁.gbls.cwd) }) huse hlogging
      ⟨rfl, h₁.ttys, h₁.trace, h₁.mounts, h₁.names⟩
  refine Ensures.modify_bind (Ensures.bind hopen fun opened w₂ _ hopened => ?_)
  exact Ensures.when (fun hfail => Ensures.throw (hopened.1 hfail)) fun hsome =>
    hopened.2 (Bool.not_eq_false _ ▸ hsome)

end Yar.Proofs
