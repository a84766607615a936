import Mathlib.Data.List.Nodup
import Yar.Proofs.Ownership

/-!
# Cleanup twice

`cleanup` returns unless a running command does not take its stop string. What it gives back then,
and what a second run adds, is what its parts give back; compared with what is owned, some fields
are never given back and the directory of the log is given back by both runs.
-/

namespace Yar.Proofs

open Program Fs

variable {s s' : Own} {fs fs' : Fs} {accepts : CmdId → Bool} {r : TtyRef} {id : CmdId} {x : Res}

/-! ## The file system -/

abbrev Unmounted (fs : Fs) : Prop := fs.mntpt = none

lemma preserves_of_eq {α : Type} {P : Fs → Prop} {m : FsAct α} (h : Keeps Eq m) : Preserves P m :=
  h.mono fun _ _ heq hP => heq ▸ hP

lemma inofree_unmounted (ino : Nat) : Preserves Unmounted (inofree ino) := by
  refine Keeps.bind (preserves_of_eq keeps_ino2inodesc) fun id => ?_
  exact Keeps.bind (Keeps.require _ _) fun _ => Keeps.modify fun s h => h

lemma removeFrom_unmounted (containing : Option Nat) (item : Nat) (y : File) :
    Preserves Unmounted (removeFrom containing item y) := by
  cases containing with
  | none => exact Keeps.pure _
  | some dir =>
    refine Keeps.bind (preserves_of_eq keeps_deref) fun c => ?_
    cases c.data with
    | dir d =>
      refine Keeps.bind (Keeps.require _ _) fun _ => Keeps.bind (Keeps.require _ _) fun _ => ?_
      refine Keeps.bind Keeps.get fun s => ?_
      refine Keeps.bind (Keeps.require _ _) fun _ => Keeps.bind (Keeps.require _ _) fun _ => ?_
      refine Keeps.bind (Keeps.modify fun s h => h) fun _ => ?_
      exact Keeps.bind (Keeps.require _ _) fun _ => Keeps.pure _
    | null => exact Keeps.throw _
    | symlink target => exact Keeps.throw _

lemma fsRemove_unmounted (fuel item : Nat) (purge : Bool) :
    Preserves Unmounted (fsRemove fuel item purge) := by
  induction fuel generalizing item with
  | zero => exact Keeps.throw _
  | succ fuel ih =>
    refine Keeps.bind (preserves_of_eq keeps_deref) fun y => ?_
    refine Keeps.bind (preserves_of_eq keeps_removeDir) fun containing => ?_
    cases containing with
    | none => exact Keeps.pure _
    | some containing =>
      refine Keeps.bind (removeFrom_unmounted _ _ _) fun empty => ?_
      refine Keeps.bind (inofree_unmounted _) fun _ => ?_
      refine Keeps.bind (Keeps.modify fun s h => h) fun _ => ?_
      refine Keeps.bind (Keeps.modify fun s h => h) fun _ => ?_
      cases containing with
      | none => exact Keeps.pure _
      | some dir => exact Keeps.bind (Keeps.when fun _ => Keeps.discard (ih dir)) fun _ => Keeps.pure _

lemma fsScan_unmounted (i k : Nat) : Preserves Unmounted (fsScan i k) := by
  induction k generalizing i with
  | zero => exact Keeps.pure _
  | succ k ih =>
    refine Keeps.bind Keeps.get fun s => ?_
    cases hfile : (s.ino_table i).file with
    | none =>
      simp only [hfile]
      exact ih (i + 1)
    | some file =>
      simp only [hfile]
      refine Keeps.bind (Keeps.require _ _) fun _ => ?_
      refine Keeps.bind (Keeps.bind Keeps.get fun s => fsRemove_unmounted _ _ _) fun _ => ?_
      exact Keeps.bind (ih (i + 1)) fun _ => Keeps.pure _

lemma fsCleanupTable_unmounted : Preserves Unmounted fsCleanupTable := by
  refine Keeps.bind Keeps.get fun s => Keeps.bind (fsScan_unmounted _ _) fun removed => ?_
  refine Keeps.bind (inofree_unmounted _) fun _ => Keeps.bind (Keeps.require _ _) fun _ => ?_
  refine Keeps.bind Keeps.get fun s => Keeps.bind Keeps.get fun s => ?_
  exact Keeps.bind (Keeps.require _ _) fun _ => Keeps.modify fun s h => h

/-- Before the directory for the mount point has been made nothing is held but its path, and then
the tree and the session are there as well. -/
structure FsSound (s : Own) : Prop where
  made : s.fs.mkdir = true →
    s.fs.mntpt ≠ none ∧ s.fuse_se = true ∧ ∃ xs, Built xs s.fs
  unmade : s.fs.mkdir = false →
    s.fs.ino_num = 0 ∧ (∀ f, s.fs.heap f = none) ∧ s.fuse_se = false ∧ s.mounted = false ∧
      s.fuse_args = [] ∧ s.fuse_buf = false

def fsHeld (s : Own) : List Res :=
  heldIf (s.fs.mkdir = true) (.ino_table :: .mntpt :: .mntptDir ::
    (heldIf (s.fuse_buf = true) [.fuse_buf] ++ (heldIf (s.fuse_args ≠ []) [.fuse_args] ++
      (.fuse_se :: heldIf (s.mounted = true) [.mount]))))

def fsCleaned (fs : Fs) (s : Own) : Own :=
  { s with fs := fs, fuse_se := false, mounted := false, fuse_args := [] }

/-- The items of the file system that a run has removed are those there were, each once. -/
def ItemsRemoved (fs fs' : Fs) : Prop :=
  ∃ R : List Nat, fs'.trace = R.map .removed ++ fs.trace ∧ R.Nodup ∧ ∀ f, f ∈ R ↔ fs.heap f ≠ none

/-- Each item is removed once, and nothing is left that a second cleanup would look at. -/
structure FsEmptied (fs fs' : Fs) : Prop where
  off : fs'.mntpt = none ∨ fs'.mkdir = false
  removed : ItemsRemoved fs fs'

lemma fuse_session_unmount_eq (s : Own) : Own.fuse_session_unmount s =
    .ok () (givenBack (heldIf (s.mounted = true) [.mount]) { s with mounted := false }) := by
  unfold Own.fuse_session_unmount
  rw [bind_of_ok (show (get : Own.OwnAct Own) s = .ok s s from rfl)]
  by_cases h : s.mounted = true
  · rw [when_pos h, heldIf_pos h]
    rfl
  · have hsame : { s with mounted := false } = s := by
      rw [← Bool.eq_false_of_not_eq_true h]
    rw [when_neg h, heldIf_neg h, hsame]
    rfl

lemma fuse_opt_free_args_eq (s : Own) : Own.fuse_opt_free_args s =
    .ok () (givenBack (heldIf (s.fuse_args ≠ []) [.fuse_args]) { s with fuse_args := [] }) := by
  unfold Own.fuse_opt_free_args
  rw [bind_of_ok (show (get : Own.OwnAct Own) s = .ok s s from rfl)]
  by_cases h : s.fuse_args ≠ []
  · rw [when_pos h, heldIf_pos h]
    rfl
  · have hsame : { s with fuse_args := [] } = s := by
      rw [← not_not.mp h]
    rw [when_neg h, heldIf_neg h, hsame]
    rfl

lemma releaseIf_eq (p : Prop) [Decidable p] (x : Res) (s : Own) :
    when p (Own.release x) s = .ok () (givenBack (heldIf p [x]) s) := by
  by_cases h : p
  · rw [when_pos h, heldIf_pos h]
    rfl
  · rw [when_neg h, heldIf_neg h]
    rfl

lemma onFs_eq {α : Type} {m : FsAct α} {a : α} (h : m s.fs = .ok a fs) :
    Own.onFs m s = .ok a { s with fs := fs } := by
  unfold Own.onFs
  rw [bind_of_ok (show (get : Own.OwnAct Own) s = .ok s s from rfl)]
  simp only [h]
  rfl

lemma fsCleanupInodes_eq (hfs : s.fs = fs) (hnum : fs.ino_num ≠ 0)
    (h : fsCleanupTable fs = .ok () fs') :
    Own.fsCleanupInodes s = .ok () (givenBack [.ino_table] { s with fs := fs' }) := by
  subst hfs
  unfold Own.fsCleanupInodes
  rw [bind_of_ok (show (get : Own.OwnAct Own) s = .ok s s from rfl)]
  rw [when_pos hnum, bind_of_ok (onFs_eq h)]
  rfl

/-- The session and its arguments. -/
lemma fuse_part (s : Own) :
    (do
      Own.fuse_session_unmount
      Own.release .fuse_se
      modify fun s => { s with fuse_se := false }
      Own.fuse_opt_free_args : Own.OwnAct Unit) s =
      .ok () (givenBack (heldIf (s.fuse_args ≠ []) [.fuse_args] ++
        (.fuse_se :: heldIf (s.mounted = true) [.mount])) (fsCleaned s.fs s)) := by
  rw [bind_of_ok (fuse_session_unmount_eq s)]
  refine (fuse_opt_free_args_eq _).trans (congrArg (EStateM.Result.ok ()) ?_)
  simp only [givenBack, fsCleaned, List.append_assoc, List.cons_append]
  rfl

lemma fsCleanup_eq (h : FsSound s) : ∃ s' fs, Own.fsCleanup s = .ok () s' ∧
    s' = givenBack (fsHeld s) (fsCleaned fs s) ∧ FsEmptied s.fs fs := by
  unfold Own.fsCleanup
  rw [bind_of_ok (show (get : Own.OwnAct Own) s = .ok s s from rfl)]
  cases hmkdir : s.fs.mkdir with
  | false =>
    obtain ⟨-, hheap, hse, hmounted, hargs, -⟩ := h.unmade hmkdir
    have hsame : fsCleaned s.fs s = s := by
      cases s
      cases hse
      cases hmounted
      cases hargs
      rfl
    refine ⟨_, s.fs, ?_, rfl, .inr hmkdir, [], rfl, List.nodup_nil, fun f => by simp [hheap f]⟩
    rw [when_neg (by simp), hsame, fsHeld, heldIf_neg (by simp [hmkdir])]
    rfl
  | true =>
    obtain ⟨hmntpt, hse, xs, hb⟩ := h.made hmkdir
    obtain ⟨R, fs, htable, htrace, hnodup, hall, -⟩ := fsCleanupTable_ok hb.tree hb.unmounted
    have hnum : ({ s.fs with mntpt := none } : Fs).ino_num ≠ 0 := by
      rw [hb.unmounted.holds.num]
      decide
    refine ⟨_, fs, ?_, rfl, .inl (fsCleanupTable_unmounted htable rfl), R, htrace, hnodup, fun f => ?_⟩
    · rw [when_pos ⟨hmntpt, rfl⟩, when_pos hse]
      rw [bind_of_ok (fuse_part s)]
      rw [bind_of_ok (releaseIf_eq _ _ _)]
      rw [bind_of_ok (show Own.release .mntptDir _ = .ok () (givenBack [.mntptDir] _) from rfl)]
      rw [bind_of_ok (show Own.release .mntpt _ = .ok () (givenBack [.mntpt] _) from rfl)]
      change Own.fsCleanupInodes _ = _
      refine (fsCleanupInodes_eq (by rfl) hnum htable).trans (congrArg (EStateM.Result.ok ()) ?_)
      rw [fsHeld, heldIf_pos hmkdir]
      simp only [givenBack, fsCleaned, List.append_assoc, List.cons_append, List.nil_append]
    · rw [hall, hb.heap_ne_none]

/-! ## The log -/

def logHeld (s : Own) : List Res :=
  heldIf (s.str .logdir = none) (held (s.str .logpath) (.str .logpath)) ++
    (held (s.str .logdir) (.str .logdir) ++
      heldIf (s.logfile = true) (heldIf (s.keeplog = false) [.log] ++ [.logfile]))

def logCleaned (s : Own) : Own :=
  givenBack (logHeld s)
    { s with logfile := false, str := Function.update s.str .logpath none }

lemma logfile_eq (s : Own) :
    when (s.logfile = true) (do
      Own.release .logfile
      when (s.keeplog = false) (Own.release .log)
      modify fun s => { s with logfile := false }) s =
      .ok () (givenBack (heldIf (s.logfile = true) (heldIf (s.keeplog = false) [.log] ++ [.logfile]))
        { s with logfile := false }) := by
  by_cases h : s.logfile = true
  · rw [when_pos h, heldIf_pos h]
    rw [bind_of_ok (show Own.release .logfile s = .ok () (givenBack [.logfile] s) from rfl)]
    rw [bind_of_ok (releaseIf_eq _ _ _)]
    refine congrArg (EStateM.Result.ok ()) ?_
    simp only [givenBack, List.append_assoc]
  · have hsame : { s with logfile := false } = s := by
      rw [← Bool.eq_false_of_not_eq_true h]
    rw [when_neg h, heldIf_neg h, hsame]
    rfl

lemma logCleanup_eq (s : Own) : Own.logCleanup s = .ok () (logCleaned s) := by
  unfold Own.logCleanup
  rw [bind_of_ok (show (get : Own.OwnAct Own) s = .ok s s from rfl), bind_of_ok (logfile_eq s)]
  by_cases h : s.str .logdir = none
  · rw [when_neg (not_not.mpr h)]
    refine (freeStr_eq _ _).trans (congrArg (EStateM.Result.ok ()) ?_)
    unfold logCleaned logHeld strFreed
    rw [heldIf_pos h, h]
    simp only [givenBack, List.append_assoc]
    rfl
  · have hdir (t : Own) : (do
        Own.release (.str .logdir)
        Own.setStr .logpath none : Own.OwnAct Unit) t =
        .ok () (givenBack [.str .logdir] { t with str := Function.update t.str .logpath none }) :=
      rfl
    rw [when_pos h, bind_of_ok (hdir _)]
    refine (freeStr_eq _ _).trans (congrArg (EStateM.Result.ok ()) ?_)
    obtain ⟨dir, hdir⟩ := Option.ne_none_iff_exists'.mp h
    unfold logCleaned logHeld strFreed
    rw [heldIf_neg h, hdir]
    simp [givenBack, held]

/-! ## The first run -/

/-- Every command that is running takes its stop string. -/
def StopsTaken (accepts : CmdId → Bool) (s : Own) : Prop := ∀ id ∈ s.cmds, StopTaken accepts s id

/-- Of the strings only the directory of the log is left. -/
def strCleaned (str : GblsStr → Option CStr) (f : GblsStr) : Option CStr :=
  if f = .logdir then str .logdir else none

lemma bcst_eq (s : Own) : ∃ s' ttys, when (s.bcstflg = true) (Own.ttyCleanup .bcst) s = .ok () s' ∧
    s' = givenBack (heldIf (s.bcstflg = true) (ttyHeld .bcst (s.ttys .bcst)))
      { s with ttys := ttys } ∧
    (s.bcstflg = true → ttys .bcst = {}) ∧ ∀ r, r ≠ .bcst → ttys r = s.ttys r := by
  by_cases h : s.bcstflg = true
  · refine ⟨_, Function.update s.ttys .bcst {}, ?_, rfl, fun _ => Function.update_self _ _ _,
      fun r hr => Function.update_of_ne hr _ _⟩
    rw [when_pos h, heldIf_pos h]
    exact ttyCleanup_eq _ _
  · refine ⟨_, s.ttys, ?_, rfl, fun hb => (h hb).elim, fun r _ => rfl⟩
    rw [when_neg h, heldIf_neg h]
    rfl

def monCleaned (s : Own) : Own := { ttyCleaned .mon s with fileptr := none }

lemma monCleanup_eq (s : Own) : Own.monCleanup s = .ok () (monCleaned s) := by
  unfold Own.monCleanup
  rw [bind_of_ok (ttyCleanup_eq _ _)]
  rfl

def sigprocCleaned (s : Own) : Own := givenBack (held s.sfd .sfd) { s with sfd := none }

lemma sigprocCleanup_eq (s : Own) : Own.sigprocCleanup s = .ok () (sigprocCleaned s) := by
  unfold Own.sigprocCleanup
  rw [bind_of_ok (show (get : Own.OwnAct Own) s = .ok s s from rfl)]
  rw [bind_of_ok (releaseSet_eq _ _ _)]
  rfl

/-- From `monCleanup` on. -/
def tailHeld (s : Own) : List Res :=
  held s.sfd .sfd ++ (held (s.str .cwd) (.str .cwd) ++
    (held (s.str .fsmntptdir) (.str .fsmntptdir) ++
      (held (s.str .monttylinkdir) (.str .monttylinkdir) ++
        (held (s.str .bcstttylink) (.str .bcstttylink) ++ (held (s.str .stopstr) (.str .stopstr) ++
          (held (s.str .readystr) (.str .readystr) ++ (logHeld s ++ ttyHeld .mon (s.ttys .mon))))))))

lemma tailHeld_congr (hsfd : s'.sfd = s.sfd) (hstr : s'.str = s.str) (hlog : s'.logfile = s.logfile)
    (hkeep : s'.keeplog = s.keeplog) (hmon : s'.ttys .mon = s.ttys .mon) :
    tailHeld s' = tailHeld s := by
  unfold tailHeld logHeld
  rw [hsfd, hstr, hlog, hkeep, hmon]

def tailCleaned (s : Own) : Own :=
  givenBack (tailHeld s)
    { s with
      str := strCleaned s.str, logfile := false, ttys := Function.update s.ttys .mon {},
      fileptr := none, sfd := none }

lemma tail_eq (s : Own) :
    (do
      Own.monCleanup
      Own.logCleanup
      Own.freeStr .readystr
      Own.freeStr .stopstr
      Own.freeStr .bcstttylink
      Own.freeStr .monttylinkdir
      Own.freeStr .fsmntptdir
      Own.freeStr .cwd
      Own.sigprocCleanup : Own.OwnAct Unit) s = .ok () (tailCleaned s) := by
  rw [bind_of_ok (monCleanup_eq s), bind_of_ok (logCleanup_eq _), bind_of_ok (freeStr_eq _ _)]
  rw [bind_of_ok (freeStr_eq _ _), bind_of_ok (freeStr_eq _ _), bind_of_ok (freeStr_eq _ _)]
  rw [bind_of_ok (freeStr_eq _ _), bind_of_ok (freeStr_eq _ _), sigprocCleanup_eq]
  refine congrArg (EStateM.Result.ok ()) ?_
  apply Own.ext
  case str =>
    funext f
    cases f <;> rfl
  case released =>
    unfold tailCleaned tailHeld givenBack
    simp only [List.append_assoc]
    rfl
  all_goals rfl

/-- A second run finds nothing but the directory of the log. -/
structure Emptied (s : Own) : Prop where
  bcst : s.bcstflg = true → s.ttys .bcst = {}
  cmds : s.cmds = []
  fs : s.fs.mntpt = none ∨ s.fs.mkdir = false
  mon : s.ttys .mon = {}
  fileptr : s.fileptr = none
  logfile : s.logfile = false
  str : ∀ f, f ≠ .logdir → s.str f = none
  sfd : s.sfd = none

/-- What a run of `cleanup` gives back, newest first. -/
def cleanupHeld (s : Own) : List Res :=
  tailHeld s ++ (fsHeld s ++ ((s.cmds.reverse.flatMap fun id => .cmd id :: cmdHeld id s) ++
    heldIf (s.bcstflg = true) (ttyHeld .bcst (s.ttys .bcst))))

/-- A returning run, with what it has given back and left. -/
lemma cleanup_eq (hfs : FsSound s) (hnodup : s.cmds.Nodup) (h : StopsTaken accepts s) :
    ∃ s', Own.cleanup accepts s = .ok () s' ∧ s'.released = cleanupHeld s ++ s.released ∧
      Emptied s' ∧ s'.str .logdir = s.str .logdir ∧ FsEmptied s.fs s'.fs := by
  obtain ⟨s₁, ttys, hrun₁, hs₁, hbcst, hother⟩ := bcst_eq s
  obtain ⟨s₂, ttys', heap, hrun₂, hs₂, hbcst', hmon⟩ := cmds_eq s.cmds hnodup s₁ fun id hid => by
    rw [hs₁]
    exact h id hid
  obtain ⟨s₃, fs, hrun₃, hs₃, hemptied⟩ := fsCleanup_eq (s := s₂) (by
    rw [hs₂, hs₁]
    exact ⟨hfs.made, hfs.unmade⟩)
  have hheld (id : CmdId) : cmdHeld id s₁ = cmdHeld id s := by
    rw [hs₁]
    exact cmdHeld_congr rfl (hother _ (by simp)) (hother _ (by simp))
  have htail : tailHeld s₃ = tailHeld s := by
    rw [hs₃, hs₂, hs₁]
    refine tailHeld_congr rfl rfl rfl rfl (hmon.trans ?_)
    rw [hs₁]
    exact hother _ (by simp)
  have hfsHeld : fsHeld s₂ = fsHeld s := by
    rw [hs₂, hs₁]
    rfl
  have hfs₃ : s₃.fs = fs := by rw [hs₃]; rfl
  have hstr₃ : s₃.str = s.str := by rw [hs₃, hs₂, hs₁]; rfl
  have hbcst₃ : s₃.bcstflg = true → s₃.ttys .bcst = {} := by
    rw [hs₃, hs₂]
    intro hb
    refine hbcst'.trans ?_
    rw [hs₁] at hb ⊢
    exact hbcst hb
  have hcmds₃ : s₃.cmds = [] := by
    rw [hs₃, hs₂, hs₁]
    exact List.filter_eq_nil_iff.mpr fun id hid hmem => (of_decide_eq_true hmem) hid
  have hreleased₃ : s₃.released = fsHeld s ++ ((s.cmds.reverse.flatMap fun id =>
      .cmd id :: cmdHeld id s) ++ (heldIf (s.bcstflg = true) (ttyHeld .bcst (s.ttys .bcst)) ++
        s.released)) := by
    simp only [hheld] at hs₂
    rw [hs₃, hfsHeld, hs₂, hs₁]
    rfl
  refine ⟨tailCleaned s₃, ?_, ?_, ⟨hbcst₃, hcmds₃, ?_, ?_, rfl, rfl, ?_, rfl⟩, ?_, ?_⟩
  · unfold Own.cleanup
    rw [bind_of_ok (show (get : Own.OwnAct Own) s = .ok s s from rfl), bind_of_ok hrun₁]
    rw [bind_of_ok (show (get : Own.OwnAct Own) s₁ = .ok s₁ s₁ from rfl)]
    have hcmds₁ : s₁.cmds = s.cmds := by rw [hs₁]; rfl
    rw [hcmds₁, bind_of_ok hrun₂, bind_of_ok hrun₃]
    exact tail_eq s₃
  · have hlist : (tailCleaned s₃).released = tailHeld s₃ ++ s₃.released := rfl
    rw [hlist, htail, hreleased₃, cleanupHeld]
    simp only [List.append_assoc]
  · rw [show (tailCleaned s₃).fs = s₃.fs from rfl, hfs₃]
    exact hemptied.off
  · exact Function.update_self .mon ({} : Tty) s₃.ttys
  · exact fun f hf => if_neg hf
  · rw [show (tailCleaned s₃).str .logdir = s₃.str .logdir from rfl, hstr₃]
  · rw [show (tailCleaned s₃).fs = s₃.fs from rfl, hfs₃]
    rw [hs₂, hs₁] at hemptied
    exact hemptied

/-! ## The second run -/

lemma ttyCleaned_empty (h : s.ttys r = {}) : ttyCleaned r s = s := by
  unfold ttyCleaned
  rw [h, ← h, Function.update_eq_self, h]
  rfl

lemma tailCleaned_empty (h : Emptied s) :
    tailCleaned s = givenBack (held (s.str .logdir) (.str .logdir)) s := by
  have hheld : tailHeld s = held (s.str .logdir) (.str .logdir) := by
    unfold tailHeld logHeld
    rw [h.sfd, h.mon, h.logfile, h.str .cwd (by simp), h.str .fsmntptdir (by simp),
      h.str .monttylinkdir (by simp), h.str .bcstttylink (by simp), h.str .stopstr (by simp),
      h.str .readystr (by simp), h.str .logpath (by simp)]
    cases s.str .logdir <;> rfl
  have hstr : strCleaned s.str = s.str := by
    funext f
    unfold strCleaned
    split
    case isTrue hf => rw [hf]
    case isFalse hf => rw [h.str f hf]
  have httys : Function.update s.ttys .mon {} = s.ttys := by rw [← h.mon, Function.update_eq_self]
  unfold tailCleaned
  rw [hheld, hstr, httys]
  apply Own.ext
  case logfile => exact h.logfile.symm
  case fileptr => exact h.fileptr.symm
  case sfd => exact h.sfd.symm
  all_goals rfl

/-- All that a second run does is that it frees the directory of the log. -/
lemma cleanup_again (h : Emptied s) :
    Own.cleanup accepts s = .ok () (givenBack (held (s.str .logdir) (.str .logdir)) s) := by
  have hbcst : when (s.bcstflg = true) (Own.ttyCleanup .bcst) s = .ok () s := by
    by_cases hb : s.bcstflg = true
    · rw [when_pos hb, ttyCleanup_eq, ttyCleaned_empty (h.bcst hb)]
    · rw [when_neg hb]
      rfl
  have hcmds : (s.cmds.forM fun id => do
      Own.cmdCleanup accepts id
      Own.hashDel id : Own.OwnAct Unit) s = .ok () s := by
    rw [h.cmds]
    rfl
  have hfs : Own.fsCleanup s = .ok () s := by
    unfold Own.fsCleanup
    rw [bind_of_ok (show (get : Own.OwnAct Own) s = .ok s s from rfl), when_neg]
    · rfl
    · rcases h.fs with hfs | hfs
      · exact fun hand => hand.1 hfs
      · simp [hfs]
  unfold Own.cleanup
  rw [bind_of_ok (show (get : Own.OwnAct Own) s = .ok s s from rfl), bind_of_ok hbcst]
  rw [bind_of_ok (show (get : Own.OwnAct Own) s = .ok s s from rfl)]
  rw [bind_of_ok hcmds, bind_of_ok hfs, ← tailCleaned_empty h]
  exact tail_eq s

/-! ## What is owned and what is given back -/

/-- The tty is one of `GBLS`, or of a command in the table. -/
def TtyKnown (s : Own) (r : TtyRef) : Prop :=
  match r with
  | .bcst | .mon => True
  | .cmd id | .clt id => id ∈ s.cmds

/-- What the fields hold. The entries of a tty are there once it has been created. -/
def Owned (s : Own) (x : Res) : Prop :=
  match x with
  | .str f => s.str f ≠ none
  | .logfile => s.logfile = true
  | .log => s.logfile = true ∧ s.keeplog = false
  | .ttyStr r f => TtyKnown s r ∧ ttyStr (s.ttys r) f ≠ none
  | .ttyFd r f => TtyKnown s r ∧ ttyFd (s.ttys r) f ≠ none
  | .entry r f => TtyKnown s r ∧ (s.ttys r).dfd ≠ none ∧ NamesEntry (s.ttys r) f
  | .cmd id => id ∈ s.cmds
  | .cmdstr id => id ∈ s.cmds ∧ (s.heap id).cmdstr ≠ none
  | .bcstprefixstr id => id ∈ s.cmds ∧ OwnCmd.bcstprefix (s.heap id) ≠ none
  | .child id => id ∈ s.cmds ∧ (s.heap id).pid ≠ none
  | .pidfd id => id ∈ s.cmds ∧ (s.heap id).pidfd ≠ none
  | .fileptr => s.fileptr ≠ none
  | .sfd => s.sfd ≠ none
  | .mount => s.mounted = true
  | .fuse_se => s.fuse_se = true
  | .fuse_args => s.fuse_args ≠ []
  | .fuse_buf => s.fuse_buf = true
  | .mntptDir => s.fs.mkdir = true
  | .mntpt => s.fs.mntpt ≠ none
  | .ino_table => s.fs.ino_num ≠ 0

/-- What no run gives back: the path of the log when it has a directory, the broadcast tty while it
is not used, the stream of the monitor, and the path of a mount point that could not be made. -/
def Leaked (s : Own) (x : Res) : Prop :=
  match x with
  | .str .logpath => s.str .logdir ≠ none
  | .ttyStr .bcst _ | .ttyFd .bcst _ | .entry .bcst _ => s.bcstflg = false
  | .fileptr => True
  | .mntpt => s.fs.mkdir = false
  | _ => False

/-- The ttys that `cleanup` cleans up. -/
def Swept (s : Own) (r : TtyRef) : Prop :=
  match r with
  | .bcst => s.bcstflg = true
  | .mon => True
  | .cmd id | .clt id => id ∈ s.cmds

/-- The states `cleanup` is called in. `setup` is a tty between its initialisation and its creation. -/
structure Sound (setup : Option TtyRef) (s : Own) : Prop where
  nodup : s.cmds.Nodup
  below : ∀ id ∈ s.cmds, id < s.brk
  entries : ∀ r, Swept s r → some r ≠ setup → (s.ttys r).dfd = none → ∀ f, ¬NamesEntry (s.ttys r) f
  forked : ∀ id ∈ s.cmds, ((s.heap id).pid = none ↔ (s.heap id).pidfd = none)
  fs : FsSound s

@[simp] lemma ite_oneIf {p q : Prop} [Decidable p] :
    (if p then oneIf q else 0) = oneIf (p ∧ q) := by
  by_cases h : p <;> simp [h]

@[simp] lemma ite_one {p : Prop} [Decidable p] : (if p then 1 else 0) = oneIf p := by
  by_cases h : p <;> simp [h]

@[simp] lemma ite_one_not {p : Prop} [Decidable p] : (if p then 0 else 1) = oneIf ¬p := by
  by_cases h : p <;> simp [h]

lemma count_cmds (hnodup : s.cmds.Nodup) :
    (s.cmds.reverse.flatMap fun id => .cmd id :: cmdHeld id s).count x =
      oneIf (∃ id ∈ s.cmds, CmdHolds s id x) := by
  rw [count_flatMap_eq (List.nodup_reverse.mpr hnodup) (fun id _ => count_cmdHeld)
    fun _ _ h h' => h.ref h']
  simp only [List.mem_reverse]

/-- What `tailHeld` lists. -/
def TailHolds (s : Own) (x : Res) : Prop :=
  match x with
  | .str .logpath => s.str .logdir = none ∧ s.str .logpath ≠ none
  | .str f => s.str f ≠ none
  | .logfile => s.logfile = true
  | .log => s.logfile = true ∧ s.keeplog = false
  | .ttyStr _ _ | .ttyFd _ _ | .entry _ _ => TtyHolds .mon (s.ttys .mon) x
  | .sfd => s.sfd ≠ none
  | _ => False

lemma count_tailHeld : (tailHeld s).count x = oneIf (TailHolds s x) := by
  unfold tailHeld logHeld
  cases x with
  | str f => cases f <;> simp [TtyHolds, TailHolds]
  | _ => simp [TtyHolds, TailHolds]

/-- What `fsHeld` lists. -/
def FsHolds (s : Own) (x : Res) : Prop :=
  match x with
  | .mount => s.fs.mkdir = true ∧ s.mounted = true
  | .fuse_args => s.fs.mkdir = true ∧ s.fuse_args ≠ []
  | .fuse_buf => s.fs.mkdir = true ∧ s.fuse_buf = true
  | .fuse_se | .mntptDir | .mntpt | .ino_table => s.fs.mkdir = true
  | _ => False

lemma count_fsHeld : (fsHeld s).count x = oneIf (FsHolds s x) := by
  unfold fsHeld
  by_cases hmkdir : s.fs.mkdir = true
  · rw [heldIf_pos hmkdir]
    cases x with
    | _ => simp [FsHolds, hmkdir]
  · rw [heldIf_neg hmkdir]
    cases x with
    | _ => simp [FsHolds, hmkdir]

lemma count_cleanupHeld (h : Sound none s) :
    (cleanupHeld s).count x = oneIf (Owned s x ∧ ¬Leaked s x) := by
  unfold cleanupHeld
  rw [List.count_append, List.count_append, List.count_append, count_cmds h.nodup, count_tailHeld,
    count_fsHeld, count_heldIf, count_ttyHeld, ite_oneIf]
  cases x with
  | str f =>
    cases f <;> simp [TailHolds, FsHolds, TtyHolds, CmdHolds, Owned, Leaked]
    exact oneIf_congr and_comm
  | logfile | log | sfd | fileptr | cmd id | cmdstr id | bcstprefixstr id | child id =>
    simp [TailHolds, FsHolds, TtyHolds, CmdHolds, Owned, Leaked]
  | pidfd id =>
    simp [TailHolds, FsHolds, TtyHolds, CmdHolds, Owned, Leaked]
    exact oneIf_congr (and_congr_right fun hid => not_congr (h.forked id hid))
  | mount | fuse_se | fuse_args | fuse_buf | mntptDir | mntpt | ino_table =>
    cases hmkdir : s.fs.mkdir with
    | true =>
      obtain ⟨hmntpt, hse, xs, hb⟩ := h.fs.made hmkdir
      have hnum : s.fs.ino_num ≠ 0 := by
        rw [hb.holds.num]
        decide
      simp [TailHolds, FsHolds, TtyHolds, CmdHolds, Owned, Leaked, hmkdir, hmntpt, hse, hnum]
    | false =>
      obtain ⟨hnum, -, hse, hmounted, hargs, hbuf⟩ := h.fs.unmade hmkdir
      simp [TailHolds, FsHolds, TtyHolds, CmdHolds, Owned, Leaked, hmkdir, hnum, hse, hmounted,
        hargs, hbuf]
  | ttyStr r f | ttyFd r f =>
    cases r with
    | bcst =>
      simp [TailHolds, FsHolds, TtyHolds, CmdHolds, Owned, Leaked, TtyKnown]
      exact oneIf_congr and_comm
    | _ => simp [TailHolds, FsHolds, TtyHolds, CmdHolds, Owned, Leaked, TtyKnown]
  | entry r f =>
    have hentry (hr : Swept s r) :
        NamesEntry (s.ttys r) f ↔ (s.ttys r).dfd ≠ none ∧ NamesEntry (s.ttys r) f :=
      ⟨fun hf => ⟨fun hdfd => h.entries r hr (by simp) hdfd f hf, hf⟩, fun hand => hand.2⟩
    cases r with
    | bcst =>
      simp [TailHolds, FsHolds, TtyHolds, CmdHolds, Owned, Leaked, TtyKnown]
      refine oneIf_congr ((and_congr_right fun hb => ?_).trans and_comm)
      simpa using hentry hb
    | mon =>
      simp [TailHolds, FsHolds, TtyHolds, CmdHolds, Owned, Leaked, TtyKnown]
      refine oneIf_congr ?_
      simpa using hentry trivial
    | cmd id | clt id =>
      simp [TailHolds, FsHolds, TtyHolds, CmdHolds, Owned, Leaked, TtyKnown]
      refine oneIf_congr (and_congr_right fun hid => ?_)
      simpa using hentry hid

/-! ## Two runs -/

/-- The list has everything with `P` once and nothing else. -/
def EachOnce (P : Res → Prop) (l : List Res) : Prop := l.Nodup ∧ ∀ x, x ∈ l ↔ P x

lemma eachOnce_of_count {P : Res → Prop} {l : List Res} (h : ∀ x, l.count x = oneIf (P x)) :
    EachOnce P l := by
  refine ⟨List.nodup_iff_count_le_one.mpr fun x => ?_, fun x => ?_⟩
  · rw [h]
    exact oneIf_le _
  · rw [← List.count_pos_iff, h, oneIf_pos_iff]

/-- `cleanup` gives back once what is owned, and then it does nothing. -/
def CleanedOnce (accepts : CmdId → Bool) (s : Own) : Prop :=
  ∃ s₁ l, Own.cleanup accepts s = .ok () s₁ ∧ Own.cleanup accepts s₁ = .ok () s₁ ∧
    s₁.released = l ++ s.released ∧ EachOnce (Owned s) l ∧ ItemsRemoved s.fs s₁.fs

/-- Nothing owned is leaked, there is no directory of the log, and the stop strings are taken. -/
structure Releasable (accepts : CmdId → Bool) (s : Own) : Prop where
  logdir : s.str .logdir = none
  fileptr : s.fileptr = none
  bcst : s.bcstflg = false →
    (∀ f, ttyStr (s.ttys .bcst) f = none) ∧ ∀ f, ttyFd (s.ttys .bcst) f = none
  mntpt : s.fs.mkdir = false → s.fs.mntpt = none
  stops : StopsTaken accepts s

/-- What two runs do to any state: the first gives back once what is owned and not leaked, the
second frees the directory of the log again. -/
def CleanedTwice (accepts : CmdId → Bool) (s : Own) : Prop :=
  ∃ s₁ l, Own.cleanup accepts s = .ok () s₁ ∧
    Own.cleanup accepts s₁ = .ok () (givenBack (held (s.str .logdir) (.str .logdir)) s₁) ∧
    s₁.released = l ++ s.released ∧ EachOnce (fun x => Owned s x ∧ ¬Leaked s x) l ∧
    ItemsRemoved s.fs s₁.fs

lemma cleanedTwice_of_sound (h : Sound none s) (hstops : StopsTaken accepts s) :
    CleanedTwice accepts s := by
  obtain ⟨s₁, hrun, hreleased, hemptied, hlogdir, hfs⟩ := cleanup_eq h.fs h.nodup hstops
  refine ⟨s₁, cleanupHeld s, hrun, ?_, hreleased, eachOnce_of_count fun x => count_cleanupHeld h,
    hfs.removed⟩
  rw [cleanup_again hemptied, hlogdir]

lemma stopTaken_of_cmdStop {u : Unit} (h : Own.cmdStop accepts id s = .ok u s') :
    StopTaken accepts s id := by
  intro hpid
  replace h := get_bind_eq_ok.mp h
  rw [when_pos hpid] at h
  exact (require_bind_eq_ok.mp h).1

lemma stopsTaken_of_forM {u : PUnit} (ids : List CmdId) (hnodup : ids.Nodup) (s : Own)
    (h : (ids.forM fun id => do
      Own.cmdCleanup accepts id
      Own.hashDel id : Own.OwnAct Unit) s = .ok u s') : ∀ id ∈ ids, StopTaken accepts s id := by
  induction ids generalizing s with
  | nil => exact fun id hid => by cases hid
  | cons a ids ih =>
    obtain ⟨ha, hnodup⟩ := List.nodup_cons.mp hnodup
    obtain ⟨v, t, hremove, hrest⟩ := forM_cons_eq_ok.mp h
    have htaken : StopTaken accepts s a := by
      obtain ⟨_, _, hclean, -⟩ := bind_eq_ok.mp hremove
      obtain ⟨_, _, hstop, -⟩ := bind_eq_ok.mp hclean
      exact stopTaken_of_cmdStop hstop
    have ht := hremove.symm.trans (remove_eq htaken)
    cases ht
    intro id hid
    rcases List.mem_cons.mp hid with rfl | hid
    · exact htaken
    · have hne : id ≠ a := fun heq => ha (heq ▸ hid)
      have hheap : (cmdRemoved a s).heap id = s.heap id := Function.update_of_ne hne _ _
      have hrec := ih hnodup _ hrest id hid
      unfold StopTaken at hrec ⊢
      rwa [hheap] at hrec

/-- A run that returns has had every stop string taken. -/
lemma stopsTaken_of_cleanup {u : Unit} (hnodup : s.cmds.Nodup)
    (h : Own.cleanup accepts s = .ok u s') : StopsTaken accepts s := by
  obtain ⟨s₁, ttys, hrun₁, hs₁, -, -⟩ := bcst_eq s
  unfold Own.cleanup at h
  rw [bind_of_ok (show (get : Own.OwnAct Own) s = .ok s s from rfl), bind_of_ok hrun₁] at h
  replace h := get_bind_eq_ok.mp h
  obtain ⟨_, _, hcmds, -⟩ := bind_eq_ok.mp h
  subst hs₁
  have htaken := stopsTaken_of_forM _ hnodup _ hcmds
  exact fun id hid => htaken id hid

lemma Releasable.not_leaked (h : Releasable accepts s) (hx : Owned s x) : ¬Leaked s x := by
  intro hleak
  cases x with
  | str f =>
    cases f with
    | logpath => exact hleak h.logdir
    | _ => exact hleak
  | ttyStr r f =>
    cases r with
    | bcst => exact hx.2 ((h.bcst hleak).1 f)
    | _ => exact hleak
  | ttyFd r f =>
    cases r with
    | bcst => exact hx.2 ((h.bcst hleak).2 f)
    | _ => exact hleak
  | entry r f =>
    cases r with
    | bcst => exact hx.2.1 ((h.bcst hleak).2 .dfd)
    | _ => exact hleak
  | fileptr => exact hx h.fileptr
  | mntpt => exact hx (h.mntpt hleak)
  | _ => exact hleak

lemma releasable_of_not_leaked (hlogdir : s.str .logdir = none) (hstops : StopsTaken accepts s)
    (h : ∀ x, Owned s x → ¬Leaked s x) : Releasable accepts s := by
  refine ⟨hlogdir, ?_, fun hb => ⟨fun f => ?_, fun f => ?_⟩, fun hm => ?_, hstops⟩
  · exact not_not.mp fun hx => h .fileptr hx trivial
  · exact not_not.mp fun hx => h (.ttyStr .bcst f) ⟨trivial, hx⟩ hb
  · exact not_not.mp fun hx => h (.ttyFd .bcst f) ⟨trivial, hx⟩ hb
  · exact not_not.mp fun hx => h .mntpt hx hm

lemma cleanedOnce_iff (h : Sound none s) : CleanedOnce accepts s ↔ Releasable accepts s := by
  constructor
  · rintro ⟨s₁, l, hrun, hagain, hreleased, honce, -⟩
    have hstops := stopsTaken_of_cleanup h.nodup hrun
    obtain ⟨t, l', hrun', hagain', hreleased', honce', -⟩ := cleanedTwice_of_sound h hstops
    have ht := hrun.symm.trans hrun'
    cases ht
    have hl : l = l' := List.append_cancel_right (hreleased.symm.trans hreleased')
    have hlogdir : s.str .logdir = none := by
      have hsame := hagain.symm.trans hagain'
      injection hsame with _ hsame
      have hheld : held (s.str .logdir) (.str .logdir) ++ s₁.released = s₁.released :=
        (congrArg Own.released hsame).symm
      cases hdir : s.str .logdir with
      | none => rfl
      | some dir =>
        rw [hdir] at hheld
        exact (List.cons_ne_self _ _ hheld).elim
    refine releasable_of_not_leaked hlogdir hstops fun x hx => ?_
    subst hl
    exact ((honce'.2 x).mp ((honce.2 x).mpr hx)).2
  · intro hr
    obtain ⟨s₁, l, hrun, hagain, hreleased, ⟨hnodup, hmem⟩, hitems⟩ :=
      cleanedTwice_of_sound h hr.stops
    refine ⟨s₁, l, hrun, ?_, hreleased, ⟨hnodup, fun x => ?_⟩, hitems⟩
    · rw [hr.logdir] at hagain
      exact hagain
    · rw [hmem]
      exact ⟨fun hand => hand.1, fun hx => ⟨hx, hr.not_leaked hx⟩⟩

end Yar.Proofs
