import Yar.Proofs.Commands

/-!
# Recognition of the ready string

The ready count of a running command is what a counting matcher makes of the output that has been
handled since the start. It is full as soon as the ready string has been read, unless an earlier
attempt at it has eaten a byte that the string begins with.
-/

namespace Yar.Proofs

open Program

variable {sys : Sys} {w w' : World} {id j : CmdId} {S : Set Part}

/-- The bytes `cmdttyProcessOutput` has handled for the command since its latest start. -/
def outputSinceStart (id : CmdId) : List Obs → CStr
  | [] => []
  | .forked j _ :: t => if j = id then [] else outputSinceStart id t
  | .output j _ c _ :: t =>
    if j = id then outputSinceStart id t ++ [c] else outputSinceStart id t
  | _ :: t => outputSinceStart id t

/-- The command is ready exactly when the ready string occurs in what it has put out. -/
def Recognized (w : World) (id : CmdId) : Prop :=
  Matched w id ↔ readyword w <:+: outputSinceStart id w.trace

/-- If the ready string occurs in what the command has put out, the first bytes of that are failed
attempts at it: parts of it from its front, each with a byte that does not go on with it. -/
def AttemptsOnly (w : World) (id : CmdId) : Prop :=
  readyword w <:+: outputSinceStart id w.trace →
    Matcher.Found (readyword w) (outputSinceStart id w.trace)

lemma outputSinceStart_append {l t : List Obs} (hf : ∀ o ∈ l, obsPart o ≠ .oForked)
    (ho : ∀ o ∈ l, obsPart o ≠ .oOutput) :
    outputSinceStart id (l ++ t) = outputSinceStart id t := by
  induction l with
  | nil => rfl
  | cons o l ih =>
    have ih := ih (fun o h => hf o (List.mem_cons_of_mem _ h))
      fun o h => ho o (List.mem_cons_of_mem _ h)
    cases o with
    | forked j p => exact (hf _ List.mem_cons_self rfl).elim
    | output j n c b => exact (ho _ List.mem_cons_self rfl).elim
    | _ => exact ih

/-! ## The invariant of one command -/

/-- While there is a process the ready count is that of a matcher over its output. -/
def CountInv (w : World) (id : CmdId) : Prop :=
  (w.heap id).pid ≠ none →
    (w.heap id).readycnt = (outputSinceStart id w.trace).foldl (Matcher.step (readyword w)) 0

lemma CountInv.congr (h : CountInv w id) (hstr : w'.gbls.readystr = w.gbls.readystr)
    (hready : (w'.heap id).readycnt = (w.heap id).readycnt)
    (hpid : (w'.heap id).pid = (w.heap id).pid)
    (ho : outputSinceStart id w'.trace = outputSinceStart id w.trace) : CountInv w' id := by
  intro hrunning
  rw [hpid] at hrunning
  rw [hready, ho, readyword, hstr]
  exact h hrunning

/-- The parts the invariant looks at. -/
def countParts (id : CmdId) : Set Part := {.options, .ready id, .proc id, .oForked, .oOutput}

lemma CountInv.frame (h : CountInv w id) (hm : Modifies S w w') (hS : ∀ p ∈ countParts id, p ∉ S) :
    CountInv w' id := by
  obtain ⟨l, hl, hlS⟩ := hm.trace
  refine h.congr (hm.readystr_eq (hS _ (by simp [countParts])))
    (hm.readycnt_eq (hS _ (by simp [countParts]))) (hm.pid_eq (hS _ (by simp [countParts]))) ?_
  rw [hl, outputSinceStart_append]
  · exact fun o ho heq => hS .oForked (by simp [countParts]) (heq ▸ hlS o ho)
  · exact fun o ho heq => hS .oOutput (by simp [countParts]) (heq ▸ hlS o ho)

lemma Forked.countInv {d : Double} (hf : Forked sys w w' j d) (h : CountInv w id) : CountInv w' id := by
  by_cases hj : j = id
  · subst hj
    intro _
    rw [hf.readycnt, hf.trace, outputSinceStart, if_pos rfl]
    rfl
  · refine h.congr (hf.modifies.readystr_eq (by simp [forkParts]))
      (hf.modifies.readycnt_eq (by simp [forkParts, Ne.symm hj]))
      (hf.modifies.pid_eq (by simp [forkParts, Ne.symm hj])) ?_
    rw [hf.trace, outputSinceStart, if_neg hj]

lemma countInv_cmdInv : CmdInv CountInv where
  frame h hm hS := h.frame hm fun p hp => hS p (by
    rcases hp with rfl | rfl | rfl | rfl | rfl <;> simp [watchParts])
  forked hf h := hf.countInv h
  stopped hs _ hrunning := (hrunning hs.pid).elim
  added ha hrunning := (hrunning ha.init.pid).elim
  toggled g hcore h := by
    have hstr := congrArg Globals.readystr hcore
    exact h.congr hstr rfl rfl rfl

/-- A byte that is handled is one more byte of output of its command. -/
lemma OutputByte.outputSinceStart {c : Byte} {p : Pid} {rest : List (Byte × Pid)} {w₁ : World}
    (ho : OutputByte sys w j c p rest w₁ w') (id : CmdId) :
    outputSinceStart id w'.trace =
      outputSinceStart id w.trace ++ (if j = id then [c] else []) := by
  obtain ⟨l, hl, hlS⟩ := ho.modifies_rest.trace
  rw [hl, outputSinceStart_append (fun o ho heq => by simpa [heq] using hlS o ho)
    fun o ho heq => by simpa [heq] using hlS o ho]
  rw [ho.trace, Proofs.outputSinceStart]
  split
  · rfl
  · rw [List.append_nil]
    rfl

/-- A byte that is handled is a step of the matcher. -/
lemma OutputByte.countInv {c : Byte} {p : Pid} {rest : List (Byte × Pid)} {w₁ : World}
    (ho : OutputByte sys w j c p rest w₁ w') (h : CountInv w id) : CountInv w' id := by
  have hm : Modifies (outputParts j) w w' := ho.modifies_all
  have hstr : w'.gbls.readystr = w.gbls.readystr := hm.readystr_eq (by simp [outputParts])
  have hpid : (w'.heap id).pid = (w.heap id).pid := hm.pid_eq (by simp [outputParts])
  have htrace := ho.outputSinceStart id
  by_cases hj : j = id
  · subst hj
    intro hrunning
    rw [hpid] at hrunning
    have hready : (w'.heap j).readycnt = Matcher.step (readyword w) (w.heap j).readycnt c := by
      rw [← ho.readycnt]
      exact ho.modifies_rest.readycnt_eq (by simp)
    have hword : readyword w' = readyword w := by rw [readyword, hstr, readyword]
    rw [if_pos rfl] at htrace
    rw [hready, h hrunning, htrace, hword, List.foldl_append]
    rfl
  · rw [if_neg hj, List.append_nil] at htrace
    exact h.congr hstr (hm.readycnt_eq (by simp [outputParts, Ne.symm hj])) hpid htrace

lemma cmdttyProcessOutput_countInv {rd : Read} :
    Preserves (fun w => CountInv w id) (cmdttyProcessOutput sys j rd) := by
  intro w n w' hp h
  rcases cmdttyProcessOutput_cases hp with ⟨-, hm⟩ | ⟨-, c, p, rest, w₁, ho⟩
  · exact h.frame hm (by simp)
  · exact ho.countInv h

lemma monDrain_countInv : Preserves (fun w => CountInv w id) (monDrain sys) := by
  refine Keeps.bind Keeps.get fun _ => Keeps.forM (fun k => ?_) _
  refine Keeps.bind (Keeps.bind Keeps.get fun _ =>
    Keeps.forM (fun _ => Keeps.discard cmdttyProcessOutput_countInv) _) fun _ => ?_
  have hm : Keeps (Modifies {.ring k})
      (updCmd k fun this => { this with bufstart := 0, bufn := 0 }) := fun w u w' hupd =>
    updRing_modifies (f := fun this => { this with bufstart := 0, bufn := 0 }) (by simp)
      (fun _ => rfl) (fun _ => rfl) (fun _ => rfl) (fun _ => rfl) (fun _ => rfl) hupd
  exact countInv_cmdInv.keeps hm (by simp [watchParts])

lemma reachable_countInv {ok : World → Event → Prop} (hw : Reachable sys ok w) :
    ∀ id ∈ w.gbls.cmds, CountInv w id := by
  refine countInv_cmdInv.reachable (fun w r c p id h => ?_) (fun w s x w' ht h _ hh => ?_) hw
  · exact h.frame (apply_modifies w (.typed r c p)) (by simp [countParts, envParts])
  · exact countInv_cmdInv.handled ht h
      (fun j u hs _ hp id hid => cmdttyProcessOutput_countInv hp (h id hid))
      (fun line args hs hx hl hd id hid => monDrain_countInv hd (h id hid)) hh

/-! ## Recognition -/

/-- A running command is ready exactly when its output since the start has the ready string in it,
unless an attempt at the ready string has eaten its first bytes. -/
theorem recognized_iff {ok : World → Event → Prop} (hw : Reachable sys ok w)
    (hid : id ∈ w.gbls.cmds) (hrunning : (w.heap id).pid ≠ none) :
    Recognized w id ↔ AttemptsOnly w id := by
  have hmatched : Matched w id ↔
      Matcher.Found (readyword w) (outputSinceStart id w.trace) := by
    rw [← Matcher.count_full_iff, ← reachable_countInv hw id hid hrunning, readyword_length]
    rfl
  rw [Recognized, AttemptsOnly, hmatched]
  exact ⟨fun h => h.mpr, fun h => ⟨Matcher.Found.isInfix, h⟩⟩

/-- One command with the ready string `ab`. -/
def readyAb : Options where
  specs := [bytes "a,,,1,x"]
  readystr := some (bytes "ab")
  cwd := bytes "/h"
  pid := bytes "7"

/-- The command is started and puts out a word. -/
def putsOut (s : String) : List Event :=
  .env (.opened (.clt 0)) :: .hdlr (.ifd (.clt 0)) {} ::
    ((bytes s).map fun c => .env (.typed (.cmd 0) c 0)) ++
      (bytes s).map fun _ => .hdlr (.dom (.cmd 0)) {}

theorem recognized_iff_cab : ∃ w, Reachable quietSys (fun _ _ => True) w ∧
    outputSinceStart 0 w.trace = bytes "cab" ∧ Recognized w 0 := by
  obtain ⟨w, hw, hp⟩ := exists_reachable quietSys (fun _ _ => True) readyAb (putsOut "cab")
    (fun w => decide ((w.heap 0).pid ≠ none ∧ outputSinceStart 0 w.trace = bytes "cab" ∧
      readyword w = bytes "ab" ∧ 0 ∈ w.gbls.cmds)) (by decide +kernel)
  obtain ⟨hrunning, hout, hword, hid⟩ := of_decide_eq_true hp
  refine ⟨w, hw, hout, (recognized_iff hw hid hrunning).mpr fun _ => ?_⟩
  rw [hword, hout]
  refine ⟨[bytes "c"], [], rfl, fun a ha => ⟨0, 99, by decide, ?_, by decide⟩⟩
  rw [List.mem_singleton.mp ha]
  rfl

/-- The second `a` ends the attempt that the first one has begun, and begins none. -/
theorem not_always_recognized :
    ¬∀ (sys : Sys) (w : World) (id : CmdId), Reachable sys (fun _ _ => True) w →
      id ∈ w.gbls.cmds → (w.heap id).pid ≠ none → w.gbls.readystrlen ≠ 0 → Recognized w id := by
  intro hall
  obtain ⟨w, hw, hp⟩ := exists_reachable quietSys (fun _ _ => True) readyAb (putsOut "aab")
    (fun w => decide ((w.heap 0).pid ≠ none ∧ outputSinceStart 0 w.trace = bytes "aab" ∧
      readyword w = bytes "ab" ∧ 0 ∈ w.gbls.cmds ∧ w.gbls.readystrlen ≠ 0 ∧
      (w.heap 0).readycnt ≠ w.gbls.readystrlen)) (by decide +kernel)
  obtain ⟨hrunning, hout, hword, hid, h0, hready⟩ := of_decide_eq_true hp
  refine hready ((hall quietSys w 0 hw hid hrunning h0).mpr ?_)
  rw [hword, hout]
  exact ⟨bytes "a", [], rfl⟩

end Yar.Proofs
