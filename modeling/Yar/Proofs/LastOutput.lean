import Yar.Proofs.Outputs
import Yar.Proofs.Runs
import Yar.Proofs.Gating
import Yar.Proofs.Slowest
import Yar.Proofs.Actions

/-!
# The last output of a command

What has been relayed of a command's output is what has been read of its tty. The exit handler
reads none of it, so a command that is removed on exit takes along what is still on its way.
-/

namespace Yar.Proofs

open Program Transition

variable {sys : Sys} {w w' : World} {id : CmdId} {S : Set Part}

/-! ## Handlers that end in exit -/

/-- Everything but the output of the commands. -/
def muteParts : Set Part := {p | p ≠ .oOutput ∧ ∀ id, p ≠ .oWrite (.clt id)}

lemma mem_muteParts {p : Part} : p ∈ muteParts ↔ p ≠ .oOutput ∧ ∀ id, p ≠ .oWrite (.clt id) := Iff.rfl

lemma ttyParts_mute (r : TtyRef) : ttyParts r ⊆ muteParts := by
  rintro p (rfl | rfl | rfl | rfl | rfl | rfl | rfl | rfl) <;> simp [mem_muteParts]

lemma removeParts_mute (id : CmdId) : removeParts id ⊆ muteParts := by
  rintro p (((hp | rfl | rfl) | (hp | hp) | rfl | rfl | rfl | rfl | rfl | rfl) | rfl | rfl)
  · rcases hp with rfl | rfl | rfl | rfl | rfl <;> simp [mem_muteParts]
  · simp [mem_muteParts]
  · simp [mem_muteParts]
  · exact ttyParts_mute _ hp
  · exact ttyParts_mute _ hp
  all_goals simp [mem_muteParts]

lemma cleanup_modifies : Keeps (Modifies muteParts) (cleanup sys) := by
  have hgbls {f : Globals → Globals} : Keeps (Modifies muteParts) (updGbls f) :=
    updGbls_modifies (.inl (by simp [mem_muteParts])) (.inl (by simp [mem_muteParts]))
      (.inl (by simp [mem_muteParts])) (.inl (by simp [mem_muteParts])) (.inl (by simp [mem_muteParts]))
      (.inl (by simp [mem_muteParts]))
  have hremove (id : CmdId) : Keeps (Modifies muteParts) (do cmdCleanup sys id; hashDel id) :=
    Keeps.bind (cmdCleanup_modifies sys fun p hp => removeParts_mute id (.inl hp)) fun _ =>
      hashDel_modifies (by simp [mem_muteParts]) (by simp [mem_muteParts])
  have hplace : placeParts ⊆ muteParts := by
    rintro p (rfl | rfl) <;> simp [mem_muteParts]
  exact Keeps.bind Keeps.get fun _ =>
    Keeps.bind (Keeps.when fun _ => ttyCleanup_modifies sys (ttyParts_mute _)) fun _ =>
    Keeps.bind (Keeps.forM hremove _) fun _ => Keeps.bind hgbls fun _ =>
    Keeps.bind (fsCleanup_modifies hplace) fun _ => Keeps.bind (ttyCleanup_modifies sys (ttyParts_mute _)) fun _ =>
    Keeps.bind (logCleanup_modifies hplace) fun _ => hgbls

lemma ExitFrom.modifies {s : Source} {x : Answer} (h : ExitFrom sys s x w w') :
    Modifies muteParts w w' := by
  have hremove {id : CmdId} {w w' : World} (h : (do cmdCleanup sys id; hashDel id) w = .ok () w') :
      Modifies muteParts w w' := by
    obtain ⟨_, w₁, hclean, hdel⟩ := bind_eq_ok.mp h
    have hm : Modifies muteParts w w₁ :=
      cmdCleanup_modifies sys (fun p hp => removeParts_mute id (.inl hp)) hclean
    exact trans_of _ hm (hashDel_modifies (by simp [mem_muteParts]) (by simp [mem_muteParts]) hdel)
  cases h with
  | now => exact refl_of _ w
  | idleExit hw =>
    refine Modifies.of_same rfl rfl fun p hp => ?_
    cases p with
    | flags => exact (hp (by simp [mem_muteParts])).elim
    | delonexit => exact (hp (by simp [mem_muteParts])).elim
    | _ => first | rfl | trivial
  | del id _ hid hempty h => exact hremove h
  | pid id w₁ _ hid hempty hreap h =>
    have hm : Modifies muteParts w w₁ :=
      cmdPidReap_modifies (fun p hp => removeParts_mute id (.inl (.inl (.inl hp)))) hreap
    exact trans_of _ hm (hremove h)
  | bcst cstr id w₁ w₂ _ hadd hreg hflg hlen h =>
    have hm₁ : Modifies muteParts w w₁ := by
      rcases GBLSAddCmd_cases hadd with ⟨-, hn⟩ | ⟨id', spec, -, ha⟩
      · refine hn.modifies.mono ?_
        rintro p (hp | rfl)
        · exact removeParts_mute _ (.inl (.inr hp))
        · simp [mem_muteParts]
      · refine ha.modifies.mono ?_
        rintro p (hp | rfl | rfl | rfl | rfl)
        · exact removeParts_mute _ (.inl (.inr hp))
        all_goals simp [mem_muteParts]
    have hm₂ : Modifies muteParts w₁ w₂ :=
      cmdRegisterttyEvents_modifies id (by simp [mem_muteParts]) hreg
    have hflag : Keeps (Modifies muteParts) (updGbls fun g => { g with bcstflg := true }) :=
      flags_modifies (by simp [mem_muteParts]) fun _ => ⟨rfl, rfl, rfl, rfl, rfl⟩
    exact trans_of _ hm₁ (trans_of _ hm₂ (trans_of _ (Keeps.of_modify hflag w₂)
      (ttyCreate_modifies sys (ttyParts_mute _) h)))

/-- The handler of `s` has come to its end in `w'`: it has returned, or left through `exit`. -/
def Ends (sys : Sys) (s : Source) (x : Answer) (w w' : World) : Prop :=
  hdlr sys s x w = .ok () w' ∨ hdlr sys s x w = .error .exit w'

lemma cmdPidEvent_mute {fd : Fd} {x : Answer} (h : Ends sys (.pidfd id fd) x w w') :
    Modifies muteParts w w' := by
  rcases h with h | h
  · exact cmdPidEvent_modifies sys (removeParts_mute id) (live_ok h).2
  · obtain ⟨w₁, hexit, w₂, hclean, hleft⟩ := hdlr_exit h
    have hm : Modifies muteParts w w₂ := trans_of _ hexit.modifies (cleanup_modifies hclean)
    rcases hleft with rfl | hclean'
    · exact hm
    · exact trans_of _ hm (cleanup_modifies hclean')

lemma Ends.pid_mem {fd : Fd} {x : Answer} (h : Ends sys (.pidfd id fd) x w w') :
    id ∈ w.gbls.cmds := by
  rcases h with h | h
  · exact (live_ok h).1
  · obtain ⟨_, w₁, hlive, -⟩ := error_of_bind h
    exact (live_ok (m := pure ()) (bind_eq_ok.mpr ⟨_, w₁, hlive, rfl⟩)).1

/-! ## Removal on exit -/

/-- What has been relayed of the output on the command's tty, each byte of it to the client tty,
includes all that the process wrote. -/
def AllRelayed (w : World) (id : CmdId) (p : Pid) (trace : List Obs) : Prop :=
  ∃ n, relayedOutput id trace = ((w.kern.ports (.cmd id)).hist.take n).map Prod.fst ∧
    sentToClt id trace = relayedOutput id trace ∧ ∀ b ∈ (w.kern.ports (.cmd id)).hist.drop n, b.2 ≠ p

lemma Ends.removed {fd : Fd} {x : Answer} (hd : (w.heap id).deleteonexit = true)
    (h : Ends sys (.pidfd id fd) x w w') : id ∉ w'.gbls.cmds := by
  have hid := h.pid_mem
  rcases h with h | h
  · obtain ⟨w₁, hreap, ⟨-, hr⟩ | ⟨hn, -⟩⟩ := cmdPidEvent_cases hid (live_ok h).2
    · rw [(Removed.of_reaped hreap (monDelFound_removed hr)).table]
      simp
    · rw [hd] at hn
      cases hn
  · obtain ⟨w₁, -, w₂, hclean, hleft⟩ := hdlr_exit h
    have hempty : w'.gbls.cmds = [] := by
      rcases hleft with rfl | hclean'
      · exact cleanup_cmds hclean
      · exact cleanup_cmds hclean'
    simp [hempty]

lemma allRelayed_iff {ok : World → Event → Prop} {fd : Fd} {x : Answer} {p : Pid}
    (hw : Reachable sys ok w) (h : Ends sys (.pidfd id fd) x w w') :
    AllRelayed w id p w'.trace ↔ ∀ b ∈ (w.kern.ports (.cmd id)).domq, b.2 ≠ p := by
  obtain ⟨hle, hrelayed, hsent⟩ := (reachable_relayedInv hw).cmds id h.pid_mem
  have hm := cmdPidEvent_mute h
  rw [AllRelayed, hm.relayedOutput_eq (by simp [mem_muteParts]), hm.sentToClt_eq (by simp [mem_muteParts]),
    hrelayed, hsent]
  constructor
  · rintro ⟨n, htake, -, hdrop⟩
    have hlen := congrArg List.length htake
    simp only [List.length_map, List.length_take] at hlen
    intro b hb
    by_cases hn : n ≤ (w.kern.ports (.cmd id)).hist.length
    · have heq : (w.kern.ports (.cmd id)).nread = n := by omega
      rw [Port.domq, heq] at hb
      exact hdrop b hb
    · rw [Port.domq, List.drop_eq_nil_of_le (by omega)] at hb
      cases hb
  · exact fun hq => ⟨_, rfl, hrelayed, hq⟩

/-- In every run, the exit event of a command that is deleted on exit removes it, and at that point all
that its process wrote has been relayed if and only if none of it was still queued on the command's
tty. -/
theorem last_output_relayed {ok : World → Event → Prop} {fd : Fd} {x : Answer}
    (hw : Reachable sys ok w) (hd : (w.heap id).deleteonexit = true)
    (h : Ends sys (.pidfd id fd) x w w') : id ∉ w'.gbls.cmds ∧ ∀ p ∈ (w.heap id).pid,
      (AllRelayed w id p w'.trace ↔ ∀ b ∈ (w.kern.ports (.cmd id)).domq, b.2 ≠ p) :=
  ⟨h.removed hd, fun _ _ => allRelayed_iff hw h⟩

/-- A run in which `idleexit` has marked the command, whose process has then written and died. -/
def markedRun (es : List Event) : List Event :=
  openClt ++ [monLine "idleexit", .env (.typed (.cmd 0) 107 0)] ++ es ++ [.env (.exited 0 0)]

/-- The state in which the handler of `s` leaves through `exit`. -/
def leavesIn (sys : Sys) (s : Source) (w : World) (P : World → Bool) : Bool :=
  match hdlr sys s {} w with
  | .error .exit w' => P w'
  | _ => false

lemma exists_leavesIn {s : Source} {P : World → Bool} (h : leavesIn sys s w P = true) :
    ∃ w', Ends sys s {} w w' ∧ P w' = true := by
  unfold leavesIn at h
  split at h
  · rename_i w' hw'
    exact ⟨w', .inr hw', h⟩
  · cases h

/-- The output has been handled before the exit event. -/
theorem last_output_relayed_in_order : ∃ w w', Reachable quietSys (fun _ _ => True) w ∧
    Ends quietSys (.pidfd 0 11) {} w w' ∧ relayedOutput 0 w'.trace = bytes "k" ∧
      AllRelayed w 0 0 w'.trace := by
  obtain ⟨w, hw, hp⟩ := exists_reachable quietSys (fun _ _ => True) oneCmd
    (markedRun [.hdlr (.dom (.cmd 0)) {}])
    (fun w => decide <| (w.heap 0).deleteonexit = true ∧ (w.heap 0).pid = some 0 ∧
      (w.kern.ports (.cmd 0)).domq = [] ∧
      leavesIn quietSys (.pidfd 0 11) w (fun w' => relayedOutput 0 w'.trace == bytes "k") = true)
    (by decide +kernel)
  obtain ⟨hd, hpid, hq, hleft⟩ := of_decide_eq_true hp
  obtain ⟨w', hends, hout⟩ := exists_leavesIn hleft
  refine ⟨w, w', hw, hends, by simpa using hout, ?_⟩
  exact ((last_output_relayed hw hd hends).2 0 hpid).mpr (by simp [hq])

/-- The exit event is handled while the output is still queued. -/
theorem last_output_not_always_relayed :
    ¬∀ (sys : Sys) (w w' : World) (id : CmdId) (fd : Fd) (x : Answer) (p : Pid),
      Reachable sys (fun _ _ => True) w → (w.heap id).deleteonexit = true → (w.heap id).pid = some p →
      Ends sys (.pidfd id fd) x w w' → AllRelayed w id p w'.trace := by
  intro hall
  obtain ⟨w, hw, hp⟩ := exists_reachable quietSys (fun _ _ => True) oneCmd
    (markedRun [])
    (fun w => decide <| (w.heap 0).deleteonexit = true ∧ (w.heap 0).pid = some 0 ∧
      (107, 0) ∈ (w.kern.ports (.cmd 0)).domq ∧
      leavesIn quietSys (.pidfd 0 11) w (fun _ => true) = true)
    (by decide +kernel)
  obtain ⟨hd, hpid, hq, hleft⟩ := of_decide_eq_true hp
  obtain ⟨w', hends, -⟩ := exists_leavesIn hleft
  exact (allRelayed_iff hw hends).mp (hall _ _ _ _ _ _ _ hw hd hpid hends) _ hq rfl

end Yar.Proofs
