import Yar.Proofs.Output
import Yar.Proofs.Runs

/-!
# The ready count

`cmdsreadycnt` is kept by hand: it goes up when a match is completed and down when a process is
stopped or reaped. Output that a process left behind can complete a match while there is no
process, and then neither the next start nor a removal takes the count down again.
-/

namespace Yar.Proofs

open Program

/-- The match of the command's output against the ready string is complete. -/
def Matched (w : World) (id : CmdId) : Prop := (w.heap id).readycnt = w.gbls.readystrlen

instance (w : World) (id : CmdId) : Decidable (Matched w id) :=
  inferInstanceAs (Decidable (_ = _))

def readyCount (w : World) : Nat := w.gbls.cmds.countP fun id => decide (Matched w id)

/-- A match completed by what an earlier process left behind. -/
def Stale (w : World) (id : CmdId) : Prop := (w.heap id).pid = none ∧ Matched w id

instance (w : World) (id : CmdId) : Decidable (Stale w id) :=
  inferInstanceAs (Decidable (_ ∧ _))

/-- The commands an event starts, unless they are running. -/
def starts (w : World) (e : Event) : List CmdId :=
  match e with
  | .hdlr (.ifd (.clt id)) _ =>
    if (w.kern.ports (.clt id)).notify.head? = some .IN_OPEN then [id] else []
  | .hdlr (.ifd .bcst) _ =>
    if (w.kern.ports .bcst).notify.head? = some .IN_OPEN then w.gbls.cmds else []
  | _ => []

/-- With a ready string, no command is started or removed with a match that its process did
not complete. -/
def NoStale (w : World) (e : Event) : Prop :=
  w.gbls.readystrlen ≠ 0 → (∀ id ∈ starts w e, ¬Stale w id) ∧ ∀ id ∈ deletes w e, ¬Stale w id

instance (w : World) (e : Event) : Decidable (NoStale w e) :=
  inferInstanceAs (Decidable (_ → _ ∧ _))

/-- The count is right for a table `ids`. -/
structure ReadyTable (ids : List CmdId) (w : World) : Prop where
  cmds : w.gbls.cmds = ids
  count : w.gbls.readystrlen ≠ 0 → w.gbls.cmdsreadycnt = readyCount w
  unset : w.gbls.readystrlen = 0 → w.gbls.cmdsreadycnt = 0

/-! ## Counting when one element changes -/

lemma countP_change {α : Type} {l : List α} {a : α} {p q : α → Bool} (hn : l.Nodup) (ha : a ∈ l)
    (h : ∀ b ∈ l, b ≠ a → q b = p b) :
    (l.countP q : Int) = l.countP p + (if q a then 1 else 0) - (if p a then 1 else 0) := by
  induction l with
  | nil => cases ha
  | cons b l ih =>
    obtain ⟨hb, hn⟩ := List.nodup_cons.mp hn
    simp only [List.countP_cons]
    rcases List.mem_cons.mp ha with rfl | ha
    · have hsame : l.countP q = l.countP p := by
        refine List.countP_congr fun c hc => ?_
        have hne : c ≠ a := by
          rintro rfl
          exact hb hc
        rw [h c (List.mem_cons_of_mem _ hc) hne]
      rw [hsame]
      split <;> split <;> omega
    · have hne : b ≠ a := by
        rintro rfl
        exact hb ha
      have ih := ih hn ha fun c hc => h c (List.mem_cons_of_mem _ hc)
      rw [h b List.mem_cons_self hne]
      split <;> omega

variable {sys : Sys} {w w' : World} {id : CmdId} {ids : List CmdId} {S : Set Part}

/-! ## What keeps the count -/

def Part.ofReady : Part → Bool
  | .table | .readycount | .options | .ready _ => true
  | _ => false

lemma ttyParts_ofReady {r : TtyRef} {p : Part} (hp : p ∈ ttyParts r) : p.ofReady = false := by
  rcases hp with rfl | rfl | rfl | rfl | rfl | rfl | rfl | rfl <;> rfl

lemma readystrlen_eq (h : w'.gbls.readystr = w.gbls.readystr) :
    w'.gbls.readystrlen = w.gbls.readystrlen := by
  simp only [Globals.readystrlen, h]

/-- Nothing that the count for `ids` depends on has changed. -/
lemma ReadyTable.congr (h : ReadyTable ids w) (hcmds : w'.gbls.cmds = w.gbls.cmds)
    (hstr : w'.gbls.readystr = w.gbls.readystr)
    (hcnt : w'.gbls.cmdsreadycnt = w.gbls.cmdsreadycnt)
    (hready : ∀ j ∈ ids, (w'.heap j).readycnt = (w.heap j).readycnt) : ReadyTable ids w' := by
  have hlen := readystrlen_eq hstr
  refine ⟨hcmds.trans h.cmds, fun h0 => ?_, fun h0 => ?_⟩
  · rw [hcnt, h.count (hlen ▸ h0), readyCount, readyCount, hcmds, h.cmds]
    refine congrArg _ (List.countP_congr fun j hj => ?_)
    rw [decide_eq_true_iff, decide_eq_true_iff, Matched, Matched, hready j hj, hlen]
  · rw [hcnt, h.unset (hlen ▸ h0)]

lemma ReadyTable.frame (h : ReadyTable ids w) (hm : Modifies S w w')
    (hS : ∀ p ∈ S, p.ofReady = true → ∃ j, p = .ready j ∧ j ∉ ids) : ReadyTable ids w' := by
  have hnot {p : Part} (hp : p.ofReady = true) (hne : ∀ j, p ≠ .ready j) : p ∉ S := fun hpS => by
    obtain ⟨j, hj, -⟩ := hS p hpS hp
    exact hne j hj
  refine h.congr (hm.cmds_eq (hnot rfl (by simp))) (hm.readystr_eq (hnot rfl (by simp)))
    (hm.count_eq (hnot rfl (by simp))) fun j hj => hm.readycnt_eq fun hS' => ?_
  obtain ⟨_, hj', hnot⟩ := hS _ hS' rfl
  cases hj'
  exact hnot hj

/-- A frame that stays clear of all the parts the count depends on. -/
lemma ReadyTable.kept (h : ReadyTable ids w) (hm : Modifies S w w')
    (hS : ∀ p ∈ S, p.ofReady = false) : ReadyTable ids w' :=
  h.frame hm fun p hp hr => by simp [hS p hp] at hr

/-- A change of the ready state of one command, with the count following it. -/
lemma ReadyTable.change (h : ReadyTable ids w) (hn : ids.Nodup) (hid : id ∈ ids)
    (hm : Modifies S w w') (hS : ∀ p ∈ S, p.ofReady = true → p = .ready id ∨ p = .readycount)
    (hcount : w.gbls.readystrlen ≠ 0 → w'.gbls.cmdsreadycnt =
      w.gbls.cmdsreadycnt + (if Matched w' id then 1 else 0) - (if Matched w id then 1 else 0))
    (hunset : w.gbls.readystrlen = 0 → w'.gbls.cmdsreadycnt = w.gbls.cmdsreadycnt) :
    ReadyTable ids w' := by
  have hlen : w'.gbls.readystrlen = w.gbls.readystrlen :=
    readystrlen_eq (hm.readystr_eq fun hp => by simpa using hS _ hp rfl)
  have hcmds : w'.gbls.cmds = w.gbls.cmds := hm.cmds_eq fun hp => by simpa using hS _ hp rfl
  have hready (j : CmdId) (hj : j ≠ id) : (w'.heap j).readycnt = (w.heap j).readycnt :=
    hm.readycnt_eq fun hp => by simpa [hj] using hS _ hp rfl
  refine ⟨hcmds.trans h.cmds, fun h0 => ?_, fun h0 => ?_⟩
  · rw [hlen] at h0
    rw [hcount h0, h.count h0]
    have hchange := countP_change (p := fun j => decide (Matched w j))
      (q := fun j => decide (Matched w' j)) hn hid fun j hj hne => by
        rw [decide_eq_decide, Matched, Matched, hready j hne, hlen]
    simp only [readyCount, hcmds, h.cmds, hchange, decide_eq_true_eq]
  · rw [hlen] at h0
    rw [hunset h0, h.unset h0]

lemma ReadyTable.countLt (h : ReadyTable ids w) (hid : id ∈ ids) (h0 : w.gbls.readystrlen ≠ 0)
    (hnot : ¬Matched w id) : w.gbls.cmdsreadycnt + 1 ≤ w.gbls.cmds.length := by
  have hlt : readyCount w < w.gbls.cmds.length := by
    refine lt_of_le_of_ne List.countP_le_length fun heq => ?_
    have hall := List.countP_eq_length.mp heq id (h.cmds ▸ hid)
    simp [hnot] at hall
  rw [h.count h0]
  omega

/-! ## Output -/

lemma MatchStep.readyTable {c : Byte} (hs : MatchStep w w' id c) (h : ReadyTable ids w)
    (hn : ids.Nodup) (hid : id ∈ ids) : ReadyTable ids w' := by
  have hlen : w'.gbls.readystrlen = w.gbls.readystrlen :=
    readystrlen_eq (hs.modifies.readystr_eq (by simp))
  have hlt := hs.lt
  refine h.change hn hid hs.modifies (by simp) (fun _ => ?_) fun h0 => by omega
  simp only [hs.count, Matched, hlen, hlt.ne, ↓reduceIte, sub_zero]

/-- The assertion after a complete match holds wherever the count is right. -/
lemma cmdttyMatchReady_returns (h : ReadyTable ids w) (hid : id ∈ ids) (c : Byte) :
    ∃ w', cmdttyMatchReady id c w = .ok () w' := by
  simp only [cmdttyMatchReady, get_bind_eq_ok, when_eq_ok]
  by_cases hgo : w.gbls.readystrlen ≠ 0 ∧ (w.heap id).readycnt < w.gbls.readystrlen
  · have hcount := h.countLt hid hgo.1 (hgo.2.ne : ¬Matched w id)
    have hpos : 0 ≤ w.gbls.cmdsreadycnt := by
      rw [h.count hgo.1]
      exact Int.natCast_nonneg _
    by_cases hc : (w.gbls.readystr.getD [])[(w.heap id).readycnt]? = some c
    · simp only [if_pos hc]
      by_cases hfull : (w.heap id).readycnt + 1 = w.gbls.readystrlen
      · exact ⟨_, .inl ⟨hgo, modify_bind_eq_ok.mpr (when_eq_ok.mpr (.inl ⟨hfull,
          modify_bind_eq_ok.mpr (require_eq_ok.mpr ⟨⟨by omega, hcount⟩, rfl⟩)⟩))⟩⟩
      · exact ⟨_, .inl ⟨hgo, modify_bind_eq_ok.mpr (when_eq_ok.mpr (.inr ⟨hfull, rfl⟩))⟩⟩
    · simp only [if_neg hc]
      exact ⟨_, .inl ⟨hgo, modify_eq_ok.mpr rfl⟩⟩
  · exact ⟨w, .inr ⟨hgo, rfl⟩⟩

lemma cmdttyProcessOutput_readyTable {rd : Read} (hn : ids.Nodup) (hid : id ∈ ids) :
    Preserves (ReadyTable ids) (cmdttyProcessOutput sys id rd) := by
  have frame {α : Type} {m : Act α} (hm : Keeps (Modifies {p | p.ofReady = false}) m) :
      Preserves (ReadyTable ids) m := fun _ _ _ hr h => h.kept (hm hr) fun _ hp => hp
  have hring : Part.ring id ∈ {p : Part | p.ofReady = false} := rfl
  refine Keeps.bind (frame (ttyReadChar_modifies sys _ _ rd rfl rfl)) fun nc =>
    Keeps.ite (fun _ => Keeps.throw _) fun _ => Keeps.ite (fun _ => ?_) fun _ =>
      Keeps.bind Keeps.get fun _ => Keeps.bind (Keeps.require _ _) fun _ => Keeps.pure _
  refine Keeps.bind Keeps.get fun w => Keeps.bind (frame (note_modifies rfl)) fun _ => ?_
  refine Keeps.bind ?_ fun _ => Keeps.bind Keeps.get fun w' => ?_
  · intro w₁ _ w₂ h hr
    rcases cmdttyMatchReady_cases h with ⟨-, hw⟩ | hs
    · rwa [hw]
    · exact hs.readyTable hr hn hid
  · refine Keeps.bind (frame (cmdttyStore_modifies id _ hring)) fun _ =>
      Keeps.bind (frame (ttyWriteBuf_modifies sys _ rfl nofun)) fun _ =>
      Keeps.bind (Keeps.require _ _) fun _ => ?_
    exact Keeps.bind (frame (cmdttyBroadcast_modifies sys id _ _ hring rfl)) fun _ => Keeps.pure _

lemma monDrain_readyTable (hn : ids.Nodup) {u : Unit} (hr : ReadyTable ids w)
    (h : monDrain sys w = .ok u w') : ReadyTable ids w' := by
  replace h := get_bind_eq_ok.mp h
  refine (Keeps.forM_mem fun j hj => ?_ : Preserves (ReadyTable ids) _) h hr
  rw [hr.cmds] at hj
  refine Keeps.bind (Keeps.bind Keeps.get fun _ => Keeps.forM (fun _ => Keeps.discard
    (cmdttyProcessOutput_readyTable hn hj)) _) fun _ w₁ _ w₂ hupd h₁ => ?_
  refine h₁.kept (S := {.ring j}) (updRing_modifies (f := fun this =>
    { this with bufstart := 0, bufn := 0 }) (by simp) (fun _ => rfl) (fun _ => rfl) (fun _ => rfl)
    (fun _ => rfl) (fun _ => rfl) hupd) ?_
  rintro p rfl
  rfl

/-! ## Start and stop -/

lemma Forked.readyTable {d : Double} (hf : Forked sys w w' id d) (h : ReadyTable ids w)
    (hn : ids.Nodup) (hid : id ∈ ids) (hstale : w.gbls.readystrlen ≠ 0 → ¬Stale w id) :
    ReadyTable ids w' := by
  have hlen : w'.gbls.readystrlen = w.gbls.readystrlen :=
    readystrlen_eq (hf.modifies.readystr_eq (by simp [forkParts]))
  have hcount : w'.gbls.cmdsreadycnt = w.gbls.cmdsreadycnt :=
    hf.modifies.count_eq (by simp [forkParts])
  refine h.change hn hid hf.modifies ?_ (fun h0 => ?_) fun _ => hcount
  · rintro p (rfl | rfl | rfl | rfl) hp
    · cases hp
    · exact .inl rfl
    · cases hp
    · cases hp
  · have hnot : ¬Matched w id := fun hm => hstale h0 ⟨hf.stopped, hm⟩
    have hnot' : ¬Matched w' id := by
      rw [Matched, hf.readycnt, hlen]
      exact Ne.symm h0
    rw [hcount, if_neg hnot, if_neg hnot', add_zero, sub_zero]

lemma cmdStart_readyTable {d : Double} {b : Bool} (hs : cmdStart sys id d w = .ok b w')
    (h : ReadyTable ids w) (hn : ids.Nodup) (hid : id ∈ ids)
    (hstale : w.gbls.readystrlen ≠ 0 → ¬Stale w id) : ReadyTable ids w' := by
  rcases cmdStart_cases hs with ⟨-, -, hw⟩ | ⟨-, hf⟩
  · rwa [hw]
  · exact hf.readyTable h hn hid hstale

lemma ResetReady.readyTable (hr : ResetReady w w' id) (h : ReadyTable ids w) (hn : ids.Nodup)
    (hid : id ∈ ids) : ReadyTable ids w' := by
  have hlen : w'.gbls.readystrlen = w.gbls.readystrlen :=
    readystrlen_eq (hr.modifies.readystr_eq (by simp))
  refine h.change hn hid hr.modifies (by simp) (fun h0 => ?_) fun h0 => by simp [hr.count, h0]
  have hm : Matched w id := by
    have hready := hr.ready
    simp only [cmdIsReady, Bool.or_eq_true, beq_iff_eq, h0, false_or] at hready
    exact hready.symm
  have hnot' : ¬Matched w' id := by
    rw [Matched, hr.readycnt, hlen]
    exact Ne.symm h0
  rw [hr.count, if_pos h0, if_pos hm, if_neg hnot', add_zero]

/-- After the ready state of a command has been reset its match is not complete. -/
lemma not_matched_of_reset (h : cmdIsReady w.gbls (w.heap id) = false ∧ w' = w ∨ ResetReady w w' id)
    (h0 : w.gbls.readystrlen ≠ 0) : ¬Matched w' id := by
  rcases h with ⟨hready, hw⟩ | hr
  · intro hm
    rw [hw, Matched] at hm
    simp [cmdIsReady, hm] at hready
  · rw [Matched, hr.readycnt, readystrlen_eq (hr.modifies.readystr_eq (by simp))]
    exact Ne.symm h0

lemma Terminated.readyTable {epoll : Bool} (ht : Terminated w w' id epoll) (h : ReadyTable ids w) (hn : ids.Nodup)
    (hid : id ∈ ids) : ReadyTable ids w' ∧ (w'.gbls.readystrlen ≠ 0 → ¬Matched w' id) := by
  obtain ⟨w₁, hreset, hm⟩ := ht.reset
  have hlen : w'.gbls.readystrlen = w₁.gbls.readystrlen :=
    readystrlen_eq (hm.readystr_eq (by simp))
  have h₁ : ReadyTable ids w₁ := by
    rcases hreset with ⟨-, hw⟩ | hr
    · rwa [hw]
    · exact hr.readyTable h hn hid
  refine ⟨h₁.kept hm ?_, fun h0 => ?_⟩
  · rintro p (rfl | rfl) <;> rfl
  · have hstr : w₁.gbls.readystrlen = w.gbls.readystrlen := by
      rcases hreset with ⟨-, hw⟩ | hr
      · rw [hw]
      · exact readystrlen_eq (hr.modifies.readystr_eq (by simp))
    rw [Matched, hlen, hm.readycnt_eq (by simp)]
    exact not_matched_of_reset hreset (by rwa [← hstr, ← hlen])

/-- A stop keeps the count, and a forced one leaves no complete match behind. -/
lemma cmdStop_readyTable {epoll force b : Bool} (hs : cmdStop sys id epoll force w = .ok b w')
    (h : ReadyTable ids w) (hn : ids.Nodup) (hid : id ∈ ids) :
    ReadyTable ids w' ∧ (force = true → (w.gbls.readystrlen ≠ 0 → ¬Stale w id) →
      w'.gbls.readystrlen ≠ 0 → ¬Matched w' id) := by
  rcases cmdStop_cases hs with ⟨hpid, hw⟩ | ⟨-, hforce, -, hw⟩ | ⟨-, -, w₁, hsend, hterm⟩
  · rw [hw]
    exact ⟨h, fun _ hstale h0 hm => hstale h0 ⟨hpid, hm⟩⟩
  · rw [hw]
    exact ⟨h, fun hf => by simp [hforce] at hf⟩
  · have hm : Modifies {.lastwrite id, .oWrite (.cmd id)} w w₁ :=
      cmdSendStopstr_modifies sys (by simp) (by simp) hsend
    have h₁ : ReadyTable ids w₁ := h.kept hm (by rintro p (rfl | rfl) <;> rfl)
    obtain ⟨h', hnot⟩ := (cmdTerminate_ok hterm).readyTable h₁ hn hid
    exact ⟨h', fun _ _ => hnot⟩

/-! ## The table -/

lemma ReadyTable.filter (h : ReadyTable ids w) (hcmds : w'.gbls.cmds = ids.filter (· ≠ id))
    (hstr : w'.gbls.readystr = w.gbls.readystr)
    (hcnt : w'.gbls.cmdsreadycnt = w.gbls.cmdsreadycnt) (hheap : w'.heap = w.heap)
    (hnot : w.gbls.readystrlen ≠ 0 → ¬Matched w id) : ReadyTable (ids.filter (· ≠ id)) w' := by
  have hlen := readystrlen_eq hstr
  refine ⟨hcmds, fun h0 => ?_, fun h0 => ?_⟩
  · rw [hlen] at h0
    rw [hcnt, h.count h0, readyCount, readyCount, hcmds, h.cmds, List.countP_filter]
    refine congrArg _ (List.countP_congr fun j _ => ?_)
    have hne : Matched w j → j ≠ id := by
      rintro hm rfl
      exact hnot h0 hm
    rw [Bool.and_eq_true, decide_eq_true_iff, decide_eq_true_iff, decide_eq_true_iff,
      Matched, Matched, hheap, hlen]
    exact ⟨fun hm => ⟨hm, hne hm⟩, And.left⟩
  · rw [hcnt, h.unset (hlen ▸ h0)]

lemma monDelFound_readyTable {u : Unit} (hd : monDelFound sys id w = .ok u w')
    (h : ReadyTable ids w) (hn : ids.Nodup) (hid : id ∈ ids)
    (hstale : w.gbls.readystrlen ≠ 0 → ¬Stale w id) : ReadyTable (ids.filter (· ≠ id)) w' := by
  obtain ⟨_, w₁, hclean, hd⟩ := bind_eq_ok.mp hd
  obtain ⟨_, w₂, hdel, hidle⟩ := bind_eq_ok.mp hd
  rw [(exitIfIdle_ok sys hidle).1]
  obtain ⟨_, w₃, hstop, hclear⟩ := bind_eq_ok.mp hclean
  obtain ⟨b, hstop⟩ := discard_eq_ok.mp hstop
  obtain ⟨h₃, hnot⟩ := cmdStop_readyTable hstop h hn hid
  have hm : Modifies (clearParts id) w₃ w₁ := cmdClear_modifies sys subset_rfl hclear
  have h₁ : ReadyTable ids w₁ := by
    refine h₃.kept hm ?_
    rintro p ((hp | hp) | rfl | rfl | rfl | rfl | rfl)
    · exact ttyParts_ofReady hp
    · exact ttyParts_ofReady hp
    all_goals rfl
  replace hdel := modify_bind_eq_ok.mp hdel
  replace hdel := modify_eq_ok.mp hdel
  refine h₁.filter ?_ (by rw [hdel]) (by rw [hdel]) (by rw [hdel]) fun h0 => ?_
  · rw [hdel, ← h₁.cmds]
  · have hlen : w₁.gbls.readystrlen = w₃.gbls.readystrlen :=
      readystrlen_eq (hm.readystr_eq (by simp [clearParts, ttyParts]))
    rw [Matched, hlen, hm.readycnt_eq (by simp [clearParts, ttyParts])]
    exact hnot rfl hstale (hlen ▸ h0)

lemma Added.readyTable {spec : CmdSpec} (ha : Added w w' id spec) (h : ReadyTable w.gbls.cmds w)
    (ht : TableInv w) : ReadyTable w'.gbls.cmds w' := by
  have hlen : w'.gbls.readystrlen = w.gbls.readystrlen :=
    readystrlen_eq (ha.modifies.readystr_eq (by simp [addParts, cmdParts, ttyParts]))
  have hcnt : w'.gbls.cmdsreadycnt = w.gbls.cmdsreadycnt :=
    ha.modifies.count_eq (by simp [addParts, cmdParts, ttyParts])
  refine ⟨rfl, fun h0 => ?_, fun h0 => by rw [hcnt, h.unset (hlen ▸ h0)]⟩
  have hnew : ¬Matched w' id := by
    rw [Matched, ha.init.readycnt]
    exact Ne.symm h0
  have hold : readyCount w = w.gbls.cmds.countP fun j => decide (Matched w' j) := by
    refine List.countP_congr fun j hj => ?_
    have hne : j ≠ id := by
      rw [ha.id_eq]
      exact (ht.lt_brk j hj).ne
    have hready : (w'.heap j).readycnt = (w.heap j).readycnt :=
      ha.modifies.readycnt_eq (by simp [addParts, cmdParts, ttyParts, hne])
    rw [decide_eq_true_iff, decide_eq_true_iff, Matched, Matched, hready, hlen]
  rw [hcnt, h.count (hlen ▸ h0), hold, readyCount, ha.table, List.countP_append]
  simp [hnew]

/-! ## Handlers -/

/-- No command of `ids` has a match that was not completed by its process. -/
def Fresh (ids : List CmdId) (w : World) : Prop :=
  w.gbls.readystrlen ≠ 0 → ∀ j ∈ ids, ¬Stale w j

lemma cmdStart_fresh {d : Double} {b : Bool} (hs : cmdStart sys id d w = .ok b w')
    (h : Fresh ids w) : Fresh ids w' := by
  rcases cmdStart_cases hs with ⟨-, -, hw⟩ | ⟨-, hf⟩
  · rwa [hw]
  intro h0 j hj hstale
  have hlen : w'.gbls.readystrlen = w.gbls.readystrlen :=
    readystrlen_eq (hf.modifies.readystr_eq (by simp [forkParts]))
  by_cases hne : j = id
  · rw [hne, Stale, hf.pid] at hstale
    cases hstale.1
  · refine h (hlen ▸ h0) j hj ⟨?_, ?_⟩
    · rw [← hf.modifies.pid_eq (by simp [forkParts, hne])]
      exact hstale.1
    · rw [Matched, ← hf.modifies.readycnt_eq (by simp [forkParts, hne]), ← hlen]
      exact hstale.2

lemma bcstttyNotify_readyTable {mask : Mask} {u : Unit} (hb : bcstttyNotify sys mask w = .ok u w')
    (h : ReadyTable ids w) (hn : ids.Nodup) (hfresh : mask = .IN_OPEN → Fresh ids w) :
    ReadyTable ids w' := by
  replace hb := get_bind_eq_ok.mp hb
  have hstop {force : Bool} (hf : (w.gbls.cmds.forM fun j =>
      discard (cmdStop sys j true force)) w = .ok u w') : ReadyTable ids w' := by
    refine (Keeps.forM_mem fun j hj => ?_ : Preserves (ReadyTable ids) _) hf h
    rw [h.cmds] at hj
    exact Keeps.discard fun _ _ _ hs h => (cmdStop_readyTable hs h hn hj).1
  cases mask with
  | IN_OPEN =>
    suffices hkeeps : Preserves (fun w => ReadyTable ids w ∧ Fresh ids w)
        (w.gbls.cmds.forM fun j => discard (cmdStart sys j (.fin 0))) from
      (hkeeps hb ⟨h, hfresh rfl⟩).1
    refine Keeps.forM_mem fun j hj => Keeps.discard fun w₁ _ w₂ hs hr => ?_
    rw [h.cmds] at hj
    exact ⟨cmdStart_readyTable hs hr.1 hn hj fun h0 => hr.2 h0 j hj, cmdStart_fresh hs hr.2⟩
  | IN_CLOSE_WRITE => exact hstop hb
  | IN_CLOSE_NOWRITE => exact hstop hb

lemma cmdCltttyNotify_readyTable {mask : Mask} {u : Unit}
    (hc : cmdCltttyNotify sys id mask w = .ok u w') (h : ReadyTable ids w) (hn : ids.Nodup)
    (hid : id ∈ ids) (hfresh : mask = .IN_OPEN → w.gbls.readystrlen ≠ 0 → ¬Stale w id) :
    ReadyTable ids w' := by
  cases mask with
  | IN_OPEN =>
    obtain ⟨b, hc⟩ := discard_eq_ok.mp hc
    exact cmdStart_readyTable hc h hn hid (hfresh rfl)
  | IN_CLOSE_WRITE =>
    obtain ⟨b, hc⟩ := discard_eq_ok.mp hc
    exact (cmdStop_readyTable hc h hn hid).1
  | IN_CLOSE_NOWRITE =>
    obtain ⟨b, hc⟩ := discard_eq_ok.mp hc
    exact (cmdStop_readyTable hc h hn hid).1

lemma ttyNotifyEvent_readyTable {r : TtyRef} {x : Answer} {u : Unit}
    (hh : ttyNotifyEvent sys r x.rd w = .ok u w') (h : ReadyTable ids w) (hn : ids.Nodup)
    (hid : ∀ id, r = .clt id ∨ r = .cmd id → id ∈ w.gbls.cmds)
    (hok : NoStale w (.hdlr (.ifd r) x)) : ReadyTable ids w' := by
  obtain ⟨mask, rest, hq, hned⟩ := ttyNotifyEvent_cases hh
  have h₁ : ReadyTable ids (notified w r mask rest) := by
    refine h.kept (notified_modifies w r mask rest) ?_
    rintro p (rfl | rfl) <;> rfl
  cases r with
  | bcst =>
    refine bcstttyNotify_readyTable hned h₁ hn fun hmask h0 j hj => (hok h0).1 j ?_
    simpa [starts, hq, hmask, h.cmds] using hj
  | clt id =>
    have hj := hid id (.inl rfl)
    rw [h.cmds] at hj
    refine cmdCltttyNotify_readyTable hned h₁ hn hj fun hmask h0 => (hok h0).1 id ?_
    simp [starts, hq, hmask]
  | mon => exact (pure_eq_ok.mp hned).2 ▸ h₁
  | cmd id => exact (pure_eq_ok.mp hned).2 ▸ h₁

lemma Reaped.readyTable (hr : Reaped w w' id) (h : ReadyTable ids w) (hn : ids.Nodup)
    (hid : id ∈ ids) : ReadyTable ids w' ∧ (w'.gbls.readystrlen ≠ 0 → ¬Matched w' id) := by
  obtain ⟨w₁, hm, hreset⟩ := hr.reset
  have h₁ : ReadyTable ids w₁ := h.kept hm (by rintro p (rfl | rfl) <;> rfl)
  refine ⟨?_, fun h0 => not_matched_of_reset hreset ?_⟩
  · rcases hreset with ⟨-, hw⟩ | hr
    · rwa [hw]
    · exact hr.readyTable h₁ hn hid
  · rcases hreset with ⟨-, hw⟩ | hr
    · rwa [← hw]
    · rwa [← readystrlen_eq (hr.modifies.readystr_eq (by simp))]

lemma cmdPidEvent_readyTable {u : Unit} (hp : cmdPidEvent sys id w = .ok u w')
    (h : ReadyTable w.gbls.cmds w) (hn : w.gbls.cmds.Nodup) (hid : id ∈ w.gbls.cmds) :
    ReadyTable w'.gbls.cmds w' := by
  obtain ⟨w₁, hreap, hrest⟩ := cmdPidEvent_cases hid hp
  obtain ⟨h₁, hnot⟩ := (cmdPidReap_ok hreap).readyTable h hn hid
  have hstale : w₁.gbls.readystrlen ≠ 0 → ¬Stale w₁ id := fun h0 hs => hnot h0 hs.2
  rcases hrest with ⟨-, hdel⟩ | ⟨-, hrestart⟩
  · have h' := monDelFound_readyTable hdel h₁ hn hid hstale
    exact h'.cmds ▸ h'
  · have h' : ReadyTable w.gbls.cmds w' := by
      rcases cmdPidRestart_cases hrestart with ⟨-, hw⟩ | ⟨w₂, d, -, -, hf, hm⟩
      · rwa [hw]
      · exact (hf.readyTable h₁ hn hid hstale).kept hm fun _ hp => hp.elim
    exact h'.cmds ▸ h'

lemma monAddRegister_readyTable {u : Unit} (ha : monAddRegister sys id w = .ok u w')
    (h : ReadyTable ids w) (hn : ids.Nodup) (hid : id ∈ ids) (hready : (w.heap id).readycnt = 0) :
    ReadyTable ids w' := by
  rcases monAddRegister_cases ha with ⟨hm, -⟩ | ⟨hm, -⟩ | ⟨-, w₁, b, hm, hs⟩
  · refine h.kept hm ?_
    rintro p (rfl | hp | rfl)
    · rfl
    · exact ttyParts_ofReady hp
    · rfl
  · exact h.kept hm (by rintro p rfl; rfl)
  · refine cmdStart_readyTable hs (h.kept hm (by rintro p rfl; rfl)) hn hid fun h0 hstale => ?_
    have hmatch := hstale.2
    rw [Matched, hm.readycnt_eq (by simp), hready] at hmatch
    exact h0 hmatch.symm

/-- The count is right for the table of the state itself. -/
def ReadyInv (w : World) : Prop := ReadyTable w.gbls.cmds w

lemma ReadyTable.inv (h : ReadyTable ids w) : ReadyInv w := by
  have hcmds := h.cmds
  subst hcmds
  exact h

lemma NotAdded.readyInv (hnot : NotAdded w w') (h : ReadyInv w) (ht : TableInv w) :
    ReadyInv w' := by
  refine (h.frame hnot.modifies ?_).inv
  rintro p (((hp | hp) | rfl | rfl | rfl | rfl | rfl | rfl) | rfl) hr
  · simp [ttyParts_ofReady hp] at hr
  · simp [ttyParts_ofReady hp] at hr
  · cases hr
  · cases hr
  · exact ⟨_, rfl, fun hmem => (ht.lt_brk _ hmem).false⟩
  all_goals cases hr

lemma Handled.readyInv {s : Source} {x : Answer} (ht : TableInv w) (h : ReadyInv w)
    (hok : NoStale w (.hdlr s x)) (hh : Handled sys s x w w') : ReadyInv w' := by
  have hn := ht.nodup
  cases hh with
  | bcst hs hb =>
    refine (h.kept (bcstttyEvent_modifies sys _ subset_rfl hb) ?_).inv
    rintro p ((rfl | rfl | rfl) | ⟨id, rfl | rfl⟩) <;> rfl
  | clt id hs hid hc =>
    rcases cmdCltttyEvent_cases hc with ⟨-, hw⟩ | ⟨-, n, c, w₁, hread, hrest⟩
    · rwa [hw]
    have h₁ : ReadyTable w.gbls.cmds w₁ :=
      h.kept hread.modifies (by rintro p (rfl | rfl) <;> rfl)
    rcases hrest with ⟨-, hw⟩ | ⟨-, w₂, b, hrelay, hstop⟩
    · rw [hw]
      exact h₁.inv
    · have h₂ := h₁.kept hrelay.modifies (by rintro p (rfl | rfl | rfl) <;> rfl)
      exact (cmdStop_readyTable hstop h₂ hn hid).1.inv
  | cmd id hs hid hc => exact (Keeps.discard (cmdttyProcessOutput_readyTable hn hid) hc h).inv
  | notify r hs hid hned => exact (ttyNotifyEvent_readyTable hned h hn hid (hs ▸ hok)).inv
  | pid id fd hs hid hp => exact cmdPidEvent_readyTable hp h hn hid
  | del line name id hs hx hl hf hd =>
    refine (monDelFound_readyTable hd h hn (List.mem_of_find?_eq_some hf) fun h0 => ?_).inv
    exact (hok h0).2 id (by simp [hs, deletes, hx, hl, hf])
  | add line cmdstr hs hx hl ha =>
    rcases monAdd_cases ha with hnot | ⟨id, spec, w₁, hadd, hreg⟩
    · exact hnot.readyInv h ht
    · have h₁ := hadd.readyTable h ht
      refine (monAddRegister_readyTable hreg h₁ (ht.added hadd).nodup ?_ hadd.init.readycnt).inv
      simp [hadd.table]
  | drain line args hs hx hl hd => exact (monDrain_readyTable hn h hd).inv
  | idleExit line args hs hx hl hi =>
    refine (h.kept (monIdleExit_modifies sys (S := idleExitParts) (by simp [idleExitParts])
      (by simp [idleExitParts]) (by simp [idleExitParts]) hi) ?_).inv
    rintro p ((rfl | rfl) | ⟨id, rfl⟩) <;> rfl
  | toggle line m args g hs hx hl hw hcore hrestart hlb =>
    refine (h.congr ?_ ?_ ?_ fun _ _ => by rw [hw]).inv <;> rw [hw]
    · exact (congrArg Globals.cmds hcore :)
    · exact (congrArg Globals.readystr hcore :)
    · exact (congrArg Globals.cmdsreadycnt hcore :)
  | idle hs hw => rwa [hw]

lemma reachable_readyInv (hw : Reachable sys NoStale w) : ReadyInv w := by
  refine reachable_induction (P := ReadyInv) ?_ ?_ ?_ ?_ ?_ ?_ hw
  · exact fun o => ⟨rfl, fun _ => rfl, fun _ => rfl⟩
  · intro w w' _ h hm
    refine (h.kept hm ?_).inv
    rintro p ((hp | hp) | rfl)
    · exact ttyParts_ofReady hp
    · exact ttyParts_ofReady hp
    · rfl
  · exact fun w w' ht h hnot => hnot.readyInv h ht
  · exact fun w w' id spec ht h ha => ha.readyTable h ht
  · intro w e _ h _
    refine (h.kept (apply_modifies w e) fun p hp => ?_).inv
    cases e <;> rw [hp] <;> rfl
  · exact fun w s x w' _ ht h hok hh => Handled.readyInv ht h hok hh

/-! ## The count and the gate -/

lemma readyCount_eq_length (w : World) :
    readyCount w = w.gbls.cmds.length ↔ ∀ id ∈ w.gbls.cmds, Matched w id := by
  rw [readyCount, List.countP_eq_length]
  simp

/-- The gate agrees with `cmdIsReady` but for an empty ready string, which keeps it shut. -/
lemma ReadyInv.gate (h : ReadyInv w) :
    (¬bcstGateShut w.gbls ↔ ∀ id ∈ w.gbls.cmds, cmdIsReady w.gbls (w.heap id) = true) ↔
      (w.gbls.readystr = some [] → w.gbls.cmds = []) := by
  by_cases h0 : w.gbls.readystrlen = 0
  · have hall : ∀ id ∈ w.gbls.cmds, cmdIsReady w.gbls (w.heap id) = true := by
      simp [cmdIsReady, h0]
    have hshut : bcstGateShut w.gbls ↔ w.gbls.readystr = some [] ∧ w.gbls.cmds ≠ [] := by
      have hstr : w.gbls.readystr ≠ none ↔ w.gbls.readystr = some [] := by
        cases hs : w.gbls.readystr with
        | none => simp
        | some s => simpa [Globals.readystrlen, hs] using h0
      rw [bcstGateShut, hstr, h.unset h0, ← List.length_pos_iff]
      simp
    rw [hshut, iff_true_right hall, not_and, not_not]
  · have hlen : readyCount w ≤ w.gbls.cmds.length := List.countP_le_length
    have hstr : w.gbls.readystr ≠ none := by
      intro hs
      simp [Globals.readystrlen, hs] at h0
    have hshut : ¬bcstGateShut w.gbls ↔ readyCount w = w.gbls.cmds.length := by
      rw [bcstGateShut, h.count h0]
      constructor
      · intro hopen
        by_contra hne
        exact hopen ⟨hstr, by omega, by omega⟩
      · rintro heq ⟨-, -, hlt⟩
        omega
    have hready (id : CmdId) : cmdIsReady w.gbls (w.heap id) = true ↔ Matched w id := by
      simp only [cmdIsReady, Bool.or_eq_true, beq_iff_eq, h0, false_or, Matched]
      exact eq_comm
    have hne : w.gbls.readystr ≠ some [] := by
      intro hs
      simp [Globals.readystrlen, hs] at h0
    rw [hshut, readyCount_eq_length]
    simp only [hready, hne, false_implies]

/-- In a run in which no command is started or removed with a match left behind, the count is
the number of complete matches, no match fails the assertion on it, and the gate of the broadcast
tty is open exactly when all commands are ready unless the ready string is empty. -/
theorem cmdsreadycnt_counts (hw : Reachable sys NoStale w) :
    (w.gbls.readystrlen ≠ 0 → w.gbls.cmdsreadycnt = readyCount w) ∧
      (∀ id ∈ w.gbls.cmds, ∀ c w₁, Modifies {p | p.ofReady = false} w w₁ →
        ∃ w', cmdttyMatchReady id c w₁ = .ok () w') ∧
      ((¬bcstGateShut w.gbls ↔ ∀ id ∈ w.gbls.cmds, cmdIsReady w.gbls (w.heap id) = true) ↔
        (w.gbls.readystr = some [] → w.gbls.cmds = [])) := by
  have h := reachable_readyInv hw
  refine ⟨h.count, fun id hid c w₁ hm => ?_, h.gate⟩
  exact cmdttyMatchReady_returns (ReadyTable.kept h hm fun _ hp => hp) hid c

/-- One command with the ready string `k`. -/
def oneReady : Options where
  specs := [bytes "a,,,1,x"]
  readystr := some (bytes "k")
  cwd := bytes "/h"
  pid := bytes "7"

theorem cmdsreadycnt_counts_ready : ∃ w, Reachable quietSys NoStale w ∧ readyCount w = 1 ∧
    w.gbls.cmdsreadycnt = 1 ∧ ¬bcstGateShut w.gbls := by
  obtain ⟨w, hw, hp⟩ := exists_reachable quietSys NoStale oneReady
    [.env (.opened (.clt 0)), .hdlr (.ifd (.clt 0)) {}, .env (.typed (.cmd 0) 107 0),
      .hdlr (.dom (.cmd 0)) {}]
    (fun w => decide (readyCount w = 1 ∧ w.gbls.readystr = some (bytes "k") ∧
      ∀ id ∈ w.gbls.cmds, cmdIsReady w.gbls (w.heap id) = true)) (by decide +kernel)
  obtain ⟨hcount, hstr, hready⟩ := of_decide_eq_true hp
  have h := cmdsreadycnt_counts hw
  refine ⟨w, hw, hcount, ?_, (h.2.2.mpr fun hs => ?_).mpr hready⟩
  · rw [h.1 (by simp [Globals.readystrlen, hstr, bytes]), hcount]
    rfl
  · rw [hstr] at hs
    cases hs

/-- The client closes with the ready string still on its way, so that the match is completed
without a process, and comes back. -/
theorem cmdsreadycnt_not_always_count :
    ¬∀ (sys : Sys) (w : World), Reachable sys (fun _ _ => True) w →
      (w.gbls.readystrlen ≠ 0 → w.gbls.cmdsreadycnt = readyCount w) ∧
        (¬bcstGateShut w.gbls ↔ ∀ id ∈ w.gbls.cmds, cmdIsReady w.gbls (w.heap id) = true) := by
  intro h
  obtain ⟨w, hw, hp⟩ := exists_reachable quietSys (fun _ _ => True) oneReady
    [.env (.opened (.clt 0)), .hdlr (.ifd (.clt 0)) {}, .env (.typed (.cmd 0) 107 0),
      .env (.closed (.clt 0) true), .hdlr (.ifd (.clt 0)) {}, .hdlr (.dom (.cmd 0)) {},
      .env (.opened (.clt 0)), .hdlr (.ifd (.clt 0)) {}]
    (fun w => decide (w.gbls.cmdsreadycnt = 1 ∧ readyCount w = 0 ∧ w.gbls.readystrlen ≠ 0))
    (by decide +kernel)
  obtain ⟨hcnt, hcount, h0⟩ := of_decide_eq_true hp
  have heq := (h quietSys w hw).1 h0
  rw [hcnt, hcount] at heq
  cases heq

end Yar.Proofs
