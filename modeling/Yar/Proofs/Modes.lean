import Mathlib.Data.List.Infix
import Yar.Proofs.Lines
import Yar.Proofs.Slowest

/-!
# Broadcast across mode changes

The counters of a ring are only kept while line-buffered broadcasting is on. What goes out after a
change of mode is a piece of output that has not gone out before as long as, at each newline, they
span no more than the unfinished line.
-/

namespace Yar.Proofs

open Program Transition

/-! ## Pieces of output -/

/-- The command whose byte was handled last. -/
def speaker : List Obs → Option CmdId
  | [] => none
  | .output id _ _ _ :: _ => some id
  | _ :: t => speaker t

/-- What a command has put out since a byte of it was last followed by a broadcast. -/
def unsent (id : CmdId) : List Obs → CStr
  | [] => []
  | .output j _ c _ :: t => if j = id then unsent id t ++ [c] else unsent id t
  | .write .bcst _ :: t => if speaker t = some id then [] else unsent id t
  | _ :: t => unsent id t

/-- What may go out for a byte: nothing, the byte itself, or for a newline a single line of bytes that
have not gone out before, behind its prefix. -/
def Piece (id : CmdId) (name : CStr) (c : Byte) (pfx : Bool) (t : List Obs) (data : CStr) : Prop :=
  data = [] ∨ data = [c] ∨ c = newline ∧ ∃ b, b <:+ unsent id t ∧ newline ∉ b ∧
    data = (if pfx = true then name ++ bytes ": " else []) ++ (b ++ [newline])

/-- Whatever is broadcast after a byte is a piece of output that ends with it; `data` is what has been
broadcast after the last byte so far. -/
def Pieces (data : CStr) : List Obs → Prop
  | [] => data = []
  | .write .bcst buf :: t => Pieces (buf ++ data) t
  | .output id name c pfx :: t => Piece id name c pfx t data ∧ Pieces [] t
  | _ :: t => Pieces data t

instance (id : CmdId) (name : CStr) (c : Byte) (pfx : Bool) (t : List Obs) (data : CStr) :
    Decidable (Piece id name c pfx t data) :=
  decidable_of_iff (data = [] ∨ data = [c] ∨ c = newline ∧ ∃ b ∈ (unsent id t).tails, newline ∉ b ∧
    data = (if pfx = true then name ++ bytes ": " else []) ++ (b ++ [newline])) (by
      simp only [Piece, List.mem_tails])

/-- `Pieces` is decided along the trace. -/
def decidePieces (data : CStr) : (t : List Obs) → Decidable (Pieces data t)
  | [] => inferInstanceAs (Decidable (data = []))
  | .write .bcst buf :: t => decidePieces (buf ++ data) t
  | .output id name c pfx :: t =>
    have := decidePieces [] t
    inferInstanceAs (Decidable (Piece id name c pfx t data ∧ Pieces [] t))
  | .write .mon _ :: t | .write (.clt _) _ :: t | .write (.cmd _) _ :: t => decidePieces data t
  | .added _ :: t | .removed _ :: t | .forked _ _ :: t | .read _ _ :: t => decidePieces data t
  | .relay _ _ _ :: t | .symlink _ _ :: t | .unlink _ _ _ :: t => decidePieces data t

instance (data : CStr) (t : List Obs) : Decidable (Pieces data t) := decidePieces data t

variable {sys : Sys} {w w' : World} {id : CmdId} {S : Set Part} {l t : List Obs} {data : CStr}

lemma pieces_append (hl : ∀ o ∈ l, obsPart o = .oWrite .bcst) :
    Pieces data (l ++ t) ↔ Pieces (bcstData l ++ data) t := by
  induction l generalizing data with
  | nil => rfl
  | cons o l ih =>
    have ho := hl o List.mem_cons_self
    cases o with
    | write r buf =>
      cases ho
      rw [List.cons_append, Pieces, ih fun o ho => hl o (List.mem_cons_of_mem _ ho), bcstData,
        List.append_assoc]
    | _ => cases ho

lemma pieces_append_other (ho : ∀ j n c b, .output j n c b ∉ l) (hb : ∀ buf, .write .bcst buf ∉ l) :
    Pieces data (l ++ t) ↔ Pieces data t := by
  induction l with
  | nil => rfl
  | cons o l ih =>
    have ih := ih (fun j n c b h => ho j n c b (List.mem_cons_of_mem _ h))
      fun buf h => hb buf (List.mem_cons_of_mem _ h)
    cases o with
    | output j n c b => exact (ho j n c b List.mem_cons_self).elim
    | write r buf =>
      cases r with
      | bcst => exact (hb buf List.mem_cons_self).elim
      | _ => exact ih
    | _ => exact ih

lemma Modifies.pieces_iff (hm : Modifies S w w') (ho : .oOutput ∉ S) (hb : .oWrite .bcst ∉ S) :
    Pieces data w'.trace ↔ Pieces data w.trace := by
  obtain ⟨l, hl, hlS⟩ := hm.trace
  rw [hl]
  exact pieces_append_other (fun _ _ _ _ h => ho (hlS _ h)) fun _ h => hb (hlS _ h)

lemma unsent_suffix (id : CmdId) (t : List Obs) : unsent id t <:+ relayedOutput id t := by
  induction t with
  | nil => exact List.suffix_refl _
  | cons o t ih =>
    cases o with
    | output j n c b =>
      rw [unsent, relayedOutput]
      by_cases hj : j = id
      · rw [if_pos hj, if_pos hj]
        exact (List.suffix_append_inj_of_length_eq rfl).mpr ⟨ih, rfl⟩
      · rw [if_neg hj, if_neg hj]
        exact ih
    | write r buf =>
      cases r with
      | bcst =>
        change (if speaker t = some id then [] else unsent id t) <:+ relayedOutput id t
        split
        · exact List.nil_suffix
        · exact ih
      | _ => exact ih
    | _ => exact ih

/-- The unfinished line, less what of it has been broadcast. -/
def unsentLine (id : CmdId) (t : List Obs) : CStr := (unsent id t).rtakeWhile (· ≠ newline)

lemma unsentLine_suffix (id : CmdId) (t : List Obs) : unsentLine id t <:+ unsent id t :=
  List.rtakeWhile_suffix _ _

/-- The longest end of a list that satisfies `p` is found from any other such end. -/
lemma suffix_rtakeWhile {α : Type} {p : α → Bool} {a b : List α} (h : b <:+ a) (hb : ∀ x ∈ b, p x = true) :
    b <:+ a.rtakeWhile p := by
  obtain ⟨t, rfl⟩ := h
  induction b using List.reverseRecOn with
  | nil => exact List.nil_suffix
  | append_singleton b x ih =>
    rw [← List.append_assoc, List.rtakeWhile_concat_pos _ _ _ (hb x (by simp))]
    exact (List.suffix_append_inj_of_length_eq rfl).mpr
      ⟨ih fun y hy => hb y (List.mem_append_left _ hy), rfl⟩

lemma newline_notMem_unsentLine (id : CmdId) (t : List Obs) : newline ∉ unsentLine id t := by
  intro h
  simpa using List.mem_rtakeWhile_imp h

/-! ## Newlines in line mode -/

/-- What the counters of the ring make the next newline take along is in the ring and part of the
unfinished line. -/
def SpansLine (w : World) (id : CmdId) : Prop :=
  keptBytes (w.heap id) ≤ (w.heap id).bufn ∧
    keptBytes (w.heap id) ≤ (unsentLine id w.trace).length

/-- The step handles a newline of the command, if not on its own then while draining. -/
def Flushes (w : World) (e : Event) (id : CmdId) : Prop :=
  match e with
  | .hdlr (.dom (.cmd j)) x => j = id ∧ x.rd = .ready ∧
      (w.kern.ports (.cmd id)).domq.head?.map Prod.fst = some newline
  | e => Drains e ∧ newline ∈ (w.kern.ports (.cmd id)).domq.map Prod.fst

/-- Newlines that are broadcast in line mode find the counters of their ring in order. -/
def KeepsLines (w : World) (e : Event) : Prop :=
  bcstMode w = (true, true) → ∀ id ∈ w.gbls.cmds, Flushes w e id → SpansLine w id

instance (w : World) (id : CmdId) : Decidable (SpansLine w id) :=
  inferInstanceAs (Decidable (_ ∧ _))

instance (w : World) (e : Event) (id : CmdId) : Decidable (Flushes w e id) :=
  match e with
  | .hdlr (.dom (.cmd _)) _ => inferInstanceAs (Decidable (_ ∧ _ ∧ _))
  | .env _ | .hdlr (.dom .bcst) _ | .hdlr (.dom .mon) _ | .hdlr (.dom (.clt _)) _
  | .hdlr (.ifd _) _ | .hdlr (.pidfd _ _) _ | .hdlr .sig _ | .hdlr .fs _ =>
    inferInstanceAs (Decidable (Drains _ ∧ _))

instance (w : World) (e : Event) : Decidable (KeepsLines w e) :=
  inferInstanceAs (Decidable (_ → ∀ id ∈ w.gbls.cmds, _))

/-- The bytes that a newline takes along are part of the unfinished line. -/
lemma SpansLine.kept_suffix (h : SpansLine w id) :
    (relayedOutput id w.trace).rtake (keptBytes (w.heap id)) <:+ unsentLine id w.trace := by
  rw [rtake_of_suffix ((unsentLine_suffix id w.trace).trans (unsent_suffix id w.trace)) h.2]
  exact List.drop_suffix _ _

lemma SpansLine.piece (h : SpansLine w id) :
    Piece id (w.heap id).name newline w.gbls.prefixbcst w.trace (block w id) := by
  refine .inr (.inr ⟨rfl, _, h.kept_suffix.trans (unsentLine_suffix id w.trace), fun hmem => ?_, ?_⟩)
  · exact newline_notMem_unsentLine id w.trace (h.kept_suffix.subset hmem)
  · rw [block, List.rtake_concat_succ]

/-- The trace after a newline that is broadcast in line mode. -/
lemma Stored.line_trace {w₃ : World} (hs : Stored w w₃ w' id newline) (h : RingInv w id)
    (hmode : bcstMode w = (true, true)) (hkept : keptBytes (w.heap id) ≤ (w.heap id).bufn) :
    Pieces [] w'.trace ↔
      Piece id (w.heap id).name newline w.gbls.prefixbcst w.trace (block w id) ∧ Pieces [] w.trace := by
  obtain ⟨l, hl, hlS⟩ := hs.rest.trace
  have hlw : ∀ o ∈ l, obsPart o = .oWrite .bcst := fun o ho => by
    rcases hlS o ho with h | h
    · cases o <;> cases h
    · exact h
  have hdata : bcstData w₃.trace ++ bcstData l = bcstData w.trace ++ block w id := by
    rw [← bcstData_append, ← hl, hs.flushed h hmode rfl hkept]
  have hdata₃ : bcstData w₃.trace = bcstData w.trace := by rw [hs.trace]; rfl
  rw [hdata₃, List.append_cancel_left_eq] at hdata
  rw [hl, pieces_append hlw, hdata, List.append_nil, hs.trace]
  rfl

lemma Stored.pieces {w₃ : World} {c : Byte} (hs : Stored w w₃ w' id c) (h : RingInv w id)
    (hp : Pieces [] w.trace)
    (hspan : bcstMode w = (true, true) → c = newline → SpansLine w id) : Pieces [] w'.trace := by
  have hpiece (data : CStr) : Piece id (w.heap id).name c w.gbls.prefixbcst w.trace data →
      Pieces data w₃.trace := fun hd => by
    rw [hs.trace]
    exact ⟨hd, hp⟩
  have hmode₃ := hs.modifies.bcstMode_eq (by simp [outputParts]) (by simp [outputParts])
  cases hs.bcst with
  | off _ hw =>
    rw [hw]
    exact hpiece [] (.inl rfl)
  | char _ _ htrace =>
    rw [htrace]
    exact hpiece [c] (.inr (.inl rfl))
  | held _ _ _ hw =>
    rw [hw]
    exact hpiece [] (.inl rfl)
  | line hflg hlb hc hdata =>
    have hmode : bcstMode w = (true, true) := by rw [← hmode₃, bcstMode, hflg, hlb]
    have hline := hspan hmode hc
    subst hc
    exact (hs.line_trace h hmode hline.1).mpr ⟨hline.piece, hp⟩

lemma keptBytes_succ_le {this old : Cmd} (hn : this.bufn = old.bufn + 1)
    (hst : this.bufstart = old.bufstart) (hle : old.bufstart ≤ old.bufn) (hof : this.bufof =
      if cmdbufNtoI (old.bufn + 1) = cmdbufNtoI old.bufstart then old.bufof + 1 else old.bufof) :
    keptBytes this ≤ keptBytes old + 1 := by
  have hlength := lineLength_eq hn hst hle hof
  unfold lineLength at hlength
  unfold keptBytes at hlength ⊢
  split_ifs at hlength ⊢ <;> omega

/-- In line mode a byte that is no newline leaves the counters in order, and a newline puts them
there. -/
lemma Stored.spansLine {w₃ : World} {c : Byte} (hs : Stored w w₃ w' id c) (h : RingInv w id)
    (hmode : bcstMode w = (true, true)) (hspan : c ≠ newline → SpansLine w id) : SpansLine w' id := by
  rcases hs.counters hmode with ⟨hc, hn, hst, hof⟩ | ⟨⟨hc, hn, hst, hof⟩, -⟩
  · have hzero : keptBytes (w'.heap id) = 0 := by
      rw [keptBytes, if_pos hof, hn, hst, Nat.sub_self, Nat.zero_mod]
    exact ⟨hzero ▸ Nat.zero_le _, hzero ▸ Nat.zero_le _⟩
  · have hmode₃ := (hs.modifies.bcstMode_eq (by simp [outputParts]) (by simp [outputParts])).trans hmode
    rw [bcstMode, Prod.mk.injEq] at hmode₃
    have htrace : w'.trace = w₃.trace := by
      cases hs.bcst with
      | off hflg => rw [hmode₃.1] at hflg; cases hflg
      | char _ hlb => rw [hmode₃.2] at hlb; cases hlb
      | held _ _ _ hw => rw [hw]; rfl
      | line _ _ hnl => exact (hc hnl).elim
    have hunsent : unsent id w'.trace = unsent id w.trace ++ [c] := by
      rw [htrace, hs.trace]
      exact if_pos rfl
    have hline : unsentLine id w'.trace = unsentLine id w.trace ++ [c] := by
      rw [unsentLine, hunsent]
      exact List.rtakeWhile_concat_pos _ _ _ (by simpa using hc)
    obtain ⟨hstored, hle⟩ := hspan hc
    have hkept := keptBytes_succ_le hn hst h.start hof
    refine ⟨by omega, ?_⟩
    rw [hline, List.length_append, List.length_singleton]
    omega

lemma speaker_append (hl : ∀ o ∈ l, obsPart o = .oWrite .bcst) : speaker (l ++ t) = speaker t := by
  induction l with
  | nil => rfl
  | cons o l ih =>
    have ho := hl o List.mem_cons_self
    cases o with
    | write r buf => exact ih fun o ho => hl o (List.mem_cons_of_mem _ ho)
    | _ => cases ho

/-- The bytes of one command do not count as sent when those of another are. -/
lemma unsent_append (hl : ∀ o ∈ l, obsPart o = .oWrite .bcst) (ht : speaker t ≠ some id) :
    unsent id (l ++ t) = unsent id t := by
  induction l with
  | nil => rfl
  | cons o l ih =>
    have hl' : ∀ o ∈ l, obsPart o = .oWrite .bcst := fun o ho => hl o (List.mem_cons_of_mem _ ho)
    have ho := hl o List.mem_cons_self
    cases o with
    | write r buf =>
      cases ho
      change (if speaker (l ++ t) = some id then [] else unsent id (l ++ t)) = _
      rw [speaker_append hl', if_neg ht, ih hl']
    | _ => cases ho

lemma Stored.unsent_eq {w₃ : World} {c : Byte} {j : CmdId} (hs : Stored w w₃ w' id c) (hj : id ≠ j) :
    unsent j w'.trace = unsent j w.trace := by
  obtain ⟨l, hl, hlS⟩ := hs.rest.trace
  have hlw : ∀ o ∈ l, obsPart o = .oWrite .bcst := fun o ho => by
    rcases hlS o ho with h | h
    · cases o <;> cases h
    · exact h
  have hspeaker : speaker w₃.trace ≠ some j := by
    rw [hs.trace]
    exact fun h => hj (Option.some.inj h)
  rw [hl, unsent_append hlw hspeaker, hs.trace]
  exact if_neg hj

/-! ## Runs -/

structure PiecesInv (w : World) : Prop where
  cmds : ∀ id ∈ w.gbls.cmds, RingInv w id
  pieces : Pieces [] w.trace

lemma TableAct.piecesInv (ha : TableAct w w') (ht : TableInv w) (h : PiecesInv w) : PiecesInv w' := by
  refine ⟨ha.forall_cmds ht (fun id S hS hm hi => ?_) (fun id spec hadd => hadd.ringInv) h.cmds, ?_⟩
  · exact hi.frame hm (fun hp => hS _ hp rfl) (fun hp => hS _ hp rfl) (fun hp => hS _ hp trivial)
  · obtain ⟨S, hm, -, ho, -, hb⟩ := ha.modifies
    exact (hm.pieces_iff ho hb).mpr h.pieces

lemma OutputByte.piecesInv {c : Byte} {p : Pid} {rest : List (Byte × Pid)} {w₁ : World}
    (ho : OutputByte sys w id c p rest w₁ w') (hid : id ∈ w.gbls.cmds) (h : PiecesInv w)
    (hspan : bcstMode w = (true, true) → c = newline → SpansLine w id) : PiecesInv w' := by
  obtain ⟨w₃, hs⟩ := ho.ringStored
  refine ⟨fun j hj => ?_, hs.pieces (h.cmds id hid) h.pieces hspan⟩
  rw [ho.modifies_all.cmds_eq (by simp [outputParts])] at hj
  exact ho.ringInv (h.cmds j hj)

/-- What a drain keeps: the counters of the commands that are left and have a newline waiting are in
order. -/
structure DrainInv (ids : List CmdId) (w : World) : Prop extends PiecesInv w where
  spans : bcstMode w = (true, true) → ∀ id ∈ ids,
    newline ∈ (w.kern.ports (.cmd id)).domq.map Prod.fst → SpansLine w id

lemma OutputByte.drainInv {c : Byte} {p : Pid} {rest : List (Byte × Pid)} {w₁ : World} {ids : List CmdId}
    (ho : OutputByte sys w id c p rest w₁ w') (hid : id ∈ w.gbls.cmds) (h : DrainInv (id :: ids) w) :
    DrainInv (id :: ids) w' := by
  have hm := ho.modifies_all
  have hmode : bcstMode w' = bcstMode w := hm.bcstMode_eq (by simp [outputParts]) (by simp [outputParts])
  obtain ⟨w₃, hs⟩ := ho.ringStored
  have hhead : bcstMode w = (true, true) → c = newline → SpansLine w id := fun hmode hc =>
    h.spans hmode id List.mem_cons_self (by rw [ho.queue, hc]; simp)
  refine ⟨ho.piecesInv hid h.toPiecesInv hhead, fun hon j hj hnl => ?_⟩
  rw [hmode] at hon
  by_cases hne : id = j
  · subst hne
    refine hs.spansLine (h.cmds id hid) hon fun hc => h.spans hon id hj ?_
    have hqueue : (w'.kern.ports (.cmd id)).domq = rest := by
      have hnread : (w'.kern.ports (.cmd id)).nread = (w.kern.ports (.cmd id)).nread + 1 := by
        rw [← ho.nread]
        exact ho.modifies_rest.same (.nread (.cmd id)) (by simp)
      have hhist : (w'.kern.ports (.cmd id)).hist = (w.kern.ports (.cmd id)).hist :=
        hm.same (.hist (.cmd id)) (by simp [outputParts])
      rw [Port.domq, hnread, hhist]
      exact (seen_succ ho.queue).2.2
    rw [hqueue] at hnl
    rw [ho.queue]
    exact List.mem_cons_of_mem _ hnl
  · have hnread : (w'.kern.ports (.cmd j)).nread = (w.kern.ports (.cmd j)).nread :=
      hm.same (.nread (.cmd j)) (by simp [outputParts, Ne.symm hne])
    have hhist : (w'.kern.ports (.cmd j)).hist = (w.kern.ports (.cmd j)).hist :=
      hm.same (.hist (.cmd j)) (by simp [outputParts])
    have hring := hm.ring_eq j (by simp [outputParts, Ne.symm hne])
    rw [Port.domq, hnread, hhist] at hnl
    have hold := h.spans hon j hj hnl
    simp only [ringOf, Prod.mk.injEq] at hring
    rw [SpansLine, keptBytes, hring.2.1, hring.2.2.1, hring.2.2.2, unsentLine, hs.unsent_eq hne]
    exact hold

lemma flushes_of_drains {e : Event} (he : Drains e)
    (hnl : newline ∈ (w.kern.ports (.cmd id)).domq.map Prod.fst) : Flushes w e id := by
  unfold Flushes
  split
  · exact he.elim
  · exact ⟨he, hnl⟩

lemma DrainInv.frame {ids : List CmdId} (h : DrainInv ids w) (hm : Modifies ∅ w w') :
    DrainInv ids w' := by
  refine ⟨⟨fun id hid => ?_, (hm.pieces_iff (by simp) (by simp)).mpr h.pieces⟩, fun hmode id hid hnl => ?_⟩
  · rw [hm.cmds_eq (by simp)] at hid
    exact (h.cmds id hid).frame hm (by simp) (by simp) (by simp)
  · have htrace : w'.trace = w.trace := by
      obtain ⟨l, hl, hno⟩ := hm.trace
      rw [hl, List.eq_nil_iff_forall_not_mem.mpr fun o ho => hno o ho, List.nil_append]
    have hring := hm.ring_eq id (by simp)
    simp only [ringOf, Prod.mk.injEq] at hring
    rw [hm.bcstMode_eq (by simp) (by simp)] at hmode
    rw [hm.port_eq (by simp) (by simp) (by simp)] at hnl
    rw [SpansLine, keptBytes, hring.2.1, hring.2.2.1, hring.2.2.2, htrace]
    exact h.spans hmode id hid hnl

lemma DrainInv.reset {ids : List CmdId} (h : DrainInv (id :: ids) w) (hid : id ∉ ids) :
    DrainInv ids (w.updCmd id fun this => { this with bufstart := 0, bufn := 0 }) := by
  have hheap {j : CmdId} (hj : j ≠ id) :
      (w.updCmd id fun this => { this with bufstart := 0, bufn := 0 }).heap j = w.heap j := by
    simp [World.updCmd, hj]
  refine ⟨⟨fun j hj => ?_, h.pieces⟩, fun hmode j hj hnl => ?_⟩
  · by_cases hne : j = id
    · subst hne
      exact (h.cmds j hj).reset
    · exact (h.cmds j hj).congr (by rw [hheap hne]) (by rw [hheap hne]) rfl
  · have hne : j ≠ id := fun heq => hid (heq ▸ hj)
    rw [SpansLine, hheap hne]
    exact h.spans hmode j (List.mem_cons_of_mem _ hj) hnl

lemma reachable_piecesInv (hw : Reachable sys KeepsLines w) : PiecesInv w := by
  refine reachable_of_outputs (P := PiecesInv) ?_ ?_ (fun w w' ht h ha => ha.piecesInv ht h) ?_ ?_ hw
  · exact fun o => ⟨by simp [boot], rfl⟩
  · intro w e h
    have hm := apply_modifies w e
    refine ⟨fun id hid => ?_, (hm.pieces_iff (by cases e <;> simp [envParts])
      (by cases e <;> simp [envParts])).mpr h.pieces⟩
    rw [hm.cmds_eq (by cases e <;> simp [envParts])] at hid
    exact (h.cmds id hid).frame hm (by cases e <;> simp [envParts]) (by cases e <;> simp [envParts])
      (by cases e <;> simp [envParts])
  · intro w id x c p rest w₁ w' hok hx _ h hid ho
    refine ho.piecesInv hid h fun hmode hc => hok hmode id hid ⟨rfl, hx, ?_⟩
    rw [ho.queue, hc]
    rfl
  · intro w s x w' hok he ht h hd
    have hspans : DrainInv w.gbls.cmds w := ⟨h, fun hmode id hid hnl =>
      hok hmode id hid (flushes_of_drains he hnl)⟩
    refine (monDrain_rule (P := fun ids w₁ => DrainInv ids w₁) ht ?_ ?_ ?_ hd hspans).toPiecesInv
    · exact fun ids w₁ w₂ h hm => h.frame hm
    · exact fun id ids w₁ c p rest w₂ w₃ _ hcmds hid h ho => ho.drainInv (hcmds ▸ hid) h
    · exact fun id ids w₁ hid h => h.reset hid

/-- In every run in which the newlines that are broadcast in line mode find the counters of their ring in
order, all that goes out are pieces of output: each byte at most once and in order, each block of line
mode a single line. -/
theorem broadcast_pieces (hw : Reachable sys KeepsLines w) : Pieces [] w.trace :=
  (reachable_piecesInv hw).pieces

/-- Line buffering is switched on before there is any output. -/
theorem broadcast_pieces_toggled : ∃ w, Reachable quietSys KeepsLines w ∧
    bcstData w.trace = bytes "b: x\n" ∧ Pieces [] w.trace := by
  obtain ⟨w, hw, hp⟩ := exists_reachable quietSys KeepsLines { twoLines with linebufferbcst := false }
    ([monLine "lb"] ++ puts 1 120 ++ puts 1 newline)
    (fun w => decide (bcstData w.trace = bytes "b: x\n")) (by decide +kernel)
  exact ⟨w, hw, of_decide_eq_true hp, broadcast_pieces hw⟩

/-- Line buffering is switched on in the middle of a line, the head of which has already gone out. -/
theorem broadcast_not_always_pieces :
    ¬∀ (sys : Sys) (w : World), Reachable sys (fun _ _ => True) w → Pieces [] w.trace := by
  intro hall
  obtain ⟨w, hw, hp⟩ := exists_reachable quietSys (fun _ _ => True)
    { twoLines with linebufferbcst := false } (puts 1 120 ++ [monLine "lb"] ++ puts 1 newline)
    (fun w => decide ¬Pieces [] w.trace) (by decide +kernel)
  exact of_decide_eq_true hp (hall _ _ hw)

/-- The condition is needed: where the ring spans more than the unfinished line, what goes out with the
newline is no piece of output. -/
theorem overrun_not_piece {p : Pid} {rest : List (Byte × Pid)} {w₁ : World}
    (hw : Reachable sys KeepsLines w) (hid : id ∈ w.gbls.cmds)
    (ho : OutputByte sys w id newline p rest w₁ w') (hmode : bcstMode w = (true, true))
    (hkept : keptBytes (w.heap id) ≤ (w.heap id).bufn)
    (hover : (unsentLine id w.trace).length < keptBytes (w.heap id)) : ¬Pieces [] w'.trace := by
  have hinv := (reachable_piecesInv hw).cmds id hid
  obtain ⟨w₃, hs⟩ := ho.ringStored
  rw [hs.line_trace hinv hmode hkept]
  rintro ⟨hpiece, -⟩
  have hlen : ((relayedOutput id w.trace).rtake (keptBytes (w.heap id))).length = keptBytes (w.heap id) := by
    have hle := hinv.le
    simp only [List.rtake, List.length_drop]
    omega
  rw [block, List.rtake_concat_succ] at hpiece
  rcases hpiece with hnil | hone | ⟨-, b, hb, hnl, hdata⟩
  · simp at hnil
  · have hlength := congrArg List.length hone
    simp only [List.length_append, List.length_singleton, hlen] at hlength
    omega
  · have hb' : (relayedOutput id w.trace).rtake (keptBytes (w.heap id)) = b := by simpa using hdata
    have hline : b <:+ unsentLine id w.trace := suffix_rtakeWhile hb fun c hc => by
      simpa using fun heq : c = newline => hnl (heq ▸ hc)
    have hle := hline.length_le
    rw [← hb', hlen] at hle
    omega

end Yar.Proofs
