import Yar.Lib.Ring
import Yar.Proofs.Outputs
import Yar.Proofs.Runs

/-!
# Line-buffered broadcast

The ring of a command keeps the end of its output. A newline sends the line that ends there to the
broadcast tty, or its last `cmdbufSize` bytes, in one write or in two.
-/

namespace Yar.Proofs

open Program Transition

/-! ## What is handed to the broadcast tty -/

/-- Everything handed to the broadcast tty. -/
def bcstData : List Obs → CStr
  | [] => []
  | .write .bcst buf :: t => bcstData t ++ buf
  | _ :: t => bcstData t

variable {sys : Sys} {w w' : World} {id : CmdId} {S : Set Part} {l t : List Obs}

lemma bcstData_append (l t : List Obs) : bcstData (l ++ t) = bcstData t ++ bcstData l := by
  induction l with
  | nil => simp [bcstData]
  | cons o l ih =>
    cases o with
    | write r buf => cases r <;> simp [bcstData, ih]
    | _ => simpa only [List.cons_append, bcstData] using ih

lemma bcstData_eq_nil (hl : ∀ buf, .write .bcst buf ∉ l) : bcstData l = [] := by
  induction l with
  | nil => rfl
  | cons o l ih =>
    have ih := ih fun buf ho => hl buf (List.mem_cons_of_mem _ ho)
    cases o with
    | write r buf =>
      cases r with
      | bcst => exact (hl buf List.mem_cons_self).elim
      | _ => exact ih
    | _ => exact ih

lemma Modifies.bcstData_eq (hm : Modifies S w w') (hS : .oWrite .bcst ∉ S) :
    bcstData w'.trace = bcstData w.trace := by
  obtain ⟨l, hl, hlS⟩ := hm.trace
  rw [hl, bcstData_append, bcstData_eq_nil fun buf ho => hS (hlS _ ho), List.append_nil]

/-- The state of a command's ring. -/
def ringOf (c : Cmd) : (Nat → Byte) × Nat × Nat × Nat := (c.buf, c.bufn, c.bufstart, c.bufof)

lemma Modifies.ring_eq (id : CmdId) (hm : Modifies S w w') (hS : .ring id ∉ S) :
    ringOf (w'.heap id) = ringOf (w.heap id) :=
  hm.same _ hS

/-- `buf` has been handed to the broadcast tty. -/
structure Sent (w w' : World) (buf : CStr) : Prop where
  modifies : Modifies {.oWrite .bcst} w w'
  data : bcstData w'.trace = bcstData w.trace ++ buf

lemma Sent.trans {w₁ : World} {a b : CStr} (h : Sent w w₁ a) (h' : Sent w₁ w' b) : Sent w w' (a ++ b) :=
  ⟨trans_of _ h.modifies h'.modifies, by rw [h'.data, h.data, List.append_assoc]⟩

lemma Sent.refl (w : World) : Sent w w [] := ⟨refl_of _ w, (List.append_nil _).symm⟩

lemma bcstWriteAll_ok {buf : CStr} {u : Unit} (h : bcstWriteAll sys buf w = .ok u w') : Sent w w' buf := by
  refine ⟨bcstWriteAll_modifies sys buf (by simp) h, ?_⟩
  obtain ⟨n, w₁, hwrite, h⟩ := bind_eq_ok.mp h
  obtain ⟨-, hw⟩ := require_eq_ok.mp h
  rw [hw, (ttyWriteBuf_ok hwrite).trace]
  rfl

/-! ## The ring -/

/-- The slices of the ring that go out when the newline is in cell `i`. -/
def lineSlices (this : Cmd) (i : Nat) : CStr :=
  if this.bufof = 0 then
    if cmdbufNtoI this.bufstart ≤ i then
      bufSlice this.buf (cmdbufNtoI this.bufstart) (i - cmdbufNtoI this.bufstart + 1)
    else bufSlice this.buf (cmdbufNtoI this.bufstart) (cmdbufSize - cmdbufNtoI this.bufstart) ++
      bufSlice this.buf 0 (i + 1)
  else (if i + 1 < cmdbufSize then bufSlice this.buf (i + 1) (cmdbufSize - (i + 1)) else []) ++
    bufSlice this.buf 0 (i + 1)

lemma cmdttyFlushBuf_ok {i : Nat} {u : Unit} (h : cmdttyFlushBuf sys id i w = .ok u w') :
    bcstData w'.trace = bcstData w.trace ++ lineSlices (w.heap id) i ∧
      ringOf (w'.heap id) = ((w.heap id).buf, (w.heap id).bufn, (w.heap id).bufstart, 0) := by
  unfold cmdttyFlushBuf at h
  replace h := get_bind_eq_ok.mp h
  unfold lineSlices
  by_cases hof : (w.heap id).bufof = 0
  · rw [if_pos hof] at h ⊢
    have hring {buf : CStr} (hs : Sent w w' buf) : ringOf (w'.heap id) =
        ((w.heap id).buf, (w.heap id).bufn, (w.heap id).bufstart, 0) := by
      rw [hs.modifies.ring_eq _ (by simp), ringOf, hof]
    by_cases hle : cmdbufNtoI (w.heap id).bufstart ≤ i
    · rw [if_pos hle] at h ⊢
      have hs := bcstWriteAll_ok h
      exact ⟨hs.data, hring hs⟩
    · rw [if_neg hle] at h ⊢
      obtain ⟨-, h⟩ := require_bind_eq_ok.mp h
      obtain ⟨_, w₁, h₁, h₂⟩ := bind_eq_ok.mp h
      have hs := (bcstWriteAll_ok h₁).trans (bcstWriteAll_ok h₂)
      exact ⟨hs.data, hring hs⟩
  · rw [if_neg hof] at h ⊢
    obtain ⟨_, w₁, h₁, h⟩ := bind_eq_ok.mp h
    obtain ⟨_, w₂, h₂, hupd⟩ := bind_eq_ok.mp h
    have hs₁ : Sent w w₁ (if i + 1 < cmdbufSize then
        bufSlice (w.heap id).buf (i + 1) (cmdbufSize - (i + 1)) else []) := by
      rcases when_eq_ok.mp h₁ with ⟨hlt, h₁⟩ | ⟨hge, hw⟩
      · rw [if_pos hlt]
        exact bcstWriteAll_ok h₁
      · rw [if_neg hge, hw]
        exact .refl w
    have hs := hs₁.trans (bcstWriteAll_ok h₂)
    have hw' := modify_eq_ok.mp hupd
    have hring := hs.modifies.ring_eq id (by simp)
    simp only [ringOf, Prod.mk.injEq] at hring
    refine ⟨by rw [hw']; exact hs.data, ?_⟩
    simp [hw', World.updCmd, ringOf, hring]

/-- The overflow count after the test for a full round. -/
def countOverflow (this : Cmd) : Nat :=
  if cmdbufNtoI this.bufn = cmdbufNtoI this.bufstart then this.bufof + 1 else this.bufof

lemma cmdttyCountOverflow_ok {u : Unit} (h : cmdttyCountOverflow id w = .ok u w') :
    w' = w.updCmd id fun this => { this with bufof := countOverflow this } := by
  unfold cmdttyCountOverflow at h
  replace h := get_bind_eq_ok.mp h
  rcases when_eq_ok.mp h with ⟨hfull, h⟩ | ⟨hfull, h⟩
  · obtain ⟨-, h⟩ := require_bind_eq_ok.mp h
    rw [modify_eq_ok.mp h]
    simp only [World.updCmd, countOverflow, if_pos hfull]
  · rw [h]
    simp [World.updCmd, countOverflow, if_neg hfull]

/-- The prefix of a broadcast line. -/
def linePrefix (g : Globals) (this : Cmd) : CStr := if g.prefixbcst = true then this.bcstprefix else []

/-- What is sent for a byte that is in cell `i`, and what happens to the ring. -/
inductive Broadcast (w w' : World) (id : CmdId) (i : Nat) (c : Byte) : Prop where
  | off (hflg : w.gbls.bcstflg = false) (hw : w' = w)
  | char (hflg : w.gbls.bcstflg = true) (hlb : w.gbls.linebufferbcst = false)
      (htrace : w'.trace = .write .bcst [c] :: w.trace)
      (hring : ringOf (w'.heap id) = ringOf (w.heap id))
  | held (hflg : w.gbls.bcstflg = true) (hlb : w.gbls.linebufferbcst = true) (hc : c ≠ newline)
      (hw : w' = w.updCmd id fun this => { this with bufof := countOverflow this })
  | line (hflg : w.gbls.bcstflg = true) (hlb : w.gbls.linebufferbcst = true) (hc : c = newline)
      (hdata : bcstData w'.trace = bcstData w.trace ++ (linePrefix w.gbls (w.heap id) ++
        lineSlices { w.heap id with bufof := countOverflow (w.heap id) } i))
      (hring : ringOf (w'.heap id) = ((w.heap id).buf, (w.heap id).bufn, (w.heap id).bufn, 0))

lemma cmdttyFlushLine_ok {i : Nat} {u : Unit} (h : cmdttyFlushLine sys id i w = .ok u w') :
    bcstData w'.trace =
        bcstData w.trace ++ (linePrefix w.gbls (w.heap id) ++ lineSlices (w.heap id) i) ∧
      ringOf (w'.heap id) = ((w.heap id).buf, (w.heap id).bufn, (w.heap id).bufn, 0) := by
  unfold cmdttyFlushLine at h
  replace h := get_bind_eq_ok.mp h
  obtain ⟨_, w₁, hpfx, h⟩ := bind_eq_ok.mp h
  obtain ⟨_, w₂, hflush, hupd⟩ := bind_eq_ok.mp h
  have hs₁ : Sent w w₁ (linePrefix w.gbls (w.heap id)) := by
    unfold linePrefix
    rcases when_eq_ok.mp hpfx with ⟨⟨hp, -⟩, hpfx⟩ | ⟨hn, hw⟩
    · rw [if_pos hp]
      exact bcstWriteAll_ok hpfx
    · rw [hw]
      by_cases hp : w.gbls.prefixbcst = true
      · have hlen : ¬ (Cmd.bcstprefix (w.heap id)).length > 0 := fun hlen => hn ⟨hp, hlen⟩
        have hnil : Cmd.bcstprefix (w.heap id) = [] := List.length_eq_zero_iff.mp (by omega)
        rw [if_pos hp, hnil]
        exact .refl w
      · rw [if_neg hp]
        exact .refl w
  have hring₁ := hs₁.modifies.ring_eq id (by simp)
  simp only [ringOf, Prod.mk.injEq] at hring₁
  obtain ⟨hbuf, hn, hstart, hof⟩ := hring₁
  obtain ⟨hdata, hring⟩ := cmdttyFlushBuf_ok hflush
  have hslices : lineSlices (w₁.heap id) i = lineSlices (w.heap id) i := by
    simp only [lineSlices, hbuf, hstart, hof]
  rw [modify_eq_ok.mp hupd]
  simp only [ringOf, Prod.mk.injEq] at hring
  refine ⟨?_, by simp [World.updCmd, ringOf, hring, hbuf, hn]⟩
  change bcstData w₂.trace = _
  rw [hdata, hs₁.data, hslices, List.append_assoc]

lemma cmdttyBroadcast_ok {i : Nat} {c : Byte} {u : Unit}
    (h : cmdttyBroadcast sys id i c w = .ok u w') : Broadcast w w' id i c := by
  unfold cmdttyBroadcast at h
  replace h := get_bind_eq_ok.mp h
  rcases when_eq_ok.mp h with ⟨hflg, h⟩ | ⟨hflg, h⟩
  · by_cases hlb : w.gbls.linebufferbcst = false
    · rw [if_pos hlb] at h
      refine .char hflg hlb ?_ ((bcstWriteAll_ok h).modifies.ring_eq _ (by simp))
      obtain ⟨n, w₁, hwrite, h⟩ := bind_eq_ok.mp h
      obtain ⟨-, hw⟩ := require_eq_ok.mp h
      rw [hw]
      exact (ttyWriteBuf_ok hwrite).trace
    · rw [if_neg hlb] at h
      obtain ⟨_, w₁, hcount, h⟩ := bind_eq_ok.mp h
      have hw₁ := cmdttyCountOverflow_ok hcount
      rw [Bool.not_eq_false] at hlb
      rcases when_eq_ok.mp h with ⟨hc, h⟩ | ⟨hc, h⟩
      · obtain ⟨hdata, hring⟩ := cmdttyFlushLine_ok h
        subst hw₁
        simp only [World.updCmd, Function.update_self] at hdata hring
        exact .line hflg hlb hc hdata hring
      · exact .held hflg hlb hc (h.trans hw₁)
  · exact .off (by simpa using hflg) h

/-! ## The end of the output -/

/-- How many bytes, the newline included, go out for a line that has just been completed. -/
def lineLength (this : Cmd) : Nat :=
  if this.bufof = 0 then (this.bufn - this.bufstart) % cmdbufSize else cmdbufSize

/-- The slices put the end of the output together again, wherever in the ring it lies. -/
theorem lineSlices_eq {this : Cmd} {l : CStr} (h : Ring.Holds cmdbufSize this.buf this.bufn l)
    (hstart : this.bufstart < this.bufn)
    (hof : this.bufof = 0 → cmdbufNtoI this.bufn ≠ cmdbufNtoI this.bufstart)
    (hlen : lineLength this ≤ l.length) :
    lineSlices this (cmdbufNtoI (this.bufn - 1)) = l.rtake (lineLength this) := by
  have hl := h.rtake (lineLength this)
  have hle := h.le
  have hlength : (l.rtake (lineLength this)).length = lineLength this := by
    simp only [List.rtake, List.length_drop]
    omega
  have hslice := hl.slice_eq
  have hwrap := hl.slice_append_eq
  rw [hlength] at hslice hwrap
  have hsize : cmdbufSize = 4096 := rfl
  have hcells (n : Nat) : cmdbufNtoI n = n % 4096 := rfl
  have hstartcell := hcells this.bufstart
  have hend := hcells (this.bufn - 1)
  have hncell := hcells this.bufn
  rw [hsize] at hslice hwrap
  rw [lineSlices, hsize]
  by_cases h0 : this.bufof = 0
  · have hround := hof h0
    have hlineLength : lineLength this = (this.bufn - this.bufstart) % 4096 := if_pos h0
    have hcell : (this.bufn - lineLength this) % 4096 = cmdbufNtoI this.bufstart := by omega
    rw [if_pos h0]
    by_cases hcase : cmdbufNtoI this.bufstart ≤ cmdbufNtoI (this.bufn - 1)
    · rw [if_pos hcase, ← hslice (by omega), hcell,
        show cmdbufNtoI (this.bufn - 1) - cmdbufNtoI this.bufstart + 1 = lineLength this by omega]
      rfl
    · rw [if_neg hcase, ← hwrap (by omega) (by omega) (by omega), hcell,
        show cmdbufNtoI (this.bufn - 1) + 1 = cmdbufNtoI this.bufstart + lineLength this - 4096 by omega]
      rfl
  · have hlineLength : lineLength this = 4096 := if_neg h0
    rw [if_neg h0]
    by_cases hcase : cmdbufNtoI (this.bufn - 1) + 1 < 4096
    · have hcell : (this.bufn - lineLength this) % 4096 = cmdbufNtoI (this.bufn - 1) + 1 := by
        omega
      rw [if_pos hcase, ← hwrap (by omega) (by omega) (by omega), hcell, hlineLength, Nat.add_sub_cancel]
      rfl
    · have hcell : (this.bufn - lineLength this) % 4096 = 0 := by omega
      rw [if_neg hcase, ← hslice (by omega), hcell, List.nil_append,
        show cmdbufNtoI (this.bufn - 1) + 1 = lineLength this by omega]
      rfl

/-! ## A byte of output and the ring -/

/-- The byte has been stored and written to the client tty, and comes to be broadcast in `w₃`. -/
structure Stored (w w₃ w' : World) (id : CmdId) (c : Byte) : Prop where
  ring : ringOf (w₃.heap id) = (Function.update (w.heap id).buf (cmdbufNtoI (w.heap id).bufn) c,
    (w.heap id).bufn + 1, (w.heap id).bufstart, (w.heap id).bufof)
  trace : w₃.trace = .write (.clt id) [c] ::
    .output id (w.heap id).name c w.gbls.prefixbcst :: .read (.cmd id) c :: w.trace
  modifies : Modifies (outputParts id) w w₃
  rest : Modifies {.ring id, .oWrite .bcst} w₃ w'
  bcst : Broadcast w₃ w' id (cmdbufNtoI (w.heap id).bufn) c

lemma cmdttyStore_ok {c : Byte} {u : Unit} (h : cmdttyStore id c w = .ok u w') :
    ringOf (w'.heap id) = (Function.update (w.heap id).buf (cmdbufNtoI (w.heap id).bufn) c,
      (w.heap id).bufn + 1, (w.heap id).bufstart, (w.heap id).bufof) ∧ w'.trace = w.trace := by
  replace h := get_bind_eq_ok.mp (modify_bind_eq_ok.mp h)
  obtain ⟨-, h⟩ := require_bind_eq_ok.mp h
  rw [modify_eq_ok.mp h]
  exact ⟨by simp [World.updCmd, ringOf], rfl⟩

lemma OutputByte.ringStored {c : Byte} {p : Pid} {rest : List (Byte × Pid)} {w₁ : World}
    (h : OutputByte sys w id c p rest w₁ w') : ∃ w₃, Stored w w₃ w' id c := by
  obtain ⟨w₂, w₃, hstore, hwrite, hbcst⟩ := h.stored
  have hm₁ : Modifies (outputParts id) w w₁ := h.modifies.mono (by
    rintro q (rfl | rfl | rfl | rfl | rfl) <;> simp [outputParts])
  have hm₂ : Modifies (outputParts id) w₁ w₂ := cmdttyStore_modifies id c (by simp [outputParts]) hstore
  have hm₃ : Modifies {.oWrite (.clt id)} w₂ w₃ := ttyWriteBuf_modifies sys [c] (by simp) (by simp) hwrite
  have hring₁ := h.modifies.ring_eq id (by simp)
  simp only [ringOf, Prod.mk.injEq] at hring₁
  obtain ⟨hbuf, hn, hstart, hof⟩ := hring₁
  obtain ⟨hring₂, htrace₂⟩ := cmdttyStore_ok hstore
  rw [hbuf, hn, hstart, hof] at hring₂
  rw [hn] at hbcst
  refine ⟨w₃, (hm₃.ring_eq _ (by simp)).trans hring₂, ?_, ?_,
    cmdttyBroadcast_modifies sys id _ c (by simp) (by simp) hbcst, cmdttyBroadcast_ok hbcst⟩
  · rw [(ttyWriteBuf_ok hwrite).trace, htrace₂, h.trace]
  · refine trans_of _ hm₁ (trans_of _ hm₂ (hm₃.mono ?_))
    rintro q rfl
    simp [outputParts]

/-- The ring holds the end of the output, as much as has been stored since the last reset. -/
structure RingInv (w : World) (id : CmdId) : Prop where
  le : (w.heap id).bufn ≤ (relayedOutput id w.trace).length
  start : (w.heap id).bufstart ≤ (w.heap id).bufn
  holds : Ring.Holds cmdbufSize (w.heap id).buf (w.heap id).bufn
    ((relayedOutput id w.trace).rtake (w.heap id).bufn)
  bcstprefix : Cmd.bcstprefix (w.heap id) = (w.heap id).name ++ bytes ": "

lemma RingInv.congr (h : RingInv w id) (hring : ringOf (w'.heap id) = ringOf (w.heap id))
    (hspec : cmdSpecOf (w'.heap id) = cmdSpecOf (w.heap id))
    (hout : relayedOutput id w'.trace = relayedOutput id w.trace) : RingInv w' id := by
  simp only [ringOf, cmdSpecOf, Prod.mk.injEq] at hring hspec
  obtain ⟨hbuf, hn, hstart, -⟩ := hring
  refine ⟨?_, ?_, ?_, ?_⟩
  · rw [hn, hout]
    exact h.le
  · rw [hn, hstart]
    exact h.start
  · rw [hbuf, hn, hout]
    exact h.holds
  · rw [hspec.1, hspec.2.1]
    exact h.bcstprefix

lemma RingInv.frame (h : RingInv w id) (hm : Modifies S w w') (hr : .ring id ∉ S) (hs : .spec id ∉ S)
    (ho : .oOutput ∉ S) : RingInv w' id :=
  h.congr (hm.ring_eq _ hr) (hm.spec_eq _ hs) (hm.relayedOutput_eq ho)

/-- The counters may be set back at any time. -/
lemma RingInv.reset (h : RingInv w id) :
    RingInv (w.updCmd id fun this => { this with bufstart := 0, bufn := 0 }) id := by
  refine ⟨?_, ?_, ?_, ?_⟩ <;> simp only [World.updCmd, Function.update_self]
  · exact Nat.zero_le _
  · exact le_rfl
  · rw [List.rtake_zero]
    exact .empty
  · exact h.bcstprefix

lemma Added.ringInv {spec : CmdSpec} (ha : Added w w' id spec) : RingInv w' id := by
  obtain ⟨hn, hstart, -⟩ := ha.init.ring
  refine ⟨by simp [hn], by simp [hn, hstart], ?_, ha.init.bcstprefix.trans (by rw [ha.init.name])⟩
  rw [hn, List.rtake_zero]
  exact .empty

/-- What the ring is after the byte, and what the ring before the byte held. -/
lemma Stored.ringInv {w₃ : World} {c : Byte} (hs : Stored w w₃ w' id c) (h : RingInv w id)
    (hm : Modifies (outputParts id) w w')
    (hout : relayedOutput id w'.trace = relayedOutput id w.trace ++ [c]) : RingInv w' id := by
  have hring₃ := hs.ring
  have hspec := hm.spec_eq id (by simp [outputParts])
  have hnew : (w'.heap id).buf = (w₃.heap id).buf ∧ (w'.heap id).bufn = (w₃.heap id).bufn ∧
      ((w'.heap id).bufstart = (w₃.heap id).bufstart ∨
        (w'.heap id).bufstart = (w₃.heap id).bufn) := by
    cases hs.bcst with
    | off _ hw => rw [hw]; simp
    | char _ _ _ hring =>
      simp only [ringOf, Prod.mk.injEq] at hring
      simp [hring]
    | held _ _ _ hw => rw [hw]; simp [World.updCmd]
    | line _ _ _ _ hring =>
      simp only [ringOf, Prod.mk.injEq] at hring
      simp [hring]
  simp only [ringOf, cmdSpecOf, Prod.mk.injEq] at hring₃ hspec
  obtain ⟨hbuf, hn, hstart⟩ := hnew
  rw [hring₃.2.1] at hn hstart
  rw [hring₃.2.2.1] at hstart
  refine ⟨?_, ?_, ?_, ?_⟩
  · rw [hn, hout, List.length_append]
    exact Nat.add_le_add_right h.le 1
  · have hle := h.start
    omega
  · rw [hbuf, hn, hring₃.1, hout, List.rtake_concat_succ]
    exact h.holds.push
  · rw [hspec.1, hspec.2.1]
    exact h.bcstprefix

lemma OutputByte.ringInv {c : Byte} {p : Pid} {rest : List (Byte × Pid)} {w₁ : World} {j : CmdId}
    (ho : OutputByte sys w id c p rest w₁ w') (h : RingInv w j) : RingInv w' j := by
  obtain ⟨w₃, hs⟩ := ho.ringStored
  have hout := (ho.observed j).1
  by_cases hj : id = j
  · subst hj
    rw [if_pos rfl] at hout
    exact hs.ringInv h ho.modifies_all hout
  · rw [if_neg hj, List.append_nil] at hout
    exact h.congr (ho.modifies_all.ring_eq _ (by simp [outputParts, Ne.symm hj]))
      (ho.modifies_all.spec_eq _ (by simp [outputParts])) hout

/-- Whatever the modes and however often the monitor drains. -/
lemma reachable_ringInv {ok : World → Event → Prop} (hw : Reachable sys ok w) :
    ∀ id ∈ w.gbls.cmds, RingInv w id := by
  refine reachable_of_outputs (P := fun w => ∀ id ∈ w.gbls.cmds, RingInv w id) ?_ ?_ ?_ ?_ ?_ hw
  · exact fun o => by simp [boot]
  · intro w e h id hid
    have hm := apply_modifies w e
    rw [hm.cmds_eq (by cases e <;> simp [envParts])] at hid
    exact (h id hid).frame hm (by cases e <;> simp [envParts]) (by cases e <;> simp [envParts])
      (by cases e <;> simp [envParts])
  · exact fun w w' ht h ha => ha.forall_cmds ht (fun id S hS hm hi =>
      hi.frame hm (fun hp => hS _ hp rfl) (fun hp => hS _ hp rfl) fun hp => hS _ hp trivial)
      (fun id spec hadd => hadd.ringInv) h
  · intro w id x c p rest w₁ w' _ _ _ h _ ho j hj
    rw [ho.modifies_all.cmds_eq (by simp [outputParts])] at hj
    exact ho.ringInv (h j hj)
  · intro w s x w' _ _ ht h hd
    refine monDrain_rule (P := fun _ w => ∀ id ∈ w.gbls.cmds, RingInv w id) ht ?_ ?_ ?_ hd h
    · intro _ w₁ w₂ h hm id hid
      rw [hm.cmds_eq (by simp)] at hid
      exact (h id hid).frame hm (by simp) (by simp) (by simp)
    · intro _ _ w₁ c p rest w₂ w₃ _ _ _ h ho j hj
      rw [ho.modifies_all.cmds_eq (by simp [outputParts])] at hj
      exact ho.ringInv (h j hj)
    · intro id _ w₁ _ h j hj
      by_cases hne : j = id
      · subst hne
        exact (h j hj).reset
      · have hheap : (w₁.updCmd id fun this => { this with bufstart := 0, bufn := 0 }).heap j =
            w₁.heap j := by simp [World.updCmd, hne]
        exact (h j hj).congr (by rw [hheap]) (by rw [hheap]) rfl

/-! ## Blocks -/

/-- The unfinished line of a command's output. -/
def pending (id : CmdId) : List Obs → CStr
  | [] => []
  | .output j _ c _ :: t =>
    if j = id then if c = newline then [] else pending id t ++ [c] else pending id t
  | _ :: t => pending id t

/-- One block for each completed line, in the order of the newlines: the prefix, if it is on when the
newline is read, and the last `cmdbufSize` bytes of the line. -/
def lineBlocks : List Obs → CStr
  | [] => []
  | .output id name c pfx :: t =>
    if c = newline then
      lineBlocks t ++ ((if pfx = true then name ++ bytes ": " else []) ++
        (pending id t ++ [newline]).rtake cmdbufSize)
    else lineBlocks t
  | _ :: t => lineBlocks t

lemma pending_append (hl : ∀ j n c b, .output j n c b ∉ l) : pending id (l ++ t) = pending id t := by
  induction l with
  | nil => rfl
  | cons o l ih =>
    have ih := ih fun j n c b ho => hl j n c b (List.mem_cons_of_mem _ ho)
    cases o with
    | output j n c b => exact (hl j n c b List.mem_cons_self).elim
    | _ => exact ih

lemma lineBlocks_append (hl : ∀ j n c b, .output j n c b ∉ l) :
    lineBlocks (l ++ t) = lineBlocks t := by
  induction l with
  | nil => rfl
  | cons o l ih =>
    have ih := ih fun j n c b ho => hl j n c b (List.mem_cons_of_mem _ ho)
    cases o with
    | output j n c b => exact (hl j n c b List.mem_cons_self).elim
    | _ => exact ih

lemma Modifies.lines_eq (id : CmdId) (hm : Modifies S w w') (hS : .oOutput ∉ S) :
    pending id w'.trace = pending id w.trace ∧ lineBlocks w'.trace = lineBlocks w.trace := by
  obtain ⟨l, hl, hlS⟩ := hm.trace
  have hno : ∀ j n c b, .output j n c b ∉ l := fun j n c b ho => hS (hlS _ ho)
  rw [hl]
  exact ⟨pending_append hno, lineBlocks_append hno⟩

/-- The unfinished line is the end of the output. -/
lemma pending_suffix (id : CmdId) (t : List Obs) : pending id t <:+ relayedOutput id t := by
  induction t with
  | nil => exact List.suffix_refl _
  | cons o t ih =>
    cases o with
    | output j n c b =>
      rw [pending, relayedOutput]
      by_cases hj : j = id
      · rw [if_pos hj, if_pos hj]
        by_cases hc : c = newline
        · rw [if_pos hc]
          exact List.nil_suffix
        · rw [if_neg hc]
          exact (List.suffix_append_inj_of_length_eq rfl).mpr ⟨ih, rfl⟩
      · rw [if_neg hj, if_neg hj]
        exact ih
    | _ => exact ih

lemma rtake_of_suffix {α : Type} {a b : List α} {n : Nat} (h : a <:+ b) (hn : n ≤ a.length) :
    b.rtake n = a.rtake n := by
  obtain ⟨t, rfl⟩ := h
  rw [List.rtake, List.rtake, List.length_append, Nat.add_sub_assoc hn, List.drop_append,
    List.drop_eq_nil_of_le (by omega), List.nil_append]
  congr 1
  omega

/-- The last `m` elements of a line, found in the stream that it ends. -/
lemma rtake_line {α : Type} {a b : List α} {x : α} {k m : Nat} (h : a <:+ b)
    (hk : k = min a.length (m - 1)) (hm : 0 < m) : (b ++ [x]).rtake (k + 1) = (a ++ [x]).rtake m := by
  rw [List.rtake_concat_succ, rtake_of_suffix h (hk ▸ Nat.min_le_left _ _), ← List.rtake_concat_succ,
    List.rtake, List.rtake, List.length_append, List.length_singleton]
  congr 1
  omega

/-- In line mode the counters of the ring measure the unfinished line. -/
structure LineInv (w : World) (id : CmdId) : Prop extends RingInv w id where
  span : (w.heap id).bufn = (w.heap id).bufstart + (pending id w.trace).length
  rounds : (w.heap id).bufof = (pending id w.trace).length / cmdbufSize

lemma LineInv.congr (h : LineInv w id) (hring : ringOf (w'.heap id) = ringOf (w.heap id))
    (hspec : cmdSpecOf (w'.heap id) = cmdSpecOf (w.heap id))
    (hout : relayedOutput id w'.trace = relayedOutput id w.trace)
    (hpending : pending id w'.trace = pending id w.trace) : LineInv w' id := by
  refine ⟨h.toRingInv.congr hring hspec hout, ?_, ?_⟩
  all_goals
    simp only [ringOf, Prod.mk.injEq] at hring
    obtain ⟨-, hn, hstart, hof⟩ := hring
  · rw [hn, hstart, hpending]
    exact h.span
  · rw [hof, hpending]
    exact h.rounds

lemma LineInv.frame (h : LineInv w id) (hm : Modifies S w w') (hr : .ring id ∉ S) (hs : .spec id ∉ S)
    (ho : .oOutput ∉ S) : LineInv w' id :=
  h.congr (hm.ring_eq _ hr) (hm.spec_eq _ hs) (hm.relayedOutput_eq ho) (hm.lines_eq _ ho).1

/-- How many bytes of the ring the next newline takes along. -/
def keptBytes (this : Cmd) : Nat :=
  if this.bufof = 0 then (this.bufn - this.bufstart) % cmdbufSize else cmdbufSize - 1

lemma lineLength_eq {this old : Cmd} (hn : this.bufn = old.bufn + 1) (hst : this.bufstart = old.bufstart)
    (hle : old.bufstart ≤ old.bufn) (hof : this.bufof =
      if cmdbufNtoI (old.bufn + 1) = cmdbufNtoI old.bufstart then old.bufof + 1 else old.bufof) :
    lineLength this = keptBytes old + 1 := by
  have hnext : cmdbufNtoI (old.bufn + 1) = (old.bufn + 1) % 4096 := rfl
  have hcell : cmdbufNtoI old.bufstart = old.bufstart % 4096 := rfl
  have hsize : cmdbufSize = 4096 := rfl
  unfold lineLength keptBytes
  rw [hn, hst, hsize]
  by_cases hround : cmdbufNtoI (old.bufn + 1) = cmdbufNtoI old.bufstart
  · rw [if_pos hround] at hof
    split_ifs <;> omega
  · rw [if_neg hround] at hof
    split_ifs <;> omega

/-- The block of a line that ends with the newline just read. -/
def block (w : World) (id : CmdId) : CStr :=
  (if w.gbls.prefixbcst = true then (w.heap id).name ++ bytes ": " else []) ++
    (relayedOutput id w.trace ++ [newline]).rtake (keptBytes (w.heap id) + 1)

/-- What goes out for a newline, as long as the counters of the ring span no more than it holds. -/
lemma Stored.flushed {w₃ : World} {c : Byte} (hs : Stored w w₃ w' id c) (h : RingInv w id)
    (hmode : bcstMode w = (true, true)) (hc : c = newline)
    (hkept : keptBytes (w.heap id) ≤ (w.heap id).bufn) :
    bcstData w'.trace = bcstData w.trace ++ block w id := by
  have hring₃ := hs.ring
  have hspec := hs.modifies.spec_eq id (by simp [outputParts])
  have hpfx : w₃.gbls.prefixbcst = w.gbls.prefixbcst :=
    (congrArg Globals.prefixbcst (hs.modifies.flags_eq (by simp [outputParts])) :)
  have hmode₃ := (hs.modifies.bcstMode_eq (by simp [outputParts]) (by simp [outputParts])).trans hmode
  simp only [ringOf, cmdSpecOf, bcstMode, Prod.mk.injEq] at hring₃ hspec hmode₃
  obtain ⟨hbuf, hn, hst, hof⟩ := hring₃
  have hdata₃ : bcstData w₃.trace = bcstData w.trace := by rw [hs.trace]; rfl
  cases hs.bcst with
  | off hflg => rw [hmode₃.1] at hflg; cases hflg
  | char _ hlb => rw [hmode₃.2] at hlb; cases hlb
  | held _ _ hne => exact (hne hc).elim
  | line _ _ _ hdata =>
    rw [hdata₃, linePrefix, hpfx, hspec.2.1, h.bcstprefix] at hdata
    rw [hdata, block]
    generalize hthis : ({ w₃.heap id with bufof := countOverflow (w₃.heap id) } : Cmd) = this
    have hbuf' : this.buf = Function.update (w.heap id).buf (cmdbufNtoI (w.heap id).bufn) newline := by
      rw [← hthis, ← hc, ← hbuf]
    have hn' : this.bufn = (w.heap id).bufn + 1 := by rw [← hthis, ← hn]
    have hst' : this.bufstart = (w.heap id).bufstart := by rw [← hthis, ← hst]
    have hof' : this.bufof = countOverflow (w₃.heap id) := by rw [← hthis]
    simp only [countOverflow, hn, hst, hof] at hof'
    have hle := h.le
    have hstart := h.start
    have hlength : lineLength this = keptBytes (w.heap id) + 1 := lineLength_eq hn' hst' hstart hof'
    have hstored : Ring.Holds cmdbufSize this.buf this.bufn
        ((relayedOutput id w.trace ++ [newline]).rtake ((w.heap id).bufn + 1)) := by
      rw [hbuf', hn', List.rtake_concat_succ]
      exact h.holds.push
    have hlen : lineLength this ≤
        ((relayedOutput id w.trace ++ [newline]).rtake ((w.heap id).bufn + 1)).length := by
      simp only [List.rtake, List.length_drop, List.length_append, List.length_singleton]
      omega
    have hslices := lineSlices_eq hstored (by omega) (fun h0 heq => ?_) hlen
    · rw [hn', Nat.add_sub_cancel] at hslices
      have hend : (relayedOutput id w.trace ++ [newline]).rtake (lineLength this) = _ :=
        rtake_of_suffix (List.drop_suffix _ _) hlen
      rw [← hlength, hend, hslices]
      rfl
    · rw [hn', hst'] at heq
      rw [hof', if_pos heq] at h0
      omega

/-- The ring after a byte that is handled in line mode. -/
lemma Stored.counters {w₃ : World} {c : Byte} (hs : Stored w w₃ w' id c)
    (hmode : bcstMode w = (true, true)) :
    (c = newline ∧ (w'.heap id).bufn = (w.heap id).bufn + 1 ∧
      (w'.heap id).bufstart = (w.heap id).bufn + 1 ∧ (w'.heap id).bufof = 0) ∨
    (c ≠ newline ∧ (w'.heap id).bufn = (w.heap id).bufn + 1 ∧
      (w'.heap id).bufstart = (w.heap id).bufstart ∧ (w'.heap id).bufof =
        if cmdbufNtoI ((w.heap id).bufn + 1) = cmdbufNtoI (w.heap id).bufstart then
          (w.heap id).bufof + 1 else (w.heap id).bufof) ∧
      bcstData w'.trace = bcstData w.trace := by
  have hring₃ := hs.ring
  have hmode₃ := (hs.modifies.bcstMode_eq (by simp [outputParts]) (by simp [outputParts])).trans hmode
  simp only [ringOf, bcstMode, Prod.mk.injEq] at hring₃ hmode₃
  obtain ⟨-, hn, hst, hof⟩ := hring₃
  have hdata₃ : bcstData w₃.trace = bcstData w.trace := by rw [hs.trace]; rfl
  cases hs.bcst with
  | off hflg => rw [hmode₃.1] at hflg; cases hflg
  | char _ hlb => rw [hmode₃.2] at hlb; cases hlb
  | held _ _ hne hw =>
    rw [hw]
    refine .inr ⟨⟨hne, ?_⟩, hdata₃⟩
    simp [World.updCmd, countOverflow, hn, hst, hof]
  | line _ _ hc _ hring =>
    simp only [ringOf, Prod.mk.injEq] at hring
    exact .inl ⟨hc, by rw [hring.2.1, hn], by rw [hring.2.2.1, hn], hring.2.2.2⟩

/-- What a byte of output adds to the lines. -/
lemma OutputByte.lines {c : Byte} {p : Pid} {rest : List (Byte × Pid)} {w₁ : World}
    (ho : OutputByte sys w id c p rest w₁ w') (j : CmdId) :
    (pending j w'.trace =
      if id = j then if c = newline then [] else pending j w.trace ++ [c] else pending j w.trace) ∧
    lineBlocks w'.trace = if c = newline then
      lineBlocks w.trace ++ ((if w.gbls.prefixbcst = true then (w.heap id).name ++ bytes ": " else []) ++
        (pending id w.trace ++ [newline]).rtake cmdbufSize) else lineBlocks w.trace := by
  obtain ⟨hpending, hblocks⟩ := ho.modifies_rest.lines_eq j (by simp)
  rw [hpending, hblocks, ho.trace]
  exact ⟨rfl, rfl⟩

/-- The counters of the ring span the bytes `l`, and the overflow count is `k` too high. -/
structure Counts (this : Cmd) (l : CStr) (k : Nat) : Prop where
  span : this.bufn = this.bufstart + l.length
  rounds : this.bufof = k + l.length / cmdbufSize

/-- A byte after the bytes `l` of its line. What is sent at its end is the line as long as the overflow
count is right, or the line fills the ring anyway. -/
lemma OutputByte.counts {c : Byte} {p : Pid} {rest : List (Byte × Pid)} {w₁ : World} {l : CStr} {k : Nat}
    (ho : OutputByte sys w id c p rest w₁ w') (h : RingInv w id) (hl : l <:+ relayedOutput id w.trace)
    (hcounts : Counts (w.heap id) l k) (hmode : bcstMode w = (true, true))
    (hk : c = newline → k = 0 ∨ cmdbufSize ≤ l.length + 1) :
    (c = newline ∧ Counts (w'.heap id) [] 0 ∧ bcstData w'.trace = bcstData w.trace ++
      ((if w.gbls.prefixbcst = true then (w.heap id).name ++ bytes ": " else []) ++
        (l ++ [newline]).rtake cmdbufSize)) ∨
    (c ≠ newline ∧ Counts (w'.heap id) (l ++ [c]) k ∧ (w'.heap id).bufstart = (w.heap id).bufstart ∧
      bcstData w'.trace = bcstData w.trace) := by
  obtain ⟨w₃, hs⟩ := ho.ringStored
  obtain ⟨hspan, hrounds⟩ := hcounts
  have hsize : cmdbufSize = 4096 := rfl
  have hcells (n : Nat) : cmdbufNtoI n = n % 4096 := rfl
  rcases hs.counters hmode with ⟨hc, hn, hst, hof⟩ | ⟨⟨hc, hn, hst, hof⟩, hdata⟩
  · refine .inl ⟨hc, ⟨by simp [hn, hst], by simp [hof]⟩, ?_⟩
    have hk := hk hc
    have hkept : keptBytes (w.heap id) = min l.length (cmdbufSize - 1) := by
      unfold keptBytes
      rw [hsize] at hrounds hk ⊢
      split_ifs <;> omega
    rw [hs.flushed h hmode hc (by omega), block, rtake_line hl hkept (by omega)]
  · refine .inr ⟨hc, ⟨?_, ?_⟩, hst, hdata⟩
    · rw [hn, hst, List.length_append, List.length_singleton]
      omega
    · rw [hof, hcells, hcells, List.length_append, List.length_singleton]
      rw [hsize] at hrounds ⊢
      split_ifs <;> omega

lemma OutputByte.lineInv {c : Byte} {p : Pid} {rest : List (Byte × Pid)} {w₁ : World}
    (ho : OutputByte sys w id c p rest w₁ w') (h : LineInv w id) (hmode : bcstMode w = (true, true)) :
    LineInv w' id ∧ bcstData w'.trace = bcstData w.trace ++
      if c = newline then
        (if w.gbls.prefixbcst = true then (w.heap id).name ++ bytes ": " else []) ++
          (pending id w.trace ++ [newline]).rtake cmdbufSize
      else [] := by
  have hring := ho.ringInv h.toRingInv
  have hpending := (ho.lines id).1
  rw [if_pos rfl] at hpending
  rcases ho.counts h.toRingInv (pending_suffix id w.trace) ⟨h.span, (Nat.zero_add _).symm ▸ h.rounds⟩
    hmode (fun _ => .inl rfl) with ⟨hc, hcounts, hdata⟩ | ⟨hc, hcounts, -, hdata⟩
  · rw [if_pos hc] at hpending ⊢
    exact ⟨⟨hring, by simp [hpending, hcounts.span], by simp [hpending, hcounts.rounds]⟩, hdata⟩
  · rw [if_neg hc] at hpending ⊢
    rw [List.append_nil]
    exact ⟨⟨hring, by rw [hpending, hcounts.span], by rw [hpending, hcounts.rounds, Nat.zero_add]⟩, hdata⟩

/-- Broadcasting is on and buffers lines, and the monitor does not drain. -/
def LineMode (w : World) (e : Event) : Prop := bcstMode w = (true, true) ∧ ¬Drains e

instance (w : World) (e : Event) : Decidable (LineMode w e) :=
  inferInstanceAs (Decidable (_ ∧ _))

structure LinesInv (w : World) : Prop where
  relayed : RelayedInv w
  cmds : ∀ id ∈ w.gbls.cmds, LineInv w id
  blocks : bcstData w.trace = lineBlocks w.trace

lemma TableAct.linesInv (ha : TableAct w w') (ht : TableInv w) (h : LinesInv w) : LinesInv w' := by
  refine ⟨ha.relayedInv ht h.relayed,
    ha.forall_cmds ht (fun id S hS hm hi => ?_) (fun id spec hadd => ?_) h.cmds, ?_⟩
  · exact hi.frame hm (fun hp => hS _ hp rfl) (fun hp => hS _ hp rfl) (fun hp => hS _ hp trivial)
  · have hnone := ((ha.relayedInv ht h.relayed).cmds id (by simp [hadd.table])).relayed
    have hpending : pending id w'.trace = [] := by
      refine List.suffix_nil.mp ?_
      rw [hadd.created.2.port, List.take_nil, List.map_nil] at hnone
      rw [← hnone]
      exact pending_suffix id w'.trace
    obtain ⟨hn, hstart, hof⟩ := hadd.init.ring
    exact ⟨hadd.ringInv, by simp [hn, hstart, hpending], by simp [hof, hpending]⟩
  · obtain ⟨S, hm, -, ho, -, hb⟩ := ha.modifies
    rw [hm.bcstData_eq hb, (hm.lines_eq 0 ho).2]
    exact h.blocks

lemma OutputByte.linesInv {c : Byte} {p : Pid} {rest : List (Byte × Pid)} {w₁ : World}
    (ho : OutputByte sys w id c p rest w₁ w') (ht : TableInv w) (hid : id ∈ w.gbls.cmds)
    (hmode : bcstMode w = (true, true)) (h : LinesInv w) : LinesInv w' := by
  obtain ⟨hinv, hdata⟩ := ho.lineInv (h.cmds id hid) hmode
  refine ⟨h.relayed.byte (fun j hj => ((ht.lt_brk id hid).trans_le hj).ne) ho, fun j hj => ?_, ?_⟩
  · rw [ho.modifies_all.cmds_eq (by simp [outputParts])] at hj
    by_cases hne : id = j
    · exact hne ▸ hinv
    · have hout := (ho.observed j).1
      have hpending := (ho.lines j).1
      rw [if_neg hne, List.append_nil] at hout
      rw [if_neg hne] at hpending
      exact (h.cmds j hj).congr (ho.modifies_all.ring_eq _ (by simp [outputParts, Ne.symm hne]))
        (ho.modifies_all.spec_eq _ (by simp [outputParts])) hout hpending
  · rw [hdata, (ho.lines id).2, h.blocks]
    by_cases hc : c = newline
    · rw [if_pos hc, if_pos hc]
    · rw [if_neg hc, if_neg hc, List.append_nil]

/-- As long as broadcasting is on and buffers lines, what is handed to the broadcast tty is one block for
each completed line, in the order of the newlines, whatever the lines and however they interleave. -/
theorem broadcast_lines (hw : Reachable sys LineMode w) : bcstData w.trace = lineBlocks w.trace := by
  refine (reachable_of_outputs (P := LinesInv) ?_ ?_ (fun w w' ht h ha => ha.linesInv ht h) ?_ ?_ hw).blocks
  · exact fun o => ⟨⟨by simp [boot], fun _ _ => ⟨rfl, rfl⟩⟩, by simp [boot], rfl⟩
  · intro w e h
    have hm := apply_modifies w e
    refine ⟨apply_relayedInv w e h.relayed, fun id hid => ?_, ?_⟩
    · rw [hm.cmds_eq (by cases e <;> simp [envParts])] at hid
      exact (h.cmds id hid).frame hm (by cases e <;> simp [envParts]) (by cases e <;> simp [envParts])
        (by cases e <;> simp [envParts])
    · rw [hm.bcstData_eq (by cases e <;> simp [envParts]),
        (hm.lines_eq 0 (by cases e <;> simp [envParts])).2]
      exact h.blocks
  · intro w id x c p rest w₁ w' hok _ ht h hid ho
    exact ho.linesInv ht hid hok.1 h
  · exact fun w s x w' hok he _ _ _ => (hok.2 he).elim

def twoLines : Options where
  specs := [bytes "a,,,1,x", bytes "b,,,1,y"]
  linebufferbcst := true
  prefixbcst := true
  cwd := bytes "/h"
  pid := bytes "7"

/-- The process of a command writes a byte, and the byte is handled. -/
def puts (id : CmdId) (c : Byte) : List Event :=
  [.env (.typed (.cmd id) c id), .hdlr (.dom (.cmd id)) {}]

/-- A line inside another line of another command. -/
theorem broadcast_lines_interleaved : ∃ w, Reachable quietSys LineMode w ∧
    bcstData w.trace = bytes "b: x\na: h\n" := by
  obtain ⟨w, hw, hp⟩ := exists_reachable quietSys LineMode twoLines
    ([.env (.opened .bcst), .hdlr (.ifd .bcst) {}] ++
      puts 0 104 ++ puts 1 120 ++ puts 1 newline ++ puts 0 newline)
    (fun w => decide (lineBlocks w.trace = bytes "b: x\na: h\n")) (by decide +kernel)
  exact ⟨w, hw, (broadcast_lines hw).trans (of_decide_eq_true hp)⟩

end Yar.Proofs
