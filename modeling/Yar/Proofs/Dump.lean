import Yar.Hexdump
import Yar.Proofs.Lines
import Yar.Proofs.Relay

/-!
# What a dump shows

A dump of less than 2^27 lines shows the cells it is asked for, each once and in order. The ring is
dumped in two pieces, and the length of the first goes through a `char`.
-/

namespace Yar.Proofs

open Program Ring

variable {signed : Bool} {this : Cmd} {mem : ℕ → Except Halt Byte} {b : ℕ → Byte} {n q : ℕ}
  {lines : List HexLine}

/-! ## The property -/

/-- The bytes in the lines of a dump. -/
def shown (lines : List HexLine) : CStr := lines.flatMap (·.bytes)

/-- The dump reads only the array and shows the last bytes of whatever the command has produced. -/
def DumpsLast (signed : Bool) (this : Cmd) : Prop :=
  ∀ out, Ring.Holds cmdbufSize this.buf this.bufn out → min this.bufn cmdbufSize ≤ out.length →
    ∃ lines, cmdDump signed this = .ok lines ∧ shown lines = out.rtake (min this.bufn cmdbufSize)

/-- How many cells lie between the start of a full ring and the end of the array. -/
def cellsBehind (bufn : ℕ) : ℕ := cmdbufSize - bufn % cmdbufSize

/-- The array has not been filled, or the length of its end has a low byte that is not negative as a
`char`, and the bytes left out there are those that the beginning has one after the other. -/
def DumpFits (signed : Bool) (this : Cmd) : Prop :=
  this.bufn < cmdbufSize ∨ (signed = true → cellsBehind this.bufn % 256 < 128) ∧
    ∀ i < cmdbufSize, cellsBehind this.bufn % 256 ≤ i →
      this.buf ((this.bufn + i) % cmdbufSize) = this.buf (i - cellsBehind this.bufn % 256)

/-! ## Lines -/

lemma except_bind_ok {α β : Type} {m : Except Halt α} {f : α → Except Halt β} {r : β} :
    (m >>= f) = .ok r ↔ ∃ a, m = .ok a ∧ f a = .ok r := by
  cases m with
  | error e => exact ⟨fun h => (nomatch h), fun ⟨_, h, _⟩ => (nomatch h)⟩
  | ok a => exact ⟨fun h => ⟨a, rfl, h⟩, fun ⟨_, h, hf⟩ => Except.ok.inj h ▸ hf⟩

lemma mapM_ok {α β : Type} {f : α → Except Halt β} {g : α → β} {l : List α}
    (h : ∀ a ∈ l, f a = .ok (g a)) : l.mapM f = .ok (l.map g) := by
  induction l with
  | nil => rfl
  | cons a l ih =>
    rw [List.mapM_cons, h a List.mem_cons_self, ih fun a ha => h a (List.mem_cons_of_mem _ ha)]
    rfl

lemma mapM_ok_mem {α β : Type} {f : α → Except Halt β} {l : List α} {r : List β}
    (h : l.mapM f = .ok r) : ∀ a ∈ l, ∃ c, f a = .ok c := by
  induction l generalizing r with
  | nil => exact fun _ ha => nomatch ha
  | cons a l ih =>
    rw [List.mapM_cons] at h
    obtain ⟨c, hc, h⟩ := except_bind_ok.mp h
    obtain ⟨r', hr, -⟩ := except_bind_ok.mp h
    intro a' ha
    rcases List.mem_cons.mp ha with rfl | ha
    · exact ⟨c, hc⟩
    · exact ih hr a' ha

/-- The line with `k` bytes. -/
def lineOf (b : ℕ → Byte) (offset k : ℕ) : HexLine :=
  { offset := offset, bytes := slice b offset k, blanks := 16 - k }

lemma hexLine_ok {offset k : ℕ} (hk : k ≤ 16) (h : ∀ i < offset + k, mem i = .ok (b i)) :
    hexLine mem offset k = .ok (lineOf b offset k) := by
  have hbytes : (List.range (k : ℤ).toNat).mapM (fun i => mem (offset + i)) =
      .ok (slice b offset k) := by
    rw [Int.toNat_natCast]
    exact mapM_ok fun i hi => h _ (by rw [List.mem_range] at hi; omega)
  unfold hexLine
  rw [hbytes]
  exact congrArg (fun k => Except.ok (HexLine.mk offset (slice b offset _) k)) (by omega)

lemma shown_lines (b : ℕ → Byte) (q : ℕ) :
    shown ((List.range q).map fun j => lineOf b (j * 16) 16) = slice b 0 (q * 16) := by
  induction q with
  | zero => rfl
  | succ q ih =>
    rw [List.range_succ, List.map_append, shown, List.flatMap_append, ← shown, ih, Nat.succ_mul,
      slice_add, Nat.zero_add]
    simp [lineOf]

lemma toInt_lines (hn : n < 2 ^ 31) : toInt (n / 16 : ℕ) = (n / 16 : ℕ) := by
  unfold toInt
  rw [Int.bmod_def]
  split <;> omega

lemma toInt_remaining (n : ℕ) : toInt (n - (n / 16 * 16 : ℕ)) = (n % 16 : ℕ) := by
  unfold toInt
  rw [Int.bmod_def]
  split <;> omega

/-- A dump shows the cells in order. -/
lemma hexdump_ok (hn : n < 2 ^ 31) (h : ∀ i < n, mem i = .ok (b i)) :
    ∃ lines, hexdump mem n = .ok lines ∧ shown lines = slice b 0 n := by
  have hwhole : (List.range (n / 16)).mapM (fun j => hexLine mem (j * 16) 16) =
      .ok ((List.range (n / 16)).map fun j => lineOf b (j * 16) 16) := by
    refine mapM_ok fun j hj => ?_
    rw [List.mem_range] at hj
    have hline : hexLine mem (j * 16) (16 : ℕ) = .ok (lineOf b (j * 16) 16) :=
      hexLine_ok le_rfl fun i hi => h i (by omega)
    exact hline
  unfold hexdump
  simp only [toInt_lines hn, Int.toNat_natCast, toInt_remaining]
  rw [if_neg (by omega), hwhole]
  by_cases hzero : n % 16 = 0
  · refine ⟨_, if_pos (by omega), ?_⟩
    rw [shown_lines, Nat.div_mul_cancel (Nat.dvd_of_mod_eq_zero hzero)]
  · refine ⟨_, (if_neg (by omega)).trans (except_bind_ok.mpr ⟨_, hexLine_ok (by omega) fun i hi =>
      h i (by omega), rfl⟩), ?_⟩
    rw [shown, List.flatMap_append, ← shown, shown_lines, List.flatMap_singleton]
    change slice b 0 (n / 16 * 16) ++ slice b (n / 16 * 16) (n % 16) = _
    conv_rhs => rw [← Nat.div_add_mod' n 16, slice_add, Nat.zero_add]

lemma hexLine_read {offset : ℕ} {k : ℤ} {line : HexLine} (h : hexLine mem offset k = .ok line) :
    ∀ i < k.toNat, ∃ c, mem (offset + i) = .ok c := by
  obtain ⟨bytes, hbytes, -⟩ := except_bind_ok.mp h
  exact fun i hi => mapM_ok_mem hbytes i (List.mem_range.mpr hi)

/-- All cells that are asked for are read. -/
lemma hexdump_read (hn : n < 2 ^ 31) (h : hexdump mem n = .ok lines) : ∀ i < n, ∃ c, mem i = .ok c := by
  unfold hexdump at h
  simp only [toInt_lines hn, Int.toNat_natCast, toInt_remaining] at h
  rw [if_neg (by omega)] at h
  obtain ⟨whole, hwhole, h⟩ := except_bind_ok.mp h
  intro i hi
  by_cases hline : i / 16 < n / 16
  · obtain ⟨line, hread⟩ := mapM_ok_mem hwhole _ (List.mem_range.mpr hline)
    have hcell := hexLine_read hread (i % 16) (Nat.mod_lt _ (by decide))
    rwa [Nat.div_add_mod'] at hcell
  · rw [if_neg (by omega)] at h
    obtain ⟨line, hread, -⟩ := except_bind_ok.mp h
    have hcell := hexLine_read hread (i % 16) (by omega)
    rwa [show n / 16 = i / 16 by omega, Nat.div_add_mod'] at hcell

/-! ## The two pieces -/

/-- What `n` becomes in `cmdDump`. -/
def charLength (signed : Bool) (bufn : ℕ) : ℤ := toChar signed (cmdbufSize - bufn % cmdbufSize)

lemma charLength_eq (signed : Bool) (bufn : ℕ) :
    (signed = true → cellsBehind bufn % 256 < 128) ∧ charLength signed bufn = (cellsBehind bufn % 256 : ℕ) ∨
      ¬(signed = true → cellsBehind bufn % 256 < 128) ∧ charLength signed bufn < 0 ∧
        -128 ≤ charLength signed bufn := by
  have hlt : bufn % cmdbufSize < cmdbufSize := Nat.mod_lt _ (by decide)
  unfold charLength toChar cellsBehind
  cases signed
  · refine .inl ⟨nofun, ?_⟩
    rw [if_neg Bool.false_ne_true]
    omega
  · rw [if_pos rfl, Int.bmod_def]
    by_cases hsign : (cmdbufSize - bufn % cmdbufSize) % 256 < 128
    · refine .inl ⟨fun _ => hsign, ?_⟩
      split <;> omega
    · refine .inr ⟨fun h => hsign (h rfl), ?_⟩
      split <;> omega

lemma cellsBehind_le (bufn : ℕ) : cellsBehind bufn % 256 + bufn % cmdbufSize ≤ cmdbufSize := by
  have hlt : bufn % cmdbufSize < cmdbufSize := Nat.mod_lt _ (by decide)
  have hle := Nat.mod_le (cellsBehind bufn) 256
  unfold cellsBehind at hle ⊢
  omega

lemma bufCell_ok {i : ℕ} (h : i < cmdbufSize) : bufCell this i = .ok (this.buf i) := if_pos h

lemma toSize_eq {x : ℤ} (h : 0 ≤ x) (hlt : x < 2 ^ 64) : toSize x = x.toNat := by
  rw [toSize, Int.emod_eq_of_lt h hlt]

/-- The two pieces when the array has been filled. -/
lemma cmdDump_wrapped (hwrap : cmdbufSize ≤ this.bufn) :
    cmdDump signed this = (do
      let behind ← hexdump (fun i => bufCell this (this.bufn % cmdbufSize + i))
        (toSize (charLength signed this.bufn))
      let before ← hexdump (bufCell this) (toSize (cmdbufSize - charLength signed this.bufn))
      return behind ++ before) := by
  have hsize : cmdbufSize = 4096 := rfl
  have hstart : cmdbufDataStart this.bufn = this.bufn % cmdbufSize := if_pos hwrap
  unfold cmdDump charLength
  rw [if_neg (by omega), if_neg (not_not.mpr (show cmdbufWrapped this.bufn from hwrap))]
  simp only [hstart, Int.natCast_mod]

/-- What is behind the start of the ring and what is before it. -/
lemma dump_wrapped {k : ℕ} (hwrap : cmdbufSize ≤ this.bufn) (hk : charLength signed this.bufn = k)
    (hle : k + this.bufn % cmdbufSize ≤ cmdbufSize) :
    ∃ lines, cmdDump signed this = .ok lines ∧ shown lines =
      slice this.buf (this.bufn % cmdbufSize) k ++ slice this.buf 0 (cmdbufSize - k) := by
  have hsize : cmdbufSize = 4096 := rfl
  have hend : ∀ i < k, bufCell this (this.bufn % cmdbufSize + i) =
      .ok (this.buf (this.bufn % cmdbufSize + i)) := fun i hi => bufCell_ok (by omega)
  have hbegin : ∀ i < cmdbufSize - k, bufCell this i = .ok (this.buf i) :=
    fun i hi => bufCell_ok (by omega)
  obtain ⟨behind, hbehind, hshown⟩ := hexdump_ok (b := fun i => this.buf (this.bufn % cmdbufSize + i))
    (show k < 2 ^ 31 by omega) hend
  obtain ⟨before, hbefore, hshown'⟩ := hexdump_ok (show cmdbufSize - k < 2 ^ 31 by omega) hbegin
  have hbehindSize : toSize k = k := toSize_eq (by omega) (by omega)
  have hbeforeSize : toSize (cmdbufSize - k) = cmdbufSize - k := by
    rw [toSize_eq (by omega) (by omega)]
    omega
  refine ⟨behind ++ before, ?_, ?_⟩
  · rw [cmdDump_wrapped hwrap, hk, hbehindSize, hbeforeSize, hbehind, hbefore]
    rfl
  · rw [shown, List.flatMap_append, ← shown, ← shown, hshown, hshown']
    simp only [slice, Nat.zero_add]

/-- A negative length leaves more than the array to the second piece. -/
lemma not_dump_wrapped (hwrap : cmdbufSize ≤ this.bufn) (hneg : charLength signed this.bufn < 0)
    (hge : -128 ≤ charLength signed this.bufn) : cmdDump signed this ≠ .ok lines := by
  intro h
  have hsize : cmdbufSize = 4096 := rfl
  rw [cmdDump_wrapped hwrap] at h
  obtain ⟨behind, -, h⟩ := except_bind_ok.mp h
  obtain ⟨before, h, -⟩ := except_bind_ok.mp h
  have hlong := toSize_eq (x := cmdbufSize - charLength signed this.bufn) (by omega) (by omega)
  obtain ⟨c, hc⟩ := hexdump_read (by omega) h cmdbufSize (by omega)
  rw [bufCell, if_neg (Nat.lt_irrefl _)] at hc
  exact nomatch hc

/-- Before the array is full it is dumped in one piece. -/
lemma dump_unwrapped (signed : Bool) (hwrap : this.bufn < cmdbufSize) :
    ∃ lines, cmdDump signed this = .ok lines ∧ shown lines = slice this.buf 0 this.bufn := by
  have hsize : cmdbufSize = 4096 := rfl
  unfold cmdDump
  by_cases hzero : this.bufn = 0
  · refine ⟨[], if_pos hzero, ?_⟩
    rw [hzero]
    rfl
  · rw [if_neg hzero, if_pos (show ¬cmdbufWrapped this.bufn from Nat.not_le.mpr hwrap)]
    exact hexdump_ok (by omega) fun i hi => bufCell_ok (by omega)

/-! ## What the ring keeps -/

/-- The end of the output begins at the start of the ring. -/
lemma rtake_eq {out : CStr} (h : Ring.Holds cmdbufSize this.buf this.bufn out)
    (hwrap : cmdbufSize ≤ this.bufn) (hlen : cmdbufSize ≤ out.length) :
    out.rtake cmdbufSize = (List.range cmdbufSize).map fun i =>
      this.buf ((this.bufn + i) % cmdbufSize) := by
  have hle := h.le
  have hlength : (out.rtake cmdbufSize).length = cmdbufSize := by
    rw [List.rtake, List.length_drop]
    omega
  refine List.ext_getElem (by simpa using hlength) fun i hi _ => ?_
  rw [List.getElem_map, List.getElem_range, ← (h.rtake cmdbufSize).get i hi (by omega), hlength,
    ← Nat.add_mod_right, Nat.add_right_comm, Nat.sub_add_cancel hwrap]

/-- The cells themselves are the end of some output. -/
lemma DumpsLast.last_cells (h : DumpsLast signed this) (hwrap : cmdbufSize ≤ this.bufn) :
    ∃ lines, cmdDump signed this = .ok lines ∧
      shown lines = (List.range cmdbufSize).map fun i => this.buf ((this.bufn + i) % cmdbufSize) := by
  have hcells := Holds.of_cells cmdbufSize this.buf this.bufn
  have hmin := Nat.min_eq_right hwrap
  rw [hmin] at hcells
  obtain ⟨lines, hlines, hlast⟩ := h _ hcells (by simp)
  rw [hmin, rtake_eq hcells hwrap (by simp)] at hlast
  exact ⟨lines, hlines, hlast⟩

/-- The pieces are right cell by cell. -/
lemma pieces_iff {k : ℕ} (hk : k + this.bufn % cmdbufSize ≤ cmdbufSize) :
    slice this.buf (this.bufn % cmdbufSize) k ++ slice this.buf 0 (cmdbufSize - k) =
        ((List.range cmdbufSize).map fun i => this.buf ((this.bufn + i) % cmdbufSize)) ↔
      ∀ i < cmdbufSize, k ≤ i → this.buf ((this.bufn + i) % cmdbufSize) = this.buf (i - k) := by
  rw [slice_append_slice, Nat.add_sub_cancel' (by omega), List.map_inj_left]
  simp only [List.mem_range, Nat.zero_add]
  refine forall₂_congr fun i hi => ?_
  by_cases hik : i < k
  · have hmod : (this.bufn + i) % cmdbufSize = this.bufn % cmdbufSize + i := by
      rw [Nat.add_mod, Nat.mod_eq_of_lt hi, Nat.mod_eq_of_lt (by omega)]
    rw [if_pos hik, hmod]
    exact ⟨fun _ h => absurd h (by omega), fun _ => rfl⟩
  · rw [if_neg hik]
    exact ⟨fun h _ => h.symm, fun h => (h (by omega)).symm⟩

/-- The pieces make up the end of the output when none of their cells is lost. -/
lemma cmdDump_last_iff (signed : Bool) (this : Cmd) : DumpsLast signed this ↔ DumpFits signed this := by
  have hsize : cmdbufSize = 4096 := rfl
  rcases Nat.lt_or_ge this.bufn cmdbufSize with hwrap | hwrap
  · refine iff_of_true (fun out hout hlen => ?_) (.inl hwrap)
    obtain ⟨lines, hlines, hshown⟩ := dump_unwrapped signed hwrap
    have hle := hout.le
    rw [Nat.min_eq_left hwrap.le] at hlen ⊢
    have hlength : out.length = this.bufn := le_antisymm hle hlen
    have hslice := hout.slice_eq (by rw [hlength, Nat.sub_self, Nat.zero_mod]; omega)
    rw [hlength, Nat.sub_self, Nat.zero_mod] at hslice
    refine ⟨lines, hlines, hshown.trans ?_⟩
    rw [hslice, ← hlength, List.rtake, Nat.sub_self, List.drop_zero]
  · rcases charLength_eq signed this.bufn with ⟨hsign, hk⟩ | ⟨hsign, hneg, hge⟩
    · obtain ⟨lines, hlines, hshown⟩ := dump_wrapped hwrap hk (cellsBehind_le this.bufn)
      have hfits := pieces_iff (cellsBehind_le this.bufn)
      constructor
      · intro h
        obtain ⟨lines', hlines', hlast⟩ := DumpsLast.last_cells h hwrap
        rw [← Except.ok.inj (hlines.symm.trans hlines'), hshown] at hlast
        exact .inr ⟨hsign, hfits.mp hlast⟩
      · rintro (h | ⟨-, h⟩)
        · omega
        · intro out hout hlen
          rw [Nat.min_eq_right hwrap] at hlen ⊢
          refine ⟨lines, hlines, ?_⟩
          rw [hshown, rtake_eq hout hwrap hlen]
          exact hfits.mpr h
    · refine iff_of_false (fun h => ?_) ?_
      · obtain ⟨lines, hlines, -⟩ := DumpsLast.last_cells h hwrap
        exact not_dump_wrapped hwrap hneg hge hlines
      · rintro (h | h)
        · omega
        · exact hsign h.1

/-- For every buffer and count, and whatever a `char` is, `cmdDump` shows what has been produced last if
and only if the length of the first piece is not lost. -/
theorem dumps_last_iff : ∀ (signed : Bool) (this : Cmd), DumpsLast signed this ↔ DumpFits signed this :=
  cmdDump_last_iff

/-- A command that has put out one byte more than there is room for, with a `char` that has a sign. -/
theorem not_always_dumps_last : ¬∀ (signed : Bool) (this : Cmd), DumpsLast signed this := by
  intro hall
  have hwrap : cmdbufSize ≤ ({ buf := fun _ => 120, bufn := cmdbufSize + 1 } : Cmd).bufn := Nat.le_succ _
  obtain ⟨lines, hlines, -⟩ := (hall true _).last_cells hwrap
  exact not_dump_wrapped hwrap (by decide) (by decide) hlines

/-- In a run, what a dump shows is the end of the output that has been handled since the counters were
set back. -/
theorem dump_output {sys : Sys} {ok : World → Event → Prop} {w : World} {id : CmdId}
    (hw : Reachable sys ok w) (hid : id ∈ w.gbls.cmds) (hfits : DumpFits signed (w.heap id)) :
    ∃ lines, cmdDump signed (w.heap id) = .ok lines ∧
      shown lines = (relayedOutput id w.trace).rtake (min (w.heap id).bufn cmdbufSize) := by
  have hinv := reachable_ringInv hw id hid
  have hle := hinv.le
  have hlength : ((relayedOutput id w.trace).rtake (w.heap id).bufn).length = (w.heap id).bufn := by
    rw [List.rtake, List.length_drop]
    omega
  have hmin : min (w.heap id).bufn cmdbufSize ≤
      ((relayedOutput id w.trace).rtake (w.heap id).bufn).length := by
    rw [hlength]
    exact Nat.min_le_left _ _
  obtain ⟨lines, hlines, hshown⟩ := (cmdDump_last_iff signed (w.heap id)).mpr hfits _ hinv.holds hmin
  exact ⟨lines, hlines, hshown.trans (rtake_of_suffix (List.drop_suffix _ _) hmin).symm⟩

/-- In every state of every run the output that a command's process has written is what its client has
been sent, followed by what is still to be read. What a dump shows is the end of what was sent. -/
theorem output_accounted {sys : Sys} {ok : World → Event → Prop} {w : World} {id : CmdId}
    (hw : Reachable sys ok w) (hid : id ∈ w.gbls.cmds) :
    sentToClt id w.trace ++ (w.kern.ports (.cmd id)).domq.map Prod.fst =
        (w.kern.ports (.cmd id)).hist.map Prod.fst ∧
      ∀ signed, DumpFits signed (w.heap id) → ∃ lines, cmdDump signed (w.heap id) = .ok lines ∧
        shown lines = (sentToClt id w.trace).rtake (min (w.heap id).bufn cmdbufSize) := by
  have hinv := (reachable_relayedInv hw).cmds id hid
  constructor
  · rw [hinv.sent, hinv.relayed, Port.domq, ← List.map_append, List.take_append_drop]
  · intro signed hfits
    rw [hinv.sent]
    exact dump_output hw hid hfits

/-- One of two bytes has been handled. -/
theorem output_accounted_handled : ∃ w, Reachable quietSys (fun _ _ => True) w ∧
    sentToClt 0 w.trace = bytes "k" ∧
    bytes "k" ++ (w.kern.ports (.cmd 0)).domq.map Prod.fst = bytes "kl" ∧
    ∃ lines, cmdDump true (w.heap 0) = .ok lines ∧ shown lines = bytes "k" := by
  obtain ⟨w, hw, hp⟩ := exists_reachable quietSys (fun _ _ => True) oneCmd
    (openClt ++ [.env (.typed (.cmd 0) 107 9), .env (.typed (.cmd 0) 108 9), .hdlr (.dom (.cmd 0)) {}])
    (fun w => decide (0 ∈ w.gbls.cmds ∧ sentToClt 0 w.trace = bytes "k" ∧ (w.heap 0).bufn = 1 ∧
      (w.kern.ports (.cmd 0)).hist.map Prod.fst = bytes "kl")) (by decide +kernel)
  obtain ⟨hid, hsent, hbufn, hhist⟩ := of_decide_eq_true hp
  have hfits : DumpFits true (w.heap 0) := .inl (by rw [hbufn]; decide)
  obtain ⟨heq, hdump⟩ := output_accounted hw hid
  obtain ⟨lines, hlines, hshown⟩ := hdump true hfits
  rw [hsent, hhist] at heq
  rw [hsent, hbufn] at hshown
  exact ⟨w, hw, hsent, heq, lines, hlines, hshown⟩

end Yar.Proofs
