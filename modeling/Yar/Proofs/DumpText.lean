import Yar.Lib.Split
import Yar.Proofs.Dump

/-!
# Reading a dump

The text of a dump tells the address of each line and every byte in it: reading it back gives the
memory that has been dumped.
-/

namespace Yar.Proofs

open Ring

variable {mem : ℕ → Except Halt Byte} {b : ℕ → Byte} {n : ℕ}

/-- The value of a digit. -/
def hexValue (c : Byte) : Option ℕ :=
  if 48 ≤ c ∧ c ≤ 57 then some (c.toNat - 48)
  else if 97 ≤ c ∧ c ≤ 102 then some (c.toNat - 87)
  else none

/-- The bytes of the left column, which ends where no digit follows. -/
def readBytes : CStr → CStr
  | h :: l :: _ :: _ :: rest =>
    match hexValue h, hexValue l with
    | some h, some l => (16 * h + l).toUInt8 :: readBytes rest
    | _, _ => []
  | _ => []

/-- The address and the bytes of a line. -/
def readHexLine (line : CStr) : ℕ × CStr :=
  let (address, rest) := Digits.read hexValue 16 line
  (address, readBytes (rest.drop 3))

def readDump (text : CStr) : List (ℕ × CStr) := (Split.split newline text).1.map readHexLine

/-! ## Digits -/

lemma hexValue_hexDigit : ∀ d < 16, hexValue (hexDigit d) = some d := by
  decide

lemma hexDigit_ne_newline : ∀ d < 16, hexDigit d ≠ newline := by
  decide

lemma printHex_two (c : Byte) : ∃ h < 16, ∃ l < 16, printHex 2 c.toNat = [hexDigit h, hexDigit l] ∧
    16 * h + l = c.toNat := by
  have hlen := Digits.length_padded (show 1 < 16 by omega) (show c.toNat < 16 ^ 2 from c.toNat_lt)
  have hvalue := Digits.ofDigits_padded 16 2 c.toNat
  obtain ⟨h, l, hpadded⟩ := List.length_eq_two.mp hlen
  have hlt : ∀ d ∈ [h, l], d < 16 := fun d hd => Digits.padded_lt (by omega) (hpadded ▸ hd)
  refine ⟨h, hlt h (by simp), l, hlt l (by simp), ?_, ?_⟩
  · rw [printHex, Digits.write, hpadded]
    rfl
  · rw [hpadded] at hvalue
    simp [Nat.ofDigits_cons] at hvalue
    omega

/-! ## Lines -/

/-- The left column is read up to its end. -/
lemma readBytes_print (bs : CStr) {rest : CStr} (hrest : ∀ a ∈ rest.head?, hexValue a = none) :
    readBytes (bs.flatMap (fun c => printHex 2 c.toNat ++ bytes "  ") ++ rest) = bs := by
  induction bs with
  | nil =>
    rw [List.flatMap_nil, List.nil_append]
    unfold readBytes
    split
    · rw [hrest _ rfl]
    · rfl
  | cons c bs ih =>
    obtain ⟨h, hh, l, hl, hprint, hvalue⟩ := printHex_two c
    rw [List.flatMap_cons, hprint, List.append_assoc]
    change readBytes (hexDigit h :: hexDigit l :: 32 :: 32 :: (bs.flatMap _ ++ rest)) = _
    rw [readBytes, hexValue_hexDigit h hh, hexValue_hexDigit l hl]
    simp only
    rw [ih, hvalue]
    simp

/-- What follows the left column is no digit. -/
lemma blanks_head (k : ℕ) (rest : CStr) :
    ∀ a ∈ ((List.replicate k (bytes "    ")).flatten ++ bytes "|" ++ rest).head?, hexValue a = none := by
  have hblank : hexValue 32 = none := by decide
  have hbar : hexValue 124 = none := by decide
  intro a ha
  cases k with
  | zero =>
    obtain rfl : 124 = a := Option.some_inj.mp ha
    exact hbar
  | succ k =>
    obtain rfl : 32 = a := Option.some_inj.mp ha
    exact hblank

/-- A line without the newline at its end. -/
def hexLineText (mem : ℕ) (line : HexLine) : CStr :=
  printHex 8 ((mem + line.offset) % 2 ^ 64) ++ (bytes ":  " ++
    (line.bytes.flatMap (fun c => printHex 2 c.toNat ++ bytes "  ") ++
      ((List.replicate line.blanks (bytes "    ")).flatten ++ bytes "|" ++
        (line.bytes.map printAscii ++ bytes "|"))))

lemma hexLinePrint_eq (mem : ℕ) (line : HexLine) :
    hexLinePrint mem line = hexLineText mem line ++ [newline] := by
  simp only [hexLinePrint, hexLineText, List.append_assoc]

lemma readHexLine_text (mem : ℕ) (line : HexLine) :
    readHexLine (hexLineText mem line) = ((mem + line.offset) % 2 ^ 64, line.bytes) := by
  have hcolon (rest : CStr) : ∀ a ∈ (bytes ":  " ++ rest).head?, hexValue a = none := by
    intro a ha
    obtain rfl : 58 = a := Option.some_inj.mp ha
    decide
  rw [readHexLine, hexLineText, printHex,
    Digits.read_write (by omega) hexValue_hexDigit 8 _ (hcolon _)]
  change (_, readBytes (line.bytes.flatMap _ ++ _)) = _
  rw [readBytes_print _ (blanks_head _ _)]

lemma newline_notMem_printHex (width k : ℕ) : newline ∉ printHex width k := by
  intro h
  obtain ⟨d, hd, heq⟩ := List.mem_map.mp h
  exact hexDigit_ne_newline d (Digits.padded_lt (by omega) hd) heq

lemma printAscii_ne_newline (c : Byte) : printAscii c ≠ newline := by
  unfold printAscii
  split
  · rename_i hc
    rintro rfl
    exact absurd hc.1 (by decide)
  · decide

lemma newline_notMem_hexLineText (mem : ℕ) (line : HexLine) : newline ∉ hexLineText mem line := by
  have hcolon : newline ∉ bytes ":  " := by decide
  have hblank : newline ∉ bytes "  " := by decide
  have hblanks : newline ∉ bytes "    " := by decide
  have hbar : newline ∉ bytes "|" := by decide
  simp only [hexLineText, List.mem_append, List.mem_flatMap, List.mem_flatten, List.mem_map, not_or,
    not_exists, not_and]
  refine ⟨newline_notMem_printHex _ _, hcolon, fun c _ => ?_, ⟨fun l hl => ?_, hbar⟩, fun c _ => ?_, hbar⟩
  · exact ⟨newline_notMem_printHex _ _, hblank⟩
  · rwa [List.eq_of_mem_replicate hl]
  · exact printAscii_ne_newline c

lemma readDump_print (address : ℕ) (lines : List HexLine) :
    readDump (hexdumpPrint address lines) =
      lines.map fun line => ((address + line.offset) % 2 ^ 64, line.bytes) := by
  have htext : hexdumpPrint address lines = (lines.map (hexLineText address)).flatMap (· ++ [newline]) := by
    rw [hexdumpPrint, List.flatMap_map]
    exact List.flatMap_congr fun line _ => hexLinePrint_eq address line
  rw [readDump, htext, Split.split_lines, List.map_map]
  · exact List.map_congr_left fun line _ => readHexLine_text address line
  · intro l hl
    obtain ⟨line, -, rfl⟩ := List.mem_map.mp hl
    exact newline_notMem_hexLineText address line

/-! ## Dumps -/

/-- How many lines a dump has, and which cells are in each. -/
lemma hexdump_eq (hn : n < 2 ^ 31) (h : ∀ i < n, mem i = .ok (b i)) :
    hexdump mem n = .ok ((List.range ((n + 15) / 16)).map fun j =>
      lineOf b (j * 16) (min 16 (n - j * 16))) := by
  have hwhole : (List.range (n / 16)).mapM (fun j => hexLine mem (j * 16) 16) =
      .ok ((List.range (n / 16)).map fun j => lineOf b (j * 16) (min 16 (n - j * 16))) := by
    refine mapM_ok fun j hj => ?_
    rw [List.mem_range] at hj
    rw [show min 16 (n - j * 16) = 16 by omega]
    have hline : hexLine mem (j * 16) (16 : ℕ) = .ok (lineOf b (j * 16) 16) :=
      hexLine_ok le_rfl fun i hi => h i (by omega)
    exact hline
  unfold hexdump
  simp only [toInt_lines hn, Int.toNat_natCast, toInt_remaining]
  rw [if_neg (by omega), hwhole]
  by_cases hzero : n % 16 = 0
  · rw [show (n + 15) / 16 = n / 16 by omega]
    exact if_pos (by omega)
  · rw [show (n + 15) / 16 = n / 16 + 1 by omega, List.range_succ, List.map_append]
    refine (if_neg (by omega)).trans (except_bind_ok.mpr ⟨lineOf b (n / 16 * 16) (n % 16), ?_, ?_⟩)
    · exact hexLine_ok (by omega) fun i hi => h i (by omega)
    · rw [List.map_singleton, show min 16 (n - n / 16 * 16) = n % 16 by omega]
      rfl

/-- The text of a dump of less than 2^31 bytes gives them back, sixteen a line, each line with its
address. -/
theorem dump_readable (address : ℕ) (hn : n < 2 ^ 31) (h : ∀ i < n, mem i = .ok (b i)) :
    ∃ lines, hexdump mem n = .ok lines ∧
      readDump (hexdumpPrint address lines) = (List.range ((n + 15) / 16)).map (fun j =>
        ((address + j * 16) % 2 ^ 64, slice b (j * 16) (min 16 (n - j * 16)))) ∧
      (readDump (hexdumpPrint address lines)).flatMap Prod.snd = slice b 0 n := by
  obtain ⟨lines, hlines, hshown⟩ := hexdump_ok hn h
  obtain rfl := Except.ok.inj (hlines.symm.trans (hexdump_eq hn h))
  refine ⟨_, hlines, ?_, ?_⟩
  · rw [readDump_print, List.map_map]
    rfl
  · rw [readDump_print, List.flatMap_map, ← hshown]
    rfl

/-- A dump of twenty bytes. -/
theorem dump_readable_twenty : ∃ lines, hexdump (fun i => .ok i.toUInt8) 20 = .ok lines ∧
    (readDump (hexdumpPrint 4096 lines)).map Prod.fst = [4096, 4112] ∧
    (readDump (hexdumpPrint 4096 lines)).flatMap Prod.snd = slice (fun i => i.toUInt8) 0 20 := by
  obtain ⟨lines, hlines, hread, hshown⟩ :=
    @dump_readable (fun i => .ok i.toUInt8) (fun i => i.toUInt8) 20 4096 (by decide) fun _ _ => rfl
  exact ⟨lines, hlines, by rw [hread]; rfl, hshown⟩

end Yar.Proofs
