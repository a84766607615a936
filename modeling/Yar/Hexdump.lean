import Yar.Cmd
import Yar.Lib.Digits

/-!
# hexdump.c and the dump of a command's buffer

What `cmdDump` shows of the ring: the lines that `hexdump` prints, with the bytes in each of them. The
`char` in between has eight bits, and it depends on the machine whether one of them is a sign.
-/

namespace Yar

/-- The conversion of a value to `char`. -/
def toChar (signed : Bool) (x : Int) : Int := if signed then Int.bmod x (2 ^ 8) else x % 2 ^ 8

/-- The conversion of a value to `size_t`. -/
def toSize (x : Int) : Nat := (x % 2 ^ 64).toNat

/-- A line of a dump: the offset in front, the bytes in their two columns, and how often four blanks
stand for a byte that is not there. -/
structure HexLine where
  offset : Nat
  bytes : CStr
  blanks : Nat
  deriving DecidableEq

/-- A line of `n` bytes from `mem[offset]` on. They are read once for each column. -/
def hexLine (mem : Nat → Except Halt Byte) (offset : Nat) (n : Int) : Except Halt HexLine := do
  let bytes ← (List.range n.toNat).mapM fun i => mem (offset + i)
  return { offset := offset, bytes := bytes, blanks := (16 - n).toNat }

def hexdump (mem : Nat → Except Halt Byte) (bytes : Nat) : Except Halt (List HexLine) := do
  let lines := toInt (bytes / 16 : Nat)
  -- `j*16` is an `int`
  if 2 ^ 27 ≤ lines then throw .ub
  let whole ← (List.range lines.toNat).mapM fun j => hexLine mem (j * 16) 16
  let offset := lines.toNat * 16
  let remaining := toInt (bytes - offset)
  if remaining = 0 then return whole
  else return whole ++ [← hexLine mem offset remaining]

/-! ## The text of a dump -/

/-- A digit of `"%x"`. -/
def hexDigit (d : Nat) : Byte := if d < 10 then 48 + d.toUInt8 else 87 + d.toUInt8

/-- `"%0<width>x"` -/
def printHex (width n : Nat) : CStr := Digits.write hexDigit 16 width n

/-- What stands for a byte in the right column. -/
def printAscii (c : Byte) : Byte := if 32 ≤ c ∧ c ≤ 126 then c else 46

/-- The line as it is printed, `mem` being the address of the memory that is dumped. -/
def hexLinePrint (mem : Nat) (line : HexLine) : CStr :=
  printHex 8 ((mem + line.offset) % 2 ^ 64) ++ bytes ":  " ++
    line.bytes.flatMap (fun c => printHex 2 c.toNat ++ bytes "  ") ++
    (List.replicate line.blanks (bytes "    ")).flatten ++
    bytes "|" ++ line.bytes.map printAscii ++ bytes "|" ++ [newline]

def hexdumpPrint (mem : Nat) (lines : List HexLine) : CStr := lines.flatMap (hexLinePrint mem)

/-! ## The buffer of a command -/

/-- `this->buf[i]`, undefined outside the array. -/
def bufCell (this : Cmd) (i : Nat) : Except Halt Byte :=
  if i < cmdbufSize then .ok (this.buf i) else .error .ub

def cmdbufWrapped (n : Nat) : Prop := cmdbufSize ≤ n

instance (n : Nat) : Decidable (cmdbufWrapped n) := inferInstanceAs (Decidable (_ ≤ _))

def cmdbufDataStart (n : Nat) : Nat := if cmdbufWrapped n then cmdbufNtoI n else 0

/-- The part of `cmdDump` that shows the buffer, between the fields of the command and its ttys. -/
def cmdDump (signed : Bool) (this : Cmd) : Except Halt (List HexLine) :=
  if this.bufn = 0 then return []
  else if ¬cmdbufWrapped this.bufn then hexdump (bufCell this) this.bufn
  else do
    let start := cmdbufDataStart this.bufn
    let n := toChar signed (cmdbufSize - start)
    let behind ← hexdump (fun i => bufCell this (start + i)) (toSize n)
    let before ← hexdump (bufCell this) (toSize (cmdbufSize - n))
    return behind ++ before

end Yar
