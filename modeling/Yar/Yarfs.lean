import Yar.Fs
import Yar.Lib.Buffer
import Mathlib.Data.Nat.Digits.Defs

/-!
# yarfs.c and the replies of fs.c

The control files, the listing of a directory and the requests that come in through fuse. The rest
of yar is only read here, so it is a parameter `w`. A reply is the list of bytes handed to
`fuse_reply_buf`, with none for a byte of the buffer that has not been written.
-/

namespace Yar

open Program

namespace Fs

/-- `struct stat`, as far as the operations fill it. -/
structure Stat where
  st_ino : Nat := 0
  st_mode : Nat := 0
  st_nlink : Nat := 0
  st_size : Nat := 0
  deriving DecidableEq

/-- `S_IFDIR | 0755` -/
abbrev dirMode : Nat := 0o40755

/-- `S_IFREG | 0444` -/
abbrev fileMode : Nat := 0o100444

/-- `buf` is the contents of the buffer, so that `bufsize` is its length. -/
def fsFuseReplyBufLimited {α : Type} (buf : List α) (off maxsize : Nat) : List α :=
  if off < buf.length then (buf.drop off).take (min (buf.length - off) maxsize) else []

lemma fsFuseReplyBufLimited_eq {α : Type} (buf : List α) (off maxsize : Nat) :
    fsFuseReplyBufLimited buf off maxsize = (buf.drop off).take maxsize := by
  unfold fsFuseReplyBufLimited
  split
  case isTrue h =>
    rw [← List.length_drop, Nat.min_comm, ← List.take_take, List.take_length]
  case isFalse h =>
    rw [List.drop_eq_nil_of_le (by omega), List.take_nil]

/-! ## Control files -/

/-- A loop that fills a buffer with text. -/
abbrev Fill := EStateM Halt Buffer

/-- `strlen` of a pointer that can be null. -/
def strlen (s : Option CStr) : Except Halt Nat :=
  match s with
  | some s => .ok s.length
  | none => .error .ub

/-- `next=stpcpy(next, s)` -/
def stpcpy (s : Option CStr) : Fill Unit :=
  match s with
  | some s => modify (Buffer.stpcpy s)
  | none => throw .ub

/-- `*next=c; next++` -/
def putc (c : Byte) : Fill Unit := modify (Buffer.put c)

/-- A field and the separator behind it. -/
def putField (s : Option CStr) (c : Byte) : Fill Unit := do
  stpcpy s
  putc c

/-- `','` -/
abbrev comma : Byte := 44

/-- What `"%" PRIdMAX` makes of a number. -/
def decimal (n : Int) : CStr :=
  (if n < 0 then bytes "-" else []) ++ (Nat.toDigits 10 n.natAbs).map Char.toUInt8

/-- `snprintf` into an array of 24: what is kept of the text. -/
def str24 (s : CStr) : CStr := s.take 23

/-- Each of the control files has its size and is read only. -/
def controlStat (size : Except Halt Nat) (file : File) : Except Halt Stat := do
  let n ← size
  return { st_ino := file.ino, st_mode := fileMode, st_nlink := 1, st_size := n }

/-- A read of a control file: a buffer of its size is filled and the part asked for is replied. -/
def controlRead (size : Except Halt Nat) (fill : Fill Unit) (off maxsize : Nat) :
    Except Halt (List (Option Byte)) := do
  let n ← size
  match fill {} with
  | .ok _ b => .ok (fsFuseReplyBufLimited ((List.range n).map b.mem) off maxsize)
  | .error e _ => .error e

section
variable (w : World)

/-! ### /pid -/

def pidSize : Except Halt Nat := .ok w.gbls.pid.length

/-- The buffer has one byte more than the file, for the terminator. -/
def pidFill : Fill Unit := stpcpy (some (w.gbls.pid.take w.gbls.pid.length))

def fs_pid_stat (file : File) : Except Halt Stat := controlStat (pidSize w) file

def fs_pid_read (off size : Nat) : Except Halt (List (Option Byte)) :=
  controlRead (pidSize w) (pidFill w) off size

/-! ### /cmds -/

def cmdNamesSize : Except Halt Nat :=
  w.gbls.cmds.foldlM (fun n cmd => return n + ((w.heap cmd).name.length + 1)) 0

def cmdNamesFill : Fill Unit :=
  w.gbls.cmds.forM fun cmd => putField (some (w.heap cmd).name) newline

def fs_cmds_stat (file : File) : Except Halt Stat := controlStat (cmdNamesSize w) file

def fs_cmds_read (off size : Nat) : Except Halt (List (Option Byte)) :=
  controlRead (cmdNamesSize w) (cmdNamesFill w) off size

/-! ### /lcmds -/

/-- `pidstr`, with the assertion that it is not empty. -/
def pidstr : Except Halt CStr :=
  if w.gbls.pid.length > 0 then .ok (str24 w.gbls.pid) else .error .abort

def cmdsInfoSize : Except Halt Nat := do
  let _ ← pidstr w
  let pidstrlen := w.gbls.pid.length
  w.gbls.cmds.foldlM (fun n cmd => do
    let n := n + ((w.heap cmd).name.length + 1)
    let n := n + ((← strlen (w.ttys (.clt cmd)).link) + 1)
    let n := n + (pidstrlen + 1)
    return n + ((w.heap cmd).cmdline.length + 1)) 0

def cmdsInfoFill : Fill Unit := do
  match pidstr w with
  | .error e => throw e
  | .ok pidstr =>
    w.gbls.cmds.forM fun cmd => do
      putField (some (w.heap cmd).name) comma
      putField (w.ttys (.clt cmd)).link comma
      putField (some pidstr) comma
      putField (some (w.heap cmd).cmdline) newline

def fs_lcmds_stat (file : File) : Except Halt Stat := controlStat (cmdsInfoSize w) file

def fs_lcmds_read (off size : Nat) : Except Halt (List (Option Byte)) :=
  controlRead (cmdsInfoSize w) (cmdsInfoFill w) off size

/-! ### /ttys -/

/-- `HASH_COUNT(GBLS.cmds)`, an `unsigned`, as a string. -/
def cmdcntstr : CStr := decimal (w.gbls.cmds.length % 2 ^ 32 : Nat)

def ttysInfoSize : Except Halt Nat := do
  let _ ← pidstr w
  let pidstrlen := w.gbls.pid.length
  let n ← w.gbls.cmds.foldlM (fun n cmd => do
    let n := n + ((← strlen (w.ttys (.clt cmd)).link) + 1)
    let n := n + (pidstrlen + 1)
    let n := n + ((bytes "cmd").length + 1)
    let n := n + ((w.heap cmd).name.length + 1)
    return n + ((w.heap cmd).cmdline.length + 1)) 0
  let n := n + ((← strlen (w.ttys .bcst).link) + 1)
  let n := n + (pidstrlen + 1)
  let n := n + ((bytes "bcst").length + 1)
  let n := n + ((cmdcntstr w).length + 2)
  let n := n + ((← strlen (w.ttys .mon).link) + 1)
  let n := n + (pidstrlen + 1)
  return n + ((bytes "mon").length + 3)

def ttysInfoFill : Fill Unit := do
  match pidstr w with
  | .error e => throw e
  | .ok pidstr => do
    w.gbls.cmds.forM fun cmd => do
      putField (w.ttys (.clt cmd)).link comma
      putField (some pidstr) comma
      putField (some (bytes "cmd")) comma
      putField (some (w.heap cmd).name) comma
      putField (some (w.heap cmd).cmdline) newline
    putField (w.ttys .bcst).link comma
    putField (some pidstr) comma
    putField (some (bytes "bcst")) comma
    putField (some (str24 (cmdcntstr w))) comma
    putc newline
    putField (w.ttys .mon).link comma
    putField (some pidstr) comma
    putField (some (bytes "mon")) comma
    putc comma
    putc newline

def fs_ttys_stat (file : File) : Except Halt Stat := controlStat (ttysInfoSize w) file

def fs_ttys_read (off size : Nat) : Except Halt (List (Option Byte)) :=
  controlRead (ttysInfoSize w) (ttysInfoFill w) off size

/-! ### /bcst -/

def bcstSize : Except Halt Nat :=
  match (w.ttys .bcst).link with
  | some link => .ok (link.length + 1)
  | none => .ok 0

def bcstFill : Fill Unit := stpcpy (w.ttys .bcst).link

def fs_bcst_stat (file : File) : Except Halt Stat := controlStat (bcstSize w) file

def fs_bcst_read (off size : Nat) : Except Halt (List (Option Byte)) :=
  controlRead (bcstSize w) (bcstFill w) off size

/-! ## Directories -/

/-- `fuse_add_direntry`: the padded size it returns for a name, and the bytes it puts there for a
name, an inode and the offset of the entry behind it. -/
structure Direntry where
  size : CStr → Nat
  entry : CStr → Nat → Nat → List Byte
  length_entry : ∀ name ino off, (entry name ino off).length = size name

variable (fuse_add_direntry : Direntry)

/-- `struct dirbuf`, less the size, which is the length of `p`. -/
def dirbuf_add (p : List Byte) (name : CStr) (ino : Nat) : List Byte :=
  p ++ fuse_add_direntry.entry name ino (p.length + fuse_add_direntry.size name)

def fs_dir_stat : Stat := { st_mode := dirMode, st_nlink := 2 }

/-- The loop over the items of the directory. -/
def addItems (p : List Byte) (items : List Nat) : FsAct (List Byte) :=
  match items with
  | [] => return p
  | item :: items => do
    let x ← deref item
    addItems (dirbuf_add fuse_add_direntry p x.name x.ino) items

def fs_dir_readdir (dir : File) (size off : Nat) : FsAct (List Byte) := do
  let p := dirbuf_add fuse_add_direntry [] (bytes ".") dir.ino
  let p := dirbuf_add fuse_add_direntry p (bytes "..") dir.dir
  match dir.data with
  | .dir dd => do
    let p ← addItems fuse_add_direntry p dd.ino_files
    return fsFuseReplyBufLimited p off size
  | _ => throw .ub

/-! ## Requests -/

/-- `file->ops->stat` -/
def FileOps.stat (ops : FileOps) (file : File) : Except Halt Stat :=
  match ops with
  | .fs_dir_ops => .ok fs_dir_stat
  | .fs_pid_ops => fs_pid_stat w file
  | .fs_cmds_ops => fs_cmds_stat w file
  | .fs_lcmds_ops => fs_lcmds_stat w file
  | .fs_ttys_ops => fs_ttys_stat w file
  | .fs_bcst_ops => fs_bcst_stat w file

/-- `file->ops->read`, with the assertion that there is one. -/
def FileOps.read (ops : FileOps) (off size : Nat) : Except Halt (List (Option Byte)) :=
  match ops with
  | .fs_dir_ops => .error .abort
  | .fs_pid_ops => fs_pid_read w off size
  | .fs_cmds_ops => fs_cmds_read w off size
  | .fs_lcmds_ops => fs_lcmds_read w off size
  | .fs_ttys_ops => fs_ttys_read w off size
  | .fs_bcst_ops => fs_bcst_read w off size

def liftExcept {α : Type} (r : Except Halt α) : FsAct α :=
  match r with
  | .ok a => return a
  | .error e => throw e

/-- What is replied, none for `ENOENT`. -/
def fs_fuse_getattr (ino : Nat) : FsAct (Option Stat) := do
  let id ← ino2inodesc ino
  if id.next ≠ none then return none
  else match id.file with
    | none => throw .abort
    | some file => do
      let x ← deref file
      some <$> liftExcept (FileOps.stat w x.ops x)

/-- What `fs_fuse_open` replies. -/
inductive OpenReply where
  | opened
  | EISDIR
  | EACCES
  deriving DecidableEq

/-- `O_ACCMODE` -/
abbrev accMode : Nat := 3

/-- `O_RDONLY` -/
abbrev rdOnly : Nat := 0

/-- No table of operations has an `open` of its own. -/
def fs_fuse_open (ino flags : Nat) : FsAct OpenReply := do
  let id ← ino2inodesc ino
  match id.file, id.next with
  | some file, none => do
    let x ← deref file
    if x.type = .DIRECTORY then return .EISDIR
    else if flags &&& accMode ≠ rdOnly then return .EACCES
    else return .opened
  | _, _ => throw .abort

def fs_fuse_read (ino size off : Nat) : FsAct (List (Option Byte)) := do
  let id ← ino2inodesc ino
  match id.file, id.next with
  | some file, none => do
    let x ← deref file
    liftExcept (FileOps.read w x.ops off size)
  | _, _ => throw .abort

/-- What is replied, none for `ENOENT`. -/
def fs_fuse_readdir (dirino size off : Nat) : FsAct (Option (List Byte)) := do
  let did ← ino2inodesc dirino
  if did.next ≠ none then return none
  else match did.file with
    | none => throw .ub
    | some dir => do
      let d ← deref dir
      if d.type ≠ .DIRECTORY then return none
      else do
        require .abort (d.ops = .fs_dir_ops)
        some <$> fs_dir_readdir fuse_add_direntry d size off

end

end Fs

end Yar
