import Yar.Kernel

/-!
# fs.c

The inode table, the directories and the items of the file system yar serves through fuse. An
`fs_file_t` is reached by its address in the source and by a number here, which is never reused:
`Fs.heap` gives the contents, and none once the item has been freed. A hash table is the list of
its items in the order in which they were added.
-/

namespace Yar

open Program

/-- `INVALID_INO` -/
abbrev invalidIno : Nat := 0

/-- `ROOT_INO` -/
abbrev rootIno : Nat := 1

/-- `fs_filetype_t`, less the value that marks a freed item. -/
inductive FileType where
  | REGULAR
  | SYMLINK
  | DIRECTORY
  deriving DecidableEq

/-- The tables of operations an item can have. -/
inductive FileOps where
  | fs_dir_ops
  | fs_pid_ops
  | fs_cmds_ops
  | fs_lcmds_ops
  | fs_ttys_ops
  | fs_bcst_ops
  deriving DecidableEq

/-- `fs_dir_t` -/
structure Dir where
  ino_files : List Nat := []
  nm_files : List Nat := []
  deriving DecidableEq

/-- What `data` of an item points to. -/
inductive FileData where
  | null
  | symlink (target : CStr)
  | dir (d : Dir)
  deriving DecidableEq

/-- `fs_file_t`. Every item is on the heap, so `malloced` is always true. -/
structure File where
  ops : FileOps
  data : FileData
  name : CStr
  ino : Nat
  dir : Nat
  type : FileType
  deriving DecidableEq

/-- `fs_inodesc_t` -/
structure Inodesc where
  file : Option Nat := none
  next : Option Nat := none
  deriving DecidableEq

inductive FsObs where
  | created (f : Nat) (ino dir : Nat) (name : CStr)
  | removed (f : Nat)
  deriving DecidableEq

/-- `fs_t`, less the fuse session. `ino_table` is a null pointer as long as `ino_num` is 0. -/
@[ext]
structure Fs where
  mntpt : Option CStr := none
  mkdir : Bool := false
  ino_table : Nat → Inodesc := fun _ => {}
  ino_freelist : Option Nat := none
  ino_num : Nat := 0
  ino_numfree : Int := 0
  heap : Nat → Option File := fun _ => none
  brk : Nat := 0
  /-- newest first -/
  trace : List FsObs := []

namespace Fs

abbrev FsAct := EStateM Halt Fs

def updInode (s : Fs) (ino : Nat) (f : Inodesc → Inodesc) : Fs :=
  { s with ino_table := Function.update s.ino_table ino (f (s.ino_table ino)) }

/-- Following a pointer to an item. -/
def deref (f : Nat) : FsAct File := do
  match (← get).heap f with
  | some x => return x
  | none => throw .ub

def setFile (f : Nat) (x : Option File) : FsAct Unit :=
  modify fun s => { s with heap := Function.update s.heap f x }

def note (o : FsObs) : FsAct Unit := modify fun s => { s with trace := o :: s.trace }

/-! ## The inode table -/

def ino2inodesc (ino : Nat) : FsAct Inodesc := do
  let s ← get
  require .abort (ino < s.ino_num)
  return s.ino_table ino

/-- `4096/sizeof(fs_inodesc_t)` -/
abbrev inoNum : Nat := 256

def init_inotable : FsAct Unit :=
  modify fun s =>
    { s with
      ino_table := fun i => { next := if i + 1 < inoNum then some (i + 1) else none }
      ino_num := inoNum
      ino_freelist := some 0
      ino_numfree := inoNum }

/-- With nothing free either the assertion on the count or `grow_inotable` ends the program. -/
def inoalloc : FsAct Nat := do
  when ((← get).ino_num = 0) init_inotable
  let s ← get
  match s.ino_freelist with
  | none => throw .abort
  | some ino => do
    let id := s.ino_table ino
    modify fun s =>
      { s.updInode ino fun id => { id with next := none } with
        ino_freelist := id.next
        ino_numfree := s.ino_numfree - 1 }
    require .abort (0 ≤ s.ino_numfree - 1)
    require .abort (id.file = none)
    require .abort (ino < s.ino_num)
    return ino

def inofree (ino : Nat) : FsAct Unit := do
  let id ← ino2inodesc ino
  require .abort (id.next = none)
  modify fun s =>
    { s.updInode ino fun id => { id with next := s.ino_freelist } with
      ino_freelist := some ino
      ino_numfree := s.ino_numfree + 1 }

/-! ## Directories -/

/-- `HASH_FIND(hh_ino, table, &ino, ..)` -/
def findIno (s : Fs) (table : List Nat) (ino : Nat) : Option Nat :=
  table.find? fun f => (s.heap f).any fun x => x.ino == ino

/-- `HASH_FIND(hh_name, table, name, ..)` -/
def findName (s : Fs) (table : List Nat) (name : CStr) : Option Nat :=
  table.find? fun f => (s.heap f).any fun x => x.name == name

/-- An item is not entered when its number or its name is taken. -/
def dir_add (dir item : Nat) : FsAct Bool := do
  let d ← deref dir
  let x ← deref item
  match d.type, d.data with
  | .DIRECTORY, .dir dd => do
    let s ← get
    if (s.findIno dd.ino_files x.ino).isSome then return false
    else if (s.findName dd.nm_files x.name).isSome then return false
    else do
      setFile dir (some { d with data := .dir ⟨dd.ino_files ++ [item], dd.nm_files ++ [item]⟩ })
      return true
  | _, _ => throw .abort

/-! ## Creation -/

/-- The directory an item is created in, with the assertions made on it. -/
def createDir (dirino : Nat) : FsAct Nat := do
  let did ← ino2inodesc dirino
  require .abort (did.next = none)
  match did.file with
  | none => throw .ub
  | some dir => do
    let d ← deref dir
    require .abort (d.type = .DIRECTORY)
    return dir

/-- `malloc` and `file_init` -/
def mallocFile (x : File) : FsAct Nat := do
  let s ← get
  set { s with heap := Function.update s.heap s.brk (some x), brk := s.brk + 1 }
  return s.brk

/-- `id->file = file` -/
def setInode (ino : Nat) (file : Nat) : FsAct Unit :=
  modify (·.updInode ino fun id => { id with file := some file })

/-- The inode of a new item, with the assertion made on it. -/
def createIno : FsAct Nat := do
  let ino ← inoalloc
  let id ← ino2inodesc ino
  require .abort (id.file = none ∧ id.next = none)
  return ino

def fsCreatedir (parentino : Nat) (name : CStr) (ops : FileOps) : FsAct Nat := do
  let ino ← createIno
  let parent ← if parentino ≠ invalidIno then some <$> createDir parentino else pure none
  let dir ← mallocFile
    { ops := ops, data := .dir {}, name := name, ino := ino, dir := parentino, type := .DIRECTORY }
  match parent with
  | some parent => discard (dir_add parent dir)
  | none => pure ()
  setInode ino dir
  note (.created dir ino parentino name)
  return dir

def fsCreatefile (dirino : Nat) (name : CStr) (symlink : Option CStr) (ops : FileOps) :
    FsAct Nat := do
  let ino ← createIno
  require .abort (dirino ≠ invalidIno)
  let dir ← createDir dirino
  let file ← mallocFile
    { ops := ops
      data := match symlink with
        | some target => .symlink target
        | none => .null
      name := name, ino := ino, dir := dirino
      type := if symlink.isSome then .SYMLINK else .REGULAR }
  discard (dir_add dir file)
  setInode ino file
  note (.created file ino dirino name)
  return file

/-! ## Removal -/

/-- The directory that contains an item, with the assertions made on it. -/
def containingDir (x : File) : FsAct Nat := do
  let id ← ino2inodesc x.dir
  require .abort (id.next = none)
  match id.file with
  | none => throw .abort
  | some dir => do
    let d ← deref dir
    require .abort (d.type = .DIRECTORY)
    return dir

/-- The first part of `fsRemoveitem`: none for a directory that is not empty, otherwise the
containing directory if there is one. -/
def removeDir (x : File) : FsAct (Option (Option Nat)) :=
  if x.type = .DIRECTORY then
    match x.data with
    | .dir d => do
      require .abort (d.ino_files.length = d.nm_files.length)
      if d.ino_files.length ≠ 0 then return none
      else if x.ino ≠ rootIno then return some (some (← containingDir x))
      else do
        require .abort (x.dir = invalidIno)
        return some none
    | _ => throw .ub
  else do
    require .abort (x.ino ≠ rootIno ∧ x.dir ≠ invalidIno)
    return some (some (← containingDir x))

/-- The item is taken out of both tables of its directory; true when they are empty then. -/
def removeEntry (containing item : Nat) (x : File) : FsAct Bool := do
  let c ← deref containing
  match c.data with
  | .dir d => do
    require .abort (d.ino_files.length = d.nm_files.length)
    require .abort (0 < d.ino_files.length)
    let s ← get
    require .abort (s.findIno d.ino_files x.ino = some item)
    require .abort (s.findName d.nm_files x.name = some item)
    let d' : Dir := ⟨d.ino_files.erase item, d.nm_files.erase item⟩
    setFile containing (some { c with data := .dir d' })
    require .abort (d'.ino_files.length = d'.nm_files.length)
    return d'.ino_files.length == 0
  | _ => throw .ub

def removeFrom (containing : Option Nat) (item : Nat) (x : File) : FsAct Bool :=
  match containing with
  | some dir => removeEntry dir item x
  | none => pure false

/-- `fsRemoveitem` with at most `fuel` calls of itself inside each other. -/
def fsRemove (fuel : Nat) (item : Nat) (purgeemptydir : Bool) : FsAct Bool :=
  match fuel with
  | 0 => throw .ub
  | fuel + 1 => do
    let x ← deref item
    match ← removeDir x with
    | none => return false
    | some containing => do
      let containingdirempty ← removeFrom containing item x
      inofree x.ino
      setFile item none
      note (.removed item)
      match containing with
      | some dir =>
        when (containingdirempty = true ∧ purgeemptydir = true)
          (discard (fsRemove fuel dir purgeemptydir))
      | none => pure ()
      return true

/-- Each call inside another one is made for an item that has not been freed yet, so there are
never more of them than items. -/
def fsRemoveitem (item : Nat) (purgeemptydir : Bool) : FsAct Bool := do
  fsRemove ((← get).brk + 1) item purgeemptydir

/-! ## Lookup -/

/-- The inode of the entry `fs_fuse_lookup` replies with, none for `ENOENT`. -/
def fs_fuse_lookup (dirino : Nat) (name : CStr) : FsAct (Option Nat) := do
  let did ← ino2inodesc dirino
  if did.next ≠ none then return none
  else match did.file with
    | none => throw .ub
    | some dir => do
      let d ← deref dir
      if d.type ≠ .DIRECTORY then return none
      else match d.data with
        | .dir dd =>
          match (← get).findName dd.nm_files name with
          | none => return none
          | some file => do
            let x ← deref file
            return some x.ino
        | _ => throw .ub

/-! ## The file system as a whole -/

/-- `fsInit`, once the path of the mount point has been made. -/
def fsInit (mntpt : CStr) : Fs := { mntpt := some mntpt }

/-- `mkdirs` and `mounts` tell whether the two steps that can fail succeed. -/
def fsCreate (mkdirs mounts : Bool) (createfsfunc : Option (Nat → FsAct Unit)) : FsAct Bool := do
  if mkdirs = false then return false
  else do
    modify fun s => { s with mkdir := true }
    let ino ← inoalloc
    require .abort (ino = invalidIno)
    let root ← fsCreatedir invalidIno (bytes ".") .fs_dir_ops
    let x ← deref root
    require .abort (x.ino = rootIno)
    match createfsfunc with
    | some f => f x.ino
    | none => pure ()
    return mounts

/-- The loop of `fsCleanup` over the slots from `i` on, `k` of them: the number of items it
counts as removed. -/
def fsScan (i k : Nat) : FsAct Int :=
  match k with
  | 0 => return 0
  | k + 1 => do
    let id := (← get).ino_table i
    match id.file with
    | some file => do
      require .abort (id.next = none)
      let _ ← fsRemoveitem file true
      let removed ← fsScan (i + 1) k
      return removed + 1
    | none => fsScan (i + 1) k

/-- The part of `fsCleanup` for a table that has been allocated. -/
def fsCleanupTable : FsAct Unit := do
  let s ← get
  let allocated := s.ino_num - s.ino_numfree
  let removed ← fsScan 0 s.ino_num
  inofree invalidIno
  require .abort (removed + 1 = allocated)
  require .abort ((← get).ino_num = (← get).ino_numfree)
  modify fun s => { s with ino_num := 0, ino_freelist := none, ino_numfree := 0 }

def fsCleanup : FsAct Bool := do
  let s ← get
  when (s.mntpt ≠ none ∧ s.mkdir = true) do
    modify fun s => { s with mntpt := none }
    when (s.ino_num ≠ 0) fsCleanupTable
  return true

/-- `yarfsCreate` of yarfs.c; `fsCreatefile` never returns a null pointer. -/
def yarfsCreate (rootino : Nat) : FsAct Unit := do
  let _ ← fsCreatefile rootino (bytes "pid") none .fs_pid_ops
  let _ ← fsCreatefile rootino (bytes "cmds") none .fs_cmds_ops
  let _ ← fsCreatefile rootino (bytes "lcmds") none .fs_lcmds_ops
  let _ ← fsCreatefile rootino (bytes "ttys") none .fs_ttys_ops
  let _ ← fsCreatefile rootino (bytes "bcst") none .fs_bcst_ops

end Fs

end Yar
