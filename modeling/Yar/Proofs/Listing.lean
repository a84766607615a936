import Yar.Lib.Paging
import Yar.Proofs.Files
import Yar.Yarfs

/-!
# Directory listings

A directory is read in pages that are cut anywhere. Every reply is cut out of the same bytes, and
an offset the reader goes on from is the end of an entry in them.
-/

namespace Yar.Proofs

open Program Fs

variable {s : Fs} {D : Direntry} {l : List (CStr × Nat)} {x : File} {f ino : Nat}

/-- An entry as it is read back. -/
structure DirRecord where
  name : CStr
  ino : Nat
  off : Nat
  deriving DecidableEq

/-- Reads a directory from offset `off` on with requests of the sizes given, up to the first empty
reply. From each reply it keeps the entries that are complete and goes on behind the last of them;
none when it cannot go on. -/
def readListing (fuse_add_direntry : Direntry) (parse : List Byte → Option (DirRecord × List Byte))
    (dirino : Nat) (sizes : Nat → Nat) (fuel k off : Nat) : FsAct (Option (List DirRecord)) :=
  match fuel with
  | 0 => return none
  | fuel + 1 => do
    match ← fs_fuse_readdir fuse_add_direntry dirino (sizes k) off with
    | none => return none
    | some [] => return some []
    | some page =>
      let es := Paging.complete parse page.length page
      match es.getLast? with
      | none => return none
      | some e => do
        let rest ← readListing fuse_add_direntry parse dirino sizes fuel (k + 1) e.off
        return rest.map (es ++ ·)

/-- The names and inodes of a listing, in order. -/
def listingOf (x : File) (ys : List File) : List (CStr × Nat) :=
  (bytes ".", x.ino) :: (bytes "..", x.dir) :: ys.map fun y => (y.name, y.ino)

/-- The entries of a listing from offset `off` on, as they are written and as they are read. -/
def records (D : Direntry) (off : Nat) (l : List (CStr × Nat)) : List (List Byte × DirRecord) :=
  match l with
  | [] => []
  | (name, ino) :: l =>
    let next := off + D.size name
    (D.entry name ino next, ⟨name, ino, next⟩) :: records D next l

lemma records_cookies (off : Nat) : Paging.Cookies DirRecord.off off (records D off l) := by
  induction l generalizing off with
  | nil => trivial
  | cons e l ih =>
    refine ⟨?_, ?_⟩
    · rw [D.length_entry]
    · rw [D.length_entry]
      exact ih _

lemma records_map (off : Nat) :
    (records D off l).map (fun p => (p.2.name, p.2.ino)) = l := by
  induction l generalizing off with
  | nil => rfl
  | cons e l ih => rw [records, List.map_cons, ih]

lemma records_length (off : Nat) : (records D off l).length = l.length := by
  rw [← List.length_map (f := fun p : List Byte × DirRecord => (p.2.name, p.2.ino)), records_map]

lemma records_sizes {off n : Nat} (h : ∀ e ∈ l, D.size e.1 ≤ n) :
    ∀ p ∈ records D off l, p.1.length ≤ n := by
  induction l generalizing off with
  | nil => exact fun p hp => by cases hp
  | cons e l ih =>
    intro p hp
    rcases List.mem_cons.mp hp with rfl | hp
    · rw [D.length_entry]
      exact h e List.mem_cons_self
    · exact ih (fun e he => h e (List.mem_cons_of_mem _ he)) p hp

/-- Adding entries one after the other puts down the records. -/
lemma dirbuf_add_foldl (p : List Byte) :
    l.foldl (fun p e => dirbuf_add D p e.1 e.2) p = p ++ Paging.joined (records D p.length l) := by
  induction l generalizing p with
  | nil => exact (List.append_nil p).symm
  | cons e l ih =>
    rw [List.foldl_cons, ih, dirbuf_add, List.append_assoc, List.length_append, D.length_entry]
    rfl

lemma addItems_ok {gs : List Nat} {ys : List File} (h : gs.map s.heap = ys.map some)
    (p : List Byte) :
    addItems D p gs s =
      .ok ((ys.map fun y => (y.name, y.ino)).foldl (fun p e => dirbuf_add D p e.1 e.2) p) s := by
  induction gs generalizing ys p with
  | nil =>
    obtain rfl : ys = [] := List.map_eq_nil_iff.mp h.symm
    rfl
  | cons g gs ih =>
    cases ys with
    | nil => cases h
    | cons y ys =>
      rw [List.map_cons, List.map_cons, List.cons.injEq] at h
      unfold addItems
      rw [bind_of_ok (deref_ok h.1), ih h.2]
      rfl

/-- The bytes that the replies are cut out of. -/
lemma fs_fuse_readdir_ok (hat : DirAt s ino f x) (hops : x.ops = .fs_dir_ops) {d : Dir}
    (hdata : x.data = .dir d) {ys : List File} (hys : d.ino_files.map s.heap = ys.map some)
    (size off : Nat) :
    fs_fuse_readdir D ino size off s =
      .ok (some (((Paging.joined (records D 0 (listingOf x ys))).drop off).take size)) s := by
  have hbuf : fs_dir_readdir D x size off s =
      .ok (((Paging.joined (records D 0 (listingOf x ys))).drop off).take size) s := by
    unfold fs_dir_readdir
    simp only [hdata]
    rw [bind_of_ok (addItems_ok hys _)]
    have hfold := dirbuf_add_foldl (D := D) (l := listingOf x ys) []
    rw [List.nil_append, List.length_nil] at hfold
    rw [fsFuseReplyBufLimited_eq, ← hfold]
    rfl
  unfold fs_fuse_readdir
  rw [bind_of_ok (ino2inodesc_ok hat.lt), if_neg (by simp [hat.next])]
  simp only [hat.file]
  rw [bind_of_ok (deref_ok hat.heap), if_neg (not_not_intro hat.type)]
  rw [bind_of_ok (require_eq_ok (u := ()).mpr ⟨hops, rfl⟩)]
  exact map_eq_ok.mpr ⟨_, hbuf, rfl⟩

/-- Every request of the reader is answered out of the same bytes. -/
lemma readListing_eq {parse : List Byte → Option (DirRecord × List Byte)} {sizes : Nat → Nat}
    {request : Nat → Nat → List Byte}
    (h : ∀ size off, fs_fuse_readdir D ino size off s = .ok (some (request size off)) s)
    (fuel k off : Nat) :
    readListing D parse ino sizes fuel k off s =
      .ok (Paging.readAll parse DirRecord.off request sizes fuel k off) s := by
  induction fuel generalizing k off with
  | zero => rfl
  | succ fuel ih =>
    rw [readListing, bind_of_ok (h _ _), Paging.readAll]
    cases hpage : request (sizes k) off with
    | nil => rfl
    | cons c page =>
      simp only [reduceCtorEq, if_false]
      cases hlast : (Paging.complete parse (c :: page).length (c :: page)).getLast? with
      | none => rfl
      | some e => exact bind_of_ok (ih (k + 1) e.off)

/-- A reader sees ".", ".." and the items of the directory, each once and in the order of the
table. -/
theorem listing_complete (hat : DirAt s ino f x) (hops : x.ops = .fs_dir_ops) {d : Dir}
    (hdata : x.data = .dir d) {ys : List File} (hys : d.ino_files.map s.heap = ys.map some)
    {parse : List Byte → Option (DirRecord × List Byte)}
    (hparse : ∀ p ∈ records D 0 (listingOf x ys), Paging.Encodes parse p.1 p.2)
    {sizes : Nat → Nat} (hsizes : ∀ k, ∀ e ∈ listingOf x ys, D.size e.1 ≤ sizes k) :
    ∃ n es, (∀ fuel ≥ n, readListing D parse ino sizes fuel 0 0 s = .ok (some es) s) ∧
      es.map (fun e => (e.name, e.ino)) = listingOf x ys := by
  refine ⟨(listingOf x ys).length + 1, (records D 0 (listingOf x ys)).map Prod.snd, ?_, ?_⟩
  · intro fuel hfuel
    rw [readListing_eq (fs_fuse_readdir_ok hat hops hdata hys)]
    refine congrArg (EStateM.Result.ok · s) ?_
    apply Paging.readAll_eq (fun _ _ => rfl) hparse
    · exact fun k => records_sizes (hsizes k)
    · exact records_cookies 0
    · exact List.drop_zero
    · rw [records_length]
      omega
  · rw [List.map_map]
    exact records_map 0

/-! ## The layout of `struct fuse_dirent` -/

/-- `n` in `k` bytes, the lowest first. -/
def leBytes (k n : Nat) : List Byte :=
  match k with
  | 0 => []
  | k + 1 => UInt8.ofNat n :: leBytes k (n / 256)

def ofLeBytes (l : List Byte) : Nat :=
  match l with
  | [] => 0
  | c :: l => c.toNat + 256 * ofLeBytes l

@[simp] lemma leBytes_length (k n : Nat) : (leBytes k n).length = k := by
  induction k generalizing n with
  | zero => rfl
  | succ k ih => rw [leBytes, List.length_cons, ih]

lemma ofLeBytes_leBytes {k n : Nat} (h : n < 256 ^ k) : ofLeBytes (leBytes k n) = n := by
  induction k generalizing n with
  | zero => exact (Nat.lt_one_iff.mp h).symm
  | succ k ih =>
    have hdiv : n / 256 < 256 ^ k := by
      rw [Nat.div_lt_iff_lt_mul (by omega)]
      rwa [pow_succ] at h
    rw [leBytes, ofLeBytes, ih hdiv, UInt8.toNat_ofNat']
    omega

/-- `FUSE_DIRENT_ALIGN(FUSE_NAME_OFFSET + namelen)` -/
def direntSize (namelen : Nat) : Nat := (24 + namelen + 7) / 8 * 8

/-- The fields of an entry before its name; the type is that of a cleared `struct stat`. -/
def direntHeader (name : CStr) (ino off : Nat) : List Byte :=
  leBytes 8 ino ++ (leBytes 8 off ++ (leBytes 4 name.length ++ leBytes 4 0))

lemma direntHeader_length (name : CStr) (ino off : Nat) : (direntHeader name ino off).length = 24 := by
  simp [direntHeader]

def fuseDirent : Direntry where
  size name := direntSize name.length
  entry name ino off := direntHeader name ino off ++
    (name ++ List.replicate (direntSize name.length - (24 + name.length)) 0)
  length_entry name ino off := by
    rw [List.length_append, direntHeader_length, List.length_append, List.length_replicate,
      direntSize]
    omega

def parseDirent (l : List Byte) : Option (DirRecord × List Byte) :=
  if l.length < 24 then none
  else
    let namelen := ofLeBytes ((l.drop 16).take 4)
    if l.length < direntSize namelen then none
    else some (⟨(l.drop 24).take namelen, ofLeBytes (l.take 8), ofLeBytes ((l.drop 8).take 8)⟩,
      l.drop (direntSize namelen))

lemma direntHeader_namelen {name : CStr} (h : name.length < 256 ^ 4) (ino off : Nat)
    (rest : List Byte) :
    ofLeBytes (((direntHeader name ino off ++ rest).drop 16).take 4) = name.length := by
  have hdrop : ((direntHeader name ino off ++ rest).drop 16).take 4 = leBytes 4 name.length := by
    rw [direntHeader]
    simp only [List.append_assoc]
    rw [List.drop_append, List.drop_eq_nil_of_le (by simp), List.nil_append, leBytes_length]
    rw [List.drop_append, List.drop_eq_nil_of_le (by simp), List.nil_append, leBytes_length]
    rw [List.drop_zero, List.take_append_of_le_length (by simp), List.take_of_length_le (by simp)]
  rw [hdrop, ofLeBytes_leBytes h]

/-- The fields of an entry can be read back as long as they fit. -/
lemma fuseDirent_encodes {name : CStr} {ino off : Nat} (hname : name.length < 256 ^ 4)
    (hino : ino < 256 ^ 8) (hoff : off < 256 ^ 8) :
    Paging.Encodes parseDirent (fuseDirent.entry name ino off) ⟨name, ino, off⟩ := by
  have hlength := fuseDirent.length_entry name ino off
  have hsize : 24 ≤ direntSize name.length := by
    rw [direntSize]
    omega
  have hpad : 24 + name.length ≤ direntSize name.length := by
    rw [direntSize]
    omega
  change _ = direntSize name.length at hlength
  refine ⟨?_, fun rest => ?_, fun n hn => ?_⟩
  · intro hnil
    rw [hnil, List.length_nil] at hlength
    omega
  · have hlen : (fuseDirent.entry name ino off ++ rest).length =
        direntSize name.length + rest.length := by
      rw [List.length_append, hlength]
    have hnamelen := direntHeader_namelen hname ino off
      ((name ++ List.replicate (direntSize name.length - (24 + name.length)) 0) ++ rest)
    rw [← List.append_assoc] at hnamelen
    change ofLeBytes (((fuseDirent.entry name ino off ++ rest).drop 16).take 4) = _ at hnamelen
    unfold parseDirent
    rw [hnamelen, if_neg (by omega)]
    simp only
    rw [if_neg (by omega), List.drop_left' hlength]
    refine congrArg some (Prod.ext ?_ rfl)
    have hhead : (fuseDirent.entry name ino off ++ rest).drop 24 =
        name ++ (List.replicate (direntSize name.length - (24 + name.length)) 0 ++ rest) := by
      change ((direntHeader name ino off ++ _) ++ rest).drop 24 = _
      rw [List.append_assoc, List.drop_left' (direntHeader_length name ino off), List.append_assoc]
    have hino8 : (fuseDirent.entry name ino off ++ rest).take 8 = leBytes 8 ino := by
      change (((leBytes 8 ino ++ _) ++ _) ++ rest).take 8 = _
      rw [List.append_assoc, List.append_assoc, List.take_left' (leBytes_length 8 ino)]
    have hoff8 : ((fuseDirent.entry name ino off ++ rest).drop 8).take 8 = leBytes 8 off := by
      change ((((leBytes 8 ino ++ (leBytes 8 off ++ _)) ++ _) ++ rest).drop 8).take 8 = _
      rw [List.append_assoc, List.append_assoc, List.drop_left' (leBytes_length 8 ino),
        List.append_assoc, List.take_left' (leBytes_length 8 off)]
    rw [hhead, hino8, hoff8, List.take_left, ofLeBytes_leBytes hino, ofLeBytes_leBytes hoff]
  · rw [hlength] at hn
    have hlen : ((fuseDirent.entry name ino off).take n).length = n := by
      rw [List.length_take, hlength]
      omega
    unfold parseDirent
    rw [hlen]
    by_cases hshort : n < 24
    · exact if_pos hshort
    · have hnamelen := direntHeader_namelen hname ino off
        ((name ++ List.replicate (direntSize name.length - (24 + name.length)) 0).take (n - 24))
      have htake : (fuseDirent.entry name ino off).take n = direntHeader name ino off ++
          (name ++ List.replicate (direntSize name.length - (24 + name.length)) 0).take (n - 24) := by
        change (direntHeader name ino off ++ _).take n = _
        rw [List.take_append, direntHeader_length,
          List.take_of_length_le (by rw [direntHeader_length]; omega)]
      rw [if_neg hshort, htake, hnamelen]
      exact if_pos hn

/-- Two files in the root, read with requests of two sizes. -/
theorem listing_complete_root : ∃ s es, FsReachable CreatesUnique s ∧
    (∃ n, ∀ fuel ≥ n, readListing fuseDirent parseDirent 1
      (fun k => if k % 2 = 0 then 32 else 77) fuel 0 0 s = .ok (some es) s) ∧
    es.map (fun e => (e.name, e.ino)) =
      [(bytes ".", 1), (bytes "..", 0), (bytes "pid", 2), (bytes "cmds", 3)] := by
  let root : File :=
    { ops := .fs_dir_ops, data := .dir ⟨[1, 2], [1, 2]⟩, name := bytes ".", ino := 1, dir := 0,
      type := .DIRECTORY }
  let pid : File :=
    { ops := .fs_pid_ops, data := .null, name := bytes "pid", ino := 2, dir := 1, type := .REGULAR }
  let cmds : File :=
    { ops := .fs_cmds_ops, data := .null, name := bytes "cmds", ino := 3, dir := 1,
      type := .REGULAR }
  obtain ⟨s, hs, hp⟩ := exists_fsReachable CreatesUnique (bytes "/yar.fs")
    [.createfile 1 (bytes "pid") none .fs_pid_ops, .createfile 1 (bytes "cmds") none .fs_cmds_ops]
    (fun s => decide (1 < s.ino_num ∧ s.ino_table 1 = { file := some 0 } ∧ s.heap 0 = some root ∧
      s.heap 1 = some pid ∧ s.heap 2 = some cmds)) (by decide +kernel)
  obtain ⟨hlt, htable, hroot, hpid, hcmds⟩ := of_decide_eq_true hp
  have hat : DirAt s 1 0 root := ⟨hlt, by rw [htable], by rw [htable], hroot, rfl⟩
  obtain ⟨n, es, hread, hes⟩ := listing_complete hat rfl rfl
    (show _ = List.map some [pid, cmds] by simp [hpid, hcmds]) (by
      have hall : ∀ p ∈ records fuseDirent 0 (listingOf root [pid, cmds]),
          p.1 = fuseDirent.entry p.2.name p.2.ino p.2.off ∧ p.2.name.length < 256 ^ 4 ∧
            p.2.ino < 256 ^ 8 ∧ p.2.off < 256 ^ 8 := by decide +kernel
      intro p hp
      obtain ⟨hp, hname, hino, hoff⟩ := hall p hp
      rw [hp]
      exact fuseDirent_encodes hname hino hoff)
    (show ∀ k, ∀ e ∈ listingOf root [pid, cmds],
        fuseDirent.size e.1 ≤ if k % 2 = 0 then 32 else 77 by
      have hall : ∀ e ∈ listingOf root [pid, cmds], fuseDirent.size e.1 ≤ 32 := by decide +kernel
      intro k e he
      have hle := hall e he
      split
      · exact hle
      · omega)
  exact ⟨s, es, hs, ⟨n, hread⟩, hes⟩

end Yar.Proofs
