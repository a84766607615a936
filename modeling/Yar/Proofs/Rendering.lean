import Mathlib.Data.List.Range
import Yar.Yarfs

/-!
# The text of the control files

The size of a control file and its text are computed by loops of their own. Each loop that fills a
buffer appends a text to it, and the size is the length of that text.
-/

namespace Yar.Proofs

open Program Fs

variable {w : World} {ops : FileOps}

/-- The text of a command in `/lcmds`. -/
def cmdInfo (w : World) (id : CmdId) : CStr :=
  (w.heap id).name ++ [comma] ++ ((w.ttys (.clt id)).link.getD [] ++ [comma]) ++
    (w.gbls.pid ++ [comma]) ++ ((w.heap id).cmdline ++ [newline])

/-- The text of a command in `/ttys`. -/
def ttyInfo (w : World) (id : CmdId) : CStr :=
  (w.ttys (.clt id)).link.getD [] ++ [comma] ++ (w.gbls.pid ++ [comma]) ++
    (bytes "cmd" ++ [comma]) ++ ((w.heap id).name ++ [comma]) ++ ((w.heap id).cmdline ++ [newline])

/-- The two records at the end of `/ttys`. -/
def trailer (w : World) : CStr :=
  (w.ttys .bcst).link.getD [] ++ [comma] ++ (w.gbls.pid ++ [comma]) ++ (bytes "bcst" ++ [comma]) ++
    (cmdcntstr w ++ [comma]) ++ [newline] ++ ((w.ttys .mon).link.getD [] ++ [comma]) ++
    (w.gbls.pid ++ [comma]) ++ (bytes "mon" ++ [comma]) ++ [comma] ++ [newline]

/-- The text of a control file; that of `/bcst` has the terminator in it. -/
def controlText (w : World) (ops : FileOps) : CStr :=
  match ops with
  | .fs_dir_ops => []
  | .fs_pid_ops => w.gbls.pid
  | .fs_cmds_ops => w.gbls.cmds.flatMap fun id => (w.heap id).name ++ [newline]
  | .fs_lcmds_ops => w.gbls.cmds.flatMap (cmdInfo w)
  | .fs_ttys_ops => w.gbls.cmds.flatMap (ttyInfo w) ++ trailer w
  | .fs_bcst_ops => (w.ttys .bcst).link.getD [] ++ [0]

/-- The size function of a control file. -/
def controlSize (w : World) (ops : FileOps) : Except Halt Nat :=
  match ops with
  | .fs_dir_ops => .error .abort
  | .fs_pid_ops => pidSize w
  | .fs_cmds_ops => cmdNamesSize w
  | .fs_lcmds_ops => cmdsInfoSize w
  | .fs_ttys_ops => ttysInfoSize w
  | .fs_bcst_ops => bcstSize w

/-- The loop that fills the buffer of a control file. -/
def controlFill (w : World) (ops : FileOps) : Fill Unit :=
  match ops with
  | .fs_dir_ops => throw .abort
  | .fs_pid_ops => pidFill w
  | .fs_cmds_ops => cmdNamesFill w
  | .fs_lcmds_ops => cmdsInfoFill w
  | .fs_ttys_ops => ttysInfoFill w
  | .fs_bcst_ops => bcstFill w

/-- Reads of the sizes given, each at the offset behind the one before. -/
def readPieces {α : Type} (read : Nat → Nat → Except Halt (List α)) (sizes : List Nat) (off : Nat) :
    Except Halt (List (List α)) :=
  match sizes with
  | [] => .ok []
  | size :: sizes => do
    let piece ← read off size
    let rest ← readPieces read sizes (off + piece.length)
    return piece :: rest

/-- What the tables and strings of yar are for a rendering: the text of a process id and links that
are not null. -/
structure Printable (w : World) : Prop where
  pid : ∃ p : Int, -2 ^ 63 ≤ p ∧ p < 2 ^ 63 ∧ w.gbls.pid = decimal p
  clt : ∀ id ∈ w.gbls.cmds, (w.ttys (.clt id)).link ≠ none
  bcst : (w.ttys .bcst).link ≠ none
  mon : (w.ttys .mon).link ≠ none

/-! ## Numbers -/

lemma decimal_length {p : Int} (hlo : -2 ^ 63 ≤ p) (hhi : p < 2 ^ 63) :
    0 < (decimal p).length ∧ (decimal p).length < 24 := by
  have hdigits : (Nat.toDigits 10 p.natAbs).length ≤ 19 :=
    Nat.toDigits_length 10 p.natAbs 19 (by decide) (by omega)
  have hpos : 0 < (Nat.toDigits 10 p.natAbs).length := Nat.length_toDigits_pos
  unfold decimal
  rw [List.length_append, List.length_map]
  split
  · rw [show (bytes "-").length = 1 from rfl]
    omega
  · rw [List.length_nil]
    omega

lemma str24_eq {s : CStr} (h : s.length < 24) : str24 s = s :=
  List.take_of_length_le (by omega)

lemma Printable.pidstr_ok (h : Printable w) : pidstr w = .ok w.gbls.pid := by
  obtain ⟨p, hlo, hhi, hp⟩ := h.pid
  have hlen := decimal_length hlo hhi
  rw [← hp] at hlen
  rw [pidstr, if_pos hlen.1, str24_eq hlen.2]

lemma cmdcntstr_length (w : World) : (cmdcntstr w).length < 24 :=
  (decimal_length (by omega) (by omega)).2

/-! ## Filling a buffer -/

/-- A filling loop appends the text. -/
def Appends (m : Fill Unit) (text : CStr) : Prop :=
  ∀ ⦃b before⦄, b.Exact before → ∃ b', m b = .ok () b' ∧ b'.Exact (before ++ text)

lemma Appends.putc (c : Byte) : Appends (putc c) [c] :=
  fun _ _ h => ⟨_, rfl, h.put c⟩

lemma Appends.putField (s : CStr) (c : Byte) : Appends (putField (some s) c) (s ++ [c]) := by
  intro b before h
  refine ⟨_, rfl, ?_⟩
  rw [← List.append_assoc]
  exact (h.stpcpy s).put c

lemma Appends.putLink {s : Option CStr} (h : s ≠ none) (c : Byte) :
    Appends (Fs.putField s c) (s.getD [] ++ [c]) := by
  obtain ⟨s, rfl⟩ := Option.ne_none_iff_exists'.mp h
  exact putField s c

lemma Appends.bind {m n : Fill Unit} {t u : CStr} (hm : Appends m t) (hn : Appends n u) :
    Appends (m >>= fun _ => n) (t ++ u) := by
  intro b before h
  obtain ⟨b₁, hrun, h₁⟩ := hm h
  obtain ⟨b₂, hrun', h₂⟩ := hn h₁
  refine ⟨b₂, ?_, ?_⟩
  · rw [bind_of_ok hrun, hrun']
  · rwa [← List.append_assoc]

lemma Appends.forM {l : List CmdId} {f : CmdId → Fill Unit} {t : CmdId → CStr}
    (h : ∀ id ∈ l, Appends (f id) (t id)) : Appends (l.forM f) (l.flatMap t) := by
  induction l with
  | nil =>
    intro b before hb
    exact ⟨b, rfl, by simpa using hb⟩
  | cons id l ih =>
    exact (h id List.mem_cons_self).bind (ih fun id hid => h id (List.mem_cons_of_mem _ hid))

lemma foldlM_size {l : List CmdId} {f : Nat → CmdId → Except Halt Nat} {t : CmdId → CStr}
    (h : ∀ id ∈ l, ∀ n, f n id = .ok (n + (t id).length)) (n : Nat) :
    l.foldlM f n = .ok (n + (l.flatMap t).length) := by
  induction l generalizing n with
  | nil => rfl
  | cons id l ih =>
    rw [List.foldlM_cons, h id List.mem_cons_self n, List.flatMap_cons, List.length_append,
      ← Nat.add_assoc]
    exact ih (fun id hid => h id (List.mem_cons_of_mem _ hid)) _

lemma Appends.cmdInfo (h : Printable w) {id : CmdId} (hid : id ∈ w.gbls.cmds) :
    Appends (do
      Fs.putField (some (w.heap id).name) comma
      Fs.putField (w.ttys (.clt id)).link comma
      Fs.putField (some w.gbls.pid) comma
      Fs.putField (some (w.heap id).cmdline) newline) (Proofs.cmdInfo w id) := by
  have hfields := (putField (w.heap id).name comma).bind <| (putLink (h.clt id hid) comma).bind <|
    (putField w.gbls.pid comma).bind (putField (w.heap id).cmdline newline)
  rw [Proofs.cmdInfo]
  simpa only [List.append_assoc] using hfields

lemma Appends.ttyInfo (h : Printable w) {id : CmdId} (hid : id ∈ w.gbls.cmds) :
    Appends (do
      Fs.putField (w.ttys (.clt id)).link comma
      Fs.putField (some w.gbls.pid) comma
      Fs.putField (some (bytes "cmd")) comma
      Fs.putField (some (w.heap id).name) comma
      Fs.putField (some (w.heap id).cmdline) newline) (Proofs.ttyInfo w id) := by
  have hfields := (putLink (h.clt id hid) comma).bind <| (putField w.gbls.pid comma).bind <|
    (putField (bytes "cmd") comma).bind <| (putField (w.heap id).name comma).bind
      (putField (w.heap id).cmdline newline)
  rw [Proofs.ttyInfo]
  simpa only [List.append_assoc] using hfields

lemma Appends.trailer (h : Printable w) :
    Appends (do
      Fs.putField (w.ttys .bcst).link comma
      Fs.putField (some w.gbls.pid) comma
      Fs.putField (some (bytes "bcst")) comma
      Fs.putField (some (str24 (cmdcntstr w))) comma
      Fs.putc newline
      Fs.putField (w.ttys .mon).link comma
      Fs.putField (some w.gbls.pid) comma
      Fs.putField (some (bytes "mon")) comma
      Fs.putc comma
      Fs.putc newline) (Proofs.trailer w) := by
  have hfields := (putLink h.bcst comma).bind <| (putField w.gbls.pid comma).bind <|
    (putField (bytes "bcst") comma).bind <| (putField (cmdcntstr w) comma).bind <|
    (putc newline).bind <| (putLink h.mon comma).bind <| (putField w.gbls.pid comma).bind <|
    (putField (bytes "mon") comma).bind <| (putc comma).bind (putc newline)
  rw [str24_eq (cmdcntstr_length w), Proofs.trailer]
  simpa only [List.append_assoc] using hfields

/-! ## Sizes -/

lemma except_bind {α β : Type} {m : Except Halt α} {f : α → Except Halt β} {a : α}
    (h : m = .ok a) : (m >>= f) = f a := by
  rw [h]
  rfl

lemma strlen_eq {s : Option CStr} (h : s ≠ none) : strlen s = .ok (s.getD []).length := by
  obtain ⟨s, rfl⟩ := Option.ne_none_iff_exists'.mp h
  rfl

lemma controlSize_eq (h : Printable w) (hops : ops ≠ .fs_dir_ops) :
    controlSize w ops = .ok (controlText w ops).length := by
  cases ops with
  | fs_dir_ops => exact (hops rfl).elim
  | fs_pid_ops => rfl
  | fs_cmds_ops =>
    have hsum := foldlM_size (l := w.gbls.cmds)
      (f := fun n id => Except.ok (n + ((w.heap id).name.length + 1)))
      (t := fun id => (w.heap id).name ++ [newline])
      (fun id _ n => by rw [List.length_append, List.length_singleton]) 0
    rw [Nat.zero_add] at hsum
    exact hsum
  | fs_lcmds_ops =>
    change cmdsInfoSize w = _
    unfold cmdsInfoSize
    rw [h.pidstr_ok]
    refine (foldlM_size (t := cmdInfo w) (fun id hid n => ?_) 0).trans ?_
    · rw [strlen_eq (h.clt id hid)]
      refine congrArg Except.ok ?_
      simp only [cmdInfo, List.length_append, List.length_singleton]
      omega
    · rw [Nat.zero_add]
      rfl
  | fs_ttys_ops =>
    have hsum := foldlM_size (l := w.gbls.cmds) (t := ttyInfo w)
      (f := fun n id => do
        let n := n + ((← strlen (w.ttys (.clt id)).link) + 1)
        let n := n + (w.gbls.pid.length + 1)
        let n := n + ((bytes "cmd").length + 1)
        let n := n + ((w.heap id).name.length + 1)
        return n + ((w.heap id).cmdline.length + 1)) (fun id hid n => by
          rw [strlen_eq (h.clt id hid)]
          refine congrArg Except.ok ?_
          simp only [ttyInfo, List.length_append, List.length_singleton]
          omega) 0
    change ttysInfoSize w = _
    unfold ttysInfoSize
    rw [h.pidstr_ok, strlen_eq h.bcst, strlen_eq h.mon]
    rw [except_bind rfl]
    refine (except_bind hsum).trans ?_
    refine congrArg Except.ok ?_
    simp only [controlText, trailer, List.length_append, List.length_singleton]
    omega
  | fs_bcst_ops =>
    obtain ⟨link, hlink⟩ := Option.ne_none_iff_exists'.mp h.bcst
    change bcstSize w = _
    unfold bcstSize controlText
    rw [hlink, Option.getD_some, List.length_append]
    rfl

/-! ## Texts -/

lemma controlFill_eq (h : Printable w) (hops : ops ≠ .fs_dir_ops) :
    ∃ b, controlFill w ops {} = .ok () b ∧
      ∀ i, b.mem i = (controlText w ops ++ if ops = .fs_pid_ops then [0] else [])[i]? := by
  have hexact {m : Fill Unit} {t : CStr} (hm : Appends m t) :
      ∃ b, m {} = .ok () b ∧ ∀ i, b.mem i = (t ++ [])[i]? := by
    obtain ⟨b, hrun, hb⟩ := hm Buffer.exact_nil
    rw [List.nil_append] at hb
    rw [List.append_nil]
    exact ⟨b, hrun, hb.mem⟩
  cases ops with
  | fs_dir_ops => exact (hops rfl).elim
  | fs_pid_ops =>
    have hb := Buffer.exact_nil.stpcpy (w.gbls.pid.take w.gbls.pid.length)
    rw [List.take_length] at hb
    exact ⟨_, rfl, by rw [List.take_length]; exact hb.mem⟩
  | fs_cmds_ops => exact hexact (Appends.forM fun id _ => Appends.putField _ newline)
  | fs_lcmds_ops =>
    change ∃ b, cmdsInfoFill w {} = _ ∧ _
    unfold cmdsInfoFill
    rw [h.pidstr_ok]
    exact hexact (Appends.forM fun id hid => Appends.cmdInfo h hid)
  | fs_ttys_ops =>
    change ∃ b, ttysInfoFill w {} = _ ∧ _
    unfold ttysInfoFill
    rw [h.pidstr_ok]
    exact hexact ((Appends.forM fun id hid => Appends.ttyInfo h hid).bind (Appends.trailer h))
  | fs_bcst_ops =>
    obtain ⟨link, hlink⟩ := Option.ne_none_iff_exists'.mp h.bcst
    change ∃ b : Buffer, bcstFill w {} = _ ∧ ∀ i, b.mem i = (((w.ttys .bcst).link.getD [] ++ [0]) ++ [])[i]?
    unfold bcstFill
    rw [hlink, List.append_nil]
    exact ⟨_, rfl, (Buffer.exact_nil.stpcpy link).mem⟩

/-! ## Reads -/

/-- Pieces read one behind the other are a part of what is there. -/
lemma readPieces_eq {α : Type} {read : Nat → Nat → Except Halt (List α)} {buf : List α}
    (h : ∀ off n, read off n = .ok ((buf.drop off).take n)) (sizes : List Nat) (off : Nat) :
    ∃ pieces, readPieces read sizes off = .ok pieces ∧
      pieces.flatten = (buf.drop off).take sizes.sum := by
  induction sizes generalizing off with
  | nil => exact ⟨[], rfl, by rw [List.sum_nil, List.take_zero]; rfl⟩
  | cons n sizes ih =>
    obtain ⟨pieces, hrest, hflat⟩ := ih (off + ((buf.drop off).take n).length)
    refine ⟨(buf.drop off).take n :: pieces, ?_, ?_⟩
    · rw [readPieces, h]
      change (readPieces read sizes _ >>= fun rest => _) = _
      rw [hrest]
      rfl
    · have hdrop : (buf.drop off).drop ((buf.drop off).take n).length = (buf.drop off).drop n := by
        rw [List.length_take]
        by_cases hn : n ≤ (buf.drop off).length
        · rw [Nat.min_eq_left hn]
        · rw [Nat.min_eq_right (by omega), List.drop_length, List.drop_eq_nil_of_le (by omega)]
      rw [List.flatten_cons, hflat, List.sum_cons, ← List.drop_drop, hdrop, List.take_add]

lemma controlRead_eq {size : Except Halt Nat} {fill : Fill Unit} {n : Nat} {b : Buffer}
    (hsize : size = .ok n) (hfill : fill {} = .ok () b) (off maxsize : Nat) :
    controlRead size fill off maxsize =
      .ok ((((List.range n).map b.mem).drop off).take maxsize) := by
  unfold controlRead
  rw [except_bind hsize, hfill, ← fsFuseReplyBufLimited_eq]

lemma read_eq (hops : ops ≠ .fs_dir_ops) (off maxsize : Nat) : FileOps.read w ops off maxsize =
    controlRead (controlSize w ops) (controlFill w ops) off maxsize := by
  cases ops with
  | fs_dir_ops => exact (hops rfl).elim
  | _ => rfl

lemma text_of_mem {b : Buffer} {text rest : CStr} (h : ∀ i, b.mem i = (text ++ rest)[i]?) :
    (List.range text.length).map b.mem = text.map some := by
  refine List.ext_getElem (by simp) fun i hi _ => ?_
  rw [List.length_map, List.length_range] at hi
  rw [List.getElem_map, List.getElem_map, List.getElem_range, h, List.getElem?_append_left hi,
    List.getElem?_eq_getElem hi]

/-- The size and the text of a control file agree, and reads at consecutive offsets return the
text. -/
theorem control_files_agree (h : Printable w) (hops : ops ≠ .fs_dir_ops) :
    ∃ n b, controlSize w ops = .ok n ∧ controlFill w ops {} = .ok () b ∧
      (∀ i, (b.mem i).isSome ↔ i < n ∨ (ops = .fs_pid_ops ∧ i = n)) ∧
      (∀ file, ∃ st, FileOps.stat w ops file = .ok st ∧ st.st_size = n) ∧
      (List.range n).map b.mem = (controlText w ops).map some ∧
      ∀ sizes, ∃ pieces, readPieces (FileOps.read w ops) sizes 0 = .ok pieces ∧
        pieces.flatten = ((List.range n).map b.mem).take sizes.sum := by
  have hsize := controlSize_eq h hops
  obtain ⟨b, hfill, hmem⟩ := controlFill_eq h hops
  refine ⟨_, b, hsize, hfill, fun i => ?_, fun file => ?_, ?_, fun sizes => ?_⟩
  · rw [hmem, isSome_getElem?, List.length_append]
    split
    case isTrue hpid =>
      rw [List.length_singleton]
      constructor
      · intro hi
        by_cases hlt : i < (controlText w ops).length
        · exact .inl hlt
        · exact .inr ⟨hpid, by omega⟩
      · rintro (hi | ⟨-, hi⟩) <;> omega
    case isFalse hpid =>
      rw [List.length_nil]
      constructor
      · exact fun hi => .inl hi
      · rintro (hi | ⟨hpid', -⟩)
        · exact hi
        · exact (hpid hpid').elim
  · have hstat : FileOps.stat w ops file = controlStat (controlSize w ops) file := by
      cases ops with
      | fs_dir_ops => exact (hops rfl).elim
      | _ => rfl
    rw [hstat, hsize]
    exact ⟨_, rfl, rfl⟩
  · exact text_of_mem hmem
  · exact readPieces_eq (fun off maxsize => by rw [read_eq hops, controlRead_eq hsize hfill]) sizes 0

/-- A command and the two other ttys, in a process with the id 42. -/
def listedWorld : World where
  gbls := { cmds := [0], pid := bytes "42" }
  heap _ := { name := bytes "a", cmdline := bytes "ls -l" }
  ttys r :=
    { link := match r with
        | .bcst => some (bytes "b")
        | .mon => some (bytes "42.mon")
        | _ => some (bytes "a.tty") }

/-- The listing of its ttys. -/
theorem control_files_agree_ttys : ∃ b, ttysInfoSize listedWorld = .ok 50 ∧
    ttysInfoFill listedWorld {} = .ok () b ∧ (∀ i, (b.mem i).isSome ↔ i < 50) ∧
    (List.range 50).map b.mem =
      (bytes "a.tty,42,cmd,a,ls -l\nb,42,bcst,1,\n42.mon,42,mon,,\n").map some := by
  have hsize : ttysInfoSize listedWorld = .ok 50 := by decide
  obtain ⟨n, b, hn, hfill, hmem, -, htext, -⟩ := control_files_agree
    (show Printable listedWorld from ⟨⟨42, by decide, by decide, by decide⟩, fun _ _ => Option.some_ne_none _,
      Option.some_ne_none _, Option.some_ne_none _⟩) (show FileOps.fs_ttys_ops ≠ _ by decide)
  obtain rfl : n = 50 := Except.ok.inj (hn.symm.trans hsize)
  refine ⟨b, hsize, hfill, fun i => ?_, ?_⟩
  · rw [hmem]
    exact or_iff_left fun h => FileOps.noConfusion h.1
  · rw [htext]
    rfl

end Yar.Proofs
