import Yar.Lib.Records
import Yar.Proofs.LoopReady
import Yar.Proofs.Rendering

/-!
# Taking the listings apart

The records of `/lcmds` and `/ttys` are lines of fields with commas between them. A name comes from a
specification that was cut at its commas, so it has none; nothing of the kind is checked of a link
that is made from the working directory, and a newline is looked for nowhere.
-/

namespace Yar.Proofs

open Program Transition Fs Split

variable {sys : Sys} {w w' : World} {id : CmdId} {S : Set Part} {ops : FileOps}

/-! ## The listings -/

/-- What `/lcmds` says of a command. -/
def lcmdsRow (w : World) (id : CmdId) : Row Byte :=
  ([(w.heap id).name, (w.ttys (.clt id)).link.getD [], w.gbls.pid], (w.heap id).cmdline)

/-- What `/ttys` says of a command. -/
def ttysRow (w : World) (id : CmdId) : Row Byte :=
  ([(w.ttys (.clt id)).link.getD [], w.gbls.pid, bytes "cmd", (w.heap id).name], (w.heap id).cmdline)

/-- The broadcast tty with the number of commands. -/
def bcstRow (w : World) (count : CStr) : Row Byte :=
  ([(w.ttys .bcst).link.getD [], w.gbls.pid, bytes "bcst", count], [])

def monRow (w : World) : Row Byte := ([(w.ttys .mon).link.getD [], w.gbls.pid, bytes "mon", []], [])

def lcmdsRows (w : World) : List (Row Byte) := w.gbls.cmds.map (lcmdsRow w)

def ttysRows (w : World) (count : CStr) : List (Row Byte) :=
  w.gbls.cmds.map (ttysRow w) ++ [bcstRow w count, monRow w]

/-- Pieces read one behind the other up to the size of the file make up the text. -/
def Contains (w : World) (ops : FileOps) (text : CStr) : Prop :=
  ∃ n, controlSize w ops = .ok n ∧ ∀ sizes : List ℕ, n ≤ sizes.sum →
    ∃ pieces, readPieces (FileOps.read w ops) sizes 0 = .ok pieces ∧ pieces.flatten = text.map some

/-- The two listings give back the table. -/
structure Decodes (w : World) : Prop where
  lcmds : ∃ text, Contains w .fs_lcmds_ops text ∧
    decode comma newline 3 text = some (lcmdsRows w)
  ttys : ∃ text, Contains w .fs_ttys_ops text ∧
    decode comma newline 4 text = some (ttysRows w (decimal w.gbls.cmds.length))

/-- A link that can stand in front of a comma. -/
structure LinkFits (w : World) (r : TtyRef) : Prop where
  comma : comma ∉ (w.ttys r).link.getD []
  newline : newline ∉ (w.ttys r).link.getD []

/-- No field of the table has its separator in it, and the number of commands is a 32-bit one. -/
structure Separable (w : World) : Prop where
  name : ∀ id ∈ w.gbls.cmds, newline ∉ (w.heap id).name
  cmdline : ∀ id ∈ w.gbls.cmds, newline ∉ (w.heap id).cmdline
  clt : ∀ id ∈ w.gbls.cmds, LinkFits w (.clt id)
  bcst : LinkFits w .bcst
  mon : LinkFits w .mon
  count : w.gbls.cmds.length < 2 ^ 32

lemma linkFits_iff {r : TtyRef} : LinkFits w r ↔
    comma ∉ (w.ttys r).link.getD [] ∧ newline ∉ (w.ttys r).link.getD [] :=
  ⟨fun h => ⟨h.comma, h.newline⟩, fun h => ⟨h.1, h.2⟩⟩

instance (w : World) (r : TtyRef) : Decidable (LinkFits w r) := decidable_of_iff' _ linkFits_iff

/-! ## Texts and rows -/

lemma lcmds_render (w : World) : controlText w .fs_lcmds_ops = render comma newline (lcmdsRows w) := by
  rw [controlText, lcmdsRows, render, List.flatMap_map]
  refine congrArg (fun f => w.gbls.cmds.flatMap f) (funext fun id => ?_)
  simp [cmdInfo, lcmdsRow, record]

lemma ttys_render (w : World) :
    controlText w .fs_ttys_ops = render comma newline (ttysRows w (cmdcntstr w)) := by
  rw [controlText, ttysRows, render, List.flatMap_append, List.flatMap_map]
  congr 1
  · refine congrArg (fun f => w.gbls.cmds.flatMap f) (funext fun id => ?_)
    simp [ttyInfo, ttysRow, record]
  · simp [trailer, bcstRow, monRow, record]

/-- A listing contains its text and no other. -/
lemma contains_iff (h : Printable w) (hops : ops ≠ .fs_dir_ops) {text : CStr} :
    Contains w ops text ↔ text = controlText w ops := by
  have hsize := controlSize_eq h hops
  obtain ⟨b, hfill, hmem⟩ := controlFill_eq h hops
  have hone (off n : ℕ) : FileOps.read w ops off n =
      .ok ((((controlText w ops).map some).drop off).take n) := by
    rw [read_eq hops, controlRead_eq hsize hfill, text_of_mem hmem]
  have hread (sizes : List ℕ) (hsum : (controlText w ops).length ≤ sizes.sum) :
      ∃ pieces, readPieces (FileOps.read w ops) sizes 0 = .ok pieces ∧
        pieces.flatten = (controlText w ops).map some := by
    obtain ⟨pieces, hrun, hflat⟩ := readPieces_eq hone sizes 0
    refine ⟨pieces, hrun, ?_⟩
    rw [hflat, List.drop_zero, List.take_of_length_le (by rwa [List.length_map])]
  constructor
  · rintro ⟨n, hn, hpieces⟩
    obtain rfl := Except.ok.inj (hsize.symm.trans hn)
    obtain ⟨pieces, hrun, htext⟩ := hpieces [(controlText w ops).length] (by simp)
    obtain ⟨pieces', hrun', hflat⟩ := hread [(controlText w ops).length] (by simp)
    obtain rfl := Except.ok.inj (hrun.symm.trans hrun')
    exact (Option.some_injective _).list_map (htext.symm.trans hflat)
  · rintro rfl
    exact ⟨_, hsize, hread⟩

/-! ## Numbers -/

lemma digit_toNat {c : Char} {n : ℕ} (h : c ∈ Nat.toDigits 10 n) : 48 ≤ c.toNat ∧ c.toNat ≤ 57 := by
  have hdigit := Nat.isDigit_of_mem_toDigits (by decide) (by decide) h
  rw [Char.isDigit, Bool.and_eq_true, decide_eq_true_eq, decide_eq_true_eq] at hdigit
  exact hdigit

lemma toUInt8_toNat {c : Char} (h : c.toNat < 256) : c.toUInt8.toNat = c.toNat := by
  rw [Char.toUInt8, UInt32.toNat_toUInt8]
  exact Nat.mod_eq_of_lt h

/-- A number is written without separators. -/
lemma notMem_decimal {c : Byte} (h : c.toNat < 45) (n : ℤ) : c ∉ decimal n := by
  intro hc
  rw [decimal, List.mem_append] at hc
  rcases hc with hc | hc
  · split at hc
    · rw [show bytes "-" = [45] from rfl, List.mem_singleton] at hc
      rw [hc] at h
      exact absurd h (by decide)
    · cases hc
  · obtain ⟨d, hd, rfl⟩ := List.mem_map.mp hc
    have hdigit := digit_toNat hd
    rw [toUInt8_toNat (by omega)] at h
    omega

lemma decimal_nat_inj {a b : ℕ} (h : decimal a = decimal b) : a = b := by
  have hdigits (n : ℕ) : (decimal n).map Char.ofUInt8 = Nat.toDigits 10 n := by
    rw [decimal, if_neg (by omega), List.nil_append, List.map_map, Int.natAbs_natCast]
    conv_rhs => rw [← List.map_id (Nat.toDigits 10 n)]
    refine List.map_congr_left fun c hc => ?_
    have hdigit := digit_toNat hc
    have hnat := toUInt8_toNat (c := c) (by omega)
    apply Char.ext
    apply UInt32.toNat_inj.mp
    exact hnat
  have heq := congrArg (List.map Char.ofUInt8) h
  rw [hdigits, hdigits] at heq
  rw [← Nat.ofDigitChars_toDigits (b := 10) (n := a) (by decide) (by decide), heq,
    Nat.ofDigitChars_toDigits (by decide) (by decide)]

/-! ## Fields -/

lemma clean_cons {field last : CStr} {fields : List CStr} :
    Clean comma newline (field :: fields, last) ↔
      (comma ∉ field ∧ newline ∉ field) ∧ Clean comma newline (fields, last) := by
  rw [Clean, Clean, List.forall_mem_cons, and_assoc]

lemma clean_nil {last : CStr} : Clean comma newline ([], last) ↔ newline ∉ last := by
  simp [Clean]

/-- The fields of a command are clean. -/
structure CmdFits (w : World) (id : CmdId) : Prop where
  comma : comma ∉ (w.heap id).name
  name : newline ∉ (w.heap id).name
  cmdline : newline ∉ (w.heap id).cmdline
  link : LinkFits w (.clt id)

section
variable (hpid : ∃ p : ℤ, w.gbls.pid = decimal p)
include hpid

lemma pid_clean : comma ∉ w.gbls.pid ∧ newline ∉ w.gbls.pid := by
  obtain ⟨p, hp⟩ := hpid
  rw [hp]
  exact ⟨notMem_decimal (by decide) p, notMem_decimal (by decide) p⟩

lemma lcmdsRow_clean : Clean comma newline (lcmdsRow w id) ↔ CmdFits w id := by
  rw [lcmdsRow, clean_cons, clean_cons, clean_cons, clean_nil, ← linkFits_iff]
  constructor
  · rintro ⟨⟨hname, hname'⟩, hlink, -, hcmdline⟩
    exact ⟨hname, hname', hcmdline, hlink⟩
  · intro h
    exact ⟨⟨h.comma, h.name⟩, h.link, pid_clean hpid, h.cmdline⟩

lemma ttysRow_clean : Clean comma newline (ttysRow w id) ↔ CmdFits w id := by
  rw [ttysRow, clean_cons, clean_cons, clean_cons, clean_cons, clean_nil, ← linkFits_iff]
  constructor
  · rintro ⟨hlink, -, -, ⟨hname, hname'⟩, hcmdline⟩
    exact ⟨hname, hname', hcmdline, hlink⟩
  · intro h
    exact ⟨h.link, pid_clean hpid, by decide, ⟨h.comma, h.name⟩, h.cmdline⟩

lemma bcstRow_clean (n : ℕ) : Clean comma newline (bcstRow w (decimal n)) ↔ LinkFits w .bcst := by
  rw [bcstRow, clean_cons, clean_cons, clean_cons, clean_cons, clean_nil, ← linkFits_iff]
  refine ⟨fun h => h.1, fun h => ⟨h, pid_clean hpid, by decide, ⟨?_, ?_⟩, by simp⟩⟩
  · exact notMem_decimal (by decide) _
  · exact notMem_decimal (by decide) _

lemma monRow_clean : Clean comma newline (monRow w) ↔ LinkFits w .mon := by
  rw [monRow, clean_cons, clean_cons, clean_cons, clean_cons, clean_nil, ← linkFits_iff]
  exact ⟨fun h => h.1, fun h => ⟨h, pid_clean hpid, by decide, by simp, by simp⟩⟩

lemma lcmds_decode_iff : decode comma newline 3 (render comma newline (lcmdsRows w)) =
    some (lcmdsRows w) ↔ ∀ id ∈ w.gbls.cmds, CmdFits w id := by
  rw [decode_render_iff (by decide) (by simp [lcmdsRows, lcmdsRow]), lcmdsRows, List.forall_mem_map]
  exact forall₂_congr fun id _ => lcmdsRow_clean hpid

lemma ttys_decode_iff (n : ℕ) : decode comma newline 4 (render comma newline (ttysRows w (decimal n))) =
    some (ttysRows w (decimal n)) ↔
      (∀ id ∈ w.gbls.cmds, CmdFits w id) ∧ LinkFits w .bcst ∧ LinkFits w .mon := by
  have hlen : ∀ row ∈ ttysRows w (decimal n), row.1.length = 4 := by
    rw [ttysRows, List.forall_mem_append, List.forall_mem_map, List.forall_mem_cons,
      List.forall_mem_singleton]
    exact ⟨fun _ _ => rfl, rfl, rfl⟩
  rw [decode_render_iff (by decide) hlen, ttysRows, List.forall_mem_append, List.forall_mem_map,
    List.forall_mem_cons, List.forall_mem_singleton, bcstRow_clean hpid, monRow_clean hpid]
  exact and_congr_left fun _ => forall₂_congr fun id _ => ttysRow_clean hpid

end

/-- Two texts with different counts are different. -/
lemma count_of_render {count count' : CStr}
    (h : render comma newline (ttysRows w count) = render comma newline (ttysRows w count')) :
    count = count' := by
  simpa [render, ttysRows, bcstRow, monRow, record] using h

/-- The commands' names have no commas and their client ttys have links. -/
structure CmdsListable (w : World) : Prop where
  name : ∀ id ∈ w.gbls.cmds, comma ∉ (w.heap id).name
  clt : ∀ id ∈ w.gbls.cmds, (w.ttys (.clt id)).link ≠ none

/-- The two other ttys have links as well. -/
structure Listable (w : World) : Prop extends CmdsListable w where
  bcst : (w.ttys .bcst).link ≠ none
  mon : (w.ttys .mon).link ≠ none

lemma Listable.printable (h : Listable w)
    (hpid : ∃ p : ℤ, -2 ^ 63 ≤ p ∧ p < 2 ^ 63 ∧ w.gbls.pid = decimal p) : Printable w :=
  ⟨hpid, h.clt, h.bcst, h.mon⟩

lemma Listable.decodes_iff (h : Listable w)
    (hpid : ∃ p : ℤ, -2 ^ 63 ≤ p ∧ p < 2 ^ 63 ∧ w.gbls.pid = decimal p) :
    Decodes w ↔ Separable w := by
  have hprint := h.printable hpid
  obtain ⟨p, -, -, hp⟩ := hpid
  have hlcmds := lcmds_decode_iff ⟨p, hp⟩
  have httys := ttys_decode_iff ⟨p, hp⟩ w.gbls.cmds.length
  constructor
  · rintro ⟨-, text, htext, hdecode⟩
    rw [contains_iff hprint (by decide), ttys_render] at htext
    have hrender := render_of_decode hdecode
    have hcount := decimal_nat_inj (count_of_render (hrender.trans htext))
    rw [← hrender] at hdecode
    obtain ⟨hcmds, hbcst, hmon⟩ := httys.mp hdecode
    exact ⟨fun id hid => (hcmds id hid).name, fun id hid => (hcmds id hid).cmdline,
      fun id hid => (hcmds id hid).link, hbcst, hmon, by omega⟩
  · intro hs
    have hcmds : ∀ id ∈ w.gbls.cmds, CmdFits w id := fun id hid =>
      ⟨h.name id hid, hs.name id hid, hs.cmdline id hid, hs.clt id hid⟩
    refine ⟨⟨_, (contains_iff hprint (by decide)).mpr rfl, ?_⟩,
      ⟨_, (contains_iff hprint (by decide)).mpr rfl, ?_⟩⟩
    · rw [lcmds_render]
      exact hlcmds.mpr hcmds
    · rw [ttys_render, cmdcntstr, Nat.mod_eq_of_lt hs.count]
      exact httys.mpr ⟨hcmds, hs.bcst, hs.mon⟩

/-! ## Additions -/

lemma GBLSAddNew_link {spec : CmdSpec} (h : GBLSAddNew sys spec w = .ok (some id) w') :
    (w'.ttys (.clt id)).link ≠ none := by
  obtain ⟨_, w₁, hmalloc, h⟩ := bind_eq_ok.mp h
  obtain ⟨rfl, rfl⟩ := mallocCmd_ok hmalloc
  obtain ⟨_, w₂, hinit, h⟩ := bind_eq_ok.mp h
  obtain ⟨b, w₃, hcreate, h⟩ := bind_eq_ok.mp h
  have hlink₂ : (w₂.ttys (.clt w.brk)).link ≠ none := by
    obtain ⟨-, hinit⟩ := require_bind_eq_ok.mp hinit
    replace hinit := modify_bind_eq_ok.mp (get_bind_eq_ok.mp hinit)
    obtain ⟨_, w₁, -, hclt⟩ := bind_eq_ok.mp hinit
    rw [ttyInit_link (get_bind_eq_ok.mp hclt)]
    exact Option.some_ne_none _
  cases b with
  | false =>
    obtain ⟨_, w₄, -, h⟩ := bind_eq_ok.mp h
    cases (pure_eq_ok.mp h).1
  | true =>
    have hlink₃ : (w₃.ttys (.clt w.brk)).link = (w₂.ttys (.clt w.brk)).link := by
      obtain ⟨b, w₁, hclt, hcmd⟩ := bind_eq_ok.mp hcreate
      cases b with
      | false => cases (pure_eq_ok.mp hcmd).1
      | true =>
        have hm : Modifies (ttyParts (.cmd w.brk)) w₁ w₃ := ttyCreate_modifies sys subset_rfl hcmd
        rw [hm.tty_link (by simp [ttyParts]), (ttyCreate_whole hclt).2.link]
    obtain ⟨_, w₄, hslow, h⟩ := bind_eq_ok.mp h
    obtain ⟨s, rfl, -⟩ := updSlowest_ok hslow
    replace h := modify_bind_eq_ok.mp h
    replace h := modify_bind_eq_ok.mp h
    obtain ⟨hid, rfl⟩ := pure_eq_ok.mp h
    obtain rfl := Option.some.inj hid
    exact hlink₃ ▸ hlink₂

/-- An added command has got its name from a specification that was cut at its commas. -/
lemma GBLSAddCmd_name {cstr : CStr} (h : GBLSAddCmd sys cstr w = .ok (some id) w') :
    comma ∉ (w'.heap id).name ∧ (w'.ttys (.clt id)).link ≠ none := by
  obtain ⟨spec, w₁, hparse, h⟩ := bind_eq_ok.mp h
  cases spec with
  | none => cases (pure_eq_ok.mp h).1
  | some spec =>
    replace h := get_bind_eq_ok.mp h
    split at h
    case isTrue => cases (pure_eq_ok.mp h).1
    case isFalse =>
      obtain ⟨f, -, hlet, rfl⟩ := cmdspecParse_iff.mp ⟨_, hparse⟩
      refine ⟨?_, GBLSAddNew_link h⟩
      rcases GBLSAddNew_cases h with ⟨hnone, -⟩ | ⟨_, hid, ha⟩
      · cases hnone
      · rw [Option.some.inj hid, ha.init.name]
        exact hlet.name

/-! ## Runs -/

lemma CmdsListable.of_cmds (h : CmdsListable w) (hm : Modifies S w w')
    (hcmds : ∀ id ∈ w'.gbls.cmds, (id ∈ w.gbls.cmds ∧ .spec id ∉ S ∧ .tty (.clt id) ∉ S) ∨
      (comma ∉ (w'.heap id).name ∧ (w'.ttys (.clt id)).link ≠ none)) : CmdsListable w' := by
  refine ⟨fun id hid => ?_, fun id hid => ?_⟩
  · rcases hcmds id hid with ⟨hold, hspec, -⟩ | ⟨hname, -⟩
    · rw [hm.name_eq hspec]
      exact h.name id hold
    · exact hname
  · rcases hcmds id hid with ⟨hold, -, htty⟩ | ⟨-, hlink⟩
    · rw [hm.tty_link htty]
      exact h.clt id hold
    · exact hlink

lemma CmdsListable.frame (h : CmdsListable w) (hm : Modifies S w w') (ht : .table ∉ S)
    (hS : ∀ id ∈ w.gbls.cmds, .spec id ∉ S ∧ .tty (.clt id) ∉ S) : CmdsListable w' :=
  h.of_cmds hm fun id hid => .inl ⟨hm.cmds_eq ht ▸ hid, hS id (hm.cmds_eq ht ▸ hid)⟩

lemma CmdsListable.added (h : CmdsListable w) (ht : TableInv w) {cstr : CStr} {r : Option CmdId}
    (hadd : GBLSAddCmd sys cstr w = .ok r w') : CmdsListable w' := by
  rcases GBLSAddCmd_cases hadd with ⟨-, hn⟩ | ⟨id, spec, rfl, ha⟩
  · refine h.frame hn.modifies (by simp [cmdParts, ttyParts]) fun id hid => ?_
    have hne : id ≠ w.brk := (ht.lt_brk id hid).ne
    simp [cmdParts, ttyParts, hne]
  · refine h.of_cmds ha.modifies fun j hj => ?_
    rw [ha.table, List.mem_append, List.mem_singleton] at hj
    rcases hj with hj | rfl
    · have hne : j ≠ id := by
        rw [ha.id_eq]
        exact (ht.lt_brk j hj).ne
      exact .inl ⟨hj, by simp [addParts, cmdParts, ttyParts, hne]⟩
    · exact .inr (GBLSAddCmd_name hadd)

lemma Listable.frame (h : Listable w) (hm : Modifies S w w') (ht : .table ∉ S)
    (hbcst : .tty .bcst ∉ S) (hmon : .tty .mon ∉ S)
    (hS : ∀ id ∈ w.gbls.cmds, .spec id ∉ S ∧ .tty (.clt id) ∉ S) : Listable w' :=
  ⟨h.toCmdsListable.frame hm ht hS, hm.tty_link hbcst ▸ h.bcst, hm.tty_link hmon ▸ h.mon⟩

/-- An addition leaves the links of the two other ttys alone. -/
lemma GBLSAddCmd_links {cstr : CStr} {o : Option CmdId} {r : TtyRef} (hr : r = .bcst ∨ r = .mon)
    (hadd : GBLSAddCmd sys cstr w = .ok o w') : (w'.ttys r).link = (w.ttys r).link := by
  rcases GBLSAddCmd_cases hadd with ⟨-, hn⟩ | ⟨id, spec, -, ha⟩
  · exact hn.modifies.tty_link (by rcases hr with rfl | rfl <;> simp [cmdParts, ttyParts])
  · exact ha.modifies.tty_link (by rcases hr with rfl | rfl <;> simp [addParts, cmdParts, ttyParts])

/-- The creation of the broadcast tty does not fail. -/
def Enables (sys : Sys) (w : World) (op : Op) : Prop :=
  op = .enable → w.gbls.bcstflg = false → 1 < w.gbls.cmds.length →
    ∀ w', ttyCreate sys .bcst { w with gbls.bcstflg := true } ≠ .ok false w'

/-- Yar leaves when it cannot create the broadcast tty. -/
lemma permits_enables {s : Source} {x : Answer} (h : hdlr sys s x w = .ok () w') :
    Permits sys (Enables sys) s x w := by
  refine ⟨fun _ _ _ _ _ hop => ?_, fun line cstr id w₁ w₂ hs hx hl hadd hreg => ?_,
    fun _ _ _ hop => ?_, fun _ _ hop => ?_, fun _ _ _ _ _ _ hop => ?_⟩
  case refine_2 =>
    intro _ hflg hlen w₃ hfail
    rw [hs] at h
    simp only [hdlr, hx, monProcess, hl, monRun, monAdd_some] at h
    obtain ⟨-, h⟩ := require_bind_eq_ok.mp h
    obtain ⟨r, _, hadd', h⟩ := bind_eq_ok.mp h
    obtain ⟨rfl, rfl⟩ := EStateM.Result.ok.inj (hadd.symm.trans hadd')
    obtain ⟨_, _, hreg', h⟩ := bind_eq_ok.mp h
    obtain ⟨-, rfl⟩ := EStateM.Result.ok.inj (hreg.symm.trans hreg')
    replace h := get_bind_eq_ok.mp h
    rw [if_pos ⟨hflg, hlen⟩] at h
    replace h := modify_bind_eq_ok.mp h
    obtain ⟨_, _, hcreate, -⟩ := bind_eq_ok.mp h
    replace hcreate := get_bind_eq_ok.mp hcreate
    rcases when_eq_ok.mp hcreate with ⟨-, hcreate⟩ | ⟨hoff, -⟩
    · obtain ⟨b, _, hcreate, hend⟩ := bind_eq_ok.mp hcreate
      obtain ⟨rfl, rfl⟩ := EStateM.Result.ok.inj (hfail.symm.trans hcreate)
      exact exit_keeps (R := fun _ _ => False) sys hend
    · exact hoff rfl
  all_goals cases hop

lemma Action.listable (ha : Action sys (Enables sys) w w') (ht : TableInv w) (h : Listable w) :
    Listable w' := by
  cases ha with
  | @quiet S hS hm hflg =>
    have hnot {p : Part} (hp : p.quiet = false) : p ∉ S := fun hpS => by
      rw [hS p hpS] at hp
      cases hp
    exact h.frame hm (hnot rfl) (hnot rfl) (hnot rfl) fun _ _ => ⟨hnot rfl, hnot rfl⟩
  | notified r mask rest hr hq hw =>
    rw [hw]
    exact h.frame (notified_modifies w r mask rest) (by simp) (by simp) (by simp) (by simp)
  | start id d hid hf =>
    exact h.frame hf.modifies (by simp [forkParts]) (by simp [forkParts]) (by simp [forkParts])
      (by simp [forkParts])
  | stop id hid hs =>
    exact h.frame hs.modifies (by simp [startParts]) (by simp [startParts]) (by simp [startParts])
      (by simp [startParts])
  | reap id hid hok hr =>
    exact h.frame hr.modifies (by simp [startParts]) (by simp [startParts]) (by simp [startParts])
      (by simp [startParts])
  | remove id hid hok hr =>
    obtain ⟨hm, hcmds⟩ := remove_ok hr
    refine ⟨h.toCmdsListable.of_cmds hm fun j hj => ?_, ?_, ?_⟩
    · rw [hcmds, List.mem_filter, decide_eq_true_eq] at hj
      refine .inl ⟨hj.1, ?_⟩
      simp [removeParts, cleanupParts, procParts, startParts, cmdParts, ttyParts, hj.2]
    · rw [hm.tty_link (by simp [removeParts, cleanupParts, procParts, startParts, cmdParts, ttyParts])]
      exact h.bcst
    · rw [hm.tty_link (by simp [removeParts, cleanupParts, procParts, startParts, cmdParts, ttyParts])]
      exact h.mon
  | add cstr r hok hadd =>
    refine ⟨h.toCmdsListable.added ht hadd, ?_, ?_⟩
    · rw [GBLSAddCmd_links (.inl rfl) hadd]
      exact h.bcst
    · rw [GBLSAddCmd_links (.inr rfl) hadd]
      exact h.mon
  | register r c hr hreg =>
    have hm : Modifies {.kproc} w w' := ttyRegisterEvents_modifies r (by simp) hreg
    exact h.frame hm (by simp) (by simp) (by simp) (by simp)
  | enable b hok hflg hlen he =>
    have hm := enable_modifies he
    cases b with
    | false => exact (hok rfl hflg hlen w' he).elim
    | true =>
      have hlink : (w'.ttys .bcst).link = (w.ttys .bcst).link := (ttyCreate_whole he).2.link
      refine ⟨h.toCmdsListable.frame hm (by simp [bcstParts, ttyParts])
        (by simp [bcstParts, ttyParts]), hlink ▸ h.bcst, ?_⟩
      rw [hm.tty_link (by simp [bcstParts, ttyParts])]
      exact h.mon

lemma mainAddCmd_listable {cmdspec : CStr} {u : Unit} (h : mainAddCmd sys cmdspec w = .ok u w')
    (hw : TableInv w ∧ CmdsListable w ∧ (w.ttys .mon).link ≠ none) :
    TableInv w' ∧ CmdsListable w' ∧ (w'.ttys .mon).link ≠ none := by
  obtain ⟨o, w₁, hadd, h⟩ := bind_eq_ok.mp h
  rw [(require_eq_ok.mp h).2]
  refine ⟨?_, hw.2.1.added hw.1 hadd, ?_⟩
  · rcases GBLSAddCmd_cases hadd with ⟨-, hn⟩ | ⟨id, spec, -, ha⟩
    · exact hw.1.kept hn.tableKept
    · exact hw.1.added ha
  · rw [GBLSAddCmd_links (.inr rfl) hadd]
    exact hw.2.2

lemma started_listable {o : Options} (h : Started sys o w) : Listable w := by
  obtain ⟨_, w₁, hargs, h⟩ := bind_eq_ok.mp h
  obtain ⟨_, w₀, hlog, h⟩ := bind_eq_ok.mp h
  obtain ⟨_, w₂, hmon, h⟩ := bind_eq_ok.mp h
  obtain ⟨_, w₃, hfs, h⟩ := bind_eq_ok.mp h
  obtain ⟨_, w₄, hadds, h⟩ := bind_eq_ok.mp h
  obtain ⟨_, w₅, hbcst, h⟩ := bind_eq_ok.mp h
  have hm₁ : Modifies ∅ (boot o) w₁ := Keeps.forM (argsParseSpec_modifies sys) _ hargs
  have hm₀ : Modifies {.flags, .names} w₁ w₀ := logInit_modifies sys (by simp) (by simp) hlog
  have hm₂ : Modifies (ttyParts .mon) w₀ w₂ := monttyCreate_modifies sys subset_rfl hmon
  have hm₃ : Modifies {.flags, .names} w₂ w₃ := fsCreate_modifies sys (by simp) (by simp) hfs
  have hm₅ : Modifies bcstParts w₄ w₅ := bcstttyInit_modifies sys subset_rfl hbcst
  have hm₆ : Modifies {.kproc} w₅ w := theLoopRegister_modifies (by simp) h
  have hplace : ({.flags, .names} : Set Part) ⊆ ttyParts .mon ∪ {.flags} := by
    rintro p (rfl | rfl)
    · exact .inr rfl
    · exact .inl (by simp [ttyParts])
  have hm : Modifies (ttyParts .mon ∪ {.flags}) (boot o) w₃ :=
    trans_of _ (hm₁.mono (Set.empty_subset _)) (trans_of _ (hm₀.mono hplace)
      (trans_of _ (hm₂.mono Set.subset_union_left) (hm₃.mono hplace)))
  have htable : TableInv w₃ := by
    refine TableInv.kept ⟨List.nodup_nil, by simp [boot]⟩ (hm.tableKept ?_)
    rintro p (hp | rfl)
    · exact ttyParts_ofTable hp
    · rfl
  have hboot : CmdsListable (boot o) := ⟨by simp [boot], by simp [boot]⟩
  have hcmds : CmdsListable w₃ := hboot.frame hm (by simp [ttyParts]) (by simp [ttyParts])
  have hmon₃ : (w₃.ttys .mon).link ≠ none := by
    obtain ⟨link, w', -, hinit, hcreate⟩ := monttyCreate_ok sys hmon
    rw [hm₃.tty_link (by simp), (ttyCreate_whole hcreate).2.link, ttyInit_link hinit]
    exact Option.some_ne_none _
  have hone (c : CStr) : Preserves
      (fun w => TableInv w ∧ CmdsListable w ∧ (w.ttys .mon).link ≠ none) (mainAddCmd sys c) :=
    fun _ _ _ hadd => mainAddCmd_listable hadd
  obtain ⟨-, hcmds₄, hmon₄⟩ := Keeps.forM hone _ hadds ⟨htable, hcmds, hmon₃⟩
  have hbcst₅ : (w₅.ttys .bcst).link ≠ none := by
    obtain ⟨link, w', -, hinit, hrest⟩ := bcstttyInit_ok sys hbcst
    have hlink := ttyInit_link (get_bind_eq_ok.mp hinit)
    rcases hrest with ⟨-, rfl⟩ | ⟨-, hcreate⟩
    · exact hlink ▸ Option.some_ne_none _
    · rw [(ttyCreate_whole hcreate).2.link, hlink]
      exact Option.some_ne_none _
  have h₅ : Listable w₅ := by
    refine ⟨hcmds₄.frame hm₅ (by simp [bcstParts, ttyParts]) (by simp [bcstParts, ttyParts]),
      hbcst₅, ?_⟩
    rw [hm₅.tty_link (by simp [bcstParts, ttyParts])]
    exact hmon₄
  exact h₅.frame hm₆ (by simp) (by simp) (by simp) (by simp)

lemma reachable_listable {ok : World → Event → Prop} (hw : Reachable sys ok w) : Listable w := by
  obtain ⟨o, hw⟩ := hw
  refine hw.invariant (fun w h => started_listable h) fun w e w' hr h hok hstep => ?_
  cases e with
  | env e =>
    obtain rfl := modify_eq_ok.mp hstep
    have hm := apply_modifies w e
    cases e <;> exact h.frame hm (by simp [envParts]) (by simp [envParts]) (by simp [envParts])
      (by simp [envParts])
  | hdlr s x =>
    have ht : TableInv w := reachable_tableInv ⟨o, hr⟩
    have hacts : Acts sys (Enables sys) w w' := (hdlr_cases hstep).acts (permits_enables hstep)
    exact (hacts.invariant (P := fun w => TableInv w ∧ Listable w)
      (fun w w' hp ha => ⟨ha.tableInv hp.1, ha.listable hp.1 hp.2⟩) ⟨ht, h⟩).2

/-- The listings can be taken apart exactly when no name, link or command line has a newline in it, no
link has a comma in it, and the number of commands fits into 32 bits. -/
theorem listings_decode_iff {ok : World → Event → Prop} (hw : Reachable sys ok w)
    (hpid : ∃ p : ℤ, -2 ^ 63 ≤ p ∧ p < 2 ^ 63 ∧ w.gbls.pid = decimal p) :
    Decodes w ↔ Separable w :=
  (reachable_listable hw).decodes_iff hpid

theorem listings_decode_two : ∃ w, Reachable quietSys (fun _ _ => True) w ∧ w.gbls.cmds = [0, 1] ∧
    Decodes w := by
  obtain ⟨w, hw, hp⟩ := exists_reachable quietSys (fun _ _ => True) slowFirst []
    (fun w => decide (w.gbls.pid = bytes "7" ∧ w.gbls.cmds = [0, 1] ∧
      (∀ id ∈ w.gbls.cmds, newline ∉ (w.heap id).name) ∧
      (∀ id ∈ w.gbls.cmds, newline ∉ (w.heap id).cmdline) ∧
      (∀ id ∈ w.gbls.cmds, LinkFits w (.clt id)) ∧ LinkFits w .bcst ∧ LinkFits w .mon))
    (by decide +kernel)
  obtain ⟨hpid, hcmds, hname, hcmdline, hclt, hbcst, hmon⟩ := of_decide_eq_true hp
  refine ⟨w, hw, hcmds, (listings_decode_iff hw ⟨7, by decide, by decide, hpid⟩).mpr ?_⟩
  exact ⟨hname, hcmdline, hclt, hbcst, hmon, by rw [hcmds]; decide⟩

/-- A working directory with a comma in its name. -/
def commaDir : Options where
  specs := [bytes "c,,,1,ls"]
  cwd := bytes "/tmp/a,b"
  pid := bytes "42"

theorem listings_not_always_decode : ¬∀ (sys : Sys) (w : World),
    Reachable sys (fun _ _ => True) w →
    (∃ p : ℤ, -2 ^ 63 ≤ p ∧ p < 2 ^ 63 ∧ w.gbls.pid = decimal p) → Decodes w := by
  intro hall
  obtain ⟨w, hw, hp⟩ := exists_reachable quietSys (fun _ _ => True) commaDir []
    (fun w => decide (w.gbls.pid = bytes "42" ∧ 0 ∈ w.gbls.cmds ∧ ¬LinkFits w (.clt 0)))
    (by decide +kernel)
  obtain ⟨hpid, hmem, hlink⟩ := of_decide_eq_true hp
  have hdecodes := hall quietSys w hw ⟨42, by decide, by decide, hpid⟩
  rw [(reachable_listable hw).decodes_iff ⟨42, by decide, by decide, hpid⟩] at hdecodes
  exact hlink (hdecodes.clt 0 hmem)

end Yar.Proofs
