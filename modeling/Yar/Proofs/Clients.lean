import Yar.Proofs.Decoding
import Yar.Proofs.Leaving
import Yar.Proofs.Listing
import Yar.Proofs.Namespace

/-!
# The clients of the file system

Which paths there are below the mount point, what an open or a `stat` of them says, and what is read
piece by piece while yar goes on.
-/

namespace Yar.Proofs

open Program Fs Paging

variable {sys : Sys} {s : Fs} {w w' : World} {ops : FileOps} {S : Set Part} {xs : List File} {i k n : Nat}

/-! ## The tree -/

/-- The control files, in the order of their creation. -/
def controlFiles : List (CStr × FileOps) :=
  [(bytes "pid", .fs_pid_ops), (bytes "cmds", .fs_cmds_ops), (bytes "lcmds", .fs_lcmds_ops),
    (bytes "ttys", .fs_ttys_ops), (bytes "bcst", .fs_bcst_ops)]

/-- The item of a control file. -/
def controlItem (k : Nat) (e : CStr × FileOps) : File := newFile (k + 2) rootIno e.1 none e.2

lemma controlItem_regular (k : Nat) (e : CStr × FileOps) : (controlItem k e).type ≠ .DIRECTORY := by
  simp [controlItem, newFile]

/-- yar has mounted its file system. -/
def Mounted (s : Fs) : Prop := ∃ mntpt, Fs.fsCreate true true (some yarfsCreate) (fsInit mntpt) = .ok true s

lemma Mounted.built (h : Mounted s) : Built (rootFile :: controlFiles.mapIdx controlItem) s := by
  obtain ⟨mntpt, hrun⟩ := h
  obtain ⟨t, hstart, hrun⟩ := fsCreate_split hrun
  cases hstart.symm.trans (fsCreate_ok mntpt)
  obtain ⟨_, s₁, h₁, hrun⟩ := bind_eq_ok.mp hrun
  obtain ⟨_, s₂, h₂, hrun⟩ := bind_eq_ok.mp hrun
  obtain ⟨_, s₃, h₃, hrun⟩ := bind_eq_ok.mp hrun
  obtain ⟨_, s₄, h₄, hrun⟩ := bind_eq_ok.mp hrun
  obtain ⟨_, s₅, h₅, hrun⟩ := bind_eq_ok.mp hrun
  obtain ⟨-, rfl⟩ := pure_eq_ok.mp hrun
  have hb₀ := fsStarted_built mntpt
  have hb₁ := hb₀.createfile (by decide) h₁
  have hb₂ := hb₁.createfile (by decide) h₂
  have hb₃ := hb₂.createfile (by decide) h₃
  have hb₄ := hb₃.createfile (by decide) h₄
  exact hb₄.createfile (by decide) h₅

lemma Built.entered_iff (h : Built xs s) {name : CStr} :
    Entered s i name k ↔ ∃ x ∈ xs, x.ino ≠ rootIno ∧ x.dir = i ∧ x.name = name ∧ x.ino = k := by
  constructor
  · rintro ⟨g, y, hy, hne, hdir, hname, hino⟩
    obtain ⟨-, z, hz, rfl⟩ := h.holds.live hy
    exact ⟨z, List.mem_of_getElem? hz, by simpa using hne, by simpa using hdir, by simpa using hname,
      by simpa using hino⟩
  · rintro ⟨x, hx, hne, hdir, hname, hino⟩
    obtain ⟨g, hg⟩ := List.mem_iff_getElem?.mp hx
    exact ⟨g, _, h.holds.item List.not_mem_nil hg, by simpa using hne, by simpa using hdir,
      by simpa using hname, by simpa using hino⟩

/-- The items that are in some directory are the control files, and they are in the root. -/
lemma Mounted.entered (h : Mounted s) {name : CStr} :
    Entered s i name k ↔ i = rootIno ∧ ∃ j e, controlFiles[j]? = some e ∧ name = e.1 ∧ k = j + 2 := by
  rw [h.built.entered_iff]
  constructor
  · rintro ⟨x, hx, hne, rfl, rfl, rfl⟩
    rcases List.mem_cons.mp hx with rfl | hx
    · exact (hne rfl).elim
    · obtain ⟨j, hj, rfl⟩ := List.mem_mapIdx.mp hx
      exact ⟨rfl, j, _, List.getElem?_eq_getElem hj, rfl, rfl⟩
  · rintro ⟨rfl, j, e, hj, rfl, rfl⟩
    obtain ⟨hlt, rfl⟩ := List.getElem?_eq_some_iff.mp hj
    refine ⟨controlItem j controlFiles[j], List.mem_cons_of_mem _ (List.mem_mapIdx.mpr ⟨j, hlt, rfl⟩), ?_⟩
    exact ⟨show j + 2 ≠ 1 by omega, rfl, rfl, rfl⟩

lemma Mounted.rootLeft (h : Mounted s) : RootLeft s :=
  ⟨_, h.built.holds.mem_items.mpr ⟨0, rootFile, rfl, rfl⟩, by simp [rootFile]⟩

/-- The paths are that of the root and one for each control file. -/
lemma Mounted.pathIno_iff (h : Mounted s) (path : List CStr) : pathIno s path = some i ↔
    (path = [] ∧ i = rootIno) ∨ ∃ j e, controlFiles[j]? = some e ∧ path = [e.1] ∧ i = j + 2 := by
  have ha := h.built.kept.agree
  have hroot := ha.rootLeft h.rootLeft
  have hlook {i k : Nat} {name : CStr} (hi : i ∈ liveInos s) : lookupIno s i name = some k ↔
      i = rootIno ∧ ∃ j e, controlFiles[j]? = some e ∧ name = e.1 ∧ k = j + 2 :=
    (ha.lookup_eq_some hi).trans h.entered
  rw [ha.pathIno hroot]
  cases path with
  | nil => simp [Paths.resolve, eq_comm]
  | cons name path =>
    rw [Paths.resolve]
    cases hk : lookupIno s rootIno name with
    | none =>
      refine ⟨fun hi => (by cases hi), ?_⟩
      rintro (⟨hp, -⟩ | ⟨j, e, hj, hp, rfl⟩)
      · cases hp
      · cases hp
        rw [(hlook hroot).mpr ⟨rfl, j, e, hj, rfl, rfl⟩] at hk
        cases hk
    | some m =>
      obtain ⟨-, j, e, hj, rfl, rfl⟩ := (hlook hroot).mp hk
      have hlive : j + 2 ∈ liveInos s := by
        obtain ⟨g, y, hy, -, -, -, hino⟩ := (ha.lookup_eq_some hroot).mp hk
        exact ⟨g, y, hy, hino⟩
      cases path with
      | nil =>
        rw [Option.bind_some, Paths.resolve, Option.some_inj]
        constructor
        · rintro rfl
          exact .inr ⟨j, e, hj, rfl, rfl⟩
        · rintro (⟨hp, -⟩ | ⟨j', e', hj', hp, rfl⟩)
          · cases hp
          · -- one name has one inode
            have hk' := (hlook hroot).mpr ⟨rfl, j', e', hj', (List.cons.inj hp).1, rfl⟩
            exact Option.some.inj (hk.symm.trans hk')
      | cons m path =>
        -- nothing is below a control file
        have hnone : lookupIno s (j + 2) m = none := by
          cases hm : lookupIno s (j + 2) m with
          | none => rfl
          | some q =>
            have hroot' : j + 2 = 1 := ((hlook hlive).mp hm).1
            omega
        rw [Option.bind_some, Paths.resolve, hnone]
        refine ⟨fun hi => (by cases hi), ?_⟩
        rintro (⟨hp, -⟩ | ⟨j', e', -, hp, -⟩)
        · cases hp
        · cases (List.cons.inj hp).2

/-! ## Requests -/

lemma Mounted.heap (h : Mounted s) {j : Nat} {e : CStr × FileOps} (hj : controlFiles[j]? = some e) :
    s.heap (j + 1) = some (controlItem j e) := by
  have hx : (rootFile :: controlFiles.mapIdx controlItem)[j + 1]? = some (controlItem j e) := by
    rw [List.getElem?_cons_succ, List.getElem?_mapIdx, hj]
    rfl
  have hheap := h.built.holds.item List.not_mem_nil hx
  rwa [fill, if_neg (controlItem_regular j e)] at hheap

lemma Mounted.inode (h : Mounted s) {j : Nat} {e : CStr × FileOps} (hj : controlFiles[j]? = some e) :
    j + 2 < s.ino_num ∧ s.ino_table (j + 2) = { file := some (j + 1) } :=
  h.built.kept.agree.inode _ _ (h.heap hj)

/-- The items of the root, in the order of its table. -/
lemma Mounted.items_root (h : Mounted s) :
    (children (rootFile :: controlFiles.mapIdx controlItem) [] rootIno).map s.heap =
      (controlFiles.mapIdx controlItem).map some := by
  have hchildren : children (rootFile :: controlFiles.mapIdx controlItem) [] rootIno =
      (List.range controlFiles.length).map (· + 1) := by decide
  rw [hchildren]
  apply List.ext_getElem
  · simp
  · intro j hj _
    have hlt : j < controlFiles.length := by simpa using hj
    simpa using h.heap (List.getElem?_eq_getElem hlt)

/-- The text of a control file is what a request for a part of it is answered out of. -/
lemma read_text (hw : Printable w) (hops : ops ≠ .fs_dir_ops) (off n : Nat) :
    FileOps.read w ops off n = .ok ((((controlText w ops).map some).drop off).take n) := by
  obtain ⟨b, hfill, hmem⟩ := controlFill_eq hw hops
  rw [read_eq hops, controlRead_eq (controlSize_eq hw hops) hfill, text_of_mem hmem]

lemma stat_text (hw : Printable w) (hops : ops ≠ .fs_dir_ops) (x : File) : FileOps.stat w ops x =
    .ok { st_ino := x.ino, st_mode := fileMode, st_nlink := 1, st_size := (controlText w ops).length } := by
  have hstat : FileOps.stat w ops x = controlStat (controlSize w ops) x := by
    cases ops with
    | fs_dir_ops => exact (hops rfl).elim
    | _ => rfl
  rw [hstat, controlSize_eq hw hops]
  rfl

lemma controlFiles_ops {j : Nat} {e : CStr × FileOps} (hj : controlFiles[j]? = some e) :
    e.2 ≠ .fs_dir_ops := by
  have hall : ∀ e ∈ controlFiles, e.2 ≠ .fs_dir_ops := by decide
  exact hall e (List.mem_of_getElem? hj)

/-- The listing of the root. -/
def rootListing : List (CStr × Nat) :=
  listingOf rootFile (controlFiles.mapIdx controlItem)

/-- What the requests of a client are answered. -/
structure Serves (w : World) (s : Fs) : Prop where
  walks : ∀ path, walk rootIno path s = .ok (pathIno s path) s
  paths : ∀ path i, pathIno s path = some i ↔
    (path = [] ∧ i = rootIno) ∨ ∃ j e, controlFiles[j]? = some e ∧ path = [e.1] ∧ i = j + 2
  root : fs_fuse_getattr w rootIno s = .ok (some { st_mode := dirMode, st_nlink := 2 }) s ∧
    ∀ flags, fs_fuse_open rootIno flags s = .ok .EISDIR s
  listing : ∀ D n off, fs_fuse_readdir D rootIno n off s =
    .ok (some (((joined (records D 0 rootListing)).drop off).take n)) s
  attrs : ∀ j e, controlFiles[j]? = some e → fs_fuse_getattr w (j + 2) s =
    .ok (some { st_ino := j + 2, st_mode := fileMode, st_nlink := 1, st_size := (controlText w e.2).length }) s
  opens : ∀ j e flags, controlFiles[j]? = some e → fs_fuse_open (j + 2) flags s =
    .ok (if flags &&& accMode = rdOnly then .opened else .EACCES) s
  reads : ∀ j e n off, controlFiles[j]? = some e → fs_fuse_read w (j + 2) n off s =
    .ok ((((controlText w e.2).map some).drop off).take n) s

lemma Mounted.serves (h : Mounted s) (hw : Printable w) : Serves w s := by
  have hkept := h.built.kept
  have hat : DirAt s rootIno 0 (fill (rootFile :: controlFiles.mapIdx controlItem) [] rootFile) := by
    have hheap := h.built.holds.item (f := 0) (x := rootFile) List.not_mem_nil rfl
    obtain ⟨hlt, hnode⟩ := hkept.agree.inode _ _ hheap
    rw [fill_ino] at hlt hnode
    exact ⟨hlt, congrArg Inodesc.next hnode, congrArg Inodesc.file hnode, hheap, by simp [rootFile]⟩
  constructor
  · exact (hkept.namesItems h.rootLeft).walks
  · exact fun path i => h.pathIno_iff path
  · constructor
    · unfold fs_fuse_getattr
      rw [bind_of_ok (ino2inodesc_ok hat.lt), if_neg (not_not_intro hat.next), hat.file]
      dsimp only
      rw [bind_of_ok (deref_ok hat.heap)]
      rfl
    · intro flags
      unfold fs_fuse_open
      rw [bind_of_ok (ino2inodesc_ok hat.lt), hat.next, hat.file]
      dsimp only
      rw [bind_of_ok (deref_ok hat.heap), if_pos hat.type]
      rfl
  · intro D n off
    exact fs_fuse_readdir_ok hat rfl rfl h.items_root n off
  · intro j e hj
    obtain ⟨hlt, hnode⟩ := h.inode hj
    unfold fs_fuse_getattr
    rw [bind_of_ok (ino2inodesc_ok hlt), hnode, if_neg (not_not_intro rfl)]
    dsimp only
    rw [bind_of_ok (deref_ok (h.heap hj))]
    change (some <$> Fs.liftExcept (FileOps.stat w e.2 (controlItem j e)) : FsAct _) s = _
    rw [stat_text hw (controlFiles_ops hj)]
    rfl
  · intro j e flags hj
    obtain ⟨hlt, hnode⟩ := h.inode hj
    unfold fs_fuse_open
    rw [bind_of_ok (ino2inodesc_ok hlt), hnode]
    dsimp only
    rw [bind_of_ok (deref_ok (h.heap hj)), if_neg (controlItem_regular j e)]
    by_cases hflags : flags &&& accMode = rdOnly
    · rw [if_pos hflags, if_neg (not_not_intro hflags)]
      rfl
    · rw [if_neg hflags, if_pos hflags]
      rfl
  · intro j e n off hj
    obtain ⟨hlt, hnode⟩ := h.inode hj
    unfold fs_fuse_read
    rw [bind_of_ok (ino2inodesc_ok hlt), hnode]
    dsimp only
    rw [bind_of_ok (deref_ok (h.heap hj))]
    change Fs.liftExcept (FileOps.read w e.2 off n) s = _
    rw [read_text hw (controlFiles_ops hj)]
    rfl

/-! ## What is shown -/

/-- What the control files show of a command. -/
def shownOf (w : World) (id : CmdId) : CStr × Option CStr × CStr :=
  ((w.heap id).name, (w.ttys (.clt id)).link, (w.heap id).cmdline)

/-- A command is shown the same for as long as it is in the table, new ones are new commands, and the
other ttys are shown the same. -/
structure ShownKept (w w' : World) : Prop where
  brk : w.brk ≤ w'.brk
  cmds : ∀ id < w.brk, id ∈ w'.gbls.cmds → id ∈ w.gbls.cmds ∧ shownOf w' id = shownOf w id
  bcst : (w'.ttys .bcst).link = (w.ttys .bcst).link
  mon : (w'.ttys .mon).link = (w.ttys .mon).link

lemma ShownKept.refl (w : World) : ShownKept w w := ⟨le_rfl, fun _ _ hid => ⟨hid, rfl⟩, rfl, rfl⟩

lemma ShownKept.trans {w₁ w₂ w₃ : World} (h : ShownKept w₁ w₂) (h' : ShownKept w₂ w₃) :
    ShownKept w₁ w₃ := by
  refine ⟨h.brk.trans h'.brk, fun id hlt hid => ?_, h'.bcst.trans h.bcst, h'.mon.trans h.mon⟩
  obtain ⟨hid₂, hshown⟩ := h'.cmds id (hlt.trans_le h.brk) hid
  obtain ⟨hid₁, hshown'⟩ := h.cmds id hlt hid₂
  exact ⟨hid₁, hshown.trans hshown'⟩

lemma Modifies.shownOf (hm : Modifies S w w') {id : CmdId} (hspec : .spec id ∉ S) (htty : .tty (.clt id) ∉ S) :
    shownOf w' id = shownOf w id := by
  have hcmdline : (w'.heap id).cmdline = (w.heap id).cmdline :=
    (congrArg (fun c => c.2.2.1) (hm.same (.spec id) hspec) :)
  rw [Proofs.shownOf, Proofs.shownOf, hm.name_eq hspec, hm.tty_link htty, hcmdline]

lemma Modifies.shownKept (hm : Modifies S w w') (hbrk : .brk ∉ S) (ht : .table ∉ S) (hbcst : .tty .bcst ∉ S)
    (hmon : .tty .mon ∉ S) (hS : ∀ id < w.brk, .spec id ∉ S ∧ .tty (.clt id) ∉ S) : ShownKept w w' := by
  refine ⟨(hm.brk_eq hbrk).ge, fun id hlt hid => ?_, hm.tty_link hbcst, hm.tty_link hmon⟩
  rw [hm.cmds_eq ht] at hid
  exact ⟨hid, hm.shownOf (hS id hlt).1 (hS id hlt).2⟩

lemma Action.shownKept (ha : Action sys (Enables sys) w w') : ShownKept w w' := by
  cases ha with
  | @quiet S hS hm hflg =>
    have hnot {p : Part} (hp : p.quiet = false) : p ∉ S := fun hpS => by
      rw [hS p hpS] at hp
      cases hp
    exact hm.shownKept (hnot rfl) (hnot rfl) (hnot rfl) (hnot rfl) fun _ _ => ⟨hnot rfl, hnot rfl⟩
  | notified r mask rest hr hq hw =>
    rw [hw]
    exact (notified_modifies w r mask rest).shownKept (by simp) (by simp) (by simp) (by simp) (by simp)
  | start id d hid hf =>
    exact hf.modifies.shownKept (by simp [forkParts]) (by simp [forkParts]) (by simp [forkParts])
      (by simp [forkParts]) (by simp [forkParts])
  | stop id hid hs =>
    exact hs.modifies.shownKept (by simp [startParts]) (by simp [startParts]) (by simp [startParts])
      (by simp [startParts]) (by simp [startParts])
  | reap id hid hok hr =>
    exact hr.modifies.shownKept (by simp [startParts]) (by simp [startParts]) (by simp [startParts])
      (by simp [startParts]) (by simp [startParts])
  | remove id hid hok hr =>
    obtain ⟨hm, hcmds⟩ := remove_ok hr
    refine ⟨(hm.brk_eq ?_).ge, fun j _ hj => ?_, hm.tty_link ?_, hm.tty_link ?_⟩
    · simp [removeParts, cleanupParts, procParts, startParts, cmdParts, ttyParts]
    · rw [hcmds, List.mem_filter, decide_eq_true_eq] at hj
      refine ⟨hj.1, hm.shownOf ?_ ?_⟩
      · simp [removeParts, cleanupParts, procParts, startParts, cmdParts, ttyParts, hj.2]
      · simp [removeParts, cleanupParts, procParts, startParts, cmdParts, ttyParts, hj.2]
    · simp [removeParts, cleanupParts, procParts, startParts, cmdParts, ttyParts]
    · simp [removeParts, cleanupParts, procParts, startParts, cmdParts, ttyParts]
  | add cstr r hok hadd =>
    have hbcst := GBLSAddCmd_links (.inl rfl) hadd
    have hmon := GBLSAddCmd_links (.inr rfl) hadd
    rcases GBLSAddCmd_cases hadd with ⟨-, hn⟩ | ⟨id, spec, -, ha⟩
    · refine ⟨hn.brk, fun j hlt hj => ?_, hbcst, hmon⟩
      rw [hn.modifies.cmds_eq (by simp [cmdParts, ttyParts])] at hj
      exact ⟨hj, hn.modifies.shownOf (by simp [cmdParts, ttyParts, hlt.ne])
        (by simp [cmdParts, ttyParts, hlt.ne])⟩
    · refine ⟨ha.brk ▸ Nat.le_succ _, fun j hlt hj => ?_, hbcst, hmon⟩
      -- the new command has a number of its own
      have hne : j ≠ id := ha.id_eq ▸ hlt.ne
      rw [ha.table, List.mem_append, List.mem_singleton] at hj
      exact ⟨hj.resolve_right hne, ha.modifies.shownOf (by simp [addParts, cmdParts, ttyParts, hne])
        (by simp [addParts, cmdParts, ttyParts, hne])⟩
  | register r c hr hreg =>
    have hm : Modifies {.kproc} w w' := ttyRegisterEvents_modifies r (by simp) hreg
    exact hm.shownKept (by simp) (by simp) (by simp) (by simp) (by simp)
  | enable b hok hflg hlen he =>
    have hm := enable_modifies he
    cases b with
    | false => exact (hok rfl hflg hlen w' he).elim
    | true =>
      have hlink : (w'.ttys .bcst).link = (w.ttys .bcst).link := (ttyCreate_whole he).2.link
      refine ⟨(hm.brk_eq (by simp [bcstParts, ttyParts])).ge, fun id _ hid => ?_, hlink,
        hm.tty_link (by simp [bcstParts, ttyParts])⟩
      rw [hm.cmds_eq (by simp [bcstParts, ttyParts])] at hid
      exact ⟨hid, hm.shownOf (by simp [bcstParts, ttyParts]) (by simp [bcstParts, ttyParts])⟩

lemma Acts.shownKept (h : Acts sys (Enables sys) w w') : ShownKept w w' :=
  h.invariant (P := ShownKept w) (fun _ _ hk ha => hk.trans ha.shownKept) (.refl w)

lemma pid_settled : Settled Globals.pid :=
  ⟨fun _ _ hf _ => (congrArg Globals.pid hf :), fun _ => rfl, fun _ _ hc => (congrArg Globals.pid hc :)⟩

lemma loopStep_shownKept {l l' : Loop} {e : LoopEvent} (h : LoopStep sys l e l') :
    ShownKept l.world l'.world ∧ l'.world.gbls.pid = l.world.gbls.pid := by
  cases h with
  | env _ e =>
    have hm := apply_modifies l.world e
    constructor
    · cases e <;> exact hm.shownKept (by simp [envParts]) (by simp [envParts]) (by simp [envParts])
        (by simp [envParts]) (by simp [envParts])
    · cases e <;> exact (congrArg Globals.pid (hm.flags_eq (by simp [envParts])) :)
  | wait => exact ⟨.refl _, rfl⟩
  | dispatch h =>
    have hacts := (hdlr_cases h).acts (permits_enables h)
    refine ⟨hacts.shownKept, ?_⟩
    rcases (hdlr_cases h).settled pid_settled with hpid | hpid
    · exact hpid
    · exact hpid

/-- Commands that come to the end of the table come to the end of the text. -/
lemma ShownKept.text (h : ShownKept w w') (hpid : w'.gbls.pid = w.gbls.pid) (ht : TableInv w)
    (hcmds : w.gbls.cmds <+: w'.gbls.cmds) (httys : ops = .fs_ttys_ops → w'.gbls.cmds = w.gbls.cmds) :
    controlText w ops <+: controlText w' ops := by
  have hshown : ∀ id ∈ w.gbls.cmds, shownOf w' id = shownOf w id := fun id hid =>
    (h.cmds id (ht.lt_brk id hid) (hcmds.subset hid)).2
  have hname : ∀ id ∈ w.gbls.cmds, (w'.heap id).name = (w.heap id).name := fun id hid =>
    congrArg (fun x => x.1) (hshown id hid)
  have hlink : ∀ id ∈ w.gbls.cmds, (w'.ttys (.clt id)).link = (w.ttys (.clt id)).link := fun id hid =>
    congrArg (fun x => x.2.1) (hshown id hid)
  have hcmdline : ∀ id ∈ w.gbls.cmds, (w'.heap id).cmdline = (w.heap id).cmdline := fun id hid =>
    congrArg (fun x => x.2.2) (hshown id hid)
  have hgrown {f f' : CmdId → CStr} (hf : ∀ id ∈ w.gbls.cmds, f' id = f id) :
      w.gbls.cmds.flatMap f <+: w'.gbls.cmds.flatMap f' := by
    obtain ⟨l, hl⟩ := hcmds
    rw [← hl, List.flatMap_append, List.flatMap_congr hf]
    exact List.prefix_append _ _
  cases ops with
  | fs_dir_ops => exact List.prefix_rfl
  | fs_pid_ops =>
    rw [controlText, controlText, hpid]
  | fs_cmds_ops => exact hgrown fun id hid => by rw [hname id hid]
  | fs_lcmds_ops =>
    refine hgrown fun id hid => ?_
    rw [cmdInfo, cmdInfo, hname id hid, hlink id hid, hcmdline id hid, hpid]
  | fs_ttys_ops =>
    have hsame := httys rfl
    have htrailer : trailer w' = trailer w := by
      rw [trailer, trailer, h.bcst, h.mon, hpid, cmdcntstr, cmdcntstr, hsame]
    have hinfo : ∀ id ∈ w.gbls.cmds, ttyInfo w' id = ttyInfo w id := fun id hid => by
      rw [ttyInfo, ttyInfo, hname id hid, hlink id hid, hcmdline id hid, hpid]
    rw [controlText, controlText, htrailer, hsame, List.flatMap_congr hinfo]
  | fs_bcst_ops =>
    rw [controlText, controlText, h.bcst]

/-! ## Readers -/

/-- yar goes on, and no command leaves the table. -/
def GoesOn (sys : Sys) (ops : FileOps) (l l' : Loop) : Prop :=
  (∃ e, LoopStep sys l e l') ∧ l.world.gbls.cmds <+: l'.world.gbls.cmds ∧
    (ops = .fs_ttys_ops → l'.world.gbls.cmds = l.world.gbls.cmds)

/-- A request for a part of the file with this inode, and the reply. -/
def Asks (s : Fs) (ino : Nat) (l : Loop) (n off : Nat) (page : List (Option Byte)) : Prop :=
  fs_fuse_read l.world ino n off s = .ok page s

/-- The loop of a process with this id. -/
def RunsAs (sys : Sys) (p : CStr) (l : Loop) : Prop :=
  LoopReachable sys (fun _ _ => True) l ∧ l.world.gbls.pid = p

/-- The text of a control file as it is sent. -/
def sentText (ops : FileOps) (l : Loop) : List (Option Byte) := (controlText l.world ops).map some

variable {l l' : Loop} {p : ℤ}

lemma RunsAs.printable (h : RunsAs sys (decimal p) l) (hlo : -2 ^ 63 ≤ p) (hhi : p < 2 ^ 63) :
    Printable l.world := by
  have hw : Reachable sys (fun _ _ => True) l.world :=
    h.1.world sys (fun _ _ _ _ _ => trivial) fun _ _ => trivial
  exact (reachable_listable hw).printable ⟨p, hlo, hhi, h.2⟩

lemma GoesOn.text {q : CStr} (h : GoesOn sys ops l l') (hl : RunsAs sys q l) :
    RunsAs sys q l' ∧ sentText ops l <+: sentText ops l' := by
  obtain ⟨⟨e, hstep⟩, hcmds, httys⟩ := h
  obtain ⟨⟨o, hr⟩, hq⟩ := hl
  have hw : Reachable sys (fun _ _ => True) l.world :=
    LoopReachable.world sys (fun _ _ _ _ _ => trivial) (fun _ _ => trivial) ⟨o, hr⟩
  obtain ⟨hkept, hpid⟩ := loopStep_shownKept hstep
  refine ⟨⟨⟨o, .next hr trivial hstep⟩, hpid.trans hq⟩, ?_⟩
  exact (hkept.text hpid (reachable_tableInv hw) hcmds httys).map _

end Yar.Proofs
