import Yar.Proofs.LoopReady
import Yar.Proofs.Slowest

/-!
# The monitor's add

What `monAdd` does with a specification in a state that the loop comes to: one more command, nothing,
or an end of the program.
-/

namespace Yar.Proofs

open Program

variable {sys : Sys} {w w' w₁ : World} {id : CmdId} {r : TtyRef} {f : SpecFields} {spec : CmdSpec}
  {cstr : CStr} {names : CStr → Option Node} {p : CStr} {ps : List CStr}

/-! ## What an addition is to do -/

/-- The tty has been created. -/
structure TtyMade (sys : Sys) (w : World) (r : TtyRef) : Prop where
  dfd : (w.ttys r).dfd ≠ none
  sfd : (w.ttys r).sfd ≠ none
  ifd : (w.ttys r).ifd ≠ none
  iwd : (w.ttys r).iwd ≠ none
  links : ∀ p ∈ ttyNames (w.ttys r), w.kern.names (sys.resolve p) = some (.sym r)

/-- The tty has been created and its events are reported. -/
structure TtyUp (sys : Sys) (w : World) (r : TtyRef) : Prop extends TtyMade sys w r where
  dom : ∀ fd, (w.ttys r).dfd = some fd → (fd, .dom r) ∈ w.kern.interest
  notify : ∀ fd, (w.ttys r).ifd = some fd → (fd, .ifd r) ∈ w.kern.interest

/-- There is exactly one more command, with both of its ttys. -/
def AddedOne (sys : Sys) (w w' : World) : Prop :=
  ∃ id, id ∉ w.gbls.cmds ∧ w'.gbls.cmds = w.gbls.cmds ++ [id] ∧ TtyUp sys w' (.clt id) ∧
    TtyUp sys w' (.cmd id)

/-- The broadcast tty and the ttys of the commands. -/
def OfTable (w : World) (r : TtyRef) : Prop :=
  r = .bcst ∨ ∃ id ∈ w.gbls.cmds, r = .clt id ∨ r = .cmd id

/-- The globals, the commands of the table, and their ttys and the broadcast tty with the links to them
are what they were. -/
structure Untouched (w w' : World) : Prop where
  gbls : w'.gbls = w.gbls
  heap : ∀ id ∈ w.gbls.cmds, w'.heap id = w.heap id
  ttys : ∀ r, OfTable w r → w'.ttys r = w.ttys r
  ports : ∀ r, OfTable w r → w'.kern.ports r = w.kern.ports r
  links : ∀ r, OfTable w r → ∀ p, w.kern.names p = some (.sym r) → w'.kern.names p = some (.sym r)

/-- `monAdd` comes to its end, with one more command and OK or with nothing changed and FAILED. -/
def AllOrNothing (sys : Sys) (w : World) (cstr : CStr) : Prop :=
  ∃ rc w', monAddRc sys (some cstr) w = .ok rc w' ∧
    ((rc = 0 ∧ AddedOne sys w w') ∨ (rc = -1 ∧ Untouched w w'))

/-- The broadcast tty can be created once the command has been added, if it is needed then. -/
def BcstFits (sys : Sys) (w : World) (f : SpecFields) : Prop :=
  w.gbls.bcstflg = false → w.gbls.cmds ≠ [] →
    Creatable sys (linked sys (.clt w.brk) (clientLinks w.gbls (f.spec sys w)) w.kern.names)
      (w.kern.calls + parseCalls f + 14) (ttyNames (w.ttys .bcst))

/-- The command can be started if it has to be: with the broadcast tty there and open. -/
def StartFits (sys : Sys) (w : World) : Prop :=
  (w.gbls.bcstflg = false → w.gbls.cmds = []) → (w.ttys .bcst).opens > 0 → Forkable sys w.kern

/-- The descriptors that get registered for the next command: each of its two ttys gets three, and the
second one is the sub side, whose events nobody wants. -/
def watchedFds (k : Kernel) : List Fd := [k.nextFd, k.nextFd + 2, k.nextFd + 3, k.nextFd + 5]

/-- A specification that nothing goes wrong with: it asks for no log. If the ttys of its command can be
created, the slowest command is there to be compared with, the ttys can be registered, a broadcast tty
can be created and the command started; if not, none of the links that are swept away then is one of
yar's. -/
structure Harmless (sys : Sys) (w : World) (f : SpecFields) : Prop where
  log : f.log = []
  slowest : TtysCreatable sys (f.spec sys w) (parsed f w) → SlowestLive w
  heard : TtysCreatable sys (f.spec sys w) (parsed f w) → ∀ fd ∈ watchedFds w.kern, sys.deaf fd = false
  bcst : TtysCreatable sys (f.spec sys w) (parsed f w) → BcstFits sys w f
  start : TtysCreatable sys (f.spec sys w) (parsed f w) → StartFits sys w
  links : ¬TtysCreatable sys (f.spec sys w) (parsed f w) →
    ∀ q ∈ entries sys (clientLinks w.gbls (f.spec sys w)), ∀ r, OfTable w r →
      w.kern.names q ≠ some (.sym r)

/-! ## Ttys -/

lemma linked_of_free (h : FreePaths sys names ps) {q : CStr} (hq : names q ≠ none) :
    linked sys r ps names q = names q := by
  induction ps generalizing names with
  | nil => rfl
  | cons p ps ih =>
    obtain ⟨⟨-, hp⟩, hps⟩ := (freePaths_cons r).mp h
    have hne : q ≠ sys.resolve p := by
      rintro rfl
      exact hq hp
    have hupd : Function.update names (sys.resolve p) (some (.sym r)) q = names q :=
      Function.update_of_ne hne _ _
    change linked sys r ps (Function.update names (sys.resolve p) (some (.sym r))) q = _
    rw [ih hps (by rw [hupd]; exact hq), hupd]

lemma linked_mem (h : FreePaths sys names ps) (hp : p ∈ ps) :
    linked sys r ps names (sys.resolve p) = some (.sym r) := by
  induction ps generalizing names with
  | nil => cases hp
  | cons p₁ ps ih =>
    have hps := ((freePaths_cons r).mp h).2
    change linked sys r ps (Function.update names (sys.resolve p₁) (some (.sym r))) _ = _
    rcases List.mem_cons.mp hp with rfl | hp
    · have hself : Function.update names (sys.resolve p) (some (.sym r)) (sys.resolve p) =
          some (.sym r) := Function.update_self _ _ _
      rw [linked_of_free hps (by simp), hself]
    · exact ih hps hp

lemma foldl_linkedIn_next : (ps.foldl (linkedIn sys r) w).kern.nextFd = w.kern.nextFd ∧
    (ps.foldl (linkedIn sys r) w).kern.nextPid = w.kern.nextPid := by
  induction ps generalizing w with
  | nil => exact ⟨rfl, rfl⟩
  | cons p ps ih => exact ih

/-- What a tty is after its creation. -/
lemma createdTty_tty (sys : Sys) (r : TtyRef) (w : World) : (createdTty sys r w).ttys r =
    { w.ttys r with
      dfd := some w.kern.nextFd, sfd := some (w.kern.nextFd + 1)
      ifd := some (w.kern.nextFd + 2), iwd := some (w.kern.nextFd + 2)
      rbytes := 0, wbytes := 0, opens := 0 } := by
  unfold createdTty watched
  simp only [World.updTty, called, acquired, Function.update_self, foldl_linkedIn_ttys,
    foldl_linkedIn_next]
  simp only [opened, acquired, called, calledBy, World.updTty, World.updPort, Function.update_self]

/-- A tty takes three descriptors. -/
lemma createdTty_next : (createdTty sys r w).kern.nextFd = w.kern.nextFd + 3 ∧
    (createdTty sys r w).kern.nextPid = w.kern.nextPid := by
  simp only [createdTty, watched, World.updTty, called, acquired, foldl_linkedIn_next, opened, calledBy,
    World.updPort, and_self]

lemma createdTty_made (h : FreePaths sys w.kern.names (ttyNames (w.ttys r))) :
    TtyMade sys (createdTty sys r w) r := by
  have htty := createdTty_tty sys r w
  refine ⟨?_, ?_, ?_, ?_, fun p hp => ?_⟩
  · simp [htty]
  · simp [htty]
  · simp [htty]
  · simp [htty]
  · have hnames : ttyNames ((createdTty sys r w).ttys r) = ttyNames (w.ttys r) := by
      rw [htty]
      rfl
    rw [hnames] at hp
    rw [createdTty_names]
    exact linked_mem h hp

lemma foldl_linkedIn_interest :
    (ps.foldl (linkedIn sys r) w).kern.interest = w.kern.interest := by
  induction ps generalizing w with
  | nil => rfl
  | cons p ps ih => exact ih

lemma createdTty_interest : (createdTty sys r w).kern.interest = w.kern.interest := by
  simp only [createdTty, watched, World.updTty, called, acquired, foldl_linkedIn_interest, opened,
    calledBy, World.updPort]

/-- A created tty stays one where its record and the links are kept. -/
lemma TtyMade.of_kept (h : TtyMade sys w r) (htty : ttyStatic (w'.ttys r) = ttyStatic (w.ttys r))
    (hnames : ∀ q, w.kern.names q = some (.sym r) → w'.kern.names q = some (.sym r)) :
    TtyMade sys w' r := by
  simp only [ttyStatic, Prod.mk.injEq] at htty
  obtain ⟨hlink, hextra₁, hextra₂, hdfd, hsfd, hifd, hiwd⟩ := htty
  refine ⟨hdfd ▸ h.dfd, hsfd ▸ h.sfd, hifd ▸ h.ifd, hiwd ▸ h.iwd, fun p hp => hnames _ (h.links p ?_)⟩
  rw [ttyNames, hlink, hextra₁, hextra₂] at hp
  exact hp

lemma TtyUp.of_kept (h : TtyUp sys w r) (htty : ttyStatic (w'.ttys r) = ttyStatic (w.ttys r))
    (hnames : ∀ q, w.kern.names q = some (.sym r) → w'.kern.names q = some (.sym r))
    (hint : ∀ e ∈ w.kern.interest, e ∈ w'.kern.interest) : TtyUp sys w' r := by
  have hmade := h.toTtyMade.of_kept htty hnames
  simp only [ttyStatic, Prod.mk.injEq] at htty
  obtain ⟨-, -, -, hdfd, -, hifd, -⟩ := htty
  exact ⟨hmade, fun fd hfd => hint _ (h.dom fd (hdfd ▸ hfd)),
    fun fd hfd => hint _ (h.notify fd (hifd ▸ hfd))⟩

/-- The world after epoll has been told about more descriptors. -/
def told (w : World) (l : List (Fd × Source)) : World :=
  { w with kern.interest := w.kern.interest ++ l }

/-- Nothing has changed, except that epoll has been told about more descriptors. -/
def Told (w w' : World) : Prop := ∃ l, w' = told w l

lemma told_nil : told w [] = w := by
  unfold told
  rw [List.append_nil]

instance : IsTrans World Told where
  trans _ _ _ := by
    rintro ⟨l, rfl⟩ ⟨l', rfl⟩
    exact ⟨l ++ l', by simp only [told, List.append_assoc]⟩

lemma Told.keeps (h : Told w w') (hr : TtyUp sys w r) : TtyUp sys w' r := by
  obtain ⟨l, rfl⟩ := h
  exact hr.of_kept rfl (fun _ hq => hq) fun e he => List.mem_append_left l he

/-- The events of the tty can be registered. -/
def Registrable (sys : Sys) (t : Tty) : Prop :=
  ∀ fd, t.dfd = some fd ∨ t.ifd = some fd → sys.deaf fd = false

/-- The registration of a created tty says whether both of its descriptors could be registered. -/
lemma ttyRegisterEvents_runs (h : TtyMade sys w r) :
    ∃ b w', ttyRegisterEvents sys r w = .ok b w' ∧ Told w w' ∧
      (b = true ↔ Registrable sys (w.ttys r)) ∧ (b = true → TtyUp sys w' r) := by
  obtain ⟨dfd, hdfd⟩ := Option.ne_none_iff_exists'.mp h.dfd
  obtain ⟨ifd, hifd⟩ := Option.ne_none_iff_exists'.mp h.ifd
  have hret : Returns (ttyRegisterEvents sys r) w := by
    refine .get_bind ?_
    simp only [hdfd, hifd]
    refine (Returns.require h.iwd _).bind fun _ w₁ hw => ?_
    refine Returns.bind ⟨_, _, epollAdd_eq _ _ _ _⟩ fun b w₂ _ => .ite (fun _ => .pure _ _) fun _ => ?_
    exact ⟨_, _, epollAdd_eq _ _ _ _⟩
  obtain ⟨b, w', hrun⟩ := hret
  obtain ⟨dfd', ifd', hdfd', hifd', rfl, hb⟩ := ttyRegisterEvents_ok hrun
  obtain rfl : dfd = dfd' := Option.some.inj (hdfd.symm.trans hdfd')
  obtain rfl : ifd = ifd' := Option.some.inj (hifd.symm.trans hifd')
  refine ⟨b, _, hrun, ⟨_, rfl⟩, hb.trans ?_, fun htrue => ?_⟩
  · simp only [Registrable, hdfd, hifd, Option.some.injEq]
    exact ⟨fun hd fd hfd => by rcases hfd with rfl | rfl; exacts [hd.1, hd.2],
      fun hd => ⟨hd dfd (.inl rfl), hd ifd (.inr rfl)⟩⟩
  · obtain ⟨hdeaf, hdeaf'⟩ := hb.mp htrue
    refine ⟨h.of_kept rfl fun _ hq => hq, fun fd hfd => ?_, fun fd hfd => ?_⟩
    · obtain rfl : dfd = fd := Option.some.inj (hdfd.symm.trans hfd)
      exact List.mem_append_right _ (mem_heardOf.mpr ⟨hdeaf, .inl rfl⟩)
    · obtain rfl : ifd = fd := Option.some.inj (hifd.symm.trans hfd)
      exact List.mem_append_right _ (mem_heardOf.mpr ⟨hdeaf, .inr ⟨hdeaf', rfl⟩⟩)

/-- The registration of a command's ttys is one that has to succeed. -/
lemma cmdRegisterttyEvents_iff (hclt : TtyMade sys w (.clt id)) (hcmd : TtyMade sys w (.cmd id)) :
    Returns (cmdRegisterttyEvents sys id) w ↔
      Registrable sys (w.ttys (.clt id)) ∧ Registrable sys (w.ttys (.cmd id)) := by
  obtain ⟨b₁, w₁, hrun₁, ⟨l, rfl⟩, hb₁, -⟩ := ttyRegisterEvents_runs hclt
  have hcmd₁ : TtyMade sys (told w l) (.cmd id) := hcmd.of_kept rfl fun _ hq => hq
  obtain ⟨b₂, w₂, hrun₂, -, hb₂, -⟩ := ttyRegisterEvents_runs hcmd₁
  rw [← hb₁, show Registrable sys (w.ttys (.cmd id)) ↔ b₂ = true from hb₂.symm]
  unfold Returns cmdRegisterttyEvents
  rw [bind_of_ok hrun₁]
  constructor
  · rintro ⟨_, w', h⟩
    obtain ⟨htrue, h⟩ := require_bind_eq_ok.mp h
    rw [bind_of_ok hrun₂] at h
    exact ⟨htrue, (require_eq_ok.mp h).1⟩
  · rintro ⟨htrue₁, htrue₂⟩
    refine ⟨(), w₂, require_bind_eq_ok.mpr ⟨htrue₁, (bind_of_ok hrun₂).trans ?_⟩⟩
    exact require_eq_ok.mpr ⟨htrue₂, rfl⟩

lemma cmdRegisterttyEvents_up {u : Unit} (hclt : TtyMade sys w (.clt id)) (hcmd : TtyMade sys w (.cmd id))
    (h : cmdRegisterttyEvents sys id w = .ok u w') :
    Told w w' ∧ TtyUp sys w' (.clt id) ∧ TtyUp sys w' (.cmd id) := by
  obtain ⟨b₁, w₁, hrun₁, ⟨l, rfl⟩, -, hup₁⟩ := ttyRegisterEvents_runs hclt
  have hcmd₁ : TtyMade sys (told w l) (.cmd id) := hcmd.of_kept rfl fun _ hq => hq
  obtain ⟨b₂, w₂, hrun₂, htold₂, -, hup₂⟩ := ttyRegisterEvents_runs hcmd₁
  rw [cmdRegisterttyEvents, bind_of_ok hrun₁] at h
  obtain ⟨htrue₁, h⟩ := require_bind_eq_ok.mp h
  rw [bind_of_ok hrun₂] at h
  obtain ⟨htrue₂, rfl⟩ := require_eq_ok.mp h
  have htold₁ : Told w (told w l) := ⟨l, rfl⟩
  exact ⟨trans_of Told htold₁ htold₂, htold₂.keeps (hup₁ htrue₁), hup₂ htrue₂⟩

lemma listed_made {s : Option CmdId} (h : TtysCreatable sys spec w) :
    TtyMade sys (listed sys spec w s) (.clt w.brk) ∧ TtyMade sys (listed sys spec w s) (.cmd w.brk) := by
  have hclt : TtyMade sys (createdTty sys (.clt w.brk) (filledIn spec w)) (.clt w.brk) := by
    refine createdTty_made ?_
    rw [filledIn_clt]
    exact h.links
  have htty : (createdTty sys (.clt w.brk) (filledIn spec w)).ttys (.cmd w.brk) =
      (filledIn spec w).ttys (.cmd w.brk) := createdTty_ttys_of_ne (by simp)
  have hcmd : TtyMade sys (addedTtys sys spec w) (.cmd w.brk) := by
    refine createdTty_made ?_
    rw [htty, filledIn_cmd]
    exact freePaths_nil
  have hclt' : TtyMade sys (addedTtys sys spec w) (.clt w.brk) := by
    have hkept : (addedTtys sys spec w).ttys (.clt w.brk) = _ := createdTty_ttys_of_ne (by simp)
    refine hclt.of_kept (congrArg ttyStatic hkept) fun q hq => ?_
    rw [addedTtys, createdTty_names, htty, filledIn_cmd]
    exact hq
  exact ⟨hclt'.of_kept rfl fun _ hq => hq, hcmd.of_kept rfl fun _ hq => hq⟩

/-! ## The rest of the addition -/

/-- The world with the broadcast tty turned on. -/
def turnedOn (w : World) : World := { w with gbls.bcstflg := true }

lemma bcstttyCreate_iff (sys : Sys) (w : World) (hd : (w.ttys .bcst).dfd = none)
    (ht : Targeted (w.ttys .bcst)) {u : Unit} :
    bcstttyCreate sys (turnedOn w) = .ok u w' ↔
      Creatable sys w.kern.names w.kern.calls (ttyNames (w.ttys .bcst)) ∧
        w' = createdTty sys .bcst (turnedOn w) := by
  have hcreate : ttyCreate sys .bcst (turnedOn w) = .ok true w' ↔ _ := ttyCreate_true_iff hd ht
  refine Iff.trans ?_ hcreate
  constructor
  · intro h
    replace h := get_bind_eq_ok.mp h
    rcases when_eq_ok.mp h with ⟨-, h⟩ | ⟨hoff, -⟩
    · obtain ⟨b, w₁, hrun, h⟩ := bind_eq_ok.mp h
      rcases when_eq_ok.mp h with ⟨-, hexit⟩ | ⟨hb, rfl⟩
      · exact (exit_keeps (R := fun _ _ => False) sys hexit).elim
      · rw [Bool.not_eq_false] at hb
        rwa [hb] at hrun
    · exact (hoff rfl).elim
  · intro h
    refine get_bind_eq_ok.mpr (when_eq_ok.mpr (.inl ⟨rfl, ?_⟩))
    exact (bind_of_ok h).trans (when_eq_ok.mpr (.inr ⟨by simp, rfl⟩))

lemma bcstttyRegisterEvents_told {u : Unit} (h : bcstttyRegisterEvents sys w = .ok u w') : Told w w' := by
  replace h := get_bind_eq_ok.mp h
  rcases when_eq_ok.mp h with ⟨-, h⟩ | ⟨-, rfl⟩
  · obtain ⟨b, hreg⟩ := discard_eq_ok.mp h
    obtain ⟨dfd, ifd, -, -, rfl, -⟩ := ttyRegisterEvents_ok hreg
    exact ⟨heardOf sys .bcst dfd ifd, rfl⟩
  · exact ⟨[], told_nil.symm⟩

/-- The registered ttys of a command stay so when the broadcast tty is created. -/
lemma TtyUp.createdTty (hup : TtyUp sys w r) (hr : r ≠ .bcst)
    (hfree : FreePaths sys w.kern.names (ttyNames (w.ttys .bcst))) :
    TtyUp sys (createdTty sys .bcst (turnedOn w)) r := by
  have hkept : (Proofs.createdTty sys .bcst (turnedOn w)).ttys r = w.ttys r := createdTty_ttys_of_ne hr
  refine hup.of_kept (congrArg ttyStatic hkept) (fun q hq => ?_) fun e he => ?_
  · have hlinked := linked_of_free (r := .bcst) hfree (q := q) (by simp [hq])
    rw [createdTty_names]
    exact hlinked.trans hq
  · rw [createdTty_interest]
    exact he

/-- What comes after the registration of the new command's ttys: the broadcast tty is created if the
command is the second one, and the command is started if the broadcast tty is open. -/
lemma monAddRest_iff {l : List (Fd × Source)} (hup : TtyUp sys (told w l) (.cmd id))
    (hpid : (w.heap id).pid = none) (hwait : BcstWaits w)
    (hreg : cmdRegisterttyEvents sys id w = .ok () (told w l)) : Returns (monAddRegister sys id) w ↔
      (w.gbls.bcstflg = false → 1 < w.gbls.cmds.length →
        Creatable sys w.kern.names w.kern.calls (ttyNames (w.ttys .bcst))) ∧
      ((w.gbls.bcstflg = false → w.gbls.cmds.length ≤ 1) → (w.ttys .bcst).opens > 0 →
        Forkable sys w.kern) := by
  unfold Returns monAddRegister
  rw [bind_of_ok hreg]
  by_cases hnew : (told w l).gbls.bcstflg = false ∧ (told w l).gbls.cmds.length > 1
  · have hw := hwait hnew.1
    have hcreate {u : Unit} {w' : World} : bcstttyCreate sys (turnedOn (told w l)) = .ok u w' ↔ _ :=
      bcstttyCreate_iff sys (told w l) hw.1 hw.2
    constructor
    · rintro ⟨_, w', h⟩
      replace h := get_bind_eq_ok.mp h
      rw [if_pos hnew] at h
      obtain ⟨_, w₂, hrun, -⟩ := bind_eq_ok.mp (modify_bind_eq_ok.mp h)
      exact ⟨fun _ _ => (hcreate.mp hrun).1, fun hfew => absurd (hfew hnew.1) (not_le.mpr hnew.2)⟩
    · rintro ⟨h, -⟩
      have hfit := h hnew.1 hnew.2
      have hmade : TtyMade sys (createdTty sys .bcst (turnedOn (told w l))) .bcst :=
        createdTty_made hfit.unused
      obtain ⟨b, w₃, hbcst, -⟩ := ttyRegisterEvents_runs hmade
      have hrun : discard (ttyRegisterEvents sys .bcst) _ = .ok () w₃ := discard_eq_ok.mpr ⟨b, hbcst⟩
      refine ⟨(), w₃, get_bind_eq_ok.mpr ?_⟩
      rw [if_pos hnew]
      refine modify_bind_eq_ok.mpr ((bind_of_ok ((hcreate (u := ())).mpr ⟨hfit, rfl⟩)).trans ?_)
      refine get_bind_eq_ok.mpr (when_eq_ok.mpr (.inl ⟨?_, hrun⟩))
      have hobj : objects (createdTty sys .bcst (turnedOn (told w l))) = objects _ := objects_createdTty
      simp only [objects, Prod.mk.injEq] at hobj
      rw [hobj.1]
      rfl
  · have hfew : w.gbls.bcstflg = false → w.gbls.cmds.length ≤ 1 :=
      fun hoff => not_lt.mp fun hlen => hnew ⟨hoff, hlen⟩
    constructor
    · rintro ⟨_, w', h⟩
      refine ⟨fun hoff hlen => (hnew ⟨hoff, hlen⟩).elim, fun _ hopen => ?_⟩
      replace h := get_bind_eq_ok.mp h
      rw [if_neg hnew, when_pos (by exact hopen)] at h
      obtain ⟨b, hstart⟩ := discard_eq_ok.mp h
      exact (cmdStart_returns_iff.mp ⟨b, w', hstart⟩).2 hpid
    · rintro ⟨-, h⟩
      have hrest : Returns (when (((told w l).ttys .bcst).opens > 0)
          (discard (cmdStart sys id (.fin 0)))) (told w l) :=
        .when fun hopen => .discard (cmdStart_returns_iff.mpr ⟨⟨hup.dfd, hup.sfd⟩, fun _ => h hfew hopen⟩)
      obtain ⟨_, w', hrun⟩ := hrest
      refine ⟨(), w', get_bind_eq_ok.mpr ?_⟩
      rw [if_neg hnew]
      exact hrun

lemma monAddRegister_iff (hclt : TtyMade sys w (.clt id)) (hcmd : TtyMade sys w (.cmd id))
    (hpid : (w.heap id).pid = none) (hwait : BcstWaits w) : Returns (monAddRegister sys id) w ↔
      (Registrable sys (w.ttys (.clt id)) ∧ Registrable sys (w.ttys (.cmd id))) ∧
      (w.gbls.bcstflg = false → 1 < w.gbls.cmds.length →
        Creatable sys w.kern.names w.kern.calls (ttyNames (w.ttys .bcst))) ∧
      ((w.gbls.bcstflg = false → w.gbls.cmds.length ≤ 1) → (w.ttys .bcst).opens > 0 →
        Forkable sys w.kern) := by
  rw [← cmdRegisterttyEvents_iff hclt hcmd]
  constructor
  · intro h
    obtain ⟨u, w', hrun⟩ := h
    obtain ⟨_, w₁, hreg, -⟩ := bind_eq_ok.mp hrun
    obtain ⟨⟨l, rfl⟩, -, hup⟩ := cmdRegisterttyEvents_up hclt hcmd hreg
    exact ⟨⟨_, _, hreg⟩, (monAddRest_iff hup hpid hwait hreg).mp ⟨u, w', hrun⟩⟩
  · rintro ⟨⟨_, w₁, hreg⟩, h⟩
    obtain ⟨⟨l, rfl⟩, -, hup⟩ := cmdRegisterttyEvents_up hclt hcmd hreg
    exact (monAddRest_iff hup hpid hwait hreg).mpr h

lemma monAddRegister_up {u : Unit} (hclt : TtyMade sys w (.clt id)) (hcmd : TtyMade sys w (.cmd id))
    (hwait : BcstWaits w) (h : monAddRegister sys id w = .ok u w') :
    w'.gbls.cmds = w.gbls.cmds ∧ TtyUp sys w' (.clt id) ∧ TtyUp sys w' (.cmd id) := by
  have hm : Modifies (startParts id ∪ bcstParts) w w' :=
    monAddRegister_modifies sys id (fun _ hp => .inl hp) (fun _ hp => .inr hp) h
  refine ⟨hm.cmds_eq (by simp [startParts, bcstParts, ttyParts]), ?_⟩
  obtain ⟨_, w₁, hreg, h⟩ := bind_eq_ok.mp h
  obtain ⟨⟨l, rfl⟩, hupclt, hupcmd⟩ := cmdRegisterttyEvents_up hclt hcmd hreg
  replace h := get_bind_eq_ok.mp h
  split at h
  case isTrue hnew =>
    have hw := hwait hnew.1
    obtain ⟨_, w₂, hcreate, h⟩ := bind_eq_ok.mp (modify_bind_eq_ok.mp h)
    obtain ⟨hfit, rfl⟩ := (bcstttyCreate_iff sys (told w l) hw.1 hw.2).mp hcreate
    have htold := bcstttyRegisterEvents_told h
    exact ⟨htold.keeps (hupclt.createdTty (by simp) hfit.unused),
      htold.keeps (hupcmd.createdTty (by simp) hfit.unused)⟩
  case isFalse =>
    rcases when_eq_ok.mp h with ⟨-, h⟩ | ⟨-, rfl⟩
    · obtain ⟨b, hstart⟩ := discard_eq_ok.mp h
      rcases cmdStart_cases hstart with ⟨-, -, rfl⟩ | ⟨-, hf⟩
      · exact ⟨hupclt, hupcmd⟩
      · have hfm := hf.modifies
        have kept {r : TtyRef} (hup : TtyUp sys (told w l) r) : TtyUp sys w' r := by
          refine hup.of_kept (hfm.same (.tty r) (by simp [forkParts])) (fun q hq => ?_) fun e he => ?_
          · have hnames : w'.kern.names = (told w l).kern.names :=
              hfm.same .names (by simp [forkParts])
            rw [hnames]
            exact hq
          · rw [hf.interest]
            exact List.mem_append_left _ he
        exact ⟨kept hupclt, kept hupcmd⟩
    · exact ⟨hupclt, hupcmd⟩

/-! ## All or nothing -/

lemma listed_bcstWaits {s : Option CmdId} (h : BcstWaits w) : BcstWaits (listed sys spec w s) := by
  refine h.of_static fun hoff => ⟨?_, ?_⟩
  · rw [listed_gbls] at hoff
    exact hoff
  · rw [listed_tty (by simp) (by simp)]

lemma listed_next {s : Option CmdId} : (listed sys spec w s).kern.nextPid = w.kern.nextPid := by
  simp only [listed, addedTtys, createdTty_next]
  rfl

/-- The ttys of the new command can be registered when nothing is wrong with their descriptors. -/
lemma listed_registrable {s : Option CmdId} :
    (Registrable sys ((listed sys spec w s).ttys (.clt w.brk)) ∧
      Registrable sys ((listed sys spec w s).ttys (.cmd w.brk))) ↔
      ∀ fd ∈ watchedFds w.kern, sys.deaf fd = false := by
  have hnext : (createdTty sys (.clt w.brk) (filledIn spec w)).kern.nextFd = w.kern.nextFd + 3 :=
    createdTty_next.1
  have hclt : (addedTtys sys spec w).ttys (.clt w.brk) =
      (createdTty sys (.clt w.brk) (filledIn spec w)).ttys (.clt w.brk) := createdTty_ttys_of_ne (by simp)
  have hfd : (filledIn spec w).kern.nextFd = w.kern.nextFd := rfl
  simp only [listed, hclt]
  simp only [addedTtys, createdTty_tty, hnext, hfd, Registrable, watchedFds, Option.some.injEq]
  constructor
  · rintro ⟨hclt, hcmd⟩ fd hfd
    simp only [List.mem_cons, List.not_mem_nil, or_false] at hfd
    rcases hfd with rfl | rfl | rfl | rfl
    exacts [hclt _ (.inl rfl), hclt _ (.inr rfl), hcmd _ (.inl rfl), hcmd _ (.inr rfl)]
  · intro h
    constructor
    · rintro fd (rfl | rfl) <;> exact h _ (by simp)
    · rintro fd (rfl | rfl) <;> exact h _ (by simp)

/-- The rest of the addition returns when everything it needs can be had. -/
lemma monAddFits_iff {s : Option CmdId} (hcan : CanAdd sys (f.spec sys w) (parsed f w))
    (hwait : BcstWaits w) :
    Returns (monAddRegister sys w.brk) (listed sys (f.spec sys w) (parsed f w) s) ↔
      (∀ fd ∈ watchedFds w.kern, sys.deaf fd = false) ∧ BcstFits sys w f ∧ StartFits sys w := by
  have hmade := listed_made (s := s) hcan.ttys
  have hwait' : BcstWaits (listed sys (f.spec sys w) (parsed f w) s) :=
    listed_bcstWaits (show BcstWaits (parsed f w) from hwait)
  have hpid : ((listed sys (f.spec sys w) (parsed f w) s).heap w.brk).pid = none := by
    rw [listed_heap]
    simp [filledIn, World.updTty, World.updCmd, parsed, calledBy]
  refine (monAddRegister_iff hmade.1 hmade.2 hpid hwait').trans ?_
  refine and_congr listed_registrable ?_
  unfold Forkable
  rw [listed_gbls, listed_names, listed_calls, listed_tty (by simp) (by simp), listed_next]
  have hlen : 1 < (w.gbls.cmds ++ [w.brk]).length ↔ w.gbls.cmds ≠ [] := by
    rw [List.length_append, List.length_singleton, Nat.lt_add_left_iff_pos, List.length_pos_iff]
  have hfew : (w.gbls.cmds ++ [w.brk]).length ≤ 1 ↔ w.gbls.cmds = [] := by
    rw [← not_lt, hlen, not_not]
  exact and_congr (imp_congr_right fun _ => imp_congr_left hlen)
    (imp_congr_left (imp_congr_right fun _ => hfew))

/-- A failed addition leaves everything as it was unless it sweeps away one of yar's links. -/
lemma RolledBack.untouched_iff (hb : RolledBack sys spec w w') (ht : TableInv w) :
    Untouched w w' ↔ ∀ q ∈ entries sys (clientLinks w.gbls spec), ∀ r, OfTable w r →
      w.kern.names q ≠ some (.sym r) := by
  have hne {r : TtyRef} (hr : OfTable w r) : r ≠ .clt w.brk ∧ r ≠ .cmd w.brk := by
    rcases hr with rfl | ⟨id, hid, hr⟩
    · simp
    · have hid' : id ≠ w.brk := (ht.lt_brk id hid).ne
      rcases hr with rfl | rfl <;> simp [hid']
  constructor
  · intro h q hq r hr hsym
    have hkept := h.links r hr q hsym
    rw [hb.names, swept, if_pos ⟨hq, by simp [hsym]⟩] at hkept
    cases hkept
  · intro h
    refine ⟨hb.gbls, fun id hid => hb.heap id (ht.lt_brk id hid).ne, fun r hr => ?_, fun r hr => ?_,
      fun r hr q hq => ?_⟩
    · exact hb.ttys r (hne hr).1 (hne hr).2
    · exact hb.ports r (hne hr).1 (hne hr).2
    · rw [hb.names, swept, if_neg fun hmem => h q hmem.1 r hr hq]
      exact hq

/-- In every state that the loop comes to, the monitor's `add` is all or nothing exactly for the
specifications that are refused at once and those that nothing goes wrong with. -/
theorem all_or_nothing_iff {ok : World → Event → Prop} (hw : Reachable sys ok w) (cstr : CStr) :
    AllOrNothing sys w cstr ↔ ∀ f, Admitted sys w cstr f → Harmless sys w f := by
  have hl := reachable_loopReady hw
  have ht : TableInv w := reachable_tableInv hw
  by_cases hf : ∃ f, Admitted sys w cstr f
  · obtain ⟨f, hf⟩ := hf
    have hr : AddReady (parsed f w) := hl.addReady.parsed f
    have htp : TableInv (parsed f w) := ⟨ht.nodup, ht.lt_brk⟩
    constructor
    · rintro ⟨rc, w', hrun, hout⟩ g hg
      obtain rfl := hf.unique hg
      obtain ⟨o, w₁, hadd, h⟩ := bind_eq_ok.mp hrun
      rw [hf.eq] at hadd
      cases o with
      | none =>
        obtain ⟨rfl, rfl⟩ := pure_eq_ok.mp h
        obtain ⟨hlog, hcan, hb⟩ := GBLSAddNew_none hr hadd
        refine ⟨nonempty_eq_none.mp hlog, fun h => (hcan h).elim, fun h => (hcan h).elim,
          fun h => (hcan h).elim, fun h => (hcan h).elim, fun _ => ?_⟩
        rcases hout with ⟨hrc, -⟩ | ⟨-, hun⟩
        · cases hrc
        · exact (hb.untouched_iff htp).mp ⟨hun.gbls, hun.heap, hun.ttys, hun.ports, hun.links⟩
      | some id =>
        obtain ⟨_, w₂, hreg, h⟩ := bind_eq_ok.mp h
        obtain ⟨hcan, rfl, s, hs, rfl⟩ := GBLSAddNew_some hr hadd
        obtain ⟨hheard, hbcst, hstart⟩ := (monAddFits_iff hcan hl.bcst).mp ⟨_, _, hreg⟩
        exact ⟨nonempty_eq_none.mp hcan.log, fun _ => hcan.slowest, fun _ => hheard, fun _ => hbcst,
          fun _ => hstart, fun hno => (hno hcan.ttys).elim⟩
    · intro h
      have hh := h f hf
      have hlog : (f.spec sys w).log = none := nonempty_eq_none.mpr hh.log
      by_cases hcan : TtysCreatable sys (f.spec sys w) (parsed f w)
      · have hall : CanAdd sys (f.spec sys w) (parsed f w) := ⟨hlog, hcan, hh.slowest hcan⟩
        obtain ⟨s, hadd⟩ := GBLSAddNew_runs hr hall
        rw [← hf.eq] at hadd
        obtain ⟨_, w', hreg⟩ := (monAddFits_iff (s := s) hall hl.bcst).mpr
          ⟨hh.heard hcan, hh.bcst hcan, hh.start hcan⟩
        have hmade := listed_made (s := s) hcan
        obtain ⟨hcmds, hclt, hcmd⟩ := monAddRegister_up hmade.1 hmade.2
          (listed_bcstWaits (show BcstWaits (parsed f w) from hl.bcst)) hreg
        rw [listed_gbls] at hcmds
        refine ⟨0, w', (bind_of_ok hadd).trans ((bind_of_ok hreg).trans rfl), .inl ⟨rfl, w.brk, ?_,
          hcmds, hclt, hcmd⟩⟩
        exact fun hmem => (ht.lt_brk _ hmem).false
      · obtain ⟨o, w', hadd⟩ := GBLSAddNew_returns hr hlog fun h => (hcan h).elim
        cases o with
        | some id => exact (hcan (GBLSAddNew_some hr hadd).1.ttys).elim
        | none =>
          have hun := ((GBLSAddNew_none hr hadd).2.2.untouched_iff htp).mpr (hh.links hcan)
          rw [← hf.eq] at hadd
          exact ⟨-1, w', (bind_of_ok hadd).trans rfl,
            .inr ⟨rfl, hun.gbls, hun.heap, hun.ttys, hun.ports, hun.links⟩⟩
  · refine ⟨fun _ f hadm => (hf ⟨f, hadm⟩).elim, fun _ => ?_⟩
    obtain ⟨n, hadd⟩ := GBLSAddCmd_refused (not_exists.mp hf)
    refine ⟨-1, calledBy n w, (bind_of_ok hadd).trans rfl, .inr ⟨rfl, rfl, ?_, ?_, ?_, ?_⟩⟩
    · exact fun _ _ => rfl
    · exact fun _ _ => rfl
    · exact fun _ _ => rfl
    · exact fun _ _ _ hq => hq

theorem all_or_nothing_third : ∃ w, Reachable quietSys (fun _ _ => True) w ∧
    AllOrNothing quietSys w (bytes "c,/l,,1,z") := by
  let f : SpecFields := ⟨bytes "c", bytes "/l", [], bytes "1", bytes "z"⟩
  obtain ⟨w, hw, hp⟩ := exists_reachable quietSys (fun _ _ => True) slowFirst []
    (fun w => decide (w.gbls.slowestcmd = some 0 ∧ w.gbls.cmds = [0, 1] ∧ w.gbls.bcstflg = true ∧
      FreePaths quietSys w.kern.names (clientLinks w.gbls (f.spec quietSys w)))) (by decide +kernel)
  obtain ⟨hslow, hcmds, hflg, hfree⟩ := of_decide_eq_true hp
  refine ⟨w, hw, (all_or_nothing_iff hw _).mpr fun g hg => ?_⟩
  have hf : CommaFree f := ⟨by decide, by decide, by decide, by decide⟩
  obtain rfl : f = g := SpecFields.join_inj
    ((show bytes "c,/l,,1,z" = f.join by decide).symm.trans hg.1) hf hg.2.1.toCommaFree
  have hcan : TtysCreatable quietSys (f.spec quietSys w) (parsed f w) := ⟨hfree, fun _ _ => rfl⟩
  refine ⟨rfl, fun _ s hs => ?_, fun _ _ _ => rfl, fun _ hoff => ?_, fun _ _ _ => ⟨rfl, rfl⟩,
    fun hno => (hno hcan).elim⟩
  · rw [hslow] at hs
    simp [hcmds, (Option.some.inj hs).symm]
  · rw [hflg] at hoff
    cases hoff

/-- The addition fails and takes the link of the broadcast tty with it. -/
def sweepsBcst (w : World) : Bool :=
  match monAddRc quietSys (some (bytes "bcsttty,,,1,z")) w with
  | .ok rc w' => rc == -1 && decide (w.kern.names (bytes "/h/bcsttty") = some (.sym .bcst)) &&
    decide (w'.kern.names (bytes "/h/bcsttty") = none)
  | .error _ _ => false

theorem not_always_all_or_nothing :
    ¬∀ (sys : Sys) (w : World) (cstr : CStr), Reachable sys (fun _ _ => True) w →
      AllOrNothing sys w cstr := by
  intro hall
  obtain ⟨w, hw, hp⟩ := exists_reachable quietSys (fun _ _ => True) slowFirst [] sweepsBcst
    (by decide +kernel)
  obtain ⟨rc, w', hrun, hout⟩ := hall quietSys w (bytes "bcsttty,,,1,z") hw
  unfold sweepsBcst at hp
  rw [hrun] at hp
  simp only [Bool.and_eq_true, beq_iff_eq, decide_eq_true_eq] at hp
  obtain ⟨⟨hrc, hbefore⟩, hafter⟩ := hp
  rcases hout with ⟨hzero, -⟩ | ⟨-, hun⟩
  · rw [hrc] at hzero
    cases hzero
  · have hkept := hun.links .bcst (.inl rfl) _ hbefore
    rw [hafter] at hkept
    cases hkept

end Yar.Proofs
