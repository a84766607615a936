import Yar.Proofs.HandlerFootprint

/-!
# Runs, one handler at a time

`hdlr_cases` says once which function a handled event comes down to, and
`reachable_invariant` carries an invariant from the options to every state of a run.
-/

namespace Yar.Proofs

open Program Transition

variable {S : Set Part} (sys : Sys)

/-! ## From the options to the loop -/

/-- The parts `main` works on besides the commands it adds. -/
def setupParts : Set Part := ttyParts .mon ∪ ttyParts .bcst ∪ {.flags}

lemma argsParseSpec_modifies (cmdspec : CStr) : Keeps (Modifies S) (argsParseSpec sys cmdspec) := by
  refine Keeps.bind (cmdspecParse_modifies sys _) fun spec => ?_
  cases spec with
  | none => exact Keeps.throw _
  | some spec => exact Keeps.pure _

lemma pidPath_modifies (g : Globals) (dir : Option CStr) (suffix : CStr) :
    Keeps (Modifies S) (pidPath sys g dir suffix) :=
  Keeps.ite (fun _ => Keeps.pure _) fun _ => exit_keeps sys

lemma freopen_modifies (path : Option CStr) (hn : .names ∈ S) : Keeps (Modifies S) (freopen sys path) := by
  refine Keeps.bind call_modifies fun k => Keeps.ite (fun _ => Keeps.pure _) fun _ => ?_
  cases path with
  | none => exact Keeps.pure _
  | some path =>
    refine Keeps.bind Keeps.get fun w => ?_
    split
    · exact Keeps.pure _
    · exact Keeps.pure _
    · exact Keeps.bind (names_modifies hn fun _ => ⟨rfl, rfl, rfl⟩) fun _ => Keeps.pure _

lemma logopen_modifies (hf : .flags ∈ S) (hn : .names ∈ S) : Keeps (Modifies S) (logopen sys) := by
  refine Keeps.bind (flags_modifies hf fun g => ?_) fun _ => Keeps.bind Keeps.get fun _ =>
    Keeps.bind call_modifies fun _ => Keeps.ite (fun _ => Keeps.pure _) fun _ =>
    Keeps.bind (freopen_modifies sys _ hn) fun _ => Keeps.ite (fun _ => Keeps.pure _) fun _ =>
    Keeps.bind (flags_modifies hf fun _ => ⟨rfl, rfl, rfl, rfl, rfl⟩) fun _ => freopen_modifies sys _ hn
  unfold Globals.setlogpath
  dsimp only
  split <;> exact ⟨rfl, rfl, rfl, rfl, rfl⟩

lemma logInit_modifies (hf : .flags ∈ S) (hn : .names ∈ S) : Keeps (Modifies S) (logInit sys) :=
  Keeps.bind Keeps.get fun _ =>
    Keeps.bind (Keeps.when fun _ => Keeps.bind call_modifies fun _ => Keeps.require _ _) fun _ =>
    Keeps.when fun _ => Keeps.bind (flags_modifies hf fun _ => ⟨rfl, rfl, rfl, rfl, rfl⟩) fun _ =>
    Keeps.bind (logopen_modifies sys hf hn) fun _ => Keeps.when fun _ => Keeps.throw _

variable {sys} in
lemma pidPath_ok {g : Globals} {dir : Option CStr} {suffix path : CStr} {w w' : World}
    (h : pidPath sys g dir suffix w = .ok path w') :
    path = dir.getD [] ++ bytes "/" ++ g.pid ++ suffix ∧ w' = w := by
  unfold pidPath at h
  split at h
  · exact pure_eq_ok.mp h
  · exact (exit_keeps (R := fun _ _ => False) sys h).elim

lemma monttyCreate_modifies (hS : ttyParts .mon ⊆ S) : Keeps (Modifies S) (monttyCreate sys) :=
  Keeps.bind Keeps.get fun _ => Keeps.bind (pidPath_modifies sys _ _ _) fun _ =>
    Keeps.bind (ttyInit_modifies _ _ _ _ _ (hS (by simp [ttyParts]))) fun _ =>
    Keeps.bind (ttyCreate_modifies sys hS) fun _ => Keeps.when fun _ => exit_keeps sys

lemma mkdir_modifies (path : CStr) (hn : .names ∈ S) : Keeps (Modifies S) (mkdir sys path) :=
  Keeps.bind call_modifies fun _ => Keeps.bind Keeps.get fun _ => Keeps.ite (fun _ => Keeps.pure _) fun _ =>
    Keeps.bind (names_modifies hn fun _ => ⟨rfl, rfl, rfl⟩) fun _ => Keeps.pure _

lemma fuse_session_mount_modifies (path : CStr) (hn : .names ∈ S) :
    Keeps (Modifies S) (fuse_session_mount sys path) :=
  Keeps.bind call_modifies fun _ => Keeps.ite (fun _ => Keeps.pure _) fun _ =>
    Keeps.bind (names_modifies hn fun _ => ⟨rfl, rfl, rfl⟩) fun _ => Keeps.pure _

lemma fsCreate_modifies (hf : .flags ∈ S) (hn : .names ∈ S) : Keeps (Modifies S) (fsCreate sys) :=
  Keeps.bind Keeps.get fun _ => Keeps.bind (pidPath_modifies sys _ _ _) fun _ =>
    Keeps.bind (flags_modifies hf fun _ => ⟨rfl, rfl, rfl, rfl, rfl⟩) fun _ =>
    Keeps.bind (mkdir_modifies sys _ hn) fun _ => Keeps.bind (Keeps.when fun _ => exit_keeps sys) fun _ =>
    Keeps.bind (flags_modifies hf fun _ => ⟨rfl, rfl, rfl, rfl, rfl⟩) fun _ =>
    Keeps.bind (fuse_session_mount_modifies sys _ hn) fun _ => Keeps.when fun _ => exit_keeps sys

lemma bcstttyInit_modifies (hS : bcstParts ⊆ S) : Keeps (Modifies S) (bcstttyInit sys) :=
  Keeps.bind (flags_modifies (hS (.inr (by simp))) fun _ => ⟨rfl, rfl, rfl, rfl, rfl⟩) fun _ =>
    Keeps.bind Keeps.get fun _ =>
    Keeps.bind (ttyInitLinked_modifies _ (hS (.inl (by simp [ttyParts])))) fun _ =>
    bcstttyCreate_modifies sys hS

/-- The registrations of `theLoop` keep what each of them keeps. -/
lemma theLoopRegister_keeps {sys : Sys} {R : World → World → Prop} [Std.Refl R] [IsTrans World R]
    (hadd : ∀ fd s, s = .sig ∨ s = .fs → Keeps R (epollAdd sys fd s))
    (htty : ∀ r, r = .mon ∨ r = .bcst → Keeps R (ttyRegisterEvents sys r))
    (hcmds : Keeps R (do (← get).gbls.cmds.forM (cmdRegisterttyEvents sys))) :
    Keeps R (theLoopRegister sys) :=
  Keeps.bind (hadd _ _ (.inl rfl)) fun _ => Keeps.bind (Keeps.require _ _) fun _ =>
    Keeps.bind (Keeps.discard (htty _ (.inl rfl))) fun _ =>
    Keeps.bind (Keeps.discard (hadd _ _ (.inr rfl))) fun _ =>
    Keeps.bind (Keeps.bind Keeps.get fun _ => Keeps.when fun _ => Keeps.discard (htty _ (.inr rfl)))
      fun _ => hcmds

lemma theLoopRegister_modifies {sys : Sys} (hk : .kproc ∈ S) : Keeps (Modifies S) (theLoopRegister sys) :=
  theLoopRegister_keeps (fun _ _ _ => epollAdd_modifies _ _ hk) (fun _ _ => ttyRegisterEvents_modifies _ hk)
    (Keeps.bind Keeps.get fun _ => Keeps.forM (fun id => cmdRegisterttyEvents_modifies id hk) _)

lemma monttyCreate_ok {w w' : World} {u : Unit} (h : monttyCreate sys w = .ok u w') :
    ∃ link w₁, link ≠ [] ∧ ttyInit .mon (some link) none none none none w = .ok () w₁ ∧
      ttyCreate sys .mon w₁ = .ok true w' := by
  replace h := get_bind_eq_ok.mp h
  obtain ⟨link, w₀, hpath, h⟩ := bind_eq_ok.mp h
  obtain ⟨_, w₁, hinit, h⟩ := bind_eq_ok.mp h
  obtain ⟨b, w₂, hcreate, h⟩ := bind_eq_ok.mp h
  obtain ⟨hlink, hw₀⟩ := pidPath_ok hpath
  rw [hw₀] at hinit
  refine ⟨link, w₁, by simp [hlink, bytes], hinit, ?_⟩
  rcases when_eq_ok.mp h with ⟨-, hexit⟩ | ⟨hb, hw⟩
  · exact (exit_keeps (R := fun _ _ => False) sys hexit).elim
  · rw [Bool.not_eq_false] at hb
    rw [hw, ← hb]
    exact hcreate

lemma bcstttyInit_ok {w w' : World} {u : Unit} (h : bcstttyInit sys w = .ok u w') :
    ∃ link w₁, link = w.gbls.bcstttylink.getD (cwdPrefix w.gbls (some (bytes "bcsttty"))) ∧
      ttyInitLinked .bcst link { w with gbls.bcstttylink := some link } = .ok () w₁ ∧
      (w₁.gbls.bcstflg = false ∧ w' = w₁ ∨
        w₁.gbls.bcstflg = true ∧ ttyCreate sys .bcst w₁ = .ok true w') := by
  replace h := get_bind_eq_ok.mp (modify_bind_eq_ok.mp h)
  obtain ⟨_, w₁, hinit, h⟩ := bind_eq_ok.mp h
  refine ⟨_, w₁, rfl, hinit, ?_⟩
  replace h := get_bind_eq_ok.mp h
  rcases when_eq_ok.mp h with ⟨hflg, h⟩ | ⟨hflg, hw⟩
  · obtain ⟨b, w₂, hcreate, h⟩ := bind_eq_ok.mp h
    rcases when_eq_ok.mp h with ⟨-, hexit⟩ | ⟨hb, hw⟩
    · exact (exit_keeps (R := fun _ _ => False) sys hexit).elim
    · rw [Bool.not_eq_false] at hb
      rw [hb] at hcreate
      exact .inr ⟨hflg, hw ▸ hcreate⟩
  · exact .inl ⟨by simpa using hflg, hw⟩

/-- The invariants of the seven stages of `main` carry over to `main`. `Q` holds until the broadcast tty
has been initialised and `P` from there on. -/
theorem main_preserves {P Q : World → Prop} (specs : List CStr)
    (hargs : ∀ s, Preserves Q (argsParseSpec sys s)) (hlog : Preserves Q (logInit sys))
    (hmon : Preserves Q (monttyCreate sys)) (hfs : Preserves Q (fsCreate sys))
    (hadd : ∀ s w id w', Q w → GBLSAddCmd sys s w = .ok (some id) w' → Q w')
    (hbcst : Keeps (fun w w' => Q w → P w') (bcstttyInit sys)) (hreg : Preserves P (theLoopRegister sys)) :
    Keeps (fun w w' => Q w → P w') (main sys specs) := by
  have hmainAdd (s : CStr) : Preserves Q (mainAddCmd sys s) := by
    intro w _ w' h hP
    obtain ⟨cmd, w₁, hcmd, h⟩ := bind_eq_ok.mp h
    obtain ⟨hsome, rfl⟩ := require_eq_ok.mp h
    obtain ⟨id, rfl⟩ := Option.isSome_iff_exists.mp hsome
    exact hadd s w id w' hP hcmd
  intro w _ w' h hw
  obtain ⟨_, w₁, hstage, h⟩ := bind_eq_ok.mp h
  replace hw := (Keeps.forM hargs _ : Preserves Q _) hstage hw
  obtain ⟨_, w₂, hstage, h⟩ := bind_eq_ok.mp h
  replace hw := hlog hstage hw
  obtain ⟨_, w₃, hstage, h⟩ := bind_eq_ok.mp h
  replace hw := hmon hstage hw
  obtain ⟨_, w₄, hstage, h⟩ := bind_eq_ok.mp h
  replace hw := hfs hstage hw
  obtain ⟨_, w₅, hstage, h⟩ := bind_eq_ok.mp h
  replace hw := (Keeps.forM hmainAdd _ : Preserves Q _) hstage hw
  obtain ⟨_, w₆, hstage, h⟩ := bind_eq_ok.mp h
  exact hreg h (hbcst hstage hw)

/-! ## What the surroundings change -/

def envParts : Env → Set Part
  | .opened r => {.notify r}
  | .closed r _ => {.notify r}
  | .typed r _ _ => {.hist r}
  | .exited _ _ => {.kproc}
  | .execed _ => {.kproc}

lemma push_hist (p : Port) (mask : Mask) :
    (p.push mask).hist = p.hist ∧ (p.push mask).nread = p.nread := by
  unfold Port.push
  split <;> exact ⟨rfl, rfl⟩

lemma apply_modifies (w : World) (e : Env) : Modifies (envParts e) w (e.apply w) := by
  have hport {S : Set Part} (r : TtyRef) (f : Port → Port)
      (hm : Keeps (Modifies S) (updPort r f)) : Modifies S w (w.updPort r f) :=
    hm (modify_eq_ok.mpr rfl : updPort r f w = .ok () _)
  have hkern (k : Kernel) (hc : k.calls = w.kern.calls) (hp : k.ports = w.kern.ports)
      (hn : k.names = w.kern.names) : Modifies {.kproc} w { w with kern := k } := by
    refine Modifies.of_same hc rfl fun p hp' => ?_
    cases p with
    | kproc => exact (hp' rfl).elim
    | names => exact hn
    | nread q => simp only [SameOn, hp]
    | hist q => simp only [SameOn, hp]
    | notify q => simp only [SameOn, hp]
    | _ => first | rfl | trivial
  cases e with
  | opened r =>
    exact hport (S := {.notify r}) r (fun p => { p with clients := p.clients + 1 }.push .IN_OPEN)
      (updPort_modifies (.inr fun p => (push_hist _ _).2) (.inr fun p => (push_hist _ _).1)
        (.inl rfl))
  | closed r wr =>
    simp only [Env.apply]
    split
    · exact refl_of _ w
    · exact hport r _ (updPort_modifies (.inr fun p => (push_hist _ _).2)
        (.inr fun p => (push_hist _ _).1) (.inl rfl))
  | typed r c p =>
    exact hport r (fun port => { port with hist := port.hist ++ [(c, p)] })
      (updPort_modifies (.inr fun _ => rfl) (.inl rfl) (.inr fun _ => rfl))
  | exited p status => exact hkern _ rfl rfl rfl
  | execed p => exact hkern _ rfl rfl rfl

/-! ## What handling an event comes down to -/

/-- The globals but for the flags a monitor command toggles. -/
def globalsCore (g : Globals) : Globals :=
  { g with restart := true, linebufferbcst := false, prefixbcst := false, verbose := 0, silent := true }

/-- The handler for `s` ran from `w` to `w'`: the function that did the work. -/
inductive Handled (s : Source) (x : Answer) (w w' : World) : Prop where
  | bcst (hs : s = .dom .bcst) (h : bcstttyEvent sys x.rd w = .ok () w')
  | clt (id : CmdId) (hs : s = .dom (.clt id)) (hid : id ∈ w.gbls.cmds)
      (h : cmdCltttyEvent sys id x.rd w = .ok () w')
  | cmd (id : CmdId) (hs : s = .dom (.cmd id)) (hid : id ∈ w.gbls.cmds)
      (h : cmdCmdttyEvent sys id x.rd w = .ok () w')
  | notify (r : TtyRef) (hs : s = .ifd r) (hid : ∀ id, r = .clt id ∨ r = .cmd id → id ∈ w.gbls.cmds)
      (h : ttyNotifyEvent sys r x.rd w = .ok () w')
  | pid (id : CmdId) (fd : Fd) (hs : s = .pidfd id fd) (hid : id ∈ w.gbls.cmds)
      (h : cmdPidEvent sys id w = .ok () w')
  | del (line name : CStr) (id : CmdId) (hs : s = .dom .mon) (hx : x.line = some line)
      (hl : monLookup line = some (.monDel, some name)) (hf : w.hashFind name = some id)
      (h : monDelFound sys id w = .ok () w')
  | add (line cmdstr : CStr) (hs : s = .dom .mon) (hx : x.line = some line)
      (hl : monLookup line = some (.monAdd, some cmdstr))
      (h : monAdd sys (some cmdstr) w = .ok () w')
  | drain (line : CStr) (args : Option CStr) (hs : s = .dom .mon) (hx : x.line = some line)
      (hl : monLookup line = some (.monDrain, args)) (h : monDrain sys w = .ok () w')
  | idleExit (line : CStr) (args : Option CStr) (hs : s = .dom .mon) (hx : x.line = some line)
      (hl : monLookup line = some (.monIdleExit, args)) (h : monIdleExit sys w = .ok () w')
  | toggle (line : CStr) (m : MonCmd) (args : Option CStr) (g : Globals) (hs : s = .dom .mon)
      (hx : x.line = some line) (hl : monLookup line = some (m, args))
      (hw : w' = { w with gbls := g }) (hcore : globalsCore g = globalsCore w.gbls)
      (hrestart : g.restart = w.gbls.restart ∨ m = .monToggleRestart)
      (hlb : g.linebufferbcst = w.gbls.linebufferbcst ∨ m = .monToggleLB)
  | idle (hs : s = .dom .mon ∨ s = .sig ∨ s = .fs) (hw : w' = w)

variable {sys} {s : Source} {x : Answer} {w w' : World}

lemma live_ok {id : CmdId} {m : Act Unit} (h : (live id >>= fun _ => m) w = .ok () w') :
    id ∈ w.gbls.cmds ∧ m w = .ok () w' := by
  obtain ⟨_, w₁, hlive, hm⟩ := bind_eq_ok.mp h
  unfold live at hlive
  have hreq := get_bind_eq_ok.mp hlive
  obtain ⟨hid, rfl⟩ := require_eq_ok.mp hreq
  exact ⟨hid, hm⟩

lemma monAdd_some (cmdstr : CStr) :
    monAdd sys (some cmdstr) = GBLSAddCmd sys cmdstr >>= (·.elim (pure ()) (monAddRegister sys)) := by
  unfold monAdd monAddRc
  rw [Functor.discard, map_const, Function.comp, map_bind]
  refine bind_congr fun res => ?_
  cases res with
  | none => rfl
  | some id =>
    dsimp only [Option.elim]
    rw [map_bind]
    simp

lemma sigEvent_ok {signo : Signal} (h : sigEvent sys signo w = .ok () w') : w' = w := by
  unfold sigEvent at h
  split at h
  · exact (pure_eq_ok.mp h).2
  · exact (exit_keeps (R := fun _ _ => False) sys h).elim

lemma monRun_cases {line : CStr} {m : MonCmd} {args : Option CStr} (hs : s = .dom .mon)
    (hx : x.line = some line) (hl : monLookup line = some (m, args))
    (h : monRun sys m args w = .ok () w') : Handled sys s x w w' := by
  have htoggle (f : Globals → Globals) (hf : ∀ g, globalsCore (f g) = globalsCore g)
      (hr : ∀ g, (f g).restart = g.restart ∨ m = .monToggleRestart)
      (hlb : ∀ g, (f g).linebufferbcst = g.linebufferbcst ∨ m = .monToggleLB)
      (h : updGbls f w = .ok () w') : Handled sys s x w w' :=
    .toggle line m args (f w.gbls) hs hx hl (modify_eq_ok.mp h) (hf _) (hr _) (hlb _)
  cases m with
  | monHelp => exact .idle (.inl hs) (pure_eq_ok.mp h).2
  | monList => exact .idle (.inl hs) (pure_eq_ok.mp h).2
  | monExit => exact (exit_keeps (R := fun _ _ => False) sys h).elim
  | monDel =>
    unfold monRun monDel at h
    replace h := get_bind_eq_ok.mp h
    cases args with
    | none => exact .idle (.inl hs) (pure_eq_ok.mp h).2
    | some name =>
      dsimp only at h
      cases hf : w.hashFind name with
      | none =>
        rw [hf] at h
        exact .idle (.inl hs) (pure_eq_ok.mp h).2
      | some id =>
        rw [hf] at h
        exact .del line name id hs hx hl hf h
  | monAdd =>
    cases args with
    | none => exact .idle (.inl hs) (pure_eq_ok.mp h).2
    | some cmdstr => exact .add line cmdstr hs hx hl h
  | monDrain => exact .drain line args hs hx hl h
  | monIdleExit => exact .idleExit line args hs hx hl h
  | monToggleRestart =>
    exact htoggle (fun g => { g with restart := !g.restart })
      (fun _ => rfl) (fun _ => .inr rfl) (fun _ => .inl rfl) h
  | monToggleLB =>
    exact htoggle (fun g => { g with linebufferbcst := !g.linebufferbcst })
      (fun _ => rfl) (fun _ => .inl rfl) (fun _ => .inr rfl) h
  | monTogglePrefix =>
    exact htoggle (fun g => { g with prefixbcst := !g.prefixbcst })
      (fun _ => rfl) (fun _ => .inl rfl) (fun _ => .inl rfl) h
  | monVerboseInc =>
    exact htoggle (fun g => { g with verbose := max (g.verbose + 1) 0 })
      (fun _ => rfl) (fun _ => .inl rfl) (fun _ => .inl rfl) h
  | monVerboseDec =>
    exact htoggle (fun g => { g with verbose := max (g.verbose - 1) 0 })
      (fun _ => rfl) (fun _ => .inl rfl) (fun _ => .inl rfl) h
  | monToggleSilent =>
    exact htoggle (fun g => { g with silent := !g.silent })
      (fun _ => rfl) (fun _ => .inl rfl) (fun _ => .inl rfl) h

lemma monProcess_cases {line : CStr} (hs : s = .dom .mon) (hx : x.line = some line)
    (h : monProcess sys line w = .ok () w') : Handled sys s x w w' := by
  unfold monProcess at h
  cases hl : monLookup line with
  | none =>
    rw [hl] at h
    exact .idle (.inl hs) (pure_eq_ok.mp h).2
  | some ma =>
    rw [hl] at h
    exact monRun_cases hs hx hl h

/-- The byte that completes a line has been read. -/
lemma hdlr_line (line : CStr) : hdlr sys (.dom .mon) { line := some line } = monProcess sys line := by
  simp [hdlr, require]

theorem hdlr_cases (h : hdlr sys s x w = .ok () w') : Handled sys s x w w' := by
  cases s with
  | dom r =>
    cases r with
    | bcst => exact .bcst rfl h
    | mon =>
      obtain ⟨-, h⟩ := require_bind_eq_ok.mp h
      cases hx : x.line with
      | none =>
        rw [hx] at h
        exact .idle (by simp) (pure_eq_ok.mp h).2
      | some line =>
        rw [hx] at h
        exact monProcess_cases rfl hx h
    | clt id => exact .clt id rfl (live_ok h).1 (live_ok h).2
    | cmd id => exact .cmd id rfl (live_ok h).1 (live_ok h).2
  | ifd r =>
    cases r with
    | bcst => exact .notify .bcst rfl (by simp) h
    | mon => exact .notify .mon rfl (by simp) h
    | clt id => exact .notify (.clt id) rfl (by simpa using (live_ok h).1) (live_ok h).2
    | cmd id => exact .notify (.cmd id) rfl (by simpa using (live_ok h).1) (live_ok h).2
  | pidfd id fd => exact .pid id fd rfl (live_ok h).1 (live_ok h).2
  | sig => exact .idle (by simp) (sigEvent_ok h)
  | fs => exact .idle (by simp) (pure_eq_ok.mp h).2

/-- An invariant holds in every state of a run when it holds after the options are read and is
kept by the seven stages of `main`, by the surroundings and by every handler. -/
theorem reachable_of_stages {ok : World → Event → Prop} {P Q : World → Prop}
    (hboot : ∀ o, Q (boot o)) (hargs : ∀ s, Preserves Q (argsParseSpec sys s))
    (hlog : Preserves Q (logInit sys)) (hmon : Preserves Q (monttyCreate sys)) (hfs : Preserves Q (fsCreate sys))
    (hadd : ∀ s w id w', Q w → GBLSAddCmd sys s w = .ok (some id) w' → Q w')
    (hbcst : Keeps (fun w w' => Q w → P w') (bcstttyInit sys)) (hreg : Preserves P (theLoopRegister sys))
    (henv : ∀ w e, Reachable sys ok w → P w → ok w (.env e) → P (Env.apply e w))
    (hhdlr : ∀ w s x w', Reachable sys ok w → P w → ok w (.hdlr s x) → Handled sys s x w w' → P w')
    (hw : Reachable sys ok w) : P w := by
  obtain ⟨o, hw⟩ := hw
  refine hw.invariant (fun w h => main_preserves sys o.specs hargs hlog hmon hfs hadd hbcst hreg h
    (hboot o)) ?_
  intro w e w' hr hP hok h
  cases e with
  | env e =>
    obtain rfl := modify_eq_ok.mp h
    exact henv w e ⟨o, hr⟩ hP hok
  | hdlr s x => exact hhdlr w s x w' ⟨o, hr⟩ hP hok (hdlr_cases h)

/-- For an invariant that does not depend on what `main` sets up besides the commands. -/
theorem reachable_invariant {ok : World → Event → Prop} {P : World → Prop}
    (hboot : ∀ o, P (boot o)) (hsetup : ∀ w w', Modifies setupParts w w' → P w → P w')
    (hadd : ∀ s, Preserves P (GBLSAddCmd sys s))
    (henv : ∀ w e, Reachable sys ok w → P w → ok w (.env e) → P (Env.apply e w))
    (hhdlr : ∀ w s x w', Reachable sys ok w → P w → ok w (.hdlr s x) → Handled sys s x w w' → P w')
    (hw : Reachable sys ok w) : P w := by
  have hmon : ttyParts .mon ⊆ setupParts := fun p hp => .inl (.inl hp)
  have hbcst : bcstParts ⊆ setupParts := by
    rintro p (hp | hp)
    · exact .inl (.inr hp)
    · exact .inr hp
  refine reachable_of_stages (P := P) (Q := P) hboot (fun s => ?_) ?_ ?_ ?_
    (fun s _ _ _ h ha => hadd s ha h) ?_ ?_ henv hhdlr hw
  · exact (argsParseSpec_modifies sys s).mono hsetup
  · exact (logInit_modifies sys (hbcst (.inr rfl)) (hmon (by simp [ttyParts]))).mono hsetup
  · exact (monttyCreate_modifies sys hmon).mono hsetup
  · exact (fsCreate_modifies sys (hbcst (.inr rfl)) (hmon (by simp [ttyParts]))).mono hsetup
  · exact (bcstttyInit_modifies sys hbcst).mono hsetup
  · exact (theLoopRegister_modifies (hmon (by simp [ttyParts]))).mono hsetup

end Yar.Proofs
