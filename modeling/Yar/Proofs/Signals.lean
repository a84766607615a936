import Yar.Proofs.Runs
import Yar.Sigproc

/-!
# Signals and the end of the loop

There is an event to come for every signal that may still have to end the loop, as long as `sigEvent`
does not take out the one signal of the mask that it does not know.
-/

namespace Yar.Proofs

open Program Transition

variable {sys : Sys} {l l' : SigLoop} {e : SigEvent} {w w' : World} {s : Signal}

/-! ## The property -/

/-- The delivered events of the signalfd have been handled, and no other is due. -/
def EventsDone (l : SigLoop) : Prop := l.sigproc.edge = false ∧ .sig ∉ l.loop.batch

/-- Once the events have been handled the loop has ended, or else no signal has arrived and none is
queued. -/
def EndsLoop (l : SigLoop) : Prop :=
  EventsDone l → l.exited = false → l.arrived = [] ∧ l.sigproc.pending = []

/-- `sigEvent` takes out `SIGQUIT` only when another signal has arrived since its event was fetched. -/
def QuitFollowed (l : SigLoop) (e : SigEvent) : Prop :=
  match e with
  | .loop (.dispatch x) =>
    l.loop.batch.head? = some .sig → x.signo = .SIGQUIT → l.sigproc.edge = true
  | _ => True

/-! ## What sigEvent makes of a signal -/

lemma mem_mask (s : Signal) : s ∈ sigprocInit.mask := by cases s <;> decide

lemma sigEvent_quit (sys : Sys) : sigEvent sys s w = .ok () w' ↔ s = .SIGQUIT ∧ w' = w := by
  constructor
  · intro h
    cases s with
    | SIGQUIT => exact ⟨rfl, (pure_eq_ok.mp h).2⟩
    | _ =>
      obtain ⟨_, w₁, -, hthrow⟩ := bind_eq_ok.mp h
      exact (throw_eq_ok.mp hthrow).elim
  · rintro ⟨rfl, rfl⟩
    rfl

/-! ## Events and signals -/

/-- For each event of the signalfd, due or fetched, there is a signal to read. -/
structure SigInv (l : SigLoop) : Prop where
  registered : l.sigproc.registered = true
  nodup : l.loop.batch.Nodup
  events : l.sigproc.edge.toNat + l.loop.batch.count .sig ≤ l.sigproc.pending.length
  pending : ∀ s ∈ l.sigproc.pending, s ∈ l.arrived

/-- What a step of the loop does to the events of the signalfd. -/
inductive Seen (l : SigLoop) (e : LoopEvent) (batch' : List Source) (this' : Sigproc) : Prop where
  | other (hquit : QuitFollowed l (.loop e)) (hthis : this' = l.sigproc)
      (hcount : batch'.count .sig = l.loop.batch.count .sig)
  | fetched (hquit : QuitFollowed l (.loop e)) (hbatch : l.loop.batch = []) (hsig : .sig ∈ batch')
      (hedge : l.sigproc.edge = true) (hthis : this' = { l.sigproc with edge := false })
  | quit (x : Answer) (he : e = .dispatch x) (hs : x.signo = .SIGQUIT)
      (hbatch : l.loop.batch = .sig :: batch') (hread : x.signo ∈ l.sigproc.pending)
      (hthis : this' = l.sigproc.take x.signo)

lemma loop_seen {e : LoopEvent} {loop' : Loop} {this' : Sigproc} (hn : l.loop.batch.Nodup)
    (h : LoopStep sys l.loop e loop') (hfd : l.sigproc.Does l.loop.batch e this') :
    loop'.batch.Nodup ∧ Seen l e loop'.batch this' := by
  obtain ⟨⟨w, batch⟩, this, exited, arrived⟩ := l
  cases hfd with
  | env e' =>
    cases h
    exact ⟨hn, .other trivial rfl rfl⟩
  | unreported hsig =>
    cases h with
    | wait hf => exact ⟨hf.1, .other trivial rfl (List.count_eq_zero.mpr hsig)⟩
  | reported hsig hedge hread =>
    cases h with
    | wait hf => exact ⟨hf.1, .fetched trivial rfl hsig hedge rfl⟩
  | other x hhead =>
    cases h with
    | @dispatch _ w' src rest _ hh =>
      have hne : src ≠ .sig := fun heq => hhead (congrArg some heq)
      refine ⟨hn.of_cons, .other (fun hsig => (hhead hsig).elim) rfl ?_⟩
      exact (List.count_cons_of_ne hne).symm
  | read x hhead hs =>
    cases h with
    | @dispatch _ w' src rest _ hh =>
      obtain rfl := Option.some.inj hhead
      exact ⟨hn.of_cons, .quit x rfl ((sigEvent_quit sys).mp hh).1 rfl hs rfl⟩

lemma take_length {this : Sigproc} (h : s ∈ this.pending) :
    (this.take s).pending.length + 1 = this.pending.length := by
  rw [Sigproc.take, List.length_erase_of_mem h]
  exact Nat.sub_add_cancel (List.length_pos_of_mem h)

lemma arrive_cases (this : Sigproc) (s : Signal) :
    (s ∈ this.pending ∧ this.arrive s = this) ∨
      this.arrive s = { this with pending := this.pending ++ [s], edge := this.registered } := by
  by_cases hs : s ∈ this.pending
  · exact .inl ⟨hs, if_pos hs⟩
  · exact .inr (if_neg hs)

lemma SigInv.step (h : SigInv l) (hs : SigStep sys l e l') : SigInv l' := by
  cases hs with
  | arrive _ s hmask =>
    have hevents := h.events
    rcases arrive_cases l.sigproc s with ⟨hmem, harrive⟩ | harrive
    · refine ⟨?_, h.nodup, ?_, fun t ht => ?_⟩ <;> simp only [harrive] at *
      · exact h.registered
      · exact hevents
      · exact List.mem_append_left _ (h.pending t ht)
    · refine ⟨?_, h.nodup, ?_, fun t ht => ?_⟩ <;> simp only [harrive] at *
      · exact h.registered
      · have hle := Bool.toNat_le l.sigproc.registered
        rw [List.length_append, List.length_singleton]
        omega
      · rcases List.mem_append.mp ht with ht | ht
        · exact List.mem_append_left _ (h.pending t ht)
        · exact List.mem_append_right _ ht
  | loop hrun hloop hfd =>
    obtain ⟨hn, hseen⟩ := loop_seen h.nodup hloop hfd
    have hevents := h.events
    cases hseen with
    | other _ hthis hcount =>
      refine ⟨?_, hn, ?_, ?_⟩ <;> simp only [hthis, hcount]
      · exact h.registered
      · exact hevents
      · exact h.pending
    | fetched _ hbatch hsig hedge hthis =>
      refine ⟨?_, hn, ?_, ?_⟩ <;> simp only [hthis]
      · exact h.registered
      · have hcount := List.nodup_iff_count.mp hn Source.sig
        rw [hedge] at hevents
        simp only [Bool.toNat_true, Bool.toNat_false] at hevents ⊢
        omega
      · exact h.pending
    | quit x _ _ hbatch hread hthis =>
      refine ⟨?_, hn, ?_, fun t ht => ?_⟩ <;> simp only [hthis] at *
      · exact h.registered
      · have hlength := take_length hread
        rw [hbatch, List.count_cons_self] at hevents
        simp only [Sigproc.take] at hlength ⊢
        omega
      · exact h.pending t (List.mem_of_mem_erase ht)
  | @exit w w' rest this arrived x halt hread hx =>
    have hevents := h.events
    have hlength := take_length hread
    simp only [List.count_cons_self] at hevents
    refine ⟨h.registered, List.nodup_nil, ?_, fun t ht => h.pending t (List.mem_of_mem_erase ht)⟩
    simp only [Sigproc.take, List.count_nil] at hlength ⊢
    omega

/-- Nothing is on the ready list before the signalfd is registered. -/
lemma foldl_arrive {this : Sigproc} (signals : List Signal) (hreg : this.registered = false)
    (hedge : this.edge = false) :
    (signals.foldl Sigproc.arrive this).edge = false ∧
      ∀ s, s ∈ (signals.foldl Sigproc.arrive this).pending ↔ s ∈ this.pending ∨ s ∈ signals := by
  induction signals generalizing this with
  | nil => exact ⟨hedge, fun s => by simp⟩
  | cons a signals ih =>
    rw [List.foldl_cons]
    rcases arrive_cases this a with ⟨hmem, harrive⟩ | harrive
    · rw [harrive]
      obtain ⟨hedge', hpending⟩ := ih hreg hedge
      refine ⟨hedge', fun s => (hpending s).trans ?_⟩
      rw [List.mem_cons]
      constructor
      · rintro (h | h)
        · exact .inl h
        · exact .inr (.inr h)
      · rintro (h | rfl | h)
        · exact .inl h
        · exact .inl hmem
        · exact .inr h
    · rw [harrive]
      obtain ⟨hedge', hpending⟩ := @ih { this with pending := this.pending ++ [a], edge := this.registered }
        hreg hreg
      refine ⟨hedge', fun s => (hpending s).trans ?_⟩
      rw [List.mem_append, List.mem_singleton, List.mem_cons, or_assoc]

lemma started_pending (h : SigStarted sys l) (s : Signal) :
    s ∈ l.sigproc.pending ↔ s ∈ l.arrived := by
  obtain ⟨o, -, -, -, -, hfd⟩ := h
  rw [hfd, sigprocRegisterEvents]
  exact ((foldl_arrive l.arrived rfl rfl).2 s).trans (by simp [sigprocInit])

lemma started_sigInv (h : SigStarted sys l) : SigInv l := by
  have hpending := started_pending h
  obtain ⟨o, -, hbatch, -, -, hfd⟩ := h
  refine ⟨by rw [hfd, sigprocRegisterEvents], hbatch ▸ List.nodup_nil, ?_, fun s => (hpending s).mp⟩
  rw [hbatch, hfd, sigprocRegisterEvents]
  generalize (l.arrived.foldl Sigproc.arrive sigprocInit).pending = pending
  cases pending <;> simp

lemma reach_sigInv {ok : SigLoop → SigEvent → Prop} (hl : SigReachable sys ok l) : SigInv l :=
  hl.invariant (fun _ h => started_sigInv h) fun _ _ _ _ h _ hs => h.step hs

/-- An event that is handled finds a signal to read. -/
theorem signal_to_read {ok : SigLoop → SigEvent → Prop} (hl : SigReachable sys ok l)
    (hsig : .sig ∈ l.loop.batch) : l.sigproc.pending ≠ [] := by
  have hevents := (reach_sigInv hl).events
  have hcount := List.count_pos_iff.mpr hsig
  intro hnil
  rw [hnil, List.length_nil] at hevents
  omega

/-! ## The end of the loop -/

lemma started_endsLoop (h : SigStarted sys l) : EndsLoop l := by
  have hpending := started_pending h
  obtain ⟨o, -, -, -, -, hfd⟩ := h
  rintro ⟨hedge, -⟩ -
  have hnil : l.sigproc.pending = [] := by
    rw [hfd, sigprocRegisterEvents] at hedge ⊢
    simpa using hedge
  refine ⟨List.eq_nil_iff_forall_not_mem.mpr fun s hs => ?_, hnil⟩
  rw [← hpending s, hnil] at hs
  exact List.not_mem_nil hs

/-- A step leaves events behind that are due, unless the last of them is spent on `SIGQUIT`. -/
lemma SigInv.endsLoop_iff (h : SigInv l) (hends : EndsLoop l) (hs : SigStep sys l e l') :
    EndsLoop l' ↔ QuitFollowed l e := by
  cases hs with
  | arrive _ s hmask =>
    refine iff_of_true (fun ⟨hedge, hsig⟩ hrun => ?_) trivial
    rcases arrive_cases l.sigproc s with ⟨hmem, harrive⟩ | harrive
    · simp only [harrive] at hedge
      rw [(hends ⟨hedge, hsig⟩ hrun).2] at hmem
      exact (List.not_mem_nil hmem).elim
    · simp only [harrive, h.registered] at hedge
      cases hedge
  | loop hrun hloop hfd =>
    obtain ⟨hn, hseen⟩ := loop_seen h.nodup hloop hfd
    cases hseen with
    | other hquit hthis hcount =>
      refine iff_of_true (fun ⟨hedge, hsig⟩ _ => ?_) hquit
      simp only [hthis] at hedge ⊢
      refine hends ⟨hedge, fun hmem => hsig ?_⟩ hrun
      rw [← List.count_pos_iff, hcount]
      exact List.count_pos_iff.mpr hmem
    | fetched hquit _ hsig _ _ => exact iff_of_true (fun hdone _ => (hdone.2 hsig).elim) hquit
    | quit x he hquit hbatch hread hthis =>
      subst he
      have hno : Source.sig ∉ _ := (List.nodup_cons.mp (hbatch ▸ h.nodup)).1
      constructor
      · intro hends' _ _
        by_contra hedge
        rw [Bool.not_eq_true] at hedge
        have hdone := hends' ⟨by simp only [hthis, Sigproc.take, hedge], hno⟩ hrun
        have hmem := h.pending _ hread
        rw [show l.arrived = [] from hdone.1] at hmem
        exact List.not_mem_nil hmem
      · intro hfollowed hdone
        have hedge : l.sigproc.edge = true := hfollowed (by rw [hbatch]; rfl) hquit
        have hedge' := hdone.1
        simp only [hthis, Sigproc.take, hedge] at hedge'
        cases hedge'
  | @exit w w' rest this arrived x halt hread hx =>
    refine iff_of_true (fun _ hrun => (nomatch hrun)) fun _ hquit => ?_
    have hok : hdlr sys .sig x w = .ok () w := (sigEvent_quit sys).mpr ⟨hquit, rfl⟩
    rw [hok] at hx
    cases hx

/-- An event ends the loop, whatever signal of the others is read. -/
theorem event_exits (sys : Sys) {rest : List Source} {x : Answer} (hrun : l.exited = false)
    (hbatch : l.loop.batch = .sig :: rest) (hread : x.signo ∈ l.sigproc.pending)
    (hquit : x.signo ≠ .SIGQUIT) :
    ∃ l', SigStep sys l (.loop (.dispatch x)) l' ∧ l'.exited = true := by
  obtain ⟨⟨w, batch⟩, this, exited, arrived⟩ := l
  simp only at hrun hbatch hread
  subst hrun hbatch
  cases hx : hdlr sys .sig x w with
  | ok u w' => exact (hquit ((sigEvent_quit sys).mp hx).1).elim
  | error halt w' => exact ⟨_, .exit hread hx, rfl⟩

/-- In every run in which `sigEvent` takes out `SIGQUIT` only with another event of the signalfd to come,
the loop has ended once the events have been handled, if a signal has arrived at all. A step that takes
out `SIGQUIT` otherwise leaves the loop running. -/
theorem signals_end_loop (sys : Sys) (hl : SigReachable sys QuitFollowed l) :
    EndsLoop l ∧ ∀ e l', SigStep sys l e l' → (EndsLoop l' ↔ QuitFollowed l e) := by
  have hends : EndsLoop l := hl.invariant (fun _ h => started_endsLoop h) fun _ _ _ hr h hok hs =>
    ((reach_sigInv hr).endsLoop_iff h hs).mpr hok
  exact ⟨hends, fun e l' hs => (reach_sigInv hl).endsLoop_iff hends hs⟩

lemma started_of_run (sys : Sys) {o : Options} {p : World → Bool}
    (h : (runFrom sys (fun _ _ => True) o []).any p = true) : ∃ o w, Started sys o w ∧ p w = true := by
  obtain ⟨w, hw, hp⟩ := (Option.any_eq_true _ _).mp h
  unfold runFrom at hw
  split at hw
  · cases hw
    exact ⟨o, _, ‹_›, hp⟩
  · cases hw

lemma started_fetches : ∃ o w, Started quietSys o w ∧ Fetched w.kern [.sig] := by
  obtain ⟨o, w, hw, hp⟩ := started_of_run quietSys (o := {})
    (p := fun w => decide (Fetched w.kern [.sig])) (by decide +kernel)
  exact ⟨o, w, hw, of_decide_eq_true hp⟩

/-- One signal has arrived in the loop, and its event has been fetched. -/
lemma exists_fetched (s : Signal) : ∃ l, SigReachable quietSys (fun _ _ => True) l ∧ l.exited = false ∧
      l.loop.batch = [.sig] ∧ l.arrived = [s] ∧ l.sigproc.pending = [s] ∧ l.sigproc.edge = false := by
  obtain ⟨o, w, hw, hfetched⟩ := started_fetches
  let l₀ : SigLoop := { loop := { world := w }, sigproc := sigprocRegisterEvents sigprocInit }
  have hstart : SigReachable quietSys (fun _ _ => True) l₀ := .start ⟨o, hw, rfl, rfl, fun _ h => (nomatch h), rfl⟩
  have harrived := hstart.next trivial (.arrive l₀ s (mem_mask s))
  refine ⟨_, harrived.next trivial (.loop rfl (.wait hfetched) (.reported ?_ ?_ ?_)), rfl, rfl, rfl, ?_⟩
  · exact List.mem_singleton_self _
  · rfl
  · exact List.cons_ne_nil _ _
  · exact ⟨rfl, rfl⟩

/-- `SIGTERM` arrives once the event of `SIGQUIT` has been fetched: `sigEvent` takes out `SIGQUIT` first and
then, with an event of its own, `SIGTERM`, and the loop has ended. -/
theorem signals_end_loop_sigterm : ∃ l₀ l₁ l₂ l, SigReachable quietSys QuitFollowed l₀ ∧
    l₀.arrived = [.SIGQUIT, .SIGTERM] ∧ SigStep quietSys l₀ (.loop (.dispatch { signo := .SIGQUIT })) l₁ ∧
    l₁.exited = false ∧ SigStep quietSys l₁ (.loop (.wait [.sig])) l₂ ∧
    SigStep quietSys l₂ (.loop (.dispatch {})) l ∧ l.exited = true ∧ EndsLoop l := by
  obtain ⟨o, w, hw, hfetched⟩ := started_fetches
  let seen (batch : List Source) (pending : List Signal) (edge : Bool) (arrived : List Signal) : SigLoop :=
    ⟨⟨w, batch⟩, ⟨sigprocInit.mask, pending, true, edge⟩, false, arrived⟩
  have h₀ : SigReachable quietSys QuitFollowed (seen [] [] false []) :=
    .start ⟨o, hw, rfl, rfl, fun _ h => (nomatch h), rfl⟩
  have h₁ : SigReachable quietSys QuitFollowed (seen [] [.SIGQUIT] true [.SIGQUIT]) :=
    h₀.next (e := .arrive .SIGQUIT) trivial (.arrive _ _ (mem_mask _))
  have h₂ : SigReachable quietSys QuitFollowed (seen [.sig] [.SIGQUIT] false [.SIGQUIT]) :=
    h₁.next (e := .loop (.wait [.sig])) trivial
      (.loop rfl (.wait hfetched) (.reported (by simp) rfl (by simp [seen])))
  have h₃ : SigReachable quietSys QuitFollowed (seen [.sig] [.SIGQUIT, .SIGTERM] true [.SIGQUIT, .SIGTERM]) :=
    h₂.next (e := .arrive .SIGTERM) trivial (.arrive _ _ (mem_mask _))
  have hok : hdlr quietSys .sig { signo := .SIGQUIT } w = .ok () w := (sigEvent_quit quietSys).mpr ⟨rfl, rfl⟩
  have hquit : SigStep quietSys (seen [.sig] [.SIGQUIT, .SIGTERM] true [.SIGQUIT, .SIGTERM])
      (.loop (.dispatch { signo := .SIGQUIT })) (seen [] [.SIGTERM] true [.SIGQUIT, .SIGTERM]) :=
    .loop rfl (.dispatch hok) (.read _ rfl (by simp [seen]))
  have hwait : SigStep quietSys (seen [] [.SIGTERM] true [.SIGQUIT, .SIGTERM]) (.loop (.wait [.sig]))
      (seen [.sig] [.SIGTERM] false [.SIGQUIT, .SIGTERM]) :=
    .loop rfl (.wait hfetched) (.reported (by simp) rfl (by simp [seen]))
  obtain ⟨l, hexit, hexited⟩ := event_exits quietSys (l := seen [.sig] [.SIGTERM] false [.SIGQUIT, .SIGTERM])
    (x := {}) rfl rfl (by simp [seen]) (by decide)
  have hfollowed : QuitFollowed (seen [.sig] [.SIGQUIT, .SIGTERM] true [.SIGQUIT, .SIGTERM])
      (.loop (.dispatch { signo := .SIGQUIT })) := fun _ _ => rfl
  have hfollowed' : QuitFollowed (seen [.sig] [.SIGTERM] false [.SIGQUIT, .SIGTERM]) (.loop (.dispatch {})) :=
    fun _ h => nomatch h
  have hl : SigReachable quietSys QuitFollowed l :=
    .next (.next (e := .loop (.wait [.sig])) (.next h₃ hfollowed hquit) trivial hwait) hfollowed' hexit
  exact ⟨_, _, _, l, h₃, rfl, hquit, rfl, hwait, hexit, hexited, (signals_end_loop quietSys hl).1⟩

/-- `SIGQUIT` is blocked like the other signals and then ignored. -/
theorem signals_not_always_end_loop :
    ¬∀ (sys : Sys) (l : SigLoop), SigReachable sys (fun _ _ => True) l → EndsLoop l := by
  intro hall
  obtain ⟨l, hl, hrun, hbatch, harrived, hpending, hedge⟩ := exists_fetched .SIGQUIT
  obtain ⟨⟨w, batch⟩, this, exited, arrived⟩ := l
  simp only at hrun hbatch harrived hpending hedge
  subst hrun hbatch harrived
  have hread : Signal.SIGQUIT ∈ this.pending := hpending ▸ List.mem_singleton_self _
  have hok : hdlr quietSys .sig { signo := .SIGQUIT } w = .ok () w := (sigEvent_quit quietSys).mpr ⟨rfl, rfl⟩
  have hstep := SigStep.loop (l := ⟨⟨w, [.sig]⟩, this, false, [.SIGQUIT]⟩) rfl (.dispatch hok)
    (.read _ rfl hread)
  have hends := hall quietSys _ (hl.next trivial hstep) ⟨hedge, List.not_mem_nil⟩ rfl
  exact nomatch hends.1

/-- As long as the loop runs it is the loop of the other results. -/
theorem loopReachable_of_sig {ok : SigLoop → SigEvent → Prop} (hl : SigReachable sys ok l)
    (hrun : l.exited = false) : LoopReachable sys (fun _ _ => True) l.loop := by
  induction hl with
  | start h =>
    obtain ⟨o, hstarted, hbatch, -⟩ := h
    exact ⟨o, .start ⟨hstarted, hbatch⟩⟩
  | next _ _ hs ih =>
    cases hs with
    | arrive => exact ih hrun
    | loop hrun' hloop _ =>
      obtain ⟨o, hr⟩ := ih hrun'
      exact ⟨o, hr.next trivial hloop⟩
    | exit => exact nomatch hrun

end Yar.Proofs
