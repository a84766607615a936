import Mathlib.Data.List.Nodup
import Yar.Proofs.Io
import Yar.Proofs.Runs

/-!
# The input relay

`received` and `handed` are read off the trace: the bytes a command should get and the bytes it
was given. They agree for as long as no read that the relay acts on fails, because both callers
of `ttyReadChar` take its -1 for a byte.
-/

namespace Yar.Proofs

open Program

/-! ## What the trace says -/

/-- The command has been added and not been removed since. -/
def inTable (id : CmdId) : List Obs → Bool
  | [] => false
  | .added j :: t => j == id || inTable id t
  | .removed j :: t => j != id && inTable id t
  | _ :: t => inTable id t

/-- The bytes read from the client tty of a command, and from the broadcast tty while the
command was in the table, in the order of the reads. -/
def received (id : CmdId) : List Obs → CStr
  | [] => []
  | .read (.clt j) c :: t => if j = id then received id t ++ [c] else received id t
  | .read .bcst c :: t => if inTable id t then received id t ++ [c] else received id t
  | _ :: t => received id t

/-- The bytes the relay handed to the command's tty. -/
def handed (id : CmdId) : List Obs → CStr
  | [] => []
  | .relay j c _ :: t => if j = id then handed id t ++ [c] else handed id t
  | _ :: t => handed id t

/-- No read that the relay goes on to make fails. -/
def ReadsSucceed (sys : Sys) (w : World) (e : Event) : Prop :=
  match e with
  | .hdlr (.dom (.clt id)) x => cmdIsReady w.gbls (w.heap id) = true →
      tooEarly (sys.clock w.kern.calls) (some (w.heap id).lastwrite) (w.heap id).delay = false →
      ¬ReadFails w (.clt id) x.rd
  | .hdlr (.dom .bcst) x => ¬bcstGateShut w.gbls → ∀ s ∈ w.gbls.slowestcmd,
      tooEarly (sys.clock w.kern.calls) (some (w.heap s).lastwrite) (w.heap s).delay = false →
      ¬ReadFails w .bcst x.rd
  | _ => True

instance (sys : Sys) (w : World) (e : Event) : Decidable (ReadsSucceed sys w e) :=
  match e with
  | .hdlr (.dom (.clt _)) _ => inferInstanceAs (Decidable (_ → _ → ¬_))
  | .hdlr (.dom .bcst) _ => inferInstanceAs (Decidable (¬bcstGateShut w.gbls → _))
  | .env _ | .hdlr (.dom .mon) _ | .hdlr (.dom (.cmd _)) _ | .hdlr (.ifd _) _
  | .hdlr (.pidfd _ _) _ | .hdlr .sig _ | .hdlr .fs _ => .isTrue trivial

/-- The parts of the trace that `received` and `handed` look at. -/
def Part.ofRelay : Part → Bool
  | .oRelay | .oRead .bcst | .oRead (.clt _) => true
  | _ => false

variable {sys : Sys} {w w' : World} {S : Set Part} {l t : List Obs}

lemma inTable_append (id : CmdId)
    (hl : ∀ o ∈ l, obsPart o ≠ .oAdded ∧ obsPart o ≠ .oRemoved) :
    inTable id (l ++ t) = inTable id t := by
  induction l with
  | nil => rfl
  | cons o l ih =>
    have ih := ih fun o ho => hl o (List.mem_cons_of_mem _ ho)
    have ho := hl o List.mem_cons_self
    cases o <;> simp_all [inTable, obsPart]

lemma received_append (id : CmdId) (hl : ∀ o ∈ l, (obsPart o).ofRelay = false) :
    received id (l ++ t) = received id t := by
  induction l with
  | nil => rfl
  | cons o l ih =>
    have ih := ih fun o ho => hl o (List.mem_cons_of_mem _ ho)
    have ho := hl o List.mem_cons_self
    cases o with
    | read r c => cases r <;> simp_all [received, obsPart, Part.ofRelay]
    | _ => exact ih

lemma handed_append (id : CmdId) (hl : ∀ c τ, Obs.relay id c τ ∉ l) :
    handed id (l ++ t) = handed id t := by
  induction l with
  | nil => rfl
  | cons o l ih =>
    have ih := ih fun c τ ho => hl c τ (List.mem_cons_of_mem _ ho)
    cases o with
    | relay j c τ =>
      have hj : j ≠ id := by
        rintro rfl
        exact hl c τ List.mem_cons_self
      rw [List.cons_append, handed, if_neg hj, ih]
    | _ => exact ih

/-- The table can be read off the trace. -/
theorem reachable_inTable {ok : World → Event → Prop} (hw : Reachable sys ok w) (id : CmdId) :
    inTable id w.trace = true ↔ id ∈ w.gbls.cmds := by
  refine (reachable_table (P := fun w => ∀ id, inTable id w.trace = true ↔ id ∈ w.gbls.cmds)
    ?_ ?_ ?_ ?_ hw) id
  · simp [boot, inTable]
  · intro w w' _ h hk id
    obtain ⟨l, hl, hneutral⟩ := hk.trace
    rw [hl, inTable_append id hneutral, hk.cmds, h]
  · intro w w' j spec _ h ha id
    obtain ⟨l, hl, hlink⟩ := ha.trace
    have hneutral : ∀ o ∈ l, obsPart o ≠ .oAdded ∧ obsPart o ≠ .oRemoved := fun o ho => by
      simp [hlink o ho]
    rw [hl, ha.table, inTable, inTable_append id hneutral]
    by_cases hj : j = id
    · simp [hj]
    · simp [hj, Ne.symm hj, h]
  · intro w w' e j _ h _ _ _ hr id
    obtain ⟨l, hl, hclean⟩ := hr.trace
    have hneutral : ∀ o ∈ l, obsPart o ≠ .oAdded ∧ obsPart o ≠ .oRemoved := fun o ho => by
      constructor <;> intro heq <;>
        simpa [heq, cleanupParts, procParts, startParts, cmdParts, ttyParts] using hclean o ho
    rw [hl, hr.table, inTable, inTable_append id hneutral]
    by_cases hj : j = id
    · simp [hj]
    · simp [hj, Ne.symm hj, h]

/-! ## Handlers that relay nothing -/

def unrelayedParts : Set Part := {p | p.ofRelay = false}

lemma Modifies.relay_eq (hm : Modifies unrelayedParts w w') (id : CmdId) :
    received id w'.trace = received id w.trace ∧ handed id w'.trace = handed id w.trace := by
  obtain ⟨l, hl, hS⟩ := hm.trace
  rw [hl]
  refine ⟨received_append id hS, handed_append id fun c τ ho => ?_⟩
  cases hS _ ho

lemma procParts_unrelayed (id : CmdId) : procParts id ⊆ unrelayedParts := by
  rintro p ((rfl | rfl | rfl | rfl | rfl) | rfl | rfl) <;> rfl

lemma ttyParts_unrelayed (r : TtyRef) : ttyParts r ⊆ unrelayedParts := by
  rintro p (rfl | rfl | rfl | rfl | rfl | rfl | rfl | rfl) <;> rfl

lemma outputParts_unrelayed (id : CmdId) : outputParts id ⊆ unrelayedParts := by
  rintro p (rfl | rfl | rfl | rfl | rfl | rfl | rfl | rfl) <;> rfl

lemma cmdParts_unrelayed (id : CmdId) : cmdParts id ⊆ unrelayedParts := by
  rintro p ((hp | hp) | rfl | rfl | rfl | rfl | rfl | rfl)
  · exact ttyParts_unrelayed _ hp
  · exact ttyParts_unrelayed _ hp
  all_goals rfl

lemma addParts_unrelayed (id : CmdId) : addParts id ⊆ unrelayedParts := by
  rintro p (hp | rfl | rfl | rfl | rfl)
  · exact cmdParts_unrelayed id hp
  all_goals rfl

lemma removeParts_unrelayed (id : CmdId) : removeParts id ⊆ unrelayedParts := by
  rintro p ((hp | hp) | rfl | rfl)
  · exact procParts_unrelayed id hp
  · exact cmdParts_unrelayed id hp
  all_goals rfl

lemma bcstParts_unrelayed : bcstParts ⊆ unrelayedParts := by
  rintro p (hp | rfl)
  · exact ttyParts_unrelayed _ hp
  · rfl

lemma nedParts_unrelayed (r : TtyRef) : {.notify r, .opens r} ∪ nedParts r ⊆ unrelayedParts := by
  rintro p ((rfl | rfl) | hp)
  · rfl
  · rfl
  · cases r with
    | bcst =>
      obtain ⟨id, hp⟩ := hp
      exact procParts_unrelayed id hp
    | clt id => exact procParts_unrelayed id hp
    | mon => exact hp.elim
    | cmd id => exact hp.elim

lemma NotAdded.unrelayed (h : NotAdded w w') : Modifies unrelayedParts w w' := by
  refine h.modifies.mono ?_
  rintro p (hp | rfl)
  · exact cmdParts_unrelayed _ hp
  · rfl

/-- Only the client tty and the broadcast tty are relayed. -/
theorem Handled.unrelayed {s : Source} {x : Answer} (h : Handled sys s x w w')
    (hclt : ∀ id, s ≠ .dom (.clt id)) (hbcst : s ≠ .dom .bcst) :
    Modifies unrelayedParts w w' := by
  cases h with
  | bcst hs h => exact (hbcst hs).elim
  | clt id hs hid h => exact (hclt id hs).elim
  | cmd id hs hid h =>
    exact Keeps.discard (cmdttyProcessOutput_modifies sys _ (outputParts_unrelayed id)) h
  | notify r hs hid h => exact ttyNotifyEvent_modifies sys r (nedParts_unrelayed r) h
  | pid id fd hs hid h => exact cmdPidEvent_modifies sys (removeParts_unrelayed id) h
  | del line name id hs hx hl hf h => exact monDelFound_modifies sys (removeParts_unrelayed id) h
  | add line cmdstr hs hx hl h =>
    rcases monAdd_cases h with hn | ⟨id, spec, w₁, ha, hreg⟩
    · exact hn.unrelayed
    · exact trans_of _ (ha.modifies.mono (addParts_unrelayed id))
        (monAddRegister_modifies sys id (fun _ hp => procParts_unrelayed id (.inl hp))
          bcstParts_unrelayed hreg)
  | drain line args hs hx hl h => exact monDrain_modifies sys (fun id => outputParts_unrelayed id) h
  | idleExit line args hs hx hl h =>
    have hflags : Part.flags ∈ unrelayedParts := rfl
    have hdel : Part.delonexit ∈ unrelayedParts := rfl
    have hpolicy (id : CmdId) : Part.policy id ∈ unrelayedParts := rfl
    exact monIdleExit_modifies sys hflags hdel hpolicy h
  | toggle line m args g hs hx hl hw hcore hrestart hlb =>
    rw [hw]
    refine Modifies.of_same rfl rfl fun p hp => ?_
    cases p with
    | table => exact (congrArg Globals.cmds hcore :)
    | slowest => exact (congrArg Globals.slowestcmd hcore :)
    | readycount => exact (congrArg Globals.cmdsreadycnt hcore :)
    | options => exact (hp rfl).elim
    | delonexit => exact (congrArg Globals.cmddelonexit hcore :)
    | flags => exact (hp rfl).elim
    | _ => first | rfl | trivial
  | idle hs hw =>
    rw [hw]
    exact refl_of _ w

/-! ## The two handlers that do -/

lemma cmdRelay_forM_handed {c : Byte} {ids : List CmdId} {u : Unit} (id : CmdId)
    (h : (ids.forM fun j => cmdRelay sys j c) w = .ok u w') :
    received id w'.trace = received id w.trace ∧
      handed id w'.trace = handed id w.trace ++ List.replicate (ids.count id) c := by
  induction ids generalizing w with
  | nil =>
    rw [(pure_eq_ok.mp h).2]
    simp
  | cons j ids ih =>
    obtain ⟨_, w₁, hrelay, h⟩ := forM_cons_eq_ok.mp h
    obtain ⟨t, htrace, -⟩ := (cmdRelay_ok hrelay).noted
    obtain ⟨hrec, hhand⟩ := ih h
    rw [hrec, hhand, htrace]
    by_cases hj : j = id
    · simp [received, handed, hj, List.replicate_succ]
    · simp [received, handed, hj]

/-- The bytes handed over are the bytes received. -/
def RelayFaithful (w : World) : Prop := ∀ id, handed id w.trace = received id w.trace

lemma RelayFaithful.kept (h : RelayFaithful w) (hm : Modifies unrelayedParts w w') :
    RelayFaithful w' := by
  intro id
  rw [(hm.relay_eq id).1, (hm.relay_eq id).2, h id]

lemma cltttyEvent_faithful {id : CmdId} {x : Answer} (h : RelayFaithful w)
    (hok : ReadsSucceed sys w (.hdlr (.dom (.clt id)) x))
    (hh : cmdCltttyEvent sys id x.rd w = .ok () w') : RelayFaithful w' := by
  rcases cmdCltttyEvent_cases hh with ⟨-, rfl⟩ | ⟨hready, n, c, w₁, hread, hrest⟩
  · exact h
  cases hread with
  | delayed hearly hn hm =>
    obtain ⟨-, rfl⟩ := hrest.resolve_right fun hr => hr.1 hn
    exact h.kept (hm.mono (Set.empty_subset _))
  | eof hearly hn hdfd hrd hm =>
    obtain ⟨-, rfl⟩ := hrest.resolve_right fun hr => hr.1 hn
    exact h.kept (hm.mono (Set.empty_subset _))
  | failed hearly hn hfail hm hcalls => exact (hok hready hearly hfail).elim
  | got p rest hearly hn hdfd hrd hq hnread hm htrace hcalls =>
    obtain ⟨-, w₂, b, hrelay, hstop⟩ := hrest.resolve_left (by omega)
    obtain ⟨t, htrace₂, -⟩ := hrelay.noted
    refine RelayFaithful.kept (fun j => ?_)
      (cmdStop_modifies sys _ _ (procParts_unrelayed id) hstop)
    rw [htrace₂, htrace]
    by_cases hj : id = j
    · simp [handed, received, hj, h j]
    · simp [handed, received, hj, h j]

lemma bcstttyEvent_faithful {x : Answer} (h : RelayFaithful w) (ht : TableInv w)
    (htrace₀ : ∀ id, inTable id w.trace = true ↔ id ∈ w.gbls.cmds)
    (hok : ReadsSucceed sys w (.hdlr (.dom .bcst) x))
    (hh : bcstttyEvent sys x.rd w = .ok () w') : RelayFaithful w' := by
  rcases bcstttyEvent_cases hh with ⟨-, rfl⟩ | ⟨hopen, s, n, c, w₁, hs, -, hread, hrest⟩
  · exact h
  cases hread with
  | delayed hearly hn hm =>
    obtain ⟨-, rfl⟩ := hrest.resolve_right fun hr => hr.1 hn
    exact h.kept (hm.mono (Set.empty_subset _))
  | eof hearly hn hdfd hrd hm =>
    obtain ⟨-, rfl⟩ := hrest.resolve_right fun hr => hr.1 hn
    exact h.kept (hm.mono (Set.empty_subset _))
  | failed hearly hn hfail hm hcalls => exact (hok hopen s hs hearly hfail).elim
  | got p rest hearly hn hdfd hrd hq hnread hm htrace hcalls =>
    obtain ⟨-, hrelay⟩ := hrest.resolve_left (by omega)
    intro j
    replace hrelay := get_bind_eq_ok.mp hrelay
    obtain ⟨hrec, hhand⟩ := cmdRelay_forM_handed j hrelay
    have hcmds : w₁.gbls.cmds = w.gbls.cmds := hm.cmds_eq (by simp)
    rw [hrec, hhand, hcmds, htrace]
    by_cases hj : j ∈ w.gbls.cmds
    · simp [handed, received, (htrace₀ j).mpr hj, List.count_eq_one_of_mem ht.nodup hj, h j]
    · have hnot : inTable j w.trace = false := by
        rw [← Bool.not_eq_true]
        exact fun hin => hj ((htrace₀ j).mp hin)
      simp [handed, received, hnot, List.count_eq_zero_of_not_mem hj, h j]

/-- In a run in which no read that the relay makes fails, what it hands to a command is the
merge, in the order of the events, of what came in for the command. -/
theorem relay_faithful (hw : Reachable sys (ReadsSucceed sys) w) (id : CmdId) :
    handed id w.trace = received id w.trace := by
  refine reachable_induction (P := RelayFaithful) ?_ ?_ ?_ ?_ ?_ ?_ hw id
  · exact fun o id => rfl
  · intro w w' _ h hm
    refine h.kept (hm.mono ?_)
    rintro p ((hp | hp) | rfl)
    · exact ttyParts_unrelayed _ hp
    · exact ttyParts_unrelayed _ hp
    · rfl
  · exact fun w w' _ h hn => h.kept hn.unrelayed
  · exact fun w w' id spec _ h ha => h.kept (ha.modifies.mono (addParts_unrelayed id))
  · intro w e _ h _
    refine h.kept ((apply_modifies w e).mono fun p hp => ?_)
    cases e <;> rw [hp] <;> rfl
  · intro w s x w' hr ht h hok hh
    by_cases hbcst : s = .dom .bcst
    · subst hbcst
      refine bcstttyEvent_faithful h ht (reachable_inTable hr) hok ?_
      cases hh <;> simp_all
    · by_cases hclt : ∃ id, s = .dom (.clt id)
      · obtain ⟨id, rfl⟩ := hclt
        refine cltttyEvent_faithful h hok (?_ : cmdCltttyEvent sys id x.rd w = .ok () w')
        cases hh <;> simp_all
      · exact h.kept (hh.unrelayed (fun id hs => hclt ⟨id, hs⟩) hbcst)

/-- A read that fails is relayed all the same: a byte is handed over that was never read. -/
theorem failed_read_relayed {s : Source} {x : Answer} (h : RelayFaithful w)
    (hfail : ¬ReadsSucceed sys w (.hdlr s x)) (hh : Handled sys s x w w') : ¬RelayFaithful w' := by
  have longer {id : CmdId} {c : Byte} {n : Nat} (hn : 0 < n)
      (hrec : received id w'.trace = received id w.trace)
      (hhand : handed id w'.trace = handed id w.trace ++ List.replicate n c) :
      ¬RelayFaithful w' := by
    intro hcon
    have hlen := congrArg List.length (hcon id)
    rw [hrec, hhand, h id] at hlen
    simp at hlen
    omega
  cases hh with
  | bcst hs hb =>
    subst hs
    simp only [ReadsSucceed, not_forall, not_not] at hfail
    obtain ⟨hopen, s, hs, hearly, hfail⟩ := hfail
    obtain ⟨-, s', n, c, w₁, hs', hlive, hread, hrest⟩ :=
      (bcstttyEvent_cases hb).resolve_left fun hshut => hopen hshut.1
    obtain rfl : s' = s := Option.some.inj (hs'.symm.trans hs)
    obtain ⟨hn, hm⟩ := hread.of_fails hearly hfail
    obtain ⟨-, hrelay⟩ := hrest.resolve_left (by omega)
    replace hrelay := get_bind_eq_ok.mp hrelay
    obtain ⟨hrec, hhand⟩ := cmdRelay_forM_handed s' hrelay
    obtain ⟨hrec₁, hhand₁⟩ := (hm.mono (Set.empty_subset unrelayedParts)).relay_eq s'
    rw [hrec₁] at hrec
    rw [hhand₁, hm.cmds_eq (by simp)] at hhand
    exact longer (List.count_pos_iff.mpr hlive) hrec hhand
  | clt id hs hid hc =>
    subst hs
    simp only [ReadsSucceed, not_forall, not_not] at hfail
    obtain ⟨hready, hearly, hfail⟩ := hfail
    obtain ⟨-, n, c, w₁, hread, hrest⟩ := (cmdCltttyEvent_cases hc).resolve_left (by simp [hready])
    obtain ⟨hn, hm⟩ := hread.of_fails hearly hfail
    obtain ⟨-, w₂, b, hrelay, hstop⟩ := hrest.resolve_left (by omega)
    obtain ⟨t, htrace₂, -⟩ := hrelay.noted
    obtain ⟨hrec₁, hhand₁⟩ := (hm.mono (Set.empty_subset unrelayedParts)).relay_eq id
    obtain ⟨hrec₃, hhand₃⟩ :=
      Modifies.relay_eq (cmdStop_modifies sys _ _ (procParts_unrelayed id) hstop) id
    refine @longer id c 1 one_pos ?_ ?_
    · rw [hrec₃, htrace₂]
      simpa [received] using hrec₁
    · rw [hhand₃, htrace₂]
      simpa [handed] using hhand₁
  | cmd id hs => simp [hs, ReadsSucceed] at hfail
  | notify r hs => simp [hs, ReadsSucceed] at hfail
  | pid id fd hs => simp [hs, ReadsSucceed] at hfail
  | del line name id hs => simp [hs, ReadsSucceed] at hfail
  | add line cmdstr hs => simp [hs, ReadsSucceed] at hfail
  | drain line args hs => simp [hs, ReadsSucceed] at hfail
  | idleExit line args hs => simp [hs, ReadsSucceed] at hfail
  | toggle line m args g hs => simp [hs, ReadsSucceed] at hfail
  | idle hs => rcases hs with rfl | rfl | rfl <;> simp [ReadsSucceed] at hfail

/-- One command, opened by a client. -/
def oneCmd : Options where
  specs := [bytes "a,,,1,x"]
  cwd := bytes "/h"
  pid := bytes "7"

def openClt : List Event := [.env (.opened (.clt 0)), .hdlr (.ifd (.clt 0)) {}]

theorem relay_faithful_typed : ∃ w, Reachable quietSys (ReadsSucceed quietSys) w ∧
    received 0 w.trace = bytes "k" ∧ handed 0 w.trace = bytes "k" := by
  obtain ⟨w, hw, hp⟩ := exists_reachable quietSys (ReadsSucceed quietSys) oneCmd
    (openClt ++ [.env (.typed (.clt 0) 107 9), .hdlr (.dom (.clt 0)) {}])
    (fun w => decide (received 0 w.trace = bytes "k")) (by decide +kernel)
  exact ⟨w, hw, of_decide_eq_true hp, (relay_faithful hw 0).trans (of_decide_eq_true hp)⟩

theorem relay_not_always_faithful :
    ¬∀ (sys : Sys) (w : World), Reachable sys (fun _ _ => True) w →
      ∀ id, handed id w.trace = received id w.trace := by
  intro h
  obtain ⟨w, hw, hp⟩ := exists_reachable quietSys (fun _ _ => True) oneCmd
    (openClt ++ [.hdlr (.dom (.clt 0)) { rd := .again }])
    (fun w => decide (handed 0 w.trace = [63] ∧ received 0 w.trace = [])) (by decide +kernel)
  obtain ⟨hhand, hrec⟩ := of_decide_eq_true hp
  have heq := h quietSys w hw 0
  rw [hhand, hrec] at heq
  cases heq

end Yar.Proofs
