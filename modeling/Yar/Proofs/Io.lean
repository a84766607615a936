import Yar.Proofs.Table

/-!
# One read and one write of a tty

What `ttyReadChar`, `ttyWriteBuf` and `cmdRelay` do, said once for each way they can go.
-/

namespace Yar.Proofs

open Program

variable {sys : Sys} {w w' : World} {r : TtyRef}

/-! ## Reading -/

/-- A read of `r` now would neither yield a byte nor be the end of the file. -/
def ReadFails (w : World) (r : TtyRef) (rd : Read) : Prop :=
  (w.ttys r).dfd = none ∨ (rd = .ready ∧ (w.kern.ports r).domq = []) ∨ rd = .again ∨ rd = .fail

instance (w : World) (r : TtyRef) (rd : Read) : Decidable (ReadFails w r rd) :=
  inferInstanceAs (Decidable (_ ∨ _ ∨ _ ∨ _))

/-- The ways `ttyReadChar` can go. The clock is read first. -/
inductive ReadChar (sys : Sys) (w : World) (r : TtyRef) (ts : Option Time) (delay : Double)
    (rd : Read) (n : Int) (c : Byte) (w' : World) : Prop where
  | delayed (hearly : tooEarly (sys.clock w.kern.calls) ts delay = true) (hn : n = 0)
      (hm : Modifies ∅ w w')
  | got (p : Pid) (rest : List (Byte × Pid))
      (hearly : tooEarly (sys.clock w.kern.calls) ts delay = false) (hn : n = 1)
      (hdfd : (w.ttys r).dfd ≠ none) (hrd : rd = .ready)
      (hq : (w.kern.ports r).domq = (c, p) :: rest)
      (hnread : (w'.kern.ports r).nread = (w.kern.ports r).nread + 1)
      (hm : Modifies {.nread r, .oRead r} w w') (htrace : w'.trace = .read r c :: w.trace)
      (hcalls : w.kern.calls < w'.kern.calls)
  | eof (hearly : tooEarly (sys.clock w.kern.calls) ts delay = false) (hn : n = 0)
      (hdfd : (w.ttys r).dfd ≠ none) (hrd : rd = .eof) (hm : Modifies ∅ w w')
  | failed (hearly : tooEarly (sys.clock w.kern.calls) ts delay = false) (hn : n = -1)
      (hfail : ReadFails w r rd) (hm : Modifies ∅ w w') (hcalls : w.kern.calls < w'.kern.calls)

/-- The world after one more call. -/
def called (w : World) : World := { w with kern.calls := w.kern.calls + 1 }

@[simp] lemma called_calls (w : World) : (called w).kern.calls = w.kern.calls + 1 := rfl
@[simp] lemma called_ports (w : World) : (called w).kern.ports = w.kern.ports := rfl
@[simp] lemma called_ttys (w : World) : (called w).ttys = w.ttys := rfl
@[simp] lemma called_heap (w : World) : (called w).heap = w.heap := rfl
@[simp] lemma called_trace (w : World) : (called w).trace = w.trace := rfl

lemma called_modifies (w : World) : Modifies ∅ w (called w) :=
  call_modifies (rfl : call w = .ok w.kern.calls _)

lemma call_ok {k : Nat} (h : call w = .ok k w') : k = w.kern.calls ∧ w' = called w := by
  replace h := get_bind_eq_ok.mp h
  obtain ⟨_, w₁, hset, h⟩ := bind_eq_ok.mp h
  obtain ⟨rfl, rfl⟩ := pure_eq_ok.mp h
  exact ⟨rfl, set_eq_ok.mp hset⟩

lemma clock_gettime_ok {t : Time} (h : clock_gettime sys w = .ok t w') :
    t = sys.clock w.kern.calls ∧ w' = called w := by
  obtain ⟨k, w₁, hcall, h⟩ := bind_eq_ok.mp h
  obtain ⟨rfl, rfl⟩ := call_ok hcall
  obtain ⟨rfl, rfl⟩ := pure_eq_ok.mp h
  exact ⟨rfl, rfl⟩

/-- The ways a `read` of one byte can go. -/
inductive ReadOne (w : World) (r : TtyRef) (rd : Read) (n : Int) (c : Byte) (w' : World) : Prop where
  | got (p : Pid) (rest : List (Byte × Pid)) (hn : n = 1) (hdfd : (w.ttys r).dfd ≠ none)
      (hrd : rd = .ready) (hq : (w.kern.ports r).domq = (c, p) :: rest)
      (hnread : (w'.kern.ports r).nread = (w.kern.ports r).nread + 1)
      (htrace : w'.trace = .read r c :: w.trace)
  | eof (hn : n = 0) (hdfd : (w.ttys r).dfd ≠ none) (hrd : rd = .eof) (hm : Modifies ∅ w w')
  | failed (hn : n = -1) (hfail : ReadFails w r rd) (hm : Modifies ∅ w w')

lemma read_cases {rd : Read} {n : Int} {c : Byte} (h : read sys r rd w = .ok (n, c) w') :
    ReadOne w r rd n c w' ∧ w.kern.calls < w'.kern.calls := by
  obtain ⟨k, w₁, hcall, h⟩ := bind_eq_ok.mp h
  obtain ⟨rfl, rfl⟩ := call_ok hcall
  have hm := called_modifies w
  replace h := get_bind_eq_ok.mp h
  simp only [called_ttys, called_ports] at h
  have failed (hfail : ReadFails w r rd)
      (hr : (pure (-1, sys.junk w.kern.calls) : Act (Int × Byte)) (called w) = .ok (n, c) w') :
      ReadOne w r rd n c w' ∧ w.kern.calls < w'.kern.calls := by
    obtain ⟨hnc, rfl⟩ := pure_eq_ok.mp hr
    exact ⟨.failed (Prod.mk.inj hnc).1 hfail hm, Nat.lt_succ_self _⟩
  by_cases hdfd : (w.ttys r).dfd = none
  · simp only [hdfd, ↓reduceIte] at h
    exact failed (.inl hdfd) h
  simp only [hdfd, ↓reduceIte] at h
  cases rd with
  | again => exact failed (by simp [ReadFails]) h
  | fail => exact failed (by simp [ReadFails]) h
  | eof =>
    obtain ⟨hnc, rfl⟩ := pure_eq_ok.mp h
    exact ⟨.eof (Prod.mk.inj hnc).1 hdfd rfl hm, Nat.lt_succ_self _⟩
  | ready =>
    cases hq : (w.kern.ports r).domq with
    | nil =>
      simp only [hq] at h
      exact failed (by simp [ReadFails, hq]) h
    | cons cp rest =>
      simp only [hq] at h
      replace h := modify_bind_eq_ok.mp h
      replace h := modify_bind_eq_ok.mp h
      obtain ⟨hnc, rfl⟩ := pure_eq_ok.mp h
      obtain ⟨rfl, rfl⟩ := Prod.mk.inj hnc
      refine ⟨.got cp.2 rest rfl hdfd rfl hq ?_ rfl, Nat.lt_succ_self _⟩
      simp [World.updPort]

lemma ttyReadChar_cases {ts : Option Time} {delay : Double} {rd : Read} {n : Int} {c : Byte}
    (h : ttyReadChar sys r ts delay rd w = .ok (n, c) w') : ReadChar sys w r ts delay rd n c w' := by
  have hm : Modifies {.nread r, .oRead r} w w' :=
    ttyReadChar_modifies sys ts delay rd (by simp) (by simp) h
  obtain ⟨now, w₁, hclock, h⟩ := bind_eq_ok.mp h
  obtain ⟨rfl, rfl⟩ := clock_gettime_ok hclock
  have hm₁ := called_modifies w
  by_cases hearly : tooEarly (sys.clock w.kern.calls) ts delay = true
  · rw [if_pos hearly] at h
    have hcount : Keeps (Modifies ∅)
        (updTty r fun this => { this with delaycnt := this.delaycnt + 1 }) :=
      updTty_modifies (.inr fun _ => rfl) (.inr fun _ => rfl)
    obtain ⟨_, w₂, hupd, h⟩ := bind_eq_ok.mp h
    replace h := get_bind_eq_ok.mp h
    obtain ⟨hnc, rfl⟩ := pure_eq_ok.mp h
    exact .delayed hearly (Prod.mk.inj hnc).1 (trans_of _ hm₁ (hcount hupd))
  rw [if_neg hearly] at h
  rw [Bool.not_eq_true] at hearly
  obtain ⟨⟨n', c'⟩, w₂, hread, h⟩ := bind_eq_ok.mp h
  obtain ⟨hone, hcalls⟩ := read_cases hread
  have hlt : w.kern.calls < w₂.kern.calls := (Nat.lt_succ_self _).trans hcalls
  cases hone with
  | got p rest hn hdfd hrd hq hnread htrace =>
    rw [hn] at h
    replace h := modify_bind_eq_ok.mp h
    obtain ⟨hnc, rfl⟩ := pure_eq_ok.mp h
    obtain ⟨rfl, rfl⟩ := Prod.mk.inj hnc
    exact .got p rest hearly rfl hdfd hrd hq hnread hm htrace hlt
  | eof hn hdfd hrd hm₂ =>
    rw [hn] at h
    obtain ⟨hnc, rfl⟩ := pure_eq_ok.mp h
    exact .eof hearly (Prod.mk.inj hnc).1 hdfd hrd (trans_of _ hm₁ hm₂)
  | failed hn hfail hm₂ =>
    rw [hn] at h
    obtain ⟨hnc, rfl⟩ := pure_eq_ok.mp h
    exact .failed hearly (Prod.mk.inj hnc).1 hfail (trans_of _ hm₁ hm₂) hlt

lemma ReadChar.modifies {ts : Option Time} {delay : Double} {rd : Read} {n : Int} {c : Byte}
    (h : ReadChar sys w r ts delay rd n c w') : Modifies {.nread r, .oRead r} w w' := by
  cases h with
  | got p rest _ _ _ _ _ _ hm => exact hm
  | delayed _ _ hm => exact hm.mono (Set.empty_subset _)
  | eof _ _ _ _ hm => exact hm.mono (Set.empty_subset _)
  | failed _ _ _ hm => exact hm.mono (Set.empty_subset _)

/-- A read that is made and would fail does fail. -/
lemma ReadChar.of_fails {ts : Option Time} {delay : Double} {rd : Read} {n : Int} {c : Byte}
    (h : ReadChar sys w r ts delay rd n c w')
    (hearly : tooEarly (sys.clock w.kern.calls) ts delay = false) (hfail : ReadFails w r rd) :
    n = -1 ∧ Modifies ∅ w w' := by
  cases h with
  | delayed he hn hm => simp [hearly] at he
  | got p rest he hn hdfd hrd hq hnread hm htrace hcalls => simp [ReadFails, hdfd, hrd, hq] at hfail
  | eof he hn hdfd hrd hm => simp [ReadFails, hdfd, hrd] at hfail
  | failed he hn hf hm hcalls => exact ⟨hn, hm⟩

/-! ## Writing -/

/-- What a `ttyWriteBuf` that returns has done: the buffer was offered, and the time stamp was
set by the clock reading made after a write that took place. -/
structure Wrote (sys : Sys) (w : World) (r : TtyRef) (buf : CStr) (ts : Option CmdId) (n : Int)
    (w' : World) : Prop where
  count : n = -1 ∨ n = buf.length
  trace : w'.trace = .write r buf :: w.trace
  stamp : ∀ id ∈ ts, (w.ttys r).opens ≠ 0 → n = buf.length → ∃ k, w.kern.calls < k ∧
    k < w'.kern.calls ∧ (w'.heap id).lastwrite = sys.clock k
  discard : (w.ttys r).opens = 0 → ∀ id, (w'.heap id).lastwrite = (w.heap id).lastwrite
  later : ∀ id, (w'.heap id).lastwrite = (w.heap id).lastwrite ∨
    ∃ k, w.kern.calls ≤ k ∧ (w'.heap id).lastwrite = sys.clock k

lemma ttyMarkTime_ok {ts : Option CmdId} {u : Unit} (h : ttyMarkTime sys ts w = .ok u w') :
    w'.trace = w.trace ∧ (∀ id ∈ ts, w.kern.calls < w'.kern.calls ∧
        (w'.heap id).lastwrite = sys.clock w.kern.calls) ∧
      ∀ id, (w'.heap id).lastwrite = (w.heap id).lastwrite ∨
        (w'.heap id).lastwrite = sys.clock w.kern.calls := by
  cases ts with
  | none =>
    rw [(pure_eq_ok.mp h).2]
    exact ⟨rfl, by simp, fun _ => .inl rfl⟩
  | some id =>
    obtain ⟨now, w₁, hclock, h⟩ := bind_eq_ok.mp h
    obtain ⟨rfl, rfl⟩ := clock_gettime_ok hclock
    rw [modify_eq_ok.mp h]
    refine ⟨rfl, ?_, fun j => ?_⟩
    · rintro _ ⟨⟩
      simp [World.updCmd]
    · by_cases hj : j = id
      · exact .inr (by simp [World.updCmd, hj])
      · exact .inl (by simp [World.updCmd, hj])

lemma ttyWriteBuf_ok {buf : CStr} {ts : Option CmdId} {n : Int}
    (h : ttyWriteBuf sys r buf ts w = .ok n w') : Wrote sys w r buf ts n w' := by
  obtain ⟨_, w₀, hnote, h⟩ := bind_eq_ok.mp h
  have hw₀ := modify_eq_ok.mp hnote
  have htrace : w₀.trace = .write r buf :: w.trace := by rw [hw₀]
  have htty : w₀.ttys = w.ttys := by rw [hw₀]
  have hheap : w₀.heap = w.heap := by rw [hw₀]
  have hkern : w₀.kern = w.kern := by rw [hw₀]
  replace h := get_bind_eq_ok.mp h
  suffices hwrote : (n = -1 ∨ n = buf.length) ∧ w'.trace = w₀.trace ∧
      (∀ id ∈ ts, (w₀.ttys r).opens ≠ 0 → n = buf.length → ∃ k, w₀.kern.calls < k ∧
        k < w'.kern.calls ∧ (w'.heap id).lastwrite = sys.clock k) ∧
      ((w₀.ttys r).opens = 0 → ∀ id, (w'.heap id).lastwrite = (w₀.heap id).lastwrite) ∧
      ∀ id, (w'.heap id).lastwrite = (w₀.heap id).lastwrite ∨
        ∃ k, w₀.kern.calls ≤ k ∧ (w'.heap id).lastwrite = sys.clock k by
    rw [htrace, htty, hheap, hkern] at hwrote
    exact ⟨hwrote.1, hwrote.2.1, hwrote.2.2.1, hwrote.2.2.2.1, hwrote.2.2.2.2⟩
  by_cases hopens : (w₀.ttys r).opens ≠ 0
  · rw [if_pos hopens] at h
    obtain ⟨res, w₁, hwrite, h⟩ := bind_eq_ok.mp h
    obtain ⟨k, w₂, hcall, hwrite⟩ := bind_eq_ok.mp hwrite
    obtain ⟨rfl, rfl⟩ := call_ok hcall
    replace hwrite := get_bind_eq_ok.mp hwrite
    obtain ⟨-, rfl⟩ := pure_eq_ok.mp hwrite
    cases res with
    | again =>
      obtain ⟨rfl, rfl⟩ := pure_eq_ok.mp h
      refine ⟨.inl rfl, rfl, ?_, fun _ _ => rfl, fun _ => .inl rfl⟩
      intro id _ _ hn
      omega
    | error => exact (throw_eq_ok.mp h).elim
    | full =>
      obtain ⟨_, w₃, hmark, h⟩ := bind_eq_ok.mp h
      replace h := modify_bind_eq_ok.mp h
      obtain ⟨rfl, rfl⟩ := pure_eq_ok.mp h
      obtain ⟨htrace, hstamp, hlater⟩ := ttyMarkTime_ok hmark
      refine ⟨.inr rfl, htrace, ?_, fun h0 => (hopens h0).elim, fun id => ?_⟩
      · intro id hid _ _
        obtain ⟨hlt, hlast⟩ := hstamp id hid
        exact ⟨_, Nat.lt_succ_self _, hlt, hlast⟩
      · exact (hlater id).imp_right fun hlast => ⟨_, Nat.le_succ _, hlast⟩
  · rw [if_neg hopens] at h
    cases hd : ttyDiscard (w₀.ttys r) buf with
    | none =>
      rw [hd] at h
      exact (throw_eq_ok.mp h).elim
    | some t =>
      rw [hd] at h
      replace h := modify_bind_eq_ok.mp h
      obtain ⟨rfl, rfl⟩ := pure_eq_ok.mp h
      exact ⟨.inr rfl, rfl, fun _ _ h0 => (hopens h0).elim, fun _ _ => rfl, fun _ => .inl rfl⟩

/-- What `cmdRelay` has done: the byte is noted with the time of its write, or with none when
the command has nothing open to write to. -/
structure Relayed (sys : Sys) (id : CmdId) (c : Byte) (w w' : World) : Prop where
  modifies : Modifies {.lastwrite id, .oWrite (.cmd id), .oRelay} w w'
  noted : ∃ t, w'.trace = .relay id c t :: .write (.cmd id) [c] :: w.trace ∧
    ((w.ttys (.cmd id)).opens = 0 → t = none ∧ (w'.heap id).lastwrite = (w.heap id).lastwrite) ∧
    ((w.ttys (.cmd id)).opens ≠ 0 → ∃ k, w.kern.calls < k ∧ k < w'.kern.calls ∧
      t = some (sys.clock k) ∧ (w'.heap id).lastwrite = sys.clock k)

lemma cmdRelay_ok {id : CmdId} {c : Byte} {u : Unit} (h : cmdRelay sys id c w = .ok u w') :
    Relayed sys id c w w' := by
  have hm : Modifies {.lastwrite id, .oWrite (.cmd id), .oRelay} w w' :=
    cmdRelay_modifies sys c (by simp) (by simp) (by simp) h
  refine ⟨hm, ?_⟩
  replace h := get_bind_eq_ok.mp h
  obtain ⟨n, w₁, hwrite, h⟩ := bind_eq_ok.mp h
  obtain ⟨hn, hnote⟩ := require_bind_eq_ok.mp h
  replace hnote := get_bind_eq_ok.mp hnote
  have hw' := modify_eq_ok.mp hnote
  obtain ⟨-, htrace, hstamp, hdiscard, -⟩ := ttyWriteBuf_ok hwrite
  refine ⟨_, by rw [hw', htrace], ?_, ?_⟩
  · intro h0
    rw [if_neg (by simpa using h0), hw']
    exact ⟨rfl, hdiscard h0 id⟩
  · intro h0
    obtain ⟨k, hk, hk', hlast⟩ := hstamp id rfl h0 hn
    rw [if_pos h0, hw']
    exact ⟨k, hk, hk', by rw [hlast], hlast⟩

/-! ## The two ways in -/

/-- `cmdCltttyEvent`: nothing while the command is not ready, otherwise a read, and after a
read that does not return 0 the relay and the attempt to stop. -/
lemma cmdCltttyEvent_cases {id : CmdId} {rd : Read} {u : Unit}
    (h : cmdCltttyEvent sys id rd w = .ok u w') :
    (cmdIsReady w.gbls (w.heap id) = false ∧ w' = w) ∨
      (cmdIsReady w.gbls (w.heap id) = true ∧ ∃ n c w₁,
        ReadChar sys w (.clt id) (some (w.heap id).lastwrite) (w.heap id).delay rd n c w₁ ∧
        ((n = 0 ∧ w' = w₁) ∨ (n ≠ 0 ∧ ∃ w₂ b, Relayed sys id c w₁ w₂ ∧
          cmdStop sys id true false w₂ = .ok b w'))) := by
  replace h := get_bind_eq_ok.mp h
  rcases when_eq_ok.mp h with ⟨hready, h⟩ | ⟨hready, rfl⟩
  · obtain ⟨⟨n, c⟩, w₁, hread, h⟩ := bind_eq_ok.mp h
    refine .inr ⟨hready, n, c, w₁, ttyReadChar_cases hread, ?_⟩
    rcases when_eq_ok.mp h with ⟨hn, h⟩ | ⟨hn, rfl⟩
    · obtain ⟨_, w₂, hrelay, h⟩ := bind_eq_ok.mp h
      obtain ⟨b, hstop⟩ := discard_eq_ok.mp h
      exact .inr ⟨hn, w₂, b, cmdRelay_ok hrelay, hstop⟩
    · exact .inl ⟨by simpa using hn, rfl⟩
  · exact .inl ⟨by simpa using hready, rfl⟩

/-- `bcstttyEvent`: nothing while the gate is shut, otherwise a read paced by `slowestcmd`, and
after a read that does not return 0 the relay to the whole table. -/
lemma bcstttyEvent_cases {rd : Read} {u : Unit} (h : bcstttyEvent sys rd w = .ok u w') :
    (bcstGateShut w.gbls ∧ w' = w) ∨ (¬bcstGateShut w.gbls ∧ ∃ s n c w₁,
      w.gbls.slowestcmd = some s ∧ s ∈ w.gbls.cmds ∧
      ReadChar sys w .bcst (some (w.heap s).lastwrite) (w.heap s).delay rd n c w₁ ∧
      ((n = 0 ∧ w' = w₁) ∨ (n ≠ 0 ∧ GBLSCmdsWriteChar sys c w₁ = .ok u w'))) := by
  replace h := get_bind_eq_ok.mp h
  rcases when_eq_ok.mp h with ⟨hopen, h⟩ | ⟨hshut, rfl⟩
  · cases hs : w.gbls.slowestcmd with
    | none =>
      rw [hs] at h
      exact (throw_eq_ok.mp h).elim
    | some s =>
      rw [hs] at h
      obtain ⟨hlive, h⟩ := live_ok h
      obtain ⟨⟨n, c⟩, w₁, hread, h⟩ := bind_eq_ok.mp h
      refine .inr ⟨hopen, s, n, c, w₁, rfl, hlive, ttyReadChar_cases hread, ?_⟩
      rcases when_eq_ok.mp h with ⟨hn, h⟩ | ⟨hn, rfl⟩
      · exact .inr ⟨hn, h⟩
      · exact .inl ⟨by simpa using hn, rfl⟩
  · exact .inl ⟨not_not.mp hshut, rfl⟩

end Yar.Proofs
