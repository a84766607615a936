import Mathlib.Data.List.GetD
import Mathlib.Data.List.Infix
import Mathlib.Data.List.Induction
import Yar.Proofs.Runs

/-!
# The discards of a tty

What is written to a tty that nobody has open is counted in 64 bits and the first of it kept. The
position in `discards` is the count cut down to an `int`, so that it runs through the array once in
every 2^32 bytes and is negative for half of them.
-/

namespace Yar.Proofs

open Program

variable {sys : Sys} {w w' : World} {r : TtyRef} {this this' : Tty} {old buf : CStr}

/-- What happens up to a call of `ttyWriteBuf`, and its arguments. Between two calls the tty can be opened
and closed, written to while it is open, and read. -/
structure IdleCall where
  before : World → World
  buf : CStr
  ts : Option CmdId

/-- Nothing is discarded up to the call, and then the tty has nobody to read it. -/
def IdleCall.Idle (r : TtyRef) (c : IdleCall) : Prop :=
  ∀ w, ((c.before w).ttys r).opens = 0 ∧ ((c.before w).ttys r).discards = (w.ttys r).discards ∧
    ((c.before w).ttys r).wdbytes = (w.ttys r).wdbytes

def IdleCall.act (sys : Sys) (r : TtyRef) (c : IdleCall) : Act Unit := do
  modify c.before
  discard (ttyWriteBuf sys r c.buf c.ts)

/-- The bytes the calls were given. -/
def discarded (cs : List IdleCall) : CStr := cs.flatMap (·.buf)

/-- The tty has counted the bytes and holds the first of them. -/
structure HoldsFirst (this : Tty) (bytes : CStr) : Prop where
  count : this.wdbytes = bytes.length
  first : ∀ i c, i < 1024 → bytes[i]? = some c → this.discards i = c

/-- No call copies anything past the array, and after each of them the first bytes are there. -/
def DiscardsIntact (sys : Sys) (r : TtyRef) (w : World) (calls : List IdleCall) : Prop :=
  ∀ cs, cs <+: calls → ∃ w', cs.forM (IdleCall.act sys r) w = .ok () w' ∧
    HoldsFirst (w'.ttys r) (discarded cs)

/-- The bytes discarded before leave the call a place that is not below the array and that, once the
array has been filled, has its bytes already. -/
structure CallFits (old buf : CStr) : Prop where
  inside : old.length % 2 ^ 32 ≤ 2 ^ 31 + 1024
  same : 2 ^ 32 ≤ old.length → ∀ k c, old.length % 2 ^ 32 + k < 1024 → buf[k]? = some c →
    old[old.length % 2 ^ 32 + k]? = some c

/-! ## One call -/

/-- What a count becomes as an `int`. -/
lemma toInt_count (n : ℕ) : toInt n =
    if n % 2 ^ 32 < 2 ^ 31 then ((n % 2 ^ 32 : ℕ) : ℤ) else (n % 2 ^ 32 : ℕ) - 2 ^ 32 := by
  unfold toInt
  rw [Int.bmod_def]
  split <;> split <;> omega

/-- The room that is left behind a position. -/
lemma toInt_room (used : ℤ) (hlo : -2 ^ 31 ≤ used) (hhi : used < 2 ^ 31) :
    toInt (1024 - used) = if used ≤ 1024 - 2 ^ 31 then 1024 - used - 2 ^ 32 else 1024 - used := by
  unfold toInt
  rw [Int.bmod_def]
  split <;> split <;> omega

/-- The bytes go to the place the count gives, up to the end of the array. -/
lemma ttyDiscard_copies (this : Tty) (buf : CStr) (h : this.wdbytes % 2 ^ 32 < 1024) :
    ∃ this', ttyDiscard this buf = some this' ∧
      this'.wdbytes = (this.wdbytes + buf.length) % 2 ^ 64 ∧
      ∀ i < 1024, this'.discards i = if this.wdbytes % 2 ^ 32 ≤ i then
        buf.getD (i - this.wdbytes % 2 ^ 32) (this.discards i) else this.discards i := by
  have hused := toInt_count this.wdbytes
  rw [if_pos (by omega)] at hused
  generalize this.wdbytes % 2 ^ 32 = used at h hused
  have hfree : max (toInt (1024 - used)) 0 = 1024 - used := by
    rw [toInt_room used (by omega) (by omega), if_neg (by omega)]
    omega
  unfold ttyDiscard
  simp only [hused, hfree]
  rw [if_pos (by omega)]
  refine ⟨_, rfl, rfl, fun i hi => ?_⟩
  simp only
  by_cases hlow : used ≤ i
  · rw [if_pos hlow]
    by_cases hbuf : i - used < buf.length
    · have hidx : ((i : ℤ) - used).toNat = i - used := by omega
      rw [if_pos (by omega), hidx, List.getD_eq_getElem _ _ hbuf, List.getD_eq_getElem _ _ hbuf]
    · rw [if_neg (by omega), List.getD_eq_default _ _ (by omega)]
  · rw [if_neg hlow, if_neg (by omega)]

/-- There is no room. -/
lemma ttyDiscard_keeps (this : Tty) (buf : CStr) (hlow : 1024 ≤ this.wdbytes % 2 ^ 32)
    (hhigh : this.wdbytes % 2 ^ 32 ≤ 2 ^ 31 + 1024) : ∃ this', ttyDiscard this buf = some this' ∧
      this'.wdbytes = (this.wdbytes + buf.length) % 2 ^ 64 ∧ this'.discards = this.discards := by
  have hused := toInt_count this.wdbytes
  generalize this.wdbytes % 2 ^ 32 = count at hlow hhigh hused
  have hnb : min (buf.length : ℤ) (max (toInt (1024 - toInt this.wdbytes)) 0) = 0 := by
    simp only [hused]
    by_cases hsmall : count < 2 ^ 31
    · have hroom := toInt_room count (by omega) (by omega)
      rw [if_neg (by omega)] at hroom
      simp only [if_pos hsmall, hroom]
      omega
    · have hroom := toInt_room (count - 2 ^ 32) (by omega) (by omega)
      rw [if_pos (by omega)] at hroom
      simp only [if_neg hsmall, hroom]
      omega
  unfold ttyDiscard
  simp only [hnb, true_or, if_true, Int.add_zero]
  refine ⟨_, rfl, rfl, funext fun i => ?_⟩
  have hnone : ¬(toInt this.wdbytes ≤ i ∧ i < toInt this.wdbytes) := by omega
  simp only [if_neg hnone]

/-- The position is negative and there seems to be room. -/
lemma ttyDiscard_overflows (this : Tty) {buf : CStr} (hbuf : buf ≠ [])
    (h : 2 ^ 31 + 1024 < this.wdbytes % 2 ^ 32) : ttyDiscard this buf = none := by
  have hpos : 0 < buf.length := List.length_pos_iff.mpr hbuf
  have hmod : this.wdbytes % 2 ^ 32 < 2 ^ 32 := Nat.mod_lt _ (by decide)
  have hused := toInt_count this.wdbytes
  rw [if_neg (by omega)] at hused
  generalize this.wdbytes % 2 ^ 32 = count at h hmod hused
  have hroom := toInt_room (count - 2 ^ 32) (by omega) (by omega)
  rw [if_neg (by omega)] at hroom
  unfold ttyDiscard
  simp only [hused, hroom]
  exact if_neg (by omega)

/-! ## The bytes that are kept -/

lemma HoldsFirst.mod (h : HoldsFirst this old) : this.wdbytes % 2 ^ 32 = old.length % 2 ^ 32 := by
  rw [h.count]

/-- A discarded buffer leaves the first bytes in place exactly when it fits. -/
lemma HoldsFirst.discard_iff (h : HoldsFirst this old) (hbuf : buf ≠ [])
    (htotal : old.length + buf.length < 2 ^ 64) :
    (∃ this', ttyDiscard this buf = some this' ∧ HoldsFirst this' (old ++ buf)) ↔
      CallFits old buf := by
  have hcount (this' : Tty) (hw : this'.wdbytes = (this.wdbytes + buf.length) % 2 ^ 64) :
      this'.wdbytes = (old ++ buf).length := by
    rw [hw, h.count, List.length_append, Nat.mod_eq_of_lt htotal]
  by_cases hover : 2 ^ 31 + 1024 < old.length % 2 ^ 32
  · constructor
    · rintro ⟨this', hdiscard, -⟩
      rw [ttyDiscard_overflows this hbuf (h.mod ▸ hover)] at hdiscard
      cases hdiscard
    · intro hfits
      exact absurd hfits.inside (by omega)
  by_cases hroom : old.length % 2 ^ 32 < 1024
  · obtain ⟨this', hdiscard, hw, hcopied⟩ := ttyDiscard_copies this buf (h.mod ▸ hroom)
    rw [h.mod] at hcopied
    by_cases hold : 2 ^ 32 ≤ old.length
    · have hlt {i : ℕ} (hi : i < 1024) : i < old.length := by omega
      constructor
      · rintro ⟨this'', hdiscard', hfirst⟩
        obtain rfl := Option.some.inj (hdiscard.symm.trans hdiscard')
        refine ⟨by omega, fun _ k c hk hc => ?_⟩
        have hkept := hfirst.first _ _ hk (by
          rw [List.getElem?_append_left (hlt hk), List.getElem?_eq_getElem (hlt hk)])
        rw [hcopied _ hk, if_pos (Nat.le_add_right _ _), Nat.add_sub_cancel_left,
          List.getD_eq_getElem?_getD, hc, Option.getD_some] at hkept
        rw [List.getElem?_eq_getElem (hlt hk), hkept]
      · intro hfits
        refine ⟨this', hdiscard, hcount this' hw, fun i c hi hc => ?_⟩
        rw [List.getElem?_append_left (hlt hi)] at hc
        rw [hcopied i hi]
        by_cases hnew : old.length % 2 ^ 32 ≤ i
        · rw [if_pos hnew]
          cases hbyte : buf[i - old.length % 2 ^ 32]? with
          | none => rw [List.getD_eq_getElem?_getD, hbyte, Option.getD_none, h.first i c hi hc]
          | some c' =>
            have hsame := hfits.same hold (i - old.length % 2 ^ 32) c' (by omega) hbyte
            rw [Nat.add_sub_cancel' hnew, hc] at hsame
            rw [List.getD_eq_getElem?_getD, hbyte, Option.getD_some, Option.some.inj hsame]
        · rw [if_neg hnew, h.first i c hi hc]
    · have hlen : old.length % 2 ^ 32 = old.length := Nat.mod_eq_of_lt (by omega)
      rw [hlen] at hcopied hroom
      constructor
      · exact fun _ => ⟨by omega, fun hold' => (hold hold').elim⟩
      · intro _
        refine ⟨this', hdiscard, hcount this' hw, fun i c hi hc => ?_⟩
        rw [hcopied i hi]
        by_cases hnew : old.length ≤ i
        · rw [List.getElem?_append_right hnew] at hc
          rw [if_pos hnew, List.getD_eq_getElem?_getD, hc, Option.getD_some]
        · rw [List.getElem?_append_left (by omega)] at hc
          rw [if_neg hnew, h.first i c hi hc]
  · obtain ⟨this', hdiscard, hw, hkept⟩ := ttyDiscard_keeps this buf (by rw [h.mod]; omega)
      (by rw [h.mod]; omega)
    constructor
    · exact fun _ => ⟨by omega, fun _ k c hk => by omega⟩
    · intro _
      refine ⟨this', hdiscard, hcount this' hw, fun i c hi hc => ?_⟩
      have hmod := Nat.mod_le old.length (2 ^ 32)
      rw [List.getElem?_append_left (by omega)] at hc
      rw [hkept]
      exact h.first i c hi hc

lemma HoldsFirst.discard_nil (h : HoldsFirst this old) (htotal : old.length < 2 ^ 64) :
    ∃ this', ttyDiscard this [] = some this' ∧ HoldsFirst this' old := by
  have hnb : min ((List.length ([] : CStr) : ℕ) : ℤ) (max (toInt (1024 - toInt this.wdbytes)) 0) = 0 := by
    rw [List.length_nil]
    omega
  unfold ttyDiscard
  simp only [hnb, true_or, if_true, Int.add_zero]
  refine ⟨_, rfl, ?_, fun i c hi hc => ?_⟩
  · simp only [h.count, List.length_nil, Nat.add_zero, Nat.mod_eq_of_lt htotal]
  · have hnone : ¬(toInt this.wdbytes ≤ i ∧ i < toInt this.wdbytes) := by omega
    simp only [if_neg hnone]
    exact h.first i c hi hc

/-! ## Sequences of calls -/

lemma ttyWriteBuf_idle_iff {ts : Option CmdId} {n : ℤ} (hidle : (w.ttys r).opens = 0) :
    ttyWriteBuf sys r buf ts w = .ok n w' ↔ ∃ this, ttyDiscard (w.ttys r) buf = some this ∧
      n = buf.length ∧ w' = { w with trace := .write r buf :: w.trace }.updTty r fun _ => this := by
  unfold ttyWriteBuf
  refine modify_bind_eq_ok.trans (get_bind_eq_ok.trans ?_)
  generalize hnoted : ({ w with trace := .write r buf :: w.trace } : World) = w₀
  have htty : w₀.ttys r = w.ttys r := by rw [← hnoted]
  rw [htty, if_neg (not_not_intro hidle)]
  cases ttyDiscard (w.ttys r) buf with
  | none =>
    constructor
    · exact fun h => (throw_eq_ok.mp h).elim
    · rintro ⟨_, h, -⟩
      cases h
  | some this =>
    refine modify_bind_eq_ok.trans (pure_eq_ok.trans ?_)
    constructor
    · exact fun h => ⟨this, rfl, h⟩
    · rintro ⟨_, h, hn⟩
      cases h
      exact hn

lemma updTty_tty (w : World) (r : TtyRef) (this : Tty) : (w.updTty r fun _ => this).ttys r = this :=
  Function.update_self _ _ _

lemma discarded_append (cs : List IdleCall) (c : IdleCall) :
    discarded (cs ++ [c]) = discarded cs ++ c.buf := by
  simp [discarded]

lemma IdleCall.act_iff {c : IdleCall} (hc : c.Idle r) (h : HoldsFirst (w.ttys r) old)
    (htotal : old.length + c.buf.length < 2 ^ 64) :
    (∃ w', c.act sys r w = .ok () w' ∧ HoldsFirst (w'.ttys r) (old ++ c.buf)) ↔
      (c.buf ≠ [] → CallFits old c.buf) := by
  obtain ⟨hidle, hdiscards, hcount⟩ := hc w
  have hbefore : HoldsFirst ((c.before w).ttys r) old := by
    refine ⟨hcount.trans h.count, ?_⟩
    rw [hdiscards]
    exact h.first
  have hact : (∃ w', c.act sys r w = .ok () w' ∧ HoldsFirst (w'.ttys r) (old ++ c.buf)) ↔
      ∃ this, ttyDiscard ((c.before w).ttys r) c.buf = some this ∧ HoldsFirst this (old ++ c.buf) := by
    constructor
    · rintro ⟨w', hrun, hfirst⟩
      obtain ⟨n, hwrite⟩ := discard_eq_ok.mp (modify_bind_eq_ok.mp hrun)
      obtain ⟨this, hdiscard, -, rfl⟩ := (ttyWriteBuf_idle_iff hidle).mp hwrite
      rw [updTty_tty] at hfirst
      exact ⟨this, hdiscard, hfirst⟩
    · rintro ⟨this, hdiscard, hfirst⟩
      refine ⟨_, modify_bind_eq_ok.mpr (discard_eq_ok.mpr ⟨_, (ttyWriteBuf_idle_iff hidle).mpr
        ⟨this, hdiscard, rfl, rfl⟩⟩), ?_⟩
      rwa [updTty_tty]
  rw [hact]
  by_cases hbuf : c.buf = []
  · rw [hbuf, List.append_nil]
    exact iff_of_true (hbefore.discard_nil (by omega)) fun hne => (hne rfl).elim
  · rw [hbefore.discard_iff hbuf htotal]
    exact ⟨fun hfits _ => hfits, fun hfits => hfits hbuf⟩

lemma discarded_take {calls cs : List IdleCall} (hcs : cs <+: calls) : discarded cs <+: discarded calls := by
  obtain ⟨rest, rfl⟩ := hcs
  exact ⟨discarded rest, List.flatMap_append.symm⟩

lemma discarded_bound {calls cs : List IdleCall} {c : IdleCall} (hcs : cs ++ [c] <+: calls)
    (htotal : (discarded calls).length < 2 ^ 64) : (discarded cs).length + c.buf.length < 2 ^ 64 := by
  have hlen := (discarded_take hcs).length_le
  rw [discarded_append, List.length_append] at hlen
  omega

lemma mem_of_initial {calls cs : List IdleCall} {c : IdleCall} (hcs : cs ++ [c] <+: calls) :
    c ∈ calls :=
  hcs.subset (List.mem_append_right _ List.mem_cons_self)

lemma DiscardsIntact.fits {calls cs : List IdleCall} {c : IdleCall}
    (hall : DiscardsIntact sys r w calls) (hidle : ∀ c ∈ calls, c.Idle r)
    (htotal : (discarded calls).length < 2 ^ 64) (hcs : cs ++ [c] <+: calls) (hbuf : c.buf ≠ []) :
    CallFits (discarded cs) c.buf := by
  obtain ⟨w₁, hrun, hfirst⟩ := hall cs ((List.prefix_append _ _).trans hcs)
  obtain ⟨w₂, hrun', hfirst'⟩ := hall _ hcs
  obtain ⟨_, w₁', hrun₁, hstep⟩ := forM_concat_eq_ok.mp hrun'
  obtain ⟨-, rfl⟩ := EStateM.Result.ok.inj (hrun.symm.trans hrun₁)
  rw [discarded_append] at hfirst'
  exact (IdleCall.act_iff (hidle c (mem_of_initial hcs)) hfirst
    (discarded_bound hcs htotal)).mp ⟨w₂, hstep, hfirst'⟩ hbuf

/-- The first discarded bytes are kept, and nothing else is written, exactly as long as every call
fits. -/
theorem discards_intact_iff {calls : List IdleCall} (hidle : ∀ c ∈ calls, c.Idle r)
    (hfresh : (w.ttys r).wdbytes = 0) (htotal : (discarded calls).length < 2 ^ 64) :
    DiscardsIntact sys r w calls ↔
      ∀ cs c, cs ++ [c] <+: calls → c.buf ≠ [] → CallFits (discarded cs) c.buf := by
  constructor
  · exact fun hall cs c => hall.fits hidle htotal
  · intro hfits cs
    induction cs using List.reverseRecOn with
    | nil => exact fun _ => ⟨w, rfl, hfresh, fun _ _ _ hc => nomatch hc⟩
    | append_singleton cs c ih =>
      intro hcs
      obtain ⟨w₁, hrun, hfirst⟩ := ih ((List.prefix_append _ _).trans hcs)
      obtain ⟨w₂, hstep, hfirst'⟩ := (IdleCall.act_iff (hidle c (mem_of_initial hcs)) hfirst
        (discarded_bound hcs htotal)).mpr (hfits cs c hcs)
      refine ⟨w₂, forM_concat_eq_ok.mpr ⟨(), w₁, hrun, hstep⟩, ?_⟩
      rwa [discarded_append]

/-- A call on the broadcast tty, with nobody left to read it. -/
def bcstCall (buf : CStr) : IdleCall where
  before w := w.updTty .bcst fun this => { this with opens := 0 }
  buf := buf
  ts := none

lemma bcstCall_idle (buf : CStr) : (bcstCall buf).Idle .bcst := by
  intro w
  simp [bcstCall, World.updTty]

/-- The array runs full in the first call, and there is no room for the second one. -/
theorem discards_intact_full : DiscardsIntact quietSys .bcst {}
    [bcstCall (List.replicate 2000 120), bcstCall (bytes "abc"), bcstCall []] := by
  let calls := [bcstCall (List.replicate 2000 120), bcstCall (bytes "abc"), bcstCall []]
  have hidle : ∀ c ∈ calls, c.Idle .bcst := by
    rw [List.forall_mem_cons, List.forall_mem_cons, List.forall_mem_singleton]
    exact ⟨bcstCall_idle _, bcstCall_idle _, bcstCall_idle _⟩
  have htotal : (discarded calls).length = 2003 := by
    simp only [calls, discarded, bcstCall, List.flatMap_cons, List.flatMap_nil, List.length_append,
      List.length_replicate, List.append_nil]
    rfl
  refine (discards_intact_iff hidle rfl (by omega)).mpr fun cs c hcs _ => ?_
  have hlen : (discarded cs).length ≤ 2003 := by
    rw [← htotal]
    exact (discarded_take ((List.prefix_append _ _).trans hcs)).length_le
  exact ⟨by omega, fun hold => by omega⟩

lemma discarded_replicate (n : ℕ) : (discarded (List.replicate n (bcstCall [0]))).length = n := by
  simp [discarded, bcstCall]

/-- Single bytes, until there are as many as make the position negative. -/
lemma not_intact_of_long (n : ℕ) (h : 2 ^ 31 + 1024 < n % 2 ^ 32) (hn : n + 1 < 2 ^ 64) :
    ¬DiscardsIntact quietSys .bcst {} (List.replicate (n + 1) (bcstCall [0])) := by
  intro hall
  have hidle : ∀ c ∈ List.replicate (n + 1) (bcstCall [0]), c.Idle .bcst := by
    intro c hc
    rw [List.eq_of_mem_replicate hc]
    exact bcstCall_idle _
  have hlast : List.replicate n (bcstCall [0]) ++ [bcstCall [0]] <+:
      List.replicate (n + 1) (bcstCall [0]) := by
    rw [List.replicate_succ']
  have hfits := hall.fits hidle (by rwa [discarded_replicate]) hlast (List.cons_ne_nil _ _)
  have hinside := hfits.inside
  rw [discarded_replicate] at hinside
  omega

theorem discards_not_always_intact : ¬∀ (sys : Sys) (w : World) (r : TtyRef) (calls : List IdleCall),
    (∀ c ∈ calls, c.Idle r) → (w.ttys r).wdbytes = 0 → (discarded calls).length < 2 ^ 64 →
      DiscardsIntact sys r w calls := by
  intro hall
  refine not_intact_of_long (2 ^ 31 + 1025) (by decide) (by decide) (hall _ _ _ _ ?_ rfl ?_)
  · intro c hc
    rw [List.eq_of_mem_replicate hc]
    exact bcstCall_idle _
  · rw [discarded_replicate]
    decide

end Yar.Proofs
