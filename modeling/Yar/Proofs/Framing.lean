import Mathlib.Data.List.TakeDrop
import Yar.Lib.Split
import Yar.Mon

/-!
# Framing of the monitor's input

As long as no segment fills the line buffer, the monitor runs exactly the lines of its input. A
segment that fills it makes `monEvent` look behind the buffer, and what is left of the segment is
taken for a line of its own.
-/

namespace Yar.Proofs

open Program Mon

variable {m m' : Mon}

/-! ## The functions on the buffer -/

/-- The string `s` and its terminator stand in the buffer from `i` on. -/
def StrAt (line : Nat → Byte) (i : Nat) (s : CStr) : Prop :=
  match s with
  | [] => line i = 0
  | c :: s => line i = c ∧ c ≠ 0 ∧ StrAt line (i + 1) s

lemma strAt_iff {line : Nat → Byte} {i : Nat} {s : CStr} :
    StrAt line i s ↔ (List.range s.length).map (fun k => line (i + k)) = s ∧ 0 ∉ s ∧
      line (i + s.length) = 0 := by
  induction s generalizing i with
  | nil => simp [StrAt]
  | cons c s ih =>
    simp only [StrAt, ih, List.length_cons, List.range_succ_eq_map, List.map_cons, List.map_map,
      List.cons.injEq, List.mem_cons, not_or, add_zero]
    have hfun : (fun k => line (i + k)) ∘ Nat.succ = fun k => line (i + 1 + k) := by
      funext k
      exact congrArg line (by omega)
    rw [hfun, show i + (s.length + 1) = i + 1 + s.length by omega]
    constructor
    · rintro ⟨hc, h0, hs, hmem, hend⟩
      exact ⟨⟨hc, hs⟩, ⟨Ne.symm h0, hmem⟩, hend⟩
    · rintro ⟨⟨hc, hs⟩, ⟨h0, hmem⟩, hend⟩
      exact ⟨hc, Ne.symm h0, hs, hmem, hend⟩

/-- Every access so far was inside the buffer. -/
def InBounds (m : Mon) : Prop := ∀ i ∈ m.touched, i < monLinelen

/-- The buffer has been looked at and maybe cut at a space, inside its bounds. -/
structure Scanned (m m' : Mon) : Prop where
  n : m'.n = m.n
  lines : m'.lines = m.lines
  ran : m'.ran = m.ran
  path0 : m'.path0 = m.path0
  inBounds : InBounds m → InBounds m'

instance : Std.Refl Scanned where
  refl _ := ⟨rfl, rfl, rfl, rfl, id⟩

instance : IsTrans Mon Scanned where
  trans _ _ _ h h' := ⟨h'.n.trans h.n, h'.lines.trans h.lines, h'.ran.trans h.ran,
    h'.path0.trans h.path0, h'.inBounds ∘ h.inBounds⟩

/-- The state after an access to `line[i]`. -/
def accessed (m : Mon) (i : Nat) : Mon := { m with touched := i :: m.touched }

lemma InBounds.accessed {i : Nat} (h : InBounds m) (hi : i < monLinelen) :
    InBounds (accessed m i) := by
  intro j hj
  rcases List.mem_cons.mp hj with rfl | hj
  · exact hi
  · exact h j hj

/-- The state after a write to `line[i]`. -/
def putAt (m : Mon) (i : Nat) (c : Byte) : Mon :=
  { accessed m i with line := Function.update m.line i c }

lemma linePut_ok (m : Mon) (i : Nat) (c : Byte) : linePut i c m = .ok () (putAt m i c) := rfl

lemma accessed_scanned {i : Nat} (hi : i < monLinelen) : Scanned m (accessed m i) :=
  ⟨rfl, rfl, rfl, rfl, fun h => h.accessed hi⟩

lemma lineGet_ok {i : Nat} (hi : i < monLinelen) : lineGet i m = .ok (m.line i) (accessed m i) := by
  change EStateM.Result.ok (if i < monLinelen then m.line i else m.path0) (accessed m i) = _
  rw [if_pos hi]

lemma lineStr_ok {s : CStr} {i k : Nat} (hs : StrAt m.line i s) (hi : i + s.length < monLinelen)
    (hk : s.length < k) : ∃ m', lineStr k i m = .ok s m' ∧ Scanned m m' := by
  induction s generalizing i k m with
  | nil =>
    rw [List.length_nil, add_zero] at hi
    obtain ⟨k, rfl⟩ := Nat.exists_eq_succ_of_ne_zero (Nat.ne_zero_of_lt hk)
    refine ⟨accessed m i, ?_, accessed_scanned hi⟩
    rw [lineStr, bind_of_ok (lineGet_ok hi), if_pos (show m.line i = 0 from hs)]
    rfl
  | cons c s ih =>
    rw [List.length_cons] at hi hk
    obtain ⟨k, rfl⟩ := Nat.exists_eq_succ_of_ne_zero (Nat.ne_zero_of_lt hk)
    obtain ⟨hc, h0, hs⟩ := hs
    obtain ⟨m₁, hrun, hm⟩ := ih (m := accessed m i) (i := i + 1) (k := k) hs (by omega) (by omega)
    refine ⟨m₁, ?_, trans_of Scanned (accessed_scanned (by omega)) hm⟩
    rw [lineStr, bind_of_ok (lineGet_ok (by omega)), hc, if_neg h0, bind_of_ok hrun]
    rfl

/-! ## `monSplit` one byte at a time -/

lemma monSplit_space (s : CStr) : monSplit (32 :: s) = ([], some s) := by
  simp [monSplit, List.span_eq_takeWhile_dropWhile]

lemma monSplit_cons {c : Byte} (hc : c ≠ 32) (s : CStr) :
    monSplit (c :: s) = (c :: (monSplit s).1, (monSplit s).2) := by
  have hb : (c != 32) = true := by simpa using hc
  simp only [monSplit, List.span_eq_takeWhile_dropWhile, List.takeWhile_cons, List.dropWhile_cons,
    hb, if_true]
  cases List.dropWhile (fun x => x != 32) s <;> rfl

lemma monSplit_length_le (s : CStr) : (monSplit s).1.length ≤ s.length := by
  induction s with
  | nil => exact le_rfl
  | cons c s ih =>
    by_cases hc : c = 32
    · rw [hc, monSplit_space]
      exact Nat.zero_le _
    · rw [monSplit_cons hc, List.length_cons, List.length_cons]
      omega

/-- What the scan of a line leaves: the first word, terminated, and the arguments behind it. -/
structure Cut (s : CStr) (i stop args : Nat) (line : Nat → Byte) : Prop where
  stop_eq : stop = i + (monSplit s).1.length
  word : StrAt line i (monSplit s).1
  rest : match (monSplit s).2 with
    | none => args = 0
    | some t => args = stop + 1 ∧ StrAt line args t ∧ args + t.length = i + s.length

lemma StrAt.update {line : Nat → Byte} {i j : Nat} {s : CStr} {c : Byte} (h : StrAt line i s)
    (hj : j < i) : StrAt (Function.update line j c) i s := by
  induction s generalizing i with
  | nil => simpa [StrAt, Function.update_of_ne hj.ne'] using h
  | cons d s ih =>
    obtain ⟨hd, h0, hs⟩ := h
    exact ⟨by rwa [Function.update_of_ne hj.ne'], h0, ih hs (by omega)⟩

lemma monScan_ok {s : CStr} {i k : Nat} (hs : StrAt m.line i s) (hi : i + s.length < monLinelen)
    (hk : i + k = monLinelen) :
    ∃ stop args m', monScan k m = .ok (stop, args) m' ∧ Cut s i stop args m'.line ∧
      (∀ j < i, m'.line j = m.line j) ∧ Scanned m m' := by
  induction s generalizing i k m with
  | nil =>
    rw [List.length_nil, add_zero] at hi
    obtain ⟨k, rfl⟩ := Nat.exists_eq_succ_of_ne_zero (n := k) (by omega)
    have hidx : monLinelen - (k + 1) = i := by omega
    refine ⟨i, 0, accessed m i, ?_, ⟨rfl, hs, rfl⟩, fun _ _ => rfl, accessed_scanned hi⟩
    have h0 : m.line i = 0 := hs
    rw [monScan, hidx, bind_of_ok (lineGet_ok hi), h0, if_neg (by decide), if_pos rfl]
    rfl
  | cons c s ih =>
    rw [List.length_cons] at hi
    obtain ⟨k, rfl⟩ := Nat.exists_eq_succ_of_ne_zero (n := k) (by omega)
    have hidx : monLinelen - (k + 1) = i := by omega
    have hlt : i < monLinelen := by omega
    obtain ⟨hc, h0, hs⟩ := hs
    by_cases hspace : c = 32
    · refine ⟨i, i + 1, putAt (accessed m i) i 0, ?_, ?_, ?_, ?_⟩
      · rw [monScan, hidx, bind_of_ok (lineGet_ok hlt), hc, if_pos hspace]
        rfl
      · rw [hspace]
        refine ⟨by rw [monSplit_space]; rfl, ?_, ?_⟩
        · rw [monSplit_space]
          exact Function.update_self ..
        · simp only [monSplit_space]
          refine ⟨trivial, hs.update (by omega), ?_⟩
          rw [List.length_cons]
          omega
      · intro j hj
        exact Function.update_of_ne hj.ne _ _
      · exact ⟨rfl, rfl, rfl, rfl, fun h => (h.accessed hlt).accessed hlt⟩
    · obtain ⟨stop, args, m₁, hrun, hcut, hbefore, hm⟩ :=
        ih (m := accessed m i) (i := i + 1) (k := k) hs (by omega) (by omega)
      refine ⟨stop, args, m₁, ?_, ?_, fun j hj => hbefore j (by omega),
        trans_of Scanned (accessed_scanned hlt) hm⟩
      · rw [monScan, hidx, bind_of_ok (lineGet_ok hlt), hc, if_neg hspace, if_neg h0, hrun]
      · obtain ⟨hstop, hword, hargs⟩ := hcut
        refine ⟨?_, ?_, ?_⟩
        · rw [monSplit_cons hspace, hstop, List.length_cons]
          omega
        · rw [monSplit_cons hspace]
          exact ⟨(hbefore i (by omega)).trans hc, h0, hword⟩
        · rw [monSplit_cons hspace]
          simp only
          cases ht : (monSplit s).2 with
          | none => simpa only [ht] using hargs
          | some t =>
            simp only [ht] at hargs
            refine ⟨hargs.1, hargs.2.1, ?_⟩
            rw [List.length_cons, hargs.2.2]
            omega

/-! ## One line -/

/-- A line has been handed to `monProcess`, which ran the handler it selects. -/
structure Processed (s : CStr) (m m' : Mon) : Prop where
  lines : m'.lines = s :: m.lines
  ran : m'.ran = (monLookup s).toList ++ m.ran
  path0 : m'.path0 = m.path0
  inBounds : InBounds m → InBounds m'

lemma runCmd_ok {cmd : MonCmd} {args : Nat} {t : Option CStr}
    (h : match t with
      | none => args = 0
      | some t => args ≠ 0 ∧ StrAt m.line args t ∧ args + t.length < monLinelen) :
    ∃ m₁, runCmd cmd args m = .ok () { m₁ with ran := (cmd, t) :: m₁.ran } ∧ Scanned m m₁ := by
  cases t with
  | none =>
    simp only at h
    exact ⟨m, by rw [runCmd, argsStr, if_pos h]; rfl, refl_of _ m⟩
  | some t =>
    simp only at h
    obtain ⟨h0, hs, hlt⟩ := h
    obtain ⟨m₁, hrun, hm⟩ := lineStr_ok (k := monLinelen + 1) hs hlt (by omega)
    refine ⟨m₁, ?_, hm⟩
    have hmap : (some <$> lineStr (monLinelen + 1) args) m = .ok (some t) m₁ :=
      map_eq_ok.mpr ⟨t, hrun, rfl⟩
    rw [runCmd, argsStr, if_neg h0, bind_of_ok hmap]
    rfl

lemma monProcess_ok {s : CStr} (hs : StrAt m.line 0 s) (hlen : s.length < monLinelen)
    (hn : m.n = s.length + 1) : ∃ m', Mon.monProcess m = .ok () m' ∧ Processed s m m' := by
  have hline : (List.range (m.n - 1)).map m.line = s := by
    simpa [hn] using (strAt_iff.mp hs).1
  obtain ⟨stop, args, m₁, hscan, hcut, -, hm₁⟩ :=
    monScan_ok (m := { m with lines := s :: m.lines }) (i := 0) (k := monLinelen) hs
      (by omega) (by omega)
  have hword := strAt_iff.mp hcut.word
  simp only [zero_add] at hword
  have hstop : stop = (monSplit s).1.length := by simpa using hcut.stop_eq
  have hle := monSplit_length_le s
  have hget : lineGet stop m₁ = .ok 0 (accessed m₁ stop) := by
    rw [lineGet_ok (by omega), hstop, hword.2.2]
  have hcmd : (List.range stop).map m₁.line = (monSplit s).1 := by
    rw [hstop, hword.1]
  have hm₂ : Scanned { m with lines := s :: m.lines } (accessed m₁ stop) :=
    trans_of _ hm₁ (accessed_scanned (by omega))
  have hnote : noteLine m = .ok () { m with lines := s :: m.lines } := by rw [← hline]; rfl
  have hrest : Mon.monProcess m =
      (MonCmds.find? fun e => e.1 == (monSplit s).1).elim (pure ()) (fun e => runCmd e.2 args)
        (accessed m₁ stop) := by
    unfold Mon.monProcess
    rw [bind_of_ok (show (get : MonAct Mon) m = .ok m m from rfl), if_neg (by omega)]
    rw [bind_of_ok hnote, bind_of_ok hscan]
    simp only
    rw [bind_of_ok hget, if_neg (by simp)]
    rw [bind_of_ok (show (get : MonAct Mon) _ = .ok _ _ from rfl)]
    rewrite [show (accessed m₁ stop).line = m₁.line from rfl, hcmd]
    cases MonCmds.find? fun e => e.1 == (monSplit s).1 <;> rfl
  rw [hrest]
  cases hf : MonCmds.find? fun e => e.1 == (monSplit s).1 with
  | none =>
    refine ⟨accessed m₁ stop, rfl, hm₂.lines, ?_, hm₂.path0, hm₂.inBounds⟩
    rw [hm₂.ran, monLookup, hf]
    rfl
  | some e =>
    obtain ⟨m₃, hrun, hm₃⟩ := runCmd_ok (m := accessed m₁ stop) (t := (monSplit s).2) (by
        have hargs := hcut.rest
        cases ht : (monSplit s).2 with
        | none => simpa only [ht] using hargs
        | some t =>
          simp only [ht] at hargs ⊢
          refine ⟨by omega, hargs.2.1, by omega⟩)
    have hm := trans_of Scanned hm₂ hm₃
    refine ⟨_, hrun, hm.lines, ?_, hm.path0, hm.inBounds⟩
    rw [monLookup, hf]
    simp only [hm.ran, Option.map_some, Option.toList_some, List.singleton_append]

/-! ## One byte -/

/-- The bytes of the segment that is still open, and those of the segments that were ended. -/
def openSegment (stream : List Byte) : CStr := (Split.split newline stream).2
def segments (stream : List Byte) : List CStr := (Split.split newline stream).1

/-- No segment fills the buffer, counting the newline that ends it. -/
def Fits (stream : List Byte) : Prop :=
  (∀ s ∈ segments stream, s.length + 1 < monLinelen) ∧ (openSegment stream).length < monLinelen

instance (stream : List Byte) : Decidable (Fits stream) :=
  inferInstanceAs (Decidable (_ ∧ _))

/-- A monitor that has not run anything and has an empty buffer, whatever is left in it. -/
structure FreshMon (m : Mon) : Prop where
  n : m.n = 0
  lines : m.lines = []
  ran : m.ran = []

/-- The monitor `m` after a stream that fits, with `m₀` the one before. -/
structure Buffered (m₀ : Mon) (stream : List Byte) (m : Mon) : Prop where
  n : m.n = (openSegment stream).length
  line : (List.range m.n).map m.line = openSegment stream
  lines : m.lines.reverse = segments stream
  ran : m.ran.reverse = (segments stream).filterMap monLookup
  path0 : m.path0 = m₀.path0
  inBounds : InBounds m₀ → InBounds m

/-- The state in which `monEvent` has put a byte into the buffer. -/
def stored (m : Mon) (c : Byte) : Mon := putAt m m.n c

lemma stored_line (m : Mon) (c : Byte) : (stored m c).line m.n = c := Function.update_self ..

lemma stored_segment {s : CStr} (m : Mon) (c : Byte) (h : (List.range m.n).map m.line = s) :
    (List.range m.n).map (stored m c).line = s := by
  rw [← h]
  refine List.map_congr_left fun j hj => ?_
  exact Function.update_of_ne (List.mem_range.mp hj).ne _ _

/-- The state in which a byte that does not fill the buffer has been counted and looked at. -/
def counted (m : Mon) (c : Byte) : Mon := accessed { stored m c with n := m.n + 1 } m.n

lemma monEvent_run {c : Byte} (hn : m.n + 1 < monLinelen) :
    monEvent c m = when (c = newline)
      (do linePut m.n 0; Mon.monProcess; setN 0) (counted m c) := by
  unfold monEvent
  rw [bind_of_ok (show (get : MonAct Mon) m = .ok m m from rfl)]
  rw [bind_of_ok (require_eq_ok (u := ()).mpr ⟨by omega, rfl⟩), bind_of_ok (linePut_ok _ _ _)]
  have hnext : lineNext (m.n + 1) (putAt m m.n c) = .ok newline (putAt m m.n c) := by
    rw [lineNext, if_neg (by omega)]
    rfl
  rw [bind_of_ok (require_eq_ok (u := ()).mpr ⟨by omega, rfl⟩), bind_of_ok hnext]
  rw [if_neg (by simp)]
  rw [bind_of_ok (show setN (m.n + 1) (putAt m m.n c) = .ok ⟨⟩ { stored m c with n := m.n + 1 } from rfl)]
  rw [Nat.add_sub_cancel, bind_of_ok (lineGet_ok (by omega))]
  rw [show ({ stored m c with n := m.n + 1 } : Mon).line m.n = c from stored_line m c]
  rfl

lemma Buffered.next {m₀ : Mon} {stream : List Byte} {c : Byte} (h : Buffered m₀ stream m)
    (h0 : 0 ∉ stream) (hn : m.n + 1 < monLinelen) :
    ∃ m', monEvent c m = .ok () m' ∧ Buffered m₀ (stream ++ [c]) m' := by
  have hin (hb : InBounds m₀) : InBounds (counted m c) :=
    ((h.inBounds hb).accessed (by omega)).accessed (by omega)
  rw [monEvent_run hn]
  by_cases hc : c = newline
  · have hopen : 0 ∉ openSegment stream := fun hmem => h0 (Split.mem_open hmem).1
    -- the line, with the newline replaced by the terminator
    have hs : StrAt (putAt (counted m c) m.n 0).line 0 (openSegment stream) := by
      rw [strAt_iff, ← h.n]
      simp only [zero_add]
      refine ⟨?_, hopen, Function.update_self ..⟩
      rw [← stored_segment m c h.line]
      refine List.map_congr_left fun j hj => ?_
      exact Function.update_of_ne (List.mem_range.mp hj).ne _ _
    obtain ⟨m₁, hrun, hdone⟩ := monProcess_ok hs (by rw [← h.n]; omega) (by rw [← h.n]; rfl)
    refine ⟨{ m₁ with n := 0 }, ?_, ?_⟩
    · rw [when, if_pos hc, bind_of_ok (linePut_ok _ _ _), bind_of_ok hrun]
      rfl
    · rw [hc]
      refine ⟨?_, ?_, ?_, ?_, hdone.path0.trans h.path0, fun hb => hdone.inBounds ((hin hb).accessed (by omega))⟩
      · rw [openSegment, Split.split_concat_sep]
        rfl
      · rw [openSegment, Split.split_concat_sep]
        rfl
      · rw [segments, Split.split_concat_sep]
        simp only [hdone.lines, List.reverse_cons]
        rw [show (putAt (counted m c) m.n 0).lines = m.lines from rfl, h.lines]
        rfl
      · rw [segments, Split.split_concat_sep, List.filterMap_append]
        simp only [hdone.ran, List.reverse_append]
        rw [show (putAt (counted m c) m.n 0).ran = m.ran from rfl, h.ran]
        change _ ++ _ = _ ++ [openSegment stream].filterMap monLookup
        cases hl : monLookup (openSegment stream) <;> simp [hl, segments]
  · refine ⟨counted m c, ?_, ?_, ?_, ?_, ?_, h.path0, hin⟩
    · rw [when, if_neg hc]
      rfl
    · rw [openSegment, Split.split_concat_ne hc, List.length_append]
      exact congrArg (· + 1) h.n
    · rw [openSegment, Split.split_concat_ne hc]
      change (List.range (m.n + 1)).map (stored m c).line = _
      rw [List.range_succ, List.map_append, stored_segment m c h.line, List.map_singleton,
        stored_line]
      rfl
    · rw [segments, Split.split_concat_ne hc]
      exact h.lines
    · rw [segments, Split.split_concat_ne hc]
      exact h.ran

/-! ## A buffer that is filled -/

/-- An access behind the buffer has been made. -/
def OutOfBounds (m : Mon) : Prop := monLinelen ∈ m.touched

lemma lineGet_outOfBounds (i : Nat) : Preserves OutOfBounds (lineGet i) := by
  intro m c m' hget h
  obtain ⟨-, rfl⟩ : c = _ ∧ m' = accessed m i := by
    replace hget := get_bind_eq_ok.mp hget
    obtain ⟨_, m₁, hset, hret⟩ := bind_eq_ok.mp hget
    rw [set_eq_ok.mp hset] at hret
    exact pure_eq_ok.mp hret
  exact List.mem_cons_of_mem _ h

lemma linePut_outOfBounds (i : Nat) (c : Byte) : Preserves OutOfBounds (linePut i c) :=
  Keeps.modify fun _ h => List.mem_cons_of_mem _ h

lemma setN_outOfBounds (n : Nat) : Preserves OutOfBounds (setN n) := Keeps.modify fun _ h => h

lemma monScan_outOfBounds (k : Nat) : Preserves OutOfBounds (monScan k) := by
  induction k with
  | zero => exact Keeps.pure _
  | succ k ih =>
    refine Keeps.bind (lineGet_outOfBounds _) fun c => Keeps.ite (fun _ => ?_) fun _ =>
      Keeps.ite (fun _ => Keeps.pure _) fun _ => ih
    exact Keeps.bind (linePut_outOfBounds _ _) fun _ => Keeps.pure _

lemma lineStr_outOfBounds (k i : Nat) : Preserves OutOfBounds (lineStr k i) := by
  induction k generalizing i with
  | zero => exact Keeps.throw _
  | succ k ih =>
    refine Keeps.bind (lineGet_outOfBounds _) fun c => Keeps.ite (fun _ => Keeps.pure _) fun _ => ?_
    exact Keeps.bind (ih _) fun _ => Keeps.pure _

lemma runCmd_outOfBounds (cmd : MonCmd) (args : Nat) : Preserves OutOfBounds (runCmd cmd args) := by
  have hargs : Preserves OutOfBounds (argsStr args) := by
    refine Keeps.ite (fun _ => Keeps.pure _) fun _ m s m' hmap h => ?_
    obtain ⟨t, hstr, -⟩ := map_eq_ok.mp hmap
    exact lineStr_outOfBounds _ _ hstr h
  have hran (s : Option CStr) :
      Preserves OutOfBounds
        (modify fun this => { this with ran := (cmd, s) :: this.ran } : MonAct PUnit) :=
    Keeps.modify fun _ => id
  exact Keeps.bind hargs hran

lemma monProcess_outOfBounds : Preserves OutOfBounds Mon.monProcess := by
  have hnote : Preserves OutOfBounds noteLine := Keeps.modify fun _ => id
  refine Keeps.bind Keeps.get fun _ => Keeps.ite (fun _ => Keeps.pure _) fun _ =>
    Keeps.bind hnote fun _ => Keeps.bind (monScan_outOfBounds _) fun r =>
    Keeps.bind (lineGet_outOfBounds _) fun c => Keeps.ite (fun _ => Keeps.pure _) fun _ =>
    Keeps.bind Keeps.get fun _ => ?_
  dsimp only
  split
  · exact runCmd_outOfBounds _ _
  · exact Keeps.pure _

lemma monEvent_outOfBounds (c : Byte) : Preserves OutOfBounds (monEvent c) := by
  have hnext {curn : Nat} : Preserves OutOfBounds (lineNext curn) :=
    Keeps.ite (fun _ => lineGet_outOfBounds _) fun _ => Keeps.pure _
  refine Keeps.bind Keeps.get fun _ => Keeps.bind (Keeps.require _ _) fun _ =>
    Keeps.bind (linePut_outOfBounds _ _) fun _ => Keeps.bind (Keeps.require _ _) fun _ =>
    Keeps.bind hnext fun _ => ?_
  refine Keeps.ite (fun _ => setN_outOfBounds _) fun _ => Keeps.bind (setN_outOfBounds _) fun _ =>
    Keeps.bind (lineGet_outOfBounds _) fun _ => Keeps.when fun _ => ?_
  exact Keeps.bind (linePut_outOfBounds _ _) fun _ => Keeps.bind monProcess_outOfBounds fun _ =>
    setN_outOfBounds _

/-- A byte that fills the buffer makes `monEvent` look behind it. -/
lemma monEvent_full {c : Byte} {u : Unit} (hn : m.n + 1 = monLinelen)
    (h : monEvent c m = .ok u m') : OutOfBounds m' := by
  replace h := get_bind_eq_ok.mp h
  obtain ⟨-, h⟩ := require_bind_eq_ok.mp h
  obtain ⟨_, m₁, -, h⟩ := bind_eq_ok.mp h
  obtain ⟨-, h⟩ := require_bind_eq_ok.mp h
  obtain ⟨next, m₂, hget, h⟩ := bind_eq_ok.mp h
  rw [lineNext, if_pos hn] at hget
  have h₂ : OutOfBounds m₂ := by
    replace hget := get_bind_eq_ok.mp hget
    obtain ⟨_, m₃, hset, hret⟩ := bind_eq_ok.mp hget
    rw [(pure_eq_ok.mp hret).2, set_eq_ok.mp hset, OutOfBounds, hn]
    exact List.mem_cons_self
  refine (Keeps.ite (fun _ => setN_outOfBounds _) fun _ => Keeps.bind (setN_outOfBounds _) fun _ =>
    Keeps.bind (lineGet_outOfBounds _) fun _ => Keeps.when fun _ => ?_ :
    Preserves OutOfBounds _) h h₂
  exact Keeps.bind (linePut_outOfBounds _ _) fun _ => Keeps.bind monProcess_outOfBounds fun _ =>
    setN_outOfBounds _

/-! ## Streams -/

/-- `monEvent` for each byte of a stream, from a monitor whose buffer holds whatever it holds. -/
def monEvents (stream : List Byte) : MonAct Unit := stream.forM monEvent

/-- The monitor has handled the stream as specified: the segments that fit have reached
`monProcess`, each of them has run the handler it selects, and no access was out of bounds. -/
def Framed (line : Nat → Byte) (path0 : Byte) (stream : List Byte) : Prop :=
  ∃ m, monEvents stream { line := line, path0 := path0 } = .ok () m ∧
    m.lines.reverse = (segments stream).filter (fun s => s.length + 1 ≤ monLinelen) ∧
    m.ran.reverse = m.lines.reverse.filterMap monLookup ∧ InBounds m

lemma fits_of_concat {stream : List Byte} {c : Byte} (h : Fits (stream ++ [c])) :
    Fits stream ∧ (openSegment stream).length + 1 < monLinelen := by
  obtain ⟨hsegs, hopen⟩ := h
  rw [openSegment] at hopen
  rw [segments] at hsegs
  by_cases hc : c = newline
  · rw [hc, Split.split_concat_sep] at hsegs
    have hlast := hsegs (openSegment stream) (by simp [openSegment])
    exact ⟨⟨fun s hs => hsegs s (List.mem_append_left _ hs), by omega⟩, hlast⟩
  · rw [Split.split_concat_ne hc] at hsegs hopen
    rw [List.length_append] at hopen
    exact ⟨⟨hsegs, Nat.lt_of_succ_lt hopen⟩, hopen⟩

lemma fits_concat {stream : List Byte} {c : Byte} (h : Fits stream)
    (hn : (openSegment stream).length + 1 < monLinelen) : Fits (stream ++ [c]) := by
  unfold Fits segments openSegment
  by_cases hc : c = newline
  · rw [hc, Split.split_concat_sep]
    refine ⟨fun s hs => ?_, by simp⟩
    rcases List.mem_append.mp hs with hs | hs
    · exact h.1 s hs
    · rw [List.mem_singleton.mp hs]
      exact hn
  · rw [Split.split_concat_ne hc]
    refine ⟨h.1, ?_⟩
    rw [List.length_append]
    exact hn

lemma buffered_of_fits {m : Mon} {stream : List Byte} (hm : FreshMon m) (h0 : 0 ∉ stream)
    (h : Fits stream) : ∃ m', monEvents stream m = .ok () m' ∧ Buffered m stream m' := by
  induction stream using List.reverseRecOn with
  | nil =>
    refine ⟨m, rfl, hm.n, ?_, ?_, ?_, rfl, id⟩
    · rw [hm.n]
      rfl
    · rw [hm.lines]
      rfl
    · rw [hm.ran]
      rfl
  | append_singleton stream c ih =>
    obtain ⟨hfits, hlt⟩ := fits_of_concat h
    have h0' : 0 ∉ stream := fun hmem => h0 (List.mem_append_left _ hmem)
    obtain ⟨m₁, hrun, hm₁⟩ := ih h0' hfits
    obtain ⟨m', hevent, hm'⟩ := hm₁.next (c := c) h0' (by rw [hm₁.n]; exact hlt)
    exact ⟨m', forM_concat_eq_ok.mpr ⟨_, m₁, hrun, hevent⟩, hm'⟩

lemma outOfBounds_of_not_fits {m₀ : Mon} {stream : List Byte} {u : Unit} (hm₀ : FreshMon m₀)
    (h0 : 0 ∉ stream) (h : ¬Fits stream) (hrun : monEvents stream m₀ = .ok u m) :
    OutOfBounds m := by
  induction stream using List.reverseRecOn generalizing m with
  | nil => exact (h (by decide)).elim
  | append_singleton stream c ih =>
    have h0' : 0 ∉ stream := fun hmem => h0 (List.mem_append_left _ hmem)
    obtain ⟨_, m₁, hbefore, hevent⟩ := forM_concat_eq_ok.mp hrun
    by_cases hfits : Fits stream
    · obtain ⟨m₂, hrun₂, hm₂⟩ := buffered_of_fits hm₀ h0' hfits
      obtain rfl : m₁ = m₂ := by
        rw [monEvents, hbefore] at hrun₂
        exact (EStateM.Result.ok.inj hrun₂).2
      refine monEvent_full ?_ hevent
      by_contra hne
      refine h (fits_concat hfits ?_)
      have := hfits.2
      rw [hm₂.n] at hne
      omega
    · exact monEvent_outOfBounds c hevent (ih h0' hfits hbefore)

/-- The monitor handles a stream as specified exactly when no segment of it fills the buffer. -/
theorem monitor_framing (line : Nat → Byte) (path0 : Byte) {stream : List Byte}
    (h0 : 0 ∉ stream) : Framed line path0 stream ↔ Fits stream := by
  have hfresh : FreshMon { line := line, path0 := path0 } := ⟨rfl, rfl, rfl⟩
  constructor
  · rintro ⟨m, hrun, -, -, hin⟩
    by_contra h
    exact (hin _ (outOfBounds_of_not_fits hfresh h0 h hrun)).false
  · intro h
    obtain ⟨m, hrun, hm⟩ := buffered_of_fits hfresh h0 h
    refine ⟨m, hrun, ?_, ?_, hm.inBounds fun i hi => by cases hi⟩
    · rw [hm.lines, List.filter_eq_self.mpr fun s hs => decide_eq_true (h.1 s hs).le]
    · rw [hm.lines, hm.ran]

theorem monitor_framing_help : Framed (fun _ => 63) 47 (bytes "v+\nadd a,,,1,x\n") :=
  (monitor_framing _ _ (by decide)).mpr (by decide)

/-- 4096 bytes without a newline, and a line behind them. -/
theorem monitor_not_always_framed :
    ¬∀ (line : Nat → Byte) (path0 : Byte) (stream : List Byte), 0 ∉ stream →
      Framed line path0 stream := by
  intro hall
  have hline : newline ∉ List.replicate 4095 (97 : Byte) := by
    rw [List.mem_replicate]
    decide
  have h0 : (0 : Byte) ∉ List.replicate 4095 (97 : Byte) ++ [newline] := by
    rw [List.mem_append, List.mem_replicate]
    decide
  have hfits := (monitor_framing (fun _ => 0) 47 h0).mp (hall _ _ _ h0)
  have hlt := hfits.1 (List.replicate 4095 97) (by
    rw [segments, Split.split_concat_sep, Split.split_of_notMem hline]
    exact List.mem_append_right _ List.mem_cons_self)
  rw [List.length_replicate] at hlt
  exact hlt.false

/-- A byte that fills the buffer is dropped with all that the buffer holds. -/
lemma monEvent_dropped {c : Byte} (hn : m.n + 1 = monLinelen) (hp : m.path0 ≠ newline) :
    monEvent c m = .ok () { accessed (stored m c) monLinelen with n := 0 } := by
  have hnext : lineNext (m.n + 1) (stored m c) = .ok m.path0 (accessed (stored m c) monLinelen) := by
    rw [lineNext, if_pos hn, hn]
    rfl
  unfold monEvent
  rw [bind_of_ok (show (get : MonAct Mon) m = .ok m m from rfl)]
  rw [bind_of_ok (require_eq_ok (u := ()).mpr ⟨by omega, rfl⟩), bind_of_ok (linePut_ok _ _ _)]
  rw [bind_of_ok (require_eq_ok (u := ()).mpr ⟨by omega, rfl⟩)]
  change (lineNext (m.n + 1) >>= _) (stored m c) = _
  rw [bind_of_ok hnext, if_pos hp]
  rfl

/-- The rest of a segment that fills the buffer is run as lines of its own. -/
theorem overlong_rest_runs (line : Nat → Byte) {path0 : Byte} (hp : path0 ≠ newline)
    {s rest : List Byte} (hs : newline ∉ s) (hlen : s.length = monLinelen) (h0 : 0 ∉ s ++ rest)
    (hrest : Fits rest) :
    ∃ m, monEvents (s ++ rest) { line := line, path0 := path0 } = .ok () m ∧
      m.lines.reverse = segments rest ∧ m.ran.reverse = (segments rest).filterMap monLookup := by
  obtain ⟨s', c, rfl⟩ : ∃ s' c, s = s' ++ [c] := by
    rcases List.eq_nil_or_concat s with rfl | ⟨s', c, rfl⟩
    · cases hlen
    · exact ⟨s', c, by rw [List.concat_eq_append]⟩
  rw [List.length_append, List.length_singleton] at hlen
  have hs' : newline ∉ s' := fun hmem => hs (List.mem_append_left _ hmem)
  have hsplit := Split.split_of_notMem hs'
  have hfits : Fits s' := by
    rw [Fits, segments, openSegment, hsplit]
    exact ⟨by simp, by simp only; omega⟩
  obtain ⟨m, hrun, hm⟩ := buffered_of_fits (m := { line := line, path0 := path0 })
    ⟨rfl, rfl, rfl⟩ (fun hmem => h0 (by simp [hmem])) hfits
  have hn : m.n + 1 = monLinelen := by rw [hm.n, openSegment, hsplit, hlen]
  have hlines := hm.lines
  have hran := hm.ran
  rw [segments, hsplit] at hlines hran
  have hdrop := monEvent_dropped (c := c) hn (by rw [hm.path0]; exact hp)
  obtain ⟨m', hrun', hm'⟩ := buffered_of_fits
    (m := { accessed (stored m c) monLinelen with n := 0 })
    ⟨rfl, List.reverse_eq_nil_iff.mp hlines, List.reverse_eq_nil_iff.mp hran⟩
    (fun hmem => h0 (List.mem_append_right _ hmem)) hrest
  refine ⟨m', ?_, hm'.lines, hm'.ran⟩
  exact forM_append_eq_ok.mpr ⟨_, _, forM_concat_eq_ok.mpr ⟨_, m, hrun, hdrop⟩, hrun'⟩

end Yar.Proofs
