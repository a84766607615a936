import Yar.Console
import Yar.Proofs.Framing
import Yar.Proofs.Process
import Yar.Proofs.Relay

/-!
# Bytes and lines

A run in which the monitor reads its bytes one by one is a run in which it is handed whole lines: those that
the line buffer cuts out of the bytes.
-/

namespace Yar.Proofs

open Program Transition Split

variable {sys : Sys} {w w' : World} {m m' : Mon} {b : Byte} {c c' : Console}

/-! ## One byte -/

/-- The line that the byte ends, if it does. -/
def endedLine (m : Mon) (b : Byte) : Option CStr := ended monLinelen newline ((List.range m.n).map m.line) b

/-- What is in the line buffer, and the lines it has been cut into so far. -/
structure LineState (m : Mon) (st : List CStr × CStr) : Prop where
  n : m.n = st.2.length
  line : (List.range m.n).map m.line = st.2
  lines : m.lines.reverse = st.1
  noNul : 0 ∉ st.2
  room : st.2.length < monLinelen
  path0 : m.path0 = slash

lemma LineState.endedLine_eq {st : List CStr × CStr} (h : LineState m st) (b : Byte) :
    endedLine m b = ended monLinelen newline st.2 b := by
  rw [endedLine, h.line]

/-- A byte that would fill the buffer is dropped with what the buffer holds. -/
lemma LineState.dropped {st : List CStr × CStr} (h : LineState m st) (hfull : m.n + 1 = monLinelen) :
    ∃ m', Mon.monEvent b m = .ok () m' ∧ LineState m' (st.1, []) ∧ m'.ran = m.ran :=
  ⟨_, monEvent_dropped hfull (by rw [h.path0]; decide),
    ⟨rfl, rfl, h.lines, List.not_mem_nil, show 0 < 4096 by decide, h.path0⟩, rfl⟩

/-- A newline ends the line, and its handler is selected. -/
lemma LineState.processed {st : List CStr × CStr} (h : LineState m st) (hlt : m.n + 1 < monLinelen) :
    ∃ m', Mon.monEvent newline m = .ok () m' ∧ LineState m' (st.1 ++ [st.2], []) ∧
      m'.ran = (monLookup st.2).toList ++ m.ran := by
  have hs : StrAt (putAt (counted m newline) m.n 0).line 0 st.2 := by
    rw [strAt_iff, ← h.n]
    simp only [zero_add]
    refine ⟨?_, h.noNul, Function.update_self ..⟩
    rw [← stored_segment m newline h.line]
    refine List.map_congr_left fun j hj => ?_
    exact Function.update_of_ne (List.mem_range.mp hj).ne _ _
  have hlen : st.2.length < monLinelen := h.room
  obtain ⟨m₁, hrun, hdone⟩ := monProcess_ok hs (by omega) (by rw [← h.n]; rfl)
  refine ⟨{ m₁ with n := 0 }, ?_, ?_, hdone.ran⟩
  · rw [monEvent_run hlt, when, if_pos rfl, bind_of_ok (linePut_ok _ _ _), bind_of_ok hrun]
    rfl
  · refine ⟨rfl, rfl, ?_, List.not_mem_nil, show 0 < 4096 by decide, hdone.path0.trans h.path0⟩
    rw [hdone.lines, List.reverse_cons]
    exact congrArg (· ++ [st.2]) h.lines

/-- Any other byte is stored. -/
lemma LineState.stored {st : List CStr × CStr} (h : LineState m st) (hlt : m.n + 1 < monLinelen)
    (hb : b ≠ 0) (hc : b ≠ newline) :
    ∃ m', Mon.monEvent b m = .ok () m' ∧ LineState m' (st.1, st.2 ++ [b]) ∧ m'.ran = m.ran := by
  have hlen : (st.2 ++ [b]).length = m.n + 1 := by rw [List.length_append, List.length_singleton, h.n]
  refine ⟨counted m b, ?_, ?_, rfl⟩
  · rw [monEvent_run hlt, when, if_neg hc]
    rfl
  · refine ⟨hlen.symm, ?_, h.lines, ?_, hlen ▸ hlt, h.path0⟩
    · change (List.range (m.n + 1)).map (Yar.Proofs.stored m b).line = _
      rw [List.range_succ, List.map_append, stored_segment m b h.line, List.map_singleton, stored_line]
    · rw [List.mem_append, List.mem_singleton]
      exact not_or.mpr ⟨h.noNul, Ne.symm hb⟩

/-- The byte changes the buffer as specified, and selects the handler of the line that it ends. -/
lemma LineState.next {st : List CStr × CStr} (h : LineState m st) (hb : b ≠ 0) : ∃ m',
    Mon.monEvent b m = .ok () m' ∧
      LineState m' (st.1 ++ (endedLine m b).toList, kept monLinelen newline st.2 b) ∧
      m'.ran = ((endedLine m b).bind monLookup).toList ++ m.ran := by
  have hroom := h.room
  rw [h.endedLine_eq b]
  by_cases hfull : st.2.length + 1 = monLinelen
  · rw [ended, if_pos hfull, kept, if_pos (.inl hfull), Option.toList_none, List.append_nil]
    exact h.dropped (h.n ▸ hfull)
  · have hlt : m.n + 1 < monLinelen := by
      rw [h.n]
      omega
    rw [ended, if_neg hfull]
    by_cases hc : b = newline
    · rw [if_pos hc, kept, if_pos (.inr hc), hc]
      exact h.processed hlt
    · rw [if_neg hc, kept, if_neg (not_or.mpr ⟨hfull, hc⟩), Option.toList_none, List.append_nil]
      exact h.stored hlt hb hc

variable (sys) in
/-- What the byte makes of the rest of yar is what the handler makes of the line. -/
lemma LineState.monEvent {st : List CStr × CStr} (h : LineState m st) (hb : b ≠ 0) : ∃ m',
    LineState m' (st.1 ++ (endedLine m b).toList, kept monLinelen newline st.2 b) ∧
      Console.monEvent sys b m =
        (do
          hdlr sys (.dom .mon) { line := endedLine m b }
          return m') := by
  obtain ⟨m', hrun, hm', hran⟩ := h.next hb
  refine ⟨m', hm', ?_⟩
  have hnew : (m'.ran.take (m'.ran.length - m.ran.length)).reverse = ((endedLine m b).bind monLookup).toList := by
    rw [hran, List.length_append, Nat.add_sub_cancel, List.take_left]
    cases (endedLine m b).bind monLookup <;> rfl
  unfold Console.monEvent
  rw [hrun]
  dsimp only
  rw [hnew]
  cases endedLine m b with
  | none => rfl
  | some line =>
    simp only [Option.bind_some, hdlr, monProcess]
    cases hk : monLookup line with
    | none => rfl
    | some e => simp [Option.toList, require]

/-! ## The monitor's tty -/

/-- No handler has a part in what is typed at the monitor's tty. -/
lemma Handled.hist_mon {s : Source} {x : Answer} (hh : Handled sys s x w w') :
    (w'.kern.ports .mon).hist = (w.kern.ports .mon).hist := by
  have keeps {S : Set Part} (hm : Modifies S w w') (hS : .hist .mon ∉ S) :
      (w'.kern.ports .mon).hist = (w.kern.ports .mon).hist := hm.same (.hist .mon) hS
  have hremove {id : CmdId} (hm : Modifies (removeParts id) w w') :=
    keeps hm (by simp [removeParts, cleanupParts, procParts, startParts, cmdParts, ttyParts])
  cases hh with
  | bcst hs h => exact keeps (bcstttyEvent_modifies sys _ subset_rfl h) (by simp [bcstInputParts])
  | clt id hs hid h =>
    exact keeps (cmdCltttyEvent_modifies sys _ subset_rfl h) (by simp [inputParts, procParts, startParts])
  | cmd id hs hid h =>
    exact keeps (Keeps.discard (cmdttyProcessOutput_modifies sys _ subset_rfl) h) (by simp [outputParts])
  | notify r hs hid h =>
    refine keeps (ttyNotifyEvent_modifies sys r subset_rfl h) ?_
    cases r <;> simp [nedParts, procParts, startParts]
  | pid id fd hs hid h => exact hremove (cmdPidEvent_modifies sys subset_rfl h)
  | del line name id hs hx hl hf h => exact hremove (monDelFound_modifies sys subset_rfl h)
  | add line cmdstr hs hx hl h =>
    rcases monAdd_cases h with hn | ⟨id, spec, w₁, ha, h⟩
    · exact keeps hn.modifies (by simp [cmdParts, ttyParts])
    · have hold := ha.modifies.same (.hist .mon) (by simp [addParts, cmdParts, ttyParts])
      have hm : Modifies (startParts id ∪ bcstParts) w₁ w' :=
        monAddRegister_modifies sys id Set.subset_union_left Set.subset_union_right h
      exact hold.trans (hm.same (.hist .mon) (by simp [startParts, bcstParts, ttyParts]))
  | drain line args hs hx hl h =>
    exact keeps (monDrain_modifies sys (S := {p | ∃ id, p ∈ outputParts id}) (fun id p hp => ⟨id, hp⟩) h)
      (by simp [outputParts])
  | idleExit line args hs hx hl h =>
    have hm : Modifies idleExitParts w w' :=
      monIdleExit_modifies sys (by simp [idleExitParts]) (by simp [idleExitParts])
        (fun id => .inr ⟨id, rfl⟩) h
    exact keeps hm (by simp [idleExitParts])
  | toggle line m args g hs hx hl hw hcore hrestart hlb => rw [hw]
  | idle hs hw => rw [hw]

/-! ## Runs -/

/-- The same event as the loop has it that is given whole lines. -/
def lineEvent (c : Console) (e : ConsoleEvent) : LoopEvent :=
  match e with
  | .env e => .env e
  | .wait batch => .wait batch
  | .dispatch x => .dispatch x
  | .byte => .dispatch { line := c.next.bind (endedLine c.mon) }

section

variable {okL : Loop → LoopEvent → Prop} {o : Options}

/-- The run has been one of the loop, and the line buffer is where the bytes read so far leave it. -/
structure Refines (sys : Sys) (okL : Loop → LoopEvent → Prop) (o : Options) (c : Console) : Prop where
  loop : Reach (fun l => Started sys o l.world ∧ l.batch = []) (LoopStep sys) okL c.loop
  lines : LineState c.mon (splitIn monLinelen newline c.bytesRead)
  nread : c.nread ≤ c.typed.length

/-- What happens outside only adds to what is typed. -/
lemma typed_env (c : Console) (e : Env) : ∃ l,
    ((e.apply c.loop.world).kern.ports .mon).hist.map Prod.fst = c.typed ++ l := by
  have kept (hnot : .hist .mon ∉ envParts e) : ∃ l,
      ((e.apply c.loop.world).kern.ports .mon).hist.map Prod.fst = c.typed ++ l :=
    ⟨[], by rw [List.append_nil, Console.typed, (apply_modifies _ e).same (.hist .mon) hnot]⟩
  cases e with
  | typed r b p =>
    by_cases hr : r = .mon
    · rw [hr]
      exact ⟨[b], by simp [Env.apply, World.updPort, Console.typed]⟩
    · exact kept (by simpa [envParts, eq_comm] using hr)
  | _ => exact kept (by simp [envParts])

lemma Refines.start (h : ConsoleStarted sys o c) : Refines sys okL o c := by
  have hread : c.bytesRead = [] := by rw [Console.bytesRead, h.nread, List.take_zero]
  refine ⟨.start ⟨h.started, h.batch⟩, ?_, h.nread ▸ Nat.zero_le _⟩
  rw [hread]
  exact ⟨h.n, by rw [h.n]; rfl, by rw [h.lines]; rfl, by simp [splitIn], show 0 < 4096 by decide, h.path0⟩

/-- No byte that is read is a terminator. -/
def NoNul (c : Console) (e : ConsoleEvent) : Prop :=
  match e with
  | .byte => c.next ≠ some 0
  | _ => True

instance (c : Console) (e : ConsoleEvent) : Decidable (NoNul c e) :=
  match e with
  | .byte => inferInstanceAs (Decidable (c.next ≠ some 0))
  | .env _ | .wait _ | .dispatch _ => .isTrue trivial

lemma Refines.step {e : ConsoleEvent} (h : Refines sys okL o c) (hok : okL c.loop (lineEvent c e))
    (hnul : NoNul c e) (hstep : ConsoleStep sys c e c') : Refines sys okL o c' := by
  obtain ⟨hloop, hlines, hnread⟩ := h
  cases hstep with
  | env _ e =>
    obtain ⟨l, hl⟩ := typed_env c e
    refine ⟨.next hloop hok (.env _ e), ?_, ?_⟩
    · rw [Console.bytesRead, Console.typed, hl, List.take_append_of_le_length hnread]
      exact hlines
    · rw [Console.typed, hl, List.length_append]
      exact hnread.trans (Nat.le_add_right _ _)
  | wait hf hmon => exact ⟨.next hloop hok (.wait hf), hlines, hnread⟩
  | @dispatch w w' s rest x m n hs hrun =>
    have htyped : Console.typed ⟨⟨w', rest⟩, m, n⟩ = Console.typed ⟨⟨w, s :: rest⟩, m, n⟩ :=
      congrArg (List.map Prod.fst) (hdlr_cases hrun).hist_mon
    refine ⟨.next hloop hok (.dispatch hrun), ?_, ?_⟩
    · rw [Console.bytesRead, htyped]
      exact hlines
    · rw [htyped]
      exact hnread
  | @byte w w' rest b m m' n hb hrun =>
    have hb0 : b ≠ 0 := by
      rintro rfl
      exact hnul hb
    obtain ⟨m₁, hm₁, hevent⟩ := hlines.monEvent sys hb0
    rw [hevent] at hrun
    obtain ⟨_, w₁, hrun, hret⟩ := bind_eq_ok.mp hrun
    obtain ⟨rfl, rfl⟩ := pure_eq_ok.mp hret
    have htyped : Console.typed ⟨⟨w', rest⟩, m', n + 1⟩ =
        Console.typed ⟨⟨w, .dom .mon :: rest⟩, m, n⟩ :=
      congrArg (List.map Prod.fst) (hdlr_cases hrun).hist_mon
    have hread : Console.bytesRead ⟨⟨w', rest⟩, m', n + 1⟩ =
        Console.bytesRead ⟨⟨w, .dom .mon :: rest⟩, m, n⟩ ++ [b] := by
      rw [Console.bytesRead, htyped, List.take_add_one]
      exact congrArg (_ ++ ·) (congrArg Option.toList hb)
    have hline : lineEvent ⟨⟨w, .dom .mon :: rest⟩, m, n⟩ .byte = .dispatch { line := endedLine m b } := by
      rw [lineEvent, hb, Option.bind_some]
    rw [hline] at hok
    refine ⟨.next hloop hok (.dispatch hrun), ?_, ?_⟩
    · rw [hread, splitIn_concat, ← hlines.endedLine_eq]
      exact hm₁
    · rw [htyped]
      exact (List.getElem?_eq_some_iff.mp hb).1

end

/-- A run in which the monitor reads byte by byte is a run in which it is handed lines: those that its buffer
cuts out of the bytes read, and each byte does to the rest of yar what the line does that it ends. -/
theorem console_refines {okL : Loop → LoopEvent → Prop}
    (h : ConsoleReachable sys (fun c e => okL c.loop (lineEvent c e) ∧ NoNul c e) c) :
    LoopReachable sys okL c.loop ∧
      (c.mon.lines.reverse, (List.range c.mon.n).map c.mon.line) = splitIn monLinelen newline c.bytesRead ∧
      (Fits c.bytesRead → c.mon.lines.reverse = segments c.bytesRead) ∧
      ∀ b ≠ 0, ∃ m', Console.monEvent sys b c.mon =
        (do
          hdlr sys (.dom .mon) { line := endedLine c.mon b }
          return m') := by
  obtain ⟨o, h⟩ := h
  have hrefines : Refines sys okL o c := h.invariant (fun _ h => .start h)
    fun _ _ _ _ hr hok hstep => hr.step hok.1 hok.2 hstep
  obtain ⟨hloop, hlines, -⟩ := hrefines
  refine ⟨⟨o, hloop⟩, Prod.ext hlines.lines hlines.line, fun hfits => ?_, fun b hb => ?_⟩
  · rw [hlines.lines, splitIn_eq_split hfits.1 hfits.2]
    rfl
  · obtain ⟨m', -, hevent⟩ := hlines.monEvent sys hb
    exact ⟨m', hevent⟩

/-! ## Execution -/

/-- A step of the console, computed. -/
def consoleExec (sys : Sys) (e : ConsoleEvent) (c : Console) : Option Console :=
  match e, c with
  | .env e, c => some { c with loop := { c.loop with world := e.apply c.loop.world } }
  | .wait batch, ⟨⟨w, []⟩, m, n⟩ =>
    if Fetched w.kern batch ∧ (.dom .mon ∈ batch → Console.next ⟨⟨w, []⟩, m, n⟩ ≠ none) then
      some ⟨⟨w, batch⟩, m, n⟩
    else none
  | .byte, ⟨⟨w, .dom .mon :: rest⟩, m, n⟩ =>
    match Console.next ⟨⟨w, .dom .mon :: rest⟩, m, n⟩ with
    | some b =>
      match Console.monEvent sys b m w with
      | .ok m' w' => some ⟨⟨w', rest⟩, m', n + 1⟩
      | .error _ _ => none
    | none => none
  | _, _ => none

lemma consoleExec_step {e : ConsoleEvent} (h : consoleExec sys e c = some c') : ConsoleStep sys c e c' := by
  unfold consoleExec at h
  split at h
  · cases h
    exact .env c _
  · split at h
    · rename_i hw
      cases h
      exact .wait hw.1 hw.2
    · cases h
  · split at h
    · split at h
      · cases h
        exact .byte ‹_› ‹_›
      · cases h
    · cases h
  · cases h

def consoleFrom (sys : Sys) (ok : Console → ConsoleEvent → Prop) [∀ c e, Decidable (ok c e)] (o : Options)
    (es : List ConsoleEvent) : Option Console :=
  match main sys o.specs (boot o) with
  | .ok _ w => execute (consoleExec sys) ok es ⟨⟨w, []⟩, { path0 := slash }, 0⟩
  | .error _ _ => none

lemma exists_consoleReachable (sys : Sys) (ok : Console → ConsoleEvent → Prop) [∀ c e, Decidable (ok c e)]
    (o : Options) (es : List ConsoleEvent) (p : Console → Bool)
    (h : (consoleFrom sys ok o es).any p = true) : ∃ c, ConsoleReachable sys ok c ∧ p c = true := by
  obtain ⟨c, hc, hp⟩ := (Option.any_eq_true _ _).mp h
  unfold consoleFrom at hc
  split at hc
  · rename_i hstart
    have hinit : ConsoleStarted sys o ⟨⟨_, []⟩, { path0 := slash }, 0⟩ :=
      ⟨hstart, rfl, rfl, rfl, rfl, rfl⟩
    exact ⟨c, ⟨o, Reach.execute (fun _ _ _ => consoleExec_step) (.start hinit) hc⟩, hp⟩
  · cases hc

/-- Each byte of a text is typed and read. -/
def typeAndRead (text : List Byte) : List ConsoleEvent :=
  text.flatMap fun b => [.env (.typed .mon b 5), .wait [.dom .mon], .byte]

/-- A line is typed and read, and deletes the command it names. -/
theorem console_refines_del : ∃ c, ConsoleReachable quietSys (fun c e => True ∧ NoNul c e) c ∧
    c.bytesRead = bytes "d a\n" ∧ LoopReachable quietSys (fun _ _ => True) c.loop ∧
    c.mon.lines.reverse = [bytes "d a"] ∧ c.loop.world.gbls.cmds = [] := by
  obtain ⟨c, hc, hp⟩ := exists_consoleReachable quietSys (fun c e => True ∧ NoNul c e) oneCmd
    (typeAndRead (bytes "d a\n"))
    (fun c => decide (c.bytesRead = bytes "d a\n" ∧ c.loop.world.gbls.cmds = [])) (by decide +kernel)
  obtain ⟨hread, hcmds⟩ := of_decide_eq_true hp
  obtain ⟨hloop, -, hlines, -⟩ := @console_refines quietSys c (fun _ _ => True) hc
  refine ⟨c, hc, hread, hloop, ?_, hcmds⟩
  rw [hlines (by rw [hread]; decide), hread]
  decide

end Yar.Proofs
