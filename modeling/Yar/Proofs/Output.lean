import Yar.Lib.Matcher
import Yar.Proofs.Io
import Yar.Proofs.Process

/-!
# One byte of output

What `cmdttyProcessOutput` does with a byte, up to the point where it is stored: the read, the
observation and the match against the ready string.
-/

namespace Yar.Proofs

open Program

variable {sys : Sys} {w w' : World} {id : CmdId}

/-- A byte of output against a match that is not complete. -/
structure MatchStep (w w' : World) (id : CmdId) (c : Byte) : Prop where
  lt : (w.heap id).readycnt < w.gbls.readystrlen
  readycnt : (w'.heap id).readycnt =
    if (w.gbls.readystr.getD [])[(w.heap id).readycnt]? = some c then (w.heap id).readycnt + 1 else 0
  count : w'.gbls.cmdsreadycnt =
    w.gbls.cmdsreadycnt + if (w'.heap id).readycnt = w.gbls.readystrlen then 1 else 0
  modifies : Modifies {.ready id, .readycount} w w'

lemma cmdttyMatchReady_cases {c : Byte} {u : Unit} (h : cmdttyMatchReady id c w = .ok u w') :
    (¬(w.gbls.readystrlen ≠ 0 ∧ (w.heap id).readycnt < w.gbls.readystrlen) ∧ w' = w) ∨
      MatchStep w w' id c := by
  have hm : Modifies {.ready id, .readycount} w w' :=
    cmdttyMatchReady_modifies id c (by simp) (by simp) h
  replace h := get_bind_eq_ok.mp h
  rcases when_eq_ok.mp h with ⟨⟨hlen, hlt⟩, h⟩ | ⟨hn, hw⟩
  · by_cases hc : (w.gbls.readystr.getD [])[(w.heap id).readycnt]? = some c
    · rw [if_pos hc] at h
      obtain ⟨_, w₁, hupd, h⟩ := bind_eq_ok.mp h
      obtain ⟨hheap, hgbls, -⟩ := updCmd_ok hupd
      rcases when_eq_ok.mp h with ⟨hfull, h⟩ | ⟨hmore, hw⟩
      · replace h := modify_bind_eq_ok.mp h
        obtain ⟨-, hw⟩ := require_eq_ok.mp h
        have hready : (w'.heap id).readycnt = (w.heap id).readycnt + 1 := by rw [hw, hheap]
        refine .inr ⟨hlt, by rw [if_pos hc, hready], ?_, hm⟩
        rw [hready, if_pos hfull, hw, hgbls]
      · have hready : (w'.heap id).readycnt = (w.heap id).readycnt + 1 := by rw [hw, hheap]
        refine .inr ⟨hlt, by rw [if_pos hc, hready], ?_, hm⟩
        rw [hready, if_neg hmore, hw, hgbls, add_zero]
    · rw [if_neg hc] at h
      obtain ⟨hheap, hgbls, -⟩ := updCmd_ok h
      have hready : (w'.heap id).readycnt = 0 := by rw [hheap]
      refine .inr ⟨hlt, by rw [if_neg hc, hready], ?_, hm⟩
      rw [hready, if_neg (Ne.symm hlen), hgbls, add_zero]
  · exact .inl ⟨hn, hw⟩

/-- The ready string, empty where there is none. -/
def readyword (w : World) : CStr := w.gbls.readystr.getD []

lemma readyword_length (w : World) : (readyword w).length = w.gbls.readystrlen := by
  unfold readyword Globals.readystrlen
  cases w.gbls.readystr <;> rfl

/-- The match of the output is a counting matcher for the ready string. -/
lemma cmdttyMatchReady_step {c : Byte} {u : Unit} (h : cmdttyMatchReady id c w = .ok u w') :
    (w'.heap id).readycnt = Matcher.step (readyword w) (w.heap id).readycnt c := by
  have hlen := readyword_length w
  rcases cmdttyMatchReady_cases h with ⟨hn, rfl⟩ | hs
  · rw [Matcher.step, if_neg (by omega)]
  · have hlt : (w.heap id).readycnt < (readyword w).length := hlen ▸ hs.lt
    rw [hs.readycnt, Matcher.step, if_pos hlt, readyword]

/-- A byte of output that has been read. `w₁` is the state in which it is stored. -/
structure OutputByte (sys : Sys) (w : World) (id : CmdId) (c : Byte) (p : Pid)
    (rest : List (Byte × Pid)) (w₁ w' : World) : Prop where
  queue : (w.kern.ports (.cmd id)).domq = (c, p) :: rest
  nread : (w₁.kern.ports (.cmd id)).nread = (w.kern.ports (.cmd id)).nread + 1
  readycnt : (w₁.heap id).readycnt = Matcher.step (readyword w) (w.heap id).readycnt c
  trace : w₁.trace =
    .output id (w.heap id).name c w.gbls.prefixbcst :: .read (.cmd id) c :: w.trace
  modifies : Modifies {.nread (.cmd id), .oRead (.cmd id), .oOutput, .ready id, .readycount} w w₁
  stored : ∃ w₂ w₃, cmdttyStore id c w₁ = .ok () w₂ ∧
    ttyWriteChar sys (.clt id) c none w₂ = .ok 1 w₃ ∧
    cmdttyBroadcast sys id (cmdbufNtoI (w₁.heap id).bufn) c w₃ = .ok () w'

lemma OutputByte.modifies_rest {c : Byte} {p : Pid} {rest : List (Byte × Pid)} {w₁ : World}
    (h : OutputByte sys w id c p rest w₁ w') :
    Modifies {.ring id, .oWrite (.clt id), .oWrite .bcst} w₁ w' := by
  obtain ⟨w₂, w₃, hstore, hwrite, hbcst⟩ := h.stored
  exact trans_of _ (cmdttyStore_modifies id c (by simp) hstore)
    (trans_of _ (ttyWriteBuf_modifies sys [c] (by simp) (by simp) hwrite)
      (cmdttyBroadcast_modifies sys id _ c (by simp) (by simp) hbcst))

lemma OutputByte.modifies_all {c : Byte} {p : Pid} {rest : List (Byte × Pid)} {w₁ : World}
    (h : OutputByte sys w id c p rest w₁ w') : Modifies (outputParts id) w w' := by
  refine trans_of _ (h.modifies.mono ?_) (h.modifies_rest.mono ?_)
  · rintro q (rfl | rfl | rfl | rfl | rfl) <;> simp [outputParts]
  · rintro q (rfl | rfl | rfl) <;> simp [outputParts]

/-- The output that has been read. -/
def Port.seen (p : Port) : List (Byte × Pid) := p.hist.take p.nread

lemma seen_succ {p : Port} {b : Byte × Pid} {rest : List (Byte × Pid)} (h : p.domq = b :: rest) :
    p.nread + 1 ≤ p.hist.length ∧ p.hist.take (p.nread + 1) = Port.seen p ++ [b] ∧
      p.hist.drop (p.nread + 1) = rest := by
  have hget : p.hist[p.nread]? = some b := by
    rw [← List.head?_drop]
    exact congrArg List.head? h
  have hlt : p.nread < p.hist.length := (List.getElem?_eq_some_iff.mp hget).1
  refine ⟨hlt, ?_, ?_⟩
  · rw [List.take_add_one, hget, Option.toList_some, Port.seen]
  · rw [← List.tail_drop]
    exact congrArg List.tail h

/-- The read may find nothing; otherwise a byte is handled. -/
lemma cmdttyProcessOutput_cases {rd : Read} {n : Int}
    (h : cmdttyProcessOutput sys id rd w = .ok n w') :
    (ReadFails w (.cmd id) rd ∧ Modifies ∅ w w') ∨
      (rd = .ready ∧ ∃ c p rest w₁, OutputByte sys w id c p rest w₁ w') := by
  obtain ⟨⟨n', c⟩, w₀, hread, h⟩ := bind_eq_ok.mp h
  cases ttyReadChar_cases hread with
  | delayed hearly => cases hearly
  | eof hearly hn hdfd hrd hm =>
    rw [hn] at h
    exact (throw_eq_ok.mp h).elim
  | failed hearly hn hfail hm hcalls =>
    rw [hn] at h
    replace h := get_bind_eq_ok.mp h
    obtain ⟨-, h⟩ := require_bind_eq_ok.mp h
    rw [(pure_eq_ok.mp h).2]
    exact .inl ⟨hfail, hm⟩
  | got p rest hearly hn hdfd hrd hq hnread hm htrace hcalls =>
    rw [hn] at h
    replace h := get_bind_eq_ok.mp h
    obtain ⟨_, w₁, hnote, h⟩ := bind_eq_ok.mp h
    obtain ⟨_, w₂, hmatch, h⟩ := bind_eq_ok.mp h
    replace h := get_bind_eq_ok.mp h
    obtain ⟨_, w₃, hstore, h⟩ := bind_eq_ok.mp h
    obtain ⟨written, w₄, hwrite, h⟩ := bind_eq_ok.mp h
    obtain ⟨hwritten, h⟩ := require_bind_eq_ok.mp h
    obtain ⟨_, w₅, hbcst, h⟩ := bind_eq_ok.mp h
    rw [(pure_eq_ok.mp h).2]
    have hw₁ := modify_eq_ok.mp hnote
    have hspec : cmdSpecOf (w₀.heap id) = cmdSpecOf (w.heap id) := hm.spec_eq _ (by simp)
    have hready₀ : (w₀.heap id).readycnt = (w.heap id).readycnt := hm.readycnt_eq (by simp)
    have hstr : w₀.gbls.readystr = w.gbls.readystr := hm.readystr_eq (by simp)
    have hpfx : w₀.gbls.prefixbcst = w.gbls.prefixbcst :=
      (congrArg Globals.prefixbcst (hm.flags_eq (by simp)) :)
    have hname : (w₀.heap id).name = (w.heap id).name := congrArg (·.1) hspec
    have hmatch_m : Modifies {.ready id, .readycount} w₁ w₂ :=
      cmdttyMatchReady_modifies id c (by simp) (by simp) hmatch
    have htrace₂ : w₂.trace = w₁.trace := by
      rcases cmdttyMatchReady_cases hmatch with ⟨-, hw⟩ | hs
      · rw [hw]
      · obtain ⟨l, hl, hS⟩ := hs.modifies.trace
        cases l with
        | nil => exact hl
        | cons o l =>
          have ho := hS o List.mem_cons_self
          cases o <;> simp [obsPart] at ho
    refine .inr ⟨hrd, c, p, rest, w₂, hq, ?_, ?_, ?_, ?_, w₃, w₄, hstore, hwritten ▸ hwrite, hbcst⟩
    · rw [hmatch_m.same (.nread (.cmd id)) (by simp), hw₁]
      exact hnread
    · rw [cmdttyMatchReady_step hmatch, hw₁]
      simp only [readyword, hstr, hready₀]
    · rw [htrace₂, hw₁, ← htrace, hname, hpfx]
    · refine trans_of _ (hm.mono ?_) (trans_of _ (note_modifies (by simp [obsPart]) hnote)
        (hmatch_m.mono ?_))
      · rintro q (rfl | rfl) <;> simp
      · rintro q (rfl | rfl) <;> simp

end Yar.Proofs
