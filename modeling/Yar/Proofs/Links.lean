import Yar.Proofs.Descriptors

/-!
# Links

When a tty can be created, and which directory entries its creation and cleanup leave behind.
-/

namespace Yar.Proofs

open Program

variable {sys : Sys} {w w' : World} {r : TtyRef} {names : CStr → Option Node} {k m n : ℕ}
  {p : CStr} {ps ns : List CStr} {this : Tty}

/-! ## Paths and calls -/

/-- Links can be made under all the paths: none of them is taken, and no two lead to one entry. -/
structure FreePaths (sys : Sys) (names : CStr → Option Node) (ps : List CStr) : Prop where
  nonempty : ∀ p ∈ ps, p ≠ []
  free : ∀ p ∈ ps, names (sys.resolve p) = none
  distinct : (ps.map sys.resolve).Nodup

instance (sys : Sys) (names : CStr → Option Node) (ps : List CStr) :
    Decidable (FreePaths sys names ps) :=
  decidable_of_iff ((∀ p ∈ ps, p ≠ []) ∧ (∀ p ∈ ps, names (sys.resolve p) = none) ∧
    (ps.map sys.resolve).Nodup) ⟨fun h => ⟨h.1, h.2.1, h.2.2⟩, fun h => ⟨h.1, h.2, h.3⟩⟩

/-- None of the `n` calls from call `k` on fails. -/
def CallsPass (sys : Sys) (k n : ℕ) : Prop := ∀ i < n, sys.fails (k + i) = false

instance (sys : Sys) (k n : ℕ) : Decidable (CallsPass sys k n) :=
  inferInstanceAs (Decidable (∀ i < n, _))

/-- The entries once there are links for `r` under the paths. -/
def linked (sys : Sys) (r : TtyRef) (ps : List CStr) (names : CStr → Option Node) :
    CStr → Option Node :=
  ps.foldl (fun names p => Function.update names (sys.resolve p) (some (.sym r))) names

lemma freePaths_nil : FreePaths sys names [] := ⟨by simp, by simp, by simp⟩

/-- A path that has been linked is no longer free for the others. -/
lemma freePaths_cons (r : TtyRef) : FreePaths sys names (p :: ps) ↔
    (p ≠ [] ∧ names (sys.resolve p) = none) ∧
      FreePaths sys (Function.update names (sys.resolve p) (some (.sym r))) ps := by
  constructor
  · intro h
    have hdistinct := h.distinct
    rw [List.map_cons, List.nodup_cons] at hdistinct
    refine ⟨⟨h.nonempty p List.mem_cons_self, h.free p List.mem_cons_self⟩,
      fun q hq => h.nonempty q (List.mem_cons_of_mem _ hq), fun q hq => ?_, hdistinct.2⟩
    have hne : sys.resolve q ≠ sys.resolve p := by
      intro heq
      exact hdistinct.1 (heq ▸ List.mem_map_of_mem hq)
    rw [Function.update_of_ne hne]
    exact h.free q (List.mem_cons_of_mem _ hq)
  · rintro ⟨⟨hp, hfree⟩, h⟩
    have hne : ∀ q ∈ ps, sys.resolve q ≠ sys.resolve p := by
      intro q hq heq
      have hq' := h.free q hq
      rw [heq, Function.update_self] at hq'
      cases hq'
    refine ⟨fun q hq => ?_, fun q hq => ?_, ?_⟩
    · rcases List.mem_cons.mp hq with rfl | hq
      · exact hp
      · exact h.nonempty q hq
    · rcases List.mem_cons.mp hq with rfl | hq
      · exact hfree
      · rw [← h.free q hq, Function.update_of_ne (hne q hq)]
    · rw [List.map_cons, List.nodup_cons]
      refine ⟨fun hmem => ?_, h.distinct⟩
      obtain ⟨q, hq, heq⟩ := List.mem_map.mp hmem
      exact hne q hq heq

lemma freePaths_append (r : TtyRef) : FreePaths sys names (ps ++ ns) ↔
    FreePaths sys names ps ∧ FreePaths sys (linked sys r ps names) ns := by
  induction ps generalizing names with
  | nil => simp [freePaths_nil, linked]
  | cons p ps ih =>
    rw [List.cons_append, freePaths_cons r, ih, freePaths_cons r, ← and_assoc]
    rfl

lemma callsPass_zero : CallsPass sys k 0 := by simp [CallsPass]

lemma callsPass_one : CallsPass sys k 1 ↔ sys.fails k = false := by
  simp [CallsPass]

lemma callsPass_add : CallsPass sys k (m + n) ↔ CallsPass sys k m ∧ CallsPass sys (k + m) n := by
  constructor
  · intro h
    refine ⟨fun i hi => h i (by omega), fun i hi => ?_⟩
    rw [Nat.add_assoc]
    exact h (m + i) (by omega)
  · rintro ⟨hm, hn⟩ i hi
    by_cases him : i < m
    · exact hm i him
    · have h := hn (i - m) (by omega)
      rwa [show k + m + (i - m) = k + i by omega] at h

/-! ## Creation of the links -/

/-- The world after the creation of one link. -/
def linkedIn (sys : Sys) (r : TtyRef) (w : World) (p : CStr) : World :=
  { called w with
    kern.names := Function.update w.kern.names (sys.resolve p) (some (.sym r))
    trace := .symlink r p :: w.trace }

lemma symlink_true_iff : symlink sys r p w = .ok true w' ↔
    (p ≠ [] ∧ w.kern.names (sys.resolve p) = none) ∧ sys.fails w.kern.calls = false ∧
      w' = linkedIn sys r w p := by
  have hrun : symlink sys r p w = if (p.isEmpty || (w.kern.names (sys.resolve p)).isSome ||
      sys.fails w.kern.calls) = true then .ok false (called w) else .ok true (linkedIn sys r w p) := by
    have hcall : symlink sys r p w = (if (p.isEmpty || (w.kern.names (sys.resolve p)).isSome ||
        sys.fails w.kern.calls) = true then pure false else do
          updKern fun k =>
            { k with names := Function.update k.names (sys.resolve p) (some (.sym r)) }
          note (.symlink r p)
          return true : Act Bool) (called w) := rfl
    rw [hcall]
    split <;> rfl
  rw [hrun]
  split
  case isTrue hno =>
    simp only [Bool.or_eq_true, List.isEmpty_iff, Option.isSome_iff_ne_none] at hno
    constructor
    · intro h
      cases h
    · rintro ⟨⟨hp, hfree⟩, hpass, -⟩
      simp [hp, hfree, hpass] at hno
  case isFalse hok =>
    simp only [Bool.or_eq_true, List.isEmpty_iff, Option.isSome_iff_ne_none, not_or, not_not,
      Bool.not_eq_true] at hok
    constructor
    · intro h
      cases h
      exact ⟨hok.1, hok.2, rfl⟩
    · rintro ⟨-, -, rfl⟩
      rfl

@[simp] lemma foldl_linkedIn_names :
    (ps.foldl (linkedIn sys r) w).kern.names = linked sys r ps w.kern.names := by
  induction ps generalizing w with
  | nil => rfl
  | cons p ps ih => exact ih

@[simp] lemma foldl_linkedIn_calls :
    (ps.foldl (linkedIn sys r) w).kern.calls = w.kern.calls + ps.length := by
  induction ps generalizing w with
  | nil => rfl
  | cons p ps ih =>
    rw [List.foldl_cons, ih, List.length_cons]
    change w.kern.calls + 1 + ps.length = _
    omega

/-- The step of a creation that goes on as long as it succeeds. -/
lemma unless_eq_true {m f : Act Bool} :
    (m >>= fun b => if (!b) = true then pure false else f) w = .ok true w' ↔
      ∃ w₁, m w = .ok true w₁ ∧ f w₁ = .ok true w' := by
  rw [bind_eq_ok]
  constructor
  · rintro ⟨b, w₁, hm, h⟩
    obtain ⟨hb, h⟩ := not_jumped h
    rw [Bool.not_eq_false'] at hb
    exact ⟨w₁, hb ▸ hm, h⟩
  · rintro ⟨w₁, hm, h⟩
    exact ⟨true, w₁, hm, h⟩

lemma ttySymlink_true_iff {name : Option CStr} : ttySymlink sys r name w = .ok true w' ↔
    (FreePaths sys w.kern.names name.toList ∧ CallsPass sys w.kern.calls name.toList.length) ∧
      w' = name.toList.foldl (linkedIn sys r) w := by
  cases name with
  | none => simp [ttySymlink, freePaths_nil, callsPass_zero]
  | some p =>
    change symlink sys r p w = _ ↔ _
    rw [symlink_true_iff, Option.toList_some, freePaths_cons r, List.length_singleton, callsPass_one]
    simp [freePaths_nil, and_assoc]

/-- The extra links have something to point to. -/
def Targeted (this : Tty) : Prop :=
  (this.extralink1.src ≠ none → this.extralink2.dst ≠ none) ∧
    (this.extralink2.src ≠ none → this.extralink2.dst ≠ none)

lemma ttyLinks_true_iff (ht : Targeted this) : ttyLinks sys r this w = .ok true w' ↔
    (FreePaths sys w.kern.names (ttyNames this) ∧
      CallsPass sys w.kern.calls (ttyNames this).length) ∧
      w' = (ttyNames this).foldl (linkedIn sys r) w := by
  unfold ttyLinks
  rw [unless_eq_true]
  simp only [require_bind_eq_ok, unless_eq_true, ttySymlink_true_iff, ttyNames, freePaths_append r,
    List.length_append, callsPass_add, List.foldl_append]
  constructor
  · rintro ⟨w₁, ⟨⟨hu₁, hc₁⟩, rfl⟩, -, w₂, ⟨⟨hu₂, hc₂⟩, rfl⟩, -, ⟨hu₃, hc₃⟩, rfl⟩
    simp only [foldl_linkedIn_names, foldl_linkedIn_calls] at hu₂ hc₂ hu₃ hc₃
    exact ⟨⟨⟨hu₁, hu₂, hu₃⟩, hc₁, hc₂, hc₃⟩, rfl⟩
  · rintro ⟨⟨⟨hu₁, hu₂, hu₃⟩, hc₁, hc₂, hc₃⟩, rfl⟩
    refine ⟨_, ⟨⟨hu₁, hc₁⟩, rfl⟩, ht.1, _, ⟨⟨?_, ?_⟩, rfl⟩, ht.2, ⟨?_, ?_⟩, rfl⟩
    · rwa [foldl_linkedIn_names]
    · rwa [foldl_linkedIn_calls]
    · rwa [foldl_linkedIn_names, foldl_linkedIn_names]
    · rwa [foldl_linkedIn_calls, foldl_linkedIn_calls]

/-! ## The whole creation -/

/-- The world after a call that has yielded a descriptor. -/
def acquired (w : World) : World :=
  { called w with kern.fds := w.kern.nextFd :: w.kern.fds, kern.nextFd := w.kern.nextFd + 1 }

lemma acquire_some_iff {fd : Fd} : acquire sys w = .ok (some fd) w' ↔
    sys.fails w.kern.calls = false ∧ fd = w.kern.nextFd ∧ w' = acquired w := by
  constructor
  · intro h
    rcases acquire_ok h with ⟨-, hfd, -⟩ | ⟨hpass, hfd, hw⟩
    · cases hfd
    · exact ⟨hpass, Option.some.inj hfd, hw⟩
  · rintro ⟨hpass, rfl, rfl⟩
    have hrun : acquire sys w = (if sys.fails w.kern.calls = true then pure none else do
        return some (← openFd) : Act (Option Fd)) (called w) := rfl
    rw [hrun, hpass]
    rfl

/-- The world after the inotify descriptor of `r` has been opened and its watch added. -/
def watched (r : TtyRef) (w : World) : World :=
  (called ((acquired w).updTty r fun this => { this with ifd := some w.kern.nextFd })).updTty r
    fun this => { this with iwd := some w.kern.nextFd }

lemma ttyWatch_true_iff : ttyWatch sys r w = .ok true w' ↔
    CallsPass sys w.kern.calls 2 ∧ w' = watched r w := by
  rw [show (2 : ℕ) = 1 + 1 from rfl, callsPass_add, callsPass_one, callsPass_one]
  constructor
  · intro h
    obtain ⟨o, w₁, hacq, h⟩ := bind_eq_ok.mp h
    cases o with
    | none => cases (pure_eq_ok.mp h).1
    | some fd =>
      obtain ⟨hpass, rfl, rfl⟩ := acquire_some_iff.mp hacq
      replace h := modify_bind_eq_ok.mp h
      obtain ⟨k, w₂, hcall, h⟩ := bind_eq_ok.mp h
      obtain ⟨rfl, rfl⟩ := call_ok hcall
      split at h
      case isTrue => cases (pure_eq_ok.mp h).1
      case isFalse hpass₂ =>
        replace h := modify_bind_eq_ok.mp h
        refine ⟨⟨hpass, ?_⟩, (pure_eq_ok.mp h).2⟩
        rwa [Bool.not_eq_true] at hpass₂
  · rintro ⟨⟨hpass, hpass₂⟩, rfl⟩
    unfold ttyWatch
    rw [bind_of_ok (acquire_some_iff.mpr ⟨hpass, rfl, rfl⟩)]
    refine modify_bind_eq_ok.mpr ?_
    rw [bind_of_ok (show call _ = .ok (w.kern.calls + 1) _ from rfl), hpass₂]
    rfl

/-- What the creation of a tty takes: paths that can be linked, and calls that pass once the three
tests are over. -/
structure Creatable (sys : Sys) (names : CStr → Option Node) (k : ℕ) (ps : List CStr) : Prop where
  unused : FreePaths sys names ps
  calls : CallsPass sys (k + ps.length) (ps.length + 4)

lemma ttyNameTaken_free {name : Option CStr}
    (h : ∀ p ∈ name.toList, w.kern.names (sys.resolve p) = none) :
    ttyNameTaken sys name w = .ok false (calledBy name.toList.length w) := by
  cases name with
  | none => rfl
  | some p =>
    have hrun : ttyNameTaken sys (some p) w = .ok (!p.isEmpty &&
      (w.kern.names (sys.resolve p)).isSome && !sys.fails w.kern.calls) (called w) := rfl
    rw [hrun, h p (by simp)]
    simp [called, calledBy]

lemma ttyNamesTaken_free (h : ∀ p ∈ ttyNames this, w.kern.names (sys.resolve p) = none) :
    ttyNamesTaken sys this w = .ok false (calledBy (ttyNames this).length w) := by
  simp only [ttyNames, List.mem_append] at h
  have h₁ : ttyNameTaken sys this.link w = .ok false (calledBy this.link.toList.length w) :=
    ttyNameTaken_free fun p hp => h p (.inl hp)
  have h₂ : ttyNameTaken sys this.extralink1.src (calledBy this.link.toList.length w) =
      .ok false (calledBy _ (calledBy _ w)) :=
    ttyNameTaken_free fun p hp => h p (.inr (.inl hp))
  have h₃ : ttyNameTaken sys this.extralink2.src (calledBy this.extralink1.src.toList.length
      (calledBy this.link.toList.length w)) = .ok false (calledBy _ (calledBy _ (calledBy _ w))) :=
    ttyNameTaken_free fun p hp => h p (.inr (.inr hp))
  refine (bind_of_ok h₁).trans ((bind_of_ok h₂).trans (h₃.trans ?_))
  simp only [calledBy, ttyNames, List.length_append, Nat.add_assoc]

/-- The world in which the links of `r` are made. -/
def opened (r : TtyRef) (w : World) : World :=
  acquired (((acquired (calledBy (ttyNames (w.ttys r)).length w)).updTty r
    fun this => { this with dfd := some w.kern.nextFd }).updPort r fun _ => {})

/-- The world after the creation of `r`. -/
def createdTty (sys : Sys) (r : TtyRef) (w : World) : World :=
  (watched r ((ttyNames (w.ttys r)).foldl (linkedIn sys r) (opened r w))).updTty r fun this =>
    { this with sfd := some (w.kern.nextFd + 1), rbytes := 0, wbytes := 0, opens := 0 }

lemma opened_calls (r : TtyRef) (w : World) :
    (opened r w).kern.calls = w.kern.calls + (ttyNames (w.ttys r)).length + (1 + 1) :=
  rfl

lemma ttyBuild_true_iff (hd : (w.ttys r).dfd = none) (ht : Targeted (w.ttys r)) :
    ttyBuild sys r w = .ok true w' ↔
      Creatable sys w.kern.names w.kern.calls (ttyNames (w.ttys r)) ∧
        w' = createdTty sys r w := by
  constructor
  · intro h
    obtain ⟨-, h⟩ := require_bind_eq_ok.mp (get_bind_eq_ok.mp h)
    obtain ⟨taken, w₁, htaken, h⟩ := bind_eq_ok.mp h
    obtain ⟨rfl, h⟩ := not_jumped h
    obtain ⟨rfl, -⟩ := ttyNamesTaken_ok htaken
    obtain ⟨o, w₂, hdfd, h⟩ := bind_eq_ok.mp h
    cases o with
    | none => cases (pure_eq_ok.mp h).1
    | some dfd =>
      obtain ⟨hpass₁, rfl, rfl⟩ := acquire_some_iff.mp hdfd
      replace h := modify_bind_eq_ok.mp h
      replace h := modify_bind_eq_ok.mp h
      obtain ⟨o, w₃, hsfd, h⟩ := bind_eq_ok.mp h
      cases o with
      | none => cases (pure_eq_ok.mp h).1
      | some sfd =>
        obtain ⟨hpass₂, rfl, rfl⟩ := acquire_some_iff.mp hsfd
        obtain ⟨w₄, hlinks, h⟩ := unless_eq_true.mp h
        obtain ⟨⟨hunused, hcalls⟩, rfl⟩ := (ttyLinks_true_iff ht).mp hlinks
        obtain ⟨w₅, hwatch, h⟩ := unless_eq_true.mp h
        obtain ⟨hpass₃, rfl⟩ := ttyWatch_true_iff.mp hwatch
        replace h := modify_bind_eq_ok.mp h
        refine ⟨⟨hunused, ?_⟩, (pure_eq_ok.mp h).2⟩
        rw [show (ttyNames (w.ttys r)).length + 4 = 1 + 1 + (ttyNames (w.ttys r)).length + 2 by omega,
          callsPass_add, callsPass_add, callsPass_add, callsPass_one, callsPass_one]
        change CallsPass sys (List.foldl _ (opened r w) _).kern.calls 2 at hpass₃
        rw [foldl_linkedIn_calls, opened_calls, Nat.add_assoc] at hpass₃
        exact ⟨⟨⟨hpass₁, hpass₂⟩, hcalls⟩, hpass₃⟩
  · rintro ⟨⟨hunused, hcalls⟩, rfl⟩
    rw [show (ttyNames (w.ttys r)).length + 4 = 1 + 1 + (ttyNames (w.ttys r)).length + 2 by omega,
      callsPass_add, callsPass_add, callsPass_add, callsPass_one, callsPass_one] at hcalls
    obtain ⟨⟨⟨hpass₁, hpass₂⟩, hcalls⟩, hpass₃⟩ := hcalls
    refine get_bind_eq_ok.mpr (require_bind_eq_ok.mpr ⟨hd, ?_⟩)
    refine (bind_of_ok (ttyNamesTaken_free hunused.free)).trans ?_
    refine (bind_of_ok (acquire_some_iff.mpr ⟨hpass₁, rfl, rfl⟩)).trans ?_
    refine modify_bind_eq_ok.mpr (modify_bind_eq_ok.mpr ?_)
    refine (bind_of_ok (acquire_some_iff.mpr ⟨hpass₂, rfl, rfl⟩)).trans ?_
    refine unless_eq_true.mpr ⟨_, (ttyLinks_true_iff ht).mpr ⟨⟨hunused, hcalls⟩, rfl⟩, ?_⟩
    refine unless_eq_true.mpr ⟨_, ttyWatch_true_iff.mpr ⟨?_, rfl⟩, rfl⟩
    change CallsPass sys (List.foldl _ (opened r w) _).kern.calls 2
    rwa [foldl_linkedIn_calls, opened_calls, Nat.add_assoc]

lemma ttyCreate_true_iff (hd : (w.ttys r).dfd = none) (ht : Targeted (w.ttys r)) :
    ttyCreate sys r w = .ok true w' ↔
      Creatable sys w.kern.names w.kern.calls (ttyNames (w.ttys r)) ∧
        w' = createdTty sys r w := by
  rw [← ttyBuild_true_iff hd ht]
  constructor
  · intro h
    obtain ⟨b, w₁, hbuild, h⟩ := bind_eq_ok.mp h
    cases b with
    | true =>
      obtain ⟨-, rfl⟩ := pure_eq_ok.mp h
      exact hbuild
    | false =>
      obtain ⟨_, w₂, -, h⟩ := bind_eq_ok.mp h
      cases (pure_eq_ok.mp h).1
  · intro h
    exact bind_of_ok h

@[simp] lemma createdTty_names (r : TtyRef) (w : World) : (createdTty sys r w).kern.names =
    linked sys r (ttyNames (w.ttys r)) w.kern.names := by
  change (List.foldl (linkedIn sys r) (opened r w) (ttyNames (w.ttys r))).kern.names = _
  rw [foldl_linkedIn_names]
  rfl

@[simp] lemma createdTty_calls (r : TtyRef) (w : World) : (createdTty sys r w).kern.calls =
    w.kern.calls + (2 * (ttyNames (w.ttys r)).length + 4) := by
  change (List.foldl (linkedIn sys r) (opened r w) (ttyNames (w.ttys r))).kern.calls + 1 + 1 = _
  rw [foldl_linkedIn_calls, opened_calls]
  omega

end Yar.Proofs
