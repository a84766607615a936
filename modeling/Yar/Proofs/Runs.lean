import Mathlib.Data.Nat.Cast.Order.Basic
import Yar.Loop

/-!
# Runs that are executed

A list of events is executed one after the other, with the condition of the run tested
before each. What an execution ends in is reachable, so a run can be given by its events.
-/

namespace Yar.Proofs

open Program Transition

/-- A surrounding in which nothing fails, the clock shows the number of the call and `strtod`
reads decimal digits. -/
def quietSys : Sys where
  clock k := k
  write _ := .full
  fails _ := false
  junk _ := 63
  status _ := 0
  strtod s := some (.fin (s.foldl (fun n c => 10 * n + (c.toNat - 48)) 0))
  resolve := id
  clock_mono := Nat.mono_cast

variable (sys : Sys)

def runEvents (ok : World → Event → Prop) [∀ w e, Decidable (ok w e)] (es : List Event)
    (w : World) : Option World :=
  match es with
  | [] => some w
  | e :: es =>
    if ok w e then
      match e.act sys w with
      | .ok _ w' => runEvents ok es w'
      | .error _ _ => none
    else none

/-- The execution from the options on. -/
def runFrom (ok : World → Event → Prop) [∀ w e, Decidable (ok w e)] (o : Options)
    (es : List Event) : Option World :=
  match main sys o.specs (boot o) with
  | .ok _ w => runEvents sys ok es w
  | .error _ _ => none

def runLoopEvents (ok : Loop → LoopEvent → Prop) [∀ l e, Decidable (ok l e)]
    (es : List LoopEvent) (l : Loop) : Option Loop :=
  match es with
  | [] => some l
  | e :: es =>
    if ok l e then
      match e, l.batch with
      | .env e, _ => runLoopEvents ok es { l with world := e.apply l.world }
      | .wait batch, [] =>
        if Fetched l.world.kern batch then runLoopEvents ok es { l with batch := batch } else none
      | .dispatch x, s :: rest =>
        match hdlr sys s x l.world with
        | .ok _ w' => runLoopEvents ok es ⟨w', rest⟩
        | .error _ _ => none
      | _, _ => none
    else none

def runLoopFrom (ok : Loop → LoopEvent → Prop) [∀ l e, Decidable (ok l e)] (o : Options)
    (es : List LoopEvent) : Option Loop :=
  match main sys o.specs (boot o) with
  | .ok _ w => runLoopEvents sys ok es ⟨w, []⟩
  | .error _ _ => none

/-- The handler returns, in a state that passes the test. -/
def handles (s : Source) (x : Answer) (p : World → Bool) (w : World) : Bool :=
  match hdlr sys s x w with
  | .ok _ w' => p w'
  | .error _ _ => false

variable {sys} {o : Options}

theorem exists_handled {s : Source} {x : Answer} {p : World → Bool} {w : World}
    (h : handles sys s x p w = true) : ∃ w', hdlr sys s x w = .ok () w' ∧ p w' = true := by
  unfold handles at h
  split at h
  · exact ⟨_, ‹_›, h⟩
  · cases h

theorem runEvents_reach {ok : World → Event → Prop} [∀ w e, Decidable (ok w e)]
    {init : World → Prop} {es : List Event} {w w' : World} (hw : Reach init (Step sys) ok w)
    (h : runEvents sys ok es w = some w') : Reach init (Step sys) ok w' := by
  induction es generalizing w with
  | nil =>
    cases h
    exact hw
  | cons e es ih =>
    simp only [runEvents] at h
    split at h
    · split at h
      · exact ih (.next hw ‹_› ‹_›) h
      · cases h
    · cases h

theorem runLoopEvents_reach {ok : Loop → LoopEvent → Prop} [∀ l e, Decidable (ok l e)]
    {init : Loop → Prop} {es : List LoopEvent} {l l' : Loop}
    (hl : Reach init (LoopStep sys) ok l) (h : runLoopEvents sys ok es l = some l') :
    Reach init (LoopStep sys) ok l' := by
  induction es generalizing l with
  | nil =>
    cases h
    exact hl
  | cons e es ih =>
    obtain ⟨w, batch⟩ := l
    simp only [runLoopEvents] at h
    split at h
    · split at h
      · exact ih (.next hl ‹_› (.env _ _)) h
      · split at h
        · exact ih (.next hl ‹_› (.wait ‹_›)) h
        · cases h
      · split at h
        · exact ih (.next hl ‹_› (.dispatch ‹_›)) h
        · cases h
      · cases h
    · cases h

variable (sys)

/-- What holds at the end of an execution holds in a reachable state. -/
theorem exists_reachable (ok : World → Event → Prop) [∀ w e, Decidable (ok w e)] (o : Options)
    (es : List Event) (p : World → Bool) (h : (runFrom sys ok o es).any p = true) :
    ∃ w, Reachable sys ok w ∧ p w = true := by
  obtain ⟨w, hw, hp⟩ := (Option.any_eq_true _ _).mp h
  unfold runFrom at hw
  split at hw
  · exact ⟨w, ⟨o, runEvents_reach (.start ‹_›) hw⟩, hp⟩
  · cases hw

theorem exists_loopReachable (ok : Loop → LoopEvent → Prop) [∀ l e, Decidable (ok l e)]
    (o : Options) (es : List LoopEvent) (p : Loop → Bool)
    (h : (runLoopFrom sys ok o es).any p = true) : ∃ l, LoopReachable sys ok l ∧ p l = true := by
  obtain ⟨l, hl, hp⟩ := (Option.any_eq_true _ _).mp h
  unfold runLoopFrom at hl
  split at hl
  · exact ⟨l, ⟨o, runLoopEvents_reach (.start ⟨‹_›, rfl⟩) hl⟩, hp⟩
  · cases hl

end Yar.Proofs
