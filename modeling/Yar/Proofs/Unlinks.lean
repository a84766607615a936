import Yar.Proofs.Linkless
import Yar.Proofs.Rollback

/-!
# Links

One routine, `ttyCleanup`, removes the links of a tty: of one that is torn down and of one whose creation
failed at any point. `made` says whose each entry of the directory is by what has been linked and
unlinked so far; the directory is what it was at first, but for those entries.
-/

namespace Yar.Proofs

open Program

variable (sys : Sys)

/-- The tty that the entry was made for last, unless it has been removed since. -/
def madeBy (q : CStr) : List Obs → Option TtyRef
  | [] => none
  | .symlink r p :: t => if sys.resolve p = q then some r else madeBy q t
  | .unlink _ p _ :: t => if sys.resolve p = q then none else madeBy q t
  | _ :: t => madeBy q t

/-- Every entry that was unlinked had been made for the same tty, and not been removed since. -/
def OwnUnlinks : List Obs → Prop
  | [] => True
  | .unlink r p _ :: t => madeBy sys (sys.resolve p) t = some r ∧ OwnUnlinks t
  | _ :: t => OwnUnlinks t

def decidableOwnUnlinks : (t : List Obs) → Decidable (OwnUnlinks sys t)
  | [] => .isTrue trivial
  | .unlink _ _ _ :: t =>
    have := decidableOwnUnlinks t
    inferInstanceAs (Decidable (_ ∧ _))
  | .added _ :: t => decidableOwnUnlinks t
  | .removed _ :: t => decidableOwnUnlinks t
  | .forked _ _ :: t => decidableOwnUnlinks t
  | .read _ _ :: t => decidableOwnUnlinks t
  | .output _ _ _ _ :: t => decidableOwnUnlinks t
  | .relay _ _ _ :: t => decidableOwnUnlinks t
  | .write _ _ :: t => decidableOwnUnlinks t
  | .symlink _ _ :: t => decidableOwnUnlinks t

instance (t : List Obs) : Decidable (OwnUnlinks sys t) := decidableOwnUnlinks sys t

/-- Whose each entry of the directory is. -/
def made (w : World) : CStr → Option TtyRef := fun q => madeBy sys q w.trace

/-- The directory is `N`, but for the entries that have been made and not been removed. -/
structure LinksInv (N : CStr → Option Node) (w : World) : Prop where
  own : OwnUnlinks sys w.trace
  names : ∀ q, w.kern.names q = (made sys w q).elim (N q) fun r => some (.sym r)
  fresh : ∀ q r, made sys w q = some r → N q = none

variable {sys} {N : CStr → Option Node} {w w' : World} {r : TtyRef} {p : CStr} {ps qs : List CStr}

lemma madeBy_filter (q : CStr) (t : List Obs) : madeBy sys q (t.filter Obs.isLink) = madeBy sys q t := by
  induction t with
  | nil => rfl
  | cons o t ih => cases o <;> simp [madeBy, Obs.isLink, List.filter_cons, ih]

lemma ownUnlinks_filter (t : List Obs) : OwnUnlinks sys (t.filter Obs.isLink) ↔ OwnUnlinks sys t := by
  induction t with
  | nil => rfl
  | cons o t ih => cases o <;> simp [OwnUnlinks, Obs.isLink, List.filter_cons, ih, madeBy_filter]

lemma dirView_made (h : dirView w' = dirView w) : made sys w' = made sys w := by
  have hlinks : w'.trace.filter Obs.isLink = w.trace.filter Obs.isLink := congrArg DirView.links h
  funext q
  rw [made, made, ← madeBy_filter, hlinks, madeBy_filter]

lemma dirView_own (h : dirView w' = dirView w) : OwnUnlinks sys w'.trace ↔ OwnUnlinks sys w.trace := by
  have hlinks : w'.trace.filter Obs.isLink = w.trace.filter Obs.isLink := congrArg DirView.links h
  rw [← ownUnlinks_filter, hlinks, ownUnlinks_filter]

lemma LinksInv.congr (h : LinksInv sys N w) (hd : dirView w' = dirView w) : LinksInv sys N w' := by
  have hnames : w'.kern.names = w.kern.names := congrArg DirView.names hd
  refine ⟨(dirView_own hd).mpr h.own, ?_, ?_⟩
  · rw [hnames, dirView_made hd]
    exact h.names
  · rw [dirView_made hd]
    exact h.fresh

/-- An entry that a tty has made is its link. -/
lemma LinksInv.names_of_made (h : LinksInv sys N w) {q : CStr} (hq : made sys w q = some r) :
    w.kern.names q = some (.sym r) := by
  rw [h.names, hq]
  rfl

lemma LinksInv.made_of_names (h : LinksInv sys N w) {q : CStr}
    (hq : w.kern.names q = none ∨ w.kern.names q = some .dir) : made sys w q = none := by
  cases hm : made sys w q with
  | none => rfl
  | some r =>
    have hsym := h.names_of_made hm
    rcases hq with hq | hq
    · cases hsym.symm.trans hq
    · cases hsym.symm.trans hq

/-! ## Linking -/

/-- Links have been made for the tty under the paths. -/
structure Makes (sys : Sys) (N : CStr → Option Node) (r : TtyRef) (ps : List CStr) (w w' : World) :
    Prop where
  links : LinksInv sys N w'
  made : ∀ q, made sys w' q = made sys w q ∨
    (q ∈ entries sys ps ∧ made sys w q = none ∧ made sys w' q = some r)

lemma LinksInv.makes (h : LinksInv sys N w) (hd : dirView w' = dirView w) : Makes sys N r ps w w' :=
  ⟨h.congr hd, fun q => .inl (congrFun (dirView_made hd) q)⟩

lemma Makes.trans {w₁ : World} (h : Makes sys N r ps w w₁) (h' : Makes sys N r ps w₁ w') :
    Makes sys N r ps w w' := by
  refine ⟨h'.links, fun q => ?_⟩
  rcases h.made q with hq | ⟨hmem, hnone, hsome⟩
  · rw [← hq]
    exact h'.made q
  · rcases h'.made q with hq' | ⟨-, hnone', -⟩
    · exact .inr ⟨hmem, hnone, hq'.trans hsome⟩
    · cases hsome.symm.trans hnone'

lemma Makes.of_made (h : Makes sys N r ps w w') {q : CStr} (hq : Yar.Proofs.made sys w q = some r) :
    Yar.Proofs.made sys w' q = some r := by
  rcases h.made q with heq | ⟨-, -, hsome⟩
  · exact heq.trans hq
  · exact hsome

lemma symlink_makes (h : LinksInv sys N w) (hp : p ∈ ps) {b : Bool} (hs : symlink sys r p w = .ok b w') :
    Makes sys N r ps w w' ∧ (b = true → made sys w' (sys.resolve p) = some r) := by
  rcases symlink_cases hs with ⟨rfl, rfl, -⟩ | ⟨-, hne, hfree, rfl⟩
  · exact ⟨h.makes rfl, fun hb => by cases hb⟩
  have hnone : made sys w (sys.resolve p) = none := h.made_of_names (.inl hfree)
  have hmade (q : CStr) : made sys { called w with
      kern.names := Function.update w.kern.names (sys.resolve p) (some (.sym r))
      trace := .symlink r p :: w.trace } q = if sys.resolve p = q then some r else made sys w q := rfl
  refine ⟨⟨⟨h.own, fun q => ?_, fun q r' hq => ?_⟩, fun q => ?_⟩, fun _ => ?_⟩
  · rw [hmade]
    by_cases hq : sys.resolve p = q
    · subst hq
      simp
    · rw [if_neg hq]
      simpa [Ne.symm hq] using h.names q
  · rw [hmade] at hq
    by_cases heq : sys.resolve p = q
    · subst heq
      have hN := h.names (sys.resolve p)
      rw [hnone] at hN
      exact hN.symm.trans hfree
    · rw [if_neg heq] at hq
      exact h.fresh q r' hq
  · rw [hmade]
    by_cases hq : sys.resolve p = q
    · subst hq
      exact .inr ⟨mem_entries hne hp, hnone, if_pos rfl⟩
    · exact .inl (if_neg hq)
  · rw [hmade, if_pos rfl]

/-! ## Unlinking -/

/-- What an `unlink` of the path for the tty can meet: a link of the tty, nothing, or a directory. -/
def Removable (sys : Sys) (r : TtyRef) (w : World) (p : CStr) : Prop :=
  p ≠ [] → made sys w (sys.resolve p) = some r ∨ w.kern.names (sys.resolve p) = none ∨
    w.kern.names (sys.resolve p) = some .dir

/-- The links under the paths have been removed. -/
structure Drops (sys : Sys) (N : CStr → Option Node) (ps : List CStr) (w w' : World) : Prop where
  links : LinksInv sys N w'
  made : ∀ q, made sys w' q = if q ∈ entries sys ps then none else made sys w q
  names : ∀ q, w'.kern.names q = w.kern.names q ∨ w'.kern.names q = none

lemma LinksInv.drops_nil (h : LinksInv sys N w) (hd : dirView w' = dirView w) : Drops sys N [] w w' :=
  ⟨h.congr hd, fun q => by rw [dirView_made hd]; simp [entries],
    fun q => .inl (congrFun (congrArg DirView.names hd) q)⟩

lemma Drops.trans {w₁ : World} (h : Drops sys N ps w w₁) (h' : Drops sys N qs w₁ w') :
    Drops sys N (ps ++ qs) w w' := by
  refine ⟨h'.links, fun q => ?_, fun q => ?_⟩
  · rw [h'.made, h.made, entries_append]
    by_cases hq : q ∈ entries sys qs
    · simp [hq]
    · by_cases hp : q ∈ entries sys ps <;> simp [hp, hq]
  · rcases h'.names q with hq | hq
    · rw [hq]
      exact h.names q
    · exact .inr hq

/-- What could be removed still can be. -/
lemma Drops.removable (h : Drops sys N ps w w') (hw : LinksInv sys N w) (hp : Removable sys r w p) :
    Removable sys r w' p := by
  intro hne
  have hgone : w'.kern.names (sys.resolve p) = none ∨
      w'.kern.names (sys.resolve p) = w.kern.names (sys.resolve p) := (h.names _).symm
  rcases hp hne with hmade | hnone | hdir
  · by_cases hmem : sys.resolve p ∈ entries sys ps
    · have hm : Yar.Proofs.made sys w' (sys.resolve p) = none := by rw [h.made, if_pos hmem]
      have hnames := h.links.names (sys.resolve p)
      rw [hm] at hnames
      exact .inr (.inl (hnames.trans (hw.fresh _ r hmade)))
    · exact .inl (by rw [h.made, if_neg hmem, hmade])
  · rcases hgone with hg | hg
    · exact .inr (.inl hg)
    · exact .inr (.inl (hg.trans hnone))
  · rcases hgone with hg | hg
    · exact .inr (.inl hg)
    · exact .inr (.inr (hg.trans hdir))

lemma entries_singleton (hne : p ≠ []) : entries sys [p] = [sys.resolve p] := by simp [entries, hne]

/-- There is nothing that an `unlink` would remove. -/
lemma unlink_nothing (h : w.kern.names (sys.resolve p) = none ∨ w.kern.names (sys.resolve p) = some .dir) :
    unlink sys r p w = .ok () w := by
  apply get_bind_eq_ok.mpr
  rcases h with h | h
  · simp only [h]
    rfl
  · simp only [h]
    rfl

lemma unlink_link {r' : TtyRef} (h : w.kern.names (sys.resolve p) = some (.sym r')) :
    unlink sys r p w = .ok () { w with
      kern.names := Function.update w.kern.names (sys.resolve p) none
      trace := .unlink r p (.sym r') :: w.trace } := by
  apply get_bind_eq_ok.mpr
  simp only [h]
  rfl

lemma unlink_drops (h : LinksInv sys N w) (hne : p ≠ []) (hr : Removable sys r w p) :
    ∃ w', unlink sys r p w = .ok () w' ∧ Drops sys N [p] w w' := by
  have hsame (hnone : made sys w (sys.resolve p) = none) : Drops sys N [p] w w := by
    refine ⟨h, fun q => ?_, fun q => .inl rfl⟩
    rw [entries_singleton hne]
    by_cases hq : q = sys.resolve p
    · subst hq
      simpa using hnone
    · simp [hq]
  rcases hr hne with hmade | hnone | hdir
  · have hrun := unlink_link (r := r) (h.names_of_made hmade)
    have hm (q : CStr) : made sys { w with
        kern.names := Function.update w.kern.names (sys.resolve p) none
        trace := .unlink r p (.sym r) :: w.trace } q =
        if sys.resolve p = q then none else made sys w q := rfl
    refine ⟨_, hrun, ⟨⟨hmade, h.own⟩, fun q => ?_, fun q r' hq => ?_⟩, fun q => ?_, fun q => ?_⟩
    · change Function.update w.kern.names (sys.resolve p) none q = _
      rw [hm]
      by_cases hq : sys.resolve p = q
      · subst hq
        simpa using (h.fresh _ r hmade).symm
      · rw [if_neg hq]
        simpa [Ne.symm hq] using h.names q
    · rw [hm] at hq
      by_cases heq : sys.resolve p = q
      · rw [if_pos heq] at hq
        cases hq
      · rw [if_neg heq] at hq
        exact h.fresh q r' hq
    · rw [hm, entries_singleton hne]
      simp only [List.mem_singleton, eq_comm]
    · change Function.update w.kern.names (sys.resolve p) none q = _ ∨ _
      by_cases hq : q = sys.resolve p
      · subst hq
        exact .inr (by simp)
      · exact .inl (by simp [hq])
  · exact ⟨w, unlink_nothing (.inl hnone), hsame (h.made_of_names (.inl hnone))⟩
  · exact ⟨w, unlink_nothing (.inr hdir), hsame (h.made_of_names (.inr hdir))⟩

lemma ttyUnlink_drops (r : TtyRef) (name : Option CStr) (h : LinksInv sys N w)
    (hr : ∀ p ∈ name.toList, Removable sys r w p) :
    ∃ w', ttyUnlink sys r name w = .ok () w' ∧ Drops sys N name.toList w w' := by
  cases name with
  | none => exact ⟨w, rfl, h.drops_nil rfl⟩
  | some p =>
    cases p with
    | nil => exact ⟨w, rfl, h, fun q => by simp [entries], fun q => .inl rfl⟩
    | cons c path => exact unlink_drops h (List.cons_ne_nil _ _) (hr _ (by simp))

lemma close_linkView (fd : Option Fd) (w : World) :
    ∃ w', close fd w = .ok () w' ∧ linkView w' = linkView w := by
  cases fd with
  | none => exact ⟨w, rfl, rfl⟩
  | some fd => exact ⟨_, rfl, rfl⟩

/-- The cleanup of a tty removes the links under its names, if it can meet nothing else there. -/
lemma ttyCleanup_drops (h : LinksInv sys N w) (hr : ∀ p ∈ ttyNames (w.ttys r), Removable sys r w p) :
    ∃ w', ttyCleanup sys r w = .ok () w' ∧ Drops sys N (ttyNames (w.ttys r)) w w' := by
  obtain ⟨w₁, hifd, hv₁⟩ := close_linkView (w.ttys r).ifd w
  obtain ⟨w₂, hdfd, hv₂⟩ := close_linkView (w.ttys r).dfd w₁
  obtain ⟨w₃, hsfd, hv₃⟩ := close_linkView (w.ttys r).sfd w₂
  have hd₃ : Drops sys N [] w w₃ := h.drops_nil (linkView_dir (hv₃.trans (hv₂.trans hv₁)))
  simp only [ttyNames, List.mem_append] at hr
  obtain ⟨w₄, hlink, hd₄⟩ := ttyUnlink_drops r (w.ttys r).link hd₃.links
    fun p hp => hd₃.removable h (hr p (.inl hp))
  have hd₄' := hd₃.trans hd₄
  obtain ⟨w₅, hextra₁, hd₅⟩ := ttyUnlink_drops r (w.ttys r).extralink1.src hd₄.links
    fun p hp => hd₄'.removable h (hr p (.inr (.inl hp)))
  have hd₅' := hd₄'.trans hd₅
  obtain ⟨w₆, hextra₂, hd₆⟩ := ttyUnlink_drops r (w.ttys r).extralink2.src hd₅.links
    fun p hp => hd₅'.removable h (hr p (.inr (.inr hp)))
  have hlast : Drops sys N [] w₆ (w₆.updTty r fun _ => {}) := hd₆.links.drops_nil rfl
  have hd := (hd₅'.trans hd₆).trans hlast
  refine ⟨w₆.updTty r fun _ => {}, ?_, ?_⟩
  · exact (bind_of_ok hifd).trans <| (bind_of_ok hdfd).trans <| (bind_of_ok hsfd).trans <|
      (bind_of_ok hlink).trans <| (bind_of_ok hextra₁).trans (bind_of_ok hextra₂)
  · simpa [ttyNames] using hd

/-! ## Creation -/

/-- The names lead to nothing that an `unlink` would remove. -/
def Unoccupied (sys : Sys) (names : CStr → Option Node) (ps : List CStr) : Prop :=
  ∀ p ∈ ps, p ≠ [] → names (sys.resolve p) = none ∨ names (sys.resolve p) = some .dir

instance (sys : Sys) (names : CStr → Option Node) (ps : List CStr) :
    Decidable (Unoccupied sys names ps) :=
  inferInstanceAs (Decidable (∀ p ∈ ps, _ → _ ∨ _))

lemma ttySymlink_makes {name : Option CStr} {E : Halt → World → Prop} (h : LinksInv sys N w)
    (hsub : ∀ p ∈ name.toList, p ∈ ps) :
    Ensures (ttySymlink sys r name) w (fun b w' => Makes sys N r ps w w' ∧
      (b = true → ∀ q ∈ entries sys name.toList, made sys w' q = some r)) E := by
  cases name with
  | none => exact Ensures.pure ⟨h.makes rfl, fun _ q hq => by simp [entries] at hq⟩
  | some p =>
    refine Ensures.of_returns (symlink_returns w) fun b w' hs => ?_
    obtain ⟨hm, hmade⟩ := symlink_makes h (hsub p (by simp)) hs
    refine ⟨hm, fun hb q hq => ?_⟩
    obtain ⟨p', hp', rfl⟩ := List.mem_map.mp hq
    obtain rfl : p' = p := by simpa using List.mem_of_mem_filter hp'
    exact hmade hb

lemma ttyLinks_makes {this : Tty} (h : LinksInv sys N w) :
    Ensures (ttyLinks sys r this) w (fun b w' => Makes sys N r (ttyNames this) w w' ∧
      (b = true → ∀ q ∈ entries sys (ttyNames this), made sys w' q = some r))
      fun _ w' => Makes sys N r (ttyNames this) w w' := by
  have link {name : Option CStr} {w₀ : World} (h₀ : LinksInv sys N w₀)
      (hsub : ∀ p ∈ name.toList, p ∈ ttyNames this) :
      Ensures (ttySymlink sys r name) w₀ (fun b w' => Makes sys N r (ttyNames this) w₀ w' ∧
        (b = true → ∀ q ∈ entries sys name.toList, made sys w' q = some r))
        fun _ w' => Makes sys N r (ttyNames this) w w' := ttySymlink_makes h₀ hsub
  refine Ensures.bind (link h fun p hp => List.mem_append_left _ hp) fun b₁ w₁ _ ⟨hm₁, hl₁⟩ => ?_
  refine Ensures.ite (fun _ => Ensures.pure ⟨hm₁, nofun⟩) fun hb₁ => ?_
  have hb₁ : b₁ = true := by simpa using hb₁
  refine Ensures.bind (Ensures.require (Q := fun _ w₂ => w₂ = w₁) (fun _ => rfl) fun _ => hm₁)
    fun _ w₂ _ hw₂ => ?_
  subst hw₂
  refine Ensures.bind (link hm₁.links fun p hp =>
    List.mem_append_right _ (List.mem_append_left _ hp)) fun b₃ w₃ _ ⟨hm₃, hl₃⟩ => ?_
  refine Ensures.ite (fun _ => Ensures.pure ⟨hm₁.trans hm₃, nofun⟩) fun hb₃ => ?_
  have hb₃ : b₃ = true := by simpa using hb₃
  refine Ensures.bind (Ensures.require (Q := fun _ w₄ => w₄ = w₃) (fun _ => rfl) fun _ => hm₁.trans hm₃)
    fun _ w₄ _ hw₄ => ?_
  subst hw₄
  refine (link hm₃.links fun p hp =>
    List.mem_append_right _ (List.mem_append_right _ hp)).mono (fun b₅ w₅ ⟨hm₅, hl₅⟩ => ?_)
    fun _ _ hm₅ => hm₅
  refine ⟨(hm₁.trans hm₃).trans hm₅, fun hb₅ q hq => ?_⟩
  rw [ttyNames, entries_append, entries_append, List.mem_append, List.mem_append] at hq
  rcases hq with hq | hq | hq
  · exact hm₅.of_made (hm₃.of_made (hl₁ hb₁ q hq))
  · exact hm₅.of_made (hl₃ hb₃ q hq)
  · exact hl₅ hb₅ q hq

lemma ttyBuild_makes (h : LinksInv sys N w) :
    Ensures (ttyBuild sys r) w (fun b w' => Makes sys N r (ttyNames (w.ttys r)) w w' ∧
      (b = true → ∀ q ∈ entries sys (ttyNames (w.ttys r)), made sys w' q = some r))
      fun _ w' => Makes sys N r (ttyNames (w.ttys r)) w w' := by
  have jump {w₁ : World} (hd : dirView w₁ = dirView w) :
      Ensures (pure false : Act Bool) w₁ (fun b w' => Makes sys N r (ttyNames (w.ttys r)) w w' ∧
        (b = true → ∀ q ∈ entries sys (ttyNames (w.ttys r)), made sys w' q = some r))
        fun _ w' => Makes sys N r (ttyNames (w.ttys r)) w w' := Ensures.pure ⟨h.makes hd, nofun⟩
  refine Ensures.get_bind (Ensures.bind_fixes (v := dirView) (fun _ w₁ _ h₁ => ?_) fun _ _ hd => h.makes hd)
  refine Ensures.bind_fixes (v := dirView) (fun taken w₂ _ h₂ => ?_) fun _ _ hd => h.makes (hd.trans h₁)
  replace h₂ := h₂.trans h₁
  refine Ensures.ite (fun _ => jump h₂) fun _ => ?_
  refine Ensures.bind_fixes (v := dirView) (fun dfd w₃ _ h₃ => ?_) fun _ _ hd => h.makes (hd.trans h₂)
  replace h₃ := h₃.trans h₂
  cases dfd with
  | none => exact jump h₃
  | some dfd =>
    refine Ensures.bind_fixes (v := dirView) (fun _ w₄ _ h₄ => ?_) fun _ _ hd => h.makes (hd.trans h₃)
    replace h₄ := h₄.trans h₃
    refine Ensures.bind_fixes (v := dirView) (fun _ w₅ _ h₅ => ?_) fun _ _ hd => h.makes (hd.trans h₄)
    replace h₅ := h₅.trans h₄
    refine Ensures.bind_fixes (v := dirView) (fun sfd w₆ _ h₆ => ?_) fun _ _ hd => h.makes (hd.trans h₅)
    replace h₆ := h₆.trans h₅
    cases sfd with
    | none => exact jump h₆
    | some sfd =>
      have hm₆ : Makes sys N r (ttyNames (w.ttys r)) w w₆ := h.makes h₆
      refine Ensures.bind ((ttyLinks_makes hm₆.links).mono (fun _ _ hl => hl) fun _ _ hm => hm₆.trans hm)
        fun linked w₇ _ ⟨hm₇, hl₇⟩ => ?_
      replace hm₇ := hm₆.trans hm₇
      refine Ensures.ite (fun _ => Ensures.pure ⟨hm₇, nofun⟩) fun hlinked => ?_
      have hlinked : linked = true := by simpa using hlinked
      have after {w₈ : World} (hd : dirView w₈ = dirView w₇) : Makes sys N r (ttyNames (w.ttys r)) w w₈ :=
        hm₇.trans (hm₇.links.makes hd)
      refine Ensures.bind_fixes (v := dirView) (fun watch w₈ _ h₈ => ?_) fun _ _ hd => after hd
      refine Ensures.ite (fun _ => Ensures.pure ⟨after h₈, nofun⟩) fun _ => ?_
      refine Ensures.bind_fixes (v := dirView) (fun _ w₉ _ h₉ => ?_) fun _ _ hd => after (hd.trans h₈)
      refine Ensures.pure ⟨after (h₉.trans h₈), fun _ q hq => ?_⟩
      rw [dirView_made (h₉.trans h₈)]
      exact hl₇ hlinked q hq

/-- A creation makes the links of the tty, or leaves the directory as it was. -/
structure Attempted (sys : Sys) (N : CStr → Option Node) (r : TtyRef) (b : Bool) (w w' : World) : Prop where
  links : LinksInv sys N w'
  made : ∀ q, made sys w' q =
    if b = true ∧ q ∈ entries sys (ttyNames (w.ttys r)) then some r else made sys w q

lemma ttyCreate_makes (h : LinksInv sys N w) (hfree : Unoccupied sys w.kern.names (ttyNames (w.ttys r))) :
    Ensures (ttyCreate sys r) w (fun b w' => Attempted sys N r b w w') fun _ w' => OwnUnlinks sys w'.trace := by
  refine Ensures.bind ((ttyBuild_makes h).mono (fun _ _ hb => hb) fun _ _ hm => hm.links.own)
    fun b w₁ hbuild ⟨hm, hl⟩ => ?_
  cases b with
  | true =>
    refine Ensures.pure ⟨hm.links, fun q => ?_⟩
    by_cases hq : q ∈ entries sys (ttyNames (w.ttys r))
    · rw [if_pos ⟨rfl, hq⟩]
      exact hl rfl q hq
    · rw [if_neg fun hc => hq hc.2]
      exact (hm.made q).resolve_right fun hc => hq hc.1
  | false =>
    have hnames := (ttyBuild_building hbuild).tty
    have hremove : ∀ p ∈ ttyNames (w₁.ttys r), Removable sys r w₁ p := by
      intro p hp hne
      rcases hm.made (sys.resolve p) with hq | ⟨-, -, hsome⟩
      · have hsame : w₁.kern.names (sys.resolve p) = w.kern.names (sys.resolve p) := by
          rw [hm.links.names, hq, h.names]
        rw [hsame]
        exact .inr (hfree p (hnames ▸ hp) hne)
      · exact .inl hsome
    obtain ⟨w₂, hclean, hd⟩ := ttyCleanup_drops hm.links hremove
    refine Ensures.of_returns ⟨false, w₂, bind_of_ok hclean⟩ fun b w' hb => ?_
    obtain ⟨rfl, rfl⟩ : false = b ∧ w₂ = w' := by
      cases (bind_of_ok hclean).symm.trans hb
      exact ⟨rfl, rfl⟩
    refine ⟨hd.links, fun q => ?_⟩
    rw [if_neg (fun hc => Bool.false_ne_true hc.1), hd.made, hnames]
    by_cases hq : q ∈ entries sys (ttyNames (w.ttys r))
    · obtain ⟨p, hp, rfl⟩ := List.mem_map.mp hq
      rw [if_pos hq]
      obtain ⟨hp, hne⟩ := List.mem_filter.mp hp
      exact (h.made_of_names (hfree p hp (by simpa using hne))).symm
    · rw [if_neg hq]
      exact (hm.made q).resolve_right fun hc => hq hc.1

end Yar.Proofs
