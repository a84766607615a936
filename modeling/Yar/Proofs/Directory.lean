import Yar.Proofs.Premises
import Yar.Proofs.Creates
import Yar.Proofs.Runs

/-!
# The directory

What yar has made in the directory, at any time, are the links of the ttys there are, and nothing is left
of it when yar exits. That holds as long as no creation of a tty comes upon a name that something else has:
the cleanup after the failure removes that too.
-/

namespace Yar.Proofs

open Program

variable {sys : Sys} {N L : CStr → Option Node} {w w' : World} {r : TtyRef} {id : CmdId}
  {owned owned' : TtyRef → Prop}

/-! ## Who has which links -/

/-- The entries that have been made are those the owned ttys are linked under. -/
structure Holding (sys : Sys) (N L : CStr → Option Node) (owned : TtyRef → Prop) (w : World) : Prop
    extends LinksInv sys N w, Setting sys N L w where
  held : ∀ q r, made sys w q = some r ↔ owned r ∧ q ∈ entries sys (ttyNames (w.ttys r))

/-- The links of the tty are there: it is the monitor's, the broadcast tty once that is in use, or one of
a command of the table. -/
def Linking (w : World) : TtyRef → Prop
  | .mon => True
  | .bcst => w.gbls.bcstflg = true
  | .clt id => id ∈ w.gbls.cmds
  | .cmd id => id ∈ w.gbls.cmds

/-- The invariant of the directory. -/
abbrev DirInv (sys : Sys) (N L : CStr → Option Node) (w : World) : Prop := Holding sys N L (Linking w) w

/-- Nothing is mounted, and the directory is `L`. -/
structure Tidy (L : CStr → Option Node) (w : World) : Prop where
  names : w.kern.names = L
  mounts : w.kern.mounts = []

/-- What an early end leaves: every entry unlinked was the tty's own, and after `exit` there is left what
was to be left. -/
structure Restored (sys : Sys) (L : CStr → Option Node) (e : Halt) (w : World) : Prop where
  own : OwnUnlinks sys w.trace
  left : e = .exit → Tidy L w

lemma linking_congr (hv : linkView w' = linkView w) : Linking w' = Linking w := by
  funext r
  cases r with
  | mon => rfl
  | bcst => simp only [Linking, linkView_bcstflg hv]
  | clt id => simp only [Linking, linkView_cmds hv]
  | cmd id => simp only [Linking, linkView_cmds hv]

/-- Only the names of the owned ttys matter. -/
lemma Holding.congr (h : Holding sys N L owned w) (hd : dirView w' = dirView w)
    (hn : ∀ r, owned r → ttyNames (w'.ttys r) = ttyNames (w.ttys r)) : Holding sys N L owned w' := by
  refine ⟨h.toLinksInv.congr hd, h.toSetting.congr hd, fun q r => ?_⟩
  rw [dirView_made hd, h.held]
  exact and_congr_right fun hr => by rw [hn r hr]

lemma DirInv.congr (h : DirInv sys N L w) (hv : linkView w' = linkView w) : DirInv sys N L w' := by
  have h' := Holding.congr h (linkView_dir hv) fun r _ => linkView_ttyNames hv r
  rwa [← linking_congr hv] at h'

/-- A tty without names may be counted as owned or not. -/
lemma Holding.mono (h : Holding sys N L owned w)
    (heq : ∀ r, ttyNames (w.ttys r) ≠ [] → (owned' r ↔ owned r)) : Holding sys N L owned' w := by
  refine ⟨h.toLinksInv, h.toSetting, fun q r => (h.held q r).trans ?_⟩
  by_cases hr : ttyNames (w.ttys r) = []
  · simp [hr, entries]
  · rw [heq r hr]

/-! ## Cleanup and creation of a tty -/

/-- Of what the invariant looks at only the names of `r` and the directory have changed. -/
structure Around (r : TtyRef) (w w' : World) : Prop where
  ttyNames : ∀ r', r' ≠ r → ttyNames (w'.ttys r') = ttyNames (w.ttys r')
  gbls : w'.gbls = w.gbls
  mounts : w'.kern.mounts = w.kern.mounts

lemma Around.bcstflg (h : Around r w w') : w'.gbls.bcstflg = w.gbls.bcstflg := by rw [h.gbls]

lemma Around.cmds (h : Around r w w') : w'.gbls.cmds = w.gbls.cmds := by rw [h.gbls]

lemma OnlyTtys.around (h : OnlyTtys {r} w w') : Around r w w' := by
  have hobj := h.objects
  simp only [Yar.Proofs.objects, Prod.mk.injEq] at hobj
  exact ⟨fun r' hr => by rw [h.ttys r' hr], hobj.1, h.mounts⟩

lemma Around.linking (h : Around r w w') : Linking w' = Linking w := by
  funext r
  cases r with
  | mon => rfl
  | bcst => simp only [Linking, h.bcstflg]
  | clt id => simp only [Linking, h.cmds]
  | cmd id => simp only [Linking, h.cmds]

lemma Around.setting (h : Around r w w') (hs : Setting sys N L w) : Setting sys N L w' :=
  hs.of_entries h.mounts (by rw [h.gbls]) (by rw [h.gbls]) (by rw [h.gbls])

lemma ttyCleanup_holding (h : Holding sys N L owned w) (hr : owned r ∨ ttyNames (w.ttys r) = []) :
    ∃ w', ttyCleanup sys r w = .ok () w' ∧ Holding sys N L owned w' ∧ ttyNames (w'.ttys r) = [] ∧
      Around r w w' := by
  obtain ⟨w', hclean, hd⟩ := ttyCleanup_drops h.toLinksInv (r := r) fun p hp hne => by
    rcases hr with hr | hr
    · exact .inl ((h.held _ r).mpr ⟨hr, mem_entries hne hp⟩)
    · rw [hr] at hp
      cases hp
  have hnames : ttyNames (w'.ttys r) = [] := by rw [ttyCleanup_tty hclean, ttyNames_default]
  have haround := (ttyCleanup_swept hclean).1.around
  refine ⟨w', hclean, ⟨hd.links, haround.setting h.toSetting, fun q r' => ?_⟩, hnames, haround⟩
  rw [hd.made]
  by_cases heq : r' = r
  · subst heq
    rw [hnames]
    refine ⟨fun hq => ?_, fun hq => by simp [entries] at hq⟩
    by_cases hmem : q ∈ entries sys (ttyNames (w.ttys r'))
    · rw [if_pos hmem] at hq
      cases hq
    · rw [if_neg hmem] at hq
      exact (hmem ((h.held q r').mp hq).2).elim
  · rw [haround.ttyNames r' heq, ← h.held]
    by_cases hmem : q ∈ entries sys (ttyNames (w.ttys r))
    · rw [if_pos hmem]
      refine ⟨fun hq => (Option.some_ne_none r' hq.symm).elim, fun hq => ?_⟩
      rcases hr with hr | hr
      · have hq' := (h.held q r).mpr ⟨hr, hmem⟩
        exact (heq (Option.some_inj.mp (hq.symm.trans hq'))).elim
      · simp [hr, entries] at hmem
    · rw [if_neg hmem]

lemma ttyCreate_around {b : Bool} (h : ttyCreate sys r w = .ok b w') : Around r w w' := by
  cases b with
  | false => exact (ttyCreate_swept h).1.around
  | true =>
    obtain ⟨c, w₁, hbuild, h⟩ := bind_eq_ok.mp h
    cases c with
    | false =>
      obtain ⟨_, w₂, -, h⟩ := bind_eq_ok.mp h
      cases (pure_eq_ok.mp h).1
    | true =>
      obtain ⟨-, rfl⟩ := pure_eq_ok.mp h
      exact (ttyBuild_building hbuild).toOnlyTtys.around

/-- What a creation ends in: the tty owns the links under its names, or has no names any more. -/
structure Tried (sys : Sys) (N L : CStr → Option Node) (owned : TtyRef → Prop) (r : TtyRef) (b : Bool)
    (w w' : World) : Prop where
  holding : Holding sys N L (fun r' => owned r' ∨ r' = r) w'
  failed : b = false → ttyNames (w'.ttys r) = []
  around : Around r w w'

lemma ttyCreate_holding (h : Holding sys N L owned w) (hr : ¬owned r)
    (hfree : Unoccupied sys w.kern.names (ttyNames (w.ttys r))) :
    Ensures (ttyCreate sys r) w (fun b w' => Tried sys N L owned r b w w') (Restored sys L) := by
  have hm := ttyCreate_makes h.toLinksInv hfree
  refine ⟨fun b w' hc => ?_, fun e w' hc => ⟨hm.error e w' hc, ?_⟩⟩
  · have ha := hm.ok b w' hc
    have haround := ttyCreate_around hc
    refine ⟨⟨ha.links, haround.setting h.toSetting, fun q r' => ?_⟩, fun hb => ?_, haround⟩
    · rw [ha.made]
      cases b with
      | false =>
        rw [if_neg fun hc => Bool.false_ne_true hc.1, h.held]
        by_cases heq : r' = r
        · subst heq
          simp [hr, ttyCreate_failed hc, ttyNames_default, entries]
        · simp [heq, haround.ttyNames r' heq]
      | true =>
        have hwhole := (ttyCreate_whole hc).2
        have hnames : ttyNames (w'.ttys r) = ttyNames (w.ttys r) := by
          rw [ttyNames, ttyNames, hwhole.link, hwhole.extralink1, hwhole.extralink2]
        by_cases hq : q ∈ entries sys (ttyNames (w.ttys r))
        · rw [if_pos ⟨rfl, hq⟩]
          refine ⟨fun heq => ?_, fun hheld => ?_⟩
          · obtain rfl := Option.some_inj.mp heq
            exact ⟨.inr rfl, hnames ▸ hq⟩
          · obtain ⟨hor, hmem⟩ := hheld
            by_cases heq : r' = r
            · rw [heq]
            · have hheld := (h.held q r').mpr ⟨hor.resolve_right heq, haround.ttyNames r' heq ▸ hmem⟩
              obtain ⟨p, hp, rfl⟩ := List.mem_map.mp hq
              obtain ⟨hp, hne⟩ := List.mem_filter.mp hp
              have hnone := h.toLinksInv.made_of_names (hfree p hp (by simpa using hne))
              cases hheld.symm.trans hnone
        · rw [if_neg fun hc => hq hc.2, h.held]
          by_cases heq : r' = r
          · subst heq
            simp [hr, hnames, hq]
          · simp [heq, haround.ttyNames r' heq]
    · subst hb
      rw [ttyCreate_failed hc, ttyNames_default]
  · rintro rfl
    exact (Avoids.avoids (e := Halt.exit) (m := ttyCreate sys r) w w' hc).elim

/-! ## Functions that leave the links alone -/

section
variable {α β : Type} {m : Act α} {f : α → Act β} {Q : β → World → Prop}

lemma LinksInv.restored (h : LinksInv sys N w) (hd : dirView w' = dirView w) {e : Halt} (he : e ≠ .exit) :
    Restored sys L e w' :=
  ⟨(h.congr hd).own, fun heq => (he heq).elim⟩

/-- A first part that leaves the directory alone and does not exit. -/
lemma LinksInv.bind [hv : Fixes dirView m] [hm : NoExit m] (h : LinksInv sys N w)
    (hf : ∀ a t, m w = .ok a t → dirView t = dirView w → Ensures (f a) t Q (Restored sys L)) :
    Ensures (m >>= f) w Q (Restored sys L) :=
  Ensures.bind (Q := fun _ t => dirView t = dirView w) ⟨fun _ _ => hv.of_ok, fun _ t ht =>
    h.restored (hv.of_error ht) fun he => hm.avoids w t (he ▸ ht)⟩ hf

/-- A first part that leaves the links alone and does not exit. -/
lemma LinksInv.bind_linkless [hv : Linkless m] [NoExit m] (h : LinksInv sys N w)
    (hf : ∀ a t, m w = .ok a t → linkView t = linkView w → Ensures (f a) t Q (Restored sys L)) :
    Ensures (m >>= f) w Q (Restored sys L) :=
  h.bind fun a t ht _ => hf a t ht (hv.of_ok ht)

lemma DirInv.linkless [hv : Linkless m] [hm : NoExit m] (h : DirInv sys N L w) :
    Ensures m w (fun _ => DirInv sys N L) (Restored sys L) :=
  ⟨fun _ _ ht => DirInv.congr h (hv.of_ok ht), fun _ t ht =>
    h.toLinksInv.restored (linkView_dir (hv.of_error ht)) fun he => hm.avoids w t (he ▸ ht)⟩

end

/-! ## Cleanup -/

/-- The ttys of the command have no names any more, and the names of no other have changed. -/
structure Unlinked (id : CmdId) (w w' : World) : Prop where
  clt : ttyNames (w'.ttys (.clt id)) = []
  cmd : ttyNames (w'.ttys (.cmd id)) = []
  others : ∀ r, r ≠ .clt id → r ≠ .cmd id → ttyNames (w'.ttys r) = ttyNames (w.ttys r)
  bcstflg : w'.gbls.bcstflg = w.gbls.bcstflg

lemma cmdCleanup_holding (h : Holding sys N L owned w)
    (hclt : owned (.clt id) ∨ ttyNames (w.ttys (.clt id)) = [])
    (hcmd : owned (.cmd id) ∨ ttyNames (w.ttys (.cmd id)) = []) :
    Ensures (cmdCleanup sys id) w (fun _ w' => Holding sys N L owned w' ∧ Unlinked id w w' ∧
      w'.gbls.cmds = w.gbls.cmds) (Restored sys L) := by
  refine h.toLinksInv.bind_linkless fun _ w₁ _ hv => ?_
  have hn := linkView_ttyNames hv
  have h₁ := h.congr (linkView_dir hv) fun r _ => hn r
  rw [← hn] at hclt hcmd
  obtain ⟨w₂, hclean₂, h₂, hnames₂, ha₂⟩ := ttyCleanup_holding h₁ hcmd
  rw [← ha₂.ttyNames (.clt id) (by simp)] at hclt
  obtain ⟨w₃, hclean₃, h₃, hnames₃, ha₃⟩ := ttyCleanup_holding h₂ hclt
  refine Ensures.of_eq ((bind_of_ok hclean₂).trans (bind_of_ok hclean₃)) ⟨?_, ⟨?_, ?_, ?_, ?_⟩, ?_⟩
  · exact h₃.congr rfl fun _ _ => rfl
  · exact hnames₃
  · exact (ha₃.ttyNames (.cmd id) (by simp)).trans hnames₂
  · exact fun r hr hr' => (ha₃.ttyNames r hr).trans ((ha₂.ttyNames r hr').trans (hn r))
  · exact ha₃.bcstflg.trans (ha₂.bcstflg.trans (linkView_bcstflg hv))
  · exact ha₃.cmds.trans (ha₂.cmds.trans (linkView_cmds hv))

/-- The command is in the table, or its ttys have no names any more. -/
def Clearable (w : World) (id : CmdId) : Prop :=
  id ∈ w.gbls.cmds ∨ ttyNames (w.ttys (.clt id)) = [] ∧ ttyNames (w.ttys (.cmd id)) = []

lemma Clearable.linking (h : Clearable w id) :
    (Linking w (.clt id) ∨ ttyNames (w.ttys (.clt id)) = []) ∧
      (Linking w (.cmd id) ∨ ttyNames (w.ttys (.cmd id)) = []) :=
  h.elim (fun hid => ⟨.inl hid, .inl hid⟩) fun hn => ⟨.inr hn.1, .inr hn.2⟩

/-- A command whose ttys have no names leaves the table. -/
lemma hashDel_holding (h : DirInv sys N L w) (hclt : ttyNames (w.ttys (.clt id)) = [])
    (hcmd : ttyNames (w.ttys (.cmd id)) = []) :
    Ensures (hashDel id) w (fun _ w' => DirInv sys N L w' ∧ Unlinked id w w' ∧
      ∀ j, j ≠ id → (j ∈ w'.gbls.cmds ↔ j ∈ w.gbls.cmds)) (Restored sys L) := by
  refine Ensures.of_returns ⟨_, _, rfl⟩ fun _ w₂ hdel => ?_
  obtain rfl := hashDel_ok hdel
  have hmem (j : CmdId) (hj : j ≠ id) : j ∈ w.gbls.cmds.filter (· ≠ id) ↔ j ∈ w.gbls.cmds := by
    simp [hj]
  refine ⟨?_, ⟨hclt, hcmd, fun _ _ _ => rfl, rfl⟩, hmem⟩
  refine Holding.congr (h.mono fun r hr => ?_) rfl fun _ _ => rfl
  cases r with
  | mon => rfl
  | bcst => rfl
  | clt j => exact hmem j fun hj => hr (hj ▸ hclt)
  | cmd j => exact hmem j fun hj => hr (hj ▸ hcmd)

lemma cmdCleanup_dirInv (h : DirInv sys N L w) (hid : Clearable w id) :
    Ensures (cmdCleanup sys id) w (fun _ w' => DirInv sys N L w' ∧ Unlinked id w w' ∧
      w'.gbls.cmds = w.gbls.cmds) (Restored sys L) := by
  refine (cmdCleanup_holding h hid.linking.1 hid.linking.2).mono (fun _ w₁ ⟨h₁, hu, hcmds⟩ => ?_)
    fun _ _ he => he
  have hlink : Linking w₁ = Linking w := by
    funext r
    cases r <;> simp only [Linking, hcmds, hu.bcstflg]
  exact ⟨by rwa [← hlink] at h₁, hu, hcmds⟩

lemma remove_holding (h : DirInv sys N L w) (hid : Clearable w id) :
    Ensures (do cmdCleanup sys id; hashDel id) w (fun _ w' => DirInv sys N L w' ∧ Unlinked id w w' ∧
      ∀ j, Clearable w j → Clearable w' j) (Restored sys L) := by
  refine Ensures.bind (cmdCleanup_dirInv h hid) fun _ w₁ _ ⟨h₁, hu, hcmds⟩ => ?_
  refine (hashDel_holding h₁ hu.clt hu.cmd).mono (fun _ w₂ ⟨h₂, hu₂, hmem⟩ => ?_) fun _ _ he => he
  have hothers (r : TtyRef) (hr : r ≠ .clt id) (hr' : r ≠ .cmd id) :
      ttyNames (w₂.ttys r) = ttyNames (w.ttys r) := (hu₂.others r hr hr').trans (hu.others r hr hr')
  refine ⟨h₂, ⟨hu₂.clt, hu₂.cmd, hothers, hu₂.bcstflg.trans hu.bcstflg⟩, fun j hj => ?_⟩
  by_cases heq : j = id
  · subst heq
    exact .inr ⟨hu₂.clt, hu₂.cmd⟩
  · rcases hj with hj | ⟨hclt, hcmd⟩
    · exact .inl ((hmem j heq).mpr (hcmds ▸ hj))
    · exact .inr ⟨(hothers _ (by simp [heq]) (by simp)).trans hclt,
        (hothers _ (by simp) (by simp [heq])).trans hcmd⟩

/-- A world after which `cleanup` has only the mount point, the monitor and the log left to go. -/
structure Midway (sys : Sys) (N L : CStr → Option Node) (w : World) : Prop where
  dir : DirInv sys N L w
  bcst : w.gbls.bcstflg = true → ttyNames (w.ttys .bcst) = []

/-- The mount point goes. -/
lemma Midway.unmounted (h : Midway sys N L w) : ∃ N', Midway sys N' L (unmounted sys w) ∧
    mountEntry sys (unmounted sys w).gbls = none ∧ (unmounted sys w).kern.mounts = [] := by
  obtain ⟨N', hl, hs, hentry, hmounts⟩ := h.dir.toSetting.unmounted h.dir.toLinksInv
  obtain ⟨httys, htrace, hflg, hcmds⟩ : (Proofs.unmounted sys w).ttys = w.ttys ∧
      (Proofs.unmounted sys w).trace = w.trace ∧ (Proofs.unmounted sys w).gbls.bcstflg = w.gbls.bcstflg ∧
      (Proofs.unmounted sys w).gbls.cmds = w.gbls.cmds := by
    unfold Proofs.unmounted
    split
    · split <;> exact ⟨rfl, rfl, rfl, rfl⟩
    · exact ⟨rfl, rfl, rfl, rfl⟩
  have hlink : Linking (Proofs.unmounted sys w) = Linking w := by
    funext r
    cases r <;> simp only [Linking, hflg, hcmds]
  refine ⟨N', ⟨⟨hl, hs, fun q r => ?_⟩, fun hon => ?_⟩, hentry, hmounts⟩
  · rw [hlink, made, htrace, httys]
    exact h.dir.held q r
  · rw [httys]
    exact h.bcst (hflg ▸ hon)

/-- With the links of the monitor gone nothing is left that a tty has made. -/
lemma Midway.nothing_made (h : Midway sys N L w) (hmon : ttyNames (w.ttys .mon) = [])
    (hcmds : w.gbls.cmds = []) (q : CStr) : made sys w q = none := by
  rw [Option.eq_none_iff_forall_ne_some]
  intro r hr
  obtain ⟨hlink, hmem⟩ := (h.dir.held q r).mp hr
  cases r with
  | mon => simp [hmon, entries] at hmem
  | bcst => simp [h.bcst hlink, entries] at hmem
  | clt id => simp [Linking, hcmds] at hlink
  | cmd id => simp [Linking, hcmds] at hlink

/-- The end of `cleanup`, from the log on. -/
lemma Midway.closed (h : Midway sys N L w) (hmon : ttyNames (w.ttys .mon) = []) (hcmds : w.gbls.cmds = [])
    (hentry : mountEntry sys w.gbls = none) (hmounts : w.kern.mounts = []) :
    DirInv sys L L { logClosed sys w with gbls := (logClosed sys w).gbls.clear } ∧
      Tidy L { logClosed sys w with gbls := (logClosed sys w).gbls.clear } := by
  obtain ⟨hl, hs, hmounts'⟩ := h.dir.toSetting.logClosed h.dir.toLinksInv hentry hmounts
  obtain ⟨httys, htrace, hflg, hcmds'⟩ : (logClosed sys w).ttys = w.ttys ∧
      (logClosed sys w).trace = w.trace ∧ (logClosed sys w).gbls.bcstflg = w.gbls.bcstflg ∧
      (logClosed sys w).gbls.cmds = w.gbls.cmds := by
    unfold logClosed
    split <;> exact ⟨rfl, rfl, rfl, rfl⟩
  have hnone (q : CStr) : made sys (logClosed sys w) q = none := by
    rw [made, htrace]
    exact h.nothing_made hmon hcmds q
  refine ⟨⟨⟨hl.own, hl.names, hl.fresh⟩, hs, fun q r => ?_⟩, ⟨funext fun q => ?_, hmounts'⟩⟩
  · have hlinking : Linking { logClosed sys w with gbls := (logClosed sys w).gbls.clear } = Linking w := by
      funext r
      cases r with
      | mon => rfl
      | bcst => exact congrArg (· = true) hflg
      | clt id => exact congrArg (id ∈ ·) hcmds'
      | cmd id => exact congrArg (id ∈ ·) hcmds'
    rw [hlinking, made, htrace, httys]
    exact h.dir.held q r
  · change (logClosed sys w).kern.names q = L q
    rw [hl.names, hnone]
    rfl

/-- After `cleanup` nothing is left that yar made, but for a log that is kept. -/
lemma cleanup_holding (h : DirInv sys N L w) :
    Ensures (cleanup sys) w (fun _ w' => DirInv sys L L w' ∧ Tidy L w') (Restored sys L) := by
  refine Ensures.get_bind (Ensures.bind (Q := fun _ w₁ => Midway sys N L w₁ ∧
    ∀ id ∈ w.gbls.cmds, Clearable w₁ id) (Ensures.when (fun hflg => ?_) fun hflg => ?_) fun _ w₁ h₁ hpre => ?_)
  · obtain ⟨w₁, hclean, h₁, hnames, ha⟩ := ttyCleanup_holding h (r := .bcst) (.inl hflg)
    refine Ensures.of_eq hclean ⟨⟨?_, fun _ => hnames⟩, fun id hid => .inl (ha.cmds ▸ hid)⟩
    rwa [← ha.linking] at h₁
  · exact ⟨⟨h, fun hc => (hflg hc).elim⟩, fun id hid => .inl hid⟩
  refine Ensures.bind (Ensures.forM (P := fun w₁ => Midway sys N L w₁ ∧ ∀ id ∈ w.gbls.cmds, Clearable w₁ id)
    (fun id hid w₂ hpre => ?_) hpre) fun _ w₃ hall hpost => ?_
  · obtain ⟨h₂, hclear₂⟩ := hpre
    refine (remove_holding h₂.dir (hclear₂ id hid)).mono (fun _ w₃ hpost => ?_) fun _ _ he => he
    obtain ⟨h₃, hu, hclear₃⟩ := hpost
    refine ⟨⟨h₃, fun hflg => ?_⟩, fun j hj => hclear₃ j (hclear₂ j hj)⟩
    rw [hu.others .bcst (by simp) (by simp)]
    exact h₂.bcst (hu.bcstflg ▸ hflg)
  · have hcmds : w₃.gbls.cmds = [] := by
      have hcmds₁ : w₁.gbls.cmds = w.gbls.cmds := by
        rcases when_eq_ok.mp h₁ with ⟨-, hclean⟩ | ⟨-, rfl⟩
        · exact (ttyCleanup_swept hclean).1.around.cmds
        · rfl
      rw [removeAll_cmds hall, hcmds₁, List.filter_eq_nil_iff]
      simp
    have h₄ : Midway sys N L { w₃ with gbls.slowestcmd := none } := ⟨DirInv.congr hpost.1.dir rfl, hpost.1.bcst⟩
    obtain ⟨N', h₅, hentry, hmounts⟩ := h₄.unmounted
    have hcmds₅ : (unmounted sys { w₃ with gbls.slowestcmd := none }).gbls.cmds = [] :=
      unmounted_cmds.trans hcmds
    refine Ensures.modify_bind (Ensures.bind_of_eq (fsCleanup_unmounts sys _) ?_)
    obtain ⟨w₆, hclean, h₆, hnames, ha⟩ := ttyCleanup_holding h₅.dir (r := .mon) (.inl trivial)
    rw [← ha.linking] at h₆
    have hempty : Midway sys N' L w₆ :=
      ⟨h₆, fun hflg => (ha.ttyNames .bcst (by simp)).trans (h₅.bcst (ha.bcstflg ▸ hflg))⟩
    have hentry₆ : mountEntry sys w₆.gbls = none := by rw [ha.gbls, hentry]
    refine Ensures.bind_of_eq hclean (Ensures.bind_of_eq (logCleanup_closes sys _) (Ensures.modifyState ?_))
    exact hempty.closed hnames (ha.cmds.trans hcmds₅) hentry₆ (ha.mounts.trans hmounts)

lemma exit_holding {α : Type} {Q : α → World → Prop} (h : DirInv sys N L w) :
    Ensures (exit sys : Act α) w Q (Restored sys L) :=
  Ensures.bind (cleanup_holding h) fun _ _ _ ⟨h', hleft⟩ => Ensures.throw ⟨h'.own, fun _ => hleft⟩

lemma exitIfIdle_holding (h : DirInv sys N L w) :
    Ensures (exitIfIdle sys) w (fun _ => DirInv sys N L) (Restored sys L) :=
  Ensures.get_bind (Ensures.when (fun _ => Ensures.bind (cleanup_holding h) fun _ _ _ ⟨h', _⟩ =>
    exit_holding h') fun _ => h)

/-- A removal, up to the exit that it may bring about. -/
lemma removal_holding (h : DirInv sys N L w) (hid : Clearable w id) :
    Ensures (do cmdCleanup sys id; hashDel id; exitIfIdle sys) w (fun _ => DirInv sys N L)
      (Restored sys L) := by
  have hr := remove_holding h hid
  have hassoc : (do cmdCleanup sys id; hashDel id; exitIfIdle sys : Act Unit) =
      (do cmdCleanup sys id; hashDel id) >>= fun _ => exitIfIdle sys := by
    rw [bind_assoc]
  rw [hassoc]
  exact Ensures.bind hr fun _ _ _ ⟨h', _⟩ => exitIfIdle_holding h'

lemma cmdPidEvent_holding (h : DirInv sys N L w) (hid : id ∈ w.gbls.cmds) :
    Ensures (cmdPidEvent sys id) w (fun _ => DirInv sys N L) (Restored sys L) := by
  refine h.toLinksInv.bind_linkless fun _ w₁ _ hv => ?_
  have h₁ := DirInv.congr h hv
  have hid₁ : Clearable w₁ id := .inl (linkView_cmds hv ▸ hid)
  refine Ensures.get_bind (Ensures.ite (fun _ => ?_) fun _ => DirInv.linkless h₁)
  refine Ensures.get_bind (Ensures.get_bind ?_)
  refine Ensures.bind (cmdCleanup_dirInv h₁ hid₁) fun _ w₂ _ ⟨h₂, hu, _⟩ => ?_
  cases w₁.hashFind (w₁.heap id).name with
  | none => exact Ensures.pure h₂
  | some cmd =>
    refine h₂.toLinksInv.bind_linkless fun _ w₃ _ hv₃ => ?_
    have hn := linkView_ttyNames hv₃
    refine Ensures.bind (hashDel_holding (DirInv.congr h₂ hv₃) ((hn _).trans hu.clt) ((hn _).trans hu.cmd))
      fun _ w₄ _ ⟨h₄, _⟩ => ?_
    exact exitIfIdle_holding h₄

/-! ## Additions -/

lemma ttyInit_names {ttylink src₁ dst₁ src₂ dst₂ : Option CStr} {u : Unit}
    (h : ttyInit r ttylink src₁ dst₁ src₂ dst₂ w = .ok u w') :
    Around r w w' ∧ dirView w' = dirView w ∧ w'.brk = w.brk ∧
      ttyNames (w'.ttys r) = ttylink.toList ++ (src₁.toList ++ src₂.toList) := by
  obtain ⟨-, rfl⟩ := ttyInit_ok h
  exact ⟨⟨fun r' hr => by simp [World.updTty, hr], rfl, rfl⟩, rfl, rfl, by simp [World.updTty, ttyNames]⟩

/-- The names of a tty that owns nothing may be set. -/
lemma Holding.around (h : Holding sys N L owned w) (hr : ¬owned r) (hd : dirView w' = dirView w)
    (ha : Around r w w') : Holding sys N L owned w' :=
  h.congr hd fun r' hr' => ha.ttyNames r' fun heq => hr (heq ▸ hr')

/-- What `cmdInit` leaves: a command without a tty whose second tty has no names. -/
lemma cmdInit_holding {name cmdline : CStr} {delay : Double} {ttylink log : Option CStr} {u : Unit}
    (h : Holding sys N L owned w) (hclt : ¬owned (.clt id)) (hcmd : ¬owned (.cmd id))
    (hi : cmdInit id name cmdline delay ttylink log w = .ok u w') :
    Holding sys N L owned w' ∧ ttyNames (w'.ttys (.cmd id)) = [] ∧ w'.gbls.cmds = w.gbls.cmds ∧
      w'.gbls.bcstflg = w.gbls.bcstflg ∧
      ∀ r, r ≠ .clt id → r ≠ .cmd id → ttyNames (w'.ttys r) = ttyNames (w.ttys r) := by
  obtain ⟨-, hi⟩ := require_bind_eq_ok.mp hi
  replace hi := modify_bind_eq_ok.mp (get_bind_eq_ok.mp hi)
  obtain ⟨_, w₁, hi₁, hi⟩ := bind_eq_ok.mp hi
  replace hi := get_bind_eq_ok.mp hi
  obtain ⟨ha₁, hd₁, -, hn₁⟩ := ttyInit_names hi₁
  obtain ⟨ha₂, hd₂, -, -⟩ := ttyInit_names hi
  have h₁ : Holding sys N L owned w₁ := by
    refine Holding.around ?_ hcmd hd₁ ha₁
    exact h.congr rfl fun _ _ => rfl
  refine ⟨h₁.around hclt hd₂ ha₂, ?_, ?_, ?_, fun r hr hr' => ?_⟩
  · rw [ha₂.ttyNames (.cmd id) (by simp), hn₁]
    rfl
  · exact ha₂.cmds.trans ha₁.cmds
  · exact ha₂.bcstflg.trans ha₁.bcstflg
  · exact (ha₂.ttyNames r hr).trans (ha₁.ttyNames r hr')

/-- No creation of the list comes upon a name that something else has. -/
def Free (sys : Sys) (cs : List (TtyRef × World)) : Prop :=
  ∀ c ∈ cs, Unoccupied sys c.2.kern.names (ttyNames (c.2.ttys c.1))

instance (sys : Sys) (cs : List (TtyRef × World)) : Decidable (Free sys cs) :=
  inferInstanceAs (Decidable (∀ c ∈ cs, _))

/-- The part of an addition after the command has been filled in. -/
lemma addRest_holding {cstr : CStr} {spec : CmdSpec} {w₀ : World} (h : Holding sys N L (Linking w) w)
    (hclt : ¬Linking w (.clt id)) (hcmd : ¬Linking w (.cmd id)) (hnames : ttyNames (w.ttys (.cmd id)) = [])
    (hinit : addInit sys cstr w₀ = .ok (some id) w) (hfree : Free sys (addCreates sys cstr w₀)) :
    Ensures (do
      if !(← cmdCreate sys id) then do
        cmdCleanup sys id
        return none
      else do
        updSlowest id spec.delay
        updGbls fun g => { g with cmds := g.cmds ++ [id] }
        note (.added id)
        return some id : Act (Option CmdId)) w
      (fun _ w' => DirInv sys N L w' ∧ w'.gbls.bcstflg = w.gbls.bcstflg ∧
        ∀ r, r ≠ .clt id → r ≠ .cmd id → ttyNames (w'.ttys r) = ttyNames (w.ttys r)) (Restored sys L) := by
  -- `t`, `u` and `v` are the worlds in which one tty, and both, have been tried
  refine Ensures.bind (Q := fun b u => Holding sys N L (fun r => (Linking w r ∨ r = .clt id) ∨ r = .cmd id) u ∧
    w.gbls.cmds = u.gbls.cmds ∧ w.gbls.bcstflg = u.gbls.bcstflg ∧
    ∀ r, r ≠ .clt id → r ≠ .cmd id → ttyNames (u.ttys r) = ttyNames (w.ttys r)) ?_
    fun b u _ ⟨hu, hcmds, hflg, hothers⟩ => ?_
  · refine Ensures.bind (ttyCreate_holding h hclt (hfree _ (mem_addCreates_clt hinit))) fun b t ht htried => ?_
    have ha := htried.around
    cases b with
    | false =>
      refine Ensures.pure ⟨htried.holding.mono fun r hr => ?_, ha.cmds.symm, ha.bcstflg.symm,
        fun r hr _ => ha.ttyNames r hr⟩
      refine ⟨fun hor => hor.resolve_right fun heq => hr ?_, .inl⟩
      rw [heq, ha.ttyNames (.cmd id) (by simp), hnames]
    | true =>
      have hcmd' : ¬(Linking w (.cmd id) ∨ (.cmd id : TtyRef) = .clt id) := by simpa using hcmd
      refine (ttyCreate_holding htried.holding hcmd' (hfree _ (mem_addCreates_cmd hinit ht))).mono
        (fun _ u htried' => ?_) fun _ _ he => he
      have ha' := htried'.around
      exact ⟨htried'.holding, (ha'.cmds.trans ha.cmds).symm, (ha'.bcstflg.trans ha.bcstflg).symm,
        fun r hr hr' => (ha'.ttyNames r hr').trans (ha.ttyNames r hr)⟩
  · refine Ensures.ite (fun _ => ?_) fun _ => ?_
    · refine Ensures.bind (cmdCleanup_holding hu (.inl (.inl (.inr rfl))) (.inl (.inr rfl)))
        fun _ v _ ⟨hv, hcut, hcmds'⟩ => Ensures.pure ⟨?_, hcut.bcstflg.trans hflg.symm,
          fun r hr hr' => (hcut.others r hr hr').trans (hothers r hr hr')⟩
      refine hv.mono fun r hr => ?_
      have hr' : r ≠ .clt id ∧ r ≠ .cmd id :=
        ⟨fun heq => hr (heq ▸ hcut.clt), fun heq => hr (heq ▸ hcut.cmd)⟩
      have hlink : Linking v r ↔ Linking w r := by
        cases r <;> simp only [Linking, hcmds', hcut.bcstflg, hcmds, hflg]
      simp [hlink, hr']
    · refine hu.toLinksInv.bind_linkless fun _ v _ hv => ?_
      have hv' := hu.congr (linkView_dir hv) fun r _ => linkView_ttyNames hv r
      refine Ensures.modify_bind (Ensures.modify_bind (Ensures.pure ⟨?_, ?_, fun r hr hr' => ?_⟩))
      · have hlink : (fun r => (Linking w r ∨ r = .clt id) ∨ r = .cmd id) =
            Linking { v with gbls.cmds := v.gbls.cmds ++ [id] } := by
          funext r
          cases r <;> simp [Linking, linkView_cmds hv, linkView_bcstflg hv, hcmds, hflg]
        rw [hlink] at hv'
        exact Holding.congr hv' rfl fun _ _ => rfl
      · exact (linkView_bcstflg hv).trans hflg.symm
      · exact (linkView_ttyNames hv r).trans (hothers r hr hr')

instance : NoExit mallocCmd := by unfold mallocCmd; infer_instance

lemma GBLSAddCmd_holding {cstr : CStr} (h : DirInv sys N L w) (hbrk : w.brk ∉ w.gbls.cmds)
    (hfree : Free sys (addCreates sys cstr w)) :
    Ensures (GBLSAddCmd sys cstr) w (fun _ w' => DirInv sys N L w' ∧
      w'.gbls.bcstflg = w.gbls.bcstflg ∧ ttyNames (w'.ttys .bcst) = ttyNames (w.ttys .bcst))
      (Restored sys L) := by
  refine h.toLinksInv.bind_linkless fun spec w₁ hparse hv => ?_
  have h₁ := DirInv.congr h hv
  have hbcst₁ := linkView_ttyNames hv .bcst
  cases spec with
  | none => exact Ensures.pure ⟨h₁, linkView_bcstflg hv, hbcst₁⟩
  | some spec =>
    refine Ensures.get_bind (Ensures.ite (fun _ => Ensures.pure ⟨h₁, linkView_bcstflg hv, hbcst₁⟩)
      fun hname => ?_)
    refine h₁.toLinksInv.bind_linkless fun id w₂ hmalloc hv₂ => ?_
    have h₂ := DirInv.congr h₁ hv₂
    refine h₂.toLinksInv.bind fun _ w₃ hinit _ => ?_
    have hadd : addInit sys cstr w = .ok (some id) w₃ := by
      unfold addInit
      rw [bind_of_ok hparse]
      refine get_bind_eq_ok.mpr ?_
      rw [if_neg hname]
      exact (bind_of_ok hmalloc).trans (bind_of_ok hinit)
    have hid : id ∉ w₂.gbls.cmds := by
      rw [(addInit_prepared hadd).id_eq, linkView_cmds hv₂, linkView_cmds hv]
      exact hbrk
    obtain ⟨h₃, hnames, hcmds, hflg, hothers⟩ := cmdInit_holding h₂ hid hid hinit
    have hlink : Linking w₃ = Linking w₂ := by
      funext r
      cases r <;> simp only [Linking, hcmds, hflg]
    rw [← hlink] at h₃
    have hid' : id ∉ w₃.gbls.cmds := hcmds ▸ hid
    refine (addRest_holding h₃ hid' hid' hnames hadd hfree).mono (fun _ w' ⟨h', hflg', hothers'⟩ => ?_)
      fun _ _ he => he
    refine ⟨h', ?_, ?_⟩
    · exact hflg'.trans (hflg.trans ((linkView_bcstflg hv₂).trans (linkView_bcstflg hv)))
    · exact (hothers' .bcst (by simp) (by simp)).trans ((hothers .bcst (by simp) (by simp)).trans
        ((linkView_ttyNames hv₂ .bcst).trans hbcst₁))

/-- The creation of the broadcast tty, if there is to be one. -/
lemma bcstttyCreate_holding (h : Holding sys N L (fun r => Linking w r ∧ r ≠ .bcst) w)
    (hfree : w.gbls.bcstflg = true → Unoccupied sys w.kern.names (ttyNames (w.ttys .bcst))) :
    Ensures (bcstttyCreate sys) w (fun _ => DirInv sys N L) (Restored sys L) := by
  refine Ensures.get_bind (Ensures.when (fun hflg => ?_) fun hflg => ?_)
  · refine Ensures.bind (ttyCreate_holding h (r := .bcst) (by simp) (hfree hflg))
      fun b w₁ _ htried => ?_
    have hlink : Linking w₁ = fun r => (Linking w r ∧ r ≠ .bcst) ∨ r = .bcst := by
      rw [htried.around.linking]
      funext r
      by_cases hr : r = .bcst
      · subst hr
        simp [Linking, hflg]
      · simp [hr]
    have h₁ : DirInv sys N L w₁ := by
      have hh := htried.holding
      rwa [← hlink] at hh
    exact Ensures.when (fun _ => exit_holding h₁) fun _ => h₁
  · refine h.mono fun r _ => ?_
    refine ⟨fun hr => ⟨hr, ?_⟩, And.left⟩
    rintro rfl
    exact hflg hr

lemma monAddRegister_holding {cstr : CStr} {w₀ : World} (h : DirInv sys N L w)
    (hadd : GBLSAddCmd sys cstr w₀ = .ok (some id) w) (hfree : Free sys (enableCreates sys cstr w₀)) :
    Ensures (monAddRegister sys id) w (fun _ => DirInv sys N L) (Restored sys L) := by
  refine h.toLinksInv.bind_linkless fun _ w₁ hreg hv => ?_
  have h₁ := DirInv.congr h hv
  refine Ensures.get_bind (Ensures.ite (fun hnew => ?_) fun _ => DirInv.linkless h₁)
  refine Ensures.modify_bind (Ensures.bind (bcstttyCreate_holding ?_ fun _ => ?_) fun _ _ _ h₂ =>
    DirInv.linkless h₂)
  · refine Holding.congr (h₁.mono fun r _ => ?_) rfl fun _ _ => rfl
    cases r with
    | bcst => simp [Linking, hnew.1]
    | _ => simp [Linking]
  · exact hfree _ (mem_enableCreates hadd hreg hnew.1 hnew.2)

/-! ## Handlers -/

lemma monRun_holding {m : MonCmd} {args : Option CStr} (h : DirInv sys N L w) (hbrk : w.brk ∉ w.gbls.cmds)
    (hfree : ∀ cstr, m = .monAdd → args = some cstr →
      Free sys (addCreates sys cstr w ++ enableCreates sys cstr w)) :
    Ensures (monRun sys m args) w (fun _ => DirInv sys N L) (Restored sys L) := by
  cases m with
  | monExit => exact exit_holding h
  | monDel =>
    refine Ensures.get_bind ?_
    cases args with
    | none => exact Ensures.pure h
    | some name =>
      dsimp only
      cases hf : w.hashFind name with
      | none => exact Ensures.pure h
      | some id => exact removal_holding h (.inl (List.mem_of_find?_eq_some hf))
  | monAdd =>
    cases args with
    | none => exact Ensures.pure h
    | some cstr =>
      have hfree := hfree cstr rfl rfl
      unfold monRun
      rw [monAdd_some]
      refine Ensures.bind (GBLSAddCmd_holding h hbrk fun c hc => hfree c (List.mem_append_left _ hc))
        fun res w₁ hadd ⟨h₁, _⟩ => ?_
      cases res with
      | none => exact Ensures.pure h₁
      | some id => exact monAddRegister_holding h₁ hadd fun c hc => hfree c (List.mem_append_right _ hc)
  | monIdleExit =>
    have h₁ : DirInv sys N L { w with gbls.exitonidle := true, gbls.cmddelonexit := true } :=
      DirInv.congr h rfl
    refine Ensures.modify_bind (Ensures.get_bind (Ensures.ite (fun _ => ?_) fun _ => DirInv.linkless h₁))
    exact Ensures.bind (cleanup_holding h₁) fun _ _ _ ⟨h₂, _⟩ => exit_holding h₂
  | monHelp => exact Ensures.pure h
  | monList => exact Ensures.pure h
  | monDrain => exact DirInv.linkless (m := monDrain sys) h
  | monToggleRestart => exact Ensures.modifyState (DirInv.congr h rfl)
  | monToggleLB => exact Ensures.modifyState (DirInv.congr h rfl)
  | monTogglePrefix => exact Ensures.modifyState (DirInv.congr h rfl)
  | monVerboseInc => exact Ensures.modifyState (DirInv.congr h rfl)
  | monVerboseDec => exact Ensures.modifyState (DirInv.congr h rfl)
  | monToggleSilent => exact Ensures.modifyState (DirInv.congr h rfl)

/-- The condition of a run: no creation of a tty comes upon a name that something else has. -/
def FreeNames (sys : Sys) (w : World) (e : Event) : Prop := Free sys (ttyCreates sys w e)

instance (sys : Sys) (w : World) (e : Event) : Decidable (FreeNames sys w e) :=
  inferInstanceAs (Decidable (Free sys _))

lemma hdlr_holding {s : Source} {x : Answer} (h : DirInv sys N L w) (hbrk : w.brk ∉ w.gbls.cmds)
    (hfree : FreeNames sys w (.hdlr s x)) :
    Ensures (hdlr sys s x) w (fun _ => DirInv sys N L) (Restored sys L) := by
  cases s with
  | dom r =>
    cases r with
    | bcst => exact DirInv.linkless (m := bcstttyEvent sys x.rd) h
    | mon =>
      refine h.toLinksInv.bind_linkless (m := assert (x.rd = .ready)) fun _ w₁ hread _ => ?_
      obtain ⟨-, rfl⟩ := require_eq_ok.mp hread
      cases hx : x.line with
      | none => exact Ensures.pure h
      | some line =>
        dsimp only
        unfold monProcess
        cases hl : monLookup line with
        | none => exact Ensures.pure h
        | some cmd =>
          obtain ⟨m, args⟩ := cmd
          refine monRun_holding h hbrk fun cstr hm hargs => ?_
          subst hm hargs
          simpa only [FreeNames, ttyCreates, hx, Option.bind_some, hl] using hfree
    | clt id => exact h.toLinksInv.bind_linkless fun _ _ _ hv => DirInv.linkless (DirInv.congr h hv)
    | cmd id => exact h.toLinksInv.bind_linkless fun _ _ _ hv => DirInv.linkless (DirInv.congr h hv)
  | ifd r =>
    cases r with
    | bcst => exact DirInv.linkless (m := ttyNotifyEvent sys .bcst x.rd) h
    | mon => exact DirInv.linkless (m := ttyNotifyEvent sys .mon x.rd) h
    | clt id => exact h.toLinksInv.bind_linkless fun _ _ _ hv => DirInv.linkless (DirInv.congr h hv)
    | cmd id => exact h.toLinksInv.bind_linkless fun _ _ _ hv => DirInv.linkless (DirInv.congr h hv)
  | pidfd id fd =>
    refine h.toLinksInv.bind_linkless fun _ w₁ hlive _ => ?_
    replace hlive := get_bind_eq_ok.mp hlive
    obtain ⟨hid, rfl⟩ := require_eq_ok.mp hlive
    exact cmdPidEvent_holding h hid
  | sig =>
    unfold hdlr sigEvent
    dsimp only
    split
    · exact Ensures.pure h
    · exact exit_holding h
  | fs => exact Ensures.pure h

end Yar.Proofs
