import Mathlib.Data.Prod.Basic
import ReactiveViews.Proofs.Live.Calm
import ReactiveViews.Proofs.Live.Overlays
import ReactiveViews.Proofs.Live.Settled
import ReactiveViews.Proofs.Live.Turns

/-!
# The order of requests

A batch updates its elements in the order in which they have been requested. If one of them is around another,
the order decides how often the inner one is updated: twice, if it comes first, and otherwise once or, if the
outer one drops it, never.

The comparison goes by the outermost elements of a batch. Updates of others, inside of an element or apart from
it, do not change what an update of it would show (`Host.Previews`), and after its own turn it is calm: later
updates inside of it change nothing. So it looks in the end as it would have looked after an update before the
batch, whatever the order.

## What is proved

**Orders** (`Lives.orders_agree`). Two batches of the same elements of a tree that differ in the order of the
requests leave the tree looking the same, if all updates succeed. The nodes ask for nothing that their elements
own, and nothing that the tree goes by leads to an element; with an element among the data the order may be
seen (`Lives.orders_differ`).
-/

namespace ReactiveViews

variable {σ : Type}

/-! ### Elements around others -/

theorem World.Below.antisymm {w : World σ} {e c : ElementId} (h : w.Below e c) (h' : w.Below c e) : e = c := by
  have hlineage := List.IsSuffix.eq_of_length_le h h'.length_le
  exact (List.cons.inj hlineage).1

/-- Among some elements there is one around each of them that no other one is around. -/
theorem World.exists_topmost (w : World σ) {es : List ElementId} {c : ElementId} (hc : c ∈ es) :
    ∃ a ∈ es, (∀ b ∈ es, w.Below b a → b = a) ∧ w.Below a c := by
  induction hn : (w.lineage c).length using Nat.strong_induction_on generalizing c with
  | _ n ih =>
    by_cases htop : ∀ b ∈ es, w.Below b c → b = c
    · exact ⟨c, hc, htop, .refl w c⟩
    · push Not at htop
      obtain ⟨b, hb, hbelow, hne⟩ := htop
      have hlt : (w.lineage b).length < n := by
        refine hn ▸ lt_of_le_of_ne hbelow.length_le fun heq => hne ?_
        exact (List.cons.inj (List.IsSuffix.eq_of_length hbelow heq)).1
      obtain ⟨a, ha, htop, hab⟩ := ih _ hlt hb rfl
      exact ⟨a, ha, htop, hab.trans hbelow⟩

theorem World.Encloses.dying {w : World σ} {e a : ElementId} (h : w.Encloses e a) (ha : w.Dying a) :
    w.Dying e := by
  induction h with
  | refl => exact ha
  | @inner e c a x slot hx hslot hc _ ih =>
    obtain ⟨-, hkeepers⟩ := ih ha
    refine hkeepers e (World.mem_keepers.mpr ⟨x, hx, ?_⟩)
    rw [Element.keeps, Bool.or_eq_true, List.any_eq_true]
    exact .inr ⟨slot, hslot, List.contains_iff_mem.mpr hc⟩

/-- What is in the tree of something that is held is alive. -/
theorem World.Encloses.alive {w : World σ} {e a : ElementId} (h : w.Encloses e a) (hheld : e ∈ w.held)
    (ha : ∃ x, w.elements.get? a.row = some x) : w.alive a = true := by
  obtain ⟨x, hx⟩ := ha
  refine (World.alive_iff (Table.lt_size_of_get? hx)).mpr fun hdying => ?_
  obtain ⟨hnot, -⟩ := h.dying hdying
  exact hnot hheld

section

variable {host : Host σ} {D : Scene σ} {w w' : World σ} {node child : Node Resolver} {e a c : ElementId}
  {picture : Picture} {depth : Nat}

/-- An element stays in a tree as long as nothing around it is touched. -/
theorem Standing.encloses_later (h : Standing w node e) (ha : w.Encloses e a)
    (hw : Touches (w.Below c) w w') (htop : w.Below c a → c = a) : w'.Encloses e a := by
  induction ha generalizing node with
  | refl => exact .refl _
  | @inner e d a x slot hx hslot hd hda ih =>
    obtain ⟨y, hnursed, -⟩ := h.inspect
    obtain rfl := Option.some.inj (hx.symm.trans hnursed.get)
    have hchild := (hnursed.limbs slot hslot).standing d hd
    have hinside := hnursed.inside (List.mem_flatMap.mpr ⟨slot, hslot, hd⟩)
    have hbelow := hchild.below_of_encloses hda
    refine .inner (hw.get? hx fun hce => ?_) hslot hd (ih hchild htop)
    obtain rfl := htop (hce.trans (hinside.below.trans hbelow))
    exact hinside.not_below (hbelow.trans hce)

/-! ### Elements that wait -/

variable {es es' rest : List ElementId}

/-- Elements that wait for their turns, one of which none of the others is around. -/
structure Awaits (D : Scene σ) (w : World σ) (node : Node Resolver) (e a : ElementId) (es : List ElementId) :
    Prop where
  /-- The tree that they are from. -/
  poised : Poised D w node e
  /-- The element is in it. -/
  mounted : w.Encloses e a
  /-- Those that wait have trees. -/
  standing : ∀ c ∈ es, ∃ child, Standing w child c
  /-- None of the others is around the element. -/
  topmost : ∀ c ∈ es, w.Below c a → c = a

namespace Awaits

theorem self (h : Awaits D w node e a es) : ∃ child, Poised D w child a := h.poised.encloses h.mounted

theorem get (h : Awaits D w node e a es) : ∃ x, w.elements.get? a.row = some x := by
  obtain ⟨child, hchild⟩ := h.self
  exact hchild.standing.get

theorem later {S : ElementId → Prop} (h : Awaits D w node e a es) (hrest : rest ⊆ es) (hw : Touches S w w')
    (hupholds : Upholds w w') (hp : Poised D w' node e) (ha : w'.Encloses e a) : Awaits D w' node e a rest where
  poised := hp
  mounted := ha
  standing c hc := by
    obtain ⟨child, hchild⟩ := h.standing c (hrest hc)
    exact ⟨child, hupholds child c hchild⟩
  topmost c hc hbelow := by
    obtain ⟨child, hchild⟩ := h.standing c (hrest hc)
    exact h.topmost c (hrest hc) ((hw.below hchild.get h.get).mp hbelow)

theorem untouched (h : Awaits D w node e a es) (hrest : rest ⊆ es) (hw : Touches (fun _ => False) w w') :
    Awaits D w' node e a rest :=
  h.later hrest hw (.of_untouched hw) (h.poised.untouched hw)
    (h.poised.standing.encloses_later h.mounted (c := a) hw.of_none fun _ => rfl)

/-- An element that waits is not around the tree. -/
theorem outside (h : Awaits D w node e a es) (hc : c ∈ es) : ¬ w.Below c e ∨ c = e := by
  by_cases hbelow : w.Below c e
  · have hea := h.poised.standing.below_of_encloses h.mounted
    obtain rfl := h.topmost c hc (hbelow.trans hea)
    exact .inr (hbelow.antisymm hea)
  · exact .inl hbelow

theorem updated (hinnocent : ∀ depth, Innocent D (host.enter depth))
    (hharmless : ∀ depth, Harmless (host.enter depth)) (h : Awaits D w node e a es) (hc : c ∈ es)
    (hrest : rest ⊆ es) (hrun : (Act.update c).runIn (host.enter depth) w = (some (.ok ()), w')) :
    Awaits D w' node e a rest := by
  obtain ⟨child, hchild⟩ := h.standing c hc
  obtain ⟨⟨hw, -⟩, -⟩ := host.update_stands hharmless depth hchild hrun
  exact h.later hrest hw (host.update_upholds hharmless depth hchild hrun)
    (h.poised.regrow hinnocent hharmless hchild (h.outside hc) hrun)
    (h.poised.standing.encloses_later h.mounted hw (h.topmost c hc))

end Awaits

/-- While others have their turns, a calm tree looks the same. -/
theorem Host.Serves.calm (hinnocent : ∀ depth, Innocent D (host.enter depth))
    (hharmless : ∀ depth, Harmless (host.enter depth)) (h : host.Serves es w w') (hcalm : Calm host D w node e)
    (hawaits : Awaits D w node e e es) (hshows : Shows w e picture) : Shows w' e picture := by
  induction h with
  | done hw => exact hshows.untouched hw.touches
  | skip hw _ _ ih =>
    exact ih (hcalm.untouched hinnocent hharmless hw.touches)
      (hawaits.untouched (List.subset_cons_self _ _) hw.touches) (hshows.untouched hw.touches)
  | @turn c rest depth w u u' v w' hw hrun hw' _ _ ih =>
    have hbegun := hawaits.untouched (List.Subset.refl _) hw
    obtain ⟨child, hchild⟩ := hbegun.standing c List.mem_cons_self
    obtain ⟨hcalm', hsame⟩ := (hcalm.untouched hinnocent hharmless hw).update hinnocent hharmless hchild
      (hbegun.outside List.mem_cons_self) hrun
    have hended := hbegun.updated hinnocent hharmless List.mem_cons_self (List.subset_cons_self _ _) hrun
    exact ih (hcalm'.untouched hinnocent hharmless hw') (hended.untouched (List.Subset.refl _) hw')
      ((hsame picture (hshows.untouched hw)).untouched hw')

/-- An element that none of the others is around looks after its batch as an update before the batch would
have made it look. -/
theorem Host.Serves.shows (hinnocent : ∀ depth, Innocent D (host.enter depth))
    (hharmless : ∀ depth, Harmless (host.enter depth)) (h : host.Serves es w w') (hheld : e ∈ w.held)
    (hawaits : Awaits D w node e a es) (ha : a ∈ es) :
    ∃ picture, host.Previews w a picture ∧ Shows w' a picture := by
  induction h with
  | done => cases ha
  | @skip c rest w v w' hw hdead _ ih =>
    have hnext := hawaits.untouched (List.subset_cons_self c rest) hw.touches
    rcases List.mem_cons.mp ha with rfl | ha
    · -- the element is in a tree that is held
      have halive := hnext.mounted.alive (hw.held ▸ hheld) hnext.get
      rw [hdead] at halive
      cases halive
    · obtain ⟨picture, hpreview, hshows⟩ := ih (hw.held ▸ hheld) hnext ha
      obtain ⟨child, hchild⟩ := hawaits.self
      exact ⟨picture, hchild.rewind_untouched hinnocent hharmless hw.touches hpreview, hshows⟩
  | @turn c rest depth w u u' v w' hw hrun hw' hheld' hrest ih =>
    have hbegun := hawaits.untouched (List.Subset.refl _) hw
    have hended := hbegun.updated hinnocent hharmless List.mem_cons_self (List.subset_cons_self c rest) hrun
    have hnext := hended.untouched (List.Subset.refl _) hw'
    obtain ⟨child, hbefore⟩ := hawaits.self
    obtain ⟨child', hpoised⟩ := hbegun.self
    by_cases heq : c = a
    · subst c
      have hafter := host.update_aftermath hinnocent hharmless depth hpoised hrun
      obtain ⟨picture, hshows⟩ := hafter.poised.exists_picture
      refine ⟨picture, hbefore.rewind_untouched hinnocent hharmless hw ⟨depth, u', hrun, hshows⟩, ?_⟩
      exact hrest.calm hinnocent hharmless ((hafter.calm hinnocent hharmless).untouched hinnocent hharmless hw')
        ⟨hafter.poised.untouched hw', .refl a, hnext.standing, hnext.topmost⟩ (hshows.untouched hw')
    · obtain ⟨other, hother⟩ := hbegun.standing c List.mem_cons_self
      obtain ⟨child₁, hpoised'⟩ := hended.self
      obtain ⟨picture, hpreview, hshows⟩ := ih (hheld' ▸ hheld) hnext
        ((List.mem_cons.mp ha).resolve_left fun h => heq h.symm)
      refine ⟨picture, hbefore.rewind_untouched hinnocent hharmless hw ?_, hshows⟩
      refine hpoised.rewind hinnocent hharmless hother (mt (hbegun.topmost c List.mem_cons_self) heq) hrun ?_
      exact hpoised'.rewind_untouched hinnocent hharmless hw' hpreview

/-- A batch touches nothing but the trees of its elements. -/
theorem Host.Serves.touches (hharmless : ∀ depth, Harmless (host.enter depth)) (h : host.Serves es w w')
    (hstanding : ∀ c ∈ es, ∃ child, Standing w child c) : Touches (w.BelowAny es) w w' := by
  have hnext {c : ElementId} {rest : List ElementId} {w v w' : World σ}
      (hstanding : ∀ b ∈ rest, ∃ child, Standing w child b) (hv : Touches (w.BelowAny (c :: rest)) w v)
      (hw' : Touches (v.BelowAny rest) v w') : Touches (w.BelowAny (c :: rest)) w w' := by
    refine hv.transport hw' fun z hz ⟨b, hb, hbz⟩ => ⟨b, .tail _ hb, ?_⟩
    obtain ⟨child, hchild⟩ := hstanding b hb
    exact (hv.below hchild.get hz).mp hbz
  induction h with
  | done hw => exact hw.touches.of_none
  | skip hw _ _ ih =>
    obtain ⟨-, hrest⟩ := List.forall_mem_cons.mp hstanding
    refine hnext hrest hw.touches.of_none (ih fun b hb => ?_)
    obtain ⟨child, hchild⟩ := hrest b hb
    exact ⟨child, hchild.untouched hw.touches⟩
  | @turn c rest depth w u u' v w' hw hrun hw' _ _ ih =>
    obtain ⟨⟨child, hchild⟩, hrest⟩ := List.forall_mem_cons.mp hstanding
    have hupdated := (host.update_stands hharmless depth (hchild.untouched hw) hrun).1.touches
    have hupholds := host.update_upholds hharmless depth (hchild.untouched hw) hrun
    have hu : Touches (w.BelowAny (c :: rest)) w u' := by
      refine (Touches.of_none hw).transport hupdated fun z hz hcz => ⟨c, List.mem_cons_self, ?_⟩
      exact (hw.below hchild.get hz).mp hcz
    refine hnext hrest (hu.trans hw'.of_none) (ih fun b hb => ?_)
    obtain ⟨other, hother⟩ := hrest b hb
    exact ⟨other, (hupholds _ _ (hother.untouched hw)).untouched hw'⟩

/-- **Orders.** Two batches of the same elements leave the tree that they are from looking the same. -/
theorem Host.Serves.agree {w₁ w₂ : World σ} (hinnocent : ∀ depth, Innocent D (host.enter depth))
    (hharmless : ∀ depth, Harmless (host.enter depth)) (h : host.Serves es w w₁) (h' : host.Serves es' w w₂)
    (hsame : ∀ c, c ∈ es ↔ c ∈ es') (hp : Poised D w node e) (hheld : e ∈ w.held)
    (hmounted : ∀ c ∈ es, w.Encloses e c) : ∃ picture, Shows w₁ e picture ∧ Shows w₂ e picture := by
  have hstanding : ∀ c ∈ es, ∃ child, Standing w child c := fun c hc => hp.standing.encloses (hmounted c hc)
  have hw₁ := h.touches hharmless hstanding
  have hw₂ := h'.touches hharmless fun c hc => hstanding c ((hsame c).mpr hc)
  refine hp.standing.pictured (A := fun a => a ∈ es ∧ ∀ c ∈ es, w.Below c a → c = a) hp.inert hw₁
    (hw₂.mono fun z _ ⟨c, hc, hcz⟩ => ⟨c, (hsame c).mpr hc, hcz⟩) ?_ ?_ ?_
  · rintro z - ⟨c, hc, hcz⟩
    obtain ⟨a, ha, htop, hac⟩ := w.exists_topmost hc
    exact ⟨a, ⟨ha, htop⟩, hac.trans hcz⟩
  · rintro a ⟨ha, -⟩ hbelow
    exact hbelow.antisymm (hp.standing.below_of_encloses (hmounted a ha))
  · rintro a ⟨ha, htop⟩ -
    obtain ⟨picture, hpreview, hshows⟩ := h.shows hinnocent hharmless hheld
      ⟨hp, hmounted a ha, hstanding, htop⟩ ha
    obtain ⟨picture', hpreview', hshows'⟩ := h'.shows hinnocent hharmless hheld
      ⟨hp, hmounted a ha, fun c hc => hstanding c ((hsame c).mpr hc), fun c hc => htop c ((hsame c).mpr hc)⟩
      ((hsame a).mp ha)
    obtain rfl := hpreview.unique hpreview'
    exact ⟨picture, hshows, hshows'⟩

end

/-! ### Trees that find no elements -/

/-- What leads to no element in a world, and what the host program remembers in it. -/
def World.inanimate (w : World σ) : Scene σ := ⟨w.store.inert, w.host⟩

/-- Nothing that a tree goes by leads to an element. -/
structure Host.Secludes (host : Host σ) (view : View Resolver) (e : ElementId) (w : World σ) : Prop where
  /-- Functions only look, and at nothing that leads to an element. -/
  innocent : ∀ depth, Innocent w.inanimate (host.enter depth)
  /-- The constants of the view. -/
  constants : ∀ node ∈ view.roots, ∀ v ∈ node.constants, w.inanimate.Holds v
  /-- The scopes around the tree. -/
  scopes : ∀ x, w.elements.get? e.row = some x → ∀ v ∈ x.context, w.inanimate.Holds v
  /-- The attributes in the tree, and the lists that its slots remember. -/
  inert : w.Inert e

section

variable {host : Host σ} {view : View Resolver} {w w₁ w₂ : World σ} {e : ElementId}

theorem Host.Secludes.poised (h : host.Secludes view e w) (hharmless : ∀ depth, Harmless (host.enter depth))
    (hfree : ∀ node ∈ view.roots, node.CaptureFree) (hlives : Lives host view e w) :
    ∃ node, Poised w.inanimate w node e := by
  obtain ⟨node, hnode, hstanding⟩ := hlives.standing hharmless
  exact ⟨node, hstanding, h.inert, fun x hx => .of_values (h.scopes x hx),
    ⟨hfree node hnode, h.constants node hnode⟩, w.store.inert_closed, rfl⟩

/-- **The order of requests.** Whatever the order in which some elements of a tree are requested, if all
updates succeed, the tree looks the same after the batch. -/
theorem Lives.orders_agree (hharmless : ∀ depth, Harmless (host.enter depth)) (hlives : Lives host view e w)
    (hfree : ∀ node ∈ view.roots, node.CaptureFree) (hsecluded : host.Secludes view e w) (hheld : e ∈ w.held)
    {s : SchedulerId} (hpending : ∀ c ∈ (w.scheduler s).pending, w.Encloses e c) {es es' : List ElementId}
    (hmounted : ∀ c ∈ es, w.Encloses e c) (hsame : ∀ c, c ∈ es ↔ c ∈ es') {depth depth' : Nat}
    {report report' : BatchReport} (hrun : (Act.batchOf s es).runIn (host.enter depth) w = (some report, w₁))
    (hrun' : (Act.batchOf s es').runIn (host.enter depth') w = (some report', w₂)) (hfailed : report.failed = 0)
    (hfailed' : report'.failed = 0) :
    ∃ picture, Shows w₁ e picture ∧ Shows w₂ e picture ∧ ∀ enter enter' : Enter σ,
      ((Act.outline e).runIn enter w₁).1 = ((Act.outline e).runIn enter' w₂).1 := by
  obtain ⟨node, hp⟩ := hsecluded.poised hharmless hfree hlives
  have henclosed : ∀ c, c ∈ (w.scheduler s).pending ∨ c ∈ es → w.Encloses e c :=
    fun c hc => hc.elim (hpending c) (hmounted c)
  have hstanding := fun c hc => hp.standing.encloses (henclosed c hc)
  obtain ⟨order, hmem, hserves⟩ := Host.Serves.of_batchOf hharmless hstanding hrun hfailed
  obtain ⟨order', hmem', hserves'⟩ :=
    Host.Serves.of_batchOf hharmless (fun c hc => hstanding c (by rwa [hsame])) hrun' hfailed'
  obtain ⟨picture, hshows, hshows'⟩ := hserves.agree hsecluded.innocent hharmless hserves'
    (fun c => by rw [hmem, hmem', hsame]) hp hheld fun c hc => henclosed c ((hmem c).mp hc)
  exact ⟨picture, hshows, hshows', fun enter enter' =>
    (hshows.outline_eq enter).trans (hshows'.outline_eq enter').symm⟩

end

/-! ### A tree that loses an element in a batch -/

theorem World.Inert.of_keepsPlain {w : World σ} {node : Node Resolver} {e : ElementId}
    (hstanding : Standing w node e) (h : w.keepsPlain e) : w.Inert e := by
  simp only [World.keepsPlain, Bool.and_eq_true] at h
  obtain ⟨⟨hrecords, helements⟩, -⟩ := h
  intro y x hy hx
  have hplain := Table.get?_of_all helements hx
  refine ⟨fun h hcomponent name v hv => .plain (Element.plain_of_get? hplain hcomponent hv),
    fun slot hslot last hlast => ?_⟩
  obtain ⟨hlist, hframes⟩ := Element.plain_of_memory hplain hslot hlast
  obtain ⟨child, hchild⟩ := hstanding.encloses hy
  obtain ⟨z, hnursed, -⟩ := hchild.inspect
  obtain rfl := Option.some.inj (hx.symm.trans hnursed.get)
  have hlodged := (hnursed.limbs slot hslot).lodges
  rw [hlast] at hlodged
  exact (hlodged.retains (D := w.records.toRegion) (.plain hlist) hframes).mono
    (World.records_closed hrecords).le_inert

theorem Host.Secludes.of_keepsPlain {host : Host σ} {view : View Resolver} {w : World σ} {e : ElementId}
    {node : Node Resolver} (hinnocent : ∀ depth, Innocent w.inanimate (host.enter depth))
    (hconstants : ∀ node ∈ view.roots, node.constants = []) (hstanding : Standing w node e)
    (h : w.keepsPlain e) : host.Secludes view e w := by
  refine ⟨hinnocent, fun node hnode v hv => ?_, fun x hx v hv => ?_, .of_keepsPlain hstanding h⟩
  · rw [hconstants node hnode] at hv
    cases hv
  · exact .plain (World.plain_of_scope (Bool.and_eq_true_iff.mp h).2 hx hv)

/-- The text is `a` by now. -/
def toldLess : World String := { spelled with host := "a" }

/-- There is a scheduler. -/
def abridged : World String := { toldLess with schedulers := toldLess.schedulers.add .idle }

/-- The list and the entry for `a`, which the list replaces, have been requested in some order. -/
def abridgedBy (es : List ElementId) : World String :=
  ((Act.batchOf ⟨0⟩ es).runIn (storyteller.enter 2) abridged).2

/-- If the list comes first, the entry has no turn any more; if the entry does, it is updated and then
dropped. The list looks the same. -/
theorem Lives.orders_agree_abridged :
    ∃ picture, Shows (abridgedBy [⟨0⟩, ⟨1⟩]) ⟨0⟩ picture ∧ Shows (abridgedBy [⟨1⟩, ⟨0⟩]) ⟨0⟩ picture ∧
      ∀ enter enter' : Enter String, ((Act.outline ⟨0⟩).runIn enter (abridgedBy [⟨0⟩, ⟨1⟩])).1 =
        ((Act.outline ⟨0⟩).runIn enter' (abridgedBy [⟨1⟩, ⟨0⟩])).1 := by
  have hbuild : (Build.build ⟨[spelling]⟩ story .headless).run.runIn (storyteller.enter 2)
      (.empty .off "ab") = (some (.ok ⟨0⟩), spelled) :=
    eq_ok_of_toOption (by decide +kernel)
  have htold : Lives storyteller ⟨[spelling]⟩ ⟨0⟩ toldLess := (Lives.build hbuild).remember "a"
  have hlives : Lives storyteller ⟨[spelling]⟩ ⟨0⟩ abridged := htold.schedule (toldLess.schedulers.add .idle)
  have hrun : (Act.batchOf ⟨0⟩ [⟨0⟩, ⟨1⟩]).runIn (storyteller.enter 2) abridged =
      (some ⟨1, 0⟩, abridgedBy [⟨0⟩, ⟨1⟩]) := Prod.fst_eq_iff.mp (by decide +kernel)
  have hrun' : (Act.batchOf ⟨0⟩ [⟨1⟩, ⟨0⟩]).runIn (storyteller.enter 2) abridged =
      (some ⟨2, 0⟩, abridgedBy [⟨1⟩, ⟨0⟩]) := Prod.fst_eq_iff.mp (by decide +kernel)
  obtain ⟨node, -, hstanding⟩ := hlives.standing storyteller_harmless
  have hsecluded : storyteller.Secludes ⟨[spelling]⟩ ⟨0⟩ abridged :=
    .of_keepsPlain (storyteller_innocent _) (List.forall_mem_singleton.mpr rfl) hstanding (by decide +kernel)
  have hpending : (abridged.scheduler ⟨0⟩).pending = [] := by decide +kernel
  have hslot : (abridged.elements.get? 0).any (·.slots.any (·.elements.contains ⟨1⟩)) = true := by decide +kernel
  obtain ⟨x, hx, hslots⟩ := (Option.any_eq_true _ _).mp hslot
  obtain ⟨slot, hslot, hmem⟩ := List.any_eq_true.mp hslots
  have hmounted : ∀ c ∈ [⟨0⟩, ⟨1⟩], abridged.Encloses ⟨0⟩ c :=
    List.forall_mem_cons.mpr ⟨.refl _, List.forall_mem_singleton.mpr
      (.inner hx hslot (List.contains_iff_mem.mp hmem) (.refl _))⟩
  exact hlives.orders_agree storyteller_harmless (List.forall_mem_singleton.mpr (by decide +kernel)) hsecluded
    (by decide +kernel) (fun c hc => by simp [hpending] at hc) hmounted (by simp [or_comm]) hrun hrun' rfl rfl

/-! ### An element between two others -/

/-- Two paragraphs: the first one tells the attribute `b` of `s`, and the second one tells `x`. -/
def neighbours : Template :=
  ⟨[("div", .object [("p#a", .object [("bind:a", .string "\x7b\x7b s.b \x7d\x7d")]),
    ("p#b", .object [("bind:b", .string "\x7b\x7b x \x7d\x7d")])])]⟩

/-- The paragraphs are built; then the second one, as a scope, is put under `s`, and there is another `x`.
Afterwards the paragraphs are requested in some order, and a batch is run. The answers are its report and the
outline. -/
def inOrder (order : List Nat) : Script Unit (Option (BatchReport × String)) := do
  match ← Script.compileView neighbours, ← Script.newRecord [("x", .str "1")] with
  | .ok view, .object (.record r) =>
    match ← Script.build view [.object (.record r)] .headless with
    | .ok root =>
      let children := (← Script.element root).children
      let scopes ← Script.contextOf (children.getD 1 root)
      Script.setFields r [("x", .str "2"), ("s", scopes.headD .undefined)]
      let s ← Script.newScheduler
      order.forM fun i => do
        let _ ← Script.requestUpdate s (children.getD i root)
      return some (← Script.runBatch s, ← Script.outline root)
    | .error _ => return none
  | _, _ => return none

/-- With an element among the data, what a batch shows depends on the order of the requests. -/
theorem Lives.orders_differ :
    ((View.compile neighbours).result.toOption.any fun view =>
        (Node.loadAll .empty view.roots).1.all fun node => decide node.CaptureFree) = true ∧
      (Host.run ⟨fun _ => .hang⟩ 3 (inOrder [0, 1]) (.empty .off ())).1 =
        some (some (⟨2, 0⟩, "div\n  p#a [a=1]\n  p#b [b=2]\n")) ∧
      (Host.run ⟨fun _ => .hang⟩ 3 (inOrder [1, 0]) (.empty .off ())).1 =
        some (some (⟨2, 0⟩, "div\n  p#a [a=2]\n  p#b [b=2]\n")) :=
  ⟨by decide +kernel, by decide +kernel, by decide +kernel⟩

end ReactiveViews
