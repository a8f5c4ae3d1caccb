import ReactiveViews.Proofs.Live.Inert

/-!
# What an update leaves behind

After an update of a poised tree that succeeds every element of it has just been updated, and its tree has
not been touched since: such elements are *settled*.

## What is proved

An update of a poised tree that succeeds leaves it poised and all its elements settled
(`Host.update_aftermath`).
-/

namespace ReactiveViews

variable {σ : Type}

/-! ### Trees that stay standing -/

/-- Whatever is standing in the one world is standing in the other one. -/
def Upholds (w w' : World σ) : Prop := ∀ node e, Standing w node e → Standing w' node e

namespace Upholds

variable {u v w w' : World σ}

theorem trans (h : Upholds u v) (h' : Upholds v w) : Upholds u w := fun node e hstanding =>
  h' node e (h node e hstanding)

theorem of_untouched (hw : Touches (fun _ => False) w w') : Upholds w w' := fun _ _ hstanding =>
  hstanding.untouched hw

/-- An element that is changed is still standing. -/
theorem of_self {e : ElementId} (hw : Touches (· = e) w w')
    (he : ∀ node, Standing w node e → Standing w' node e) : Upholds w w' := by
  intro node y hstanding
  induction hstanding with
  | @intro node y x hx htrunk hupdater hchildren hnodup hlodges hslots ih =>
    by_cases hy : y = e
    · exact hy ▸ he node (hy ▸ .intro hx htrunk hupdater hchildren hnodup hlodges hslots)
    · exact .intro (hw.get? hx hy) htrunk hupdater hchildren hnodup
        (fun slot hslot => (hlodges slot hslot).retained hw.retains) ih

end Upholds

/-- A tree is one of at most one node. -/
theorem Standing.node_eq {w : World σ} {node node' : Node Resolver} {e : ElementId} (h : Standing w node e)
    (h' : Standing w node' e) : node' = node := by
  obtain ⟨x, hnursed, hupdater, -⟩ := h.inspect
  obtain ⟨x', hnursed', hupdater', -⟩ := h'.inspect
  obtain rfl := Option.some.inj (hnursed.get.symm.trans hnursed'.get)
  exact (Updater.view.inj (Option.some.inj (hupdater'.symm.trans hupdater))).1

section

variable {enter : Enter σ} {w w' : World σ} {node : Node Resolver} {e : ElementId} {x : Element}
  {es held : List ElementId}

theorem Standing.updateAll_upholds (hstays : ∀ child ∈ node.children, Stays enter child)
    (hupholds : ∀ child ∈ node.children, ∀ ⦃w c w₁⦄, Standing w child c →
      (Act.enterUpdate c).runIn enter w = (some (.ok ()), w₁) → Upholds w w₁)
    (h : Standing w node e) (hx : w.elements.get? e.row = some x)
    (hes : es ⊆ x.slots.flatMap Slot.elements) (hheld : w.held = es ++ held)
    (hrun : (Act.updateAll es).runIn enter w = (some (.ok ()), w')) : Upholds w w' := by
  induction es generalizing w with
  | nil =>
    cases hrun
    exact .of_untouched (.refl _)
  | cons c es ih =>
    obtain ⟨hc, hes⟩ := List.cons_subset.mp hes
    obtain ⟨w₁, hupdate, hrun⟩ := Act.runIn_updateAll_cons_eq_ok hrun
    obtain ⟨slot, hslot, hcslot⟩ := List.mem_flatMap.mp hc
    obtain ⟨y, hnursed, -⟩ := h.inspect
    obtain rfl := Option.some.inj (hx.symm.trans hnursed.get)
    have hdown := h.descend hstays hx hc hheld hupdate
    rw [hdown.holds, List.erase_cons_head] at hrun
    have hstanding := (hnursed.limbs slot hslot).standing c hcslot
    exact (hupholds _ (hnursed.trunk.child hslot) hstanding hupdate).trans
      ((Upholds.of_untouched (.of_held w₁ _)).trans (ih hdown.standing hdown.get hes rfl hrun))

theorem Standing.update_upholds (hharmless : Harmless enter) (hstays : ∀ child ∈ node.children, Stays enter child)
    (hupholds : ∀ child ∈ node.children, ∀ ⦃w c w₁⦄, Standing w child c →
      (Act.enterUpdate c).runIn enter w = (some (.ok ()), w₁) → Upholds w w₁)
    (h : Standing w node e) (hrun : (Act.update e).runIn enter w = (some (.ok ()), w')) : Upholds w w' := by
  obtain ⟨x, hx⟩ := h.get
  obtain ⟨k, hk⟩ := h.component hx
  obtain ⟨m, slots, written, w₁, w₂, w₃, w₄, w₅, hw₁, -, hlap, hchildren, rfl⟩ := h.lap hharmless hx hk hrun
  have hself : Touches (· = e) w w₄ := (Touches.of_held w _).trans
    (hw₁.touches.trans (hlap.fills.touches.trans (hlap.assigns.touches.trans hlap.edits.touches)))
  have hheld : Touches (fun _ => False) w₄ { w₄ with held := slots.flatMap Slot.elements ++ w₄.held } :=
    .of_held w₄ _
  have hnext := (hlap.standing.untouched hheld).updateAll_upholds hstays hupholds hlap.get
    (List.Subset.refl _) rfl hchildren
  have hfirst : Upholds w w₄ := .of_self hself fun node' hnode' => (h.node_eq hnode') ▸ hlap.standing
  exact hfirst.trans ((Upholds.of_untouched hheld).trans (hnext.trans (.of_untouched (.of_held w₅ _))))

end

/-- Whatever else is standing, an update of a standing tree that succeeds leaves it standing. -/
theorem Host.update_upholds {host : Host σ} (hharmless : ∀ depth, Harmless (host.enter depth)) (depth : Nat)
    {node : Node Resolver} {e : ElementId} {w w' : World σ} (h : Standing w node e)
    (hrun : (Act.update e).runIn (host.enter depth) w = (some (.ok ()), w')) : Upholds w w' := by
  induction depth generalizing node e w w' with
  | zero =>
    refine h.update_upholds (hharmless 0) ?_ ?_ hrun
    · exact fun _ _ _ _ _ _ _ hnever => by cases hnever
    · exact fun _ _ _ _ _ _ hnever => by cases hnever
  | succ depth ih =>
    refine h.update_upholds (hharmless _) ?_ ?_ hrun
    · exact fun child _ v c answer v' h hrun => host.update_stands hharmless depth h hrun
    · exact fun child _ v c v' h hrun => ih h hrun

/-! ### Settled elements -/

/-- An element of a poised tree has been updated, and nothing in its tree has been touched since. -/
def Host.Settled (host : Host σ) (D : Scene σ) (w : World σ) (e : ElementId) : Prop :=
  ∃ node depth v v', Poised D v node e ∧
    (Act.update e).runIn (host.enter depth) v = (some (.ok ()), v') ∧ v'.Spares w e

theorem Host.Settled.later {host : Host σ} {D : Scene σ} {w w' : World σ} {e : ElementId}
    {S : ElementId → Prop} (h : host.Settled D w e) (hw : Touches S w w') (hS : ∀ z, w.Below e z → ¬ S z) :
    host.Settled D w' e := by
  obtain ⟨node, depth, v, v', hpoised, hrun, hspares⟩ := h
  exact ⟨node, depth, v, v', hpoised, hrun, hspares.later hw hS⟩

/-- What there is after a poised tree has been updated. -/
structure Aftermath (host : Host σ) (D : Scene σ) (w : World σ) (node : Node Resolver) (e : ElementId) :
    Prop where
  /-- It is still poised. -/
  poised : Poised D w node e
  /-- Its elements are settled. -/
  settled : ∀ f, w.Encloses e f → host.Settled D w f

section

variable {host : Host σ} {D : Scene σ} {w w' w₁ : World σ} {node : Node Resolver} {e c : ElementId} {x : Element}
  {enter : Enter σ} {es held : List ElementId}

theorem Feeding.untouched (hf : Feeding D w node e x) (hw : Touches (fun _ => False) w w') :
    Feeding D w' node e x :=
  hf.alter (hw.mono fun _ _ h => h.elim) (hf.nursed.untouched hw) rfl (hf.inert.grow hw.store)

/-- The tree of a child has been updated, and the child is let go of. -/
theorem Feeding.descended (hf : Feeding D w node e x) (hc : c ∈ x.slots.flatMap Slot.elements)
    (hstanding : Standing w node e) (hdown : Descended w node e x c held w₁) (hinert : w₁.Inert c)
    (hc₁ : ∃ child, Standing w₁ child c) : Feeding D { w₁ with held } node e x := by
  have hw : Touches (w.Below c) w { w₁ with held } := hdown.touches.trans (.of_held w₁ held)
  obtain ⟨y, hnursed, -⟩ := hdown.standing.inspect
  obtain rfl := Option.some.inj (hdown.get.symm.trans hnursed.get)
  refine ⟨hnursed, hf.inert.grow hw.store, fun slot hslot a ha => ?_, ?_, hf.discreet, hf.pervades.touched hw⟩
  · have hmem := List.mem_flatMap.mpr ⟨slot, hslot, ha⟩
    by_cases heq : a = c
    · obtain ⟨child, hchild⟩ := hc₁
      exact heq ▸ hinert.untouched hchild (.of_held w₁ held)
    · exact (hf.trees slot hslot a ha).touched ((hf.nursed.limbs slot hslot).standing a ha) hw fun z hz =>
        hstanding.apart hf.nursed.get hmem hc heq hz
  · exact (hf.veils.leaves hdown.leaves (Nat.le_succ _)).mono hw.store.inert_le fun _ => id

/-- Children are updated one after the other. -/
theorem Feeding.updateAll (hstays : ∀ child ∈ node.children, Stays enter child)
    (hafter : ∀ child ∈ node.children, ∀ ⦃w c w₁⦄, Poised D w child c →
      (Act.enterUpdate c).runIn enter w = (some (.ok ()), w₁) → Aftermath host D w₁ child c)
    (hf : Feeding D w node e x) (hstanding : Standing w node e) (hes : es ⊆ x.slots.flatMap Slot.elements)
    (hnodup : es.Nodup) (hheld : w.held = es ++ held)
    (hrun : (Act.updateAll es).runIn enter w = (some (.ok ()), w')) :
    Feeding D w' node e x ∧ ∀ c ∈ es, ∀ f, w'.Encloses c f → host.Settled D w' f := by
  induction es generalizing w with
  | nil =>
    cases hrun
    exact ⟨hf, fun c hc => (List.not_mem_nil hc).elim⟩
  | cons c es ih =>
    obtain ⟨hc, hes⟩ := List.cons_subset.mp hes
    obtain ⟨hnot, hnodup⟩ := List.nodup_cons.mp hnodup
    obtain ⟨w₁, hupdate, hrun⟩ := Act.runIn_updateAll_cons_eq_ok hrun
    obtain ⟨slot, hslot, hcslot⟩ := List.mem_flatMap.mp hc
    have hdown := hstanding.descend hstays hf.nursed.get hc hheld hupdate
    have hend := hafter _ (hf.nursed.trunk.child hslot) (hf.child hslot hcslot) hupdate
    rw [hdown.holds, List.erase_cons_head] at hrun
    have hf₁ := hf.descended hc hstanding hdown hend.poised.inert ⟨_, hend.poised.standing⟩
    have hlast : Touches (fun _ => False) w₁ { w₁ with held := es ++ held } := .of_held w₁ _
    obtain ⟨hf', hsettled⟩ := ih hf₁ hdown.standing hes hnodup rfl hrun
    have hw' := (hdown.standing.updateAll hstays hdown.get hes rfl hrun).1.touches.swap_held (es ++ held)
    have hc₁ := hend.poised.standing.untouched hlast
    have hapart : ∀ z, World.Below { w₁ with held := es ++ held } c z →
        ¬ World.BelowAny { w₁ with held := es ++ held } es z := fun z hz ⟨a, ha, hza⟩ =>
      hdown.standing.apart hdown.get hc (hes ha) (fun heq => hnot (heq ▸ ha)) hz hza
    refine ⟨hf', List.forall_mem_cons.mpr ⟨fun f hf => ?_, hsettled⟩⟩
    have hf₂ := Link.encloses_touched hc₁ hw' hapart hf
    exact ((hend.settled f (Link.encloses_touched hend.poised.standing hlast (fun _ _ => id) hf₂)).later hlast
      fun _ _ => id).later hw' fun z hz => hapart z ((hc₁.below_of_encloses hf₂).trans hz)

theorem Poised.update {depth : Nat} (hinnocent : Innocent D (host.enter depth))
    (hharmless : Harmless (host.enter depth))
    (hstays : ∀ child ∈ node.children, Stays (host.enter depth) child)
    (hafter : ∀ child ∈ node.children, ∀ ⦃w c w₁⦄, Poised D w child c →
      (Act.enterUpdate c).runIn (host.enter depth) w = (some (.ok ()), w₁) → Aftermath host D w₁ child c)
    (hp : Poised D w node e) (hrun : (Act.update e).runIn (host.enter depth) w = (some (.ok ()), w')) :
    Aftermath host D w' node e := by
  obtain ⟨x, hx⟩ := hp.standing.get
  obtain ⟨h, hc⟩ := hp.standing.component hx
  obtain ⟨m, slots, written, w₁, w₂, w₃, w₄, w₅, hw₁, h₁, hlap, hchildren, rfl⟩ :=
    hp.standing.lap hharmless hx hc hrun
  have hf₄ := (hp.opened hx hc hw₁ h₁).lap hinnocent hharmless (hw₁.held ▸ List.mem_cons_self) hlap
  have hheld : Touches (fun _ => False) w₄ { w₄ with held := slots.flatMap Slot.elements ++ w₄.held } :=
    .of_held w₄ _
  obtain ⟨hf₅, hsettled⟩ := (hf₄.untouched hheld).updateAll hstays hafter
    (hlap.standing.untouched hheld) (List.Subset.refl _) hlap.nursed.nodup rfl hchildren
  have hw' : Touches (fun _ => False) w₅ { w₅ with held := w₅.held.erase e } := .of_held w₅ _
  have hstanding' := (hp.standing.update hharmless hstays hrun).2
  refine ⟨(hf₅.untouched hw').poised hstanding', fun f hf => ?_⟩
  cases hf with
  | refl => exact ⟨node, depth, w, _, hp, hrun, .refl hstanding'.get⟩
  | @inner _ c _ y slot hy hslot hc hf =>
    obtain rfl := Option.some.inj ((hf₅.untouched hw').nursed.get.symm.trans hy)
    have hcstanding := (hf₅.nursed.limbs slot hslot).standing c hc
    exact (hsettled c (List.mem_flatMap.mpr ⟨slot, hslot, hc⟩) f
      (Link.encloses_touched hcstanding hw' (fun _ _ => id) hf)).later hw' fun _ _ => id

end

/-- **Updates.** An update of a poised tree that succeeds leaves it poised, and its elements settled. -/
theorem Host.update_aftermath {host : Host σ} {D : Scene σ}
    (hinnocent : ∀ depth, Innocent D (host.enter depth)) (hharmless : ∀ depth, Harmless (host.enter depth))
    (depth : Nat) {node : Node Resolver} {e : ElementId} {w w' : World σ} (hp : Poised D w node e)
    (hrun : (Act.update e).runIn (host.enter depth) w = (some (.ok ()), w')) :
    Aftermath host D w' node e := by
  induction depth generalizing node e w w' with
  | zero =>
    refine hp.update (hinnocent 0) (hharmless 0) ?_ ?_ hrun
    · exact fun _ _ _ _ _ _ _ hnever => by cases hnever
    · exact fun _ _ _ _ _ _ hnever => by cases hnever
  | succ depth ih =>
    refine hp.update (hinnocent _) (hharmless _) ?_ ?_ hrun
    · exact fun child _ v c answer v' h hrun => host.update_stands hharmless depth h hrun
    · exact fun child _ v c v' hp hrun => ih hp hrun

/-! ### Updates inside of a tree -/

/-- An element around a child is the child itself or around its parent. -/
theorem World.Inside.eq_or_below {w : World σ} {e c a : ElementId} (h : w.Inside e c) (ha : w.Below a c) :
    a = c ∨ w.Below a e := by
  obtain ⟨x, -, hlineage⟩ := h
  rw [World.Below, hlineage] at ha
  exact (List.suffix_cons_iff.mp ha).imp_left fun heq => (List.cons.inj heq).1

section

variable {host : Host σ} {D : Scene σ} {w w' : World σ} {node child : Node Resolver} {e c y : ElementId}

/-- What is in a tree after something in the tree of an element has been touched: it was there before and is
not in that tree, or it is in that tree, which was there before. -/
theorem Standing.encloses_or (h : Standing w node e) (hw : Touches (w.Below c) w w')
    (hout : ¬ w.Below c e ∨ c = e) (hy : w'.Encloses e y) :
    w.Encloses e y ∧ ¬ w.Below c y ∨ w.Encloses e c ∧ w'.Encloses c y := by
  induction hy generalizing node with
  | refl e =>
    rcases hout with hout | rfl
    · exact .inl ⟨.refl e, hout⟩
    · exact .inr ⟨.refl c, .refl c⟩
  | @inner e a y x slot hx hslot ha hy ih =>
    by_cases heq : c = e
    · subst c
      exact .inr ⟨.refl e, .inner hx hslot ha hy⟩
    obtain ⟨z, hnursed, -⟩ := h.inspect
    have hout : ¬ w.Below c e := hout.resolve_right heq
    obtain rfl := Option.some.inj ((hw.get? hnursed.get hout).symm.trans hx)
    have hinside := hnursed.inside (List.mem_flatMap.mpr ⟨slot, hslot, ha⟩)
    have houter : ¬ w.Below c a ∨ c = a := by
      by_cases hbelow : w.Below c a
      · exact .inr ((hinside.eq_or_below hbelow).resolve_right hout)
      · exact .inl hbelow
    refine (ih ((hnursed.limbs slot hslot).standing a ha) houter).imp ?_ ?_
    · exact fun ⟨henc, hnot⟩ => ⟨.inner hnursed.get hslot ha henc, hnot⟩
    · exact fun ⟨henc, hc⟩ => ⟨.inner hnursed.get hslot ha henc, hc⟩

theorem Poised.encloses (hp : Poised D w node e) (hc : w.Encloses e c) : ∃ child, Poised D w child c := by
  induction hc generalizing node with
  | refl => exact ⟨node, hp⟩
  | inner hx hslot hc _ ih =>
    obtain ⟨y, hf, -⟩ := hp.feeding
    obtain rfl := Option.some.inj (hx.symm.trans hf.nursed.get)
    exact ih (hf.child hslot hc)

/-- An element that is not in the tree of another one is not around it either, unless it is the same. -/
theorem Poised.not_around (hp : Poised D w node e) {x : Element} (hx : w.elements.get? e.row = some x)
    (hout : ¬ w.Below c e) : ∀ a ∈ Context.elements x.context, ¬ w.Below c a := fun a ha hbelow => by
  refine hout (hbelow.trans ?_)
  rw [World.Below, World.lineage_eq hx]
  exact ((hp.veils x hx).lineage_suffix ha).trans (List.suffix_cons _ _)

/-- A tree stays poised if an element in it is updated, or one that is not in it any more. -/
theorem Poised.regrow (hinnocent : ∀ depth, Innocent D (host.enter depth))
    (hharmless : ∀ depth, Harmless (host.enter depth)) (hp : Poised D w node e) (hchild : Standing w child c)
    (hout : ¬ w.Below c e ∨ c = e) {depth : Nat}
    (hrun : (Act.update c).runIn (host.enter depth) w = (some (.ok ()), w')) : Poised D w' node e := by
  by_cases heq : c = e
  · subst c
    exact (host.update_aftermath hinnocent hharmless depth hp hrun).poised
  have hnot : ¬ w.Below c e := hout.resolve_right heq
  obtain ⟨⟨hw, -⟩, -⟩ := host.update_stands hharmless depth hchild hrun
  obtain ⟨x, hx⟩ := hp.standing.get
  refine ⟨host.update_upholds hharmless depth hchild hrun node e hp.standing, fun y z hy hz => ?_, fun z hz => ?_,
    hp.discreet, hp.pervades.touched hw⟩
  · rcases hp.standing.encloses_or hw hout hy with ⟨henc, hbelow⟩ | ⟨henc, hcy⟩
    · obtain ⟨other, hother⟩ := hp.standing.encloses henc
      obtain ⟨z₀, hz₀⟩ := hother.get
      obtain rfl := Option.some.inj ((hw.get? hz₀ hbelow).symm.trans hz)
      exact (hp.inert y z₀ henc hz₀).grow hw.store
    · obtain ⟨other, hpoised⟩ := hp.encloses henc
      exact (host.update_aftermath hinnocent hharmless depth hpoised hrun).poised.inert y z hcy hz
  · obtain rfl := Option.some.inj ((hw.get? hx hnot).symm.trans hz)
    exact ((hp.veils x hx).touched hw (hp.not_around hx hnot)).mono hw.store.inert_le fun _ => id

end

end ReactiveViews
