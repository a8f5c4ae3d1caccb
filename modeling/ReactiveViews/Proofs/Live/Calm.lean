import ReactiveViews.Proofs.Live.Previews

/-!
# Calm trees

A tree is calm if each element in it looks as an update of it would make it look. After an update that
succeeds a poised tree is calm, and it stays so: whichever of its elements are updated then, none looks
different afterwards.

## What is proved

An update of an element in a calm tree, or of one somewhere else, leaves the tree calm and looking the same
(`Calm.update`).
-/

namespace ReactiveViews

variable {σ : Type}

/-! ### What trees look like in two worlds -/

theorem World.Encloses.trans {w : World σ} {e c z : ElementId} (h : w.Encloses e c) (h' : w.Encloses c z) :
    w.Encloses e z := by
  induction h with
  | refl => exact h'
  | inner hx hslot hc _ ih => exact .inner hx hslot hc (ih h')

theorem ShowsAll.exists_of_forall {w w' : World σ} {es : List ElementId}
    (h : ∀ e ∈ es, ∃ picture, Shows w e picture ∧ Shows w' e picture) :
    ∃ pictures, ShowsAll w es pictures ∧ ShowsAll w' es pictures := by
  induction es with
  | nil => exact ⟨[], trivial, trivial⟩
  | cons e es ih =>
    obtain ⟨⟨picture, he, he'⟩, hes⟩ := List.forall_mem_cons.mp h
    obtain ⟨pictures, hall, hall'⟩ := ih hes
    exact ⟨picture :: pictures, ⟨he, hall⟩, ⟨he', hall'⟩⟩

/-- The attributes of an element that keeps nothing that leads to elements have the same texts in all worlds
that come later. -/
theorem Element.Inert.reads {s t t' : Store} {node : Node Resolver} {y : ElementId} {x : Element}
    {h : Headless} (hinert : x.Inert s y) (htrunk : Trunk node x) (hc : x.component = .headless h)
    (ht : s.Grows t) (ht' : s.Grows t') :
    ∃ drawn, Fields.Related (Reads t) h.attributes drawn ∧ Fields.Related (Reads t') h.attributes drawn := by
  have hself : s.inert.link.Fields h.attributes h.attributes := by
    refine Fields.Related.of_get? rfl (htrunk.nodup hc) fun name => ?_
    cases hv : h.attributes.get? name with
    | none => exact .none
    | some v => exact .some (hinert.attributes h hc name v hv)
  exact hself.exists_reads (Link.Stores.grow s.inert_closed ht ht')

/-- A tree that keeps nothing that leads to elements looks the same in two worlds, if the elements do that may
have been touched. -/
theorem Standing.pictured {A S : ElementId → Prop} {w w₁ w₂ : World σ} {node : Node Resolver} {e : ElementId}
    (h : Standing w node e) (hinert : w.Inert e) (hw₁ : Touches S w w₁) (hw₂ : Touches S w w₂)
    (hS : ∀ z, w.Encloses e z → S z → ∃ a, A a ∧ w.Below a z) (he : ∀ a, A a → w.Below a e → a = e)
    (hA : ∀ a, A a → w.Encloses e a → ∃ picture, Shows w₁ a picture ∧ Shows w₂ a picture) :
    ∃ picture, Shows w₁ e picture ∧ Shows w₂ e picture := by
  induction h with
  | @intro node e x hx htrunk hupdater hchildren hnodup hlodges _ ih =>
    by_cases hmem : A e
    · exact hA e hmem (.refl e)
    have hout : ¬ S e := fun hSe => by
      obtain ⟨a, ha, hbelow⟩ := hS e (.refl e) hSe
      exact hmem (he a ha hbelow ▸ ha)
    have hinside : ∀ c ∈ x.slots.flatMap Slot.elements, w.Inside e c := fun c hc => by
      obtain ⟨slot, hslot, hc⟩ := List.mem_flatMap.mp hc
      exact (hlodges slot hslot).inside (World.lineage_eq hx) hc
    have hall : ∀ c ∈ x.children, ∃ picture, Shows w₁ c picture ∧ Shows w₂ c picture := fun c hc => by
      have hcs := hchildren.subset hc
      obtain ⟨slot, hslot, hcslot⟩ := List.mem_flatMap.mp hcs
      refine ih slot hslot c hcslot (hinert.child hx hslot hcslot) (fun z hz => hS z (.inner hx hslot hcslot hz))
        (fun a ha hbelow => ?_) fun a ha hca => hA a ha (.inner hx hslot hcslot hca)
      exact ((hinside c hcs).eq_or_below hbelow).resolve_right fun hbelow => hmem (he a ha hbelow ▸ ha)
    obtain ⟨pictures, hall₁, hall₂⟩ := ShowsAll.exists_of_forall hall
    obtain ⟨k, hk, -⟩ := htrunk.component
    obtain ⟨drawn, hdrawn₁, hdrawn₂⟩ := (hinert e x (.refl e) hx).reads htrunk hk hw₁.store hw₂.store
    have hlater : ∀ {v : World σ}, Touches S w v → ∀ c ∈ x.children, v.Inside e c := fun {v} hv c hc => by
      obtain ⟨y, hy, hlineage⟩ := hinside c (hchildren.subset hc)
      obtain ⟨y', hy', -⟩ := hv.element c y hy
      exact ⟨y', hy', by rw [hv.lineage hy, hv.lineage hx, hlineage]⟩
    exact ⟨⟨node.tag, drawn, pictures⟩,
      htrunk.shows (hw₁.get? hx hout) hk (hlater hw₁) hdrawn₁ hall₁,
      htrunk.shows (hw₂.get? hx hout) hk (hlater hw₂) hdrawn₂ hall₂⟩

section

variable {host : Host σ} {D : Scene σ} {w w' : World σ} {node child : Node Resolver} {e c : ElementId}
  {picture : Picture} {depth : Nat}

theorem Poised.exists_picture (hp : Poised D w node e) : ∃ picture, Shows w e picture := by
  obtain ⟨picture, h, -⟩ := hp.standing.pictured (A := fun _ => False) (S := fun _ => False) hp.inert (.refl w)
    (.refl w) (fun _ _ => False.elim) (fun _ => False.elim) fun _ => False.elim
  exact ⟨picture, h⟩

/-! ### Calm -/

/-- A poised tree each element of which looks as an update would make it look. -/
structure Calm (host : Host σ) (D : Scene σ) (w : World σ) (node : Node Resolver) (e : ElementId) : Prop where
  /-- It is poised. -/
  poised : Poised D w node e
  /-- What its elements look like. -/
  shows : ∀ f picture, w.Encloses e f → host.Previews w f picture → Shows w f picture

/-- After an update a tree is calm. -/
theorem Aftermath.calm (hinnocent : ∀ depth, Innocent D (host.enter depth))
    (hharmless : ∀ depth, Harmless (host.enter depth)) (h : Aftermath host D w node e) : Calm host D w node e where
  poised := h.poised
  shows f picture hf hpreview := by
    obtain ⟨child, hchild⟩ := h.poised.encloses hf
    exact (h.settled f hf).shows hinnocent hharmless hchild hpreview

theorem Calm.untouched (hinnocent : ∀ depth, Innocent D (host.enter depth))
    (hharmless : ∀ depth, Harmless (host.enter depth)) (h : Calm host D w node e)
    (hw : Touches (fun _ => False) w w') : Calm host D w' node e where
  poised := h.poised.untouched hw
  shows f picture hf hpreview := by
    have hfw := Link.encloses_touched h.poised.standing hw (fun _ _ => id) hf
    obtain ⟨child, hchild⟩ := h.poised.encloses hfw
    exact (h.shows f picture hfw (hchild.rewind_untouched hinnocent hharmless hw hpreview)).untouched hw

/-- What is updated in a calm tree looks the same afterwards. -/
theorem Calm.same (hinnocent : ∀ depth, Innocent D (host.enter depth))
    (hharmless : ∀ depth, Harmless (host.enter depth)) (h : Calm host D w node e) (hc : w.Encloses e c)
    (hrun : (Act.update c).runIn (host.enter depth) w = (some (.ok ()), w')) :
    ∃ picture, Shows w c picture ∧ Shows w' c picture := by
  obtain ⟨child, hchild⟩ := h.poised.encloses hc
  obtain ⟨picture, hshows⟩ := (host.update_aftermath hinnocent hharmless depth hchild hrun).poised.exists_picture
  exact ⟨picture, h.shows c picture hc ⟨depth, w', hrun, hshows⟩, hshows⟩

/-- **Calm.** An update of an element in a calm tree, or of one that the tree is not in, leaves the tree calm,
and it looks the same. -/
theorem Calm.update (hinnocent : ∀ depth, Innocent D (host.enter depth))
    (hharmless : ∀ depth, Harmless (host.enter depth)) (h : Calm host D w node e) (hchild : Standing w child c)
    (hout : ¬ w.Below c e ∨ c = e)
    (hrun : (Act.update c).runIn (host.enter depth) w = (some (.ok ()), w')) :
    Calm host D w' node e ∧ ∀ picture, Shows w e picture → Shows w' e picture := by
  obtain ⟨⟨hw, -⟩, -⟩ := host.update_stands hharmless depth hchild hrun
  have hsame : ∀ f, w.Encloses e f → (w.Below c f → c = f) → ∀ picture, Shows w f picture →
      Shows w' f picture := fun f hf hfout picture hshows => by
    obtain ⟨other, hother⟩ := h.poised.encloses hf
    obtain ⟨picture', hbefore, hafter⟩ := hother.standing.pictured (A := (· = c)) hother.inert (.refl w) hw
      (fun z _ hz => ⟨c, rfl, hz⟩) (by rintro _ rfl; exact hfout)
      (by rintro _ rfl hfc; exact h.same hinnocent hharmless (hf.trans hfc) hrun)
    exact (hshows.unique picture picture' hbefore) ▸ hafter
  have hp' := h.poised.regrow hinnocent hharmless hchild hout hrun
  have hself := hsame e (.refl e) fun hbelow => hout.resolve_left (not_not_intro hbelow)
  refine ⟨⟨hp', fun f picture hf hpreview => ?_⟩, hself⟩
  rcases h.poised.standing.encloses_or hw hout hf with ⟨hfw, hfout⟩ | ⟨hc, hcf⟩
  · -- The element is not in the tree of the one that has been updated.
    obtain ⟨other, hother⟩ := h.poised.encloses hfw
    refine hsame f hfw (fun hbelow => (hfout hbelow).elim) picture (h.shows f picture hfw ?_)
    exact hother.rewind hinnocent hharmless hchild hfout hrun hpreview
  · obtain ⟨other, hother⟩ := h.poised.encloses hc
    exact ((host.update_aftermath hinnocent hharmless depth hother hrun).calm hinnocent hharmless).shows f picture
      hcf hpreview

end

end ReactiveViews
