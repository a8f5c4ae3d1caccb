import ReactiveViews.Proofs.Live.Refreshing

/-!
# Updating a tree

An update refreshes an element and then updates its children, one after the other. Each child is
followed by a drawing of its own, and the elements below one child are none of those below another,
so what has been drawn of the first children stays drawn while the later ones are updated.

## What is proved

**Updating** (`Host.update_draws`). An update of a tree answers like the drawing of its node, and
afterwards the tree looks like the picture. If both fail, the tree is a tree of its node all the
same.
-/

namespace ReactiveViews

variable {σ α β ε : Type}

/-! ### What an update leaves -/

/-- An update has touched nothing but a tree, which still is one, as it was when the store was the
present one. -/
structure Updated (D : Scene σ) (node : Node Resolver) (e : ElementId) (w w' : World σ) : Prop where
  /-- What has been touched. -/
  touches : Touches (w.Below e) w w'
  /-- The tree. -/
  grown : Grown w' D w'.store node e

theorem Updated.untouched {D : Scene σ} {node : Node Resolver} {e : ElementId} {w w' w'' : World σ}
    (h : Updated D node e w w') (hw : Touches (fun _ => False) w' w'') : Updated D node e w w'' :=
  ⟨h.touches.trans (.of_none hw), h.grown.untouched hw⟩

/-- An update and a drawing have come to the same. -/
structure Redrawn (D : Scene σ) (node : Node Resolver) (e : ElementId) (w s : World σ) (_ : Unit)
    (picture : Picture) (w' s' : World σ) : Prop where
  /-- What the update leaves. -/
  updated : Updated D node e w w'
  /-- The drawing touches nothing. -/
  touches : Touches (fun _ => False) s s'
  /-- The tree looks like the picture. -/
  shows : Shows w' e picture

theorem Redrawn.untouched {D : Scene σ} {node : Node Resolver} {e : ElementId} {w s w' w'' s' : World σ}
    {picture : Picture} (h : Redrawn D node e w s () picture w' s')
    (hw : Touches (fun _ => False) w' w'') : Redrawn D node e w s () picture w'' s' :=
  ⟨h.updated.untouched hw, h.touches, h.shows.untouched hw⟩

/-- Updates of the trees of a node go as these drawings. -/
def Redraws (enter : Enter σ) (D : Scene σ) (o : Store) (n : Nat)
    (draw : Node Resolver → Context → Build σ Picture) (node : Node Resolver) : Prop :=
  ∀ (e : ElementId) (x : Element) (C' : Context) (ρ : Link) (w s : World σ), Grown w D o node e →
    w.elements.get? e.row = some x → ρ.Follows D o n node.names x.context C' w s →
    Agree (Faithful o n) enter (Result (Redrawn D node e w s) (Updated D node e w)) w s
      (Act.enterUpdate e) (draw node C').run

theorem Retains.transport {S T : ElementId → Prop} {u v w : World σ} (h : Retains S u v)
    (h' : Retains T v w) (hT : ∀ e, (∃ x, u.elements.get? e.row = some x) → T e → S e) :
    Retains S u w where
  element e x hx := by
    obtain ⟨y, hy, hcontext, heq⟩ := h.element e x hx
    obtain ⟨z, hz, hcontext', heq'⟩ := h'.element e y hy
    exact ⟨z, hz, hcontext'.trans hcontext, fun hS =>
      (heq' fun hTe => hS (hT e ⟨x, hx⟩ hTe)).trans (heq hS)⟩

theorem Touches.transport {S T : ElementId → Prop} {u v w : World σ} (h : Touches S u v)
    (h' : Touches T v w) (hT : ∀ e, (∃ x, u.elements.get? e.row = some x) → T e → S e) :
    Touches S u w where
  store := h.store.trans h'.store
  level := h'.level.trans h.level
  host := h'.host.trans h.host
  history := h.history.trans h'.history
  element := (h.retains.transport h'.retains hT).element

theorem Retains.below {S : ElementId → Prop} {w w' : World σ} (h : Retains S w w') {e y : ElementId}
    (he : ∃ x, w.elements.get? e.row = some x) (hy : ∃ x, w.elements.get? y.row = some x) :
    w'.Below e y ↔ w.Below e y := by
  obtain ⟨x, hx⟩ := he
  obtain ⟨z, hz⟩ := hy
  rw [World.Below, World.Below, h.lineage hx, h.lineage hz]

theorem Touches.below {S : ElementId → Prop} {w w' : World σ} (h : Touches S w w') {e y : ElementId}
    (he : ∃ x, w.elements.get? e.row = some x) (hy : ∃ x, w.elements.get? y.row = some x) :
    w'.Below e y ↔ w.Below e y := h.retains.below he hy

theorem eq_of_nodup_flatMap {f : α → List β} {l : List α} (h : (l.flatMap f).Nodup) {a b : α}
    (ha : a ∈ l) (hb : b ∈ l) {x : β} (hxa : x ∈ f a) (hxb : x ∈ f b) : a = b := by
  induction l with
  | nil => cases ha
  | cons z rest ih =>
    rw [List.flatMap_cons, List.nodup_append] at h
    obtain ⟨-, hrest, hdisjoint⟩ := h
    have hnot : ∀ c ∈ rest, x ∈ f z → x ∉ f c := fun c hc hz hxc =>
      hdisjoint x hz x (List.mem_flatMap.mpr ⟨c, hc, hxc⟩) rfl
    rcases List.mem_cons.mp ha with rfl | hmem
    · rcases List.mem_cons.mp hb with rfl | hmem'
      · rfl
      · exact (hnot b hmem' hxa hxb).elim
    · rcases List.mem_cons.mp hb with rfl | hmem'
      · exact (hnot a hmem hxb hxa).elim
      · exact ih hrest hmem hmem'

/-- The tree of a child is another one. -/
theorem Grown.replace {w w' : World σ} {D : Scene σ} {node : Node Resolver} {e c : ElementId}
    (h : Grown w D w.store node e) {y : Element} (hy : w.elements.get? e.row = some y) {slot : Slot}
    (hslot : slot ∈ y.slots) (hc : c ∈ slot.elements) (hupdated : Updated D slot.node c w w') :
    Grown w' D w'.store node e := by
  obtain ⟨hw, hgrown⟩ := hupdated
  obtain ⟨y', hy', hstem, hupdater, hnodup, hbranches⟩ := h.inspect
  obtain rfl : y = y' := Option.some.inj (hy.symm.trans hy')
  have hinside : ∀ other ∈ y.slots, ∀ c ∈ other.elements, w.Inside e c := by
    intro other hother c hc
    obtain ⟨x, hx, hlineage⟩ := (hbranches other hother).remembers.lineage hc
    exact ⟨x, hx, by rw [hlineage, World.lineage_eq hy]⟩
  refine .of_branches (hw.get? hy (hinside slot hslot c hc).not_below) hstem hupdater hnodup
    fun other hother => ⟨?_, fun c' hc' => ?_⟩
  · exact (hbranches other hother).remembers.touched hw (.refl _) hw.store
  · by_cases heq : c = c'
    · obtain rfl := heq
      obtain rfl := eq_of_nodup_flatMap hnodup hslot hother hc hc'
      exact hgrown
    · refine ((hbranches other hother).grown c' hc').touched hw (fun z hz hcz => heq ?_) (.refl _)
        hw.store
      exact (hinside slot hslot c hc).eq_of_below (hinside other hother c' hc') hcz hz

/-! ### The element itself -/

section

variable {D : Scene σ} {o : Store} {n : Nat} {enter : Enter σ} {ρ : Link} {w s : World σ}
  {node : Node Resolver} {e : ElementId} {x y : Element} {C' : Context}

/-- The updater is put back. -/
theorem Tended.putBack (enter : Enter σ) (h : Tended w D node e y) :
    ∃ w', (Act.putBack e (.view node .headless)).runIn enter w = (some (), w') ∧
      Touches (· = e) w w' ∧
      w'.elements.get? e.row = some { y with updater := some (.view node .headless) } ∧
      Grown w' D w'.store node e := by
  obtain ⟨w', hrun, hedits, hy⟩ : Alters enter w e (Act.putBack e (.view node .headless)) () _ :=
    .putBack h.get h.updater _
  have hw := hedits.touches
  obtain ⟨htag, hidle, hslots, hbare, hcomponent⟩ := h.stem
  exact ⟨w', hrun, hw, hy, .of_branches hy ⟨htag, hidle, hslots, hbare, hcomponent⟩ rfl h.nodup
    fun slot hslot => (h.branches slot hslot).beside h.get hw (.refl _) hw.store⟩

/-- The updater is put back, and the end of the update is noted. -/
theorem Tended.finish (enter : Enter σ) (answer : Except ViewError Unit) (h : Tended w D node e y) :
    ∃ w', (do
        Act.putBack e (.view node .headless)
        Act.record (.updated e none answer.isOk)
        return answer : Act σ (Except ViewError Unit)).runIn enter w = (some answer, w') ∧
      Touches (· = e) w w' ∧
      w'.elements.get? e.row = some { y with updater := some (.view node .headless) } ∧
      Grown w' D w'.store node e := by
  obtain ⟨w₁, hrun₁, hw₁, hy₁, hgrown₁⟩ := h.putBack enter
  have hrecord : Touches (fun _ => False) w₁ (w₁.record (.updated e none answer.isOk)) := .record w₁ _
  refine ⟨w₁.record (.updated e none answer.isOk), ?_, hw₁.trans (.of_none hrecord), hy₁,
    hgrown₁.untouched hrecord⟩
  rw [Act.runIn_bind_some hrun₁]
  rfl

/-- What there is after the updater of an element has run: the attributes and the children are as in a
plan, and the children are to be updated next. -/
def Prepared (ρ : Link) (D : Scene σ) (o : Store) (node : Node Resolver) (e : ElementId)
    (x : Element) (C' : Context) (w s : World σ) (_ : Unit)
    (plan : List (Node Resolver × Context) × Fields (Option String)) (w' s' : World σ) : Prop :=
  ∃ ρ' y c, ρ.Course (· = e) ρ' w w' s s' ∧ w'.elements.get? e.row = some y ∧ Stem node y ∧
    Grown w' D w'.store node e ∧ (y.slots.flatMap Slot.elements).Nodup ∧
    y.children = y.slots.flatMap Slot.elements ∧ y.component = .headless c ∧
    Fields.Related (Reads w'.store) c.attributes plan.2 ∧
    List.Forall₂ (Sown ρ' D o w' s' e x.context C' y.slots) y.children plan.1

theorem Grown.updateSelf (henter : Innocent D enter) (hadmits : Admits Lengthens enter)
    (hlucid : node.Lucid D) (hgrown : Grown w D o node e) (hx : w.elements.get? e.row = some x)
    (hρ : ρ.Follows D o n node.names x.context C' w s) :
    Agree (Faithful o n) enter
      (Result (Prepared ρ D o node e x C' w s)
        fun w' => Touches (· = e) w w' ∧ Grown w' D w'.store node e) w s
      (Act.updateSelf e) (Build.plan node C').run := by
  obtain ⟨x', hx', hstem, hupdater, hnodup, hbranches⟩ := hgrown.inspect
  obtain rfl : x = x' := Option.some.inj (hx.symm.trans hx')
  have hsince := hρ.since.store
  obtain ⟨w₁, hrun₁, hedits₁, hx₁⟩ : Alters enter w e (Act.takeUpdater e) _ _ := .takeUpdater hx
  have hw₁ := hedits₁.touches
  have hcourse₁ : ρ.Course (· = e) ρ w w₁ s s := .of_touches hρ.tied.worlds.stores hw₁ (.refl s)
  obtain ⟨htag, hidle, hslots, hbare, hcomponent⟩ := hstem
  have hlineage := World.lineage_eq hx
  have h₁ : Abreast ρ D o n w₁ s node e { x with updater := none } C' :=
    ⟨hlucid, hρ.beside hcourse₁ hlineage, hx₁, ⟨htag, hidle, hslots, hbare, hcomponent⟩, rfl,
      hnodup, fun slot hslot => (hbranches slot hslot).beside hx hw₁ hsince (hsince.trans hw₁.store)⟩
  unfold Act.updateSelf
  refine Agree.left hrun₁ ?_
  rw [hupdater]
  obtain ⟨w₂, hrun₂, hedits₂, hx₂⟩ := Act.runIn_record_edits enter hx₁ (.updating e none)
  have hw₂ := hedits₂.touches
  refine Agree.left hrun₂ ?_
  have hcourse₂ : ρ.Course (· = e) ρ w₁ w₂ s s := .of_touches hcourse₁.stores hw₂ (.refl s)
  have h₂ := h₁.course hcourse₂ (h₁.tended.alter hw₂ hx₂ h₁.tended.stem rfl rfl)
  have hcourse := hcourse₁.trans hcourse₂
  rw [← bind_pure (Build.plan node C').run]
  refine Agree.bind (h₂.refresh henter hadmits fun slot hslot =>
    (hbranches slot hslot).beside hx hcourse.left hsince (.refl o)) (fun answer => ?_) ?_
  · exact (hadmits.bind (hadmits.putBack e _) fun _ => hadmits.bind (hadmits.record rfl) fun _ =>
      hadmits.pure _).faithful o n
  rintro answer plan w₃ s₃ ⟨houtcome, herror⟩
  cases houtcome with
  | error error error' =>
    obtain ⟨hw₃, z, hz⟩ := herror rfl
    obtain ⟨w₄, hrun₄, hw₄, -, hgrown₄⟩ :=
      hz.finish enter (.error error)
    refine Agree.last hrun₄ ⟨.error error error', fun _ => ⟨?_, hgrown₄⟩⟩
    exact hcourse.left.trans (hw₃.trans hw₄)
  | ok hrefreshed =>
    obtain ⟨ρ₃, z, c, hcourse₃, hz, hchildren, hc, hattributes, hsown⟩ := hrefreshed
    obtain ⟨w₄, hrun₄, hw₄, hz₄, hgrown₄⟩ := hz.finish enter (.ok ())
    refine Agree.last hrun₄ ⟨.ok ?_, fun hfalse => by cases hfalse⟩
    have hcourse₄ : ρ₃.Course (· = e) ρ₃ w₃ w₄ s₃ s₃ := .of_touches hcourse₃.stores hw₄ (.refl s₃)
    obtain ⟨htag, hidle, hslots, hbare, hcomponent⟩ := hz.stem
    refine ⟨ρ₃, _, c, (hcourse.trans hcourse₃).trans hcourse₄, hz₄,
      ⟨htag, hidle, hslots, hbare, hcomponent⟩, hgrown₄, hz.nodup, hchildren, hc,
      hattributes.imp fun _ _ hab => ⟨hab.1, hab.2.grow hw₄.store⟩, hsown.imp fun _ _ hc => ?_⟩
    have hleft := (hcourse.trans hcourse₃).left
    exact hc.beside hcourse₄ ((hleft.lineage hx).trans hlineage) (hsince.trans hleft.store)

/-! ### The children -/

/-- The elements in the trees of several children. -/
def World.BelowAny (w : World σ) (es : List ElementId) (z : ElementId) : Prop :=
  ∃ c ∈ es, w.Below c z

/-- What there is after children have been updated: each of them looks like its picture. -/
def RedrawnAll (D : Scene σ) (node : Node Resolver) (e : ElementId) (es : List ElementId)
    (w s : World σ) (_ : Unit) (pictures : List Picture) (w' s' : World σ) : Prop :=
  (Touches (w.BelowAny es) w w' ∧ Grown w' D w'.store node e) ∧ Touches (fun _ => False) s s' ∧
    ShowsAll w' es pictures

theorem Sown.inside {slots : List Slot} {c : ElementId} {seed : Node Resolver × Context}
    (h : Sown ρ D o w s e y.context C' slots c seed) (hy : w.elements.get? e.row = some y) :
    w.Inside e c := by
  obtain ⟨x, hx, -⟩ := h.2.offshoot
  exact ⟨x, hx, by rw [h.2.lineage, World.lineage_eq hy]⟩

theorem Sown.inside_all {slots : List Slot} {es : List ElementId} {seeds : List (Node Resolver × Context)}
    (h : List.Forall₂ (Sown ρ D o w s e y.context C' slots) es seeds) (hy : w.elements.get? e.row = some y) :
    ∀ c ∈ es, w.Inside e c := by
  intro c hc
  obtain ⟨seed, -, hseed⟩ := exists_of_forall₂ h hc
  exact hseed.inside hy

/-- The other children stay planted while one of them is updated. -/
theorem Sown.beyond {ρ' : Link} {w' s' : World σ} {slots : List Slot} {c c' : ElementId}
    {seed : Node Resolver × Context} (h : Sown ρ D o w s e y.context C' slots c' seed)
    (hy : w.elements.get? e.row = some y) (hc : w.Inside e c) (hne : c' ≠ c)
    (hcourse : ρ.Course (w.Below c) ρ' w w' s s') (ho : o.Grows w.store) :
    Sown ρ' D o w' s' e y.context C' slots c' seed :=
  ⟨h.1, h.2.course hcourse (fun _ hz hcz => hne ((h.inside hy).eq_of_below hc hz hcz)) ho⟩

theorem Sown.beyond_all {ρ' : Link} {w' s' : World σ} {slots : List Slot} {c : ElementId} {es : List ElementId}
    {seeds : List (Node Resolver × Context)}
    (h : List.Forall₂ (Sown ρ D o w s e y.context C' slots) es seeds) (hy : w.elements.get? e.row = some y)
    (hc : w.Inside e c) (hnot : c ∉ es) (hcourse : ρ.Course (w.Below c) ρ' w w' s s') (ho : o.Grows w.store) :
    List.Forall₂ (Sown ρ' D o w' s' e y.context C' slots) es seeds := by
  have hmembers := (List.forall₂_and_left (p := (· ∈ es)) _ _).mpr ⟨fun _ => id, h⟩
  refine hmembers.imp ?_
  rintro c' seed ⟨hc', hseed⟩
  exact hseed.beyond hy hc (fun heq => hnot (heq ▸ hc')) hcourse ho

/-- Links around an element go on while something inside of it is updated. -/
theorem Link.Follows.inside {ρ' : Link} {w' s' : World σ} {names : List String} {c : ElementId}
    (h : ρ.Follows D o n names y.context C' w s) (hy : w.elements.get? e.row = some y)
    (hc : w.Inside e c) (hcourse : ρ.Course (w.Below c) ρ' w w' s s') :
    ρ'.Follows D o n names y.context C' w' s' := by
  refine h.course hcourse fun z hle hz => ?_
  have hlt := hc.below.trans hz |>.length_lt (World.lineage_eq hy)
  omega

theorem Retains.belowAny_cons {w' w'' : World σ} {c : ElementId} {es : List ElementId}
    (hw : Retains (w.Below c) w w') (hw' : Retains (w'.BelowAny es) w' w'')
    (hes : ∀ c' ∈ es, ∃ x, w.elements.get? c'.row = some x) :
    Retains (w.BelowAny (c :: es)) w w'' := by
  refine (hw.mono fun z _ hz => ⟨c, List.mem_cons_self, hz⟩).transport hw' ?_
  rintro z hz ⟨c', hc', hcz⟩
  exact ⟨c', List.mem_cons_of_mem _ hc', (hw.below (hes c' hc') hz).mp hcz⟩

theorem Touches.belowAny_cons {w' w'' : World σ} {c : ElementId} {es : List ElementId}
    (hw : Touches (w.Below c) w w') (hw' : Touches (w'.BelowAny es) w' w'')
    (hes : ∀ c' ∈ es, ∃ x, w.elements.get? c'.row = some x) :
    Touches (w.BelowAny (c :: es)) w w'' where
  store := hw.store.trans hw'.store
  level := hw'.level.trans hw.level
  host := hw'.host.trans hw.host
  history := hw.history.trans hw'.history
  element := (hw.retains.belowAny_cons hw'.retains hes).element

/-- What is touched inside of its children is touched inside of an element. -/
theorem Retains.belowAny {w' w'' : World σ} {es : List ElementId} (hw : Retains (w.Below e) w w')
    (hx : ∃ x, w.elements.get? e.row = some x) (hes : ∀ c ∈ es, w'.Inside e c)
    (hw' : Retains (w'.BelowAny es) w' w'') : Retains (w.Below e) w w'' :=
  hw.transport hw' fun _ hz ⟨c, hc, hcz⟩ => (hw.below hx hz).mp ((hes c hc).below.trans hcz)

theorem Touches.belowAny {w' w'' : World σ} {es : List ElementId} (hw : Touches (w.Below e) w w')
    (hx : ∃ x, w.elements.get? e.row = some x) (hes : ∀ c ∈ es, w'.Inside e c)
    (hw' : Touches (w'.BelowAny es) w' w'') : Touches (w.Below e) w w'' :=
  hw.transport hw' fun _ hz ⟨c, hc, hcz⟩ => (hw.below hx hz).mp ((hes c hc).below.trans hcz)

/-- A child that looks like its picture still does when those after it have been updated. -/
theorem RedrawnAll.cons {w₁ s₁ w₂ s₂ : World σ} {c : ElementId} {es : List ElementId}
    {picture : Picture} {pictures : List Picture} (hy : ∃ y, w.elements.get? e.row = some y)
    (hinside : ∀ c' ∈ c :: es, w.Inside e c') (hnot : c ∉ es) (hw₁ : Touches (w.Below c) w w₁)
    (hs₁ : Touches (fun _ => False) s s₁) (hshows : Shows w₁ c picture)
    (h : RedrawnAll D node e es w₁ s₁ () pictures w₂ s₂) :
    RedrawnAll D node e (c :: es) w s () (picture :: pictures) w₂ s₂ := by
  obtain ⟨⟨hw₂, hgrown⟩, hs₂, hall⟩ := h
  refine ⟨⟨hw₁.belowAny_cons hw₂ fun c' hc' => ?_, hgrown⟩, hs₁.trans hs₂, ?_, hall⟩
  · obtain ⟨x, hx, -⟩ := hinside c' (List.mem_cons_of_mem _ hc')
    exact ⟨x, hx⟩
  · refine hshows.touched hw₂ ?_ picture
    rintro z hz ⟨c', hc', hcz⟩
    have hc₁ := (hinside c List.mem_cons_self).touched hy hw₁
    have hc₁' := (hinside c' (List.mem_cons_of_mem _ hc')).touched hy hw₁
    obtain rfl := hc₁.eq_of_below hc₁' hz hcz
    exact hnot hc'

/-- Children are updated one after the other, as they are drawn. -/
theorem Grown.updateAll (hadmits : Admits Lengthens enter)
    {draw : Node Resolver → Context → Build σ Picture}
    (hchild : ∀ child ∈ node.children, Redraws enter D o n draw child)
    (hfree : node.CaptureFree) (hgrown : Grown w D w.store node e)
    (hy : w.elements.get? e.row = some y) (hstem : Stem node y)
    (hρ : ρ.Follows D o n node.names y.context C' w s) {es : List ElementId}
    {seeds : List (Node Resolver × Context)} (hnodup : es.Nodup)
    (hsown : List.Forall₂ (Sown ρ D o w s e y.context C' y.slots) es seeds) :
    Agree (Faithful o n) enter (Result (RedrawnAll D node e es w s)
        fun w' => Touches (w.BelowAny es) w w' ∧ Grown w' D w'.store node e) w s
      (Act.updateAll es) (Build.drawAll draw seeds).run := by
  induction es generalizing ρ w s seeds with
  | nil =>
    cases hsown
    exact .pure ⟨.ok ⟨⟨.refl w, hgrown⟩, .refl s, trivial⟩, fun hfalse => by cases hfalse⟩
  | cons c es ih =>
    have hinside := Sown.inside_all hsown hy
    have hc := hinside c List.mem_cons_self
    obtain ⟨hnot, hnodup⟩ := List.nodup_cons.mp hnodup
    cases hsown with
    | @cons _ seed _ seeds hseed hsown =>
      obtain ⟨⟨slot, hslot, hnode, hmem⟩, hplanted⟩ := hseed
      obtain ⟨child, context⟩ := seed
      obtain rfl : slot.node = child := hnode
      have hchildren := hstem.child hslot
      obtain ⟨x, ρc, hx, hρc⟩ :=
        hplanted.follows (hρ.enter (hstem.hides hy hfree) (World.lineage_eq hy) 0)
      unfold Act.updateAll Build.drawAll
      rw [ExceptT.run_bind]
      refine Agree.bind (hchild slot.node hchildren c x context ρc w s hplanted.grown hx
        (hρc.mono (Node.names_subset hchildren))) (fun answer => ?_) ?_
      · refine (hadmits.bind (hadmits.release _) fun _ => ?_).faithful o n
        cases answer with
        | ok => exact hadmits.updateAll es
        | error error => exact hadmits.bind (hadmits.release es) fun _ => hadmits.pure _
      rintro answer picture w₁ s₁ ⟨houtcome, herror⟩
      obtain ⟨w₂, hrun₂, hw₂⟩ := Act.runIn_release enter [c] w₁
      refine Agree.left hrun₂ ?_
      cases houtcome with
      | error error error' =>
        obtain ⟨w₃, hrun₃, hw₃⟩ := Act.runIn_release enter es w₂
        have hupdated := (herror rfl).untouched ((hw₂ _).trans (hw₃ _))
        refine Agree.left hrun₃ (.pure ⟨.error error error', fun _ => ⟨?_, ?_⟩⟩)
        · exact hupdated.touches.mono fun z _ hz => ⟨c, List.mem_cons_self, hz⟩
        · exact hgrown.replace hy hslot hmem hupdated
      | ok hredrawn =>
        obtain ⟨hupdated, hs₁, hshows⟩ := hredrawn.untouched (hw₂ _)
        have hw := hupdated.touches
        have hcourse : ρ.Course (w.Below c) ρ w w₂ s s₁ := .of_touches hρ.tied.worlds.stores hw hs₁
        have hsown₂ := Sown.beyond_all hsown hy hc hnot hcourse hρ.since.store
        refine Agree.mapRightE ((ih (hgrown.replace hy hslot hmem hupdated)
          (hw.get? hy hc.not_below) (hρ.inside hy hc hcourse) hnodup hsown₂).imp (Result.imp ?_ ?_))
        · rintro ⟨⟩ pictures w₃ s₃ hall
          exact .cons ⟨y, hy⟩ hinside hnot hw hs₁ hshows hall
        · rintro w₃ ⟨hw₃, hgrown₃⟩
          refine ⟨hw.belowAny_cons hw₃ fun c' hc' => ?_, hgrown₃⟩
          obtain ⟨x', hx', -⟩ := hinside c' (List.mem_cons_of_mem _ hc')
          exact ⟨x', hx'⟩

/-! ### The whole tree -/

/-- Elements may be held meanwhile. -/
theorem Agree.holding {Q : α → β → World σ → World σ → Prop} {act : Act σ α} {act' : Act σ β}
    (hadmits : Admits Lengthens enter) (es : List ElementId)
    (hQ : ∀ {a b w' w'' s'}, Touches (fun _ => False) w' w'' → Q a b w' s' → Q a b w'' s')
    (h : ∀ w₁, Touches (fun _ => False) w w₁ → Agree (Faithful o n) enter Q w₁ s act act') :
    Agree (Faithful o n) enter Q w s (Act.holding es act) act' := by
  obtain ⟨w₁, hhold, hw₁⟩ := Act.runIn_hold enter es w
  unfold Act.holding
  refine Agree.left hhold ?_
  rw [← bind_pure act']
  refine (h w₁ (hw₁ _)).bind (fun a =>
    (hadmits.bind (hadmits.release es) fun _ => hadmits.pure a).faithful o n) ?_
  intro a b w₂ s₂ hab
  obtain ⟨w₃, hrelease, hw₃⟩ := Act.runIn_release enter es w₂
  exact Agree.left hrelease (.pure (hQ (hw₃ _) hab))

/-- When the updater of an element has run, its children are updated as they are drawn. -/
theorem Prepared.updateAll (hadmits : Admits Lengthens enter)
    {draw : Node Resolver → Context → Build σ Picture}
    (hchild : ∀ child ∈ node.children, Redraws enter D o n draw child)
    (hfree : node.CaptureFree) (hx : w.elements.get? e.row = some x)
    (hρ : ρ.Follows D o n node.names x.context C' w s) {seeds : List (Node Resolver × Context)}
    {attributes : Fields (Option String)} {w₂ s₂ : World σ}
    (h : Prepared ρ D o node e x C' w s () (seeds, attributes) w₂ s₂) :
    Agree (Faithful o n) enter (Result (Redrawn D node e w s) (Updated D node e w)) w₂ s₂
      (do
        let children := (← Act.element e).children
        Act.hold children
        Act.updateAll children)
      (do return ⟨node.tag, attributes, ← Build.drawAll draw seeds⟩ : Build σ Picture).run := by
  obtain ⟨ρ₂, y, c, hcourse₂, hy, hstem, hgrown₂, hnodup, hchildren, hc, hattributes, hsown⟩ := h
  refine Agree.left (Act.runIn_element hy) ?_
  obtain ⟨w₃, hhold, hw₃⟩ := Act.runIn_hold enter y.children w₂
  refine Agree.left hhold (Agree.mapRightE ?_)
  have hcourse₃ : ρ₂.Course (· = e) ρ₂ w₂ w₃ s₂ s₂ := .of_touches hcourse₂.stores (hw₃ _) (.refl _)
  have hcourse := hcourse₂.trans hcourse₃
  obtain ⟨y', hy', hcontext, -⟩ := hcourse₂.left.element e x hx
  obtain rfl : y = y' := Option.some.inj (hy.symm.trans hy')
  rw [← hcontext] at hsown
  have hy₃ := (hw₃ fun _ => False).get? hy id
  have hρ₃ := hρ.beside hcourse (World.lineage_eq hx)
  have hsown₃ : List.Forall₂ (Sown ρ₂ D o w₃ s₂ e y.context C' y.slots) y.children seeds :=
    hsown.imp fun _ _ hseed => hseed.beside hcourse₃ (World.lineage_eq hy)
      (hρ.since.store.trans hcourse₂.left.store)
  have hinside := Sown.inside_all hsown₃ hy₃
  have htouches : Touches (w.Below e) w w₃ := hcourse.left.mono fun z _ hz => hz ▸ .refl w e
  refine (Grown.updateAll hadmits hchild hfree (hgrown₂.untouched (hw₃ _)) hy₃ hstem (hcontext ▸ hρ₃)
    (hchildren ▸ hnodup) hsown₃).imp (Result.imp ?_ ?_)
  · rintro ⟨⟩ pictures w₄ s₄ ⟨⟨hw₄, hgrown₄⟩, hs₄, hall⟩
    refine ⟨⟨htouches.belowAny ⟨x, hx⟩ hinside hw₄, hgrown₄⟩, hcourse.right.trans hs₄, ?_⟩
    have hy₄ : w₄.elements.get? e.row = some y :=
      hw₄.get? hy₃ fun ⟨c, hc, hce⟩ => (hinside c hc).not_below hce
    obtain ⟨c', hc', hmounted, -⟩ := hstem.component
    obtain rfl : c = c' := by simpa using hc.symm.trans hc'
    refine ⟨y, c, hy₄, hc, hstem.idle, hstem.tag, hmounted, ?_, fun c hc => ?_, hall⟩
    · exact hattributes.imp fun _ _ hab =>
        ⟨hab.1, hab.2.grow ((hw₃ fun _ => False).store.trans hw₄.store)⟩
    · exact (hinside c hc).touched ⟨y, hy₃⟩ hw₄
  · rintro w₄ ⟨hw₄, hgrown₄⟩
    exact ⟨htouches.belowAny ⟨x, hx⟩ hinside hw₄, hgrown₄⟩

/-- An update as a drawing of the node and of its children, where updates of the children are as
their drawings. -/
theorem Grown.update (henter : Innocent D enter) (hadmits : Admits Lengthens enter)
    {draw : Node Resolver → Context → Build σ Picture}
    (hchild : ∀ child ∈ node.children, Redraws enter D o n draw child)
    (hlucid : node.Lucid D) (hgrown : Grown w D o node e) (hx : w.elements.get? e.row = some x)
    (hρ : ρ.Follows D o n node.names x.context C' w s) :
    Agree (Faithful o n) enter (Result (Redrawn D node e w s) (Updated D node e w)) w s
      (Act.update e) (Build.sketch draw node C').run := by
  unfold Act.update
  refine Agree.holding hadmits [e] (fun hw hresult => ⟨?_, ?_⟩) fun w₁ hw₁ => ?_
  · exact hresult.1.imp fun _ picture h => h.untouched hw
  · exact fun herror => (hresult.2 herror).untouched hw
  have hstep : ρ.Step ρ w w₁ s s := .of_touches hρ.tied.worlds.stores hw₁ (.refl s)
  have hx₁ := hw₁.get? hx id
  have hρ₁ := hρ.step hstep
  have hgrown₁ := hgrown.touched hw₁ (fun _ _ => id) hρ.since.store (.refl o)
  have hafter : ∀ {w₂ : World σ}, Updated D node e w₁ w₂ → Updated D node e w w₂ := fun h =>
    ⟨(Touches.of_none hw₁).transport h.touches fun z hz => (hw₁.below ⟨x, hx⟩ hz).mp, h.grown⟩
  unfold Build.sketch
  rw [ExceptT.run_bind]
  refine Agree.bind (hgrown₁.updateSelf henter hadmits hlucid hx₁ hρ₁) (fun answer => ?_) ?_
  · refine Keeps.faithful ?_ o n
    cases answer with
    | error error => exact hadmits.pure _
    | ok => exact hadmits.bind (hadmits.element e) fun _ =>
        hadmits.bind (hadmits.hold _) fun _ => hadmits.updateAll _
  rintro answer plan w₂ s₂ ⟨houtcome, herror⟩
  cases houtcome with
  | error error error' =>
    obtain ⟨hw₂, hgrown₂⟩ := herror rfl
    refine Agree.pure ⟨.error error error', fun _ => hafter ⟨hw₂.mono ?_, hgrown₂⟩⟩
    exact fun z _ hz => hz ▸ .refl w₁ e
  | @ok _ plan hprepared =>
    obtain ⟨seeds, attributes⟩ := plan
    refine (hprepared.updateAll hadmits hchild hlucid.captureFree hx₁ hρ₁).imp
      (Result.imp ?_ fun _ => hafter)
    exact fun _ _ _ _ h => ⟨hafter h.updated, h.touches, h.shows⟩

end

/-- **Updating.** In linked worlds the update of a tree answers like the drawing of its node, if the
records that were taken from memory are those of the items; and the tree looks like the picture. -/
theorem Host.update_draws (host : Host σ) {D : Scene σ} {o : Store} {n : Nat}
    (hinnocent : ∀ depth, Innocent D (host.enter depth)) (depth : Nat) {node : Node Resolver}
    {e : ElementId} {x : Element} {C' : Context} {ρ : Link} {w s : World σ} (hlucid : node.Lucid D)
    (hgrown : Grown w D o node e) (hx : w.elements.get? e.row = some x)
    (hρ : ρ.Follows D o n node.names x.context C' w s) :
    Agree (Faithful o n) (host.enter depth)
      (Result (Redrawn D node e w s) (Updated D node e w)) w s (Act.update e)
      (host.draw depth node C').run := by
  induction depth generalizing node e x C' ρ w s with
  | zero =>
    refine hgrown.update (hinnocent 0) (host.lengthens.admits 0) ?_ hlucid hx hρ
    exact fun child _ c x context ρ w s _ _ _ _ => .neither w s
  | succ depth ih =>
    refine hgrown.update (hinnocent _) (host.lengthens.admits _) ?_ hlucid hx hρ
    intro child hchild c x context ρ w s hgrown hx hρ
    exact ih (hlucid.child hchild) hgrown hx hρ

end ReactiveViews
