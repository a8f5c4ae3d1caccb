import ReactiveViews.Proofs.Live.Following

/-!
# Elements in the middle of an update

While the updater of an element runs, a drawing of the same node is followed along with it. The
element is *tended*: its updater is taken out, and what is in its slots is remembered as it should
be at any moment. A child that a slot contributes is *planted* for the context in which the drawing
shows the node: it is a tree, and the scopes around it are linked to that context.

## What is proved

Tended elements stay tended when something else goes on (`Tended.touched`), when their attributes and
children change (`Tended.alter`), and when a slot is written (`Tended.remember`). Planted children
stay planted (`Planted.course`), and whoever updates one can follow it (`Planted.follows`).
-/

namespace ReactiveViews

variable {σ : Type}

/-! ### Inside and outside -/

namespace World

/-- What is inside of an element is not around it. -/
theorem not_below_of_lineage {w : World σ} {e c : ElementId} (h : w.lineage c = c :: w.lineage e) :
    ¬ w.Below c e := fun hbelow => by
  have hle := hbelow.length_le
  rw [h, List.length_cons] at hle
  omega

theorem Below.of_lineage {w : World σ} {e c : ElementId} (h : w.lineage c = c :: w.lineage e) :
    w.Below e c := by
  rw [Below, h]
  exact List.suffix_cons _ _

/-- An element that has been made right inside of another one. -/
def Inside (w : World σ) (e c : ElementId) : Prop :=
  ∃ x, w.elements.get? c.row = some x ∧ w.lineage c = c :: w.lineage e

namespace Inside

variable {w w' : World σ} {e c c' x : ElementId}

theorem below (h : w.Inside e c) : w.Below e c := .of_lineage h.choose_spec.2

theorem not_below (h : w.Inside e c) : ¬ w.Below c e := not_below_of_lineage h.choose_spec.2

theorem retained {S : ElementId → Prop} (h : w.Inside e c)
    (he : ∃ y, w.elements.get? e.row = some y) (hw : Retains S w w') : w'.Inside e c := by
  obtain ⟨x, hx, hlineage⟩ := h
  obtain ⟨y, hy⟩ := he
  obtain ⟨x', hx', -⟩ := hw.element c x hx
  exact ⟨x', hx', by rw [hw.lineage hx, hw.lineage hy, hlineage]⟩

theorem touched {S : ElementId → Prop} (h : w.Inside e c)
    (he : ∃ y, w.elements.get? e.row = some y) (hw : Touches S w w') : w'.Inside e c :=
  h.retained he hw.retains

/-- Two elements next to each other have nothing inside of them in common. -/
theorem eq_of_below (h : w.Inside e c) (h' : w.Inside e c') (hx : w.Below c x) (hx' : w.Below c' x) :
    c = c' := by
  obtain ⟨-, -, hlineage⟩ := h
  obtain ⟨-, -, hlineage'⟩ := h'
  exact hx.eq_of_lineage hx' hlineage hlineage'

end Inside

end World

/-- The elements around an element are not inside of it. -/
theorem World.Below.length_lt {w : World σ} {e : ElementId} {C : Context}
    (he : w.lineage e = e :: Context.elements C) {x : ElementId} (h : w.Below e x) :
    (Context.elements C).length < (w.lineage x).length := by
  have hle := h.length_le
  rw [he, List.length_cons] at hle
  omega

theorem nodup_replace {α : Type} {l a b r : List α} (h : (l ++ (a ++ r)).Nodup) (hb : b.Nodup)
    (hfresh : ∀ c ∈ b, c ∈ a ∨ c ∉ l ++ (a ++ r)) : (l ++ (b ++ r)).Nodup := by
  simp only [List.nodup_append, List.mem_append] at h hfresh ⊢
  obtain ⟨hl, ⟨ha, hr, har⟩, hlar⟩ := h
  refine ⟨hl, ⟨hb, hr, fun c hc d hd hcd => ?_⟩, fun c hc d hd hcd => ?_⟩
  · rcases hfresh c hc with hca | hnot
    · exact har c hca d hd hcd
    · exact hnot (.inr (.inr (hcd ▸ hd)))
  · obtain rfl := hcd
    rcases hd with hd | hd
    · rcases hfresh c hd with hca | hnot
      · exact hlar c hc c (.inl hca) rfl
      · exact hnot (.inl hc)
    · exact hlar c hc c (.inr hd) rfl

theorem modify_append_cons {α : Type} (l : List α) (a : α) (r : List α) (f : α → α) :
    (l ++ a :: r).modify l.length f = l ++ f a :: r := by
  induction l with
  | nil => rfl
  | cons b l ih => rw [List.cons_append, List.length_cons, List.modify_succ_cons, ih, List.cons_append]

/-! ### Tended elements -/

/-- An element of a node while its updater runs. -/
structure Tended (w : World σ) (D : Scene σ) (node : Node Resolver) (e : ElementId) (x : Element) :
    Prop where
  /-- The element. -/
  get : w.elements.get? e.row = some x
  /-- It is one of the node. -/
  stem : Stem node x
  /-- Its updater is taken out. -/
  updater : x.updater = none
  /-- No child is in its slots twice. -/
  nodup : (x.slots.flatMap Slot.elements).Nodup
  /-- What is in its slots. -/
  branches : ∀ slot ∈ x.slots, Branch w D w.store e x.context slot

/-- An element of a node is tended from one world to another. -/
def Tends (D : Scene σ) (node : Node Resolver) (e : ElementId) (w w' : World σ) : Prop :=
  Touches (· = e) w w' ∧ ∃ x, Tended w' D node e x

theorem Tends.after {D : Scene σ} {node : Node Resolver} {e : ElementId} {w w₁ w₂ : World σ}
    (hw : Touches (· = e) w w₁) (h : Tends D node e w₁ w₂) : Tends D node e w w₂ :=
  ⟨hw.trans h.1, h.2⟩

/-- Slots in which everything is as it should be stay so while their element is changed. -/
theorem Branch.beside {w w' : World σ} {D : Scene σ} {o o' : Store} {e : ElementId} {x : Element}
    (hx : w.elements.get? e.row = some x) {slot : Slot} (h : Branch w D o e x.context slot)
    (hw : Touches (· = e) w w') (ho : o.Grows w.store) (ho' : o.Grows o') :
    Branch w' D o' e x.context slot := by
  refine h.touched hw (fun c hc y hy => ?_) ho ho'
  rintro rfl
  obtain ⟨-, -, hlineage⟩ := h.remembers.lineage hc
  rw [← World.lineage_eq hx] at hlineage
  exact World.not_below_of_lineage hlineage hy

namespace Tended

variable {w w' : World σ} {D : Scene σ} {node : Node Resolver} {e : ElementId} {x y : Element}

theorem lineage (h : Tended w D node e x) : w.lineage e = e :: Context.elements x.context :=
  World.lineage_eq h.get

/-- What is in the slots exists. -/
theorem lt_size (h : Tended w D node e x) {c : ElementId} (hc : c ∈ x.slots.flatMap Slot.elements) :
    c.row < w.elements.size := by
  obtain ⟨slot, hslot, hc⟩ := List.mem_flatMap.mp hc
  obtain ⟨z, hz, -⟩ := (h.branches slot hslot).remembers.lineage hc
  exact Table.lt_size_of_get? hz

/-- The element is changed, but not what is in its slots. -/
theorem alter (h : Tended w D node e x) (hw : Touches (· = e) w w')
    (hy : w'.elements.get? e.row = some y) (hstem : Stem node y) (hupdater : y.updater = none)
    (hslots : y.slots = x.slots) : Tended w' D node e y := by
  obtain ⟨y', hy', hcontext, -⟩ := hw.element e x h.get
  obtain rfl : y = y' := Option.some.inj (hy.symm.trans hy')
  refine ⟨hy, hstem, hupdater, hslots ▸ h.nodup, fun slot hslot => ?_⟩
  rw [hcontext]
  exact (h.branches slot (hslots ▸ hslot)).beside h.get hw (.refl _) hw.store

theorem touched (h : Tended w D node e x) (hw : Touches (fun _ => False) w w') :
    Tended w' D node e x :=
  h.alter (.of_none hw) (hw.get? h.get id) h.stem h.updater rfl

/-- A slot is written. -/
theorem remember (enter : Enter σ) (h : Tended w D node e x) {done rest : List Slot} {slot : Slot}
    (hslots : x.slots = done ++ slot :: rest) {memory : Memory}
    (hbranch : Branch w D w.store e x.context ⟨slot.node, memory⟩)
    (hnodup : (Slot.mk slot.node memory).elements.Nodup)
    (hfresh : ∀ c ∈ (Slot.mk slot.node memory).elements,
      c ∈ slot.elements ∨ c ∉ x.slots.flatMap Slot.elements) :
    ∃ w', (Build.remember e done.length memory).runIn enter w = (some (), w') ∧
      Touches (· = e) w w' ∧
      Tended w' D node e { x with slots := done ++ ⟨slot.node, memory⟩ :: rest } := by
  have halters : Alters enter w e (Build.remember e done.length memory) () _ :=
    .updateElement h.get _ fun _ => rfl
  obtain ⟨w', hrun, hedits, hx'⟩ := halters
  have hw := hedits.touches
  rw [hslots, modify_append_cons] at hx'
  refine ⟨w', hrun, hw, hx', ?_, h.updater, ?_, ?_⟩
  · obtain ⟨htag, hidle, hnodes, hbare, hcomponent⟩ := h.stem
    refine ⟨htag, hidle, ?_, hbare, hcomponent⟩
    rw [← hnodes, hslots]
    simp
  · have hall := h.nodup
    rw [hslots] at hall hfresh
    simp only [List.flatMap_append, List.flatMap_cons] at hall hfresh ⊢
    exact nodup_replace hall hnodup hfresh
  · intro other hother
    have hbranch' : Branch w D w.store e x.context other := by
      rcases List.mem_append.mp hother with hmem | hmem
      · exact h.branches other (by rw [hslots]; exact List.mem_append_left _ hmem)
      · rcases List.mem_cons.mp hmem with rfl | hmem
        · exact hbranch
        · exact h.branches other
            (by rw [hslots]; exact List.mem_append_right _ (List.mem_cons_of_mem _ hmem))
    exact hbranch'.beside h.get hw (.refl _) hw.store

end Tended

/-! ### Planted children -/

/-- Contexts of a child in an element and in a drawing. -/
inductive Offshoot (ρ : Link) (D : Scene σ) (w s : World σ) (e : ElementId) (C C' : Context) :
    Context → Context → Prop where
  /-- A single child. -/
  | single (m : Nat) : Offshoot ρ D w s e C C' (.object (.scope m e) :: C) C'
  /-- The child of an item. -/
  | item {name : String} {context context' : Context} :
    Pairs ρ D w s name e C C' context context' → Offshoot ρ D w s e C C' context context'

theorem Offshoot.elements_eq {ρ : Link} {D : Scene σ} {w s : World σ} {e : ElementId}
    {C C' context context' : Context} (h : Offshoot ρ D w s e C C' context context') :
    Context.elements context = e :: Context.elements C := by
  cases h with
  | single m => rfl
  | item hpairs =>
    obtain ⟨r, q, v, u, ⟨m, rfl⟩, -⟩ := hpairs
    rfl

/-- A child that stands for a context of a drawing. -/
structure Planted (ρ : Link) (D : Scene σ) (o : Store) (w s : World σ) (e : ElementId)
    (C C' : Context) (node : Node Resolver) (c : ElementId) (context : Context) : Prop where
  /-- It is a tree. -/
  grown : Grown w D o node c
  /-- Its scopes. -/
  offshoot : ∃ x, w.elements.get? c.row = some x ∧ Offshoot ρ D w s e C C' x.context context

namespace Planted

variable {ρ ρ' : Link} {D : Scene σ} {o : Store} {n : Nat} {w w' s s' : World σ} {e c : ElementId}
  {C C' context : Context} {node : Node Resolver}

theorem lineage (h : Planted ρ D o w s e C C' node c context) :
    w.lineage c = c :: e :: Context.elements C := by
  obtain ⟨x, hx, hoffshoot⟩ := h.offshoot
  rw [World.lineage_eq hx, hoffshoot.elements_eq]

theorem course {S : ElementId → Prop} (h : Planted ρ D o w s e C C' node c context)
    (hcourse : ρ.Course S ρ' w w' s s') (hS : ∀ x, w.Below c x → ¬ S x) (ho : o.Grows w.store) :
    Planted ρ' D o w' s' e C C' node c context := by
  obtain ⟨x, hx, hoffshoot⟩ := h.offshoot
  refine ⟨h.grown.touched hcourse.left hS ho (.refl o), x, hcourse.left.get? hx (hS c (.refl w c)), ?_⟩
  revert hoffshoot
  generalize x.context = inside
  intro hoffshoot
  cases hoffshoot with
  | single m => exact .single m
  | item hpairs => exact .item (hpairs.step hcourse)

end Planted

/-- Inside of an element whose attributes hide these names, links go on. -/
theorem Link.Follows.enter {ρ : Link} {D : Scene σ} {o : Store} {n : Nat} {names : List String}
    {C C' : Context} {w s : World σ} (h : ρ.Follows D o n names C C' w s) {e : ElementId}
    (hhides : w.Hides names e) (hlineage : w.lineage e = e :: Context.elements C) (m : Nat) :
    ρ.Follows D o n names (.object (.scope m e) :: C) C' w s where
  tied := ⟨h.tied.worlds, h.tied.contexts.scope m hhides hlineage⟩
  apart r q hrq := (h.apart r q hrq).imp_right (Or.imp_right (List.mem_cons_of_mem _))
  since := h.since

/-- Links around an element go on while it is changed. -/
theorem Link.Follows.beside {ρ ρ' : Link} {D : Scene σ} {o : Store} {n : Nat} {names : List String}
    {C C' : Context} {w w' s s' : World σ} (h : ρ.Follows D o n names C C' w s) {e : ElementId}
    (hcourse : ρ.Course (· = e) ρ' w w' s s') (hlineage : w.lineage e = e :: Context.elements C) :
    ρ'.Follows D o n names C C' w' s' := by
  refine h.course hcourse ?_
  rintro e' hle rfl
  exact absurd ((World.Below.refl w e').length_lt hlineage) (Nat.not_lt.mpr hle)

/-- Whoever updates a planted child can follow it. -/
theorem Planted.follows {ρ : Link} {D : Scene σ} {o : Store} {n m : Nat} {w s : World σ}
    {e c : ElementId} {C C' context : Context} {node : Node Resolver} {names : List String}
    (h : Planted ρ D o w s e C C' node c context)
    (hρ : ρ.Follows D o n names (.object (.scope m e) :: C) C' w s) :
    ∃ (x : Element) (ρ' : Link), w.elements.get? c.row = some x ∧
      ρ'.Follows D o n names x.context context w s := by
  obtain ⟨x, hx, hoffshoot⟩ := h.offshoot
  revert hoffshoot
  generalize hinside : x.context = inside
  intro hoffshoot
  cases hoffshoot with
  | single m' =>
    obtain ⟨hhides, hlineage, hC⟩ := hρ.scope
    exact ⟨x, ρ, hx, hinside ▸ hC.enter hhides hlineage m'⟩
  | item hpairs =>
    obtain ⟨ρ', -, hρ', -⟩ := hpairs.follows hρ
    exact ⟨x, ρ', hx, hinside ▸ hρ'⟩

theorem Stem.child {node : Node Resolver} {x : Element} (h : Stem node x) {slot : Slot}
    (hslot : slot ∈ x.slots) : slot.node ∈ node.children := by
  rw [← h.slots]
  exact List.mem_map_of_mem hslot

/-- An element of a node hides what is looked up in the node. -/
theorem Stem.hides {w : World σ} {node : Node Resolver} {e : ElementId} {x : Element}
    (h : Stem node x) (hx : w.elements.get? e.row = some x) (hfree : node.CaptureFree) :
    w.Hides node.names e := by
  obtain ⟨c, hc, -, hdressed⟩ := h.component
  refine ⟨x, c, hx, hc, h.idle, fun name hname => ?_⟩
  have hnot := hfree node node.mem_family_self name hname
  refine ⟨?_, fun hkey => hnot (hdressed.keys hkey)⟩
  rintro rfl
  exact hnot List.mem_cons_self

/-! ### Side by side -/

/-- An element in the middle of an update, with a drawing of its node side by side. -/
structure Abreast (ρ : Link) (D : Scene σ) (o : Store) (n : Nat) (w s : World σ)
    (node : Node Resolver) (e : ElementId) (x : Element) (C' : Context) : Prop where
  /-- The element shows nothing but the data. -/
  lucid : node.Lucid D
  /-- The scopes around the element are linked. -/
  follows : ρ.Follows D o n node.names x.context C' w s
  /-- The element is tended. -/
  tended : Tended w D node e x

namespace Abreast

variable {ρ ρ' : Link} {D : Scene σ} {o : Store} {n : Nat} {w w' s s' : World σ}
  {node : Node Resolver} {e : ElementId} {x y : Element} {C' : Context}

theorem course (h : Abreast ρ D o n w s node e x C') (hcourse : ρ.Course (· = e) ρ' w w' s s')
    (htended : Tended w' D node e y) : Abreast ρ' D o n w' s' node e y C' := by
  obtain ⟨y', hy', hcontext, -⟩ := hcourse.left.element e x h.tended.get
  obtain rfl : y = y' := Option.some.inj (htended.get.symm.trans hy')
  refine ⟨h.lucid, ?_, htended⟩
  rw [hcontext]
  exact h.follows.beside hcourse h.tended.lineage

theorem step (h : Abreast ρ D o n w s node e x C') (hstep : ρ.Step ρ' w w' s s') :
    Abreast ρ' D o n w' s' node e x C' := h.course (.of_step hstep) (h.tended.touched hstep.left)

/-- Inside of the element links go on. -/
theorem inside (h : Abreast ρ D o n w s node e x C') (m : Nat) :
    ρ.Follows D o n node.names (.object (.scope m e) :: x.context) C' w s :=
  h.follows.enter (h.tended.stem.hides h.tended.get h.lucid.captureFree) h.tended.lineage m

end Abreast

end ReactiveViews
