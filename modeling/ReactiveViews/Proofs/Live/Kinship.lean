import ReactiveViews.Proofs.Live.Attributes
import ReactiveViews.Proofs.Live.Nursing

/-!
# Elements among the scopes of two runs

Two runs are compared whose contexts contain elements, in both runs in the same places. Two such
elements are *kin* if they have the same tag and linked values under the names that may be asked for.
What they have under other names need not be linked; those are attributes that one of the runs has
still to set. Contexts are *kindred* if their elements are kin and their other scopes are linked.

A function that is called as soon as its name has been looked up in an element is called for that
element, which is not linked to the other one; so the names of attributes are loose.

## What is proved

Expressions that ask for such names only have linked values in kindred contexts (`Link.Near.resolve`),
and so do conditions and lists (`Link.Near.conditions`, `Link.Near.listOf`). Contexts stay kindred
while something goes on inside of their elements (`Link.Kindred.pace`).
-/

namespace ReactiveViews

variable {σ α β γ δ ε : Type}

/-! ### One run after the other -/

/-- If the first act succeeds, the second one does as well, with related answers. -/
def Tracks (enter : Enter σ) (w s : World σ) (act : ExceptT ε (Act σ) α) (act' : ExceptT ε (Act σ) β)
    (Q : α → β → World σ → World σ → Prop) : Prop :=
  ∀ a w', act.run.runIn enter w = (some (.ok a), w') →
    ∃ b s', act'.run.runIn enter s = (some (.ok b), s') ∧ Q a b w' s'

namespace Tracks

variable {enter : Enter σ} {w s : World σ} {act : ExceptT ε (Act σ) α} {act' : ExceptT ε (Act σ) β}
  {Q : α → β → World σ → World σ → Prop} {R : γ → δ → World σ → World σ → Prop}

theorem pure {a : α} {b : β} (h : Q a b w s) :
    Tracks enter w s (Pure.pure a : ExceptT ε (Act σ) α) (Pure.pure b : ExceptT ε (Act σ) β) Q := by
  rintro _ _ ⟨⟩
  exact ⟨b, s, rfl, h⟩

theorem bind {f : α → ExceptT ε (Act σ) γ} {g : β → ExceptT ε (Act σ) δ}
    (h : Tracks enter w s act act' Q)
    (hfg : ∀ a b w' s', act.run.runIn enter w = (some (.ok a), w') →
      act'.run.runIn enter s = (some (.ok b), s') → Q a b w' s' → Tracks enter w' s' (f a) (g b) R) :
    Tracks enter w s (act >>= f) (act' >>= g) R := by
  intro c w'' hrun
  obtain ⟨a, w', hact, hf⟩ := Build.runIn_bindE_eq_ok hrun
  obtain ⟨b, s', hact', hQ⟩ := h a w' hact
  obtain ⟨d, s'', hg, hR⟩ := hfg a b w' s' hact hact' hQ c w'' hf
  exact ⟨d, s'', by rw [Build.runIn_bindE_ok hact', hg], hR⟩

theorem imp {Q' : α → β → World σ → World σ → Prop} (h : Tracks enter w s act act' Q)
    (hQ : ∀ a b w' s', Q a b w' s' → Q' a b w' s') : Tracks enter w s act act' Q' := by
  intro a w' hrun
  obtain ⟨b, s', hrun', h⟩ := h a w' hrun
  exact ⟨b, s', hrun', hQ a b w' s' h⟩

/-- A step of each that succeeds. -/
theorem step {f : α → ExceptT ε (Act σ) γ} {g : β → ExceptT ε (Act σ) δ} {w' s' : World σ} {a : α} {b : β}
    (hrun : act.run.runIn enter w = (some (.ok a), w'))
    (hrun' : act'.run.runIn enter s = (some (.ok b), s'))
    (h : Tracks enter w' s' (f a) (g b) R) : Tracks enter w s (act >>= f) (act' >>= g) R := by
  intro c w'' hbind
  rw [Build.runIn_bindE_ok hrun] at hbind
  rw [Build.runIn_bindE_ok hrun']
  exact h c w'' hbind

/-- An act that follows itself. -/
theorem self {act : ExceptT ε (Act σ) α} {Q : α → α → World σ → World σ → Prop} {a : α} {w' : World σ}
    (h : Tracks enter w w act act Q) (hrun : act.run.runIn enter w = (some (.ok a), w')) : Q a a w' w' := by
  obtain ⟨b, s', hrun', hQ⟩ := h a w' hrun
  obtain ⟨heq, rfl⟩ := Prod.mk.inj (hrun.symm.trans hrun')
  obtain rfl := Except.ok.inj (Option.some.inj heq)
  exact hQ

/-- Acts that let go of something if they fail. -/
theorem releasing {act : Build σ α} {act' : Build σ β} (h : Tracks enter w s act act' Q)
    (es es' : List ElementId) :
    Tracks enter w s (Build.releasing es act) (Build.releasing es' act') Q := by
  intro a w' hrun
  obtain ⟨b, s', hrun', hQ⟩ := h a w' (Build.runIn_releasing_eq_ok hrun)
  exact ⟨b, s', Build.runIn_releasing_ok hrun', hQ⟩

/-- Messages with texts that are there. -/
theorem message (level : Level) (text text' : String) :
    Tracks enter w s (Build.act (Act.message level (Pure.pure text)))
      (Build.act (Act.message level (Pure.pure text'))) fun _ _ w' s' => Looked w w' ∧ Looked s s' := by
  intro _ w' hrun
  have hrun' := Act.runIn_message level text' enter s
  exact ⟨(), _, Act.runIn_lift hrun',
    Looks.message level (.pure text) _ _ _ (Build.runIn_lift_eq_ok hrun),
    Looks.message level (.pure text') _ _ _ hrun'⟩

end Tracks

/-- Acts that mimic each other follow one another. -/
theorem Bond.Mimics.tracks {B : Bond σ} {enter : Enter σ} {V : B.Index → α → β → Prop} {i : B.Index}
    {w s : World σ} {act : ExceptT ε (Act σ) α} {act' : ExceptT ε (Act σ) β}
    (h : B.Mimics enter (fun j => Outcomes (V j)) i w s act.run act'.run) :
    Tracks enter w s act act' fun a b w' s' => ∃ j, B.Goes i j w w' s s' ∧ V j a b := by
  intro a w' hrun
  unfold Bond.Mimics at h
  rw [hrun] at h
  generalize hright : act'.run.runIn enter s = right at h
  cases h with
  | both houtcome =>
    obtain ⟨j, hgoes, hxy⟩ := houtcome
    cases hxy with
    | ok hV => exact ⟨_, _, rfl, j, hgoes, hV⟩

/-- Acts that only look hold nothing and let go of nothing when they answer. -/
theorem Mimics.looking {V : Link → α → β → Prop} {enter : Enter σ} {ρ : Link} {w s : World σ}
    {act : Act σ α} {act' : Act σ β} (h : Mimics enter V ρ w s act act') (hact : Looks enter act)
    (hact' : Looks enter act') : Link.steadyBond.Mimics enter V ρ w s act act' := by
  have hw := hact w
  have hs := hact' s
  unfold Mimics at h
  unfold Bond.Mimics
  generalize act.runIn enter w = x at h hw ⊢
  generalize act'.runIn enter s = y at h hs ⊢
  cases h with
  | both hV =>
    obtain ⟨ρ', hstep, hV⟩ := hV
    exact .both ⟨ρ', ⟨hstep, (hw _ _ rfl).held, (hs _ _ rfl).held⟩, hV⟩
  | neither => exact .neither _ _

/-! ### What is left alone -/

/-- The elements that have at most so many elements in their lineage are left alone. -/
structure Leaves (n : Nat) (w w' : World σ) : Prop where
  /-- They are not touched. -/
  touches : Touches (fun e => n < (w.lineage e).length) w w'
  /-- Those that were held are held. -/
  held : ∀ e x, w.elements.get? e.row = some x → (w.lineage e).length ≤ n → e ∈ w.held → e ∈ w'.held

namespace Leaves

variable {n : Nat} {u v w w' : World σ}

theorem refl (n : Nat) (w : World σ) : Leaves n w w := ⟨.refl w, fun _ _ _ _ => id⟩

theorem trans (h : Leaves n u v) (h' : Leaves n v w) : Leaves n u w where
  touches := h.touches.transport h'.touches fun e ⟨_, hx⟩ hlt => by
    rwa [h.touches.lineage hx] at hlt
  held e x hx hle hheld := by
    obtain ⟨y, hy, -⟩ := h.touches.element e x hx
    exact h'.held e y hy (by rwa [h.touches.lineage hx]) (h.held e x hx hle hheld)

theorem mono (h : Leaves n u v) {k : Nat} (hk : k ≤ n) : Leaves k u v where
  touches := h.touches.mono fun _ _ hlt => Nat.lt_of_le_of_lt hk hlt
  held e x hx hle := h.held e x hx (Nat.le_trans hle hk)

/-- What goes on inside of an element leaves those around it alone. -/
theorem of_proceeds {S : ElementId → Prop} {es : List ElementId} (h : Proceeds S es u v)
    (hS : ∀ e x, u.elements.get? e.row = some x → S e → n < (u.lineage e).length) : Leaves n u v :=
  ⟨h.touches.mono fun e ⟨x, hx⟩ => hS e x hx, fun _ _ _ _ hheld => h.held ▸ List.mem_append_right _ hheld⟩

theorem of_self {e : ElementId} {C : Context} {es : List ElementId}
    (he : u.lineage e = e :: Context.elements C) (h : Proceeds (· = e) es u v) :
    Leaves (Context.elements C).length u v :=
  .of_proceeds h fun _ _ _ heq => heq ▸ World.Below.length_lt he (.refl u e)

theorem store (h : Leaves n u v) : u.store.Grows v.store := h.touches.store

end Leaves

/-! ### Kin -/

/-- An element whose component draws nothing and is not in the middle of a change. -/
structure World.Visible (w : World σ) (e : ElementId) (x : Element) (h : Headless) : Prop where
  /-- The element. -/
  get : w.elements.get? e.row = some x
  /-- Its component draws nothing. -/
  component : x.component = .headless h
  /-- Its component is not in the middle of a change. -/
  idle : x.busy = false

/-- What an element with such a component owns under a name, undefined if it is nothing. -/
def Element.owned (x : Element) (h : Headless) (name : String) : Value :=
  if name = "tag" then .str x.tag.tag else h.attributeValue name

theorem World.Visible.getOwn {w : World σ} {e : ElementId} {x : Element} {h : Headless}
    (hvisible : w.Visible e x h) (hheld : e ∈ w.held) (enter : Enter σ) (m : Nat) (name : String) :
    (Act.getOwn (.object (.scope m e)) name).runIn enter w = (some (some (x.owned h name)), w) := by
  have halive : (Act.alive e).runIn enter w = (some true, w) := by
    show (some (w.alive e), w) = _
    rw [World.alive_of_held (Table.lt_size_of_get? hvisible.get) hheld]
  show (Act.scopeGetOwn e name).runIn enter w = _
  rw [Act.scopeGetOwn, Act.runIn_bind_some halive, if_pos rfl,
    Act.runIn_bind_some (Act.runIn_element hvisible.get), hvisible.idle, hvisible.component,
    Element.owned]
  split
  · rfl
  · show (some (some (h.attributeValue name)), { w with held := (e :: w.held).erase e }) = _
    rw [List.erase_cons_head]

namespace Link

/-- Two elements of which the same may be told under the names that are asked for. Functions are owned
under loose names only. -/
structure Kin (ρ : Link) (w s : World σ) (asked : String → Prop) (loose : List String)
    (e e' : ElementId) (x x' : Element) (h h' : Headless) : Prop where
  /-- The one element. -/
  left : w.Visible e x h
  /-- The other element. -/
  right : s.Visible e' x' h'
  /-- The one element is held. -/
  held : e ∈ w.held
  /-- The other element is held. -/
  held' : e' ∈ s.held
  /-- They have the same tag. -/
  tag : x.tag.tag = x'.tag.tag
  /-- Their attributes. -/
  same : ∀ name, asked name → name ≠ "tag" →
    Option.Rel ρ.Values (h.attributes.get? name) (h'.attributes.get? name)
  /-- Their functions. -/
  calls : ∀ name f, h.attributes.get? name = some (.function f) → name ∈ loose

/-- Two contexts with elements in the same places, which are kin, and with linked values in the others.
An element that owns none of the names that are asked for may be anything. -/
inductive Kindred (ρ : Link) (w s : World σ) (asked : String → Prop) (loose : List String) :
    Context → Context → Prop where
  /-- No scopes. -/
  | nil : Kindred ρ w s asked loose [] []
  /-- Linked values. -/
  | value {v v' : Value} {C C' : Context} : ρ.Values v v' → Kindred ρ w s asked loose C C' →
    Kindred ρ w s asked loose (v :: C) (v' :: C')
  /-- Elements that are kin. -/
  | scope (m m' : Nat) {e e' : ElementId} {x x' : Element} {h h' : Headless} {C C' : Context} :
    ρ.Kin w s asked loose e e' x x' h h' → w.lineage e = e :: Context.elements C →
    s.lineage e' = e' :: Context.elements C' → Kindred ρ w s asked loose C C' →
    Kindred ρ w s asked loose (.object (.scope m e) :: C) (.object (.scope m' e') :: C')
  /-- Elements that are not asked. -/
  | blind (m m' : Nat) {e e' : ElementId} {x x' : Element} {C C' : Context} :
    w.elements.get? e.row = some x → s.elements.get? e'.row = some x' →
    (∀ name, asked name → w.Hides [name] e) → (∀ name, asked name → s.Hides [name] e') →
    w.lineage e = e :: Context.elements C → s.lineage e' = e' :: Context.elements C' →
    Kindred ρ w s asked loose C C' →
    Kindred ρ w s asked loose (.object (.scope m e) :: C) (.object (.scope m' e') :: C')

section

variable {ρ ρ' ρ₁ : Link} {D : Scene σ} {w w' w₁ s s' s₁ : World σ} {asked asked' : String → Prop}
  {loose loose' : List String} {e e' : ElementId} {x x' : Element} {h h' : Headless} {C C' : Context}
  {n : Nat} {enter : Enter σ}

theorem Kin.mono (hkin : ρ.Kin w s asked loose e e' x x' h h') (hle : ρ ≤ ρ')
    (hasked : ∀ name, asked' name → asked name) (hloose : loose ⊆ loose') :
    ρ'.Kin w s asked' loose' e e' x x' h h' where
  left := hkin.left
  right := hkin.right
  held := hkin.held
  held' := hkin.held'
  tag := hkin.tag
  same name hname htag :=
    optionRel_imp (hkin.same name (hasked name hname) htag) fun _ _ hv => hv.mono hle
  calls name f hf := hloose (hkin.calls name f hf)

theorem Kindred.mono (hC : ρ.Kindred w s asked loose C C') (hle : ρ ≤ ρ')
    (hasked : ∀ name, asked' name → asked name) (hloose : loose ⊆ loose') :
    ρ'.Kindred w s asked' loose' C C' := by
  induction hC with
  | nil => exact .nil
  | value hv _ ih => exact .value (hv.mono hle) ih
  | scope m m' hkin hlineage hlineage' _ ih =>
    exact .scope m m' (hkin.mono hle hasked hloose) hlineage hlineage' ih
  | blind m m' hx hx' hhides hhides' hlineage hlineage' _ ih =>
    exact .blind m m' hx hx' (fun name hname => hhides name (hasked name hname))
      (fun name hname => hhides' name (hasked name hname)) hlineage hlineage' ih

theorem Values.elements_cons (hv : ρ.Values v v') (C C' : Context) :
    Context.elements (v :: C) = Context.elements C ∧ Context.elements (v' :: C') = Context.elements C' := by
  cases hv with
  | array => exact ⟨rfl, rfl⟩
  | record => exact ⟨rfl, rfl⟩
  | @plain v hplain =>
    cases v with
    | object o =>
      cases o with
      | scope => cases hplain
      | _ => exact ⟨rfl, rfl⟩
    | _ => exact ⟨rfl, rfl⟩

theorem Kindred.length_eq (hC : ρ.Kindred w s asked loose C C') :
    (Context.elements C).length = (Context.elements C').length := by
  induction hC with
  | nil => rfl
  | @value _ _ C C' hv _ ih => rwa [(hv.elements_cons C C').1, (hv.elements_cons C C').2]
  | scope _ _ _ _ _ _ ih => exact congrArg (· + 1) ih
  | blind _ _ _ _ _ _ _ _ _ ih => exact congrArg (· + 1) ih

/-- From linked worlds to linked worlds, in which elements that are not deep inside are left alone. -/
structure Pace (n : Nat) (ρ ρ' : Link) (w w' s s' : World σ) : Prop where
  /-- No less is linked. -/
  le : ρ ≤ ρ'
  /-- The stores. -/
  stores : ρ'.Stores w'.store s'.store
  /-- The one world. -/
  left : Leaves n w w'
  /-- The other world. -/
  right : Leaves n s s'

namespace Pace

theorem mono (hpace : Pace n ρ ρ' w w' s s') {k : Nat} (hk : k ≤ n) : Pace k ρ ρ' w w' s s' :=
  ⟨hpace.le, hpace.stores, hpace.left.mono hk, hpace.right.mono hk⟩

/-- The same link goes on. -/
theorem of_leaves (hstores : ρ.Stores w.store s.store) (hw : Leaves n w w') (hs : Leaves n s s') :
    Pace n ρ ρ w w' s s' := ⟨ρ.le_refl, hstores.grow hw.store hs.store, hw, hs⟩

end Pace

/-- From linked worlds to linked worlds in which more is held and nothing has been touched. -/
structure Advances (ρ ρ' : Link) (w w' s s' : World σ) : Prop where
  /-- The worlds. -/
  step : ρ.Step ρ' w w' s s'
  /-- What was held in the one world. -/
  held : w.held ⊆ w'.held
  /-- What was held in the other world. -/
  held' : s.held ⊆ s'.held

namespace Advances

theorem refl (hstores : ρ.Stores w.store s.store) : Advances ρ ρ w w s s :=
  ⟨.refl hstores, List.Subset.refl _, List.Subset.refl _⟩

theorem trans (h : Advances ρ ρ₁ w w₁ s s₁) (h' : Advances ρ₁ ρ' w₁ w' s₁ s') :
    Advances ρ ρ' w w' s s' :=
  ⟨h.step.trans h'.step, List.Subset.trans h.held h'.held, List.Subset.trans h.held' h'.held'⟩

theorem of_goes (hgoes : Link.steadyBond.Goes ρ ρ' w w' s s') : Advances ρ ρ' w w' s s' :=
  ⟨hgoes.1, hgoes.2.1 ▸ List.Subset.refl _, hgoes.2.2 ▸ List.Subset.refl _⟩

theorem of_looked (hstores : ρ.Stores w.store s.store) (hw : Looked w w') (hs : Looked s s') :
    Advances ρ ρ w w' s s' :=
  ⟨.of_touches hstores hw.touches hs.touches, hw.held ▸ List.Subset.refl _, hs.held ▸ List.Subset.refl _⟩

theorem of_proceeds {es es' : List ElementId} (hextends : ρ.Extends ρ' w.store s.store)
    (hstores : ρ'.Stores w'.store s'.store) (hw : Proceeds (fun _ => False) es w w')
    (hs : Proceeds (fun _ => False) es' s s') : Advances ρ ρ' w w' s s' :=
  ⟨⟨hextends, hstores, hw.touches, hs.touches⟩, hw.held ▸ List.subset_append_right _ _,
    hs.held ▸ List.subset_append_right _ _⟩

theorem pace (h : Advances ρ ρ' w w' s s') (n : Nat) : Pace n ρ ρ' w w' s s' where
  le := h.step.le
  stores := h.step.stores
  left := ⟨.of_none h.step.left, fun _ _ _ _ hheld => h.held hheld⟩
  right := ⟨.of_none h.step.right, fun _ _ _ _ hheld => h.held' hheld⟩

end Advances

theorem Pace.of_goes (hgoes : Link.steadyBond.Goes ρ ρ' w w' s s') (n : Nat) : Pace n ρ ρ' w w' s s' :=
  (Advances.of_goes hgoes).pace n

theorem Worlds.pace (hworlds : ρ.Worlds D w s) (hpace : Pace n ρ ρ' w w' s s') : ρ'.Worlds D w' s' where
  covers := Link.le_trans hworlds.covers hpace.le
  stores := hpace.stores
  level := (hpace.left.touches.level.trans hworlds.level).trans hpace.right.touches.level.symm
  left := hpace.left.touches.host.trans hworlds.left
  right := hpace.right.touches.host.trans hworlds.right

theorem hides_of_leaves {name : String} (hhides : w.Hides [name] e) (hw : Leaves n w w')
    (hle : (w.lineage e).length ≤ n) : w'.Hides [name] e := by
  obtain ⟨x, h, hx, hcomponent, hbusy, hnone⟩ := hhides
  exact ⟨x, h, hw.touches.get? hx (Nat.not_lt.mpr hle), hcomponent, hbusy, hnone⟩

/-- Elements stay kin while something goes on inside of them. -/
theorem Kin.pace (hkin : ρ.Kin w s asked loose e e' x x' h h') (hpace : Pace n ρ ρ' w w' s s')
    (hle : (w.lineage e).length ≤ n) (hle' : (s.lineage e').length ≤ n) :
    ρ'.Kin w' s' asked loose e e' x x' h h' where
  left := { hkin.left with get := hpace.left.touches.get? hkin.left.get (Nat.not_lt.mpr hle) }
  right := { hkin.right with get := hpace.right.touches.get? hkin.right.get (Nat.not_lt.mpr hle') }
  held := hpace.left.held e x hkin.left.get hle hkin.held
  held' := hpace.right.held e' x' hkin.right.get hle' hkin.held'
  tag := hkin.tag
  same name hname htag := optionRel_imp (hkin.same name hname htag) fun _ _ hv => hv.mono hpace.le
  calls := hkin.calls

/-- Contexts stay kindred while something goes on inside of their elements. -/
theorem Kindred.pace (hC : ρ.Kindred w s asked loose C C')
    (hpace : Pace (Context.elements C).length ρ ρ' w w' s s') : ρ'.Kindred w' s' asked loose C C' := by
  induction hC with
  | nil => exact .nil
  | @value v v' C C' hv _ ih =>
    rw [(hv.elements_cons C C').1] at hpace
    exact .value (hv.mono hpace.le) (ih hpace)
  | @scope m m' e e' x x' h h' C C' hkin hlineage hlineage' hrest ih =>
    have hle : (w.lineage e).length ≤ (Context.elements C).length + 1 := by rw [hlineage]; exact Nat.le_refl _
    have hle' : (s.lineage e').length ≤ (Context.elements C).length + 1 := by
      rw [hlineage', hrest.length_eq]
      exact Nat.le_refl _
    refine .scope m m' (hkin.pace hpace hle hle') ?_ ?_ (ih (hpace.mono (Nat.le_succ _)))
    · rw [hpace.left.touches.lineage hkin.left.get, hlineage]
    · rw [hpace.right.touches.lineage hkin.right.get, hlineage']
  | @blind m m' e e' x x' C C' hx hx' hhides hhides' hlineage hlineage' hrest ih =>
    have hle : (w.lineage e).length ≤ (Context.elements C).length + 1 := by rw [hlineage]; exact Nat.le_refl _
    have hle' : (s.lineage e').length ≤ (Context.elements C).length + 1 := by
      rw [hlineage', hrest.length_eq]
      exact Nat.le_refl _
    refine .blind m m' (hpace.left.touches.get? hx (Nat.not_lt.mpr hle))
      (hpace.right.touches.get? hx' (Nat.not_lt.mpr hle'))
      (fun name hname => hides_of_leaves (hhides name hname) hpace.left hle)
      (fun name hname => hides_of_leaves (hhides' name hname) hpace.right hle') ?_ ?_
      (ih (hpace.mono (Nat.le_succ _)))
    · rw [hpace.left.touches.lineage hx, hlineage]
    · rw [hpace.right.touches.lineage hx', hlineage']

/-! ### Evaluations -/

/-- Linked worlds with kindred contexts in them. -/
structure Near (ρ : Link) (D : Scene σ) (asked : String → Prop) (loose : List String) (C C' : Context)
    (w s : World σ) : Prop where
  /-- The worlds. -/
  worlds : ρ.Worlds D w s
  /-- The contexts. -/
  contexts : ρ.Kindred w s asked loose C C'

theorem Near.pace (hnear : ρ.Near D asked loose C C' w s)
    (hpace : Pace (Context.elements C).length ρ ρ' w w' s s') : ρ'.Near D asked loose C C' w' s' :=
  ⟨hnear.worlds.pace hpace, hnear.contexts.pace hpace⟩

theorem Near.goes (hnear : ρ.Near D asked loose C C' w s)
    (hgoes : Link.steadyBond.Goes ρ ρ' w w' s s') : ρ'.Near D asked loose C C' w' s' :=
  hnear.pace (.of_goes hgoes _)

theorem Near.mono (hnear : ρ.Near D asked loose C C' w s) (hasked : ∀ name, asked' name → asked name)
    (hloose : loose ⊆ loose') : ρ.Near D asked' loose' C C' w s :=
  ⟨hnear.worlds, hnear.contexts.mono ρ.le_refl hasked hloose⟩

/-- Elements that are kin own linked values under the names that are asked for. -/
theorem Kin.owned (hkin : ρ.Kin w s asked loose e e' x x' h h') {name : String} (hname : asked name) :
    ρ.Values (x.owned h name) (x'.owned h' name) ∧
      (name ∈ loose ∨ ∀ f, x.owned h name ≠ .function f) := by
  unfold Element.owned
  split
  · exact ⟨hkin.tag ▸ .plain rfl, .inr nofun⟩
  · next htag =>
    have hsame := hkin.same name hname htag
    have hcalls := hkin.calls name
    unfold Headless.attributeValue
    revert hsame hcalls
    generalize h.attributes.get? name = a
    generalize h'.attributes.get? name = b
    rintro (hv | _) hcalls
    · refine ⟨hv, ?_⟩
      by_cases hloose : name ∈ loose
      · exact .inl hloose
      · exact .inr fun f hf => hloose (hcalls f (congrArg some hf))
    · exact ⟨.plain rfl, .inr nofun⟩

/-- A name that is asked for is found in both contexts or in neither. -/
theorem Near.lookup (hinnocent : Innocent D enter) (hharmless : Harmless enter)
    (hnear : ρ.Near D asked loose C C' w s) {name : String} (hname : asked name) :
    Link.steadyBond.Mimics enter (fun ρ => Option.Rel fun a b => ρ.Values a.2 b.2 ∧
        (name ∈ loose ∨ ρ.Values a.1 b.1 ∨ ∀ f, a.2 ≠ .function f)) ρ w s
      (Act.lookup name C) (Act.lookup name C') := by
  obtain ⟨hworlds, hC⟩ := hnear
  induction C generalizing C' ρ w s with
  | nil =>
    cases hC with
    | nil => exact .pure hworlds.stores .none
  | cons scope rest ih =>
    cases hC with
    | value hv hrest =>
      refine ((hinnocent.ownProperty hworlds hv name).looking (hharmless.ownProperty _ _)
        (hharmless.ownProperty _ _)).bind fun ρ' w' s' a b hgoes hab => ?_
      obtain ⟨hworlds', hrest'⟩ := Near.goes ⟨hworlds, hrest⟩ hgoes
      have hfound := ih hworlds' hrest'
      cases hab with
      | none => exact hfound
      | @some y y' hy =>
        have hscope := Link.Values.mono hgoes.1.le hv
        cases hy with
        | plain hplain =>
          cases y with
          | undefined => exact hfound
          | _ => exact .pure hworlds'.stores (.some ⟨.plain hplain, .inr (.inl hscope)⟩)
        | array hab => exact .pure hworlds'.stores (.some ⟨.array hab, .inr (.inl hscope)⟩)
        | record hrq => exact .pure hworlds'.stores (.some ⟨.record hrq, .inr (.inl hscope)⟩)
    | @scope m m' e e' x x' h h' _ _ hkin _ _ hrest =>
      obtain ⟨hvalues, hloose⟩ := hkin.owned hname
      have hown := hkin.left.getOwn hkin.held enter m name
      have hown' := hkin.right.getOwn hkin.held' enter m' name
      unfold Bond.Mimics
      generalize x.owned h name = v at hvalues hloose hown
      generalize x'.owned h' name = v' at hvalues hown'
      by_cases hundefined : v = .undefined
      · subst hundefined
        cases hvalues
        rw [Act.runIn_lookup_passed hown, Act.runIn_lookup_passed hown']
        exact ih hworlds hrest
      · have hundefined' : v' ≠ .undefined := by
          rintro rfl
          cases hvalues
          exact hundefined rfl
        rw [Act.runIn_lookup_found hown hundefined, Act.runIn_lookup_found hown' hundefined']
        exact .both ⟨ρ, ⟨.refl hworlds.stores, rfl, rfl⟩, .some ⟨hvalues, hloose.imp_right .inr⟩⟩
    | blind m m' _ _ hhides hhides' _ _ hrest =>
      obtain ⟨owned, howned, hrun⟩ :=
        Act.runIn_getOwn_scope enter (hhides name hname) m (List.mem_singleton_self name)
      obtain ⟨owned', howned', hrun'⟩ :=
        Act.runIn_getOwn_scope enter (hhides' name hname) m' (List.mem_singleton_self name)
      have hfound := ih hworlds hrest
      unfold Bond.Mimics
      rw [Act.lookup, Act.lookup, Act.runIn_bind_some hrun, Act.runIn_bind_some hrun']
      rcases howned with rfl | rfl <;> rcases howned' with rfl | rfl <;> exact hfound

/-- Kindred contexts are read in the same way. -/
theorem Near.reads (hinnocent : Innocent D enter) (hharmless : Harmless enter) (C C' : Context)
    {asked : String → Prop} (loose : List String) {names : List String}
    (hnames : ∀ name ∈ names, asked name) :
    Bond.Reads Link.steadyBond enter (fun ρ => ρ.Near D asked loose C C') C C' names loose D.Holds where
  meets hnear := hnear.worlds.stores
  goes hgoes hnear := hnear.goes hgoes
  known hnear hv := hnear.worlds.held hv
  lookup hnear hname := hnear.lookup hinnocent hharmless (hnames _ hname)
  keyed hnear hv hkey := (hinnocent.keyed hnear.worlds hv hkey).looking (hharmless.getKeyed _ _)
    (hharmless.getKeyed _ _)
  newArray hnear hitems := (Innocent.newArray hnear.worlds hitems).looking (.newArray _) (.newArray _)
  apply f _ _ _ _ hnear hv hargs := (hinnocent.apply hnear.worlds f hv hargs).looking
    (hharmless.apply _ _ _) (hharmless.apply _ _ _)
  text hnear hv := (Mimics.text hnear.worlds.stores hv).looking (.text _) (.text _)

end

end Link

/-- What an expression asks for, calls and takes for granted, where the names that it may ask for and
those that it must not call at once are given. -/
structure Resolver.Apt (D : Scene σ) (asked : String → Prop) (loose : List String) (r : Resolver) :
    Prop where
  /-- What it asks for. -/
  names : ∀ name ∈ r.names, asked name
  /-- What it calls. -/
  calls : ∀ name ∈ r.callees, name ∉ loose
  /-- Its constants. -/
  constants : ∀ v ∈ r.constants, D.Holds v

namespace Link

section

variable {ρ : Link} {D : Scene σ} {w s : World σ} {asked : String → Prop} {loose : List String}
  {C C' : Context} {enter : Enter σ}

theorem Near.resolve (hinnocent : Innocent D enter) (hharmless : Harmless enter)
    (hnear : ρ.Near D asked loose C C' w s) {r : Resolver} (hr : r.Apt D asked loose) :
    Link.steadyBond.Mimics enter (fun ρ => Outcomes ρ.Values) ρ w s (Eval.resolve C r).run
      (Eval.resolve C' r).run :=
  (Near.reads hinnocent hharmless C C' loose hr.names).resolve hnear r (List.Subset.refl _) hr.calls
    hr.constants

theorem Near.shows (hinnocent : Innocent D enter) (hharmless : Harmless enter)
    (hnear : ρ.Near D asked loose C C' w s) {node : Node Resolver}
    (hcondition : ∀ r ∈ node.condition, r.Apt D asked loose) :
    Link.steadyBond.Mimics enter (fun _ => Outcomes Eq) ρ w s (Eval.shows C node).run
      (Eval.shows C' node).run := by
  unfold Eval.shows
  cases h : node.condition with
  | none => exact .pureE (V := fun _ => Eq) hnear.worlds.stores rfl
  | some r =>
    refine (hnear.resolve hinnocent hharmless (hcondition r h)).bindE ?_
    intro ρ' w' s' v v' hgoes hv
    exact .pureE (V := fun _ => Eq) hgoes.1.stores hv.truthy_eq

/-- Conditions are the same in contexts that are kindred, one by one. -/
theorem Near.conditions (hinnocent : Innocent D enter) (hharmless : Harmless enter)
    (hworlds : ρ.Worlds D w s) {node : Node Resolver}
    (hcondition : ∀ r ∈ node.condition, r.Apt D asked loose) {contexts contexts' : List Context}
    (hcontexts : List.Forall₂ (ρ.Kindred w s asked loose) contexts contexts') :
    Link.steadyBond.Mimics enter (fun _ => Outcomes Eq) ρ w s (Build.conditions node contexts).run
      (Build.conditions node contexts').run := by
  induction contexts generalizing contexts' ρ w s with
  | nil =>
    cases hcontexts
    exact .pureE (V := fun _ => Eq) hworlds.stores rfl
  | cons context rest ih =>
    cases hcontexts with
    | cons hfirst hrest =>
      refine (Near.shows hinnocent hharmless ⟨hworlds, hfirst⟩ hcondition).eval.bindE ?_
      rintro ρ₁ w₁ s₁ b _ hgoes rfl
      have hworlds₁ := hworlds.pace (.of_goes hgoes 0)
      refine (ih hworlds₁ (hrest.imp fun _ _ h => h.pace (.of_goes hgoes _))).bindE ?_
      rintro ρ₂ w₂ s₂ bs _ hgoes' rfl
      exact .pureE (V := fun _ => Eq) hgoes'.1.stores rfl

/-- Kindred contexts give linked lists. -/
theorem Near.listOf (hinnocent : Innocent D enter) (hharmless : Harmless enter)
    (hnear : ρ.Near D asked loose C C' w s) {r : Resolver} (hr : r.Apt D asked loose) :
    Link.steadyBond.Mimics enter
      (fun ρ => Outcomes fun a b => ρ.Values a.1 b.1 ∧ List.Forall₂ ρ.Values a.2 b.2) ρ w s
      (Build.listOf C r).run (Build.listOf C' r).run := by
  refine (hnear.resolve hinnocent hharmless hr).eval.bindE ?_
  intro ρ₁ w₁ s₁ list list' hgoes hlist
  have hitems : Link.steadyBond.Mimics enter (fun ρ => Outcomes (List.Forall₂ ρ.Values)) ρ₁ w₁ s₁
      (Act.items list) (Act.items list') := by
    have hwalk := hgoes.1.stores.walk? hlist
    unfold Bond.Mimics
    rw [Act.runIn_items, Act.runIn_items]
    revert hwalk
    generalize w₁.store.walk? list = a
    generalize s₁.store.walk? list' = b
    rintro (hall | _)
    · exact .both ⟨ρ₁, ⟨.refl hgoes.1.stores, rfl, rfl⟩, .ok hall⟩
    · exact .both ⟨ρ₁, ⟨.refl hgoes.1.stores, rfl, rfl⟩, .error _ _⟩
  refine hitems.eval.bindE ?_
  intro ρ₂ w₂ s₂ items items' hgoes' hall
  exact .pureE hgoes'.1.stores ⟨hlist.mono hgoes'.1.le, hall⟩

/-- A new record in each world, under one name. -/
theorem Stores.newRecord {s s' : Store} (h : ρ.Stores s s') (name : String) {v v' : Value}
    (hv : ρ.Values v v') :
    ∃ ρ' : Link, ρ.Extends ρ' s s' ∧
      ρ'.Stores (s.newRecord [(name, v)]).2 (s'.newRecord [(name, v')]).2 ∧
      ρ'.records (s.newRecord [(name, v)]).1 (s'.newRecord [(name, v')]).1 := by
  have hr : ∀ q, ¬ ρ.records (s.newRecord [(name, v)]).1 q :=
    fun q hrq => Nat.lt_irrefl _ (h.records hrq).1
  have hq : ∀ r, ¬ ρ.records r (s'.newRecord [(name, v')]).1 :=
    fun r hrq => Nat.lt_irrefl _ (h.records hrq).2.1
  refine ⟨ρ.addRecord _ _ hr hq, ⟨le_addRecord hr hq, .inl, ?_⟩, ?_, .inr ⟨rfl, rfl⟩⟩
  · rintro r q (hrq | ⟨rfl, rfl⟩)
    · exact .inl hrq
    · exact .inr ⟨Nat.le_refl _, Nat.le_refl _⟩
  · refine (h.grow (s.newRecord_grows _) (s'.newRecord_grows _)).addRecord hr hq ?_ ?_ ?_
    · simp [Store.newRecord]
    · simp [Store.newRecord]
    · rw [Store.fields_newRecord, Store.fields_newRecord]
      exact .cons ⟨rfl, hv⟩ .nil

/-- An element can be entered as a scope more than once. -/
theorem Near.remark {m m' : Nat} {e e' : ElementId}
    (hnear : ρ.Near D asked loose (.object (.scope m e) :: C) (.object (.scope m' e') :: C') w s)
    (k k' : Nat) : ρ.Near D asked loose (.object (.scope k e) :: C) (.object (.scope k' e') :: C') w s := by
  obtain ⟨hworlds, hC⟩ := hnear
  refine ⟨hworlds, ?_⟩
  cases hC with
  | value hv =>
    cases hv with
    | plain hplain => cases hplain
  | scope _ _ hkin hlineage hlineage' hrest => exact .scope k k' hkin hlineage hlineage' hrest
  | blind _ _ hx hx' hhides hhides' hlineage hlineage' hrest =>
    exact .blind k k' hx hx' hhides hhides' hlineage hlineage' hrest

theorem Near.advance {ρ' : Link} {w' s' : World σ} (hnear : ρ.Near D asked loose C C' w s)
    (hadvances : Advances ρ ρ' w w' s s') : ρ'.Near D asked loose C C' w' s' :=
  hnear.pace (hadvances.pace _)

/-- Two contexts with linked values in front of two elements as scopes. -/
def Fronts (ρ : Link) (e e' : ElementId) (C C' context context' : Context) : Prop :=
  ∃ m m' front front', context = front ++ .object (.scope m e) :: C ∧
    context' = front' ++ .object (.scope m' e') :: C' ∧ List.Forall₂ ρ.Values front front'

namespace Fronts

variable {ρ' ρ₁ : Link} {e e' : ElementId} {context context' : Context}

theorem mono (h : ρ.Fronts e e' C C' context context') (hle : ρ ≤ ρ') :
    ρ'.Fronts e e' C C' context context' := by
  obtain ⟨m, m', front, front', heq, heq', hall⟩ := h
  exact ⟨m, m', front, front', heq, heq', hall.imp fun _ _ hv => hv.mono hle⟩

theorem scopes (ρ : Link) (m m' : Nat) (e e' : ElementId) (C C' : Context) :
    ρ.Fronts e e' C C' (.object (.scope m e) :: C) (.object (.scope m' e') :: C') :=
  ⟨m, m', [], [], rfl, rfl, .nil⟩

theorem elements_append {front front' : Context} (hall : List.Forall₂ ρ.Values front front')
    (C C' : Context) : Context.elements (front ++ C) = Context.elements C ∧
      Context.elements (front' ++ C') = Context.elements C' := by
  induction hall with
  | nil => exact ⟨rfl, rfl⟩
  | cons hv _ ih =>
    exact ⟨((hv.elements_cons _ C').1).trans ih.1, ((hv.elements_cons C _).2).trans ih.2⟩

theorem elements_eq (h : ρ.Fronts e e' C C' context context') :
    Context.elements context = e :: Context.elements C ∧
      Context.elements context' = e' :: Context.elements C' := by
  obtain ⟨m, m', front, front', rfl, rfl, hall⟩ := h
  exact elements_append hall _ _

/-- Values that stand for themselves do so for every link that says no less. -/
theorem transfer (h : ρ₁.Fronts e e C C context context) (hvalues : ∀ v, ρ₁.Values v v → ρ.Values v v) :
    ρ.Fronts e e C C context context := by
  obtain ⟨m, m', front, front', rfl, heq, hall⟩ := h
  obtain ⟨rfl, -⟩ := List.append_inj' heq rfl
  exact ⟨m, m, front, front, rfl, rfl,
    List.forall₂_same.mpr fun v hv => hvalues v (List.forall₂_same.mp hall v hv)⟩

end Fronts

theorem Near.fronts {e e' : ElementId} {m m' : Nat} {context context' : Context}
    (hnear : ρ.Near D asked loose (.object (.scope m e) :: C) (.object (.scope m' e') :: C') w s)
    (h : ρ.Fronts e e' C C' context context') : ρ.Near D asked loose context context' w s := by
  obtain ⟨k, k', front, front', rfl, rfl, hall⟩ := h
  refine ⟨hnear.worlds, ?_⟩
  induction hall with
  | nil => exact (hnear.remark k k').contexts
  | cons hv _ ih => exact .value hv ih

/-- Linked items get linked records. -/
theorem Worlds.frames (hworlds : ρ.Worlds D w s) (name : String) (m m' : Nat) (e e' : ElementId)
    (C C' : Context) {items items' : List Value} (hitems : List.Forall₂ ρ.Values items items') :
    Link.steadyBond.Mimics enter (fun ρ => List.Forall₂ (ρ.Fronts e e' C C')) ρ w s
      (Build.frames name (.object (.scope m e) :: C) items)
      (Build.frames name (.object (.scope m' e') :: C') items') := by
  induction items generalizing items' ρ w s with
  | nil =>
    cases hitems
    exact .pure hworlds.stores .nil
  | cons item rest ih =>
    cases hitems with
    | @cons _ item' _ rest' hitem hrest =>
      obtain ⟨ρ₁, hextends, hstores, hrq⟩ := hworlds.stores.newRecord name hitem
      have hstep : ρ.Step ρ₁ w _ s _ := ⟨hextends, hstores,
        .of_store (w.store.newRecord_grows [(name, item)]), .of_store (s.store.newRecord_grows [(name, item')])⟩
      have hrecord : Link.steadyBond.Mimics enter (fun ρ => ρ.Values) ρ w s
          (Act.newRecord [(name, item)]) (Act.newRecord [(name, item')]) :=
        .both ⟨ρ₁, ⟨hstep, rfl, rfl⟩, .record hrq⟩
      refine hrecord.bind fun ρ₂ w₂ s₂ v v' hgoes hv => ?_
      refine (ih (hworlds.step hgoes.1) (hrest.imp fun _ _ hv => hv.mono hgoes.1.le)).bind ?_
      intro ρ₃ w₃ s₃ contexts contexts' hgoes' hcontexts
      exact .pure hgoes'.1.stores
        (.cons ⟨m, m', [v], [v'], rfl, rfl, .cons (hv.mono hgoes'.1.le) .nil⟩ hcontexts)

end

end Link

end ReactiveViews
