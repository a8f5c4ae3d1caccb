import ReactiveViews.Proofs.Live.Elements
import ReactiveViews.Proofs.Live.Glimpses

/-!
# What goes on while an element is updated

While an element is updated it is without its updater. Whatever the host program does meanwhile, also
to update that element again, does not get at its slots, since these are written only by what that
updater does, and are given up only together with it.

## What is proved

Elements last, with their tags and the scopes around them (`Host.lasts`). An effect that admits all that
leaves one element alone is kept by everything that a host program does, as soon as it is kept by what is
done to that element itself (`Shelters.of_host`); so while an element is without its updater, its slots
stay as they are (`Host.sheltering`). What is made of a node is new, and has the slots of the node, with
nothing in them yet (`Build.create_made`, `Build.createAll_made`).
-/

namespace ReactiveViews

variable {σ α β : Type}

/-! ### What lasts -/

/-- No element is lost, and each keeps its tag and the scopes around it. -/
structure Lasts (w w' : World σ) : Prop where
  /-- No element is lost. -/
  size : w.elements.size ≤ w'.elements.size
  /-- Elements keep their tags and the scopes around them. -/
  element : ∀ {e : ElementId} {x : Element}, w.elements.get? e.row = some x →
    ∃ x', w'.elements.get? e.row = some x' ∧ x'.tag = x.tag ∧ x'.context = x.context

namespace Lasts

variable {u v w : World σ}

theorem of_elements_eq (h : w.elements = v.elements) : Lasts v w :=
  ⟨h ▸ Nat.le_refl _, fun hx => ⟨_, h ▸ hx, rfl, rfl⟩⟩

theorem refl (w : World σ) : Lasts w w := of_elements_eq rfl

theorem trans (h : Lasts u v) (h' : Lasts v w) : Lasts u w where
  size := Nat.le_trans h.size h'.size
  element hx := by
    obtain ⟨y, hy, htag, hcontext⟩ := h.element hx
    obtain ⟨z, hz, htag', hcontext'⟩ := h'.element hy
    exact ⟨z, hz, htag'.trans htag, hcontext'.trans hcontext⟩

theorem updateElement (w : World σ) (e : ElementId) {f : Element → Element}
    (hf : ∀ x, (f x).tag = x.tag ∧ (f x).context = x.context) : Lasts w (w.updateElement e f) where
  size := Nat.le_of_eq (World.size_updateElement w e f).symm
  element {e' x} hx := by
    by_cases he : e' = e
    · obtain rfl := he
      exact ⟨f x, World.get?_updateElement_self hx f, hf x⟩
    · exact ⟨x, (World.get?_updateElement_of_ne w he f).trans hx, rfl, rfl⟩

theorem of_add (w : World σ) (x : Element) (held : List ElementId) :
    Lasts w { w with elements := w.elements.add x, held } where
  size := by simp
  element hy := ⟨_, (Table.get?_add_old _ _ (Table.lt_size_of_get? hy)).trans hy, rfl, rfl⟩

theorem of_change (h : Change v w) : Lasts v w := by
  cases h with
  | element x => exact of_add v x _
  | update e hf => exact updateElement v e hf
  | _ => exact of_elements_eq rfl

end Lasts

/-- An effect that admits quiet changes and all that leaves the elements alone is kept by every host
program. -/
theorem Watches.of_change {R : Effect σ}
    (haside : ∀ {b : Bool} {w w' : World σ}, w'.elements = w.elements → R b w w')
    (hchange : ∀ {b : Bool} {w w' : World σ}, Change w w' → R b w w')
    (htrans : ∀ {b : Bool} {u v w : World σ}, R true u v → R b v w → R b u w) (host : Host σ) :
    Watches R host fun _ => True where
  only call := .all _
  aside helements _ := haside helements
  trans := htrans
  touches h r _ htouches := by
    have hadmits : Admits R _ := .of_quiet hchange htrans h.calls
    cases hschedules : r.schedules with
    | false => exact hadmits.perform r hschedules
    | true =>
      cases r with
      | runBatch s => exact h.runBatch s
      | pump s n => exact h.pump s n
      | _ => first | (cases htouches; done) | cases hschedules
  update h e :=
    have hadmits : Admits R _ := .of_quiet hchange htrans h.calls
    hadmits.update e

/-- Elements last, whatever a host program does. -/
theorem Host.lasts (host : Host σ) (depth : Nat) : Overlooks (fun _ => Lasts) (host.enter depth) := by
  have hwatches : Watches (fun _ => Lasts) host fun _ => True :=
    .of_change .of_elements_eq .of_change Lasts.trans host
  exact host.enterUntil_never depth ▸ hwatches.overlooks _ depth

/-! ### What leaves an element alone -/

/-- The element is without the updater of a node: it has none, is being updated, or has got another
one. -/
def Element.Bare (x : Element) : Prop := x.updater.any Updater.isView = false

/-- The element keeps its updater, and its slots as far as `g` sees them. -/
structure Untouched (e : ElementId) (g : List Slot → β) (w w' : World σ) : Prop extends Lasts w w' where
  /-- What the element keeps. -/
  same : ∀ {x : Element}, w.elements.get? e.row = some x →
    ∃ x', w'.elements.get? e.row = some x' ∧ x'.updater = x.updater ∧ g x'.slots = g x.slots

namespace Untouched

variable {e : ElementId} {g : List Slot → β} {w w' : World σ}

theorem of_elements_eq (h : w'.elements = w.elements) : Untouched e g w w' :=
  ⟨.of_elements_eq h, fun hx => ⟨_, h ▸ hx, rfl, rfl⟩⟩

theorem updateElement (w : World σ) (e' : ElementId) {f : Element → Element}
    (hf : ∀ x, (f x).tag = x.tag ∧ (f x).context = x.context)
    (hsame : e' = e → ∀ x, (f x).updater = x.updater ∧ g (f x).slots = g x.slots) :
    Untouched e g w (w.updateElement e' f) where
  toLasts := .updateElement w e' hf
  same {x} hx := by
    by_cases he : e = e'
    · obtain rfl := he
      exact ⟨f x, World.get?_updateElement_self hx f, hsame rfl x⟩
    · exact ⟨x, (World.get?_updateElement_of_ne w he f).trans hx, rfl, rfl⟩

theorem of_add (w : World σ) (x : Element) (held : List ElementId) :
    Untouched e g w { w with elements := w.elements.add x, held } where
  toLasts := .of_add w x held
  same hy := ⟨_, (Table.get?_add_old _ _ (Table.lt_size_of_get? hy)).trans hy, rfl, rfl⟩

end Untouched

/-- The effect admits all that leaves an element alone, everything if there is no such element, can be
chained, and is kept by the calls that are entered. -/
structure Shelters (e : ElementId) (g : List Slot → β) (R : Effect σ) (enter : Enter σ) : Prop
    extends Bears R enter where
  /-- The element is left alone. -/
  spare : ∀ {b : Bool} {w w' : World σ}, Untouched e g w w' → R b w w'
  /-- There is no such element. -/
  absent : ∀ {b : Bool} {w w' : World σ}, w.elements.get? e.row = none → R b w w'

namespace Shelters

variable {e e' : ElementId} {g : List Slot → β} {R : Effect σ} {enter : Enter σ}

theorem of_calls (hspare : ∀ {b : Bool} {w w' : World σ}, Untouched e g w w' → R b w w')
    (habsent : ∀ {b : Bool} {w w' : World σ}, w.elements.get? e.row = none → R b w w')
    (htrans : ∀ {b : Bool} {u v w : World σ}, R true u v → R b v w → R b u w)
    (hcalls : ∀ call : Call, Keeps R enter (Act.enter call)) : Shelters e g R enter where
  ripple h := hspare (.of_elements_eq h.elements_eq)
  trans := htrans
  calls := hcalls
  spare := hspare
  absent := habsent

theorem overlooks (h : Shelters e g R enter) : Overlooks R enter where
  toBears := h.toBears
  aside helements _ := h.spare (.of_elements_eq helements)

theorem record (h : Shelters e g R enter) (event : Event) : Keeps R enter (Act.record event) :=
  fun _ => h.spare (.of_elements_eq rfl)

theorem updateElement (h : Shelters e g R enter) (e' : ElementId) {f : Element → Element}
    (hf : ∀ x, (f x).tag = x.tag ∧ (f x).context = x.context)
    (hsame : e' = e → ∀ x, (f x).updater = x.updater ∧ g (f x).slots = g x.slots) :
    Keeps R enter (Act.updateElement e' f) := fun w => h.spare (.updateElement w e' hf hsame)

theorem draw (h : Shelters e g R enter) (e' : ElementId) (f : Element → Element)
    (hf : ∀ x, f x = { x with component := (f x).component, busy := (f x).busy }) :
    Keeps R enter (Act.updateElement e' f) :=
  h.updateElement e' (fun x => by rw [hf x]; exact ⟨rfl, rfl⟩) fun _ x => by rw [hf x]; exact ⟨rfl, rfl⟩

/-- New elements are other elements. -/
theorem newElement (h : Shelters e g R enter) (tag : Tag) (component : Component) (context : Context)
    {f : ElementId → Act σ α} (hf : ∀ e', e' ≠ e → Keeps R enter (f e')) :
    Keeps R enter (Act.newElement tag component context >>= f) := by
  intro w
  cases hx : w.elements.get? e.row with
  | none => exact h.absent hx
  | some x =>
    have hne : (⟨w.elements.size⟩ : ElementId) ≠ e := by
      rintro rfl
      exact Nat.lt_irrefl _ (Table.lt_size_of_get? hx)
    exact h.trans (h.spare (.of_add w _ _)) (hf _ hne _)

theorem draws (h : Shelters e g R enter) : Draws (fun _ _ => True) R enter where
  toBears := h.toBears
  setAttribute _ v := h.toBears.setAttribute (h.draw _) _ v
  addListener e' := h.toBears.addListener (h.draw e')
  appendChild e' := h.toBears.appendChild (h.draw e')
    fun _ => h.updateElement e' (fun _ => ⟨rfl, rfl⟩) fun _ _ => ⟨rfl, rfl⟩
  clearChildren e' := h.toBears.clearChildren (h.draw e')
    fun _ => h.updateElement e' (fun _ => ⟨rfl, rfl⟩) fun _ _ => ⟨rfl, rfl⟩

/-- Of the slots of the element, those may be written that are not seen. -/
theorem builds (h : Shelters e g R enter) {p : Nat → Prop}
    (hg : ∀ i, p i → ∀ (slots : List Slot) (memory : Memory),
      g (slots.modify i fun slot => { slot with memory }) = g slots) :
    Builds (fun _ _ => True) (fun e' i => e' ≠ e ∨ p i) R enter where
  toDraws := h.draws
  remember {e' i} hstocked memory := by
    refine h.updateElement e' (fun _ => ⟨rfl, rfl⟩) fun he x => ⟨rfl, ?_⟩
    exact hg i (hstocked.resolve_left (not_not_intro he)) x.slots memory
  create _ _ _ := h.draws.create fun component =>
    h.newElement _ component _ fun e' he => h.draws.furnish (fun _ => trivial) <|
      h.bind (h.updateElement e' (fun _ => ⟨rfl, rfl⟩) fun heq => (he heq).elim) fun _ => h.record _

/-- Everything may be done to other elements. -/
theorem builds_others (h : Shelters e g R enter) :
    Builds (fun _ _ => True) (fun e' _ => e' ≠ e ∨ False) R enter :=
  h.builds fun _ => False.elim

/-! ### Updates and requests -/

theorem setUpdater (h : Shelters e g R enter) (he : e' ≠ e) (updater : Nat) :
    Keeps R enter (Act.setUpdater e' updater) :=
  h.bind (h.updateElement e' (fun _ => ⟨rfl, rfl⟩) fun heq => (he heq).elim) fun _ => h.record _

theorem updateSelf (h : Shelters e g R enter) (he : e' ≠ e) : Keeps R enter (Act.updateSelf e') := by
  have halone {f : Element → Element} (hf : ∀ x, (f x).tag = x.tag ∧ (f x).context = x.context) :
      Keeps R enter (Act.updateElement e' f) := h.updateElement e' hf fun heq => (he heq).elim
  refine h.bind (h.bind (h.element e') fun _ => h.bind (halone fun _ => ⟨rfl, rfl⟩) fun _ => h.pure _)
    fun taken => ?_
  cases taken with
  | none => exact h.pure _
  | some updater =>
    have hrun : Keeps R enter (Act.runUpdater e' updater) := by
      cases updater with
      | view node factory => exact h.builds_others.refresh (fun _ => .inl he) (fun _ _ => trivial) factory
      | foreign number => exact h.enterHost _
    have hput : Keeps R enter (Act.putBack e' updater) := by
      refine halone fun x => ?_
      split
      · exact ⟨rfl, rfl⟩
      · split <;> exact ⟨rfl, rfl⟩
    exact h.bind (h.record _) fun _ => h.bind hrun fun _ => h.bind hput fun _ =>
      h.bind (h.record _) fun _ => h.pure _

/-- If it is kept by what an update does to the element itself, it is by updates. -/
theorem update (h : Shelters e g R enter) (hself : Keeps R enter (Act.updateSelf e)) (e' : ElementId) :
    Keeps R enter (Act.update e') := by
  refine h.builds_others.update ?_
  by_cases he : e' = e
  · exact he ▸ hself
  · exact h.updateSelf he

/-- If it is kept by what is done to the element itself, it is by every request. -/
theorem perform (h : Shelters e g R enter) (hself : Keeps R enter (Act.updateSelf e))
    (hset : ∀ u, Keeps R enter (Act.setUpdater e u)) (r : Request) : Keeps R enter (Act.perform r) := by
  have hbuilds := h.builds_others
  cases htouches : r.touches with
  | false => exact h.overlooks.perform r htouches
  | true =>
    cases r with
    | build view context factory => exact hbuilds.build view context factory
    | newElement tag component context =>
      exact h.newElement tag component context (f := pure) fun _ _ => h.pure _
    | setAttribute e' name v => exact h.living e' (hbuilds.setAttribute trivial v)
    | addListener e' event handler => exact h.living e' (hbuilds.addListener e' event handler)
    | appendChild e' child => exact h.living e' (h.living child (hbuilds.appendChild e' child))
    | removeChild e' child =>
      exact h.living e' (h.living child (h.toBears.removeChild (h.draw e')
        (fun _ => h.updateElement e' (fun _ => ⟨rfl, rfl⟩) fun _ _ => ⟨rfl, rfl⟩) child))
    | clearChildren e' => exact h.living e' (hbuilds.clearChildren e')
    | setUpdater e' u =>
      refine h.living e' ?_
      by_cases he : e' = e
      · exact he ▸ hset u
      · exact h.setUpdater he u
    | update e' => exact h.living e' (h.update hself e')
    | runBatch s => exact h.overlooks.runBatch s
    | pump s n => exact h.overlooks.pump s n
    | _ => cases htouches

/-- The effect is kept however deep calls are nested, if it is by what is done to the element itself. -/
theorem of_host {host : Host σ} (hspare : ∀ {b : Bool} {w w' : World σ}, Untouched e g w w' → R b w w')
    (habsent : ∀ {b : Bool} {w w' : World σ}, w.elements.get? e.row = none → R b w w')
    (htrans : ∀ {b : Bool} {u v w : World σ}, R true u v → R b v w → R b u w)
    (hself : ∀ depth, Shelters e g R (host.enter depth) → Keeps R (host.enter depth) (Act.updateSelf e))
    (hset : ∀ {enter : Enter σ}, Shelters e g R enter → ∀ u, Keeps R enter (Act.setUpdater e u))
    (depth : Nat) : Shelters e g R (host.enter depth) := by
  induction depth with
  | zero => exact .of_calls hspare habsent htrans fun _ _ => hspare (.of_elements_eq rfl)
  | succ depth ih =>
    refine .of_calls hspare habsent htrans fun call => ?_
    cases call with
    | host call =>
      have hscript := ih.overlooks.runUntil (fun _ => false)
        (fun r _ => ih.perform (hself depth ih) (hset ih) r) (.all (host.answer call))
      rw [Act.runUntil_never] at hscript
      exact hscript
    | update e' => exact ih.update (hself depth ih) e'
    | inspect v => exact ih.inspect v

end Shelters

/-! ### An element without its updater -/

/-- The effect of everything that may go on while an element is without its updater: elements last,
that one stays without it, and its slots stay as they are as far as `g` sees them. -/
def Sheltering (e : ElementId) (g : List Slot → β) : Effect σ := fun _ w w' =>
  ∀ x, w.elements.get? e.row = some x → x.Bare →
    Lasts w w' ∧ ∃ x', w'.elements.get? e.row = some x' ∧ x'.Bare ∧ g x'.slots = g x.slots

section

variable {e : ElementId} {g : List Slot → β} {enter : Enter σ}

theorem Untouched.sheltering {b : Bool} {w w' : World σ} (h : Untouched e g w w') :
    Sheltering e g b w w' := by
  intro x hx hbare
  obtain ⟨x', hx', hupdater, hslots⟩ := h.same hx
  exact ⟨h.toLasts, x', hx', by rw [Element.Bare, hupdater]; exact hbare, hslots⟩

theorem Sheltering.trans {b : Bool} {u v w : World σ} (h : Sheltering e g true u v)
    (h' : Sheltering e g b v w) : Sheltering e g b u w := by
  intro x hx hbare
  obtain ⟨hlasts, y, hy, hbare', hslots⟩ := h x hx hbare
  obtain ⟨hlasts', z, hz, hbare'', hslots'⟩ := h' y hy hbare'
  exact ⟨hlasts.trans hlasts', z, hz, hbare'', hslots'.trans hslots⟩

/-- The element is changed, but not made to have the updater of a node. -/
theorem sheltering_updateElement {f : Element → Element}
    (hkeeps : ∀ x, (f x).tag = x.tag ∧ (f x).context = x.context)
    (hf : ∀ x, x.Bare → (f x).Bare ∧ g (f x).slots = g x.slots) :
    Keeps (Sheltering e g) enter (Act.updateElement e f) := fun w x hx hbare =>
  ⟨.updateElement w e hkeeps, f x, World.get?_updateElement_self hx f, hf x hbare⟩

/-- To update the element does nothing to it but to run the updater that it has got meanwhile. -/
theorem sheltering_updateSelf (h : Shelters e g (Sheltering e g) enter) :
    Keeps (Sheltering e g) enter (Act.updateSelf e) := by
  intro w x hx hbare
  have hself := World.get?_updateElement_self hx ({ · with updater := none })
  have hlasts : Lasts w (w.updateElement e ({ · with updater := none })) :=
    .updateElement w e fun _ => ⟨rfl, rfl⟩
  rw [Act.updateSelf, Act.runIn_bind_some (Act.runIn_takeUpdater hx)]
  cases hupdater : x.updater with
  | none => exact ⟨hlasts, _, hself, rfl, rfl⟩
  | some updater =>
    cases updater with
    | view node factory =>
      rw [Element.Bare, hupdater] at hbare
      cases hbare
    | foreign number =>
      have hput : Keeps (Sheltering e g) enter (Act.putBack e (.foreign number)) := by
        refine sheltering_updateElement (fun y => ?_) fun y hy => ?_
        · split <;> exact ⟨rfl, rfl⟩
        · split
          · exact ⟨rfl, rfl⟩
          · exact ⟨hy, rfl⟩
      have hrest : Keeps (Sheltering e g) enter (do
          Act.record (.updating e (Updater.foreign number).number?)
          let answer ← Act.runUpdater e (.foreign number)
          Act.putBack e (.foreign number)
          Act.record (.updated e (Updater.foreign number).number? answer.isOk)
          return answer) :=
        h.bind (h.record _) fun _ => h.bind (h.enterHost _) fun _ => h.bind hput fun _ =>
          h.bind (h.record _) fun _ => h.pure _
      obtain ⟨hlasts', x', hx', hbare', hslots⟩ := hrest _ _ hself rfl
      exact ⟨hlasts.trans hlasts', x', hx', hbare', hslots⟩

theorem sheltering_setUpdater (h : Shelters e g (Sheltering e g) enter) (u : Nat) :
    Keeps (Sheltering e g) enter (Act.setUpdater e u) := by
  refine h.bind (sheltering_updateElement (fun _ => ⟨rfl, rfl⟩) fun x hx => ⟨rfl, ?_⟩)
    fun _ => h.record _
  rw [hx]
  rfl

/-- While an element is without its updater, no host program gets at its slots. -/
theorem Host.sheltering (host : Host σ) (e : ElementId) (g : List Slot → β) (depth : Nat) :
    Shelters e g (Sheltering e g) (host.enter depth) :=
  .of_host Untouched.sheltering (fun habsent _ hx => by rw [habsent] at hx; cases hx)
    Sheltering.trans (fun _ h => sheltering_updateSelf h) (fun h => sheltering_setUpdater h) depth

end

/-! ### What is made of a node -/

namespace Build

/-- What building a node makes: an element of the node in a context that was not there before. -/
structure Made (node : Node Resolver) (context : Context) (w w' : World σ) (c : ElementId) : Prop where
  /-- It is new. -/
  fresh : w.elements.size ≤ c.row
  /-- It is there. -/
  element : ∃ x, w'.elements.get? c.row = some x ∧ x.tag = node.tag ∧ x.context = context

theorem Made.later {node : Node Resolver} {context : Context} {u v w w' : World σ} {c : ElementId}
    (h : Made node context v w c) (hu : Lasts u v) (hw : Lasts w w') : Made node context u w' c := by
  obtain ⟨x, hx, htag, hcontext⟩ := h.element
  obtain ⟨x', hx', htag', hcontext'⟩ := hw.element hx
  exact ⟨Nat.le_trans hu.size h.fresh, x', hx', htag'.trans htag, hcontext'.trans hcontext⟩

variable {enter : Enter σ} {w w' : World σ}

/-- A furnished element keeps its tag and the scopes around it, and has the updater and the slots of the
node. -/
theorem furnish_furnished (h : Admits (fun _ => Lasts) enter) {node : Node Resolver} {factory : Factory}
    {e : ElementId} {x : Element} (hx : w.elements.get? e.row = some x)
    (hrun : (furnish e node factory).run.runIn enter w = (some (.ok ()), w')) :
    ∃ x', w'.elements.get? e.row = some x' ∧ x'.tag = x.tag ∧ x'.context = x.context ∧
      x'.updater = some (.view node factory) ∧ x'.slots = node.children.map .fresh := by
  have hbefore : Keeps (fun _ => Lasts) enter (adorn e node).run := h.draws.adorn (fun _ => trivial) node
  rw [furnish_eq_adorn] at hrun
  obtain ⟨_, v, hfirst, hinstall⟩ := runIn_bindE_eq_ok hrun
  have hlasts : Lasts w v := hbefore.of_run hfirst
  obtain ⟨y, hy, htag, hcontext⟩ := hlasts.element hx
  cases runIn_lift_eq_ok hinstall
  exact ⟨_, World.get?_updateElement_self hy _, htag, hcontext, rfl, rfl⟩

/-- An element that is made of a node is new, and it has the updater and the slots of the node. -/
theorem create_made (h : Admits (fun _ => Lasts) enter) {node : Node Resolver} {context : Context}
    {factory : Factory} {c : ElementId}
    (hrun : (create node context factory).run.runIn enter w = (some (.ok c), w')) :
    Made node context w w' c ∧ ∃ x, w'.elements.get? c.row = some x ∧
      x.updater = some (.view node factory) ∧ x.slots = node.children.map .fresh := by
  obtain ⟨made, v, hmade, hrun⟩ := runIn_bindE_eq_ok hrun
  obtain ⟨e, v₁, hnew, hrun⟩ := runIn_bindE_eq_ok hrun
  obtain ⟨_, v₂, hfurnish, hrun⟩ := runIn_bindE_eq_ok hrun
  cases hrun
  have hlasts : Lasts w v := (h.component (h.make factory _)).of_run hmade
  cases runIn_lift_eq_ok hnew
  obtain ⟨x, hx, htag, hcontext, hupdater, hslots⟩ :=
    furnish_furnished h (Table.get?_add_new _ _) (runIn_releasing_eq_ok hfurnish)
  exact ⟨⟨hlasts.size, x, hx, htag, hcontext⟩, x, hx, hupdater, hslots⟩

/-- Elements that are made of a node in several contexts are new ones, and different. -/
theorem createAll_made (h : Admits (fun _ => Lasts) enter) {node : Node Resolver} {factory : Factory}
    {contexts : List Context} {cs : List ElementId}
    (hrun : (createAll node factory contexts).run.runIn enter w = (some (.ok cs), w')) :
    List.Forall₂ (fun c context => Made node context w w' c) cs contexts ∧
      (∀ c ∈ cs, w.elements.size ≤ c.row) ∧ cs.Nodup := by
  induction contexts generalizing w cs with
  | nil =>
    cases hrun
    exact ⟨.nil, List.forall_mem_nil _, List.nodup_nil⟩
  | cons context rest ih =>
    obtain ⟨c, v, hcreate, hrun⟩ := runIn_bindE_eq_ok hrun
    obtain ⟨more, v', hrest, hrun⟩ := runIn_bindE_eq_ok hrun
    cases hrun
    have hrest := runIn_releasing_eq_ok hrest
    have hfirst : Lasts w v := (h.builds.create node context factory).of_run hcreate
    have hlater : Lasts v w' := (h.builds.createAll node factory rest).of_run hrest
    obtain ⟨hmade, x, hx, -⟩ := create_made h hcreate
    obtain ⟨hall, hrows, hnodup⟩ := ih hrest
    have hnot : c ∉ more := fun hmem =>
      absurd (Table.lt_size_of_get? hx) (Nat.not_lt.mpr (hrows c hmem))
    exact ⟨.cons (hmade.later (.refl w) hlater) (hall.imp fun _ _ hc => hc.later hfirst (.refl w')),
      List.forall_mem_cons.mpr ⟨hmade.fresh, fun d hd => Nat.le_trans hfirst.size (hrows d hd)⟩,
      List.nodup_cons.mpr ⟨hnot, hnodup⟩⟩

end Build

end ReactiveViews
