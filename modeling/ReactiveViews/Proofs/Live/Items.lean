import ReactiveViews.Live.Requests
import ReactiveViews.Proofs.Live.UpToDate

/-!
# The name of an item

A node with a list directive makes an element for each item, in a context with a record in front that
holds the item under its name. Between that record and the expressions of the element stands the
element itself as a scope. It must own nothing under the name of the item, at any time.

What an element owns is its tag, under the name `tag`, and its attributes: those that its tag tells,
and those that the directives of its node set. So an item cannot be known as `tag`, nor as `id` or
`class` where the tag tells these. The program of the host can be in the way as well, since it can set
any attribute, and since a function that is an item is called for the record of the item.

## The model

`Life` follows an item: its context is made, then elements are made in it, and in between the library
does one `Deed` after the other and the host program what it likes, as long as it leaves the item alone.
`Moment` is a world in this course in which a directive of such an element is evaluated.

## What is proved

**The name means the item** (`Moment.name_means_item`): at each moment, whatever has been evaluated for
the directive so far, the value of the name is the item.
-/

namespace ReactiveViews

variable {σ α : Type}

/-! ### Items -/

/-- An item of a list. -/
structure Item where
  /-- The name by which it is known. -/
  name : String
  /-- The item. -/
  value : Value
  /-- The context in which its element is made. -/
  context : Context

/-- The record in front of the context holds the item under its name. -/
def World.Offers (w : World σ) (i : Item) : Prop :=
  ∃ r rest, i.context = .object (.record r) :: rest ∧ (w.store.fields r).get? i.name = some i.value

/-- An element in the context of an item, which has no attribute of that name, nor will get one when it
is updated. -/
structure Element.Silent (i : Item) (x : Element) : Prop where
  /-- It has been made for the item. -/
  context : x.context = i.context
  /-- Its component is not in the middle of a change. -/
  idle : x.busy = false
  /-- Its component draws nothing and has no such attribute. -/
  component : ∃ c, x.component = .headless c ∧ i.name ∉ c.attributes.keys
  /-- Its updater binds no such attribute. -/
  updater : ∀ node factory, x.updater = some (.view node factory) → i.name ∉ node.bind.map (·.1)

/-- The record holds the item, and the element, if one is told, is silent. -/
def World.Upholds (w : World σ) (i : Item) (s : Option ElementId) : Prop :=
  w.Offers i ∧ ∀ e ∈ s, ∃ x, w.elements.get? e.row = some x ∧ x.Silent i

/-- An item is upheld if it was before. -/
def Upholding (i : Item) (s : Option ElementId) : Effect σ :=
  fun _ w w' => w.Upholds i s → w'.Upholds i s

/-- Whenever something of the host program is called, it leaves an item and its elements as they are:
the record holds the item, and no element in its context gets an attribute of that name. -/
def Host.Spares (host : Host σ) (i : Item) : Prop :=
  ∀ (s : Option ElementId) (depth : Nat) (call : HostCall),
    Keeps (Upholding i s) (host.enter depth) (Act.enterHost call)

/-! ### What an element stands for -/

namespace World

variable {w : World σ} {i : Item} {s : Option ElementId}

theorem Offers.grow (h : w.Offers i) {store : Store} (hgrows : w.store.Grows store) :
    ({ w with store } : World σ).Offers i := by
  obtain ⟨r, rest, hcontext, hitem⟩ := h
  refine ⟨r, rest, hcontext, (hgrows.fields_eq r ?_).symm ▸ hitem⟩
  -- a record that is not there holds nothing
  unfold Store.fields at hitem
  cases hr : w.store.records.get? r.row with
  | none => simp [hr] at hitem
  | some fields => exact Table.lt_size_of_get? hr

theorem store_updateElement (w : World σ) (e : ElementId) (f : Element → Element) :
    (w.updateElement e f).store = w.store := by
  unfold updateElement
  split <;> rfl

theorem Upholds.updateElement (h : w.Upholds i s) {e : ElementId} {f : Element → Element}
    (hf : e ∈ s → ∀ x, x.Silent i → (f x).Silent i) : (w.updateElement e f).Upholds i s := by
  obtain ⟨hoffers, hsilent⟩ := h
  refine ⟨?_, fun e' he' => ?_⟩
  · obtain ⟨r, rest, hcontext, hitem⟩ := hoffers
    exact ⟨r, rest, hcontext, by rwa [store_updateElement]⟩
  · obtain ⟨x, hx, hsilent⟩ := hsilent e' he'
    by_cases he : e' = e
    · obtain rfl := he
      exact ⟨f x, get?_updateElement_self hx f, hf he' x hsilent⟩
    · exact ⟨x, (get?_updateElement_of_ne w he f).trans hx, hsilent⟩

theorem Upholds.newElement (h : w.Upholds i s) (x : Element) (held : List ElementId) :
    ({ w with elements := w.elements.add x, held } : World σ).Upholds i s := by
  refine ⟨h.1, fun e he => ?_⟩
  obtain ⟨y, hy, hsilent⟩ := h.2 e he
  exact ⟨y, (Table.get?_add_old _ _ (Table.lt_size_of_get? hy)).trans hy, hsilent⟩

end World

theorem Ripple.upholding {i : Item} {s : Option ElementId} {b : Bool} {w w' : World σ}
    (h : Ripple w w') : Upholding i s b w w' := by
  intro hw
  cases h with
  | store hgrows => exact ⟨hw.1.grow hgrows, hw.2⟩
  | _ => exact hw

/-! ### Changes of elements -/

namespace Upholding

variable {i : Item} {s : Option ElementId} {enter : Enter σ}

theorem record (event : Event) : Keeps (Upholding i s) enter (Act.record event) := fun _ hw => hw

theorem updateElement {e : ElementId} {f : Element → Element}
    (hf : e ∈ s → ∀ x, x.Silent i → (f x).Silent i) :
    Keeps (Upholding i s) enter (Act.updateElement e f) := fun _ hw => hw.updateElement hf

/-- Any change of an element that is none of the item. -/
theorem updateElement_of_not_mem {e : ElementId} (he : e ∉ s) (f : Element → Element) :
    Keeps (Upholding i s) enter (Act.updateElement e f) := updateElement fun h => (he h).elim

theorem change (h : Bears (Upholding i s) enter) {e : ElementId}
    {own : Headless → Except ComponentError Headless}
    (hown : e ∈ s → ∀ c d, own c = .ok d → i.name ∉ c.attributes.keys → i.name ∉ d.attributes.keys)
    {foreign : Nat → Act σ (Except ComponentError Unit)}
    (hforeign : ∀ c, Keeps (Upholding i s) enter (foreign c)) :
    Keeps (Upholding i s) enter (Act.change e own foreign) := by
  by_cases he : e ∈ s
  · -- the component of the element draws nothing, so the host program is not asked
    intro w hw
    obtain ⟨x, hx, hsilent⟩ := hw.2 e he
    obtain ⟨c, hc, hname⟩ := hsilent.component
    rw [Act.change, Act.runIn_bind_some (Act.runIn_component hx hsilent.idle), hc]
    dsimp only
    cases hd : own c with
    | error error => exact hw
    | ok d =>
      exact hw.updateElement fun _ y hy =>
        ⟨hy.context, hy.idle, ⟨d, rfl, hown he c d hd hname⟩, hy.updater⟩
  · refine h.bind (h.componentOf e) fun component => ?_
    cases component with
    | headless c =>
      dsimp only
      split
      · exact h.bind (updateElement_of_not_mem he _) fun _ => h.pure _
      · exact h.pure _
    | foreign c =>
      exact h.bind (updateElement_of_not_mem he _) fun _ => h.bind (hforeign c) fun _ =>
        h.bind (updateElement_of_not_mem he _) fun _ => h.pure _

theorem changeChildren (h : Bears (Upholding i s) enter) (e : ElementId)
    (answer : Except ComponentError Unit) (f : List ElementId → List ElementId) :
    Keeps (Upholding i s) enter (Act.changeChildren e answer f) := by
  unfold Act.changeChildren
  split
  · exact h.bind (updateElement fun _ x hx => ⟨hx.context, hx.idle, hx.component, hx.updater⟩) fun _ =>
      h.pure _
  · exact h.pure _

/-- An element is made, after those there are. -/
theorem newElement (tag : Tag) (component : Component) (context : Context) {f : ElementId → Act σ α}
    (hf : ∀ e, e ∉ s → Keeps (Upholding i s) enter (f e)) :
    Keeps (Upholding i s) enter (Act.newElement tag component context >>= f) := by
  intro w hw
  have hnew : (⟨w.elements.size⟩ : ElementId) ∉ s := by
    intro he
    obtain ⟨x, hx, -⟩ := hw.2 _ he
    exact Nat.lt_irrefl _ (Table.lt_size_of_get? hx)
  exact hf ⟨w.elements.size⟩ hnew _ (hw.newElement _ _)

/-- An updater is installed that does not bind the name of the item. -/
theorem install (h : Bears (Upholding i s) enter) {e : ElementId} {node : Node Resolver}
    (hname : e ∈ s → i.name ∉ node.bind.map (·.1)) (factory : Factory) (slots : List Slot) :
    Keeps (Upholding i s) enter (Build.install e (.view node factory) slots) := by
  refine h.bind (updateElement fun he x hx => ⟨hx.context, hx.idle, hx.component, ?_⟩) fun _ => record _
  rintro node' factory' ⟨⟩
  exact hname he

/-- The library upholds an item, as long as its name is not the one of an attribute that it sets. -/
theorem draws (h : Bears (Upholding i s) enter) :
    Draws (fun e name => e ∈ s → name ≠ i.name) (Upholding i s) enter where
  toBears := h
  setAttribute {e name} hallowed v := by
    refine h.bind (h.componentOf e) fun component => h.bind (h.announce _ name v) fun _ =>
      change h (fun he c d hd hname => ?_) fun _ => h.enterHost _
    cases hd
    rw [Headless.setAttribute, Fields.keys_put]
    split
    · exact hname
    · rw [List.mem_append, List.mem_singleton]
      exact not_or.mpr ⟨hname, (hallowed he).symm⟩
  addListener e event handler := by
    refine change h (fun _ c d hd hname => ?_) fun _ => h.enterHost _
    cases hd
    exact hname
  appendChild e child := by
    refine h.bind (change h (fun _ c d hd hname => ?_) fun _ => h.enterHost _) fun answer =>
      changeChildren h e answer _
    cases hd
    exact hname
  clearChildren e := by
    refine h.bind (change h (fun _ c d hd hname => ?_) fun _ => h.enterHost _) fun answer =>
      changeChildren h e answer _
    cases hd
    exact hname

theorem builds (h : Bears (Upholding i s) enter) :
    Builds (fun e name => e ∈ s → name ≠ i.name) (fun _ _ => True) (Upholding i s) enter where
  toDraws := draws h
  remember _ _ := updateElement fun _ _ hx => ⟨hx.context, hx.idle, hx.component, hx.updater⟩
  create _ _ _ := (draws h).create fun component => newElement _ component _ fun _ he =>
    (draws h).furnish (fun _ hmem => (he hmem).elim) (install h (fun hmem => (he hmem).elim) _ _)

/-! ### Updates -/

/-- Attributes that a silent element may be given. -/
theorem allowed_of_not_mem {e : ElementId} {attributes : List (String × Resolver)}
    (hname : e ∈ s → i.name ∉ attributes.map (·.1)) :
    ∀ entry ∈ attributes, e ∈ s → entry.1 ≠ i.name := fun _ hentry he heq =>
  hname he (List.mem_map.mpr ⟨_, hentry, heq⟩)

theorem putBack {e : ElementId} {updater : Updater}
    (hupdater : e ∈ s → ∀ node factory, updater = .view node factory → i.name ∉ node.bind.map (·.1)) :
    Keeps (Upholding i s) enter (Act.putBack e updater) := by
  refine updateElement fun he x hx => ?_
  split
  · refine ⟨hx.context, hx.idle, hx.component, fun node factory h => ?_⟩
    exact hupdater he node factory (Option.some.inj h)
  · split
    · exact ⟨hx.context, hx.idle, hx.component, hx.updater⟩
    · exact hx

theorem runUpdater (h : Bears (Upholding i s) enter) {e : ElementId} {updater : Updater}
    (hupdater : e ∈ s → ∀ node factory, updater = .view node factory → i.name ∉ node.bind.map (·.1)) :
    Keeps (Upholding i s) enter (Act.runUpdater e updater) := by
  cases updater with
  | view node factory =>
    exact (builds h).refresh (fun _ => trivial)
      (allowed_of_not_mem fun he => hupdater he node factory rfl) factory
  | foreign u => exact h.enterHost _

/-- The updater that an element of the item has binds no attribute of that name. -/
theorem takeUpdater (h : Bears (Upholding i s) enter) (e : ElementId) {f : Option Updater → Act σ α}
    (hf : ∀ updater, (e ∈ s → ∀ node factory, updater = some (.view node factory) →
      i.name ∉ node.bind.map (·.1)) → Keeps (Upholding i s) enter (f updater)) :
    Keeps (Upholding i s) enter (Act.takeUpdater e >>= f) := by
  intro w hw
  cases hx : w.elements.get? e.row with
  | none =>
    have hrun : (Act.element e).runIn enter w = (none, w) := by
      show (Act.ofOption (w.elements.get? e.row)).runIn enter w = _
      rw [hx]
      rfl
    rwa [Act.takeUpdater, bind_assoc, Act.runIn_bind_none hrun]
  | some x =>
    have hrun : (Act.takeUpdater e >>= f).runIn enter w =
        (Act.updateElement e ({ · with updater := none }) >>= fun _ => f x.updater).runIn enter w := by
      rw [Act.takeUpdater, bind_assoc, Act.runIn_bind_some (Act.runIn_element hx)]
      rfl
    have htake : Keeps (Upholding i s) enter (Act.updateElement e ({ · with updater := none })) :=
      updateElement fun _ y hy => ⟨hy.context, hy.idle, hy.component, fun _ _ heq => by cases heq⟩
    have hrest : Keeps (Upholding i s) enter (f x.updater) := by
      refine hf _ fun he node factory heq => ?_
      obtain ⟨y, hy, hsilent⟩ := hw.2 e he
      obtain rfl : x = y := Option.some.inj (hx.symm.trans hy)
      exact hsilent.updater node factory heq
    rw [hrun]
    exact h.bind htake (fun _ => hrest) w hw

theorem updateSelf (h : Bears (Upholding i s) enter) (e : ElementId) :
    Keeps (Upholding i s) enter (Act.updateSelf e) := by
  refine takeUpdater h e fun updater hupdater => ?_
  cases updater with
  | none => exact h.pure _
  | some updater =>
    have hupdater := fun he node factory heq => hupdater he node factory (congrArg some heq)
    exact h.bind (record _) fun _ => h.bind (runUpdater h hupdater) fun _ =>
      h.bind (putBack hupdater) fun _ => h.bind (record _) fun _ => h.pure _

theorem update (h : Bears (Upholding i s) enter) (e : ElementId) :
    Keeps (Upholding i s) enter (Act.update e) := (builds h).update (updateSelf h e)

end Upholding

/-- An item is upheld however deep calls are nested. -/
theorem Host.Spares.bears {host : Host σ} {i : Item} (h : host.Spares i) (s : Option ElementId)
    (depth : Nat) : Bears (Upholding i s) (host.enter depth) := by
  refine ⟨Ripple.upholding, fun huv hvw hu => hvw (huv hu), ?_⟩
  induction depth with
  | zero => exact fun _ _ hw => hw
  | succ depth ih =>
    have hbears : Bears (Upholding i s) (host.enter depth) :=
      ⟨Ripple.upholding, fun huv hvw hu => hvw (huv hu), ih⟩
    intro call
    cases call with
    | host call => exact h s (depth + 1) call
    | update e => exact Upholding.update hbears e
    | inspect v => exact hbears.inspect v

/-! ### Elements for an item -/

/-- The names under which an element of a node owns something as a scope. -/
def Node.owned (node : Node Resolver) : List String :=
  "tag" :: node.tag.attributes.map (·.1) ++ (node.once ++ node.bind).map (·.1)

namespace Build

/-- What a new element of a node gets before the attributes that are set once. -/
def introduce (e : ElementId) (node : Node Resolver) : Build σ Unit := do
  describe e "id" node.tag.id
  describe e "class" node.tag.classAttribute
  listen e node.on

/-- What comes before the attributes that are set once, and the scopes for these. -/
def outset (e : ElementId) (node : Node Resolver) : Build σ Context := do
  introduce e node
  act (Act.contextOf e)

theorem furnish_eq (e : ElementId) (node : Node Resolver) (factory : Factory) :
    (furnish e node factory : Build σ Unit) = (do
      let scope ← outset e node
      assign e scope node.once
      act (install e (.view node factory) (node.children.map .fresh))) := by
  simp only [furnish, outset, introduce, bind_assoc]

end Build

section

variable {i : Item} {e : ElementId} {enter : Enter σ} {node : Node Resolver}

theorem Upholding.introduce (h : Bears (Upholding i (some e)) enter) (hname : i.name ∉ node.owned) :
    Keeps (Upholding i (some e)) enter (Build.introduce e node).run := by
  have hid : node.tag.id.isSome → e ∈ some e → "id" ≠ i.name := by
    rintro hid - heq
    obtain ⟨id, hsome⟩ := Option.isSome_iff_exists.mp hid
    exact hname (by simp [Node.owned, Tag.attributes, hsome, ← heq])
  have hclass : node.tag.classAttribute.isSome → e ∈ some e → "class" ≠ i.name := by
    rintro hclass - heq
    obtain ⟨classes, hsome⟩ := Option.isSome_iff_exists.mp hclass
    exact hname (by simp [Node.owned, Tag.attributes, hsome, ← heq])
  exact h.bindE ((builds h).describe hid) fun _ => h.bindE ((builds h).describe hclass) fun _ =>
    (builds h).listen e _

theorem Upholding.outset (h : Bears (Upholding i (some e)) enter) (hname : i.name ∉ node.owned) :
    Keeps (Upholding i (some e)) enter (Build.outset e node).run :=
  h.bindE (introduce h hname) fun _ => h.liftE (h.contextOf e)

theorem Node.not_mem_once (hname : i.name ∉ node.owned) : i.name ∉ node.once.map (·.1) :=
  fun hmem => hname (by simp only [owned, List.map_append, List.mem_append]; exact .inr (.inl hmem))

theorem Node.not_mem_bind (hname : i.name ∉ node.owned) : i.name ∉ node.bind.map (·.1) :=
  fun hmem => hname (by simp only [owned, List.map_append, List.mem_append]; exact .inr (.inr hmem))

theorem Upholding.assign (h : Bears (Upholding i (some e)) enter) {context : Context}
    {attributes : List (String × Resolver)} (hname : i.name ∉ attributes.map (·.1)) :
    Keeps (Upholding i (some e)) enter (Build.assign e context attributes).run :=
  (builds h).assign context (allowed_of_not_mem fun _ => hname)

theorem Upholding.furnish (h : Bears (Upholding i (some e)) enter) (hname : i.name ∉ node.owned)
    (factory : Factory) :
    Keeps (Upholding i (some e)) enter (Build.furnish e node factory).run := by
  rw [Build.furnish_eq]
  exact h.bindE (outset h hname) fun scope => h.bindE (assign h (node.not_mem_once hname)) fun _ =>
    h.liftE (install h (fun _ => node.not_mem_bind hname) _ _)

/-- A new element in the context of an item is silent. -/
theorem World.Offers.newElement {w w' : World σ} (hw : w.Offers i)
    (hrun : (Act.newElement node.tag (.headless (.new node.tag.tag)) i.context).runIn enter w =
      (some e, w')) : w'.Upholds i (some e) := by
  cases hrun
  let x : Element := ⟨node.tag, .headless (.new node.tag.tag), false, i.context, [], none, []⟩
  have hsilent : x.Silent i := ⟨rfl, rfl, ⟨_, rfl, List.not_mem_nil⟩, fun _ _ heq => by cases heq⟩
  refine ⟨hw, fun e' he' => ⟨x, ?_, hsilent⟩⟩
  cases he'
  exact Table.get?_add_new _ _

/-- The element that a node makes for an item is silent. -/
theorem World.Offers.create (h : ∀ e, Bears (Upholding i (some e)) enter)
    (hname : i.name ∉ node.owned) {w w' : World σ} (hw : w.Offers i)
    (hrun : (Build.create node i.context .headless).run.runIn enter w = (some (.ok e), w')) :
    w'.Upholds i (some e) := by
  unfold Build.create at hrun
  have hmake : (Build.component (Act.make .headless node.tag.tag)).run.runIn enter w =
      (some (.ok (.headless (.new node.tag.tag))), w) := rfl
  rw [Build.runIn_bindE_ok hmake] at hrun
  obtain ⟨e', w₁, hnew, hrun⟩ := Build.runIn_bindE_eq_ok hrun
  obtain ⟨_, w₂, hfurnish, hrun⟩ := Build.runIn_bindE_eq_ok hrun
  cases hrun
  have hnew : (Act.newElement node.tag (.headless (.new node.tag.tag)) i.context).runIn enter w =
      (some e, w₁) := by
    cases hnew
    rfl
  have hkeeps := (h e).releasing [e] (Upholding.furnish (h e) hname .headless) w₁ (hw.newElement hnew)
  rwa [hfurnish] at hkeeps

end

/-! ### The course of an item -/

/-- What the library does, one thing after the other, while it builds and updates. -/
inductive Deed (i : Item) (s : Option ElementId) : {α : Type} → Act σ α → Prop where
  /-- Elements are held. -/
  | hold (es : List ElementId) : Deed i s (Act.hold es)
  /-- Elements are let go. -/
  | release (es : List ElementId) : Deed i s (Act.release es)
  /-- Something is noted. -/
  | record {event : Event} : event.isQuiet = true → Deed i s (Act.record event)
  /-- The scopes for an element are taken. -/
  | contextOf (e : ElementId) : Deed i s (Act.contextOf e)
  /-- A directive is evaluated: a list, a condition or an attribute. -/
  | resolve (context : Context) (resolver : Resolver) : Deed i s (Eval.resolve context resolver).run
  /-- The contexts for the items of a list are made. -/
  | frames (name : String) (context : Context) (items : List Value) :
    Deed i s (Build.frames name context items)
  /-- An element is made. -/
  | create (node : Node Resolver) (context : Context) (factory : Factory) :
    Deed i s (Build.create node context factory).run
  /-- The memory of a slot is written. -/
  | remember (e : ElementId) (k : Nat) (memory : Memory) : Deed i s (Build.remember e k memory)
  /-- A slot is evaluated. -/
  | evaluate (e : ElementId) (k : Nat) (slot : Slot) (context : Context) (factory : Factory) :
    Deed i s (Build.evaluate e k slot context factory).run
  /-- The children of an element are taken away. -/
  | clearChildren (e : ElementId) : Deed i s (Act.clearChildren e)
  /-- Children are appended. -/
  | append (e : ElementId) (children : List ElementId) : Deed i s (Build.append e children).run
  /-- Attributes are set, none of the name of the item if the element is the one of the item. -/
  | assign {e : ElementId} (context : Context) {attributes : List (String × Resolver)} :
    (e ∈ s → i.name ∉ attributes.map (·.1)) → Deed i s (Build.assign e context attributes).run
  /-- The updater of an element runs. -/
  | updateSelf (e : ElementId) : Deed i s (Act.updateSelf e)
  /-- The updater of another element is taken out. -/
  | takeUpdater {e : ElementId} : e ∉ s → Deed i s (Act.takeUpdater e)
  /-- The updater of another element is put back. -/
  | putBack {e : ElementId} (updater : Updater) : e ∉ s → Deed i s (Act.putBack e updater)
  /-- An element and all below it are updated. -/
  | update (e : ElementId) : Deed i s (Act.update e)
  /-- A view is built. -/
  | build (view : View Resolver) (context : Context) (factory : Factory) :
    Deed i s (Build.build view context factory).run

theorem Deed.keeps {i : Item} {s : Option ElementId} {enter : Enter σ}
    (h : Bears (Upholding i s) enter) {act : Act σ α} (hact : Deed i s act) :
    Keeps (Upholding i s) enter act := by
  have hbuilds := Upholding.builds h
  cases hact with
  | hold es => exact h.hold es
  | release es => exact h.release es
  | record hquiet => exact Upholding.record _
  | contextOf e => exact h.contextOf e
  | resolve context resolver => exact h.resolve context resolver
  | frames name context items => exact h.frames name context items
  | create node context factory => exact hbuilds.create node context factory
  | remember e k memory => exact hbuilds.remember trivial memory
  | evaluate e k slot context factory => exact hbuilds.evaluate trivial slot context factory
  | clearChildren e => exact hbuilds.clearChildren e
  | append e children => exact hbuilds.append e children
  | assign context hname => exact hbuilds.assign context (Upholding.allowed_of_not_mem hname)
  | updateSelf e => exact Upholding.updateSelf h e
  | takeUpdater he =>
    exact h.bind (h.element _) fun _ =>
      h.bind (Upholding.updateElement_of_not_mem he _) fun _ => h.pure _
  | putBack updater he => exact Upholding.putBack fun hmem => (he hmem).elim
  | update e => exact Upholding.update h e
  | build view context factory => exact hbuilds.build view context factory

/-- The course of an item of a node with a list directive: a context is made for it, and elements in
this context. -/
inductive Life (host : Host σ) (node : Node Resolver) (i : Item) :
    Option ElementId → World σ → Prop where
  /-- The contexts for the items of a list are made. -/
  | framed {resolver : Resolver} {depth : Nat} {context : Context} {items : List Value}
    {contexts : List Context} {w w' : World σ} : node.repetition = some (i.name, resolver) →
    (Build.frames i.name context items).runIn (host.enter depth) w = (some contexts, w') →
    (i.context, i.value) ∈ contexts.zip items → Life host node i none w'
  /-- An element is made for the item. -/
  | created {depth : Nat} {e : ElementId} {w w' : World σ} : Life host node i none w →
    (Build.create node i.context .headless).run.runIn (host.enter depth) w = (some (.ok e), w') →
    Life host node i (some e) w'
  /-- The library does something. -/
  | deed {α : Type} {s : Option ElementId} {w : World σ} (depth : Nat) {act : Act σ α} :
    Life host node i s w →
    Deed i s act → Life host node i s (act.runIn (host.enter depth) w).2
  /-- The host program does something that leaves the item alone. -/
  | change {s : Option ElementId} {w w' : World σ} : Life host node i s w →
    (w.Upholds i s → w'.Upholds i s) → Life host node i s w'

/-- The worlds in which the directives of some attributes are evaluated, one after the other. -/
inductive Assigning (enter : Enter σ) (e : ElementId) (scope : Context) :
    List (String × Resolver) → World σ → World σ → Prop where
  /-- It is the turn of the first. -/
  | first (entry : String × Resolver) (rest : List (String × Resolver)) (w : World σ) :
    Assigning enter e scope (entry :: rest) w w
  /-- The first has been evaluated, and its attribute has been set. -/
  | rest {entry : String × Resolver} {rest : List (String × Resolver)} {u v w : World σ} :
    (Build.assign e scope [entry]).run.runIn enter u = (some (.ok ()), v) →
    Assigning enter e scope rest v w → Assigning enter e scope (entry :: rest) u w

/-- The worlds in which the directives for the attributes of an element of an item are evaluated, with
the scopes in which this is done. -/
inductive Moment (host : Host σ) (node : Node Resolver) (i : Item) (depth : Nat) (e : ElementId)
    (scope : Context) : World σ → Prop where
  /-- When the element is made. -/
  | once {u v w w' : World σ} : Life host node i none u →
    (Act.newElement node.tag (.headless (.new node.tag.tag)) i.context).runIn (host.enter depth) u =
      (some e, v) →
    (Build.outset e node).run.runIn (host.enter depth) v = (some (.ok scope), w) →
    Assigning (host.enter depth) e scope node.once w w' → Moment host node i depth e scope w'
  /-- When the element is updated. -/
  | bind {v w w' : World σ} : Life host node i (some e) v →
    (Build.refill e .headless).run.runIn (host.enter depth) v = (some (.ok scope), w) →
    Assigning (host.enter depth) e scope node.bind w w' → Moment host node i depth e scope w'

section

variable {host : Host σ} {node : Node Resolver} {i : Item}

theorem Life.upholds {s : Option ElementId} {w : World σ} (hname : i.name ∉ node.owned)
    (hspares : host.Spares i) (h : Life host node i s w) : w.Upholds i s := by
  induction h with
  | @framed resolver depth context items contexts w w' _ hrun hmem =>
    obtain ⟨contexts', w'', hrun', -, hall⟩ :=
      runIn_frames (host.enter depth) i.name context items w
    cases hrun.symm.trans hrun'
    obtain ⟨r, hcontext, -, -, hfields⟩ := (List.forall₂_iff_zip.mp hall).2 hmem
    exact ⟨⟨r, context, hcontext, by rw [hfields, Fields.get?, if_pos rfl]⟩, nofun⟩
  | @created depth e w w' _ hrun ih =>
    exact ih.1.create (fun e => hspares.bears (some e) depth) hname hrun
  | @deed _ s w depth act _ hact ih => exact hact.keeps (hspares.bears s depth) w ih
  | change _ hchange ih => exact hchange ih

theorem Assigning.upholds {enter : Enter σ} {e : ElementId} {scope : Context}
    {attributes : List (String × Resolver)} {w w' : World σ}
    (henter : Bears (Upholding i (some e)) enter) (hname : i.name ∉ attributes.map (·.1))
    (h : Assigning enter e scope attributes w w') (hw : w.Upholds i (some e)) :
    w'.Upholds i (some e) := by
  induction h with
  | first => exact hw
  | @rest entry rest u v w hrun _ ih =>
    rw [List.map_cons, List.mem_cons, not_or] at hname
    have hkeeps : Keeps (Upholding i (some e)) enter (Build.assign e scope [entry]).run :=
      Upholding.assign henter (by simpa using hname.1)
    have hkeeps := hkeeps u hw
    rw [hrun] at hkeeps
    exact ih hname.2 hkeeps

/-- The scopes for an element of an item. -/
theorem World.Upholds.contextOf {enter : Enter σ} {e : ElementId} {w w' : World σ}
    (hw : w.Upholds i (some e)) {scope : Context}
    (hrun : (Act.contextOf e).runIn enter w = (some scope, w')) :
    ∃ m, scope = .object (.scope m e) :: i.context := by
  obtain ⟨x, hx, hsilent⟩ := hw.2 e rfl
  rw [Act.contextOf, Act.runIn_bind_some (Act.runIn_element hx)] at hrun
  cases hrun
  exact ⟨w.marks, by rw [hsilent.context]⟩

/-- An update comes to its bound attributes with the scopes of the element. -/
theorem World.Upholds.refill {enter : Enter σ} {e : ElementId} {w w' : World σ}
    (henter : Bears (Upholding i (some e)) enter) (hw : w.Upholds i (some e)) {scope : Context}
    {factory : Factory}
    (hrun : (Build.refill e factory).run.runIn enter w = (some (.ok scope), w')) :
    (∃ m, scope = .object (.scope m e) :: i.context) ∧ w'.Upholds i (some e) := by
  have hrefill : Keeps (Upholding i (some e)) enter (Build.refill e factory).run :=
    (Upholding.builds henter).refill (fun _ => trivial) factory
  have hw' := hrefill w hw
  rw [hrun] at hw'
  obtain ⟨_, w₁, hscope, hrun⟩ := Build.runIn_bindE_eq_ok hrun
  obtain ⟨_, w₂, -, hrun⟩ := Build.runIn_bindE_eq_ok hrun
  cases hrun
  exact ⟨hw.contextOf (Build.runIn_lift_eq_ok hscope), hw'⟩

/-- A new element comes to the attributes that are set once with its scopes. -/
theorem World.Upholds.outset {enter : Enter σ} {e : ElementId} {w w' : World σ}
    (henter : Bears (Upholding i (some e)) enter) (hname : i.name ∉ node.owned)
    (hw : w.Upholds i (some e)) {scope : Context}
    (hrun : (Build.outset e node).run.runIn enter w = (some (.ok scope), w')) :
    (∃ m, scope = .object (.scope m e) :: i.context) ∧ w'.Upholds i (some e) := by
  obtain ⟨_, w₁, hintroduce, hrun⟩ := Build.runIn_bindE_eq_ok hrun
  have hscope := Build.runIn_lift_eq_ok hrun
  have hw₁ := Upholding.introduce henter hname w hw
  rw [hintroduce] at hw₁
  have hw₂ := henter.contextOf e w₁ hw₁
  rw [hscope] at hw₂
  exact ⟨World.Upholds.contextOf hw₁ hscope, hw₂⟩

/-- In its context the name of the item means the item, whatever the element is. -/
theorem World.Upholds.chain {enter : Enter σ} {e : ElementId} {w : World σ}
    (hw : w.Upholds i (some e)) (htag : i.name ≠ "tag") (hvalue : i.value ≠ .undefined) (m : Nat)
    (expr : String) :
    (Eval.chain (.object (.scope m e) :: i.context) ⟨[.lookup i.name], expr⟩).run.runIn enter w =
      (some (.ok i.value), w) := by
  obtain ⟨⟨r, rest, hcontext, hitem⟩, hsilent⟩ := hw
  obtain ⟨x, hx, hsilent⟩ := hsilent e rfl
  obtain ⟨c, hc, hname⟩ := hsilent.component
  have hhides : w.Hides [i.name] e :=
    ⟨x, c, hx, hc, hsilent.idle, List.forall_mem_singleton.mpr ⟨htag, hname⟩⟩
  obtain ⟨owned, howned, hown⟩ := Act.runIn_getOwn_scope enter hhides m (List.mem_singleton_self _)
  have hframe : (Act.getOwn (.object (.record r)) i.name).runIn enter w =
      (some (some i.value), w) := by
    show (some ((w.store.fields r).get? i.name), w) = _
    rw [hitem]
  have hfound : (Act.lookup i.name i.context).runIn enter w =
      (some (some (.object (.record r), i.value)), w) := by
    rw [hcontext, Act.lookup, Act.runIn_bind_some hframe]
    cases hv : i.value with
    | undefined => exact (hvalue hv).elim
    | _ => rfl
  have hlookup : (Act.lookup i.name (.object (.scope m e) :: i.context)).runIn enter w =
      (some (some (.object (.record r), i.value)), w) := by
    rw [Act.lookup, Act.runIn_bind_some hown]
    rcases howned with rfl | rfl
    · exact hfound
    · exact hfound
  have hstep : (Eval.step (.object (.scope m e) :: i.context) expr .start (.lookup i.name)).run.runIn
      enter w = (some (.ok ⟨.object (.record r), i.value⟩), w) := by
    rw [Eval.step, Eval.act, ExceptT.run_bind_lift, Act.runIn_bind_some hlookup]
    rfl
  rw [Eval.chain, Eval.steps, bind_assoc, Build.runIn_bindE_ok hstep]
  rfl

/-- **The name means the item.** Whenever a directive for an attribute of an element of an item is
evaluated, and whatever has been evaluated for it so far, the value of the name is the item. -/
theorem Moment.name_means_item (hname : i.name ∉ node.owned) (hvalue : i.value ≠ .undefined)
    (hspares : host.Spares i) {depth : Nat} {e : ElementId} {scope : Context} {w w' : World σ}
    (h : Moment host node i depth e scope w) (expr : String) (before : List (List Step))
    (hbefore : ((Eval.all scope expr before).run.runIn (host.enter depth) w).2 = w') :
    (Eval.chain scope ⟨[.lookup i.name], expr⟩).run.runIn (host.enter depth) w' =
      (some (.ok i.value), w') := by
  have henter : ∀ e, Bears (Upholding i (some e)) (host.enter depth) := fun e =>
    hspares.bears (some e) depth
  obtain ⟨⟨m, rfl⟩, hw⟩ : (∃ m, scope = .object (.scope m e) :: i.context) ∧
      w.Upholds i (some e) := by
    cases h with
    | once hlife hnew houtset hassigning =>
      have hw := (hlife.upholds hname hspares).1.newElement hnew
      obtain ⟨hscope, hw⟩ := hw.outset (henter e) hname houtset
      exact ⟨hscope, hassigning.upholds (henter e) (node.not_mem_once hname) hw⟩
    | bind hlife hrefill hassigning =>
      obtain ⟨hscope, hw⟩ := (hlife.upholds hname hspares).refill (henter e) hrefill
      exact ⟨hscope, hassigning.upholds (henter e) (node.not_mem_bind hname) hw⟩
  have hw' : w'.Upholds i (some e) := by
    rw [← hbefore]
    exact (henter e).all _ expr before w hw
  exact hw'.chain (fun htag => hname (by simp [Node.owned, htag])) hvalue m expr

end

/-! ### A row of a list -/

/-- A row that tells its item when it is made and when it is updated. -/
def row : Node Resolver :=
  ⟨⟨"li", none, ["row"], none⟩, "li", [("first", .text [.chain ⟨[.lookup "row"], "row"⟩])],
    [("now", .text [.chain ⟨[.lookup "row"], "row"⟩])], [],
    some ("row", .text [.chain ⟨[.lookup "rows"], "rows"⟩]), none, []⟩

/-- The item `x` of a list that consists of it. -/
def onlyRow : Item := ⟨"row", .str "x", .object (.record ⟨0⟩) :: story⟩

/-- The context for it has been made. -/
def framedRow : World String :=
  ((Build.frames "row" story [.str "x"]).runIn (storyteller.enter 1) (.empty .off "ab")).2

/-- Its element has been made. -/
def madeRow : World String :=
  ((Build.create row onlyRow.context .headless).run.runIn (storyteller.enter 1) framedRow).2

theorem storyteller_spares (i : Item) : storyteller.Spares i := by
  intro s depth call w hw
  cases depth with
  | zero => exact hw
  | succ depth => cases call <;> exact hw

/-- After a first update, the row comes to its bound attribute in another one. -/
theorem Moment.name_means_item_row :
    ∃ scope w, Moment storyteller row onlyRow 1 ⟨0⟩ scope w ∧
      (Eval.chain scope ⟨[.lookup "row"], "row"⟩).run.runIn (storyteller.enter 1) w =
        (some (.ok (.str "x")), w) := by
  have hframes : (Build.frames "row" story [.str "x"]).runIn (storyteller.enter 1)
      (.empty .off "ab") = (some [onlyRow.context], framedRow) := rfl
  have hcreate : (Build.create row onlyRow.context .headless).run.runIn (storyteller.enter 1)
      framedRow = (some (.ok ⟨0⟩), madeRow) := rfl
  have hlife := ((Life.framed rfl hframes (.head _)).created hcreate).deed 1 (.update ⟨0⟩)
  have hmoment : Moment storyteller row onlyRow 1 ⟨0⟩ _ _ := .bind hlife rfl (.first _ _ _)
  exact ⟨_, _, hmoment, hmoment.name_means_item (by decide) (fun h => by cases h)
    (storyteller_spares _) "row" [] rfl⟩

/-! ### An item called `tag` -/

/-- A view of a list whose items are known as `tag`, for the one row `x`. The answer is the outline. -/
def mistaken : Script Unit (Option String) := do
  let rows ← Script.newArray [.str "x"]
  let data ← Script.newRecord [("rows", rows)]
  match ← Script.compileView ⟨[("ul", .object [("li", .object
      [("forEach:tag", .string "\x7b\x7b rows \x7d\x7d"),
        ("bind:text", .string "\x7b\x7b tag \x7d\x7d")])])]⟩ with
  | .ok view =>
    match ← Script.build view [data] .headless with
    | .ok root => return some (← Script.outline root)
    | .error _ => return none
  | .error _ => return none

/-- The element comes before the item: its `tag` is what is told. -/
theorem Moment.tag_is_no_item :
    (Host.run ⟨fun _ => .hang⟩ 2 mistaken (.empty .off ())).1 = some (some "ul\n  li [text=li]\n") := by
  decide +kernel

end ReactiveViews
