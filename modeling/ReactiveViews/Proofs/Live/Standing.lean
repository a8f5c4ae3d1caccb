import ReactiveViews.Proofs.Live.Conduct
import ReactiveViews.Proofs.Live.Looking
import ReactiveViews.Proofs.Live.Tending

/-!
# Standing trees

A tree *stands* if its element is one of a node, with a slot for each child node, and what the slots
remember are standing trees of the child nodes, made inside of the element. Nothing is said of the data,
of what has been evaluated and of how far the last update has got; so whatever a view asks for, and
whether updates succeed or fail, trees stay standing.

## What is proved

A standing tree stays one as long as none of its elements is touched (`Standing.touched`). Making
elements for a node gives standing trees (`Build.create_ends`, `Build.createAll_ends`) or leaves
everything as it was.
-/

namespace ReactiveViews

variable {σ α β ε : Type}

/-! ### Letting go -/

/-- What is held in addition is let go of. -/
theorem foldl_erase_of_perm {es held l : List ElementId} (h : held.Perm es) :
    es.foldl List.erase (held ++ l) = l := by
  induction es generalizing held with
  | nil =>
    rw [h.eq_nil]
    rfl
  | cons e rest ih =>
    have hmem : e ∈ held := h.mem_iff.mpr List.mem_cons_self
    rw [List.foldl_cons, List.erase_append_left _ hmem]
    exact ih ((h.erase e).trans (by rw [List.erase_cons_head]))

theorem Proceeds.release {S : ElementId → Prop} {es held : List ElementId} {w w' : World σ}
    (h : Proceeds S held w w') (hperm : held.Perm es) :
    Proceeds S [] w { w' with held := es.foldl List.erase w'.held } := by
  refine ⟨h.touches.trans (.of_held w' _), ?_, h.schedulers, h.receivers⟩
  show es.foldl List.erase w'.held = w.held
  rw [h.held, foldl_erase_of_perm hperm]

/-- The conduct of those that do nothing but look; they need not answer. -/
def Conduct.quiet : Conduct σ where
  Goes := Proceeds
  Stuck _ := True
  refl w := .refl w
  trans h h' := h.trans h'
  mono h hST := h.mono hST
  retains h := h.touches.retains
  retouches h := .of_edits h.toEdits
  add w x := ⟨.of_add w x _, rfl, rfl, rfl⟩
  release h hperm := h.release hperm
  store h := .of_store h
  record w _ _ := .record w _
  endless _ := trivial

theorem Looks.quiet {enter : Enter σ} {act : Act σ α} (h : Looks enter act) :
    Conduct.quiet.Looks enter act := by
  intro w
  have hw := h w
  revert hw
  rcases act.runIn enter w with ⟨_ | a, w'⟩
  · exact fun _ => trivial
  · exact fun hw => hw a w' rfl

theorem Harmless.rules {enter : Enter σ} (h : Harmless enter) : Conduct.quiet.Rules enter where
  resolve C resolver := (h.resolve C resolver).quiet

/-! ### Elements of a node -/

namespace Node

/-- The names of the attributes that the directives of a node set. -/
def dresses (node : Node Resolver) : List String := (node.once ++ node.bind).map (·.1)

/-- Attributes that an element of a node may have: those that no directive sets are those that the
tag tells. -/
structure Wears (node : Node Resolver) (attributes : Fields Value) : Prop where
  /-- Each name stands once. -/
  nodup : attributes.keys.Nodup
  /-- What no directive sets. -/
  told : ∀ name, name ∉ node.dresses → attributes.get? name = node.told.get? name

theorem wears_told (node : Node Resolver) : node.Wears node.told :=
  ⟨node.dressed_told.nodup, fun _ _ => rfl⟩

theorem Wears.putAll {node : Node Resolver} {attributes : Fields Value} (h : node.Wears attributes)
    {written : List (String × Value)} (hnames : written.map (·.1) ⊆ node.dresses) :
    node.Wears (attributes.putAll written) :=
  ⟨Fields.nodup_keys_putAll h.nodup _, fun name hname =>
    (Fields.get?_putAll_of_not_mem fun hmem => hname (hnames hmem)).trans (h.told name hname)⟩

theorem once_subset_dresses (node : Node Resolver) : node.once.map (·.1) ⊆ node.dresses := by
  rw [dresses, List.map_append]
  exact List.subset_append_left _ _

theorem bind_subset_dresses (node : Node Resolver) : node.bind.map (·.1) ⊆ node.dresses := by
  rw [dresses, List.map_append]
  exact List.subset_append_right _ _

end Node

/-- What is always true of an element of a node, whatever its directives are. -/
structure Trunk (node : Node Resolver) (x : Element) : Prop where
  /-- It has the tag of the node. -/
  tag : x.tag = node.tag
  /-- Its component is not in the middle of a change. -/
  idle : x.busy = false
  /-- It has a slot for each child node. -/
  slots : x.slots.map Slot.node = node.children
  /-- Its component draws nothing, shows its children, and has attributes that the node can give. -/
  component : ∃ h, x.component = .headless h ∧ h.mounted = x.children ∧ node.Wears h.attributes

/-- What the slot of a node may remember in an element `e` with the scopes `C` around it. -/
inductive Lodges (w : World σ) (e : ElementId) (C : Context) (node : Node Resolver) : Memory → Prop where
  /-- No child. -/
  | none : node.repetition = Option.none → Lodges w e C node (.single Option.none)
  /-- A child inside of the element. -/
  | child {c : ElementId} {x : Element} (m : Nat) : node.repetition = Option.none →
    w.elements.get? c.row = some x → x.context = .object (.scope m e) :: C →
    Lodges w e C node (.single (some c))
  /-- No list so far. -/
  | blank {name : String} {resolver : Resolver} : node.repetition = some (name, resolver) →
    Lodges w e C node (.repeated Option.none)
  /-- A list, whose items have contexts inside of the element, in some of which there are children. -/
  | list {name : String} {resolver : Resolver} {last : Repetition} :
    node.repetition = some (name, resolver) →
    (∀ context ∈ last.contexts, ∃ r m, context = .object (.record r) :: .object (.scope m e) :: C) →
    List.Forall₂ (fun c context => ∃ x, w.elements.get? c.row = some x ∧ x.context = context)
      last.elements (Build.shown last.contexts last.conditions) →
    Lodges w e C node (.repeated (some last))

namespace Lodges

variable {w w' : World σ} {e : ElementId} {C : Context}

/-- A child in a slot is inside of the element. -/
theorem inside {slot : Slot} (h : Lodges w e C slot.node slot.memory)
    (he : w.lineage e = e :: Context.elements C) {c : ElementId} (hc : c ∈ slot.elements) :
    w.Inside e c := by
  unfold Slot.elements at hc
  generalize slot.memory = memory at h hc
  cases h with
  | none => simp at hc
  | @child c' x m _ hx hcontext =>
    obtain rfl : c = c' := by simpa using hc
    exact ⟨x, hx, by rw [World.lineage_eq hx, hcontext, he]; rfl⟩
  | blank => simp at hc
  | list _ hcontexts helements =>
    obtain ⟨context, hshown, x, hx, hcontext⟩ := exists_of_forall₂ helements hc
    obtain ⟨r, m, heq⟩ := hcontexts context (mem_of_mem_shown hshown)
    exact ⟨x, hx, by rw [World.lineage_eq hx, hcontext, heq, he]; rfl⟩

theorem retained {S : ElementId → Prop} {node : Node Resolver} {memory : Memory}
    (h : Lodges w e C node memory) (hw : Retains S w w') : Lodges w' e C node memory := by
  cases h with
  | none hrepetition => exact .none hrepetition
  | child m hrepetition hx hcontext =>
    obtain ⟨x', hx', hcontext', -⟩ := hw.element _ _ hx
    exact .child m hrepetition hx' (hcontext'.trans hcontext)
  | blank hrepetition => exact .blank hrepetition
  | list hrepetition hcontexts helements =>
    refine .list hrepetition hcontexts (helements.imp ?_)
    rintro c context ⟨x, hx, hcontext⟩
    obtain ⟨x', hx', hcontext', -⟩ := hw.element c x hx
    exact ⟨x', hx', hcontext'.trans hcontext⟩

end Lodges

/-! ### Trees -/

/-- An element of a node with all that is in its slots. -/
inductive Standing (w : World σ) : Node Resolver → ElementId → Prop where
  /-- An element whose slots hold trees of the child nodes, some of which are shown. -/
  | intro {node : Node Resolver} {e : ElementId} {x : Element} :
    w.elements.get? e.row = some x → Trunk node x → x.updater = some (.view node .headless) →
    x.children <+: x.slots.flatMap Slot.elements → (x.slots.flatMap Slot.elements).Nodup →
    (∀ slot ∈ x.slots, Lodges w e x.context slot.node slot.memory) →
    (∀ slot ∈ x.slots, ∀ c ∈ slot.elements, Standing w slot.node c) → Standing w node e

/-- What is in a slot of an element is lodged there, and is standing trees of its node. -/
structure Limb (w : World σ) (e : ElementId) (C : Context) (slot : Slot) : Prop where
  /-- What is remembered. -/
  lodges : Lodges w e C slot.node slot.memory
  /-- The trees. -/
  standing : ∀ c ∈ slot.elements, Standing w slot.node c

/-- An element of a node, in the middle of an update or not. -/
structure Nursed (w : World σ) (node : Node Resolver) (e : ElementId) (x : Element) : Prop where
  /-- The element. -/
  get : w.elements.get? e.row = some x
  /-- It is one of the node. -/
  trunk : Trunk node x
  /-- No child is in its slots twice. -/
  nodup : (x.slots.flatMap Slot.elements).Nodup
  /-- What is in its slots. -/
  limbs : ∀ slot ∈ x.slots, Limb w e x.context slot

namespace Standing

variable {w w' : World σ} {node : Node Resolver} {e : ElementId}

/-- The element of a tree and its slots. -/
theorem inspect (h : Standing w node e) :
    ∃ x, Nursed w node e x ∧ x.updater = some (.view node .headless) ∧
      x.children <+: x.slots.flatMap Slot.elements := by
  cases h with
  | intro hx htrunk hupdater hchildren hnodup hlodges hstanding =>
    exact ⟨_, ⟨hx, htrunk, hnodup, fun slot hslot => ⟨hlodges slot hslot, hstanding slot hslot⟩⟩,
      hupdater, hchildren⟩

theorem get (h : Standing w node e) : ∃ x, w.elements.get? e.row = some x := by
  obtain ⟨x, hx, -⟩ := h.inspect
  exact ⟨x, hx.get⟩

/-- A tree stays a tree if no element of it is touched. -/
theorem retained {S : ElementId → Prop} (h : Standing w node e) (hw : Retains S w w')
    (hS : ∀ x, w.Below e x → ¬ S x) : Standing w' node e := by
  induction h with
  | @intro node e x hx htrunk hupdater hchildren hnodup hlodges _ ih =>
    refine .intro (hw.get? hx (hS e (.refl w e))) htrunk hupdater hchildren hnodup
      (fun slot hslot => (hlodges slot hslot).retained hw) fun slot hslot c hc => ?_
    refine ih slot hslot c hc fun y hy => hS y (.trans ?_ hy)
    exact ((hlodges slot hslot).inside (World.lineage_eq hx) hc).below

theorem touched {S : ElementId → Prop} (h : Standing w node e) (hw : Touches S w w')
    (hS : ∀ x, w.Below e x → ¬ S x) : Standing w' node e := h.retained hw.retains hS

theorem untouched (h : Standing w node e) (hw : Touches (fun _ => False) w w') : Standing w' node e :=
  h.touched hw fun _ _ => id

end Standing

theorem Limb.retained {S : ElementId → Prop} {w w' : World σ} {e : ElementId} {C : Context} {slot : Slot}
    (h : Limb w e C slot) (hw : Retains S w w') (hS : ∀ c ∈ slot.elements, ∀ x, w.Below c x → ¬ S x) :
    Limb w' e C slot := ⟨h.lodges.retained hw, fun c hc => (h.standing c hc).retained hw (hS c hc)⟩

/-- A slot in which nothing is remembered. -/
theorem Limb.fresh (w : World σ) (e : ElementId) (C : Context) (node : Node Resolver) :
    Limb w e C (.fresh node) := by
  unfold Slot.fresh
  cases hrepetition : node.repetition with
  | none => exact ⟨.none hrepetition, by simp [Slot.elements]⟩
  | some repetition => exact ⟨.blank hrepetition, by simp [Slot.elements]⟩

namespace Nursed

variable {w w' : World σ} {node : Node Resolver} {e : ElementId} {x y : Element}

theorem lineage (h : Nursed w node e x) : w.lineage e = e :: Context.elements x.context :=
  World.lineage_eq h.get

theorem inside (h : Nursed w node e x) {c : ElementId} (hc : c ∈ x.slots.flatMap Slot.elements) :
    w.Inside e c := by
  obtain ⟨slot, hslot, hc⟩ := List.mem_flatMap.mp hc
  exact (h.limbs slot hslot).lodges.inside h.lineage hc

theorem standing (h : Nursed w node e x) (hupdater : x.updater = some (.view node .headless))
    (hchildren : x.children <+: x.slots.flatMap Slot.elements) : Standing w node e :=
  .intro h.get h.trunk hupdater hchildren h.nodup (fun slot hslot => (h.limbs slot hslot).lodges)
    fun slot hslot => (h.limbs slot hslot).standing

/-- The element is changed, but not what is in its slots. -/
theorem amend (h : Nursed w node e x) (hw : Retains (· = e) w w')
    (hy : w'.elements.get? e.row = some y) (htrunk : Trunk node y) (hslots : y.slots = x.slots) :
    Nursed w' node e y := by
  obtain ⟨y', hy', hcontext, -⟩ := hw.element e x h.get
  obtain rfl : y = y' := Option.some.inj (hy.symm.trans hy')
  refine ⟨hy, htrunk, hslots ▸ h.nodup, fun slot hslot => ?_⟩
  rw [hcontext]
  rw [hslots] at hslot
  refine (h.limbs slot hslot).retained hw fun c hc z hz => ?_
  rintro rfl
  exact (h.inside (List.mem_flatMap.mpr ⟨slot, hslot, hc⟩)).not_below hz

theorem retained (h : Nursed w node e x) (hw : Retains (fun _ => False) w w') : Nursed w' node e x :=
  h.amend (hw.mono fun _ _ => False.elim) (hw.get? h.get id) h.trunk rfl

theorem saw {K : Conduct σ} (h : Nursed w node e x) (hw : K.Saw w w') : Nursed w' node e x :=
  h.retained hw.retains

theorem alter (h : Nursed w node e x) (hw : Touches (· = e) w w')
    (hy : w'.elements.get? e.row = some y) (htrunk : Trunk node y) (hslots : y.slots = x.slots) :
    Nursed w' node e y := h.amend hw.retains hy htrunk hslots

theorem looked (h : Nursed w node e x) (hw : Looked w w') : Nursed w' node e x :=
  h.retained hw.touches.retains

theorem untouched (h : Nursed w node e x) (hw : Touches (fun _ => False) w w') : Nursed w' node e x :=
  h.retained hw.retains

end Nursed

/-! ### Elements in a tree -/

/-- An element that is in the tree of another one: that one itself, or in the tree of an element in one of
its slots. -/
inductive World.Encloses (w : World σ) : ElementId → ElementId → Prop where
  /-- The element itself. -/
  | refl (e : ElementId) : Encloses w e e
  /-- In the tree of an element in a slot. -/
  | inner {e c z : ElementId} {x : Element} {slot : Slot} : w.elements.get? e.row = some x →
    slot ∈ x.slots → c ∈ slot.elements → Encloses w c z → Encloses w e z

namespace Standing

variable {w w' : World σ} {node : Node Resolver} {e z : ElementId}

theorem below_of_encloses (h : Standing w node e) (hz : w.Encloses e z) : w.Below e z := by
  induction hz generalizing node with
  | refl e => exact .refl w e
  | inner hx hslot hc _ ih =>
    obtain ⟨y, hnursed, -⟩ := h.inspect
    obtain rfl := Option.some.inj (hx.symm.trans hnursed.get)
    exact (hnursed.inside (List.mem_flatMap.mpr ⟨_, hslot, hc⟩)).below.trans
      (ih ((hnursed.limbs _ hslot).standing _ hc))

/-- The elements of a tree have trees. -/
theorem encloses (h : Standing w node e) (hz : w.Encloses e z) : ∃ child, Standing w child z := by
  induction hz generalizing node with
  | refl e => exact ⟨node, h⟩
  | inner hx hslot hc _ ih =>
    obtain ⟨y, hnursed, -⟩ := h.inspect
    obtain rfl := Option.some.inj (hx.symm.trans hnursed.get)
    exact ih ((hnursed.limbs _ hslot).standing _ hc)

/-- A tree stays a tree if its elements are as they were. -/
theorem unchanged (h : Standing w node e)
    (hw : ∀ y x, w.Encloses e y → w.elements.get? y.row = some x → w'.elements.get? y.row = some x) :
    Standing w' node e := by
  induction h with
  | @intro node e x hx htrunk hupdater hchildren hnodup hlodges _ ih =>
    have hencloses : ∀ slot ∈ x.slots, ∀ c ∈ slot.elements, ∀ y, w.Encloses c y → w.Encloses e y :=
      fun slot hslot c hc y hy => .inner hx hslot hc hy
    refine .intro (hw e x (.refl e) hx) htrunk hupdater hchildren hnodup (fun slot hslot => ?_)
      fun slot hslot c hc => ih slot hslot c hc fun y z hy hz => hw y z (hencloses slot hslot c hc y hy) hz
    have hget : ∀ c ∈ slot.elements, ∀ y, w.elements.get? c.row = some y → w'.elements.get? c.row = some y :=
      fun c hc y hy => hw c y (hencloses slot hslot c hc c (.refl c)) hy
    have hlodged := hlodges slot hslot
    unfold Slot.elements at hget
    generalize slot.memory = memory at hlodged hget
    cases hlodged with
    | none hrepetition => exact .none hrepetition
    | child m hrepetition hc hcontext => exact .child m hrepetition (hget _ (by simp) _ hc) hcontext
    | blank hrepetition => exact .blank hrepetition
    | list hrepetition hcontexts helements =>
      have hmem := (List.forall₂_and_left (p := (· ∈ _)) _ _).mpr ⟨fun _ => id, helements⟩
      exact .list hrepetition hcontexts (hmem.imp fun c context ⟨hc, y, hy, hcontext⟩ =>
        ⟨y, hget c (by simpa using hc) y hy, hcontext⟩)

end Standing

/-! ### New elements -/

/-- A new element of a node, on which no update has been run. -/
structure Sprung (w : World σ) (node : Node Resolver) (C : Context) (e : ElementId) (x : Element) :
    Prop where
  /-- The element. -/
  get : w.elements.get? e.row = some x
  /-- It is one of the node. -/
  trunk : Trunk node x
  /-- The scopes around it. -/
  context : x.context = C
  /-- It is updated as its node says. -/
  updater : x.updater = some (.view node .headless)
  /-- Nothing is in its slots. -/
  slots : x.slots = node.children.map .fresh
  /-- It shows no children. -/
  children : x.children = []

namespace Sprung

variable {w w' : World σ} {node : Node Resolver} {C : Context} {e : ElementId} {x : Element}

theorem elements_eq (h : Sprung w node C e x) : x.slots.flatMap Slot.elements = [] := by
  rw [h.slots, List.flatMap_map, List.flatMap_eq_nil_iff.mpr fun child _ => Slot.elements_fresh child]

theorem nursed (h : Sprung w node C e x) : Nursed w node e x := by
  refine ⟨h.get, h.trunk, h.elements_eq ▸ List.nodup_nil, fun slot hslot => ?_⟩
  rw [h.slots] at hslot
  obtain ⟨child, -, rfl⟩ := List.mem_map.mp hslot
  exact .fresh w e x.context child

theorem standing (h : Sprung w node C e x) : Standing w node e :=
  h.nursed.standing h.updater (h.children ▸ List.nil_prefix)

theorem retained (h : Sprung w node C e x) (hw : Retains (fun _ => False) w w') :
    Sprung w' node C e x := { h with get := hw.get? h.get id }

end Sprung

namespace Build

variable {K : Conduct σ} {enter : Enter σ} {w : World σ} {e : ElementId} {x : Element} {h : Headless}

/-- An attribute is set, unless a message needs a text that has no end. -/
theorem setAttribute_ends (K : Conduct σ) (enter : Enter σ) (hx : w.elements.get? e.row = some x)
    (hidle : x.busy = false) (hc : x.component = .headless h) (name : String) (v : Value) (E) :
    K.Ends enter w (component (Act.setAttribute e name v))
      (fun _ w' => Retouches e w w' ∧
        w'.elements.get? e.row = some { x with component := .headless (h.setAttribute name v) }) E := by
  unfold Conduct.Ends
  by_cases hend : w.wants .trace = true ∧ w.store.text v = none
  · rw [runIn_setAttribute_none hx hidle hc name hend.1 hend.2]
    exact K.endless hend.2
  · obtain ⟨t, ht⟩ := World.exists_text hend
    obtain ⟨w₁, hset, hw₁, hx₁⟩ : Alters enter w e (component (Act.setAttribute e name v)).run
      (.ok ()) _ := .component (.setAttribute hx hidle hc name ht)
    rw [hset]
    exact ⟨hw₁, hx₁⟩

/-- What there is after attributes have been set. -/
def Written (K : Conduct σ) (w : World σ) (e : ElementId) (x : Element) (h : Headless)
    (written : List (String × Value)) (w' : World σ) : Prop :=
  K.Goes (· = e) [] w w' ∧ w'.elements.get? e.row =
    some { x with component := .headless { h with attributes := h.attributes.putAll written } }

theorem Written.nil (hx : w.elements.get? e.row = some x) (hc : x.component = .headless h) {w' : World σ}
    (hw : K.Saw w w') : Written K w e x h [] w' := by
  refine ⟨.of_none hw, (hw.retains.get? hx id).trans ?_⟩
  show some x = some { x with component := .headless h }
  rw [← hc]

/-- Attributes are set one after the other. -/
theorem assign_ends (hrules : K.Rules enter) (hx : w.elements.get? e.row = some x)
    (hidle : x.busy = false) (hc : x.component = .headless h) (C : Context)
    (entries : List (String × Resolver)) :
    K.Ends enter w (assign e C entries)
      (fun _ w' => ∃ written, written.map (·.1) = entries.map (·.1) ∧ Written K w e x h written w')
      (fun w' => ∃ written, written.map (·.1) <+: entries.map (·.1) ∧ Written K w e x h written w') := by
  induction entries generalizing w x h with
  | nil => exact .pure ⟨[], rfl, .nil hx hc (K.refl w)⟩
  | cons entry rest ih =>
    obtain ⟨name, resolver⟩ := entry
    refine .look (hrules.resolve C resolver).eval
      (fun w₁ hw₁ => ⟨[], List.nil_prefix, .nil hx hc hw₁⟩) fun v w₁ hw₁ => ?_
    refine (setAttribute_ends K enter (hw₁.retains.get? hx id) hidle hc name v _).bind ?_
    rintro ⟨⟩ w₂ ⟨hw₂, hx₂⟩
    have hw := (Conduct.Goes.of_none hw₁).trans (.of_retouches hw₂)
    refine (ih hx₂ hidle rfl).imp ?_ ?_
    · rintro ⟨⟩ w₃ ⟨written, hnames, hw₃, hx₃⟩
      exact ⟨(name, v) :: written, by simp [hnames], hw.trans hw₃, hx₃⟩
    · rintro w₃ ⟨written, hnames, hw₃, hx₃⟩
      refine ⟨(name, v) :: written, ?_, hw.trans hw₃, hx₃⟩
      rw [List.map_cons, List.map_cons]
      exact (List.prefix_cons_inj _).mpr hnames

/-- Making an element gives a new one, or leaves everything as it was. -/
theorem create_ends (hrules : K.Rules enter) (w : World σ) (node : Node Resolver)
    (context : Context) :
    K.Ends enter w (create node context .headless)
      (fun c w' => c = ⟨w.elements.size⟩ ∧ K.Goes (fun _ => False) [c] w w' ∧
        ∃ x, Sprung w' node context c x) (K.Saw w) := by
  let x : Element := ⟨node.tag, .headless (.new node.tag.tag), false, context, [], none, []⟩
  let v : World σ := { w with elements := w.elements.add x, held := ⟨w.elements.size⟩ :: w.held }
  have hx : v.elements.get? w.elements.size = some x := Table.get?_add_new _ _
  have hv : K.Goes (fun _ => False) [⟨w.elements.size⟩] w v := K.add w x
  have hnew : ∀ {es : List ElementId} {w'}, K.Goes (· = ⟨w.elements.size⟩) es v w' →
      K.Goes (fun _ => False) (es ++ [⟨w.elements.size⟩]) w w' := by
    intro es w' hw'
    refine K.mono (hv.of_none.trans hw') ?_
    rintro e ⟨y, hy⟩ rfl
    exact Nat.lt_irrefl _ (Table.lt_size_of_get? hy)
  obtain ⟨h, m, w₁, hattributes, hmounted, hw₁, hx₁, hrun⟩ :=
    runIn_furnish (e := ⟨w.elements.size⟩) enter node hx rfl rfl
  have hmake : (component (Act.make .headless node.tag.tag)).run.runIn enter w =
    (some (.ok (.headless (.new node.tag.tag))), w) := rfl
  refine .step hmake ?_
  have hadd : (act (Act.newElement node.tag (.headless (.new node.tag.tag)) context)).run.runIn enter w =
    (some (.ok ⟨w.elements.size⟩), v) := rfl
  refine .step hadd ?_
  have hfurnish : K.Ends enter v (furnish ⟨w.elements.size⟩ node .headless)
      (fun _ w' => K.Goes (fun _ => False) [⟨w.elements.size⟩] w w' ∧
        ∃ x, Sprung w' node context ⟨w.elements.size⟩ x)
      (fun w' => K.Goes (fun _ => False) [⟨w.elements.size⟩] w w') := by
    have hassign := (assign_ends hrules hx₁ rfl rfl
      (.object (.scope m ⟨w.elements.size⟩) :: context) node.once).imp (fun _ _ => id)
      (F := fun w' => K.Goes (fun _ => False) [⟨w.elements.size⟩] w w') <| by
        rintro w₂ ⟨written, -, hw₂, -⟩
        exact hnew ((Conduct.Goes.of_retouches hw₁).trans hw₂)
    unfold Conduct.Ends
    rw [hrun]
    refine hassign.bind (R := fun _ w' => K.Goes (fun _ => False) [⟨w.elements.size⟩] w w' ∧
      ∃ x, Sprung w' node context ⟨w.elements.size⟩ x) ?_
    rintro ⟨⟩ w₂ ⟨written, hnames, hw₂, hx₂⟩
    obtain ⟨w₃, hrun₃, hw₃, hx₃⟩ := (install_alters enter hx₂ (.view node .headless)
      (node.children.map .fresh)).liftE (ε := ViewError)
    unfold Conduct.Ends
    rw [Build.act, hrun₃]
    refine ⟨hnew (((Conduct.Goes.of_retouches hw₁).trans hw₂).trans (.of_retouches hw₃)), _, hx₃,
      ⟨rfl, rfl, ?_, _, rfl, hmounted, ?_⟩, rfl, rfl, rfl, rfl⟩
    · simp [Slot.fresh, List.map_map, Function.comp_def]
    · rw [hattributes]
      exact node.wears_told.putAll (hnames ▸ node.once_subset_dresses)
  refine (hfurnish.releasing (F := K.Saw w) fun w' hw' => K.release hw' (.refl _)).bind ?_
  rintro ⟨⟩ w' hw'
  exact .pure ⟨rfl, hw'⟩

/-- Making elements in several contexts gives different new ones, or leaves everything as it was. -/
theorem createAll_ends (hrules : K.Rules enter) (w : World σ) (node : Node Resolver)
    (contexts : List Context) :
    K.Ends enter w (createAll node .headless contexts)
      (fun es w' => K.Goes (fun _ => False) es.reverse w w' ∧ es.Nodup ∧
        (∀ e ∈ es, w.elements.size ≤ e.row) ∧
        List.Forall₂ (fun e C => ∃ x, Sprung w' node C e x) es contexts) (K.Saw w) := by
  induction contexts generalizing w with
  | nil => exact .pure ⟨K.refl w, .nil, by simp, .nil⟩
  | cons context rest ih =>
    refine (create_ends hrules w node context).bind ?_
    rintro c v ⟨rfl, hv, x, hx⟩
    refine ((ih v).releasing (F := K.Saw w) fun w' hw' => K.release (hv.trans hw') (.refl _)).bind ?_
    rintro es w' ⟨hw', hnodup, hrows, hall⟩
    have hsize := Table.lt_size_of_get? hx.get
    refine .pure ⟨?_, List.nodup_cons.mpr ⟨fun hmem => ?_, hnodup⟩, ?_,
      .cons ⟨x, hx.retained hw'.retains⟩ hall⟩
    · rw [List.reverse_cons]
      exact hv.trans hw'
    · exact Nat.lt_irrefl _ (Nat.lt_of_lt_of_le hsize (hrows _ hmem))
    · rintro e (_ | ⟨_, hmem⟩)
      · exact Nat.le_refl _
      · exact Nat.le_trans (Nat.le_of_lt hsize) (hrows e hmem)

end Build

end ReactiveViews
