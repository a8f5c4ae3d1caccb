import ReactiveViews.Proofs.Live.Elements

/-!
# Trees of elements

A tree that a node has grown: an element of the node, with a slot for each child node, and in the
slots, wherever something is remembered, the trees that the child nodes have grown. Nothing is said
of how far the last update has got, so a tree stays one when an update fails.

The records that stand for the items of lists are told apart from the data by their rows and by a
region that the data are in; and the trees of two children have no element in common, since every
element below an element has it in its lineage.

## What is proved

A tree stays a tree as long as none of its elements is touched (`Grown.touched`), and so does what
there is to see of it (`Shows.touched`). A new element is a tree (`Sprouts.grown`).
-/

namespace ReactiveViews

variable {σ : Type}

/-! ### What a slot remembers -/

/-- A record that stands for an item under a name: it is no part of the data, was there when the
store was `o`, and is none of the scopes around. -/
structure Framed (s : Store) (D : Scene σ) (o : Store) (name : String) (C : Context) (r : RecordId)
    (v : Value) : Prop where
  /-- It is not new. -/
  old : r.row < o.records.size
  /-- It is no part of the data. -/
  apart : ¬ D.records r
  /-- It is none of the scopes around. -/
  other : .object (.record r) ∉ C
  /-- It holds the item and nothing else. -/
  fields : s.fields r = [(name, v)]

theorem Framed.grow {s s' o o' : Store} {D : Scene σ} {name : String} {C : Context} {r : RecordId}
    {v : Value} (h : Framed s D o name C r v) (hs : s.Grows s') (ho : o.Grows s) (ho' : o.Grows o') :
    Framed s' D o' name C r v where
  old := Nat.lt_of_lt_of_le h.old ho'.records_le
  apart := h.apart
  other := h.other
  fields := (hs.fields_eq r (Nat.lt_of_lt_of_le h.old ho.records_le)).trans h.fields

/-- A context begins with a record that holds a value and nothing else. -/
def FrontHolds (s : Store) (context : Context) (v : Value) : Prop :=
  ∃ r rest name, context = .object (.record r) :: rest ∧ r.row < s.records.size ∧
    s.fields r = [(name, v)]

theorem FrontHolds.grow {s s' : Store} {context : Context} {v : Value}
    (h : FrontHolds s context v) (hs : s.Grows s') : FrontHolds s' context v := by
  obtain ⟨r, rest, name, hcontext, hrange, hfields⟩ := h
  exact ⟨r, rest, name, hcontext, Nat.lt_of_lt_of_le hrange hs.records_le,
    (hs.fields_eq r hrange).trans hfields⟩

/-- What the slot of a node may remember in an element `e` with the scopes `C` around it. -/
inductive Remembers (w : World σ) (D : Scene σ) (o : Store) (e : ElementId) (C : Context)
    (node : Node Resolver) : Memory → Prop where
  /-- No child. -/
  | none : node.repetition = Option.none → Remembers w D o e C node (.single Option.none)
  /-- A child inside of the element. -/
  | child {c : ElementId} {x : Element} (m : Nat) : node.repetition = Option.none →
    w.elements.get? c.row = some x → x.context = .object (.scope m e) :: C →
    Remembers w D o e C node (.single (some c))
  /-- No list so far. -/
  | blank {name : String} {resolver : Resolver} : node.repetition = some (name, resolver) →
    Remembers w D o e C node (.repeated Option.none)
  /-- A list, whose items have contexts inside of the element, in some of which there are children. -/
  | list {name : String} {resolver : Resolver} {last : Repetition} :
    node.repetition = some (name, resolver) →
    (∀ context ∈ last.contexts, ∃ r m v,
      context = .object (.record r) :: .object (.scope m e) :: C ∧ Framed w.store D o name C r v) →
    List.Forall₂ (fun c context => ∃ x, w.elements.get? c.row = some x ∧ x.context = context)
      last.elements (Build.shown last.contexts last.conditions) →
    (∀ a, last.list = .array a → a.row < o.arrays.size) →
    (∀ text, last.list = .str text →
      List.Forall₂ (FrontHolds w.store) last.contexts (characters text)) →
    Remembers w D o e C node (.repeated (some last))

theorem exists_of_forall₂ {α β : Type} {R : α → β → Prop} {l : List α} {l' : List β}
    (h : List.Forall₂ R l l') {a : α} (ha : a ∈ l) : ∃ b ∈ l', R a b := by
  induction h with
  | nil => cases ha
  | @cons x y _ _ hxy _ ih =>
    rcases List.mem_cons.mp ha with rfl | ha
    · exact ⟨y, List.mem_cons_self, hxy⟩
    · obtain ⟨b, hb, hab⟩ := ih ha
      exact ⟨b, List.mem_cons_of_mem _ hb, hab⟩

theorem mem_of_mem_shown {contexts : List Context} {conditions : List Bool} {context : Context}
    (h : context ∈ Build.shown contexts conditions) : context ∈ contexts := by
  obtain ⟨⟨context', condition⟩, hmem, hsome⟩ := List.mem_filterMap.mp h
  dsimp only at hsome
  split at hsome
  · obtain rfl := Option.some.inj hsome
    exact (List.of_mem_zip hmem).1
  · cases hsome

namespace Remembers

variable {w w' : World σ} {D : Scene σ} {o o' : Store} {e : ElementId} {C : Context}

/-- A child in a slot is inside of the element. -/
theorem lineage {slot : Slot} (h : Remembers w D o e C slot.node slot.memory) {c : ElementId}
    (hc : c ∈ slot.elements) :
    ∃ x, w.elements.get? c.row = some x ∧ w.lineage c = c :: e :: Context.elements C := by
  unfold Slot.elements at hc
  generalize slot.memory = memory at h hc
  cases h with
  | none => simp at hc
  | @child c' x m _ hx hcontext =>
    obtain rfl : c = c' := by simpa using hc
    exact ⟨x, hx, by rw [World.lineage_eq hx, hcontext]; rfl⟩
  | blank => simp at hc
  | list _ hcontexts helements _ _ =>
    obtain ⟨context, hshown, x, hx, hcontext⟩ := exists_of_forall₂ helements hc
    obtain ⟨r, m, v, heq, -⟩ := hcontexts context (mem_of_mem_shown hshown)
    exact ⟨x, hx, by rw [World.lineage_eq hx, hcontext, heq]; rfl⟩

theorem touched {S : ElementId → Prop} {node : Node Resolver} {memory : Memory}
    (h : Remembers w D o e C node memory) (hw : Touches S w w') (ho : o.Grows w.store)
    (ho' : o.Grows o') : Remembers w' D o' e C node memory := by
  cases h with
  | none hrepetition => exact .none hrepetition
  | child m hrepetition hx hcontext =>
    obtain ⟨x', hx', hcontext', -⟩ := hw.element _ _ hx
    exact .child m hrepetition hx' (hcontext'.trans hcontext)
  | blank hrepetition => exact .blank hrepetition
  | list hrepetition hcontexts helements harray htext =>
    refine .list hrepetition (fun context hmem => ?_) (helements.imp ?_)
      (fun a ha => Nat.lt_of_lt_of_le (harray a ha) ho'.arrays_le)
      (fun text ht => (htext text ht).imp fun _ _ hfront => hfront.grow hw.store)
    · obtain ⟨r, m, v, heq, hframed⟩ := hcontexts context hmem
      exact ⟨r, m, v, heq, hframed.grow hw.store ho ho'⟩
    · rintro c context ⟨x, hx, hcontext⟩
      obtain ⟨x', hx', hcontext', -⟩ := hw.element c x hx
      exact ⟨x', hx', hcontext'.trans hcontext⟩

end Remembers

/-! ### Trees -/

/-- An element of a node with all that is in its slots. -/
inductive Grown (w : World σ) (D : Scene σ) (o : Store) : Node Resolver → ElementId → Prop where
  /-- An element whose slots hold trees of the child nodes. -/
  | intro {node : Node Resolver} {e : ElementId} {x : Element} :
    w.elements.get? e.row = some x → Stem node x → x.updater = some (.view node .headless) →
    (x.slots.flatMap Slot.elements).Nodup →
    (∀ slot ∈ x.slots, Remembers w D o e x.context slot.node slot.memory) →
    (∀ slot ∈ x.slots, ∀ c ∈ slot.elements, Grown w D o slot.node c) → Grown w D o node e

/-- What is in a slot of an element is remembered as it should be, and is trees of its node. -/
structure Branch (w : World σ) (D : Scene σ) (o : Store) (e : ElementId) (C : Context)
    (slot : Slot) : Prop where
  /-- What is remembered. -/
  remembers : Remembers w D o e C slot.node slot.memory
  /-- The trees. -/
  grown : ∀ c ∈ slot.elements, Grown w D o slot.node c

namespace Grown

variable {w w' : World σ} {D : Scene σ} {o o' : Store} {node : Node Resolver} {e : ElementId}

/-- The element of a tree and its slots. -/
theorem inspect (h : Grown w D o node e) :
    ∃ x, w.elements.get? e.row = some x ∧ Stem node x ∧ x.updater = some (.view node .headless) ∧
      (x.slots.flatMap Slot.elements).Nodup ∧ ∀ slot ∈ x.slots, Branch w D o e x.context slot := by
  cases h with
  | intro hx hstem hupdater hnodup hremembers hgrown =>
    exact ⟨_, hx, hstem, hupdater, hnodup, fun slot hslot => ⟨hremembers slot hslot, hgrown slot hslot⟩⟩

theorem of_branches {x : Element} (hx : w.elements.get? e.row = some x) (hstem : Stem node x)
    (hupdater : x.updater = some (.view node .headless))
    (hnodup : (x.slots.flatMap Slot.elements).Nodup)
    (hbranches : ∀ slot ∈ x.slots, Branch w D o e x.context slot) : Grown w D o node e :=
  .intro hx hstem hupdater hnodup (fun slot hslot => (hbranches slot hslot).remembers)
    fun slot hslot => (hbranches slot hslot).grown

/-- A tree stays a tree if no element of it is touched. -/
theorem touched {S : ElementId → Prop} (h : Grown w D o node e) (hw : Touches S w w')
    (hS : ∀ x, w.Below e x → ¬ S x) (ho : o.Grows w.store) (ho' : o.Grows o') :
    Grown w' D o' node e := by
  induction h with
  | @intro node e x hx hstem hupdater hnodup hremembers _ ih =>
    refine .intro (hw.get? hx (hS e (.refl w e))) hstem hupdater hnodup
      (fun slot hslot => (hremembers slot hslot).touched hw ho ho') fun slot hslot c hc => ?_
    refine ih slot hslot c hc fun y hy => hS y (.trans ?_ hy)
    obtain ⟨-, -, hlineage⟩ := (hremembers slot hslot).lineage hc
    rw [World.Below, hlineage, World.lineage_eq hx]
    exact List.suffix_cons _ _

theorem untouched (h : Grown w D w.store node e) (hw : Touches (fun _ => False) w w') :
    Grown w' D w'.store node e := h.touched hw (fun _ _ => id) (.refl _) hw.store

end Grown

theorem Branch.touched {S : ElementId → Prop} {w w' : World σ} {D : Scene σ} {o o' : Store}
    {e : ElementId} {C : Context} {slot : Slot} (h : Branch w D o e C slot) (hw : Touches S w w')
    (hS : ∀ c ∈ slot.elements, ∀ x, w.Below c x → ¬ S x) (ho : o.Grows w.store) (ho' : o.Grows o') :
    Branch w' D o' e C slot :=
  ⟨h.remembers.touched hw ho ho', fun c hc => (h.grown c hc).touched hw (hS c hc) ho ho'⟩

/-- A slot in which nothing is remembered. -/
theorem Branch.fresh (w : World σ) (D : Scene σ) (o : Store) (e : ElementId) (C : Context)
    (node : Node Resolver) : Branch w D o e C (.fresh node) := by
  unfold Slot.fresh
  cases hrepetition : node.repetition with
  | none => exact ⟨.none hrepetition, by simp [Slot.elements]⟩
  | some repetition => exact ⟨.blank hrepetition, by simp [Slot.elements]⟩

theorem Slot.elements_fresh (node : Node Resolver) : (Slot.fresh node).elements = [] := by
  unfold Slot.fresh
  split <;> rfl

/-- A new element is a tree. -/
theorem Sprouts.grown {w : World σ} {node : Node Resolver} {C : Context} {e : ElementId}
    (h : Sprouts w node C e) (D : Scene σ) (o : Store) : Grown w D o node e := by
  obtain ⟨x, hx, -, hstem, hupdater, hslots⟩ := h
  refine .of_branches hx hstem hupdater ?_ ?_
  · rw [hslots, List.flatMap_map, List.flatMap_eq_nil_iff.mpr fun child _ => Slot.elements_fresh child]
    exact List.nodup_nil
  · intro slot hslot
    rw [hslots] at hslot
    obtain ⟨child, -, rfl⟩ := List.mem_map.mp hslot
    exact .fresh w D o e x.context child

/-! ### What there is to see -/

/-- A value has a text, or has none, now and for as long as the store only grows. -/
def Reads (s : Store) (v : Value) (t : Option String) : Prop :=
  ∃ (ρ : Link) (s' : Store) (v' : Value), ρ.Stores s s' ∧ ρ.Values v v' ∧ s'.text v' = t

theorem Reads.grow {s t : Store} {v : Value} {text : Option String} (h : Reads s v text)
    (hs : s.Grows t) : Reads t v text := by
  obtain ⟨ρ, s', v', hstores, hv, htext⟩ := h
  exact ⟨ρ, s', v', hstores.grow hs (.refl s'), hv, htext⟩

theorem Reads.text_eq {s : Store} {v : Value} {text : Option String} (h : Reads s v text) :
    s.text v = text := by
  obtain ⟨ρ, s', v', hstores, hv, htext⟩ := h
  exact (hstores.text_eq hv).trans htext

mutual

/-- The tree of an element looks like a picture. -/
def Shows (w : World σ) (e : ElementId) : Picture → Prop
  | ⟨tag, attributes, children⟩ => ∃ x h, w.elements.get? e.row = some x ∧
    x.component = .headless h ∧ x.busy = false ∧ x.tag = tag ∧ h.mounted = x.children ∧
    Fields.Related (Reads w.store) h.attributes attributes ∧
    (∀ c ∈ x.children, ∃ y, w.elements.get? c.row = some y ∧ w.lineage c = c :: w.lineage e) ∧
    ShowsAll w x.children children

/-- The trees of several elements look like pictures, in order. -/
def ShowsAll (w : World σ) : List ElementId → List Picture → Prop
  | [], [] => True
  | e :: es, picture :: pictures => Shows w e picture ∧ ShowsAll w es pictures
  | _, _ => False

end

mutual

/-- A tree looks as it did if no element of it is touched. -/
theorem Shows.touched {S : ElementId → Prop} {w w' : World σ} (hw : Touches S w w') {e : ElementId}
    (hS : ∀ x, w.Below e x → ¬ S x) : (picture : Picture) → Shows w e picture → Shows w' e picture
  | ⟨tag, attributes, children⟩, h => by
    rw [Shows] at h ⊢
    obtain ⟨x, c, hx, hc, hbusy, htag, hmounted, hattributes, hinside, hchildren⟩ := h
    refine ⟨x, c, hw.get? hx (hS e (.refl w e)), hc, hbusy, htag, hmounted,
      hattributes.imp fun _ _ hab => ⟨hab.1, hab.2.grow hw.store⟩, fun c hc => ?_, ?_⟩
    · obtain ⟨y, hy, hlineage⟩ := hinside c hc
      obtain ⟨y', hy', -⟩ := hw.element c y hy
      exact ⟨y', hy', by rw [hw.lineage hy, hw.lineage hx, hlineage]⟩
    · refine ShowsAll.touched hw (fun c hc y hy => hS y (.trans ?_ hy)) children hchildren
      obtain ⟨-, -, hlineage⟩ := hinside c hc
      rw [World.Below, hlineage]
      exact List.suffix_cons _ _

theorem ShowsAll.touched {S : ElementId → Prop} {w w' : World σ} (hw : Touches S w w')
    {es : List ElementId} (hS : ∀ e ∈ es, ∀ x, w.Below e x → ¬ S x) :
    (pictures : List Picture) → ShowsAll w es pictures → ShowsAll w' es pictures
  | [], h => by
    cases es with
    | nil => trivial
    | cons e es => exact h.elim
  | picture :: pictures, h => by
    cases es with
    | nil => exact h.elim
    | cons e es =>
      rw [ShowsAll] at h ⊢
      exact ⟨Shows.touched hw (hS e List.mem_cons_self) picture h.1,
        ShowsAll.touched hw (fun e he => hS e (List.mem_cons_of_mem _ he)) pictures h.2⟩

end

theorem Shows.untouched {w w' : World σ} {e : ElementId} {picture : Picture} (h : Shows w e picture)
    (hw : Touches (fun _ => False) w w') : Shows w' e picture :=
  h.touched hw (fun _ _ => id) picture

end ReactiveViews
