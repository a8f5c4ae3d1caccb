import ReactiveViews.Proofs.Live.Elements

/-!
# Renderings

What a view says there is to be: for each node the elements that it stands for in a context, with
their attributes, and in each of them what its child nodes stand for in the same context. A rendering
is computed from the view and the data alone, without elements, slots and updaters.

Without a list a node stands for one item, in the context itself; with a list it stands for an item
for each of the values in it, in the context with that value under its name in front. An item whose
condition is false comes to nothing. Of each other item there is an element: with the tag of the node,
with the attributes that the tag tells, those that are set once and the bound ones, a later one in the
place of an earlier one of the same name, and with the renderings of the child nodes, one after the
other, as its children.

## The model

Evaluations may make arrays and call functions, so a rendering is an act, and asks for things in some
order. It is that of a building: the elements that nodes come to are known, with the attributes that
are set once, before it goes on to what is in them; such an element is a *bud*. What is in it is
rendered by a call less deep. Where messages are wanted that need the text of an attribute, the text is
needed as well.

A tree *embodies* a rendering if it has the same tags, attributes and children in order.
-/

namespace ReactiveViews

variable {σ : Type}

/-- A tree of elements as a view describes it. -/
structure Shape where
  /-- The tag of the element. -/
  tag : Tag
  /-- Its attributes in order. -/
  attributes : Fields Value
  /-- Its children in order. -/
  children : List Shape

/-- An element that there is to be, of which it is not known yet what is in it. -/
structure Bud where
  /-- Its node. -/
  node : Node Resolver
  /-- The scopes around it. -/
  context : Context
  /-- The attributes that it begins with. -/
  attributes : Fields Value

namespace Build

/-- Writes the values of attributes over others, in order. -/
def dress (context : Context) :
    List (String × Resolver) → Fields Value → Build σ (Fields Value)
  | [], attributes => return attributes
  | (name, resolver) :: rest, attributes => do
    let v ← eval (Eval.resolve context resolver)
    act (Act.message .trace (Act.text v))
    dress context rest (attributes.put name v)

/-- The element of a node in a context, with the attributes that the tag tells and those that are set
once. -/
def sprout (node : Node Resolver) (context : Context) : Build σ Bud := do
  return ⟨node, context, ← dress context node.once node.told⟩

/-- The elements of a node in several contexts. -/
def sproutAll (node : Node Resolver) : List Context → Build σ (List Bud)
  | [] => return []
  | context :: rest => do
    let bud ← sprout node context
    return bud :: (← sproutAll node rest)

/-- The elements that a node comes to in a context. -/
def buds (node : Node Resolver) (context : Context) : Build σ (List Bud) := do
  sproutAll node (← seeds node context)

/-- The elements that several nodes come to in a context. -/
def budsAll (context : Context) : List (Node Resolver) → Build σ (List Bud)
  | [] => return []
  | node :: rest => do
    let first ← buds node context
    return first ++ (← budsAll context rest)

/-- Finishes several elements. -/
def finishAll (finish : Bud → Build σ Shape) : List Bud → Build σ (List Shape)
  | [] => return []
  | bud :: rest => do
    let shape ← finish bud
    return shape :: (← finishAll finish rest)

/-- Finishes an element, given a way to finish what is in it. -/
def finish (inside : Bud → Build σ Shape) (bud : Bud) : Build σ Shape := do
  let buds ← budsAll bud.context bud.node.children
  let attributes ← dress bud.context bud.node.bind bud.attributes
  return ⟨bud.node.tag, attributes, ← finishAll inside buds⟩

end Build

namespace Host

variable (host : Host σ)

/-- Finishes an element; what is in it is finished by calls at most `depth` deep. -/
def finish : Nat → Bud → Build σ Shape
  | 0 => Build.finish fun _ => ExceptT.mk Act.never
  | depth + 1 => Build.finish fun bud =>
    ExceptT.mk fun _ w => (finish depth bud).run.runIn (host.enter depth) w

/-- The rendering of nodes in a context. -/
def render (depth : Nat) (context : Context) (nodes : List (Node Resolver)) :
    Build σ (List Shape) := do
  let buds ← Build.budsAll context nodes
  Build.finishAll (fun bud => ExceptT.mk fun _ w =>
    (host.finish depth bud).run.runIn (host.enter depth) w) buds

end Host

/-! ### Trees -/

mutual

/-- The tree of an element has this shape, and all elements in it have been made after the first so
many. -/
def Embodies (w : World σ) (n : Nat) (e : ElementId) : Shape → Prop
  | ⟨tag, attributes, children⟩ => ∃ x h, w.elements.get? e.row = some x ∧
    x.component = .headless h ∧ x.busy = false ∧ x.tag = tag ∧ h.attributes = attributes ∧
    h.mounted = x.children ∧ x.children.Nodup ∧ (∀ c ∈ x.children, n ≤ c.row) ∧
    EmbodiesAll w n x.children children

/-- The trees of several elements have these shapes, in order. -/
def EmbodiesAll (w : World σ) (n : Nat) : List ElementId → List Shape → Prop
  | [], [] => True
  | e :: es, shape :: shapes => Embodies w n e shape ∧ EmbodiesAll w n es shapes
  | _, _ => False

end

mutual

/-- A tree keeps its shape if what is touched is outside of it. -/
theorem Embodies.touched {S : ElementId → Prop} {w w' : World σ} (hw : Touches S w w') {m n : Nat}
    (hmn : m ≤ n) {e : ElementId} (he : ¬ S e) (hS : ∀ c, S c → c.row < n) :
    (shape : Shape) → Embodies w n e shape → Embodies w' m e shape
  | ⟨tag, attributes, children⟩, h => by
    rw [Embodies] at h ⊢
    obtain ⟨x, c, hx, hc, hbusy, htag, hattributes, hmounted, hnodup, hrows, hchildren⟩ := h
    refine ⟨x, c, hw.get? hx he, hc, hbusy, htag, hattributes, hmounted, hnodup,
      fun c hc => Nat.le_trans hmn (hrows c hc), ?_⟩
    refine EmbodiesAll.touched hw hmn (fun c hc hSc => ?_) hS children hchildren
    exact absurd (hS c hSc) (Nat.not_lt.mpr (hrows c hc))

theorem EmbodiesAll.touched {S : ElementId → Prop} {w w' : World σ} (hw : Touches S w w') {m n : Nat}
    (hmn : m ≤ n) {es : List ElementId} (hes : ∀ e ∈ es, ¬ S e) (hS : ∀ c, S c → c.row < n) :
    (shapes : List Shape) → EmbodiesAll w n es shapes → EmbodiesAll w' m es shapes
  | [], h => by
    cases es with
    | nil => trivial
    | cons e es => exact h.elim
  | shape :: shapes, h => by
    cases es with
    | nil => exact h.elim
    | cons e es =>
      rw [EmbodiesAll] at h ⊢
      exact ⟨Embodies.touched hw hmn (hes e List.mem_cons_self) hS shape h.1,
        EmbodiesAll.touched hw hmn (fun e he => hes e (List.mem_cons_of_mem _ he)) hS shapes h.2⟩

end

end ReactiveViews
