import ReactiveViews.Live.Update
import ReactiveViews.Live.Script
import ReactiveViews.Proofs.Live.Evaluations

/-!
# Drawing a node

What the tree of a node looks like, computed without elements, slots and memory: the contexts in
which its child nodes are shown, the texts of its attributes, and the same again for each child.
The contexts hold no elements, so an expression cannot ask for what an element owns.

A *picture* is what there is to see of a tree: the tag of each element, its attributes in order with
their texts, and its children in order.

## The model

`Host.draw` asks for everything in the order in which an update does: the contexts of all children,
then the attributes, then what is inside of the children, for which it enters a call less deep. It
ends and fails with the evaluations in it, and where messages are wanted that need the text of an
attribute, it needs the text as well.
-/

namespace ReactiveViews

variable {σ : Type}

/-! ### Nodes and what is below them -/

mutual

/-- A node and all nodes below it. -/
def Node.family {ρ : Type} : Node ρ → List (Node ρ)
  | ⟨tag, path, once, bind, on, repetition, condition, children⟩ =>
    ⟨tag, path, once, bind, on, repetition, condition, children⟩ :: Node.familyAll children

/-- Several nodes and all nodes below them. -/
def Node.familyAll {ρ : Type} : List (Node ρ) → List (Node ρ)
  | [] => []
  | node :: rest => node.family ++ Node.familyAll rest

end

mutual

/-- How many nodes there may be below a node, one inside of the other. -/
def Node.height {ρ : Type} : Node ρ → Nat
  | ⟨_, _, _, _, _, _, _, children⟩ => Node.heightAll children

/-- How many of these nodes may be inside of each other. -/
def Node.heightAll {ρ : Type} : List (Node ρ) → Nat
  | [] => 0
  | node :: rest => max (node.height + 1) (Node.heightAll rest)

end

namespace Node

theorem family_eq {ρ : Type} (node : Node ρ) : node.family = node :: familyAll node.children := by
  cases node
  rw [family]

theorem mem_family_self {ρ : Type} (node : Node ρ) : node ∈ node.family := by
  rw [family_eq]
  exact List.mem_cons_self

theorem family_subset_familyAll {ρ : Type} {node : Node ρ} {nodes : List (Node ρ)}
    (h : node ∈ nodes) : node.family ⊆ familyAll nodes := by
  induction nodes with
  | nil => cases h
  | cons first rest ih =>
    rw [familyAll]
    rcases List.mem_cons.mp h with rfl | h
    · exact List.subset_append_left _ _
    · exact List.subset_append_of_subset_right _ (ih h)

theorem family_subset {ρ : Type} {node child : Node ρ} (h : child ∈ node.children) :
    child.family ⊆ node.family := by
  rw [family_eq node]
  exact List.subset_cons_of_subset _ (family_subset_familyAll h)

theorem height_lt_of_mem {nodes : List (Node Resolver)} {node : Node Resolver} (h : node ∈ nodes) :
    node.height < heightAll nodes := by
  induction nodes with
  | nil => cases h
  | cons first rest ih =>
    rw [heightAll]
    rcases List.mem_cons.mp h with rfl | h
    · omega
    · have := ih h
      omega

theorem height_child {node child : Node Resolver} (h : child ∈ node.children) :
    child.height < node.height := by
  cases node
  exact height_lt_of_mem h

/-- The values of the directives of a node itself. -/
def directives (node : Node Resolver) : List Resolver :=
  (node.once ++ node.bind ++ node.on ++ node.repetition.toList).map (·.2) ++ node.condition.toList

/-- The names that the expressions of a node and of all nodes below it look up. -/
def names (node : Node Resolver) : List String :=
  node.family.flatMap fun n => n.directives.flatMap Resolver.names

/-- The constants of a node and of all nodes below it. -/
def constants (node : Node Resolver) : List Value :=
  node.family.flatMap fun n => n.directives.flatMap Resolver.constants

/-- The names that an element of a node owns as a scope. -/
def reserved (node : Node Resolver) : List String :=
  "tag" :: "id" :: "class" :: (node.once ++ node.bind).map (·.1)

/-- No expression in a node or below it looks up what an element of the node owns, and this goes for
every node below it as well. -/
def CaptureFree (node : Node Resolver) : Prop :=
  ∀ n ∈ node.family, ∀ name ∈ n.names, name ∉ n.reserved

instance (node : Node Resolver) : Decidable node.CaptureFree :=
  inferInstanceAs (Decidable (∀ n ∈ node.family, ∀ name ∈ n.names, name ∉ n.reserved))

/-- Neither a node nor any node below it has attributes that are set once. -/
def OnceFree (node : Node Resolver) : Prop := ∀ n ∈ node.family, n.once = []

instance (node : Node Resolver) : Decidable node.OnceFree :=
  decidable_of_iff (∀ n ∈ node.family, n.once.isEmpty) (by simp [OnceFree])

/-- What a node has to be like so that its elements show nothing but the data. -/
structure Lucid (D : Scene σ) (node : Node Resolver) : Prop where
  /-- Elements own nothing that is looked up. -/
  captureFree : node.CaptureFree
  /-- All attributes are set at every update. -/
  onceFree : node.OnceFree
  /-- The constants belong to the data. -/
  constants : ∀ v ∈ node.constants, D.Holds v

theorem names_subset {node child : Node Resolver} (h : child ∈ node.children) :
    child.names ⊆ node.names := by
  intro name hname
  obtain ⟨n, hn, hname⟩ := List.mem_flatMap.mp hname
  exact List.mem_flatMap.mpr ⟨n, family_subset h hn, hname⟩

theorem Lucid.child {D : Scene σ} {node child : Node Resolver} (h : node.Lucid D)
    (hchild : child ∈ node.children) : child.Lucid D where
  captureFree n hn := h.captureFree n (family_subset hchild hn)
  onceFree n hn := h.onceFree n (family_subset hchild hn)
  constants v hv := by
    obtain ⟨n, hn, hv⟩ := List.mem_flatMap.mp hv
    exact h.constants v (List.mem_flatMap.mpr ⟨n, family_subset hchild hn, hv⟩)

theorem names_of_directive {node : Node Resolver} {resolver : Resolver}
    (h : resolver ∈ node.directives) : resolver.names ⊆ node.names := fun _ hname =>
  List.mem_flatMap.mpr ⟨node, node.mem_family_self, List.mem_flatMap.mpr ⟨resolver, h, hname⟩⟩

theorem Lucid.directive {D : Scene σ} {node : Node Resolver} (h : node.Lucid D)
    {resolver : Resolver} (hresolver : resolver ∈ node.directives) :
    ∀ v ∈ resolver.constants, D.Holds v := fun v hv =>
  h.constants v <|
    List.mem_flatMap.mpr ⟨node, node.mem_family_self, List.mem_flatMap.mpr ⟨resolver, hresolver, hv⟩⟩

theorem mem_directives_once {node : Node Resolver} {entry : String × Resolver}
    (h : entry ∈ node.once) : entry.2 ∈ node.directives := by
  simp only [directives, List.mem_append, List.mem_map]
  exact .inl ⟨entry, by simp [h], rfl⟩

theorem mem_directives_bind {node : Node Resolver} {entry : String × Resolver}
    (h : entry ∈ node.bind) : entry.2 ∈ node.directives := by
  refine List.mem_append_left _ (List.mem_map.mpr ⟨entry, ?_, rfl⟩)
  simp [h]

theorem mem_directives_repetition {node : Node Resolver} {name : String} {resolver : Resolver}
    (h : node.repetition = some (name, resolver)) : resolver ∈ node.directives := by
  refine List.mem_append_left _ (List.mem_map.mpr ⟨(name, resolver), ?_, rfl⟩)
  simp [h]

theorem mem_directives_condition {node : Node Resolver} {resolver : Resolver}
    (h : resolver ∈ node.condition) : resolver ∈ node.directives := by
  refine List.mem_append_right _ ?_
  simpa using h

end Node

/-! ### Pictures -/

/-- What there is to see of a tree. -/
structure Picture where
  /-- The tag of the element. -/
  tag : Tag
  /-- Its attributes in order with their texts; there is none if it would not end. -/
  attributes : Fields (Option String)
  /-- Its children in order. -/
  children : List Picture

/-- The attributes that a tag tells. -/
def Tag.attributes (tag : Tag) : Fields String :=
  (tag.id.map ("id", ·)).toList ++ (tag.classAttribute.map ("class", ·)).toList

namespace Build

/-- The contexts in which a node makes an element. -/
def seeds (node : Node Resolver) (context : Context) : Build σ (List Context) := do
  match node.repetition with
  | none => if ← eval (Eval.shows context node) then return [context] else return []
  | some (name, resolver) =>
    let (_, items) ← listOf context resolver
    let contexts ← act (frames name context items)
    let conditions ← conditions node contexts
    return shown contexts conditions

/-- The nodes and contexts in which the children of an element are made, in order. -/
def sow (context : Context) : List (Node Resolver) → Build σ (List (Node Resolver × Context))
  | [] => return []
  | node :: rest => do
    let contexts ← seeds node context
    return contexts.map (node, ·) ++ (← sow context rest)

/-- Writes the texts of bound attributes over others, in order. -/
def read (context : Context) :
    List (String × Resolver) → Fields (Option String) → Build σ (Fields (Option String))
  | [], fields => return fields
  | (name, resolver) :: rest, fields => do
    let v ← eval (Eval.resolve context resolver)
    act (Act.message .trace (Act.text v))
    let w ← act get
    read context rest (fields.put name (w.store.text v))

/-- What an element of a node needs: the nodes and contexts of its children, and its attributes with
their texts. -/
def plan (node : Node Resolver) (context : Context) :
    Build σ (List (Node Resolver × Context) × Fields (Option String)) := do
  let seeds ← sow context node.children
  let attributes ← read context node.bind (node.tag.attributes.map fun (name, text) => (name, some text))
  return (seeds, attributes)

/-- Draws several nodes in order. -/
def drawAll (draw : Node Resolver → Context → Build σ Picture) :
    List (Node Resolver × Context) → Build σ (List Picture)
  | [] => return []
  | (node, context) :: rest => do
    let picture ← draw node context
    return picture :: (← drawAll draw rest)

/-- Draws a node, given a way to draw its children. -/
def sketch (draw : Node Resolver → Context → Build σ Picture) (node : Node Resolver)
    (context : Context) : Build σ Picture := do
  let (seeds, attributes) ← plan node context
  return ⟨node.tag, attributes, ← drawAll draw seeds⟩

end Build

/-- Draws a node; its children are drawn by calls at most `depth` deep. -/
def Host.draw (host : Host σ) : Nat → Node Resolver → Context → Build σ Picture
  | 0 => Build.sketch fun _ _ => ExceptT.mk Act.never
  | depth + 1 => Build.sketch fun node context =>
    ExceptT.mk fun _ w => (host.draw depth node context).run.runIn (host.enter depth) w

end ReactiveViews
