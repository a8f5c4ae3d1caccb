import ReactiveViews.Template.Entry
import ReactiveViews.Expr.Interpolation

/-!
# Views

A view is a template whose expressions have been compiled, so that a fault in any of them is
found when the view is made and not when it is shown. It is a tree of nodes; a node gathers
the directives of one object by their kind and its children in order.

The values of directives that are no texts stand for themselves. They are kept as JSON here,
and become values when the view is loaded into a store.
-/

namespace ReactiveViews

/-- The compiled value of a directive: a text with its expressions, or a constant. -/
inductive Source where
  /-- A text. -/
  | text (parts : List Part)
  /-- A JSON value that is no text. -/
  | constant (value : Json)
  deriving Inhabited

/-- Compiles the value of a directive. -/
def Source.compile : Json → Traced Fault Source
  | .string s => .text <$> Part.compileText s
  | other => pure (.constant other)

/-- A node of a view, with `ρ` for the values of its directives. -/
structure Node (ρ : Type) where
  /-- Its tag descriptor. -/
  tag : Tag
  /-- The keys that lead to it. -/
  path : String
  /-- Attributes that are set once. -/
  once : List (String × ρ)
  /-- Attributes that are set at every update. -/
  bind : List (String × ρ)
  /-- Handlers of events. -/
  on : List (String × ρ)
  /-- The list directive: the name of an item, and the list. -/
  repetition : Option (String × ρ)
  /-- The condition. -/
  condition : Option ρ
  /-- The nodes of the children in order. -/
  children : List (Node ρ)
  deriving Inhabited

/-- A node without directives and children. -/
def Node.bare {ρ : Type} (tag : Tag) (path : String) : Node ρ :=
  ⟨tag, path, [], [], [], none, none, []⟩

/-- Compiles the value of the directive at a path. -/
def Source.compileAt (path : String) (value : Json) : Traced ViewError Source :=
  (Source.compile value).mapError (.expression path)

/-- Classifies the entry at a path. -/
def Entry.classifyAt (path key : String) (value : Json) : Except ViewError Entry :=
  (Entry.classify key value).mapError (.template (some path))

mutual

/-- Compiles the object of a node, whose tag and path are known. -/
def Node.compile (tag : Tag) (path : String) : Json → Traced ViewError (Node Source)
  | .object members => do
    Traced.remark (.node path)
    Node.compileEntries (.bare tag path) members
  | _ => pure (.bare tag path)

/-- Compiles the entries of a node one after the other into the node as it is so far. -/
def Node.compileEntries (node : Node Source) :
    List (String × Json) → Traced ViewError (Node Source)
  | [] => pure node
  | (key, value) :: rest => do
    let path := node.path ++ "/" ++ key
    match ← Traced.lift (Entry.classifyAt path key value) with
    | .once name =>
      let source ← Source.compileAt path value
      Node.compileEntries { node with once := node.once ++ [(name, source)] } rest
    | .bind name =>
      let source ← Source.compileAt path value
      Node.compileEntries { node with bind := node.bind ++ [(name, source)] } rest
    | .on event =>
      let source ← Source.compileAt path value
      Node.compileEntries { node with on := node.on ++ [(event, source)] } rest
    | .forEach name =>
      if node.repetition.isSome then
        Traced.lift (.error (.template (some path) .secondRepeat))
      else
        let source ← Source.compileAt path value
        Node.compileEntries { node with repetition := some (name, source) } rest
    | .condition =>
      let source ← Source.compileAt path value
      Node.compileEntries { node with condition := some source } rest
    | .child tag =>
      let child ← Node.compile tag path value
      Node.compileEntries { node with children := node.children ++ [child] } rest

end

/-- Compiles the entries of a template, each of which must be a child. -/
def Node.compileRoots : List (String × Json) → Traced ViewError (List (Node Source))
  | [] => pure []
  | (key, value) :: rest => do
    match ← Traced.lift (Entry.classifyAt key key value) with
    | .child tag =>
      let root ← Node.compile tag key value
      return root :: (← Node.compileRoots rest)
    | _ => Traced.lift (.error (.template (some key) .directiveAtRoot))

/-- A view: the nodes at the root of its template. -/
structure View (ρ : Type) where
  /-- The nodes in order. -/
  roots : List (Node ρ)
  deriving Inhabited

/-- Compiles a template. -/
def View.compile (template : Template) : Traced ViewError (View Source) :=
  (⟨·⟩) <$> Node.compileRoots template.entries

end ReactiveViews
