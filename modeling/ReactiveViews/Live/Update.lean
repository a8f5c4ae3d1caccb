import ReactiveViews.Live.Slot

/-!
# Updates

Bringing an element and all below it up to date, building a view, and installing other updaters.

## The model

An updater is taken out of its element while it runs. Afterwards it is put back, unless another
one has been installed in the meantime; then it is gone, and with a node's updater its slots.
Then the children that the element has by now are updated. All of them are held at first, and
each is let go when its turn is over, so that a child that was removed in the meantime is dead
for its later siblings. The first failure ends an update.

The updater of a node takes all children away, evaluates the slots in order and appends what
they contribute, and then sets the bound attributes.
-/

namespace ReactiveViews

namespace Build

variable {σ α : Type}

/-- Appends children in order. -/
def append (e : ElementId) : List ElementId → Build σ Unit
  | [] => return ()
  | child :: rest => do
    component (Act.appendChild e child)
    append e rest

/-- Fills the slots from the `i`-th on. -/
def fill (e : ElementId) (context : Context) (factory : Factory) (i : Nat) :
    List Slot → Build σ Unit
  | [] => return ()
  | slot :: rest => do
    append e (← evaluate e i slot context factory)
    fill e context factory (i + 1) rest

/-- What the updater of a node does. -/
def refresh (e : ElementId) (node : Node Resolver) (factory : Factory) : Build σ Unit := do
  let scope ← act (Act.contextOf e)
  let slots := (← act (Act.element e)).slots
  if !slots.isEmpty then
    component (Act.clearChildren e)
    fill e scope factory 0 slots
  assign e scope node.bind

end Build

namespace Act

variable {σ : Type}

/-- Installs an updater of the host program. -/
def setUpdater (e : ElementId) (updater : Nat) : Act σ Unit := do
  updateElement e fun element =>
    let slots := if element.updater.any Updater.isView then [] else element.slots
    { element with updater := some (.foreign updater), slots }
  record (.installed e (some updater))

/-- Takes the updater out of an element. -/
def takeUpdater (e : ElementId) : Act σ (Option Updater) := do
  let element ← element e
  updateElement e ({ · with updater := none })
  return element.updater

/-- Puts an updater back that has run. If there is another one by now, the one that has run
is gone, and the slots with it if they were its own. -/
def putBack (e : ElementId) (updater : Updater) : Act σ Unit :=
  updateElement e fun element =>
    match element.updater with
    | none => { element with updater := some updater }
    | some _ => if updater.isView then { element with slots := [] } else element

/-- Runs an updater. -/
def runUpdater (e : ElementId) (updater : Updater) : Act σ (Except ViewError Unit) :=
  match updater with
  | .view node factory => ExceptT.run (Build.refresh e node factory)
  | .foreign u => enterHost (.refresh u e)

/-- Runs the updater of an element, if it has one, and puts it back. -/
def updateSelf (e : ElementId) : Act σ (Except ViewError Unit) := do
  match ← takeUpdater e with
  | none => return .ok ()
  | some updater =>
    record (.updating e updater.number?)
    let answer ← runUpdater e updater
    putBack e updater
    record (.updated e updater.number? answer.isOk)
    return answer

/-- Updates an element and all below it by entering the call. -/
def enterUpdate (e : ElementId) : Act σ (Except ViewError Unit) := enter (.update e)

/-- Updates elements one after the other. Each of them is held when it begins, and let go once
it has been updated; the first failure ends it and lets go of the rest. -/
def updateAll : List ElementId → Act σ (Except ViewError Unit)
  | [] => return .ok ()
  | e :: rest => do
    let answer ← enterUpdate e
    release [e]
    match answer with
    | .ok () => updateAll rest
    | .error error =>
      release rest
      return .error error

/-- Updates an element and all below it. -/
def update (e : ElementId) : Act σ (Except ViewError Unit) :=
  holding [e] do
    match ← updateSelf e with
    | .error error => return .error error
    | .ok () =>
      let children := (← element e).children
      hold children
      updateAll children

end Act

/-! ### Building -/

namespace Build

variable {σ : Type}

/-- The elements that several nodes make from nothing, in order. -/
def instantiateAll (context : Context) (factory : Factory) :
    List (Node Resolver) → Build σ (List ElementId)
  | [] => return []
  | node :: rest => do
    let made ← instantiate node context factory
    return made ++ (← releasing made (instantiateAll context factory rest))

/-- Builds a view: its one root, with all below it, which is held. -/
def build (view : View Resolver) (context : Context) (factory : Factory) : Build σ ElementId := do
  match ← instantiateAll context factory view.roots with
  | [root] =>
    releasing [root] (ExceptT.mk (Act.enterUpdate root))
    let element ← act (Act.element root)
    act <| Act.message .debug do
      return "built view rooted at `" ++ element.tag.text ++ "` (" ++ root.text ++ ")"
    return root
  | made =>
    act (Act.release made)
    throw (.rootCount made.length)

end Build

/-! ### Loading -/

/-- Puts the constant of a directive into the store. -/
def Source.load (s : Store) : Source → Resolver × Store
  | .text parts => (.text parts, s)
  | .constant value =>
    let (v, s) := s.load value
    (.constant v, s)

/-- Puts the constants of named directives into the store. -/
def Source.loadAll (s : Store) : List (String × Source) → List (String × Resolver) × Store
  | [] => ([], s)
  | (name, source) :: rest =>
    let (resolver, s) := source.load s
    let (resolvers, s) := Source.loadAll s rest
    ((name, resolver) :: resolvers, s)

mutual

/-- Puts the constants of a node and of all below it into the store. -/
def Node.load (s : Store) : Node Source → Node Resolver × Store
  | ⟨tag, path, once, bind, on, repetition, condition, children⟩ =>
    let (once, s) := Source.loadAll s once
    let (bind, s) := Source.loadAll s bind
    let (on, s) := Source.loadAll s on
    let (repetition, s) := match repetition with
      | none => (none, s)
      | some (name, source) =>
        let (resolver, s) := source.load s
        (some (name, resolver), s)
    let (condition, s) := match condition with
      | none => (none, s)
      | some source =>
        let (resolver, s) := source.load s
        (some resolver, s)
    let (children, s) := Node.loadAll s children
    (⟨tag, path, once, bind, on, repetition, condition, children⟩, s)

/-- Puts the constants of several nodes into the store. -/
def Node.loadAll (s : Store) : List (Node Source) → List (Node Resolver) × Store
  | [] => ([], s)
  | node :: rest =>
    let (node, s) := node.load s
    let (nodes, s) := Node.loadAll s rest
    (node :: nodes, s)

end

namespace Act

variable {σ : Type}

/-- Puts a JSON value into the store. -/
def load (value : Json) : Act σ Value :=
  modifyGet fun w =>
    let (v, store) := w.store.load value
    (v, { w with store })

/-- Compiles a template and puts its constants into the store. -/
def compileView (template : Template) : Act σ (Except ViewError (View Resolver)) := do
  match ← traced (View.compile template) with
  | .error error => return .error error
  | .ok view =>
    modifyGet fun w =>
      let (roots, store) := Node.loadAll w.store view.roots
      (.ok ⟨roots⟩, { w with store })

/-- Compiles the value of a directive and puts its constant into the store. -/
def compileSource (value : Json) : Act σ (Except Fault Resolver) := do
  match ← traced (Source.compile value) with
  | .error fault => return .error fault
  | .ok source =>
    modifyGet fun w =>
      let (resolver, store) := source.load w.store
      (.ok resolver, { w with store })

/-- Compiles an expression. -/
def compileExpression (src : String) : Act σ (Except Fault Resolver) := do
  return (← traced (Chain.compile src)).map fun chain => .text [.chain chain]

end Act

end ReactiveViews
