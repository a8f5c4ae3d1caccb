import ReactiveViews.Live.Element

/-!
# Slots

How nodes become elements. A node without a list directive makes one element or none, depending
on its condition; a node with one makes an element for each item that the condition lets
through. An element that a node has made stays in the slot of that node, and as long as nothing
speaks against it the next evaluation answers with the very same element.

## The model

What `create`, `createAll` and `spread` answer is held once, by whoever asked; when they fail
nothing stays held. `evaluate` writes the memory of its slot only when it has succeeded, or when
the condition of a single child has turned out false, and then lets go of what it made, since
the slot keeps it.

A list slot answers from memory if the list is the same and as long as it was. It looks at the
conditions again, in the contexts it remembers, and if one has changed it makes all elements
anew, but not their contexts.
-/

namespace ReactiveViews

namespace Build

variable {σ α : Type}

/-- Lets go of elements if the act fails. -/
def releasing (es : List ElementId) (act : Build σ α) : Build σ α :=
  ExceptT.mk do
    let answer ← ExceptT.run act
    if answer.toBool = false then Act.release es
    return answer

/-- Sets the attributes of an element to the values of resolvers, in order. -/
def assign (e : ElementId) (context : Context) : List (String × Resolver) → Build σ Unit
  | [] => return ()
  | (name, resolver) :: rest => do
    let v ← eval (Eval.resolve context resolver)
    component (Act.setAttribute e name v)
    assign e context rest

/-- Gives an element its handlers, in order. -/
def listen (e : ElementId) : List (String × Resolver) → Build σ Unit
  | [] => return ()
  | (event, resolver) :: rest => do
    component (Act.addListener e event (.directive e resolver))
    listen e rest

/-- Installs the updater of an element; the slots of a node's updater that it replaces are
gone. -/
def install (e : ElementId) (updater : Updater) (slots : List Slot) : Act σ Unit := do
  Act.updateElement e ({ · with updater := some updater, slots })
  Act.record (.installed e updater.number?)

/-- Sets an attribute that the tag tells, if it does. -/
def describe (e : ElementId) (name : String) : Option String → Build σ Unit
  | some text => component (Act.setAttribute e name (.str text))
  | none => return ()

/-- Gives a new element of a node what it has from the beginning: the attributes that the tag tells,
the handlers, the attributes that are set once, and its updater. -/
def furnish (e : ElementId) (node : Node Resolver) (factory : Factory) : Build σ Unit := do
  describe e "id" node.tag.id
  describe e "class" node.tag.classAttribute
  listen e node.on
  let scope ← act (Act.contextOf e)
  assign e scope node.once
  act (install e (.view node factory) (node.children.map .fresh))

/-- Makes the element of a node in a context. It has no children yet, and its bound attributes are
not set. -/
def create (node : Node Resolver) (context : Context) (factory : Factory) : Build σ ElementId := do
  let made ← component (Act.make factory node.tag.tag)
  let e ← act (Act.newElement node.tag made context)
  releasing [e] (furnish e node factory)
  return e

/-- Makes an element of a node in each of several contexts. -/
def createAll (node : Node Resolver) (factory : Factory) : List Context → Build σ (List ElementId)
  | [] => return []
  | context :: rest => do
    let e ← create node context factory
    return e :: (← releasing [e] (createAll node factory rest))

/-- The contexts whose conditions are true. -/
def shown (contexts : List Context) (conditions : List Bool) : List Context :=
  (contexts.zip conditions).filterMap fun (context, condition) =>
    if condition then some context else none

/-- The conditions of a node in several contexts, from first to last. -/
def conditions (node : Node Resolver) : List Context → Build σ (List Bool)
  | [] => return []
  | context :: rest => do
    let condition ← eval (Eval.shows context node)
    return condition :: (← conditions node rest)

/-- The contexts of the items of a list: each item under its name, in front of the others. -/
def frames (name : String) (context : Context) : List Value → Act σ (List Context)
  | [] => return []
  | item :: rest => do
    let frame ← Act.newRecord [(name, item)]
    return (frame :: context) :: (← frames name context rest)

/-- Makes the elements of a list from nothing. -/
def spread (node : Node Resolver) (factory : Factory) (name : String) (context : Context)
    (list : Value) (items : List Value) : Build σ Repetition := do
  act <| Act.message .trace do
    return "`" ++ node.path ++ "`: new list of " ++ toString items.length ++ " item(s), rebuilding"
  let contexts ← act (frames name context items)
  let conditions ← conditions node contexts
  let elements ← createAll node factory (shown contexts conditions)
  return ⟨list, contexts, conditions, elements⟩

/-- The list of a node and its items. -/
def listOf (context : Context) (resolver : Resolver) : Build σ (Value × List Value) := do
  let list ← eval (Eval.resolve context resolver)
  return (list, ← eval (Act.items list))

/-- The elements that a node makes from nothing. -/
def instantiate (node : Node Resolver) (context : Context) (factory : Factory) :
    Build σ (List ElementId) := do
  match node.repetition with
  | none =>
    if ← eval (Eval.shows context node) then return [← create node context factory]
    else return []
  | some (name, resolver) =>
    let (list, items) ← listOf context resolver
    return (← spread node factory name context list items).elements

/-! ### Evaluation with memory -/

/-- Writes the memory of a slot. -/
def remember (e : ElementId) (i : Nat) (memory : Memory) : Act σ Unit :=
  Act.updateElement e fun element =>
    { element with slots := element.slots.modify i fun slot => { slot with memory } }

/-- Evaluates a slot of a single child. -/
def evaluateSingle (e : ElementId) (i : Nat) (node : Node Resolver) (cached : Option ElementId)
    (context : Context) (factory : Factory) : Build σ (List ElementId) := do
  if ← eval (Eval.shows context node) then
    match cached with
    | some child => return [child]
    | none =>
      let child ← create node context factory
      act (remember e i (.single (some child)))
      act (Act.release [child])
      return [child]
  else
    act (remember e i (.single none))
    return []

/-- Writes a list evaluation into a slot and lets go of its new elements. -/
def settle (e : ElementId) (i : Nat) (last : Repetition) : Build σ (List ElementId) := do
  act (remember e i (.repeated (some last)))
  act (Act.release last.elements)
  return last.elements

/-- Notes that an array is shown from memory. -/
def noteKept (last : Repetition) : Act σ Unit :=
  match last.list with
  | .array a => Act.record (.kept a last.frames)
  | _ => return ()

/-- Answers from memory: with the elements that are remembered, or with new ones in the contexts
that are remembered if a condition has changed. -/
def reuse (e : ElementId) (i : Nat) (node : Node Resolver) (last : Repetition)
    (factory : Factory) : Build σ (List ElementId) := do
  let conditions ← conditions node last.contexts
  if conditions == last.conditions then return last.elements
  else
    act <| Act.message .trace do
      return "`" ++ node.path ++ "`: item conditions changed, rebuilding"
    let elements ← createAll node factory (shown last.contexts conditions)
    settle e i { last with conditions, elements }

/-- Evaluates a slot of a list. -/
def evaluateRepeated (e : ElementId) (i : Nat) (node : Node Resolver) (name : String)
    (resolver : Resolver) (last : Option Repetition) (context : Context) (factory : Factory) :
    Build σ (List ElementId) := do
  let (list, items) ← listOf context resolver
  match last with
  | some last =>
    if last.list.same list && last.contexts.length == items.length then
      act (noteKept last)
      reuse e i node last factory
    else settle e i (← spread node factory name context list items)
  | none => settle e i (← spread node factory name context list items)

/-- Evaluates the slot at a place: the elements that its node contributes now. -/
def evaluate (e : ElementId) (i : Nat) (slot : Slot) (context : Context) (factory : Factory) :
    Build σ (List ElementId) :=
  match slot.memory, slot.node.repetition with
  | .single cached, _ => evaluateSingle e i slot.node cached context factory
  | .repeated last, some (name, resolver) =>
    evaluateRepeated e i slot.node name resolver last context factory
  | .repeated _, none => return []

end Build

end ReactiveViews
