import ReactiveViews.Live.Evaluation
import ReactiveViews.Live.Headless

/-!
# Elements

What can be done to one element: its attributes, handlers and children are changed in its
component first and in the element itself only if the component agrees; its events are
handled; it is looked for by name and written down as an outline.

## The model

While a component of the host program is changed it is *busy*, and its element must not be
asked for anything that needs the component. An act that asks nevertheless never answers.
-/

namespace ReactiveViews

/-- An element shown in full: its number, its tag and how many children it has. -/
def Element.inspect (e : ElementId) (element : Element) : String :=
  "Element \x7b id: ComponentId(" ++ toString e.number ++ "), tag: " ++
    Text.quote element.tag.text ++ ", children: " ++ toString element.children.length ++ " \x7d"

namespace Act

variable {σ : Type}

/-! ### Components -/

/-- The component of an element, unless it is busy. -/
def component (e : ElementId) : Act σ Component := do
  let element ← element e
  if element.busy then never else return element.component

/-- Changes the component of an element: `own` is the change to a component that draws
nothing, `foreign` the call for one of the host program. -/
def change (e : ElementId) (own : Headless → Except ComponentError Headless)
    (foreign : Nat → Act σ (Except ComponentError Unit)) : Act σ (Except ComponentError Unit) := do
  match ← component e with
  | .headless h =>
    match own h with
    | .ok h =>
      updateElement e ({ · with component := .headless h })
      return .ok ()
    | .error error => return .error error
  | .foreign c =>
    updateElement e ({ · with busy := true })
    let answer ← foreign c
    updateElement e ({ · with busy := false })
    return answer

/-- The component that a factory makes for a tag. -/
def make (factory : Factory) (tag : String) : Act σ (Except ComponentError Component) :=
  match factory with
  | .headless => return .ok (.headless (.new tag))
  | .foreign f => enterHost (.make f tag)

/-- A new element, which is held. -/
def newElement (tag : Tag) (component : Component) (context : Context) : Act σ ElementId :=
  modifyGet fun w =>
    let e : ElementId := ⟨w.elements.size⟩
    let element : Element := ⟨tag, component, false, context, [], none, []⟩
    (e, { w with elements := w.elements.add element, held := e :: w.held })

/-! ### Attributes and children -/

/-- The value of an attribute. -/
def getAttribute (e : ElementId) (name : String) : Act σ (Except ComponentError Value) := do
  readAttribute (← component e) name

/-- Leaves a message about an attribute that is set on a component that draws nothing. -/
def announce (component : Component) (name : String) (v : Value) : Act σ Unit :=
  match component with
  | .headless h => message .trace do return "<" ++ h.tag ++ "> " ++ name ++ " = " ++ (← text v)
  | .foreign _ => return ()

/-- Sets an attribute. -/
def setAttribute (e : ElementId) (name : String) (v : Value) :
    Act σ (Except ComponentError Unit) := do
  announce (← component e) name v
  change e (.ok <| ·.setAttribute name v) fun c => enterHost (.setAttribute c name v)

/-- Adds a handler of an event. -/
def addListener (e : ElementId) (event : String) (handler : Handler) :
    Act σ (Except ComponentError Unit) :=
  change e (.ok <| ·.addListener event handler) fun c => enterHost (.addListener c event handler)

/-- Changes the children of an element once its component has agreed. -/
def changeChildren (e : ElementId) (answer : Except ComponentError Unit)
    (f : List ElementId → List ElementId) : Act σ (Except ComponentError Unit) := do
  if answer.isOk then updateElement e fun element => { element with children := f element.children }
  return answer

/-- Adds a child at the end. -/
def appendChild (e child : ElementId) : Act σ (Except ComponentError Unit) := do
  let answer ← change e (.ok <| ·.mount child) fun c => enterHost (.appendChild c child)
  changeChildren e answer (· ++ [child])

/-- Removes a child, wherever it stands. -/
def removeChild (e child : ElementId) : Act σ (Except ComponentError Unit) := do
  let answer ← change e (·.unmount child) fun c => enterHost (.removeChild c child)
  changeChildren e answer (·.filter (· ≠ child))

/-- Removes all children. -/
def clearChildren (e : ElementId) : Act σ (Except ComponentError Unit) := do
  let answer ← change e (.ok ·.clear) fun c => enterHost (.clearChildren c)
  changeChildren e answer fun _ => []

/-! ### Events -/

/-- The handlers of an event. -/
def listeners (e : ElementId) (event : String) : Act σ (Except ComponentError (List Handler)) := do
  match ← component e with
  | .headless h => return .ok (h.handlers event)
  | .foreign c => enterHost (.listeners c event)

/-- Lets a handler handle an event. A directive is evaluated in the context of its element,
with the event under its name in front; a dead element handles nothing. -/
def handle (handler : Handler) (event : Value) : Act σ (Except EvalError Value) := do
  match handler with
  | .directive target resolver =>
    if ← alive target then
      holding [target] do
        let frame ← newRecord [("event", event)]
        let context ← contextOf target
        (Eval.resolve (frame :: context) resolver).run
    else return .ok .undefined
  | .foreign h => enterHost (.handle h event)

/-- Lets handlers handle an event one after the other; the first failure ends it. -/
def handleAll (event : Value) : List Handler → Act σ (Except ComponentError (List Value))
  | [] => return .ok []
  | handler :: rest => do
    match ← handle handler event with
    | .error error => return .error (.handler error)
    | .ok value => return (← handleAll event rest).map (value :: ·)

/-- Sends an event to the handlers of an element. -/
def dispatch (e : ElementId) (name : String) (event : Value) :
    Act σ (Except ComponentError (List Value)) := do
  match ← listeners e name with
  | .error error => return .error error
  | .ok handlers => handleAll event handlers

/-! ### Looking at a tree -/

/-- The first element of a name in document order, at most `depth` levels down. -/
def findWithin (w : World σ) (name : String) : Nat → ElementId → Option ElementId
  | 0, _ => none
  | depth + 1, e => do
    let element ← w.elements.get? e.row
    if element.tag.name = some name then return e
    else element.children.findSome? (findWithin w name depth)

/-- The first element of a name in document order. No path without repetition is longer than
there are elements. -/
def find (e : ElementId) (name : String) : Act σ (Option ElementId) := do
  let w ← get
  return findWithin w name (w.elements.size + 1) e

/-- The texts of the attributes in an outline: all but those that the tag tells. -/
def outlineAttributes : Fields Value → Act σ (List String)
  | [] => return []
  | (name, v) :: rest => do
    if name = "id" ∨ name = "class" then outlineAttributes rest
    else
      let line := name ++ "=" ++ (← text v)
      return line :: (← outlineAttributes rest)

/-- The texts of several elements, one after the other. -/
def concat (text : ElementId → Act σ String) : List ElementId → Act σ String
  | [] => return ""
  | e :: rest => do
    let first ← text e
    return first ++ (← concat text rest)

/-- The outline of an element and what is below it, at most `levels` deep: a line for each
element, indented by its depth. -/
def outlineWithin : (levels depth : Nat) → ElementId → Act σ String
  | 0, _, _ => never
  | levels + 1, depth, e => do
    let attributes ← outlineAttributes (← readAttributes (← component e))
    let element ← element e
    let indent := String.ofList (List.replicate (2 * depth) ' ')
    let shown :=
      if attributes.isEmpty then "" else " [" ++ String.intercalate ", " attributes ++ "]"
    let below ← concat (outlineWithin levels (depth + 1)) element.children
    return indent ++ element.tag.text ++ shown ++ "\n" ++ below

/-- The outline of a tree. -/
def outline (e : ElementId) : Act σ String := do
  outlineWithin ((← get).elements.size + 1) 0 e

end Act

end ReactiveViews
