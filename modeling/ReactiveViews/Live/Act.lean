import ReactiveViews.Live.World

/-!
# Acts

What the library does to the world, and where the host program comes in. Functions, objects,
components, handlers and updaters of the host program are called in the middle of evaluations
and updates, and may themselves evaluate, update and run batches. So an act does not know the
host program: it is given a way to `enter` a call, and everything that can lead back into the
library goes through it.

## The model

An act takes that way to enter calls and a world, and gives an answer and a world. There is no
answer if it would never come: the host program hangs, a text has no end, a component is used in
the middle of a change, or calls are nested deeper than was allowed. The world at that moment
is kept.
-/

namespace ReactiveViews

/-! ### Calls -/

/-- A call of the host program. -/
inductive HostCall where
  /-- A function is applied to arguments, for a receiver. -/
  | apply (f : Function) (receiver : Value) (args : List Value)
  /-- A property of an object is read. -/
  | getOwn (object : Nat) (key : String)
  /-- The keys of an object are asked for. -/
  | keys (object : Nat)
  /-- A property of an object is written. -/
  | set (object : Nat) (key : String) (value : Value)
  /-- A factory makes a component for a tag. -/
  | make (factory : Nat) (tag : String)
  /-- An attribute of a component is read. -/
  | getAttribute (component : Nat) (name : String)
  /-- An attribute of a component is written. -/
  | setAttribute (component : Nat) (name : String) (value : Value)
  /-- A handler is given to a component. -/
  | addListener (component : Nat) (event : String) (handler : Handler)
  /-- A component shows a child. -/
  | appendChild (component : Nat) (child : ElementId)
  /-- A component stops showing a child. -/
  | removeChild (component : Nat) (child : ElementId)
  /-- A component stops showing its children. -/
  | clearChildren (component : Nat)
  /-- The handlers of an event are asked for. -/
  | listeners (component : Nat) (event : String)
  /-- The attributes of a component are asked for. -/
  | attributes (component : Nat)
  /-- A handler is told of an event. -/
  | handle (handler : Nat) (event : Value)
  /-- An updater runs for an element. -/
  | refresh (updater : Nat) (e : ElementId)

/-- What a call of the host program is answered with. -/
def HostCall.Reply : HostCall → Type
  | apply .. | handle .. => Except EvalError Value
  | getOwn .. => Option Value
  | keys .. => List String
  | set .. => Bool
  | make .. => Except ComponentError Component
  | getAttribute .. => Except ComponentError Value
  | setAttribute .. | addListener .. | appendChild .. | removeChild .. | clearChildren .. =>
    Except ComponentError Unit
  | listeners .. => Except ComponentError (List Handler)
  | attributes .. => Fields Value
  | refresh .. => Except ViewError Unit

/-- A call that can be entered: of the host program, or of the library for something that is
done to the parts of a thing in the same way as to the thing. -/
inductive Call where
  /-- A call of the host program. -/
  | host (call : HostCall)
  /-- An element and all below it are brought up to date. -/
  | update (e : ElementId)
  /-- A value is shown in full. -/
  | inspect (v : Value)

/-- What a call is answered with. -/
def Call.Reply : Call → Type
  | host call => call.Reply
  | update _ => Except ViewError Unit
  | inspect _ => String

/-- A way to enter calls. -/
abbrev Enter (σ : Type) := (call : Call) → World σ → Option call.Reply × World σ

/-! ### Acts -/

/-- Something done to the world, with the help of a way to enter calls. -/
abbrev Act (σ : Type) := ReaderT (Enter σ) (OptionT (StateM (World σ)))

namespace Act

variable {σ α : Type}

/-- Runs an act. -/
def runIn (act : Act σ α) (enter : Enter σ) (w : World σ) : Option α × World σ := act enter w

/-- The answer never comes. -/
def never : Act σ α := fun _ w => (none, w)

/-- Enters a call. -/
def enter (call : Call) : Act σ call.Reply := fun e w => e call w

/-- Enters a call of the host program. -/
def enterHost (call : HostCall) : Act σ call.Reply := enter (.host call)

/-- An answer that may be missing, in which case it never comes. -/
def ofOption : Option α → Act σ α
  | some a => pure a
  | none => never

/-- Adds to the journal. -/
def record (event : Event) : Act σ Unit := modify (·.record event)

/-- Leaves a message, if messages of its level are wanted; only then is it put together. -/
def message (level : Level) (text : Act σ String) : Act σ Unit := do
  if (← get).wants level then
    let text ← text
    record (.message level text)

/-- An element; there is none at a row that was never given out. -/
def element (e : ElementId) : Act σ Element := do
  ofOption ((← get).elements.get? e.row)

/-- Changes an element. -/
def updateElement (e : ElementId) (f : Element → Element) : Act σ Unit :=
  modify (·.updateElement e f)

/-- Whether an element is alive. -/
def alive (e : ElementId) : Act σ Bool := return (← get).alive e

/-- Holds elements. -/
def hold (es : List ElementId) : Act σ Unit := modify fun w => { w with held := es ++ w.held }

/-- Lets go of elements, of each as often as it is listed. -/
def release (es : List ElementId) : Act σ Unit :=
  modify fun w => { w with held := es.foldl List.erase w.held }

/-- Holds elements while an act runs. -/
def holding (es : List ElementId) (act : Act σ α) : Act σ α := do
  hold es
  let a ← act
  release es
  return a

/-- A new array. -/
def newArray (items : List Value) : Act σ Value :=
  modifyGet fun w =>
    let (a, store) := w.store.newArray items
    (.array a, { w with store })

/-- A new record. -/
def newRecord (fields : Fields Value) : Act σ Value :=
  modifyGet fun w =>
    let (r, store) := w.store.newRecord fields
    (.object (.record r), { w with store })

/-- The text of a value. -/
def text (v : Value) : Act σ String := do ofOption ((← get).store.text v)

/-- The scopes for expressions of an element: the element itself, then those around it. -/
def contextOf (e : ElementId) : Act σ Context := do
  let element ← element e
  modifyGet fun w =>
    (.object (.scope w.marks e) :: element.context, { w with marks := w.marks + 1 })

/-- The remarks of a compilation as messages, and its result. -/
def traced {ε : Type} (x : Traced ε α) : Act σ (Except ε α) := do
  x.remarks.forM fun r => message .trace (pure (render r))
  return x.result
where
  /-- The wording of a remark. -/
  render : Remark → String
    | .expression src tokens =>
      "compiling expression " ++ Text.quote src ++ " (" ++ toString tokens ++ " top-level token(s))"
    | .interpolation src parts =>
      "compiled template " ++ Text.quote src ++ " into " ++ toString parts ++ " part(s)"
    | .node path => "compiling view node `" ++ path ++ "`"

end Act

/-- An act that can fail in evaluation. -/
abbrev Eval (σ : Type) := ExceptT EvalError (Act σ)

/-- An act that can fail as a view can. -/
abbrev Build (σ : Type) := ExceptT ViewError (Act σ)

/-- An act that cannot fail, as a part of an evaluation. -/
def Eval.act {σ α : Type} (act : Act σ α) : Eval σ α := ExceptT.lift act

namespace Build

variable {σ α : Type}

/-- An act that cannot fail, as a part of building. -/
def act (act : Act σ α) : Build σ α := ExceptT.lift act

/-- An evaluation as a part of building. -/
def eval (act : Act σ (Except EvalError α)) : Build σ α :=
  ExceptT.mk ((·.mapError .eval) <$> act)

/-- Work of a component as a part of building. -/
def component (act : Act σ (Except ComponentError α)) : Build σ α :=
  ExceptT.mk ((·.mapError .component) <$> act)

end Build

end ReactiveViews
