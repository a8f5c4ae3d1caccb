import ReactiveViews.Live.Act
import ReactiveViews.Live.Headless

/-!
# Properties

What values own by name. Arrays and texts own their length and their items; records own their
fields; an element as a scope owns its tag and the attributes of its component; an object of
the host program owns what it says. Anything else owns nothing.

An element that is dead owns nothing, and one whose component is in the middle of a change owns
nothing but its tag.
-/

namespace ReactiveViews.Act

variable {σ : Type}

/-- The attribute of a component. -/
def readAttribute (component : Component) (name : String) : Act σ (Except ComponentError Value) :=
  match component with
  | .headless h => return .ok (h.attributeValue name)
  | .foreign c => enterHost (.getAttribute c name)

/-- All attributes of a component. -/
def readAttributes (component : Component) : Act σ (Fields Value) :=
  match component with
  | .headless h => return h.attributes
  | .foreign c => enterHost (.attributes c)

/-- What an element owns as a scope. -/
def scopeGetOwn (e : ElementId) (key : String) : Act σ (Option Value) := do
  if ← alive e then
    let element ← element e
    if key = "tag" then return some (.str element.tag.tag)
    else if element.busy then return none
    else holding [e] do return (← readAttribute element.component key).toOption
  else return none

/-- The keys of an element as a scope. -/
def scopeKeys (e : ElementId) : Act σ (List String) := do
  if ← alive e then
    let element ← element e
    if element.busy then return ["tag"]
    else holding [e] do return "tag" :: (← readAttributes element.component).keys
  else return []

/-- The property that a value owns under a name. -/
def getOwn (v : Value) (key : String) : Act σ (Option Value) :=
  match v with
  | .array a => return sequenceProperty ((← get).store.items a) key
  | .str s => return sequenceProperty (characters s) key
  | .object (.record r) => return ((← get).store.fields r).get? key
  | .object (.scope _ e) => scopeGetOwn e key
  | .object (.foreign o _) => enterHost (.getOwn o key)
  | _ => return none

/-- The property of a value under a name, undefined if it does not own it. -/
def getNamed (v : Value) (key : String) : Act σ Value :=
  return (← getOwn v key).getD .undefined

/-- The property of a value under the text of a key. -/
def getKeyed (v key : Value) : Act σ Value := do getNamed v (← text key)

/-- The keys of an object in order. -/
def keys : Object → Act σ (List String)
  | .record r => return ((← get).store.fields r).keys
  | .scope _ e => scopeKeys e
  | .foreign o _ => enterHost (.keys o)

/-- Writes a property of an object; the answer tells whether it was taken. Elements take
none. -/
def setOwn (o : Object) (key : String) (value : Value) : Act σ Bool :=
  match o with
  | .record r => do
    modify fun w => { w with store := w.store.setFields r ((w.store.fields r).put key value) }
    return true
  | .scope _ _ => return false
  | .foreign o _ => enterHost (.set o key value)

/-- The items that a value is walked through by. -/
def items (v : Value) : Act σ (Except EvalError (List Value)) := do
  match (← get).store.walk? v with
  | some items => return .ok items
  | none => return .error (.notIterable v.typeName)

/-- A part of a value shown in full. -/
def inspectPart (v : Value) : Act σ String := enter (.inspect v)

/-- A value shown in full, its parts by entering the same call again. -/
def inspect (v : Value) : Act σ String :=
  match v with
  | .undefined => return "Undefined"
  | .null => return "Null"
  | .bool b => return if b then "Bool(true)" else "Bool(false)"
  | .int i => return "Int(" ++ toString i.toInt ++ ")"
  | .float x => return "Float(" ++ Number.floatText x ++ ")"
  | .str s => return "Str(" ++ Text.quote s ++ ")"
  | .array a => do
    let texts ← ((← get).store.items a).mapM inspectPart
    return "[" ++ String.intercalate ", " texts ++ "]"
  | .object o => do
    let texts ← (← keys o).mapM fun key => do
      return Text.quote key ++ ": " ++ (← inspectPart (← getNamed (.object o) key))
    return "\x7b" ++ String.intercalate ", " texts ++ "\x7d"
  | .function f => return "Function(" ++ f.name ++ ")"

end ReactiveViews.Act
