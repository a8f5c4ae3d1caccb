import ReactiveViews.Number.Positional

/-!
# Values

What expressions evaluate to. Numbers, texts and truth values are themselves; arrays, objects
and functions are references to things that live elsewhere, so that a value can be shared and
the thing behind it changed.

The two questions that need nothing but the value are answered here: whether two values are
the same (`same`), and whether a value counts as true (`truthy`). References are the same if
they refer to the same thing, whatever it holds.

## What is proved

A reference is the same as itself (`same_array_self`, `same_record_self`), and only undefined
is the same as undefined (`same_undefined_iff`).
-/

namespace ReactiveViews

/-- An array in the store. -/
structure ArrayId where
  /-- Its row. -/
  row : Nat
  deriving DecidableEq, Repr, Inhabited

/-- A record in the store. -/
structure RecordId where
  /-- Its row. -/
  row : Nat
  deriving DecidableEq, Repr, Inhabited

/-- An element of a component tree. -/
structure ElementId where
  /-- Its row; the elements are numbered in the order in which they were made. -/
  row : Nat
  deriving DecidableEq, Repr, Inhabited

/-- The number of an element in texts, counted from one. -/
def ElementId.number (e : ElementId) : Nat := e.row + 1

/-- How an element is named in messages. -/
def ElementId.text (e : ElementId) : String := "#" ++ toString e.number

/-- What an object is: three kinds of things answer to the same questions. -/
inductive Object where
  /-- A record of the store. -/
  | record (r : RecordId)
  /-- An element seen as a scope. Each time one is taken from the element it gets a mark of
  its own. -/
  | scope (mark : Nat) (e : ElementId)
  /-- An object of the host program, with the name of its type. -/
  | foreign (number : Nat) (type : String)
  deriving DecidableEq, Repr

/-- The name of an object's type. -/
def Object.typeName : Object → String
  | record _ => "Object"
  | scope _ _ => "Element"
  | foreign _ type => type

/-- A function of the host program. -/
structure Function where
  /-- The name under which it was made. -/
  name : String
  /-- Which function it is. -/
  number : Nat
  deriving DecidableEq, Repr

/-- A value. -/
inductive Value where
  /-- No value. -/
  | undefined
  /-- The value that stands for nothing. -/
  | null
  /-- A truth value. -/
  | bool (b : Bool)
  /-- An integer of 64 bits. -/
  | int (i : Int64)
  /-- A floating-point number. -/
  | float (x : Float)
  /-- A text. -/
  | str (s : String)
  /-- A shared array. -/
  | array (a : ArrayId)
  /-- A shared object. -/
  | object (o : Object)
  /-- A function. -/
  | function (f : Function)
  deriving Inhabited

namespace Value

/-- The name of a value's type. -/
def typeName : Value → String
  | undefined => "undefined"
  | null => "null"
  | bool _ => "boolean"
  | int _ => "integer"
  | float _ => "float"
  | str _ => "string"
  | array _ => "array"
  | object _ => "object"
  | function _ => "function"

/-- Whether two objects are one; scopes are told apart by their marks. -/
def sameObject : Object → Object → Bool
  | .record r, .record r' => r == r'
  | .scope m _, .scope m' _ => m == m'
  | .foreign n _, .foreign n' _ => n == n'
  | _, _ => false

/-- Whether two values are the same: equal as numbers, texts and truth values, one thing as
references. An integer and a float are compared as floats. -/
def same : Value → Value → Bool
  | undefined, undefined => true
  | null, null => true
  | bool a, bool b => a == b
  | int a, int b => a == b
  | float a, float b => a == b
  | int a, float b => a.toFloat == b
  | float a, int b => b.toFloat == a
  | str a, str b => a == b
  | array a, array b => a == b
  | object a, object b => sameObject a b
  | function f, function g => f.number == g.number
  | _, _ => false

/-- Whether a value counts as true. -/
def truthy : Value → Bool
  | undefined | null => false
  | bool b => b
  | int i => i != 0
  | float x => x != 0 && !x.isNaN
  | str s => !s.isEmpty
  | array _ | object _ | function _ => true

/-! ### Reading a value as something else -/

/-- The text that a value is. -/
def asText : Value → Option String
  | str s => some s
  | _ => none

/-- The truth value that a value is. -/
def asBool : Value → Option Bool
  | bool b => some b
  | _ => none

/-- The nearest integer of 64 bits. -/
def clamp (n : Int) : Int64 :=
  if n < Int64.minValue.toInt then Int64.minValue
  else if Int64.maxValue.toInt < n then Int64.maxValue
  else Int64.ofInt n

/-- The integer that a number is equal to; a float out of range counts as the bound it
passed. -/
def asInteger : Value → Option Int64
  | int i => some i
  | float x => (Binary64.ofFloat x).integer?.map clamp
  | _ => none

/-- A number as a float. -/
def asFloat : Value → Option Float
  | int i => some i.toFloat
  | float x => some x
  | _ => none

/-! ### Laws -/

theorem same_array_self (a : ArrayId) : same (array a) (array a) = true := by
  simp [same]

theorem same_record_self (r : RecordId) :
    same (object (.record r)) (object (.record r)) = true := by
  simp [same, sameObject]

/-- Only undefined is the same as undefined. -/
theorem same_undefined_iff (v : Value) : same undefined v = true ↔ v = undefined := by
  cases v <;> simp [same]

end Value

end ReactiveViews
