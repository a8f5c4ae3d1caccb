import ReactiveViews.Value.Basic
import ReactiveViews.Value.Table
import ReactiveViews.Json

/-!
# The store

The arrays and records that values refer to, and what can be told of a value when the store
is known: its items, the properties it owns without help from the host, and its text.

## The model

Arrays may hold themselves, directly or through others, and then have no text. `Store.text`
counts how many arrays it is inside of: more than there are in the store means that one of
them holds itself, and the answer is `none`.
-/

namespace ReactiveViews

/-- The arrays and records. -/
structure Store where
  /-- The items of the arrays. -/
  arrays : Table (List Value)
  /-- The fields of the records. -/
  records : Table (Fields Value)
  deriving Inhabited

namespace Store

/-- The store that holds nothing. -/
def empty : Store := ⟨.empty, .empty⟩

/-- The items of an array; a reference to nothing reads as empty. -/
def items (s : Store) (a : ArrayId) : List Value := (s.arrays.get? a.row).getD []

/-- Replaces the items of an array. -/
def setItems (s : Store) (a : ArrayId) (items : List Value) : Store :=
  { s with arrays := s.arrays.set a.row items }

/-- A new array. -/
def newArray (s : Store) (items : List Value) : ArrayId × Store :=
  (⟨s.arrays.size⟩, { s with arrays := s.arrays.add items })

/-- The fields of a record; a reference to nothing reads as empty. -/
def fields (s : Store) (r : RecordId) : Fields Value := (s.records.get? r.row).getD []

/-- Replaces the fields of a record. -/
def setFields (s : Store) (r : RecordId) (fields : Fields Value) : Store :=
  { s with records := s.records.set r.row fields }

/-- A new record. -/
def newRecord (s : Store) (fields : Fields Value) : RecordId × Store :=
  (⟨s.records.size⟩, { s with records := s.records.add fields })

end Store

/-! ### Items and indexed properties -/

/-- The characters of a text as values. -/
def characters (s : String) : List Value := s.toList.map fun c => .str c.toString

/-- The items that a value is walked through by; nothing if it cannot be. -/
def Store.walk? (s : Store) : Value → Option (List Value)
  | .array a => some (s.items a)
  | .str text => some (characters text)
  | .undefined | .null => some []
  | _ => none

/-- Reads a key as a position: decimal digits, perhaps with a plus sign. -/
def position? (key : String) : Option Nat :=
  let ds := match key.toList with
    | '+' :: rest => rest
    | ds => ds
  if !ds.isEmpty && ds.all Char.isDigit then some (Number.ofDigits ds) else none

/-- The property of a sequence: its length, or the item at a position. -/
def sequenceProperty (items : List Value) (key : String) : Option Value :=
  if key = "length" then some (.int (Int64.ofNat items.length))
  else (position? key).bind (items[·]?)

/-! ### Text -/

/-- The text of a float that is a value: integers below `10 ^ 15` are written as integers, so
that negative zero loses its sign, and the infinities are spelled out. -/
def floatText (x : Float) : String :=
  match Binary64.ofFloat x with
  | .nan => "NaN"
  | .infinite negative => if negative then "-Infinity" else "Infinity"
  | b =>
    match b.integer? with
    | some n => if n.natAbs < Number.tenPow 15 then toString n else Number.text b
    | none => Number.text b

/-- Whether a value leaves an empty place in the text of an array. -/
def Value.isBlank : Value → Bool
  | .undefined | .null => true
  | _ => false

namespace Store

/-- The text of a value inside of at most `depth` further arrays. An array is its items
between commas, an object the name of its type. -/
def textWithin (s : Store) : Nat → Value → Option String
  | _, .undefined => some "undefined"
  | _, .null => some "null"
  | _, .bool b => some (if b then "true" else "false")
  | _, .int i => some (toString i.toInt)
  | _, .float x => some (floatText x)
  | _, .str text => some text
  | 0, .array _ => none
  | depth + 1, .array a => do
    let texts ← (s.items a).mapM fun v => if v.isBlank then some "" else s.textWithin depth v
    return String.intercalate "," texts
  | _, .object o => some ("[object " ++ o.typeName ++ "]")
  | _, .function f => some ("function " ++ f.name)

/-- The text of a value; nothing if it would not end. -/
def text (s : Store) (v : Value) : Option String := s.textWithin (s.arrays.size + 1) v

end Store

/-! ### JSON in the store -/

/-- A JSON number that is no integer of 64 bits with a sign is a float. -/
def Value.ofJsonInteger (n : Int) : Value :=
  if Number.fits n then .int (Int64.ofInt n)
  else .float (UInt64.ofNat n.toNat).toFloat

mutual

/-- Puts a JSON value into the store: arrays and objects become arrays and records of their
own. -/
def Store.load (s : Store) : Json → Value × Store
  | .null => (.null, s)
  | .bool b => (.bool b, s)
  | .integer n => (.ofJsonInteger n, s)
  | .float x => (.float x, s)
  | .string text => (.str text, s)
  | .array items =>
    let (values, s) := s.loadItems items
    let (a, s) := s.newArray values
    (.array a, s)
  | .object members =>
    let (fields, s) := s.loadMembers members
    let (r, s) := s.newRecord fields
    (.object (.record r), s)

/-- Puts the items of a JSON array into the store. -/
def Store.loadItems (s : Store) : List Json → List Value × Store
  | [] => ([], s)
  | item :: rest =>
    let (value, s) := s.load item
    let (values, s) := s.loadItems rest
    (value :: values, s)

/-- Puts the members of a JSON object into the store. -/
def Store.loadMembers (s : Store) : List (String × Json) → Fields Value × Store
  | [] => ([], s)
  | (name, member) :: rest =>
    let (value, s) := s.load member
    let (fields, s) := s.loadMembers rest
    ((name, value) :: fields, s)

end

end ReactiveViews
