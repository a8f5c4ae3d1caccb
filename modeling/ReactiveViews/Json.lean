import ReactiveViews.Fields
import ReactiveViews.Number.Positional
import ReactiveViews.Number.Reading

/-!
# JSON

JSON values, their reader and their writer. The members of an object keep their order; a name
that is given twice keeps its first place and its last value.

## The model

`Json.read` accepts the texts of RFC 8259 with these limits: arrays and objects are nested at
most `depth - 1` deep, a number is in the range of floats, and an escape of half a surrogate
pair needs its other half. Why a text is refused is not told.

A number without fraction and exponent that fits 64 bits is read as an integer, except `-0`;
every other number is a float, read as `Number.scaled` says.
-/

namespace ReactiveViews

/-- A JSON value. -/
inductive Json where
  /-- `null`. -/
  | null
  /-- `true` and `false`. -/
  | bool (b : Bool)
  /-- A number written as an integer of at most 64 bits. -/
  | integer (n : Int)
  /-- Every other number. -/
  | float (x : Float)
  /-- A text. -/
  | string (s : String)
  /-- A list of values. -/
  | array (items : List Json)
  /-- Named values in order. -/
  | object (members : List (String × Json))
  deriving Inhabited

namespace Json

/-- The four characters of white space between the parts of a JSON text. -/
def isSpace (c : Char) : Bool := c == ' ' || c == '\n' || c == '\t' || c == '\r'

/-- A text without the white space in front. -/
def skip (cs : List Char) : List Char := cs.dropWhile isSpace

/-! ### Texts -/

/-- The value of a hexadecimal digit. -/
def hexDigit (c : Char) : Option Nat :=
  if '0' ≤ c ∧ c ≤ '9' then some (c.toNat - '0'.toNat)
  else if 'a' ≤ c ∧ c ≤ 'f' then some (c.toNat - 'a'.toNat + 10)
  else if 'A' ≤ c ∧ c ≤ 'F' then some (c.toNat - 'A'.toNat + 10)
  else none

/-- The number that four hexadecimal digits denote. -/
def hex4 (a b c d : Char) : Option Nat := do
  return (((← hexDigit a) * 16 + (← hexDigit b)) * 16 + (← hexDigit c)) * 16 + (← hexDigit d)

/-- The character that one escape of four digits denotes: no half of a surrogate pair. -/
def plainEscape (n : Nat) : Option Char :=
  if 0xD800 ≤ n ∧ n < 0xE000 then none else some (Char.ofNat n)

/-- The character that two escapes of four digits denote together. -/
def pairEscape (high low : Nat) : Option Char :=
  if 0xD800 ≤ high ∧ high < 0xDC00 ∧ 0xDC00 ≤ low ∧ low < 0xE000 then
    some (Char.ofNat (0x10000 + (high - 0xD800) * 0x400 + (low - 0xDC00)))
  else none

/-- The character of a one-letter escape. -/
def shortEscape (c : Char) : Option Char :=
  if c = '"' ∨ c = '\\' ∨ c = '/' then some c
  else if c = 'b' then some (Char.ofNat 8)
  else if c = 'f' then some (Char.ofNat 12)
  else if c = 'n' then some '\n'
  else if c = 'r' then some '\r'
  else if c = 't' then some '\t'
  else none

/-- Reads the rest of a text up to its closing quote; `acc` holds the characters read so
far, last first. -/
def readText (acc : List Char) : List Char → Option (String × List Char)
  | [] => none
  | '"' :: rest => some (String.ofList acc.reverse, rest)
  | '\\' :: 'u' :: a :: b :: c :: d :: '\\' :: 'u' :: e :: f :: g :: h :: rest => do
    let first ← hex4 a b c d
    if 0xD800 ≤ first ∧ first < 0xDC00 then
      let ch ← pairEscape first (← hex4 e f g h)
      readText (ch :: acc) rest
    else
      let ch ← plainEscape first
      readText (ch :: acc) ('\\' :: 'u' :: e :: f :: g :: h :: rest)
  | '\\' :: 'u' :: a :: b :: c :: d :: rest => do
    let ch ← plainEscape (← hex4 a b c d)
    readText (ch :: acc) rest
  | '\\' :: c :: rest => do
    let ch ← shortEscape c
    readText (ch :: acc) rest
  | c :: rest => if c.toNat < 0x20 ∨ c = '\\' then none else readText (c :: acc) rest

/-! ### Numbers -/

/-- The digits at the front of a text, and the rest. -/
def spanDigits (cs : List Char) : List Char × List Char := cs.span Char.isDigit

/-- Appends decimal digits to a 64-bit significand as long as it fits; with the significand
come the number of digits taken and the digits left over. -/
def gather (significand : Nat) (taken : Nat) : List Char → Nat × Nat × List Char
  | [] => (significand, taken, [])
  | c :: rest =>
    let next := significand * 10 + (c.toNat - '0'.toNat)
    if next < UInt64.size then gather next (taken + 1) rest else (significand, taken, c :: rest)

/-- The exponent after its letter, and the rest of the text. -/
def readExponent : List Char → Option (Int × List Char)
  | cs =>
    let (negative, cs) := match cs with
      | '+' :: rest => (false, rest)
      | '-' :: rest => (true, rest)
      | rest => (false, rest)
    match spanDigits cs with
    | ([], _) => none
    | (ds, rest) =>
      let n : Int := Number.ofDigits ds
      some (if negative then -n else n, rest)

/-- The bound that an exponent written out in full must not pass. -/
def exponentLimit : Int := 2147483647

/-- The float of a significand and two exponents: the one that its digits left behind and
the one that is written out. -/
def float? (negative : Bool) (significand : Nat) (shift written : Int) : Option Json := do
  let x ←
    if written.natAbs > exponentLimit.toNat then
      if significand ≠ 0 ∧ 0 < written then none else some 0
    else Number.scaled (UInt64.ofNat significand) (shift + written)
  return .float (if negative then -x else x)

/-- Reads a number without its sign. -/
def readUnsigned (negative : Bool) (cs : List Char) : Option (Json × List Char) := do
  let (whole, rest) := spanDigits cs
  guard (whole ≠ [] ∧ (whole.head? = some '0' → whole.length = 1))
  let (significand, _, dropped) := gather 0 0 whole
  match rest with
  | '.' :: rest =>
    let (fraction, rest) := spanDigits rest
    guard (fraction ≠ [])
    let (significand, taken, _) := gather significand 0 fraction
    let shift : Int := (dropped.length : Int) - taken
    match rest with
    | e :: rest' =>
      if e = 'e' ∨ e = 'E' then
        let (exponent, rest) ← readExponent rest'
        return (← float? negative significand shift exponent, rest)
      else return (← float? negative significand shift 0, rest)
    | [] => return (← float? negative significand shift 0, [])
  | e :: rest' =>
    if e = 'e' ∨ e = 'E' then
      let (exponent, rest) ← readExponent rest'
      return (← float? negative significand dropped.length exponent, rest)
    else integerOrFloat significand dropped rest
  | [] => integerOrFloat significand dropped []
where
  /-- A number without fraction and exponent. -/
  integerOrFloat (significand : Nat) (dropped rest : List Char) : Option (Json × List Char) :=
    if dropped ≠ [] ∨ (negative ∧ (significand = 0 ∨ ¬ Number.fits (-(significand : Int)))) then do
      return (← float? negative significand dropped.length 0, rest)
    else some (.integer (if negative then -(significand : Int) else significand), rest)

/-! ### Values -/

/-- Reads what a text starts with if it is a literal word. -/
def readWord (word : List Char) (value : Json) (cs : List Char) : Option (Json × List Char) :=
  if cs.take word.length = word then some (value, cs.drop word.length) else none

mutual

/-- Reads one value. The first number bounds the steps, the second the nesting. -/
def readValue : Nat → Nat → List Char → Option (Json × List Char)
  | 0, _, _ => none
  | fuel + 1, depth, cs =>
    match skip cs with
    | [] => none
    | '"' :: rest => do
      let (s, rest) ← readText [] rest
      return (.string s, rest)
    | '[' :: rest => do
      guard (1 < depth)
      match skip rest with
      | ']' :: rest => return (.array [], rest)
      | rest => readItems fuel (depth - 1) [] rest
    | c :: rest =>
      if c = Char.ofNat 0x7B then do
        guard (1 < depth)
        match skip rest with
        | [] => none
        | d :: rest' =>
          if d = Char.ofNat 0x7D then return (.object [], rest')
          else readMembers fuel (depth - 1) [] (d :: rest')
      else if c = '-' then readUnsigned true rest
      else if c.isDigit then readUnsigned false (c :: rest)
      else if c = 'n' then readWord ['n', 'u', 'l', 'l'] .null (c :: rest)
      else if c = 't' then readWord ['t', 'r', 'u', 'e'] (.bool true) (c :: rest)
      else if c = 'f' then readWord ['f', 'a', 'l', 's', 'e'] (.bool false) (c :: rest)
      else none

/-- Reads the items of an array up to its closing bracket; `acc` holds those before, last
first. -/
def readItems : Nat → Nat → List Json → List Char → Option (Json × List Char)
  | 0, _, _, _ => none
  | fuel + 1, depth, acc, cs => do
    let (value, rest) ← readValue fuel depth cs
    match skip rest with
    | ',' :: rest => readItems fuel depth (value :: acc) rest
    | ']' :: rest => return (.array (value :: acc).reverse, rest)
    | _ => none

/-- Reads the members of an object up to its closing brace. -/
def readMembers : Nat → Nat → Fields Json → List Char → Option (Json × List Char)
  | 0, _, _, _ => none
  | fuel + 1, depth, acc, cs => do
    match skip cs with
    | '"' :: rest =>
      let (name, rest) ← readText [] rest
      match skip rest with
      | ':' :: rest =>
        let (value, rest) ← readValue fuel depth rest
        let acc := acc.put name value
        match skip rest with
        | [] => none
        | d :: rest =>
          if d = ',' then readMembers fuel depth acc rest
          else if d = Char.ofNat 0x7D then return (.object acc, rest)
          else none
      | _ => none
    | _ => none

end

/-- The nesting limit of template texts: 127 arrays and objects. -/
def nestingLimit : Nat := 128

/-- Reads a whole JSON text whose nesting stays below `depth`. Every step but one in two
consumes a character, so twice the length bounds the steps. -/
def readWithin (depth : Nat) (text : String) : Option Json := do
  let cs := text.toList
  let (value, rest) ← readValue (2 * cs.length + 2) depth cs
  guard (skip rest = [])
  return value

/-- Reads a whole JSON text. -/
def read (text : String) : Option Json := readWithin nestingLimit text

/-! ### Writing -/

/-- A character of a text as it is written: quotes, backslashes and controls are escaped. -/
def escape (c : Char) : List Char :=
  if c = '"' then ['\\', '"']
  else if c = '\\' then ['\\', '\\']
  else if c = '\n' then ['\\', 'n']
  else if c.toNat < 0x20 then
    ['\\', 'u', '0', '0', if c.toNat < 0x10 then '0' else '1', Nat.digitChar (c.toNat % 16)]
  else [c]

/-- A text between its quotes. -/
def writeText (s : String) : String := String.ofList ('"' :: (s.toList.flatMap escape ++ ['"']))

/-- A float as it is written, with a point; what is no number is written as `null`. -/
def writeFloat (x : Float) : String :=
  match Binary64.ofFloat x with
  | .nan | .infinite _ => "null"
  | b => if b.integer?.isSome then Number.text b ++ ".0" else Number.text b

mutual

/-- The text of a JSON value on one line. -/
def write : Json → String
  | null => "null"
  | bool b => if b then "true" else "false"
  | integer n => toString n
  | float x => writeFloat x
  | string s => writeText s
  | array items => "[" ++ String.intercalate "," (writeItems items) ++ "]"
  | object members => "\x7b" ++ String.intercalate "," (writeMembers members) ++ "\x7d"

/-- The texts of the items of an array. -/
def writeItems : List Json → List String
  | [] => []
  | item :: rest => item.write :: writeItems rest

/-- The texts of the members of an object. -/
def writeMembers : List (String × Json) → List String
  | [] => []
  | (name, value) :: rest => (writeText name ++ ":" ++ value.write) :: writeMembers rest

end

/-- What kind of value it is, with its article. -/
def kind : Json → String
  | null => "null"
  | bool _ => "a boolean"
  | integer _ | float _ => "a number"
  | string _ => "a string"
  | array _ => "an array"
  | object _ => "an object"

end Json

end ReactiveViews
