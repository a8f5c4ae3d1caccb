/-!
# Reading decimal numbers

Two ways from decimal digits to a float. `ofDecimal` gives the float nearest to the decimal
number, ties to even; `ofText` does so for every way to write a float. `scaled` is the quicker
reading of numbers in JSON: the leading digits that fit 64 bits are turned into a float and
then multiplied or divided by a power of ten, so that the result can miss the nearest float by
rounding twice.
-/

namespace ReactiveViews.Number

/-- The natural number that decimal digits denote. -/
def ofDigits (ds : List Char) : Nat := ds.foldl (fun n c => 10 * n + (c.toNat - '0'.toNat)) 0

/-- The float nearest to `whole.fraction`, with a sign. -/
def ofDecimal (negative : Bool) (whole fraction : List Char) : Float :=
  let x := Float.ofScientific (ofDigits (whole ++ fraction)) true fraction.length
  if negative then -x else x

/-- A text without the sign in front, and whether that sign is a minus. -/
def splitSign : List Char → Bool × List Char
  | '+' :: rest => (false, rest)
  | '-' :: rest => (true, rest)
  | rest => (false, rest)

/-- The integer of a sign and digits. -/
def ofSignedDigits (cs : List Char) : Int :=
  let (negative, ds) := splitSign cs
  if negative then -(ofDigits ds : Int) else ofDigits ds

/-- The size of a float in decimal notation: digits, perhaps a point and further digits,
perhaps a letter and an exponent. -/
def ofNotation (cs : List Char) : Float :=
  let (whole, rest) := cs.span Char.isDigit
  let (fraction, rest) := match rest with
    | '.' :: rest => rest.span Char.isDigit
    | rest => ([], rest)
  let exponent := ofSignedDigits (rest.drop 1) - fraction.length
  Float.ofScientific (ofDigits (whole ++ fraction)) (exponent < 0) exponent.natAbs

/-- The float that a text denotes: a number in decimal notation, an infinity, or no number. -/
def ofText (text : String) : Float :=
  let (negative, cs) := splitSign text.toList
  let word := (String.ofList cs).toLower
  let x : Float :=
    if word = "inf" ∨ word = "infinity" then 1.0 / 0.0
    else if word = "nan" then 0.0 / 0.0
    else ofNotation cs
  if negative then -x else x

/-- Whether an integer fits 64 bits with a sign. -/
def fits (n : Int) : Bool := Int64.minValue.toInt ≤ n && n ≤ Int64.maxValue.toInt

/-- The largest power of ten that is a float has this exponent. -/
def largestPower : Nat := 308

/-- The float `10 ^ k`. -/
def powerOfTen (k : Nat) : Float := Float.ofScientific 1 false k

/-- Scales a float up by `10 ^ k`; nothing if the result is out of range. -/
def scaleUp (x : Float) (k : Nat) : Option Float :=
  if k ≤ largestPower then
    let y := x * powerOfTen k
    if y.isInf then none else some y
  else if x == 0 then some x
  else none

/-- Scales a float down by `10 ^ k`, in steps of the largest power, at most `n + 1` of
them: more leave nothing. -/
def scaleDown : Nat → Float → Nat → Float
  | 0, x, k => x / powerOfTen (min k largestPower)
  | n + 1, x, k =>
    if k ≤ largestPower then x / powerOfTen k
    else if x == 0 then x
    else scaleDown n (x / powerOfTen largestPower) (k - largestPower)

/-- The float read from `significand · 10 ^ exponent`; nothing if it is out of range. -/
def scaled (significand : UInt64) (exponent : Int) : Option Float :=
  if 0 ≤ exponent then scaleUp significand.toFloat exponent.toNat
  else some (scaleDown 4 significand.toFloat (-exponent).toNat)

end ReactiveViews.Number
