import ReactiveViews.Number.Shortest

/-!
# Positional notation of floats

The text of a floating-point number without an exponent, however large or small it is: its
shortest digits, with as many zeros as the position of the point asks for. A number without
a fraction has no point.
-/

namespace ReactiveViews.Number

open Shortest (Decimal)

/-- The decimal digits of a natural number. -/
def digitsOf (n : Nat) : List Char := Nat.toDigits 10 n

/-- A decimal number in positional notation. -/
def positional (x : Decimal) : List Char :=
  let ds := digitsOf x.digits
  if 0 ≤ x.exponent then ds ++ List.replicate x.exponent.toNat '0'
  else
    let places := (-x.exponent).toNat
    if places < ds.length then
      ds.take (ds.length - places) ++ '.' :: ds.drop (ds.length - places)
    else
      '0' :: '.' :: (List.replicate (places - ds.length) '0' ++ ds)

/-- The sign of a negative number. -/
def sign (negative : Bool) : List Char := if negative then ['-'] else []

/-- The text of a floating-point number; zero keeps its sign. -/
def text : Binary64 → String
  | .nan => "NaN"
  | .infinite negative => String.ofList (sign negative ++ ['i', 'n', 'f'])
  | .finite negative m e => String.ofList (sign negative ++ positional (Shortest.shortest m e))

/-- The positional text of a float. -/
def floatText (x : Float) : String := text (Binary64.ofFloat x)

end ReactiveViews.Number
