import ReactiveViews.Expr.Fault
import ReactiveViews.Text.Blank
import ReactiveViews.Number.Reading

/-!
# Scanning

From the characters of an expression to its tokens. Six characters are operators, a text
stands between apostrophes, white space separates, and everything else gathers in a *run*
that must turn out to be a symbol, an integer or a number with a point.

One character is ambiguous: a dot right after an integer run continues the run as a number
with a point, unless the integer is itself a selector, that is, unless an operator dot stands
directly before it. So `1.5` is one token and `list.0.5` is five.

## The model

`scanChars` walks over the characters once. Its state is the text being read (if an apostrophe
is open), the run, and the tokens so far, the last two in reverse.
-/

namespace ReactiveViews

namespace Token

/-- The characters that are tokens by themselves. -/
def isOperator (c : Char) : Bool :=
  c == '[' || c == ']' || c == '(' || c == ')' || c == '.' || c == ','

/-- The apostrophe, which opens and closes a text. -/
def apostrophe : Char := Char.ofNat 0x27

/-! ### The three kinds of runs -/

/-- A letter of the Latin alphabet or the underscore. -/
def isSymbolStart (c : Char) : Bool := c.isAlpha || c == '_'

/-- A letter, a digit or the underscore. -/
def isSymbolPart (c : Char) : Bool := c.isAlphanum || c == '_'

/-- A symbol: a letter or underscore, then letters, digits and underscores. -/
def isSymbolRun : List Char → Bool
  | [] => false
  | c :: rest => isSymbolStart c && rest.all isSymbolPart

/-- At least one decimal digit and nothing else. -/
def isDigits (cs : List Char) : Bool := !cs.isEmpty && cs.all Char.isDigit

/-- An integer: digits, perhaps with a sign. -/
def isIntegerRun (cs : List Char) : Bool := isDigits (Number.splitSign cs).2

/-- A number with a point: digits, a point and perhaps more digits, perhaps with a sign. -/
def isFloatRun (cs : List Char) : Bool :=
  match (Number.splitSign cs).2.span Char.isDigit with
  | (whole, '.' :: fraction) => !whole.isEmpty && fraction.all Char.isDigit
  | _ => false

/-- The float that a run with a point denotes. -/
def floatOf (cs : List Char) : Float :=
  let (negative, ds) := Number.splitSign cs
  let (whole, rest) := ds.span Char.isDigit
  Number.ofDecimal negative whole (rest.drop 1)

/-- The token of a run. -/
def ofRun (run : List Char) : Except Cause Token :=
  if isSymbolRun run then .ok (.symbol (String.ofList run))
  else if isIntegerRun run then
    let n := Number.ofSignedDigits run
    if Number.fits n then .ok (.integer (Int64.ofInt n))
    else .error (.integerOutOfRange (String.ofList run))
  else if isFloatRun run then .ok (.float (floatOf run))
  else .error (.unknownToken (String.ofList run))

/-! ### The walk -/

/-- Ends the run, if there is one: its token goes to the others. -/
def flush (run : List Char) (tokens : List Token) : Except Cause (List Token) :=
  if run.isEmpty then .ok tokens else (ofRun run.reverse).map (· :: tokens)

/-- Whether the last token is an operator dot. -/
def endsInDot : List Token → Bool
  | .operator '.' :: _ => true
  | _ => false

/-- Scans characters. `text` is the text read so far if an apostrophe is open, `run` the
pending run and `tokens` the tokens before it, all of them last first. -/
def scanChars (text : Option (List Char)) (run : List Char) (tokens : List Token) :
    List Char → Except Cause (List Token)
  | [] =>
    match text with
    | some _ => .error .unterminatedString
    | none => (flush run tokens).map List.reverse
  | c :: rest =>
    match text with
    | some s =>
      if c = apostrophe then scanChars none run (.string (String.ofList s.reverse) :: tokens) rest
      else scanChars (some (c :: s)) run tokens rest
    | none =>
      if c = apostrophe then
        (flush run tokens).bind fun tokens => scanChars (some []) [] tokens rest
      else if c = '.' ∧ isIntegerRun run.reverse ∧ ¬ endsInDot tokens then
        scanChars none (c :: run) tokens rest
      else if isOperator c then
        (flush run tokens).bind fun tokens => scanChars none [] (.operator c :: tokens) rest
      else if Text.isBlank c then
        (flush run tokens).bind fun tokens => scanChars none [] tokens rest
      else scanChars none (c :: run) tokens rest

/-- The tokens of a source text. -/
def scan (src : String) : Except Fault (List Token) :=
  (scanChars none [] [] src.toList).mapError (⟨·, src⟩)

end Token

end ReactiveViews
