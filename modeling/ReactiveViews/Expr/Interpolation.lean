import ReactiveViews.Expr.Chain

/-!
# Interpolation

Texts with expressions between double braces. A text is split at the first opening pair that
has a closing pair behind it, the closing pair being the first one; what follows is split in
the same way. An opening pair without a closing one is plain text, together with all behind
it.

A text that is nothing but one expression stands for the value of that expression; every
other text is put together from the texts of its parts.

## The model

`pieces` walks over the characters once. While it is between the braces it remembers the
plain text before them, in case that no closing pair comes.
-/

namespace ReactiveViews

/-- What a text is split into. -/
inductive Piece where
  /-- Plain text. -/
  | plain (text : String)
  /-- The source of an expression, without its braces. -/
  | expression (src : String)
  deriving DecidableEq, Repr

namespace Interpolation

/-- The opening brace. -/
def openBrace : Char := Char.ofNat 0x7B

/-- The closing brace. -/
def closeBrace : Char := Char.ofNat 0x7D

/-- A piece of plain text, unless there is none. -/
def plainPiece (cs : List Char) : List Piece :=
  if cs.isEmpty then [] else [.plain (String.ofList cs)]

/-- The pieces of a text. `before` is the plain text since the last expression, last first;
`inside` the characters since an opening pair, last first, if there is one. -/
def pieces (before : List Char) (inside : Option (List Char)) : List Char → List Piece
  | [] =>
    match inside with
    | none => plainPiece before.reverse
    | some src => plainPiece (before.reverse ++ openBrace :: openBrace :: src.reverse)
  | [c] =>
    match inside with
    | none => plainPiece (c :: before).reverse
    | some src => plainPiece (before.reverse ++ openBrace :: openBrace :: (c :: src).reverse)
  | c :: d :: rest =>
    match inside with
    | none =>
      if c = openBrace ∧ d = openBrace then pieces before (some []) rest
      else pieces (c :: before) none (d :: rest)
    | some src =>
      if c = closeBrace ∧ d = closeBrace then
        plainPiece before.reverse ++ .expression (String.ofList src.reverse) :: pieces [] none rest
      else pieces before (some (c :: src)) (d :: rest)

/-- The pieces of a text; the empty text is one empty piece. -/
def split (text : String) : List Piece :=
  match pieces [] none text.toList with
  | [] => [.plain ""]
  | ps => ps

end Interpolation

/-- A part of a compiled text. -/
inductive Part where
  /-- Plain text. -/
  | plain (text : String)
  /-- An expression. -/
  | chain (c : Chain)
  deriving Inhabited

/-- Compiles one piece. -/
def Part.compile : Piece → Traced Fault Part
  | .plain text => pure (.plain text)
  | .expression src => .chain <$> Chain.compile src

/-- Compiles a text into its parts, from left to right. -/
def Part.compileText (text : String) : Traced Fault (List Part) := do
  let parts ← (Interpolation.split text).mapM Part.compile
  Traced.remark (.interpolation text parts.length)
  return parts

end ReactiveViews
