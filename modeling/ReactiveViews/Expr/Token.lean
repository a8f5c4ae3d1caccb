import ReactiveViews.Number.Positional

/-!
# Tokens

The tokens of an expression. Scanning a source text gives operands and operators; nesting
turns the operators into index, array and call nodes, which hold chains of tokens themselves.
Scanned and nested tokens share one type, since a chain lists operands and nodes side by side.
-/

namespace ReactiveViews

/-- A token, or a node that nesting makes of several. -/
inductive Token where
  /-- An identifier. -/
  | symbol (name : String)
  /-- A text between apostrophes. -/
  | string (s : String)
  /-- An integer of 64 bits. -/
  | integer (i : Int64)
  /-- A number with a point. -/
  | float (x : Float)
  /-- A chain between brackets after an operand. -/
  | index (chain : List Token)
  /-- Chains between brackets that follow no operand. -/
  | array (items : List (List Token))
  /-- Chains between parentheses: the arguments of a call. -/
  | call (args : List (List Token))
  /-- A single character with a meaning of its own. -/
  | operator (c : Char)
  deriving Inhabited

namespace Token

/-- Symbols and literals are operands; nodes and operators are not. -/
def isOperand : Token → Bool
  | symbol _ | string _ | integer _ | float _ => true
  | index _ | array _ | call _ | operator _ => false

/-- How a message names a token. -/
def describe : Token → String
  | symbol s => "symbol `" ++ s ++ "`"
  | string s => "string '" ++ s ++ "'"
  | integer i => "integer " ++ toString i.toInt
  | float x => "float " ++ Number.floatText x
  | index _ => "index"
  | array _ => "array literal"
  | call _ => "call"
  | operator c => "operator '" ++ c.toString ++ "'"

end Token

end ReactiveViews
