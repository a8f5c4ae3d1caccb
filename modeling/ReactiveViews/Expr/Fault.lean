import ReactiveViews.Expr.Token
import ReactiveViews.Text.Quoted

/-!
# Faults of expressions

Why an expression is refused: the causes that scanning, nesting and compiling can find, the
stage that each belongs to, and the wording. A fault is a cause together with the expression
in which it was found.
-/

namespace ReactiveViews

/-- The brackets that can be open while tokens are nested. -/
inductive Opening where
  /-- A bracket after an operand. -/
  | index
  /-- A bracket after no operand, with the items closed by commas so far, last first. -/
  | array (items : List (List Token))
  /-- A parenthesis, with the arguments closed by commas so far, last first. -/
  | call (args : List (List Token))

/-- How a message names an opening. -/
def Opening.describe : Opening → String
  | index => "index '['"
  | array _ => "array literal '['"
  | call _ => "call '('"

/-- How a message names the innermost opening, or its absence. -/
def Opening.describe? : Option Opening → String
  | some opening => opening.describe
  | none => "level"

/-- The stage that refuses an expression. -/
inductive Stage where
  /-- Scanning characters. -/
  | lexical
  /-- Nesting tokens. -/
  | syntactic
  /-- Compiling chains. -/
  | compilation
  deriving DecidableEq, Repr

/-- The word for a stage in a message. -/
def Stage.word : Stage → String
  | lexical => "lexical"
  | syntactic => "syntax"
  | compilation => "compile"

/-- Why an expression is refused. -/
inductive Cause where
  /-- An integer that does not fit 64 bits. -/
  | integerOutOfRange (run : String)
  /-- A run of characters that is no symbol and no number. -/
  | unknownToken (run : String)
  /-- An apostrophe without its partner. -/
  | unterminatedString
  /-- A closing bracket where none is open. -/
  | nothingOpen (closer : Char)
  /-- No level is left to be closed. -/
  | stackUnderflow
  /-- A dot followed by something else than an operand. -/
  | danglingDot (found : Char)
  /-- A dot at the end. -/
  | trailingDot
  /-- A node among the tokens to be nested. -/
  | strayNode (node : Token)
  /-- A bracket that is open at the end. -/
  | unclosed (opening : Option Opening)
  /-- Two operands without an operator between them. -/
  | adjacentOperand (operand : Token)
  /-- A dot that follows no operand. -/
  | dotWithoutOperand
  /-- A comma that follows no operand. -/
  | commaWithoutOperand
  /-- A comma outside of a call and of an array. -/
  | commaOutsideList
  /-- Brackets with nothing between them after an operand. -/
  | emptyIndex
  /-- A closing bracket of the wrong kind. -/
  | mismatched (closer : Char) (opening : Option Opening)
  /-- An opening parenthesis that follows no operand. -/
  | callWithoutCallee
  /-- An operator that has no meaning. -/
  | unknownOperator (c : Char)
  /-- A token that cannot stand where it stands in a chain. -/
  | noRule (leading : Bool) (token : Token)
  /-- A chain without tokens. -/
  | emptyExpression

namespace Cause

/-- The stage at which a cause is found. -/
def stage : Cause → Stage
  | integerOutOfRange _ | unknownToken _ | unterminatedString => .lexical
  | noRule _ _ | emptyExpression => .compilation
  | _ => .syntactic

/-- The wording of a cause. -/
def message : Cause → String
  | integerOutOfRange run => "integer " ++ run ++ " is out of range"
  | unknownToken run => "unknown token " ++ Text.quote run
  | unterminatedString => "unterminated string literal"
  | nothingOpen closer => "unbalanced '" ++ closer.toString ++ "' with nothing open"
  | stackUnderflow => "parse stack underflow"
  | danglingDot found => "expected a property name after '.', found '" ++ found.toString ++ "'"
  | trailingDot => "expected a property name after '.' at end of expression"
  | strayNode node => "unexpected " ++ node.describe ++ " in tokenizer output"
  | unclosed opening => "unclosed " ++ Opening.describe? opening ++ " at end of expression"
  | adjacentOperand operand =>
    "unexpected " ++ operand.describe ++ " directly after another operand; expected an operator"
  | dotWithoutOperand => "'.' needs an operand before it"
  | commaWithoutOperand => "missing operand before ','"
  | commaOutsideList => "',' is only allowed inside a call or an array literal"
  | emptyIndex => "empty index expression '[]'"
  | mismatched closer opening =>
    "'" ++ closer.toString ++ "' cannot close " ++ Opening.describe? opening
  | callWithoutCallee => "'(' needs a callee before it"
  | unknownOperator c => "unknown operator '" ++ c.toString ++ "'"
  | noRule leading token =>
    "no rule for " ++ (if leading then "leading " else "chained ") ++ token.describe
  | emptyExpression => "empty expression"

end Cause

/-- A cause and the expression in which it was found. -/
structure Fault where
  /-- Why the expression is refused. -/
  cause : Cause
  /-- The expression. -/
  expr : String

/-- The whole message of a fault. -/
def Fault.message (fault : Fault) : String :=
  "expression " ++ fault.cause.stage.word ++ " error in " ++ Text.quote fault.expr ++ ": " ++
    fault.cause.message

end ReactiveViews
