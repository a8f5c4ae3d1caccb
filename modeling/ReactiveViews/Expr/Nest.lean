import ReactiveViews.Expr.Scan

/-!
# Nesting

From a flat list of tokens to a chain of operands and nodes. The dots disappear, a bracket
after an operand becomes an index node, a bracket after anything else an array node, and a
parenthesis after an operand a call node. Two operands side by side, a dot or comma without
something before it and brackets that do not match are refused, each at the first token at
which it shows.

## The model

The brackets that are open form a stack of levels, the innermost first; the outermost level,
which is never closed, is the expression itself. Two flags say what may come next: `operand`
that the level ends in something that can be selected from, `dotted` that a selector must
follow. `step` handles one token, `close` the end of the list.
-/

namespace ReactiveViews

namespace Nesting

/-- An open bracket, or the expression itself, with its tokens so far, last first. -/
structure Level where
  /-- The bracket that opened the level; the outermost level has none. -/
  opening : Option Opening
  /-- The tokens of the chain being read, last first. -/
  tokens : List Token

/-- The state between two tokens. -/
structure State where
  /-- The levels, innermost first. -/
  levels : List Level
  /-- Whether the chain being read ends in an operand or a node. -/
  operand : Bool
  /-- Whether a dot waits for its selector. -/
  dotted : Bool

/-- The state before the first token. -/
def State.start : State := ⟨[⟨none, []⟩], false, false⟩

/-- Opens a level. -/
def State.descend (s : State) (opening : Opening) : State :=
  { s with levels := ⟨some opening, []⟩ :: s.levels, operand := false }

/-- Adds an operand or a node to the innermost level. -/
def State.push (s : State) (token : Token) : State :=
  match s.levels with
  | top :: rest =>
    { s with levels := { top with tokens := token :: top.tokens } :: rest, operand := true }
  | [] => { s with operand := true }

/-- Closes the innermost level, if it is not the expression itself. -/
def State.ascend (s : State) (closer : Char) : Except Cause (Level × State) :=
  if s.levels.length ≤ 1 then .error (.nothingOpen closer)
  else
    match s.levels with
    | top :: rest => .ok (top, { s with levels := rest })
    | [] => .error .stackUnderflow

theorem State.ascend_outermost (level : Level) (operand dotted : Bool) (closer : Char) :
    (State.mk [level] operand dotted).ascend closer = .error (.nothingOpen closer) := rfl

theorem State.ascend_inner (top below : Level) (rest : List Level) (operand dotted : Bool)
    (closer : Char) :
    (State.mk (top :: below :: rest) operand dotted).ascend closer =
      .ok (top, ⟨below :: rest, operand, dotted⟩) := by
  simp [ascend]

/-- The lists gathered by commas, with the tokens after the last comma unless there are
none. -/
def gathered (lists : List (List Token)) (tokens : List Token) : List (List Token) :=
  (if tokens.isEmpty then lists else tokens.reverse :: lists).reverse

/-- A comma: the tokens since the last one become an item or an argument. -/
def State.comma (s : State) : Except Cause State :=
  match s.levels with
  | ⟨some (.array items), tokens⟩ :: rest =>
    if tokens.isEmpty then .error .commaWithoutOperand
    else
      let level : Level := ⟨some (.array (tokens.reverse :: items)), []⟩
      .ok { s with levels := level :: rest, operand := false }
  | ⟨some (.call args), tokens⟩ :: rest =>
    if tokens.isEmpty then .error .commaWithoutOperand
    else
      let level : Level := ⟨some (.call (tokens.reverse :: args)), []⟩
      .ok { s with levels := level :: rest, operand := false }
  | _ => .error .commaOutsideList

/-- A closing bracket. -/
def State.closeBracket (s : State) : Except Cause State := do
  let (level, s) ← s.ascend ']'
  match level.opening with
  | some .index =>
    if level.tokens.isEmpty then .error .emptyIndex
    else .ok (s.push (.index level.tokens.reverse))
  | some (.array items) => .ok (s.push (.array (gathered items level.tokens)))
  | other => .error (.mismatched ']' other)

/-- A closing parenthesis. -/
def State.closeParenthesis (s : State) : Except Cause State := do
  let (level, s) ← s.ascend ')'
  match level.opening with
  | some (.call args) => .ok (s.push (.call (gathered args level.tokens)))
  | other => .error (.mismatched ')' other)

/-- One operator. Every operator but the dot is refused while a dot waits. -/
def State.operator (s : State) (c : Char) : Except Cause State :=
  if c = '.' then
    if s.operand then .ok { s with operand := false, dotted := true }
    else .error .dotWithoutOperand
  else if c = ',' ∨ c = '[' ∨ c = ']' ∨ c = '(' ∨ c = ')' then
    if s.dotted then .error (.danglingDot c)
    else if c = ',' then s.comma
    else if c = '[' then .ok (s.descend (if s.operand then .index else .array []))
    else if c = ']' then s.closeBracket
    else if c = '(' then
      if s.operand then .ok (s.descend (.call [])) else .error .callWithoutCallee
    else s.closeParenthesis
  else .error (.unknownOperator c)

/-- One operand. -/
def State.shift (s : State) (token : Token) : Except Cause State :=
  if s.operand then .error (.adjacentOperand token)
  else .ok { s.push token with dotted := false }

/-- One token. -/
def State.step (s : State) (token : Token) : Except Cause State :=
  match token with
  | .operator c => s.operator c
  | token => if token.isOperand then s.shift token else .error (.strayNode token)

/-- The end of the tokens: nothing may be open. -/
def State.close (s : State) : Except Cause (List Token) :=
  if s.dotted then .error .trailingDot
  else
    match s.levels with
    | [level] => .ok level.tokens.reverse
    | level :: _ => .error (.unclosed level.opening)
    | [] => .error (.unclosed none)

end Nesting

namespace Token

/-- The nested form of a list of tokens. -/
def nest (tokens : List Token) : Except Cause (List Token) := do
  (← tokens.foldlM Nesting.State.step Nesting.State.start).close

/-- The nested form of a list of tokens, with the expression that messages name. -/
def nestIn (expr : String) (tokens : List Token) : Except Fault (List Token) :=
  (nest tokens).mapError (⟨·, expr⟩)

/-- The nested tokens of a source text. -/
def parse (src : String) : Except Fault (List Token) := do
  nestIn src (← scan src)

end Token

end ReactiveViews
