import ReactiveViews.Expr.Nest
import ReactiveViews.Value.Basic
import ReactiveViews.Traced

/-!
# Chains

A nested expression made ready for evaluation: the first token says where to begin, every
further one what to do with the value so far. What cannot stand at its place in a chain is
refused here, though nesting never produces such a thing from a source text.
-/

namespace ReactiveViews

/-- One step of a chain. -/
inductive Step where
  /-- Look a name up in the scopes. -/
  | lookup (name : String)
  /-- Take a literal. -/
  | constant (v : Value)
  /-- Select by a literal key. -/
  | property (key : Value)
  /-- Select by the value of a chain. -/
  | index (chain : List Step)
  /-- Make a new array of the values of chains. -/
  | array (items : List (List Step))
  /-- Call with the values of chains. -/
  | call (args : List (List Step))
  deriving Inhabited

/-- The step of a literal: at the front of a chain it is the value to begin with, behind it a
key. -/
def Step.ofLiteral (leading : Bool) (v : Value) : Step :=
  if leading then .constant v else .property v

mutual

/-- The step of one token, which is the first of its chain or not. -/
def Step.ofToken (leading : Bool) : Token → Except Cause Step
  | .symbol s => .ok (if leading then .lookup s else .property (.str s))
  | .string s => .ok (.ofLiteral leading (.str s))
  | .integer i => .ok (.ofLiteral leading (.int i))
  | .float x => .ok (.ofLiteral leading (.float x))
  | .index chain =>
    if leading then .error (.noRule true (.index chain)) else .index <$> Step.ofChain chain
  | .array items => .array <$> Step.ofChains items
  | .call args =>
    if leading then .error (.noRule true (.call args)) else .call <$> Step.ofChains args
  | .operator c => .error (.noRule leading (.operator c))

/-- The steps of a chain, which has at least one. -/
def Step.ofChain : List Token → Except Cause (List Step)
  | [] => .error .emptyExpression
  | token :: rest => do return (← Step.ofToken true token) :: (← Step.ofRest rest)

/-- The steps of the tokens after the first. -/
def Step.ofRest : List Token → Except Cause (List Step)
  | [] => .ok []
  | token :: rest => do return (← Step.ofToken false token) :: (← Step.ofRest rest)

/-- The steps of several chains, one after the other. -/
def Step.ofChains : List (List Token) → Except Cause (List (List Step))
  | [] => .ok []
  | chain :: rest => do return (← Step.ofChain chain) :: (← Step.ofChains rest)

end

/-- An expression ready for evaluation: its steps, and its text for messages. -/
structure Chain where
  /-- The steps; there is at least one. -/
  steps : List Step
  /-- The text of the expression. -/
  expr : String
  deriving Inhabited

/-- Compiles nested tokens; messages name the expression by `expr`. -/
def Chain.ofTokens (tokens : List Token) (expr : String) : Except Fault Chain :=
  match Step.ofChain tokens with
  | .ok steps => .ok ⟨steps, expr⟩
  | .error cause => .error ⟨cause, expr⟩

/-- Compiles a source text. Scanning and nesting name it as it is written, compiling without
white space at its ends. -/
def Chain.compile (src : String) : Traced Fault Chain := do
  let tokens ← Traced.lift (Token.parse src)
  Traced.remark (.expression (Text.trim src) tokens.length)
  Traced.lift (Chain.ofTokens tokens (Text.trim src))

end ReactiveViews
