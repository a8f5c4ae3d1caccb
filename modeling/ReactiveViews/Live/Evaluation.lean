import ReactiveViews.Live.Property

/-!
# Evaluation

The value of a compiled expression in a context. A chain is evaluated from left to right with
two registers: the value so far, and the receiver, which is what a call would be made for. A
name is looked up in the scopes from the innermost to the outermost, and the first that owns it
with a defined value answers; that scope is the receiver.

A key comes before the property is read, and the arguments come before it is asked whether the
value can be called at all.
-/

namespace ReactiveViews

/-- The registers of an evaluation. -/
structure Registers where
  /-- What a call would be made for. -/
  receiver : Value
  /-- The value so far. -/
  current : Value

/-- The registers before the first step. -/
def Registers.start : Registers := ⟨.undefined, .undefined⟩

namespace Act

variable {σ : Type}

/-- The first scope that owns a name with a defined value, and that value. -/
def lookup (name : String) : Context → Act σ (Option (Value × Value))
  | [] => return none
  | scope :: rest => do
    match ← getOwn scope name with
    | none | some .undefined => lookup name rest
    | some value => return some (scope, value)

/-- Calls a function for a receiver. -/
def apply (f : Function) (receiver : Value) (args : List Value) : Act σ (Except EvalError Value) :=
  enterHost (.apply f receiver args)

end Act

namespace Eval

variable {σ : Type}

/-- Calls a value, if it is a function. -/
def apply (expr : String) (r : Registers) (args : List Value) : Eval σ Registers :=
  match r.current with
  | .function f => do return ⟨.undefined, ← ExceptT.mk (Act.apply f r.receiver args)⟩
  | other => throw (.notCallable expr other.typeName)

mutual

/-- One step of a chain. -/
def step (context : Context) (expr : String) (r : Registers) : Step → Eval σ Registers
  | .lookup name => do
    match ← act (Act.lookup name context) with
    | some (scope, value) => return ⟨scope, value⟩
    | none => return .start
  | .constant v => return ⟨.undefined, v⟩
  | .property key => do return ⟨r.current, ← act (Act.getKeyed r.current key)⟩
  | .index chain => do
    let key ← steps context expr .start chain
    return ⟨r.current, ← act (Act.getKeyed r.current key.current)⟩
  | .array items => do return ⟨.undefined, ← act (Act.newArray (← all context expr items))⟩
  | .call args => do
    let args ← all context expr args
    apply expr r args

/-- The steps of a chain, one after the other. -/
def steps (context : Context) (expr : String) (r : Registers) : List Step → Eval σ Registers
  | [] => return r
  | s :: rest => do steps context expr (← step context expr r s) rest

/-- The values of several chains, from left to right. -/
def all (context : Context) (expr : String) : List (List Step) → Eval σ (List Value)
  | [] => return []
  | chain :: rest => do
    let r ← steps context expr .start chain
    return r.current :: (← all context expr rest)

end

/-- The value of an expression. -/
def chain (context : Context) (c : Chain) : Eval σ Value :=
  return (← steps context c.expr .start c.steps).current

/-- The value of one part of a text. -/
def part (context : Context) : Part → Eval σ Value
  | .plain text => return .str text
  | .chain c => chain context c

/-- The texts of the parts, one after the other. -/
def joined (context : Context) : List Part → Eval σ String
  | [] => return ""
  | p :: rest => do
    let text ← act (Act.text (← part context p))
    return text ++ (← joined context rest)

/-- The value of a directive: a constant, the one part of a text, or all parts as a text. -/
def resolve (context : Context) : Resolver → Eval σ Value
  | .constant v => return v
  | .text [p] => part context p
  | .text parts => return .str (← joined context parts)

/-- Whether a node is shown in a context. -/
def shows (context : Context) (node : Node Resolver) : Eval σ Bool :=
  match node.condition with
  | some condition => return (← resolve context condition).truthy
  | none => return true

end Eval

end ReactiveViews
