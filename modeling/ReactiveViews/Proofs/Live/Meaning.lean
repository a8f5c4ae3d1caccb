import ReactiveViews.Live.Evaluation
import ReactiveViews.Proofs.Expr.Terms

/-!
# The meaning of chains

A term means a value and a *this*: what a call of the value would be made for. A name means what
the innermost scope that knows it says, and its this is that scope; what is selected from a value
has that value as its this; everything else has none. A call asks its callee first, then its
arguments from left to right, and then calls the value of the callee for the this of the callee.

The meaning of a term is put together from the meanings of its parts. Evaluation knows nothing of
parts: it goes through the steps of a chain with two registers.

## What is proved

**Evaluation** (`Eval.chain_means`). A compiled chain is evaluated to the value that its term
means. The two are one act: whatever the host program answers when a property is read or a function
is called, they read and call the same in the same order, fail with the same error, leave the same
world behind, or neither ever ends.
-/

namespace ReactiveViews

/-- What a term means. -/
structure Meaning where
  /-- The value. -/
  value : Value
  /-- What a call of the value would be made for. -/
  this : Value

variable {σ : Type}

/-! ### The meaning of terms -/

namespace Meaning

/-- The meaning of a value that belongs to nothing. -/
def alone (v : Value) : Meaning := ⟨v, .undefined⟩

/-- What a name means to a scope: something, if the scope owns it with another value than
undefined. -/
def inScope (name : String) (scope : Value) : Act σ (Option Meaning) := do
  match ← Act.getOwn scope name with
  | none | some .undefined => return none
  | some value => return some ⟨value, scope⟩

/-- The meaning of a name: what it means to the innermost scope that knows it. -/
def ofName (name : String) (context : Context) : Act σ Meaning :=
  return (← context.findSomeM? (inScope name)).getD (alone .undefined)

/-- The meaning of what a key selects. -/
def select (base : Meaning) (key : Value) : Act σ Meaning :=
  return ⟨← Act.getKeyed base.value key, base.value⟩

/-- The meaning of a call; only functions can be called. -/
def call (expr : String) (callee : Meaning) (args : List Value) : Eval σ Meaning :=
  match callee.value with
  | .function f => do return alone (← ExceptT.mk (Act.enterHost (.apply f callee.this args)))
  | other => throw (.notCallable expr other.typeName)

end Meaning

/-- The meaning of an operand at the front of a chain. -/
def Operand.meaning (context : Context) : Operand → Act σ Meaning
  | .symbol name => Meaning.ofName name context
  | o => return .alone o.value

namespace Term

mutual

/-- The meaning of a term. -/
def meaning (context : Context) (expr : String) : Term → Eval σ Meaning
  | operand o => Eval.act (o.meaning context)
  | array items => do
    let values ← Term.values context expr items
    return .alone (← Eval.act (Act.newArray values))
  | property base o => do
    let base ← base.meaning context expr
    Eval.act (base.select o.value)
  | index base key => do
    let base ← base.meaning context expr
    let key ← key.meaning context expr
    Eval.act (base.select key.value)
  | call callee args => do
    let callee ← callee.meaning context expr
    let args ← Term.values context expr args
    callee.call expr args

/-- The values of several terms, from left to right. -/
def values (context : Context) (expr : String) : List Term → Eval σ (List Value)
  | [] => return []
  | t :: rest => do
    let first ← t.meaning context expr
    let others ← values context expr rest
    return first.value :: others

end

end Term

/-! ### Evaluation -/

/-- The registers that say what is meant. -/
def Meaning.registers (m : Meaning) : Registers := ⟨m.this, m.value⟩

/-- The scopes are asked for a name from the innermost to the outermost, up to the first that knows
it. -/
theorem Meaning.ofName_eq (name : String) (context : Context) :
    (Meaning.ofName name context : Act σ Meaning) =
      (fun found => (found.map fun (scope, value) => ⟨value, scope⟩).getD (alone .undefined)) <$>
        Act.lookup name context := by
  unfold Meaning.ofName
  induction context with
  | nil => simp [Act.lookup]
  | cons scope rest ih =>
    simp only [List.findSomeM?, inScope, Act.lookup, map_bind, bind_assoc]
    congr 1
    funext owned
    cases owned with
    | none => simpa using ih
    | some value =>
      cases value with
      | undefined => simpa using ih
      | _ => simp

namespace Eval

theorem act_map {α β : Type} (f : α → β) (a : Act σ α) : act (f <$> a) = f <$> act a := by
  refine ExceptT.ext ?_
  simp [act, ExceptT.run_lift, Except.map]

/-! ### The single steps -/

theorem step_leading (context : Context) (expr : String) (o : Operand) :
    (step context expr .start o.leading : Eval σ Registers) =
      Meaning.registers <$> act (o.meaning context) := by
  cases o with
  | symbol name =>
    rw [Operand.leading, step, Operand.meaning, Meaning.ofName_eq, act_map, ← comp_map, map_eq_pure_bind]
    congr 1
    funext found
    cases found <;> rfl
  | string _ | integer _ | float _ => rfl

theorem step_select (m : Meaning) (key : Value) :
    (do return ⟨m.value, ← act (Act.getKeyed m.value key)⟩ : Eval σ Registers) =
      Meaning.registers <$> act (m.select key) := by
  simp [Meaning.select, Meaning.registers, act_map]

theorem apply_registers (expr : String) (callee : Meaning) (args : List Value) :
    (apply expr callee.registers args : Eval σ Registers) =
      Meaning.registers <$> callee.call expr args := by
  obtain ⟨value, receiver⟩ := callee
  cases value with
  | function f => simp [apply, Meaning.call, Meaning.registers, Meaning.alone, Act.apply]
  | _ => rfl

/-! ### The steps of a chain -/

theorem steps_append (context : Context) (expr : String) (r : Registers) (ss ss' : List Step) :
    (steps context expr r (ss ++ ss') : Eval σ Registers) =
      steps context expr r ss >>= fun r => steps context expr r ss' := by
  induction ss generalizing r with
  | nil => simp [steps]
  | cons s ss ih => simp [steps, ih]

/-- One step more at the end of a chain. -/
theorem steps_snoc (context : Context) (expr : String) (r : Registers) (ss : List Step) (s : Step) :
    (steps context expr r (ss ++ [s]) : Eval σ Registers) =
      steps context expr r ss >>= fun r => step context expr r s := by
  simp [steps_append, steps]

mutual

/-- The steps of a term lead to what it means. -/
theorem steps_means (context : Context) (expr : String) : (t : Term) →
    (steps context expr .start t.steps : Eval σ Registers) = Meaning.registers <$> t.meaning context expr
  | .operand o => by
    rw [Term.steps, ← List.nil_append [_], steps_snoc, steps, pure_bind, step_leading, Term.meaning]
  | .array items => by
    rw [Term.steps, ← List.nil_append [_], steps_snoc, steps, pure_bind, step, all_means context expr items,
      Term.meaning]
    simp [Meaning.registers, Meaning.alone]
  | .property base o => by
    rw [Term.steps, steps_snoc, steps_means context expr base, Term.meaning, bind_map_left, map_bind]
    simp only [step, ← step_select, Meaning.registers]
  | .index base key => by
    rw [Term.steps, steps_snoc, steps_means context expr base, Term.meaning, bind_map_left, map_bind]
    simp only [step, steps_means context expr key, bind_map_left, map_bind, ← step_select,
      Meaning.registers]
  | .call callee args => by
    rw [Term.steps, steps_snoc, steps_means context expr callee, Term.meaning, bind_map_left, map_bind]
    simp only [step, all_means context expr args, apply_registers, map_bind]

/-- The values of several chains are those that their terms mean. -/
theorem all_means (context : Context) (expr : String) : (ts : List Term) →
    (all context expr (Term.stepsOf ts) : Eval σ (List Value)) = Term.values context expr ts
  | [] => rfl
  | t :: rest => by
    simp [Term.stepsOf, all, steps_means context expr t, all_means context expr rest, Term.values,
      Meaning.registers]

end

/-- **Evaluation**: a chain that compiles is the flat form of exactly one term, and evaluating it
is one act with taking the value of what the term means. -/
theorem chain_means {tokens : List Token} {expr : String} {c : Chain} (h : Token.IsChain tokens)
    (hc : Chain.ofTokens tokens expr = .ok c) :
    ∃ t : Term, t.tokens = tokens ∧ (∀ t' : Term, t'.tokens = tokens → t' = t) ∧
      ∀ (σ : Type) (context : Context),
        (chain context c : Eval σ Value) = Meaning.value <$> t.meaning context expr := by
  obtain ⟨t, rfl, hunique⟩ := h.existsUnique_term
  rw [Chain.ofTokens_tokens] at hc
  cases hc
  refine ⟨t, rfl, hunique, fun σ context => ?_⟩
  simp [chain, steps_means, Meaning.registers]

/-- `obj.get(x)` calls what `obj` has under `get`, for `obj` and with `x`. -/
theorem chain_means_method_call :
    Token.IsChain [.symbol "obj", .symbol "get", .call [[.symbol "x"]]] ∧
      Chain.ofTokens [.symbol "obj", .symbol "get", .call [[.symbol "x"]]] "obj.get(x)" =
        .ok ⟨[.lookup "obj", .property (.str "get"), .call [[.lookup "x"]]], "obj.get(x)"⟩ ∧
      ∀ context : Context,
        (chain context ⟨[.lookup "obj", .property (.str "get"), .call [[.lookup "x"]]], "obj.get(x)"⟩ :
            Eval Unit Value) = do
          let obj ← act (Meaning.ofName "obj" context)
          let get ← act (obj.select (.str "get"))
          let x ← act (Meaning.ofName "x" context)
          return (← get.call "obj.get(x)" [x.value]).value := by
  have hx : Token.IsChain [.symbol "x"] := .singleton (.operand rfl)
  have hchain : Token.IsChain [.symbol "obj", .symbol "get", .call [[.symbol "x"]]] :=
    .mk (.operand rfl) (by simpa using ⟨.operand rfl, .call (by simpa using hx)⟩)
  have hcompiled : Chain.ofTokens [.symbol "obj", .symbol "get", .call [[.symbol "x"]]] "obj.get(x)" =
      .ok ⟨[.lookup "obj", .property (.str "get"), .call [[.lookup "x"]]], "obj.get(x)"⟩ := rfl
  refine ⟨hchain, hcompiled, fun context => ?_⟩
  obtain ⟨t, -, hunique, ht⟩ := chain_means hchain hcompiled
  have hterm : .call (.property (.operand (.symbol "obj")) (.symbol "get")) [.operand (.symbol "x")] = t :=
    hunique _ rfl
  rw [ht Unit context, ← hterm]
  simp [Term.meaning, Term.values, Operand.meaning, Operand.value]

end Eval

end ReactiveViews
