import ReactiveViews.Expr.Chain
import ReactiveViews.Proofs.Expr.Grammar
import Mathlib.Data.Set.List

/-!
# The trees of chains

A chain is a tree written flat. `a.b[c](d)` is the call, with `d`, of what `c` selects from what
`.b` selects from `a`: each token behind the first applies to everything before it. A `Term` says
so outright.

## What is proved

Every chain is the flat form of exactly one term (`Token.IsChain.existsUnique_term`), and nothing
but chains are flat forms (`Term.isChain_tokens`). A chain compiles to the steps of its term
(`Step.ofChain_tokens`).
-/

namespace ReactiveViews

/-! ### Operands -/

/-- A symbol or a literal. -/
inductive Operand where
  /-- An identifier. -/
  | symbol (name : String)
  /-- A text. -/
  | string (s : String)
  /-- An integer. -/
  | integer (i : Int64)
  /-- A number with a point. -/
  | float (x : Float)

namespace Operand

/-- An operand as a token. -/
def token : Operand → Token
  | symbol name => .symbol name
  | string s => .string s
  | integer i => .integer i
  | float x => .float x

/-- The value of a literal; a symbol that is no name to look up is the text of its name. -/
def value : Operand → Value
  | symbol name => .str name
  | string s => .str s
  | integer i => .int i
  | float x => .float x

/-- The step of an operand at the front of a chain. -/
def leading : Operand → Step
  | symbol name => .lookup name
  | string s => .constant (.str s)
  | integer i => .constant (.int i)
  | float x => .constant (.float x)

@[simp] theorem isOperand_token (o : Operand) : o.token.isOperand = true := by
  cases o <;> rfl

@[simp] theorem token_ne_array (o : Operand) (items : List (List Token)) :
    o.token ≠ .array items ∧ .array items ≠ o.token := by
  cases o <;> simp [token]

@[simp] theorem token_ne_index (o : Operand) (chain : List Token) :
    o.token ≠ .index chain ∧ .index chain ≠ o.token := by
  cases o <;> simp [token]

@[simp] theorem token_ne_call (o : Operand) (args : List (List Token)) :
    o.token ≠ .call args ∧ .call args ≠ o.token := by
  cases o <;> simp [token]

theorem token_injective {o o' : Operand} (h : o.token = o'.token) : o = o' := by
  cases o <;> cases o' <;> simp_all [token]

/-- Every operand token is the token of an operand. -/
theorem exists_token_eq {token : Token} (h : token.isOperand = true) :
    ∃ o : Operand, o.token = token := by
  cases token with
  | symbol name => exact ⟨symbol name, rfl⟩
  | string s => exact ⟨string s, rfl⟩
  | integer i => exact ⟨integer i, rfl⟩
  | float x => exact ⟨float x, rfl⟩
  | index _ | array _ | call _ | operator _ => cases h

theorem ofToken_true (o : Operand) : Step.ofToken true o.token = .ok o.leading := by
  cases o <;> rfl

theorem ofToken_false (o : Operand) : Step.ofToken false o.token = .ok (.property o.value) := by
  cases o <;> rfl

end Operand

/-! ### Terms -/

/-- The tree of a chain: what is done to what. -/
inductive Term where
  /-- A symbol or a literal. -/
  | operand (o : Operand)
  /-- An array of terms. -/
  | array (items : List Term)
  /-- What an operand behind a dot selects. -/
  | property (base : Term) (o : Operand)
  /-- What a term between brackets selects. -/
  | index (base key : Term)
  /-- A call with terms. -/
  | call (callee : Term) (args : List Term)

namespace Term

mutual

/-- The flat form of a term. -/
def tokens : Term → List Token
  | operand o => [o.token]
  | array items => [.array (tokensOf items)]
  | property base o => base.tokens ++ [o.token]
  | index base key => base.tokens ++ [.index key.tokens]
  | call callee args => callee.tokens ++ [.call (tokensOf args)]

/-- The flat forms of several terms. -/
def tokensOf : List Term → List (List Token)
  | [] => []
  | t :: rest => t.tokens :: tokensOf rest

end

mutual

/-- The steps that lead to the value of a term. -/
def steps : Term → List Step
  | operand o => [o.leading]
  | array items => [.array (stepsOf items)]
  | property base o => base.steps ++ [.property o.value]
  | index base key => base.steps ++ [.index key.steps]
  | call callee args => callee.steps ++ [.call (stepsOf args)]

/-- The steps of several terms. -/
def stepsOf : List Term → List (List Step)
  | [] => []
  | t :: rest => t.steps :: stepsOf rest

end

theorem tokensOf_eq_map (ts : List Term) : tokensOf ts = ts.map tokens := by
  induction ts with
  | nil => rfl
  | cons t ts ih => rw [tokensOf, ih, List.map_cons]

@[simp] theorem tokens_ne_nil (t : Term) : t.tokens ≠ [] := by
  cases t <;> simp [tokens]

end Term

/-! ### Terms and chains -/

open Token

namespace Term

mutual

/-- The flat form of a term is a chain. -/
theorem isChain_tokens : (t : Term) → IsChain t.tokens
  | operand o => .singleton (.operand o.isOperand_token)
  | array items => .singleton (.array (isChain_of_mem_tokensOf items))
  | property base o => base.isChain_tokens.snoc (.operand o.isOperand_token)
  | index base key => base.isChain_tokens.snoc (.index key.isChain_tokens)
  | call callee args => callee.isChain_tokens.snoc (.call (isChain_of_mem_tokensOf args))

theorem isChain_of_mem_tokensOf : (ts : List Term) → ∀ chain ∈ tokensOf ts, IsChain chain
  | [] => fun _ h => absurd h List.not_mem_nil
  | t :: rest => List.forall_mem_cons.mpr ⟨t.isChain_tokens, isChain_of_mem_tokensOf rest⟩

end

/-- The last token of the flat form of a term, and what stands before it. -/
def ending : Term → List Token × Token
  | operand o => ([], o.token)
  | array items => ([], .array (tokensOf items))
  | property base o => (base.tokens, o.token)
  | index base key => (base.tokens, .index key.tokens)
  | call callee args => (callee.tokens, .call (tokensOf args))

theorem tokens_eq_ending (t : Term) : t.tokens = t.ending.1 ++ [t.ending.2] := by
  cases t <;> simp [tokens, ending]

theorem ending_eq {t t' : Term} (h : t.tokens = t'.tokens) : t.ending = t'.ending := by
  rw [tokens_eq_ending, tokens_eq_ending] at h
  obtain ⟨hbefore, hlast⟩ := List.append_inj' h rfl
  exact Prod.ext hbefore (List.singleton_inj.mp hlast)

mutual

/-- Different terms have different flat forms: the last token tells what is done last, and what
stands before it is the flat form of what that is done to. -/
theorem tokens_injective : (t t' : Term) → t.tokens = t'.tokens → t = t'
  | operand o, t', h => by
    have hend := ending_eq h
    cases t' <;> simp [ending] at hend
    rw [Operand.token_injective hend]
  | array items, t', h => by
    have hend := ending_eq h
    cases t' <;> simp [ending] at hend
    rw [tokensOf_injective _ _ hend]
  | property base o, t', h => by
    have hend := ending_eq h
    cases t' <;> simp [ending] at hend
    rw [tokens_injective _ _ hend.1, Operand.token_injective hend.2]
  | index base key, t', h => by
    have hend := ending_eq h
    cases t' <;> simp [ending] at hend
    rw [tokens_injective _ _ hend.1, tokens_injective _ _ hend.2]
  | call callee args, t', h => by
    have hend := ending_eq h
    cases t' <;> simp [ending] at hend
    rw [tokens_injective _ _ hend.1, tokensOf_injective _ _ hend.2]

/-- Different lists of terms have different flat forms. -/
theorem tokensOf_injective : (ts ts' : List Term) → tokensOf ts = tokensOf ts' → ts = ts'
  | [], [], _ => rfl
  | [], _ :: _, h => by cases h
  | _ :: _, [], h => by cases h
  | t :: rest, t' :: rest', h => by
    obtain ⟨ht, hrest⟩ := List.cons.inj h
    rw [tokens_injective t t' ht, tokensOf_injective rest rest' hrest]

end

/-- Behind a term, whatever can follow in a chain makes a larger term. -/
theorem exists_tokens_append {rest : List Token}
    (h : ∀ token ∈ rest, ∀ base : Term, ∃ t : Term, t.tokens = base.tokens ++ [token]) (base : Term) :
    ∃ t : Term, t.tokens = base.tokens ++ rest := by
  induction rest generalizing base with
  | nil => exact ⟨base, (List.append_nil _).symm⟩
  | cons token rest ih =>
    obtain ⟨larger, hlarger⟩ := h token (List.mem_cons_self ..) base
    obtain ⟨t, ht⟩ := ih (fun u hu => h u (List.mem_cons_of_mem _ hu)) larger
    exact ⟨t, by rw [ht, hlarger, List.append_assoc, List.singleton_append]⟩

theorem exists_tokensOf_eq {chains : List (List Token)}
    (h : ∀ chain ∈ chains, ∃ t : Term, t.tokens = chain) : ∃ ts, tokensOf ts = chains := by
  have hrange : chains ∈ Set.range (List.map tokens) := by
    rw [Set.range_list_map]
    exact h
  obtain ⟨ts, hts⟩ := hrange
  exact ⟨ts, by rw [tokensOf_eq_map, hts]⟩

end Term

/-- Every chain is the flat form of a term. -/
theorem Token.IsChain.exists_term {chain : List Token} (h : IsChain chain) :
    ∃ t : Term, t.tokens = chain := by
  refine @IsChain.rec
    (fun chain _ => ∃ t : Term, t.tokens = chain)
    (fun token _ => ∃ t : Term, t.tokens = [token])
    (fun token _ => ∀ base : Term, ∃ t : Term, t.tokens = base.tokens ++ [token])
    ?mk ?leadOperand ?array ?followOperand ?index ?call chain h
  case mk =>
    intro head rest _ _ hlead hfollow
    obtain ⟨base, hbase⟩ := hlead
    obtain ⟨t, ht⟩ := Term.exists_tokens_append hfollow base
    exact ⟨t, by rw [ht, hbase, List.singleton_append]⟩
  case leadOperand =>
    intro token ht
    obtain ⟨o, rfl⟩ := Operand.exists_token_eq ht
    exact ⟨.operand o, rfl⟩
  case array =>
    intro items _ hitems
    obtain ⟨ts, rfl⟩ := Term.exists_tokensOf_eq hitems
    exact ⟨.array ts, rfl⟩
  case followOperand =>
    intro token ht base
    obtain ⟨o, rfl⟩ := Operand.exists_token_eq ht
    exact ⟨.property base o, rfl⟩
  case index =>
    rintro chain _ ⟨key, rfl⟩ base
    exact ⟨.index base key, rfl⟩
  case call =>
    intro args _ hargs base
    obtain ⟨ts, rfl⟩ := Term.exists_tokensOf_eq hargs
    exact ⟨.call base ts, rfl⟩

/-- Every chain is the flat form of exactly one term. -/
theorem Token.IsChain.existsUnique_term {chain : List Token} (h : IsChain chain) :
    ∃! t : Term, t.tokens = chain := by
  obtain ⟨t, ht⟩ := h.exists_term
  exact ⟨t, ht, fun t' ht' => Term.tokens_injective t' t (ht'.trans ht.symm)⟩

/-! ### Compiling the flat form -/

namespace Step

theorem ofRest_append (ts us : List Token) :
    ofRest (ts ++ us) = do return (← ofRest ts) ++ (← ofRest us) := by
  induction ts with
  | nil => exact (bind_pure (ofRest us)).symm
  | cons t ts ih => simp [ofRest, ih]

/-- A chain that grows at its end has more steps at the end. -/
theorem ofChain_append {chain : List Token} (h : chain ≠ []) (ts : List Token) :
    ofChain (chain ++ ts) = do return (← ofChain chain) ++ (← ofRest ts) := by
  cases chain with
  | nil => exact absurd rfl h
  | cons head rest => simp [ofChain, ofRest_append]

/-- A term that is done something to. -/
theorem ofChain_snoc {t : Term} {token : Token} {s : Step} (ht : ofChain t.tokens = .ok t.steps)
    (htoken : ofToken false token = .ok s) :
    ofChain (t.tokens ++ [token]) = .ok (t.steps ++ [s]) := by
  rw [ofChain_append t.tokens_ne_nil, ht, ofRest, htoken]
  rfl

mutual

/-- A chain compiles to the steps of its term. -/
theorem ofChain_tokens : (t : Term) → ofChain t.tokens = .ok t.steps
  | .operand o => by
    rw [Term.tokens, ofChain, o.ofToken_true]
    rfl
  | .array items => by
    rw [Term.tokens, ofChain, ofToken, ofChains_tokensOf items]
    rfl
  | .property base o => ofChain_snoc (ofChain_tokens base) o.ofToken_false
  | .index base key => by
    refine ofChain_snoc (ofChain_tokens base) ?_
    rw [ofToken, ofChain_tokens key]
    rfl
  | .call callee args => by
    refine ofChain_snoc (ofChain_tokens callee) ?_
    rw [ofToken, ofChains_tokensOf args]
    rfl

/-- Chains compile to the steps of their terms. -/
theorem ofChains_tokensOf : (ts : List Term) → ofChains (Term.tokensOf ts) = .ok (Term.stepsOf ts)
  | [] => rfl
  | t :: rest => by
    rw [Term.tokensOf, ofChains, ofChain_tokens t, ofChains_tokensOf rest]
    rfl

end

end Step

/-- A chain compiles, whatever messages name it by. -/
theorem Chain.ofTokens_tokens (t : Term) (expr : String) :
    Chain.ofTokens t.tokens expr = .ok ⟨t.steps, expr⟩ := by
  rw [ofTokens, Step.ofChain_tokens]

end ReactiveViews
