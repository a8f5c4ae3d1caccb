import ReactiveViews.Expr.Nest
import Mathlib.Data.List.Induction

/-!
# The grammar of chains

Which token trees are chains, and how a chain is written as a flat list of tokens. A chain
begins with an operand or an array; behind that stand operands, which a dot selects, index
nodes and call nodes. The chains inside of a node are chains again.

The moves of the nesting machine are listed beside it: `Move s t s'` says that the state `s`
takes the token `t` to the state `s'`. A move is a successful step (`Move.step_eq`), and from a
state with a level every successful step is a move (`Move.of_step`).

## What is proved

Reading the written form of a chain gives the chain back, with whatever is open around it
(`reads_flat`).
-/

namespace ReactiveViews

namespace Token

/-! ### Chains -/

mutual

/-- A well-formed chain. -/
inductive IsChain : List Token → Prop where
  /-- Something to begin with, and what is done to it. -/
  | mk {head : Token} {rest : List Token} :
    Leads head → (∀ token ∈ rest, Follows token) → IsChain (head :: rest)

/-- A token that a chain can begin with. -/
inductive Leads : Token → Prop where
  /-- A symbol or a literal. -/
  | operand {token : Token} : token.isOperand = true → Leads token
  /-- An array of chains. -/
  | array {items : List (List Token)} : (∀ item ∈ items, IsChain item) → Leads (.array items)

/-- A token that can stand behind others in a chain. -/
inductive Follows : Token → Prop where
  /-- A symbol or a literal. -/
  | operand {token : Token} : token.isOperand = true → Follows token
  /-- An index that is a chain. -/
  | index {chain : List Token} : IsChain chain → Follows (.index chain)
  /-- A call with chains. -/
  | call {args : List (List Token)} : (∀ arg ∈ args, IsChain arg) → Follows (.call args)

end

theorem IsChain.ne_nil {chain : List Token} (h : IsChain chain) : chain ≠ [] := by
  cases h
  exact List.cons_ne_nil _ _

/-- A chain grows at its end. -/
theorem IsChain.snoc {chain : List Token} {token : Token} (h : IsChain chain)
    (ht : Follows token) : IsChain (chain ++ [token]) := by
  obtain ⟨hhead, hrest⟩ := h
  refine .mk hhead fun u hu => ?_
  rcases List.mem_append.mp hu with hu | hu
  · exact hrest u hu
  · rw [List.mem_singleton.mp hu]
    exact ht

theorem IsChain.singleton {token : Token} (h : Leads token) : IsChain [token] :=
  .mk h fun _ hu => absurd hu (List.not_mem_nil)

/-- The chain itself, or a chain somewhere inside of it. -/
inductive Within (inner : List Token) : List Token → Prop where
  /-- The chain itself. -/
  | self : Within inner inner
  /-- Inside of an index. -/
  | index {chain outer : List Token} : .index chain ∈ outer → Within inner chain → Within inner outer
  /-- Inside of an item of an array. -/
  | item {items : List (List Token)} {item outer : List Token} : .array items ∈ outer → item ∈ items →
    Within inner item → Within inner outer
  /-- Inside of an argument of a call. -/
  | arg {args : List (List Token)} {arg outer : List Token} : .call args ∈ outer → arg ∈ args →
    Within inner arg → Within inner outer

theorem IsChain.leads_or_follows {chain : List Token} {token : Token} (h : IsChain chain)
    (ht : token ∈ chain) : Leads token ∨ Follows token := by
  obtain ⟨hhead, hrest⟩ := h
  rcases List.mem_cons.mp ht with rfl | ht
  · exact .inl hhead
  · exact .inr (hrest token ht)

/-- Whatever is inside of a chain is a chain. -/
theorem IsChain.within {inner outer : List Token} (h : IsChain outer) (hw : Within inner outer) :
    IsChain inner := by
  induction hw with
  | self => exact h
  | index hmem _ ih =>
    rcases h.leads_or_follows hmem with hindex | hindex
    · cases hindex with
      | operand ht => cases ht
    · cases hindex with
      | operand ht => cases ht
      | index hchain => exact ih hchain
  | item hmem hitem _ ih =>
    rcases h.leads_or_follows hmem with harray | harray
    · cases harray with
      | operand ht => cases ht
      | array hitems => exact ih (hitems _ hitem)
    · cases harray with
      | operand ht => cases ht
  | arg hmem harg _ ih =>
    rcases h.leads_or_follows hmem with hcall | hcall
    · cases hcall with
      | operand ht => cases ht
    · cases hcall with
      | operand ht => cases ht
      | call hargs => exact ih (hargs _ harg)

/-! ### The written form -/

/-- The dot that is written before an operand behind others. -/
def dotBefore (token : Token) : List Token := if token.isOperand then [.operator '.'] else []

mutual

/-- A chain as a flat list of tokens. -/
def flat : List Token → List Token
  | [] => []
  | head :: rest => written head ++ flatRest rest

/-- The tokens of a chain behind its first. -/
def flatRest : List Token → List Token
  | [] => []
  | token :: rest => dotBefore token ++ written token ++ flatRest rest

/-- One token of a chain: an operand is itself, a node its chains between brackets. -/
def written : Token → List Token
  | .index chain => .operator '[' :: (flat chain ++ [.operator ']'])
  | .array items => .operator '[' :: (listed items ++ [.operator ']'])
  | .call args => .operator '(' :: (listed args ++ [.operator ')'])
  | token => [token]

/-- Several chains with commas between them. -/
def listed : List (List Token) → List Token
  | [] => []
  | chain :: rest => flat chain ++ listedRest rest

/-- The chains behind the first, each after its comma. -/
def listedRest : List (List Token) → List Token
  | [] => []
  | chain :: rest => .operator ',' :: (flat chain ++ listedRest rest)

end

theorem written_of_isOperand {token : Token} (h : token.isOperand = true) :
    written token = [token] := by
  cases token <;> simp_all [isOperand, written]

theorem flatRest_append (ts us : List Token) : flatRest (ts ++ us) = flatRest ts ++ flatRest us := by
  induction ts with
  | nil => simp [flatRest]
  | cons t ts ih => simp [flatRest, ih]

/-- The written form of a chain that grows at its end. -/
theorem flat_snoc {chain : List Token} (h : chain ≠ []) (token : Token) :
    flat (chain ++ [token]) = flat chain ++ (dotBefore token ++ written token) := by
  cases chain with
  | nil => exact absurd rfl h
  | cons head rest => simp [flat, flatRest_append, flatRest]

end Token

/-! ### The moves of the machine -/

namespace Nesting

/-- The two kinds of nodes that list chains. -/
inductive ListKind where
  /-- An array. -/
  | array
  /-- The arguments of a call. -/
  | call

namespace ListKind

/-- The opening of a list with the chains gathered so far, last first. -/
def opening : ListKind → List (List Token) → Opening
  | array => .array
  | call => .call

/-- The node of a list. -/
def node : ListKind → List (List Token) → Token
  | array => .array
  | call => .call

/-- The character that opens a list. -/
def opener : ListKind → Char
  | array => '['
  | call => '('

/-- The character that closes a list. -/
def closer : ListKind → Char
  | array => ']'
  | call => ')'

end ListKind

/-- The state `s` takes the token `t` to the state `s'`. -/
inductive Move : State → Token → State → Prop where
  /-- An operand. -/
  | shift {opening : Option Opening} {tokens : List Token} {rest : List Level} {dotted : Bool}
      {token : Token} : token.isOperand = true →
    Move ⟨⟨opening, tokens⟩ :: rest, false, dotted⟩ token ⟨⟨opening, token :: tokens⟩ :: rest, true, false⟩
  /-- A dot after an operand. -/
  | dot {levels : List Level} {dotted : Bool} :
    Move ⟨levels, true, dotted⟩ (.operator '.') ⟨levels, false, true⟩
  /-- A comma after a chain of a list. -/
  | comma (kind : ListKind) {lists : List (List Token)} {tokens : List Token} {rest : List Level}
      {operand : Bool} : tokens ≠ [] →
    Move ⟨⟨some (kind.opening lists), tokens⟩ :: rest, operand, false⟩ (.operator ',')
      ⟨⟨some (kind.opening (tokens.reverse :: lists)), []⟩ :: rest, false, false⟩
  /-- A bracket after an operand. -/
  | openIndex {levels : List Level} :
    Move ⟨levels, true, false⟩ (.operator '[') ⟨⟨some .index, []⟩ :: levels, false, false⟩
  /-- A bracket after no operand. -/
  | openArray {levels : List Level} :
    Move ⟨levels, false, false⟩ (.operator '[') ⟨⟨some (.array []), []⟩ :: levels, false, false⟩
  /-- A parenthesis after an operand. -/
  | openCall {levels : List Level} :
    Move ⟨levels, true, false⟩ (.operator '(') ⟨⟨some (.call []), []⟩ :: levels, false, false⟩
  /-- The end of an index. -/
  | closeIndex {tokens below : List Token} {opening : Option Opening} {rest : List Level}
      {operand : Bool} : tokens ≠ [] →
    Move ⟨⟨some .index, tokens⟩ :: ⟨opening, below⟩ :: rest, operand, false⟩ (.operator ']')
      ⟨⟨opening, .index tokens.reverse :: below⟩ :: rest, true, false⟩
  /-- The end of a list. -/
  | closeList (kind : ListKind) {lists : List (List Token)} {tokens below : List Token}
      {opening : Option Opening} {rest : List Level} {operand : Bool} :
    Move ⟨⟨some (kind.opening lists), tokens⟩ :: ⟨opening, below⟩ :: rest, operand, false⟩
      (.operator kind.closer)
      ⟨⟨opening, kind.node (gathered lists tokens) :: below⟩ :: rest, true, false⟩

/-- A move is a successful step. -/
theorem Move.step_eq {s s' : State} {t : Token} (h : Move s t s') : s.step t = .ok s' := by
  cases h with
  | shift ht =>
    cases t <;> simp_all [Token.isOperand, State.step, State.shift, State.push]
  | dot => rfl
  | @comma kind lists tokens _ _ hne =>
    have hempty : tokens.isEmpty = false := by simpa using hne
    cases kind <;> simp [State.step, State.operator, State.comma, ListKind.opening, hempty]
  | openIndex => rfl
  | openArray => rfl
  | openCall => rfl
  | @closeIndex tokens _ _ _ _ hne =>
    have hempty : tokens.isEmpty = false := by simpa using hne
    simp [State.step, State.operator, State.closeBracket, State.ascend_inner, bind, Except.bind,
      State.push, hempty]
  | closeList kind => cases kind <;> rfl

theorem Move.of_shift {s s' : State} {t : Token} (hl : s.levels ≠ []) (ht : t.isOperand = true)
    (h : s.shift t = .ok s') : Move s t s' := by
  obtain ⟨levels, operand, dotted⟩ := s
  cases levels with
  | nil => exact absurd rfl hl
  | cons level rest =>
    simp only [State.shift, State.push] at h
    split at h
    · cases h
    · rename_i hoperand
      cases h
      simp only [Bool.not_eq_true] at hoperand
      subst hoperand
      exact .shift ht

theorem Move.of_comma {levels : List Level} {operand : Bool} {s' : State}
    (h : State.comma ⟨levels, operand, false⟩ = .ok s') :
    Move ⟨levels, operand, false⟩ (.operator ',') s' := by
  simp only [State.comma] at h
  split at h
  · rename_i items tokens rest
    split at h
    · cases h
    · rename_i hne
      cases h
      exact .comma .array (by simpa using hne)
  · rename_i args tokens rest
    split at h
    · cases h
    · rename_i hne
      cases h
      exact .comma .call (by simpa using hne)
  · cases h

theorem Move.of_closeBracket {levels : List Level} {operand : Bool} {s' : State}
    (h : State.closeBracket ⟨levels, operand, false⟩ = .ok s') :
    Move ⟨levels, operand, false⟩ (.operator ']') s' := by
  rcases levels with _ | ⟨⟨opening, tokens⟩, _ | ⟨below, rest⟩⟩
  · cases h
  · cases h
  · simp only [State.closeBracket, State.ascend_inner, bind, Except.bind] at h
    split at h
    · split at h
      · cases h
      · rename_i hne
        cases h
        exact .closeIndex (by simpa using hne)
    · cases h
      exact .closeList .array
    · cases h

theorem Move.of_closeParenthesis {levels : List Level} {operand : Bool} {s' : State}
    (h : State.closeParenthesis ⟨levels, operand, false⟩ = .ok s') :
    Move ⟨levels, operand, false⟩ (.operator ')') s' := by
  rcases levels with _ | ⟨⟨opening, tokens⟩, _ | ⟨below, rest⟩⟩
  · cases h
  · cases h
  · simp only [State.closeParenthesis, State.ascend_inner, bind, Except.bind] at h
    split at h
    · cases h
      exact .closeList .call
    · cases h

theorem Move.of_operator {s s' : State} {c : Char} (h : s.operator c = .ok s') :
    Move s (.operator c) s' := by
  obtain ⟨levels, operand, dotted⟩ := s
  simp only [State.operator] at h
  split at h
  · -- the dot
    rename_i hc
    subst hc
    cases operand with
    | false => cases h
    | true =>
      cases h
      exact .dot
  split at h
  · cases dotted with
    | true => cases h
    | false =>
      simp only [Bool.false_eq_true, if_false] at h
      split at h
      · rename_i hc
        subst hc
        exact .of_comma h
      split at h
      · rename_i hc
        subst hc
        cases h
        cases operand with
        | false => exact .openArray
        | true => exact .openIndex
      split at h
      · rename_i hc
        subst hc
        exact .of_closeBracket h
      split at h
      · rename_i hc
        subst hc
        cases operand with
        | false => cases h
        | true =>
          cases h
          exact .openCall
      · -- what is left of the five is the closing parenthesis
        rename_i hor hcomma hopen hclose hcall
        have hc : c = ')' := by simpa [hcomma, hopen, hclose, hcall] using hor
        subst hc
        exact .of_closeParenthesis h
  · cases h

/-- From a state with a level, a successful step is a move. -/
theorem Move.of_step {s s' : State} {t : Token} (hl : s.levels ≠ []) (h : s.step t = .ok s') :
    Move s t s' := by
  simp only [State.step] at h
  split at h
  · exact .of_operator h
  · split at h
    · rename_i ht
      exact .of_shift hl ht h
    · cases h

/-! ### Reading -/

/-- The machine reads the tokens `ts` from the state `s` and is in the state `s'` then. -/
def Reads (s : State) (ts : List Token) (s' : State) : Prop := ts.foldlM State.step s = .ok s'

theorem Reads.nil (s : State) : Reads s [] s := rfl

theorem Reads.append {s u s' : State} {ts us : List Token} (h : Reads s ts u) (h' : Reads u us s') :
    Reads s (ts ++ us) s' := by
  unfold Reads at *
  rw [List.foldlM_append, h]
  exact h'

theorem Move.reads {s s' : State} {t : Token} (h : Move s t s') : Reads s [t] s' := by
  unfold Reads
  rw [List.foldlM_cons, h.step_eq]
  rfl

theorem Move.cons {s u s' : State} {t : Token} {ts : List Token} (h : Move s t u)
    (h' : Reads u ts s') : Reads s (t :: ts) s' := h.reads.append h'

theorem Reads.snoc_inv {s s' : State} {ts : List Token} {t : Token} (h : Reads s (ts ++ [t]) s') :
    ∃ u, Reads s ts u ∧ u.step t = .ok s' := by
  unfold Reads at h
  rw [List.foldlM_append] at h
  cases hu : ts.foldlM State.step s with
  | error cause =>
    rw [hu] at h
    cases h
  | ok u =>
    refine ⟨u, hu, ?_⟩
    rw [hu] at h
    simp only [List.foldlM_cons, List.foldlM_nil, bind, Except.bind] at h
    cases hstep : u.step t with
    | error cause =>
      rw [hstep] at h
      cases h
    | ok v =>
      rw [hstep] at h
      exact h

/-! ### Written chains are read back -/

open Token

/-- Reading the written form of a chain at the beginning of a level fills the level with it. -/
def ReadsBack (chain : List Token) : Prop :=
  ∀ (opening : Option Opening) (rest : List Level),
    Reads ⟨⟨opening, []⟩ :: rest, false, false⟩ (flat chain)
      ⟨⟨opening, chain.reverse⟩ :: rest, true, false⟩

theorem gathered_of_ne_nil {tokens : List Token} (h : tokens ≠ []) (lists : List (List Token)) :
    gathered lists tokens = lists.reverse ++ [tokens.reverse] := by
  have hempty : tokens.isEmpty = false := by simpa using h
  simp [gathered, hempty]

/-- The chains of a list behind the one just read, up to the end of the list. -/
theorem reads_listedRest (kind : ListKind) {items : List (List Token)}
    (hitems : ∀ item ∈ items, item ≠ [] ∧ ReadsBack item) (lists : List (List Token))
    {tokens : List Token} (hne : tokens ≠ []) (opening : Option Opening) (below : List Token)
    (rest : List Level) :
    Reads ⟨⟨some (kind.opening lists), tokens⟩ :: ⟨opening, below⟩ :: rest, true, false⟩
      (listedRest items ++ [.operator kind.closer])
      ⟨⟨opening, kind.node (lists.reverse ++ tokens.reverse :: items) :: below⟩ :: rest, true, false⟩ := by
  induction items generalizing lists tokens with
  | nil =>
    rw [← gathered_of_ne_nil hne]
    exact (Move.closeList kind).reads
  | cons item items ih =>
    obtain ⟨hitem, hread⟩ := hitems item (List.mem_cons_self ..)
    have hne' : item.reverse ≠ [] := by simpa using hitem
    have hlast := ih (fun c hc => hitems c (List.mem_cons_of_mem _ hc)) (tokens.reverse :: lists) hne'
    rw [List.reverse_reverse, List.reverse_cons, List.append_assoc, List.singleton_append] at hlast
    rw [listedRest, List.cons_append, List.append_assoc]
    exact (Move.comma kind hne).cons ((hread _ _).append hlast)

/-- The chains of a list, up to the end of the list. -/
theorem reads_listed (kind : ListKind) {items : List (List Token)}
    (hitems : ∀ item ∈ items, item ≠ [] ∧ ReadsBack item) (opening : Option Opening)
    (below : List Token) (rest : List Level) :
    Reads ⟨⟨some (kind.opening []), []⟩ :: ⟨opening, below⟩ :: rest, false, false⟩
      (listed items ++ [.operator kind.closer])
      ⟨⟨opening, kind.node items :: below⟩ :: rest, true, false⟩ := by
  cases items with
  | nil => exact (Move.closeList kind).reads
  | cons item items =>
    obtain ⟨hitem, hread⟩ := hitems item (List.mem_cons_self ..)
    have hne : item.reverse ≠ [] := by simpa using hitem
    have hlast := reads_listedRest kind (fun c hc => hitems c (List.mem_cons_of_mem _ hc)) [] hne
      opening below rest
    rw [List.reverse_reverse, List.reverse_nil, List.nil_append] at hlast
    rw [listed, List.append_assoc]
    exact (hread _ _).append hlast

/-- What is done to an operand or a node is read back behind it. -/
theorem reads_flatRest {rest : List Token}
    (h : ∀ token ∈ rest, ∀ (opening : Option Opening) (tokens : List Token) (levels : List Level),
      Reads ⟨⟨opening, tokens⟩ :: levels, true, false⟩ (dotBefore token ++ written token)
        ⟨⟨opening, token :: tokens⟩ :: levels, true, false⟩)
    (opening : Option Opening) (tokens : List Token) (levels : List Level) :
    Reads ⟨⟨opening, tokens⟩ :: levels, true, false⟩ (flatRest rest)
      ⟨⟨opening, rest.reverse ++ tokens⟩ :: levels, true, false⟩ := by
  induction rest generalizing tokens with
  | nil => exact .nil _
  | cons token rest ih =>
    have hrest := ih (fun u hu => h u (List.mem_cons_of_mem _ hu)) (token :: tokens)
    rw [List.reverse_cons, List.append_assoc, List.singleton_append, flatRest]
    exact (h token (List.mem_cons_self ..) opening tokens levels).append hrest

/-- **Reading back**: the written form of a chain, read at the beginning of a level, fills the
level with the chain, whatever is open around it. -/
theorem reads_flat {chain : List Token} (h : IsChain chain) : ReadsBack chain := by
  refine @IsChain.rec
    (fun chain _ => ReadsBack chain)
    (fun token _ => ∀ (opening : Option Opening) (levels : List Level),
      Reads ⟨⟨opening, []⟩ :: levels, false, false⟩ (written token)
        ⟨⟨opening, [token]⟩ :: levels, true, false⟩)
    (fun token _ => ∀ (opening : Option Opening) (tokens : List Token) (levels : List Level),
      Reads ⟨⟨opening, tokens⟩ :: levels, true, false⟩ (dotBefore token ++ written token)
        ⟨⟨opening, token :: tokens⟩ :: levels, true, false⟩)
    ?mk ?leadOperand ?array ?followOperand ?index ?call chain h
  case mk =>
    intro head rest _ _ hlead hfollow opening levels
    rw [flat, List.reverse_cons]
    exact (hlead opening levels).append (reads_flatRest hfollow opening [head] levels)
  case leadOperand =>
    intro token ht opening levels
    rw [written_of_isOperand ht]
    exact (Move.shift ht).reads
  case array =>
    intro items hitems hread opening levels
    rw [written]
    exact Move.openArray.cons
      (reads_listed .array (fun c hc => ⟨(hitems c hc).ne_nil, hread c hc⟩) opening [] levels)
  case followOperand =>
    intro token ht opening tokens levels
    rw [dotBefore, if_pos ht, written_of_isOperand ht]
    exact Move.dot.cons (Move.shift ht).reads
  case index =>
    intro chain hchain hread opening tokens levels
    have hclose : Move ⟨⟨some .index, chain.reverse⟩ :: ⟨opening, tokens⟩ :: levels, true, false⟩
        (.operator ']') ⟨⟨opening, .index chain :: tokens⟩ :: levels, true, false⟩ := by
      have hne : chain.reverse ≠ [] := by simpa using hchain.ne_nil
      simpa using Move.closeIndex hne
    exact Move.openIndex.cons ((hread _ _).append hclose.reads)
  case call =>
    intro args hargs hread opening tokens levels
    exact Move.openCall.cons
      (reads_listed .call (fun c hc => ⟨(hargs c hc).ne_nil, hread c hc⟩) opening tokens levels)

end Nesting

end ReactiveViews
