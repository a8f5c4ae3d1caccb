import ReactiveViews.Proofs.Expr.Grammar
import ReactiveViews.Traced

/-!
# What nesting accepts

The nesting machine accepts the written forms of chains and makes the chains of them; beyond
that it only lets a comma stand before a closing bracket or parenthesis.

## The invariant

A state that has been reached by reading is `Sound`: what has been gathered on its levels are
chains, an array lies over an empty level and an index or a call over one that has tokens, and
the flags say what the innermost level ends in. Such a state can be written down again
(`State.text`), level by level, with a comma after each chain of an open list. One move keeps a
state sound (`State.Sound.move`) and writes one token more (`State.Sound.text_move`), where a
closing bracket takes the place of a comma before it.
-/

namespace ReactiveViews

namespace Token

/-! ### Commas before closing brackets -/

/-- Whether a token is a comma. -/
def isComma : Token → Bool
  | .operator c => c == ','
  | _ => false

/-- Whether a token closes a bracket or a parenthesis. -/
def isCloser : Token → Bool
  | .operator c => c == ']' || c == ')'
  | _ => false

/-- A list of tokens without the commas that stand directly before a closing bracket or
parenthesis. -/
def dropTrailingCommas : List Token → List Token
  | [] => []
  | t :: rest =>
    if t.isComma && rest.head?.any isCloser then dropTrailingCommas rest
    else t :: dropTrailingCommas rest

/-- One token more at the end of a list; one that closes takes the place of a comma. -/
def settle (ts : List Token) (t : Token) : List Token :=
  (if t.isCloser && ts.getLast?.any isComma then ts.dropLast else ts) ++ [t]

theorem settle_cons {t u : Token} {ts : List Token} (h : ts ≠ []) :
    settle (u :: ts) t = u :: settle ts t := by
  obtain ⟨a, ts, rfl⟩ := List.exists_cons_of_ne_nil h
  simp only [settle, List.getLast?_cons_cons, List.dropLast_cons_cons]
  split <;> rfl

theorem settle_of_not_isCloser {t : Token} (h : t.isCloser = false) (ts : List Token) :
    settle ts t = ts ++ [t] := by
  simp [settle, h]

theorem settle_of_not_isComma {u : Token} (h : u.isComma = false) (ts : List Token) (t : Token) :
    settle (ts ++ [u]) t = ts ++ [u, t] := by
  simp [settle, h]

theorem settle_comma {t : Token} (h : t.isCloser = true) (ts : List Token) :
    settle (ts ++ [.operator ',']) t = ts ++ [t] := by
  simp [settle, h, isComma]

theorem dropTrailingCommas_ne_nil {ts : List Token} (h : ts ≠ []) : dropTrailingCommas ts ≠ [] := by
  induction ts with
  | nil => exact absurd rfl h
  | cons t rest ih =>
    rw [dropTrailingCommas]
    split
    · rename_i hc
      refine ih fun hrest => ?_
      subst hrest
      simp at hc
    · exact List.cons_ne_nil _ _

/-- Whether a comma at the end stays depends on the next token only. -/
theorem dropTrailingCommas_snoc (ts : List Token) (t : Token) :
    dropTrailingCommas (ts ++ [t]) = settle (dropTrailingCommas ts) t := by
  induction ts with
  | nil => simp [dropTrailingCommas, settle]
  | cons u rest ih =>
    cases rest with
    | nil =>
      simp only [List.cons_append, List.nil_append, dropTrailingCommas, List.head?_cons,
        List.head?_nil, Option.any_some, Option.any_none, Bool.and_false, Bool.false_eq_true,
        if_false, settle, List.getLast?_singleton, List.dropLast_singleton]
      rw [Bool.and_comm]
      split <;> rfl
    | cons v rest =>
      have hhead : (v :: rest ++ [t]).head? = (v :: rest).head? := rfl
      rw [List.cons_append, dropTrailingCommas, dropTrailingCommas, hhead, ih]
      split
      · rfl
      · exact (settle_cons (dropTrailingCommas_ne_nil (List.cons_ne_nil _ _))).symm

/-! ### The last token of a written form -/

theorem written_eq_snoc {token : Token} (h : Leads token ∨ Follows token) :
    ∃ ts t, written token = ts ++ [t] ∧ t.isComma = false := by
  have hoperand : ∀ {t : Token}, t.isOperand = true → t.isComma = false := by
    intro t ht
    cases t <;> simp_all [isOperand, isComma]
  rcases h with h | h
  · cases h with
    | operand ht => exact ⟨[], token, by rw [written_of_isOperand ht]; rfl, hoperand ht⟩
    | array _ => exact ⟨_, .operator ']', by rw [written, ← List.cons_append], rfl⟩
  · cases h with
    | operand ht => exact ⟨[], token, by rw [written_of_isOperand ht]; rfl, hoperand ht⟩
    | index _ => exact ⟨_, .operator ']', by rw [written, ← List.cons_append], rfl⟩
    | call _ => exact ⟨_, .operator ')', by rw [written, ← List.cons_append], rfl⟩

/-- A written chain does not end in a comma. -/
theorem IsChain.flat_eq_snoc {chain : List Token} (h : IsChain chain) :
    ∃ ts t, flat chain = ts ++ [t] ∧ t.isComma = false := by
  obtain ⟨hhead, hrest⟩ := h
  rename_i head rest
  rcases List.eq_nil_or_concat rest with rfl | ⟨init, last, rfl⟩
  · simpa [flat, flatRest] using written_eq_snoc (.inl hhead)
  · obtain ⟨ts, t, hts, ht⟩ := written_eq_snoc (.inr (hrest last (by simp)))
    refine ⟨flat (head :: init) ++ (dotBefore last ++ ts), t, ?_, ht⟩
    rw [List.concat_eq_append, ← List.cons_append, flat_snoc (List.cons_ne_nil _ _), hts]
    simp only [List.append_assoc]

/-- The chains of an open list, each with the comma behind it. -/
def gatheredText (lists : List (List Token)) : List Token :=
  lists.reverse.flatMap fun chain => flat chain ++ [.operator ',']

theorem gatheredText_cons (chain : List Token) (lists : List (List Token)) :
    gatheredText (chain :: lists) = gatheredText lists ++ flat chain ++ [.operator ','] := by
  simp [gatheredText]

theorem listed_snoc (lists : List (List Token)) (chain : List Token) :
    listed (lists.reverse ++ [chain]) = gatheredText lists ++ flat chain := by
  have hrest : ∀ cs : List (List Token), ∀ c : List Token,
      listedRest (cs ++ [c]) = .operator ',' :: (cs.flatMap (fun c => flat c ++ [.operator ',']) ++ flat c) := by
    intro cs c
    induction cs with
    | nil => simp [listedRest]
    | cons d ds ih => simp [listedRest, ih]
  unfold gatheredText
  cases lists.reverse with
  | nil => simp [listed, listedRest]
  | cons c cs => simp [listed, hrest]

end Token

namespace Nesting

open Token

/-! ### Sound states -/

/-- The tokens of a level, last first, are nothing yet or a chain. -/
def Begun (tokens : List Token) : Prop := tokens = [] ∨ IsChain tokens.reverse

/-- What can be open over the tokens of a level: an array over none, an index and a call over
some; what an open list has gathered are chains. -/
def Over : Opening → List Token → Prop
  | .index, below => below ≠ []
  | .array items, below => (∀ item ∈ items, IsChain item) ∧ below = []
  | .call args, below => (∀ arg ∈ args, IsChain arg) ∧ below ≠ []

/-- Levels that reading can have opened, innermost first. -/
inductive SoundLevels : List Level → Prop where
  /-- The expression itself. -/
  | outermost {tokens : List Token} : Begun tokens → SoundLevels [⟨none, tokens⟩]
  /-- An open bracket. -/
  | inner {opening : Opening} {tokens : List Token} {below : Level} {rest : List Level} :
    Over opening below.tokens → Begun tokens → SoundLevels (below :: rest) →
    SoundLevels (⟨some opening, tokens⟩ :: below :: rest)

/-- A state that reading can have reached: the innermost level ends in an operand, or a dot
waits behind one, or it is empty. -/
inductive State.Sound : State → Prop where
  /-- The levels are sound and the flags fit the innermost one. -/
  | mk {opening : Option Opening} {tokens : List Token} {rest : List Level} {operand dotted : Bool} :
    SoundLevels (⟨opening, tokens⟩ :: rest) → (operand = true → tokens ≠ []) →
    (dotted = true ↔ tokens ≠ [] ∧ operand = false) →
    State.Sound ⟨⟨opening, tokens⟩ :: rest, operand, dotted⟩

theorem State.Sound.start : State.start.Sound :=
  .mk (.outermost (.inl rfl)) (by simp) (by simp)

theorem State.Sound.levels_ne_nil {s : State} (h : s.Sound) : s.levels ≠ [] := by
  cases h
  exact List.cons_ne_nil _ _

/-- The tokens of the innermost level can change while what is open around it stays. -/
theorem SoundLevels.replace {opening : Option Opening} {tokens tokens' : List Token}
    {rest : List Level} (h : SoundLevels (⟨opening, tokens⟩ :: rest)) (ht : Begun tokens') :
    SoundLevels (⟨opening, tokens'⟩ :: rest) := by
  cases h with
  | outermost _ => exact .outermost ht
  | inner hover _ hrest => exact .inner hover ht hrest

theorem SoundLevels.begun {opening : Option Opening} {tokens : List Token} {rest : List Level}
    (h : SoundLevels (⟨opening, tokens⟩ :: rest)) : Begun tokens := by
  cases h <;> assumption

theorem SoundLevels.isChain {opening : Option Opening} {tokens : List Token} {rest : List Level}
    (h : SoundLevels (⟨opening, tokens⟩ :: rest)) (hne : tokens ≠ []) : IsChain tokens.reverse :=
  h.begun.resolve_left hne

/-- A node or an operand behind a chain, or at the front. -/
theorem Begun.push {tokens : List Token} {token : Token} (h : Begun tokens)
    (hfirst : tokens = [] → Leads token) (hlater : tokens ≠ [] → Follows token) :
    Begun (token :: tokens) := by
  refine .inr ?_
  rw [List.reverse_cons]
  rcases h with rfl | h
  · exact .singleton (hfirst rfl)
  · exact h.snoc (hlater fun hnil => h.ne_nil (by rw [hnil]; rfl))

theorem SoundLevels.push {opening : Option Opening} {tokens : List Token} {token : Token}
    {rest : List Level} (h : SoundLevels (⟨opening, tokens⟩ :: rest))
    (hfirst : tokens = [] → Leads token) (hlater : tokens ≠ [] → Follows token) :
    SoundLevels (⟨opening, token :: tokens⟩ :: rest) :=
  h.replace (h.begun.push hfirst hlater)

/-- The chains of a list that ends. -/
theorem isChain_of_mem_gathered {lists : List (List Token)} {tokens : List Token}
    (hlists : ∀ chain ∈ lists, IsChain chain) (htokens : Begun tokens) :
    ∀ chain ∈ gathered lists tokens, IsChain chain := by
  intro chain hchain
  rcases htokens with rfl | htokens
  · exact hlists chain (by simpa [gathered] using hchain)
  · have hne : tokens ≠ [] := fun hnil => htokens.ne_nil (by rw [hnil]; rfl)
    rw [gathered_of_ne_nil hne, List.mem_append, List.mem_reverse, List.mem_singleton] at hchain
    rcases hchain with hchain | rfl
    · exact hlists chain hchain
    · exact htokens

theorem Over.isChain {kind : ListKind} {lists : List (List Token)} {below : List Token}
    (h : Over (kind.opening lists) below) : ∀ chain ∈ lists, IsChain chain := by
  cases kind <;> exact h.1

theorem Over.more {kind : ListKind} {lists : List (List Token)} {chain below : List Token}
    (h : Over (kind.opening lists) below) (hchain : IsChain chain) :
    Over (kind.opening (chain :: lists)) below := by
  cases kind <;> exact ⟨List.forall_mem_cons.mpr ⟨hchain, h.1⟩, h.2⟩

/-- The node of a list can stand where the list was opened. -/
theorem Over.node_leads {kind : ListKind} {lists items : List (List Token)} {below : List Token}
    (h : Over (kind.opening lists) below) (hitems : ∀ item ∈ items, IsChain item)
    (hbelow : below = []) : Leads (kind.node items) := by
  cases kind with
  | array => exact .array hitems
  | call => exact absurd hbelow h.2

theorem Over.node_follows {kind : ListKind} {lists items : List (List Token)} {below : List Token}
    (h : Over (kind.opening lists) below) (hitems : ∀ item ∈ items, IsChain item)
    (hbelow : below ≠ []) : Follows (kind.node items) := by
  cases kind with
  | array => exact absurd h.2 hbelow
  | call => exact .call hitems

/-- One move keeps a state sound. -/
theorem State.Sound.move {s s' : State} {t : Token} (h : s.Sound) (hm : Move s t s') :
    s'.Sound := by
  cases hm with
  | shift ht =>
    obtain ⟨hlevels, -, -⟩ := h
    exact .mk (hlevels.push (fun _ => .operand ht) fun _ => .operand ht) (by simp) (by simp)
  | dot =>
    obtain ⟨hlevels, hoperand, -⟩ := h
    exact .mk hlevels (by simp) (by simpa using hoperand rfl)
  | comma _ hne =>
    obtain ⟨hlevels, -, -⟩ := h
    have hlast := hlevels.isChain hne
    cases hlevels with
    | inner hover _ hrest => exact .mk (.inner (hover.more hlast) (.inl rfl) hrest) (by simp) (by simp)
  | openIndex =>
    obtain ⟨hlevels, hoperand, -⟩ := h
    exact .mk (.inner (hoperand rfl) (.inl rfl) hlevels) (by simp) (by simp)
  | openArray =>
    obtain ⟨hlevels, -, hdotted⟩ := h
    have hempty := not_not.mp fun hne => Bool.false_ne_true (hdotted.mpr ⟨hne, rfl⟩)
    exact .mk (.inner ⟨by simp, hempty⟩ (.inl rfl) hlevels) (by simp) (by simp)
  | openCall =>
    obtain ⟨hlevels, hoperand, -⟩ := h
    exact .mk (.inner ⟨by simp, hoperand rfl⟩ (.inl rfl) hlevels) (by simp) (by simp)
  | closeIndex hne =>
    obtain ⟨hlevels, -, -⟩ := h
    have hchain := hlevels.isChain hne
    cases hlevels with
    | inner hover _ hrest =>
      exact .mk (hrest.push (fun hbelow => absurd hbelow hover) fun _ => .index hchain) (by simp)
        (by simp)
  | closeList =>
    obtain ⟨hlevels, -, -⟩ := h
    cases hlevels with
    | inner hover htokens hrest =>
      have hitems := isChain_of_mem_gathered hover.isChain htokens
      exact .mk (hrest.push (hover.node_leads hitems) (hover.node_follows hitems)) (by simp) (by simp)

/-- Whatever has been read successfully leads to a sound state. -/
theorem Reads.sound {s s' : State} {ts : List Token} (hs : s.Sound) (h : Reads s ts s') :
    s'.Sound := by
  induction ts using List.reverseRecOn generalizing s' with
  | nil =>
    cases h
    exact hs
  | append_singleton ts t ih =>
    obtain ⟨u, hu, hstep⟩ := h.snoc_inv
    have hsound := ih hu
    exact hsound.move (.of_step hsound.levels_ne_nil hstep)

/-- What is true of the causes for which sound states refuse a token is true of those for which they
refuse several. -/
theorem State.Sound.of_refused {P : Cause → Prop}
    (hstep : ∀ {s : State} {t : Token} {cause : Cause}, s.Sound → s.step t = .error cause → P cause)
    {s : State} {ts : List Token} {cause : Cause} (h : s.Sound)
    (hts : ts.foldlM State.step s = .error cause) : P cause := by
  induction ts generalizing s with
  | nil => cases hts
  | cons t ts ih =>
    rw [List.foldlM_cons] at hts
    rcases bind_eq_error_iff.mp hts with hrefused | ⟨s', htaken, hts⟩
    · exact hstep h hrefused
    · exact ih (h.move (.of_step h.levels_ne_nil htaken)) hts

/-! ### States written down -/

/-- What has been written of an open bracket: the chains of a list end in commas. -/
def openingText : Option Opening → List Token
  | none => []
  | some .index => [.operator '[']
  | some (.array items) => .operator '[' :: gatheredText items
  | some (.call args) => .operator '(' :: gatheredText args

/-- What has been written of several levels. -/
def levelsText : List Level → List Token
  | [] => []
  | level :: rest => levelsText rest ++ (openingText level.opening ++ flat level.tokens.reverse)

/-- What has been written to reach a state. -/
def State.text (s : State) : List Token :=
  levelsText s.levels ++ if s.dotted then [.operator '.'] else []

theorem openingText_opening (kind : ListKind) (lists : List (List Token)) :
    openingText (some (kind.opening lists)) = .operator kind.opener :: gatheredText lists := by
  cases kind <;> rfl

theorem written_node (kind : ListKind) (items : List (List Token)) :
    written (kind.node items) =
      .operator kind.opener :: (listed items ++ [.operator kind.closer]) := by
  cases kind <;> rfl

/-- A node is written behind a chain without a dot. -/
theorem flat_snoc_node (chain : List Token) {token : Token} (h : token.isOperand = false) :
    flat (chain ++ [token]) = flat chain ++ written token := by
  cases chain with
  | nil => simp [flat, flatRest]
  | cons head rest => rw [flat_snoc (List.cons_ne_nil _ _), dotBefore, h]; simp

theorem isOperand_node (kind : ListKind) (items : List (List Token)) :
    (kind.node items).isOperand = false := by
  cases kind <;> rfl

theorem isCloser_closer (kind : ListKind) : (Token.operator kind.closer).isCloser = true := by
  cases kind <;> rfl

theorem isComma_opener (kind : ListKind) : (Token.operator kind.opener).isComma = false := by
  cases kind <;> rfl

/-- The end of a list, with or without a comma before it. -/
theorem settle_list (kind : ListKind) (lists : List (List Token)) {tokens : List Token}
    (htokens : Begun tokens) (before : List Token) :
    settle (before ++ (.operator kind.opener :: gatheredText lists ++ flat tokens.reverse))
        (.operator kind.closer) =
      before ++ .operator kind.opener :: (listed (gathered lists tokens) ++ [.operator kind.closer]) := by
  rcases htokens with rfl | htokens
  · cases lists with
    | nil =>
      have h := settle_of_not_isComma (isComma_opener kind) before (.operator kind.closer)
      simpa [gatheredText, flat, gathered, listed] using h
    | cons chain lists =>
      have h := settle_comma (isCloser_closer kind)
        (before ++ .operator kind.opener :: (gatheredText lists ++ flat chain))
      have hgathered : gathered (chain :: lists) [] = lists.reverse ++ [chain] := by simp [gathered]
      rw [hgathered, listed_snoc, gatheredText_cons]
      simpa [flat] using h
  · have hne : tokens ≠ [] := fun hnil => htokens.ne_nil (by rw [hnil]; rfl)
    obtain ⟨ts, t, hts, ht⟩ := htokens.flat_eq_snoc
    have h := settle_of_not_isComma ht
      (before ++ .operator kind.opener :: (gatheredText lists ++ ts)) (.operator kind.closer)
    rw [gathered_of_ne_nil hne, listed_snoc, hts]
    simpa using h

/-- One move writes one token more. -/
theorem State.Sound.text_move {s s' : State} {t : Token} (h : s.Sound) (hm : Move s t s') :
    s'.text = settle s.text t := by
  cases hm with
  | @shift opening tokens rest dotted _ ht =>
    obtain ⟨hlevels, -, hdotted⟩ := h
    have hcloser : t.isCloser = false := by cases t <;> simp_all [isOperand, isCloser]
    rw [settle_of_not_isCloser hcloser]
    cases dotted with
    | true =>
      have hne : tokens.reverse ≠ [] := by simpa using (hdotted.mp rfl).1
      simp [State.text, levelsText, flat_snoc hne, dotBefore, ht, written_of_isOperand ht]
    | false =>
      have hempty := not_not.mp fun hne => Bool.false_ne_true (hdotted.mpr ⟨hne, rfl⟩)
      simp [State.text, levelsText, hempty, flat, flatRest, written_of_isOperand ht]
  | @dot levels dotted =>
    obtain ⟨-, -, hdotted⟩ := h
    have hplain : dotted = false := by simpa using mt hdotted.mp
    rw [settle_of_not_isCloser rfl]
    simp [State.text, hplain]
  | @comma kind lists tokens rest _ _ =>
    rw [settle_of_not_isCloser rfl]
    simp [State.text, levelsText, openingText_opening, gatheredText_cons, flat]
  | openIndex =>
    rw [settle_of_not_isCloser rfl]
    simp [State.text, levelsText, openingText, flat]
  | openArray =>
    rw [settle_of_not_isCloser rfl]
    simp [State.text, levelsText, openingText, gatheredText, flat]
  | openCall =>
    rw [settle_of_not_isCloser rfl]
    simp [State.text, levelsText, openingText, gatheredText, flat]
  | @closeIndex tokens below opening rest _ hne =>
    obtain ⟨hlevels, -, -⟩ := h
    obtain ⟨ts, t, hts, ht⟩ := (hlevels.isChain hne).flat_eq_snoc
    have hsettle := settle_of_not_isComma ht
      (levelsText (⟨opening, below⟩ :: rest) ++ .operator '[' :: ts) (.operator ']')
    simp only [State.text, levelsText, openingText, List.reverse_cons, Bool.false_eq_true, if_false,
      List.append_nil, flat_snoc_node below.reverse (show (Token.index tokens.reverse).isOperand = false from rfl),
      written, hts] at hsettle ⊢
    simpa using hsettle.symm
  | @closeList kind lists tokens below opening rest _ =>
    obtain ⟨hlevels, -, -⟩ := h
    have hsettle := settle_list kind lists hlevels.begun (levelsText (⟨opening, below⟩ :: rest))
    simp only [State.text, levelsText, openingText_opening, List.reverse_cons, Bool.false_eq_true,
      if_false, List.append_nil, flat_snoc_node below.reverse (isOperand_node _ _), written_node] at hsettle ⊢
    simpa using hsettle.symm

/-- What has been read, without the commas before closing brackets, is what the state says was
written. -/
theorem Reads.text_eq {s : State} {ts : List Token} (h : Reads .start ts s) :
    s.text = dropTrailingCommas ts := by
  induction ts using List.reverseRecOn generalizing s with
  | nil =>
    cases h
    rfl
  | append_singleton ts t ih =>
    obtain ⟨u, hu, hstep⟩ := h.snoc_inv
    have hsound := hu.sound .start
    rw [hsound.text_move (.of_step hsound.levels_ne_nil hstep), ih hu, dropTrailingCommas_snoc]

end Nesting

/-! ### The grammar and the machine -/

namespace Token

open Nesting

theorem nest_eq_ok_iff {ts t : List Token} :
    nest ts = .ok t ↔ ∃ s, Reads .start ts s ∧ s.close = .ok t := by
  unfold nest Reads
  cases ts.foldlM State.step State.start with
  | error cause => simp [bind, Except.bind]
  | ok s => simp [bind, Except.bind]

/-- What is true of the causes for which sound states refuse a token or the end is true of those for
which nesting refuses a list of tokens. -/
theorem of_nest_refused {P : Cause → Prop}
    (hstep : ∀ {s : State} {t : Token} {cause : Cause}, s.Sound → s.step t = .error cause → P cause)
    (hclose : ∀ {s : State} {cause : Cause}, s.Sound → s.close = .error cause → P cause)
    {ts : List Token} {cause : Cause} (h : nest ts = .error cause) : P cause := by
  rcases bind_eq_error_iff.mp h with hts | ⟨s, hts, hend⟩
  · exact State.Sound.start.of_refused hstep hts
  · exact hclose (Reads.sound .start hts) hend

theorem close_eq_ok_iff {s : State} {t : List Token} :
    s.close = .ok t ↔ s.dotted = false ∧ ∃ level, s.levels = [level] ∧ t = level.tokens.reverse := by
  obtain ⟨levels, operand, dotted⟩ := s
  cases dotted with
  | true => simp [State.close]
  | false =>
    rcases levels with _ | ⟨level, _ | ⟨below, rest⟩⟩
    · simp [State.close]
    · simp [State.close, eq_comm]
    · simp [State.close]

/-- **Nesting accepts exactly the chains**: the written form of a chain becomes the chain, and
whatever is accepted, unless it is empty, is the written form of the chain that it becomes, up to
commas that stand directly before a closing bracket or parenthesis. -/
theorem nest_accepts_chains :
    (∀ chain, IsChain chain → nest (flat chain) = .ok chain) ∧
      ∀ ts t, nest ts = .ok t →
        (ts = [] ∧ t = []) ∨ (IsChain t ∧ flat t = dropTrailingCommas ts) := by
  constructor
  · intro chain hchain
    refine nest_eq_ok_iff.mpr ⟨_, reads_flat hchain none [], ?_⟩
    exact close_eq_ok_iff.mpr ⟨rfl, _, rfl, (List.reverse_reverse _).symm⟩
  · intro ts t h
    obtain ⟨s, hreads, hclose⟩ := nest_eq_ok_iff.mp h
    obtain ⟨hdotted, ⟨opening, tokens⟩, hlevels, rfl⟩ := close_eq_ok_iff.mp hclose
    have hsound := hreads.sound .start
    have htext := hreads.text_eq
    obtain ⟨levels, operand, dotted⟩ := s
    simp only at hdotted hlevels
    subst hdotted hlevels
    obtain ⟨hlevels, -, -⟩ := hsound
    cases hlevels with
    | outermost hbegun =>
      have hflat : flat tokens.reverse = dropTrailingCommas ts := by
        simpa [State.text, levelsText, openingText] using htext
      rcases hbegun with rfl | hchain
      · refine .inl ⟨?_, rfl⟩
        by_contra hne
        exact dropTrailingCommas_ne_nil hne hflat.symm
      · exact .inr ⟨hchain, hflat⟩

/-- `a.get([], 'x'[0])` is read back, and the comma of `f(x,)` is let pass. -/
theorem nest_accepts_method_call :
    nest (flat [.symbol "a", .symbol "get", .call [[.array []], [.string "x", .index [.integer 0]]]]) =
        .ok [.symbol "a", .symbol "get", .call [[.array []], [.string "x", .index [.integer 0]]]] ∧
      IsChain [.symbol "f", .call [[.symbol "x"]]] ∧
      flat [.symbol "f", .call [[.symbol "x"]]] =
        dropTrailingCommas [.symbol "f", .operator '(', .symbol "x", .operator ',', .operator ')'] := by
  have harray : IsChain [.array []] := .singleton (.array (by simp))
  have hzero : IsChain [.integer 0] := .singleton (.operand rfl)
  have hindex : IsChain [.string "x", .index [.integer 0]] :=
    .mk (.operand rfl) (by simpa using .index hzero)
  have hcall : Follows (.call [[.array []], [.string "x", .index [.integer 0]]]) :=
    .call (by simpa using ⟨harray, hindex⟩)
  refine ⟨nest_accepts_chains.1 _ (.mk (.operand rfl) ?_), ?_⟩
  · simpa using ⟨.operand rfl, hcall⟩
  · exact (nest_accepts_chains.2 [.symbol "f", .operator '(', .symbol "x", .operator ',', .operator ')']
      [.symbol "f", .call [[.symbol "x"]]] rfl).resolve_left (by simp)

end Token

end ReactiveViews
