import ReactiveViews.Proofs.Live.Meaning
import Mathlib.Logic.Relation

/-!
# Dot selectors and bracket selectors

What `.key` selects can be selected by `['key']` as well, and what `.1` selects by `[1]`, by `.'1'` and by
`['1']`: a key is asked for by its text. This remains so wherever the selector stands: in an index, in an
argument or in an item of an array, however deep, and in front of a call, which is made for what the
selector has been applied to.

## What is proved

Writing one selector otherwise keeps a chain a chain (`Token.Respells.isChain`) and changes the steps that
it compiles to for steps that do the same (`Token.Respells.ofChain`). So two chains that differ in any
number of selectors are evaluated by one and the same act (`Eval.selectors_interchange`).
-/

namespace ReactiveViews

/-! ### Writing selectors otherwise -/

namespace Token

/-- Another way to write a selector. -/
inductive Selector : Token → Token → Prop where
  /-- A name is a text between brackets. -/
  | symbol (name : String) : Selector (.symbol name) (.index [.string name])
  /-- A text stands between brackets. -/
  | string (s : String) : Selector (.string s) (.index [.string s])
  /-- An integer stands between brackets. -/
  | integer (i : Int64) : Selector (.integer i) (.index [.integer i])
  /-- An integer is a text. -/
  | decimal (i : Int64) : Selector (.integer i) (.string (toString i.toInt))
  /-- An integer is a text between brackets. -/
  | decimalIndex (i : Int64) : Selector (.integer i) (.index [.string (toString i.toInt)])

/-- One selector is written otherwise, in the chain itself or in one of the chains inside of it. -/
inductive Respells : List Token → List Token → Prop where
  /-- A selector of the chain itself. -/
  | selector {before after : List Token} {t t' : Token} :
    before ≠ [] → Selector t t' → Respells (before ++ t :: after) (before ++ t' :: after)
  /-- A selector inside of an index. -/
  | index {before after chain chain' : List Token} : Respells chain chain' →
    Respells (before ++ .index chain :: after) (before ++ .index chain' :: after)
  /-- A selector inside of an item of an array. -/
  | array {before after chain chain' : List Token} {items more : List (List Token)} :
    Respells chain chain' → Respells (before ++ .array (items ++ chain :: more) :: after)
      (before ++ .array (items ++ chain' :: more) :: after)
  /-- A selector inside of an argument. -/
  | call {before after chain chain' : List Token} {args more : List (List Token)} :
    Respells chain chain' → Respells (before ++ .call (args ++ chain :: more) :: after)
      (before ++ .call (args ++ chain' :: more) :: after)

/-! ### Chains remain chains -/

theorem Selector.follows {t t' : Token} (h : Selector t t') : Follows t' := by
  have hstring (s : String) : IsChain [.string s] := .singleton (.operand rfl)
  cases h with
  | symbol name => exact .index (hstring name)
  | string s => exact .index (hstring s)
  | integer i => exact .index (.singleton (.operand rfl))
  | decimal i => exact .operand rfl
  | decimalIndex i => exact .index (hstring _)

/-- Another token at the same place. -/
theorem IsChain.replace {before after : List Token} {t t' : Token} (h : IsChain (before ++ t :: after))
    (hlead : before = [] → Leads t → Leads t') (hfollow : before ≠ [] → Follows t → Follows t') :
    IsChain (before ++ t' :: after) := by
  cases before with
  | nil =>
    obtain ⟨hhead, hrest⟩ := h
    exact .mk (hlead rfl hhead) hrest
  | cons head rest =>
    obtain ⟨hhead, hrest⟩ := h
    refine .mk hhead fun u hu => ?_
    rcases List.mem_append.mp hu with hu | hu
    · exact hrest u (List.mem_append_left _ hu)
    · rcases List.mem_cons.mp hu with rfl | hu
      · exact hfollow (List.cons_ne_nil _ _) (hrest t (by simp))
      · exact hrest u (by simp [hu])

/-- Another chain at the same place of a list of chains. -/
theorem isChain_replace {chains more : List (List Token)} {chain chain' : List Token}
    (h : ∀ c ∈ chains ++ chain :: more, IsChain c) (hchain : IsChain chain → IsChain chain') :
    ∀ c ∈ chains ++ chain' :: more, IsChain c := by
  simp only [List.forall_mem_append, List.forall_mem_cons] at h ⊢
  exact ⟨h.1, hchain h.2.1, h.2.2⟩

theorem Respells.isChain {ts ts' : List Token} (h : Respells ts ts') (hts : IsChain ts) :
    IsChain ts' := by
  induction h with
  | selector hbefore hselector =>
    exact hts.replace (fun hnil => (hbefore hnil).elim) fun _ _ => hselector.follows
  | index _ ih =>
    refine hts.replace (fun _ hleads => ?_) fun _ hfollows => ?_
    · cases hleads with
      | operand hoperand => cases hoperand
    · cases hfollows with
      | operand hoperand => cases hoperand
      | index hchain => exact .index (ih hchain)
  | array _ ih =>
    refine hts.replace (fun _ hleads => ?_) fun _ hfollows => ?_
    · cases hleads with
      | operand hoperand => cases hoperand
      | array hitems => exact .array (isChain_replace hitems ih)
    · cases hfollows with
      | operand hoperand => cases hoperand
  | call _ ih =>
    refine hts.replace (fun _ hleads => ?_) fun _ hfollows => ?_
    · cases hleads with
      | operand hoperand => cases hoperand
    · cases hfollows with
      | operand hoperand => cases hoperand
      | call hargs => exact .call (isChain_replace hargs ih)

end Token

/-! ### Steps that do the same -/

/-- Two steps that do the same, whatever has been done before. -/
def Step.Alike (s s' : Step) : Prop :=
  ∀ (σ : Type) (context : Context) (expr : String) (r : Registers),
    (Eval.step context expr r s : Eval σ Registers) = Eval.step context expr r s'

/-- Steps that do the same one after the other. -/
def Step.AlikeAll (ss ss' : List Step) : Prop :=
  ∀ (σ : Type) (context : Context) (expr : String) (r : Registers),
    (Eval.steps context expr r ss : Eval σ Registers) = Eval.steps context expr r ss'

/-- Keys with the same text select the same. -/
theorem Act.getKeyed_congr {σ : Type} {key key' : Value}
    (h : ∀ s : Store, s.text key = s.text key') (v : Value) :
    (Act.getKeyed v key : Act σ Value) = Act.getKeyed v key' := by
  simp only [Act.getKeyed, Act.text, h]

/-- An integer has its decimal text. -/
theorem Store.text_integer (s : Store) (i : Int64) :
    s.text (.int i) = s.text (.str (toString i.toInt)) := by
  simp [Store.text, Store.textWithin]

namespace Step

/-- To select by a literal is to select by a key with the same text. -/
theorem alike_property {key key' : Value} (h : ∀ s : Store, s.text key = s.text key') :
    Alike (.property key) (.property key') := by
  intro σ context expr r
  simp only [Eval.step, Act.getKeyed_congr h]

/-- To select by a literal is to select by a chain that is a literal. -/
theorem alike_index_constant (key : Value) : Alike (.property key) (.index [.constant key]) := by
  intro σ context expr r
  simp [Eval.step, Eval.steps]

theorem Alike.trans {s s' s'' : Step} (h : Alike s s') (h' : Alike s' s'') : Alike s s'' :=
  fun σ context expr r => (h σ context expr r).trans (h' σ context expr r)

/-- A step that does the same at the same place. -/
theorem Alike.replace {s s' : Step} (h : Alike s s') (before after : List Step) :
    AlikeAll (before ++ s :: after) (before ++ s' :: after) := by
  intro σ context expr r
  simp only [Eval.steps_append, Eval.steps, h σ context expr]

theorem AlikeAll.index {ss ss' : List Step} (h : AlikeAll ss ss') : Alike (.index ss) (.index ss') := by
  intro σ context expr r
  simp only [Eval.step, h σ context expr]

/-- A chain that does the same among several chains. -/
theorem AlikeAll.all {ss ss' : List Step} (h : AlikeAll ss ss') (chains more : List (List Step))
    (σ : Type) (context : Context) (expr : String) :
    (Eval.all context expr (chains ++ ss :: more) : Eval σ (List Value)) =
      Eval.all context expr (chains ++ ss' :: more) := by
  induction chains with
  | nil => simp only [List.nil_append, Eval.all, h σ context expr]
  | cons chain rest ih => simp only [List.cons_append, Eval.all, ih]

theorem AlikeAll.array {ss ss' : List Step} (h : AlikeAll ss ss') (items more : List (List Step)) :
    Alike (.array (items ++ ss :: more)) (.array (items ++ ss' :: more)) := by
  intro σ context expr r
  simp only [Eval.step, h.all items more σ context expr]

theorem AlikeAll.call {ss ss' : List Step} (h : AlikeAll ss ss') (args more : List (List Step)) :
    Alike (.call (args ++ ss :: more)) (.call (args ++ ss' :: more)) := by
  intro σ context expr r
  simp only [Eval.step, h.all args more σ context expr]

/-! ### Compiling -/

/-- A selector and another way to write it compile to steps that do the same. -/
theorem ofToken_selector {t t' : Token} (h : t.Selector t') :
    ∃ s s', ofToken false t = .ok s ∧ ofToken false t' = .ok s' ∧ Alike s s' := by
  cases h with
  | symbol name => exact ⟨_, _, rfl, rfl, alike_index_constant _⟩
  | string s => exact ⟨_, _, rfl, rfl, alike_index_constant _⟩
  | integer i => exact ⟨_, _, rfl, rfl, alike_index_constant _⟩
  | decimal i => exact ⟨_, _, rfl, rfl, alike_property fun s => s.text_integer i⟩
  | decimalIndex i =>
    exact ⟨_, _, rfl, rfl, (alike_property fun s => s.text_integer i).trans (alike_index_constant _)⟩

/-- Two tokens compile to steps that do the same, at the front of a chain or behind others. -/
def Interchange (leading : Bool) (t t' : Token) : Prop :=
  ∀ s, ofToken leading t = .ok s → ∃ s', ofToken leading t' = .ok s' ∧ Alike s s'

/-- Two chains compile to steps that do the same. -/
def InterchangeAll (ts ts' : List Token) : Prop :=
  ∀ ss, ofChain ts = .ok ss → ∃ ss', ofChain ts' = .ok ss' ∧ AlikeAll ss ss'

theorem exists_of_map_eq_ok {α β ε : Type} {f : α → β} {x : Except ε α} {b : β} (h : f <$> x = .ok b) :
    ∃ a, x = .ok a ∧ f a = b := by
  cases x with
  | error error => cases h
  | ok a => exact ⟨a, rfl, Except.ok.inj h⟩

/-- What a token behind others of a chain compiles to, among the others. -/
theorem ofRest_eq_ok {before after : List Token} {t : Token} {ss : List Step}
    (h : ofRest (before ++ t :: after) = .ok ss) :
    ∃ bs s as, ofRest before = .ok bs ∧ ofToken false t = .ok s ∧ ofRest after = .ok as ∧
      ss = bs ++ s :: as := by
  rw [ofRest_append, ofRest] at h
  obtain ⟨bs, hbefore, h⟩ := bind_eq_ok_iff.mp h
  obtain ⟨rest, hrest, h⟩ := bind_eq_ok_iff.mp h
  obtain ⟨s, ht, hrest⟩ := bind_eq_ok_iff.mp hrest
  obtain ⟨as, hafter, hrest⟩ := bind_eq_ok_iff.mp hrest
  cases hrest
  cases h
  exact ⟨bs, s, as, hbefore, ht, hafter, rfl⟩

/-- What the first token of a chain compiles to, and the others. -/
theorem ofChain_cons_eq_ok {t : Token} {ts : List Token} {ss : List Step}
    (h : ofChain (t :: ts) = .ok ss) :
    ∃ s rest, ofToken true t = .ok s ∧ ofRest ts = .ok rest ∧ ss = s :: rest := by
  rw [ofChain] at h
  obtain ⟨s, ht, h⟩ := bind_eq_ok_iff.mp h
  obtain ⟨rest, hrest, h⟩ := bind_eq_ok_iff.mp h
  cases h
  exact ⟨s, rest, ht, hrest, rfl⟩

/-- A token that compiles to the same at the same place of a chain. -/
theorem InterchangeAll.replace {before after : List Token} {t t' : Token}
    (hlead : before = [] → Interchange true t t') (hfollow : before ≠ [] → Interchange false t t') :
    InterchangeAll (before ++ t :: after) (before ++ t' :: after) := by
  intro ss hss
  cases before with
  | nil =>
    obtain ⟨s, rest, ht, hrest, rfl⟩ := ofChain_cons_eq_ok hss
    obtain ⟨s', ht', halike⟩ := hlead rfl s ht
    refine ⟨s' :: rest, ?_, halike.replace [] rest⟩
    rw [List.nil_append, ofChain, ht', hrest]
    rfl
  | cons head others =>
    obtain ⟨first, rest, hhead, hrest, rfl⟩ := ofChain_cons_eq_ok hss
    obtain ⟨bs, s, as, hbefore, ht, hafter, rfl⟩ := ofRest_eq_ok hrest
    obtain ⟨s', ht', halike⟩ := hfollow (List.cons_ne_nil _ _) s ht
    refine ⟨first :: (bs ++ s' :: as), ?_, halike.replace (first :: bs) as⟩
    rw [List.cons_append, ofChain, hhead, ofRest_append, hbefore, ofRest, ht', hafter]
    rfl

/-- A chain that compiles to the same among several chains. -/
theorem InterchangeAll.chains {ts ts' : List Token} (h : InterchangeAll ts ts')
    {chains more : List (List Token)} {lists : List (List Step)}
    (hlists : ofChains (chains ++ ts :: more) = .ok lists) :
    ∃ before ss ss' after, lists = before ++ ss :: after ∧ AlikeAll ss ss' ∧
      ofChains (chains ++ ts' :: more) = .ok (before ++ ss' :: after) := by
  induction chains generalizing lists with
  | nil =>
    rw [List.nil_append, ofChains] at hlists
    obtain ⟨ss, hss, hlists⟩ := bind_eq_ok_iff.mp hlists
    obtain ⟨after, hafter, hlists⟩ := bind_eq_ok_iff.mp hlists
    cases hlists
    obtain ⟨ss', hss', halike⟩ := h ss hss
    refine ⟨[], ss, ss', after, rfl, halike, ?_⟩
    rw [List.nil_append, ofChains, hss', hafter]
    rfl
  | cons chain rest ih =>
    rw [List.cons_append, ofChains] at hlists
    obtain ⟨first, hfirst, hlists⟩ := bind_eq_ok_iff.mp hlists
    obtain ⟨others, hothers, hlists⟩ := bind_eq_ok_iff.mp hlists
    cases hlists
    obtain ⟨before, ss, ss', after, rfl, halike, hothers'⟩ := ih hothers
    refine ⟨first :: before, ss, ss', after, rfl, halike, ?_⟩
    rw [List.cons_append, ofChains, hfirst, hothers']
    rfl

theorem InterchangeAll.index {ts ts' : List Token} (h : InterchangeAll ts ts') (leading : Bool) :
    Interchange leading (.index ts) (.index ts') := by
  intro s hs
  cases leading with
  | true => cases hs
  | false =>
    obtain ⟨ss, hss, rfl⟩ := exists_of_map_eq_ok hs
    obtain ⟨ss', hss', halike⟩ := h ss hss
    exact ⟨.index ss', congrArg (Step.index <$> ·) hss', halike.index⟩

theorem InterchangeAll.array {ts ts' : List Token} (h : InterchangeAll ts ts')
    (items more : List (List Token)) (leading : Bool) :
    Interchange leading (.array (items ++ ts :: more)) (.array (items ++ ts' :: more)) := by
  intro s hs
  obtain ⟨lists, hlists, rfl⟩ := exists_of_map_eq_ok hs
  obtain ⟨before, ss, ss', after, rfl, halike, hlists'⟩ := h.chains hlists
  exact ⟨_, congrArg (Step.array <$> ·) hlists', halike.array before after⟩

theorem InterchangeAll.call {ts ts' : List Token} (h : InterchangeAll ts ts')
    (args more : List (List Token)) (leading : Bool) :
    Interchange leading (.call (args ++ ts :: more)) (.call (args ++ ts' :: more)) := by
  intro s hs
  cases leading with
  | true => cases hs
  | false =>
    obtain ⟨lists, hlists, rfl⟩ := exists_of_map_eq_ok hs
    obtain ⟨before, ss, ss', after, rfl, halike, hlists'⟩ := h.chains hlists
    exact ⟨_, congrArg (Step.call <$> ·) hlists', halike.call before after⟩

end Step

/-- A chain in which a selector is written otherwise compiles to steps that do the same. -/
theorem Token.Respells.ofChain {ts ts' : List Token} (h : Respells ts ts') :
    Step.InterchangeAll ts ts' := by
  induction h with
  | selector hbefore hselector =>
    refine Step.InterchangeAll.replace (fun hnil => (hbefore hnil).elim) fun _ s hs => ?_
    obtain ⟨s₁, s', hs₁, hs', halike⟩ := Step.ofToken_selector hselector
    obtain rfl := Except.ok.inj (hs₁.symm.trans hs)
    exact ⟨s', hs', halike⟩
  | index _ ih => exact .replace (fun _ => ih.index true) fun _ => ih.index false
  | array _ ih => exact .replace (fun _ => ih.array _ _ true) fun _ => ih.array _ _ false
  | call _ ih => exact .replace (fun _ => ih.call _ _ true) fun _ => ih.call _ _ false

namespace Eval

/-- **Selectors are interchangeable.** Write any number of selectors of a chain otherwise, in the chain
itself or anywhere inside of it: `.key` as `['key']`, and `.1` as `[1]`, as `.'1'` or as `['1']`. The
result is a chain as well. Both compile, and with the same text for messages they are evaluated by one and
the same act. So they have the same value or fail with the same error, whatever the scopes are and however
the calls are answered that are entered; and they enter the same calls in the same order, properties with
the same keys, and functions with the same receivers and arguments. -/
theorem selectors_interchange {tokens tokens' : List Token} (h : Token.IsChain tokens)
    (hrespells : Relation.ReflTransGen Token.Respells tokens tokens') (expr : String) :
    Token.IsChain tokens' ∧ ∃ c c' : Chain, Chain.ofTokens tokens expr = .ok c ∧
      Chain.ofTokens tokens' expr = .ok c' ∧
      ∀ (σ : Type) (context : Context), (chain context c : Eval σ Value) = chain context c' := by
  obtain ⟨t, rfl, -⟩ := h.existsUnique_term
  have hboth : Token.IsChain tokens' ∧ ∃ ss', Step.ofChain tokens' = .ok ss' ∧
      Step.AlikeAll t.steps ss' := by
    induction hrespells with
    | refl => exact ⟨h, t.steps, Step.ofChain_tokens t, fun _ _ _ _ => rfl⟩
    | tail _ hlast ih =>
      obtain ⟨hchain, ss, hss, halike⟩ := ih
      obtain ⟨ss', hss', halike'⟩ := hlast.ofChain ss hss
      exact ⟨hlast.isChain hchain, ss', hss', fun σ context expr r =>
        (halike σ context expr r).trans (halike' σ context expr r)⟩
  obtain ⟨hchain, ss', hss', halike⟩ := hboth
  refine ⟨hchain, ⟨t.steps, expr⟩, ⟨ss', expr⟩, Chain.ofTokens_tokens t expr, ?_, fun σ context => ?_⟩
  · rw [Chain.ofTokens, hss']
  · simp only [chain, halike σ context expr]

/-- `obj.pick.0([x.name])` is `obj['pick']['0']([x['name']])`: both call what they have selected for what
`pick` is, and with the same. -/
theorem selectors_interchange_pick :
    let dots : List Token := [.symbol "obj", .symbol "pick", .integer 0,
      .call [[.array [[.symbol "x", .symbol "name"]]]]]
    let brackets : List Token := [.symbol "obj", .index [.string "pick"], .index [.string "0"],
      .call [[.array [[.symbol "x", .index [.string "name"]]]]]]
    Token.IsChain dots ∧ Relation.ReflTransGen Token.Respells dots brackets ∧ Token.IsChain brackets ∧
      ∃ c c' : Chain, Chain.ofTokens dots "pick" = .ok c ∧ Chain.ofTokens brackets "pick" = .ok c' ∧
        ∀ context : Context, (chain context c : Eval Unit Value) = chain context c' := by
  intro dots brackets
  have hname : Token.IsChain [.symbol "x", .symbol "name"] :=
    (Token.IsChain.singleton (.operand rfl)).snoc (.operand rfl)
  have harray : Token.IsChain [.array [[.symbol "x", .symbol "name"]]] :=
    .singleton (.array (by simpa using hname))
  have hpicked : Token.IsChain [.symbol "obj", .symbol "pick", .integer 0] :=
    .mk (.operand rfl) (by simpa using ⟨.operand rfl, .operand rfl⟩)
  have hdots : Token.IsChain dots := hpicked.snoc (.call (by simpa using harray))
  have hzero : Token.Selector (.integer 0) (.index [.string "0"]) :=
    (show toString (0 : Int64).toInt = "0" by decide +kernel) ▸ .decimalIndex 0
  have hpick : Token.Respells dots _ :=
    @Token.Respells.selector [.symbol "obj"] _ _ _ (List.cons_ne_nil _ _) (.symbol "pick")
  have hinteger : Token.Respells _ _ :=
    @Token.Respells.selector [.symbol "obj", .index [.string "pick"]] (dots.drop 3) _ _
      (List.cons_ne_nil _ _) hzero
  have hproperty : Token.Respells [.symbol "x", .symbol "name"] [.symbol "x", .index [.string "name"]] :=
    @Token.Respells.selector [.symbol "x"] [] _ _ (List.cons_ne_nil _ _) (.symbol "name")
  have hitem : Token.Respells [.array [[.symbol "x", .symbol "name"]]] _ :=
    @Token.Respells.array [] [] _ _ [] [] hproperty
  have hinside : Token.Respells _ brackets :=
    @Token.Respells.call [.symbol "obj", .index [.string "pick"], .index [.string "0"]] [] _ _ [] [] hitem
  have hrespells : Relation.ReflTransGen Token.Respells dots brackets :=
    .tail (.tail (.single hpick) hinteger) hinside
  obtain ⟨hbrackets, c, c', hc, hc', hsame⟩ := selectors_interchange hdots hrespells "pick"
  exact ⟨hdots, hrespells, hbrackets, c, c', hc, hc', hsame Unit⟩

end Eval

end ReactiveViews
