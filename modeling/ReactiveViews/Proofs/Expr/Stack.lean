import ReactiveViews.Proofs.Expr.Nesting

/-!
# The stack of open brackets

What can be relied on between two tokens, whichever tokens are read: operators without a meaning and
nodes that no scanning gives included. A state that has been reached is sound
(`Nesting.State.Sound`), so what is on its levels are beginnings of chains, and what has been gathered
on them are chains. From this follows all that the machine takes for granted when it looks at its
innermost level or closes it (`Nesting.State.Stacked`).

## What is proved

Three faults would be those of the machine and not of the expression: a stack that has run out, and an
outermost level that is to be closed or has been left open (`Cause.isBreach`). No step from a sound
state and no end of the tokens finds one of them (`Nesting.State.Sound.isBreach_of_step`). **The stack
is always sound** (`Token.nest_stack_sound`): after each token the stack is as described, also below
a level that has just been closed, and nesting never fails with one of the three messages.
-/

namespace ReactiveViews

namespace Token

/-! ### Where nodes stand -/

/-- An array stands at the front of a chain only, an index and a call never do. -/
structure Placed (chain : List Token) : Prop where
  /-- An array is the first token. -/
  array_first : ∀ i items, chain[i]? = some (.array items) → i = 0
  /-- An index is not. -/
  index_later : ∀ i inner, chain[i]? = some (.index inner) → i ≠ 0
  /-- A call is not. -/
  call_later : ∀ i args, chain[i]? = some (.call args) → i ≠ 0

/-- The chains that a node is made of. -/
def lists : Token → List (List Token)
  | index chain => [chain]
  | array items => items
  | call args => args
  | _ => []

/-- What is inside of a node is inside of the chain in which the node stands. -/
theorem Within.of_node {inner chain outer : List Token} {token : Token} (hmem : token ∈ outer)
    (hchain : chain ∈ token.lists) (h : Within inner chain) : Within inner outer := by
  cases token with
  | index => exact .index hmem (List.mem_singleton.mp hchain ▸ h)
  | array => exact .item hmem hchain h
  | call => exact .arg hmem hchain h
  | _ => cases hchain

theorem Placed.nil : Placed [] := ⟨by simp, by simp, by simp⟩

theorem IsChain.placed {chain : List Token} (h : IsChain chain) : Placed chain := by
  obtain ⟨hhead, hrest⟩ := h
  rename_i head rest
  constructor
  · intro i items hi
    cases i with
    | zero => rfl
    | succ i =>
      have hfollows := hrest _ (List.mem_of_getElem? (by simpa using hi))
      cases hfollows with
      | operand hoperand => cases hoperand
  · rintro i inner hi rfl
    obtain rfl : head = .index inner := by simpa using hi
    cases hhead with
    | operand hoperand => cases hoperand
  · rintro i args hi rfl
    obtain rfl : head = .call args := by simpa using hi
    cases hhead with
    | operand hoperand => cases hoperand

end Token

/-! ### Breaches -/

/-- The chains that an opening has gathered. -/
def Opening.lists : Opening → List (List Token)
  | index => []
  | array items => items
  | call args => args

namespace Cause

/-- Whether a cause would be one of the machine and not of the expression: the stack has run out, or
its outermost level is to be closed by a bracket, or is still open at the end. -/
def isBreach : Cause → Bool
  | stackUnderflow | mismatched _ none | unclosed none => true
  | _ => false

/-- Only breaches have these messages. -/
theorem isBreach_of_message {cause : Cause}
    (h : cause.message = "parse stack underflow" ∨
      (∃ closer : Char, cause.message = "'" ++ closer.toString ++ "' cannot close level") ∨
      cause.message = "unclosed level at end of expression") : cause.isBreach = true := by
  -- characters of literals are looked up, since evaluating `toList` on them is slow to check
  simp only [← String.toList_inj] at h
  unfold message at h
  cases cause with
  | stackUnderflow => rfl
  | mismatched _ opening | unclosed opening =>
    rcases opening with _ | _ | _ | _
    · rfl
    all_goals
      simp only [Opening.describe?, Opening.describe, String.toList_append] at h
      repeat rw [String.toList_ofList] at h
      simp at h
  | _ =>
    simp only [String.toList_append] at h
    repeat rw [String.toList_ofList] at h
    simp at h

end Cause

namespace Nesting

open Token

/-! ### States between two tokens -/

/-- A chain is stored on a level, however deep inside: in what has been gathered by what is open there,
or in a node among its tokens. -/
inductive Level.Stores (level : Level) (inner : List Token) : Prop where
  /-- Inside of an item or an argument that has been gathered. -/
  | gathered {opening : Opening} {chain : List Token} :
    level.opening = some opening → chain ∈ opening.lists → Within inner chain → Stores level inner
  /-- Inside of a node. -/
  | inside {token : Token} {chain : List Token} :
    token ∈ level.tokens → chain ∈ token.lists → Within inner chain → Stores level inner

/-- What the machine relies on between two tokens. -/
structure State.Stacked (s : State) : Prop where
  /-- There is a level. -/
  levels_ne_nil : s.levels ≠ []
  /-- The outermost level has no opening, and all others have one. -/
  opening_eq_none_iff : ∀ i level, s.levels[i]? = some level →
    (level.opening = none ↔ i + 1 = s.levels.length)
  /-- A dot waits exactly if the innermost level has tokens, and does not end in an operand. -/
  dotted_iff : ∀ level, s.levels.head? = some level →
    (s.dotted = true ↔ level.tokens ≠ [] ∧ s.operand = false)
  /-- On each level nodes stand where they may. -/
  placed : ∀ level ∈ s.levels, Placed level.tokens.reverse
  /-- What is stored is not empty, and nodes stand in it where they may. -/
  stored : ∀ level ∈ s.levels, ∀ chain, level.Stores chain → chain ≠ [] ∧ Placed chain

variable {s : State} {levels : List Level} {cause : Cause}

theorem SoundLevels.opening_eq_none_iff (h : SoundLevels levels) {i : Nat} {level : Level}
    (hi : levels[i]? = some level) : level.opening = none ↔ i + 1 = levels.length := by
  induction h generalizing i with
  | outermost _ =>
    cases i with
    | zero =>
      obtain rfl : _ = level := by simpa using hi
      simp
    | succ i => simp at hi
  | inner _ _ _ ih =>
    cases i with
    | zero =>
      obtain rfl : _ = level := by simpa using hi
      simp
    | succ i => simpa using ih (by simpa using hi)

theorem Over.isChain_of_mem_lists {opening : Opening} {below chain : List Token}
    (h : Over opening below) (hmem : chain ∈ opening.lists) : IsChain chain := by
  cases opening with
  | index => cases hmem
  | array => exact h.1 chain hmem
  | call => exact h.1 chain hmem

theorem SoundLevels.begun_of_mem (h : SoundLevels levels) {level : Level} (hmem : level ∈ levels) :
    Begun level.tokens := by
  induction h with
  | outermost hbegun =>
    obtain rfl := List.mem_singleton.mp hmem
    exact hbegun
  | inner _ hbegun _ ih =>
    rcases List.mem_cons.mp hmem with rfl | hmem
    · exact hbegun
    · exact ih hmem

theorem SoundLevels.isChain_of_gathered (h : SoundLevels levels) {level : Level}
    (hmem : level ∈ levels) {opening : Opening} {chain : List Token}
    (hopening : level.opening = some opening) (hchain : chain ∈ opening.lists) : IsChain chain := by
  induction h with
  | outermost _ =>
    obtain rfl := List.mem_singleton.mp hmem
    cases hopening
  | inner hover _ _ ih =>
    rcases List.mem_cons.mp hmem with rfl | hmem
    · cases hopening
      exact hover.isChain_of_mem_lists hchain
    · exact ih hmem

/-- Whatever is stored on a level is a chain. -/
theorem SoundLevels.isChain_of_stores (h : SoundLevels levels) {level : Level}
    (hmem : level ∈ levels) {inner : List Token} (hs : level.Stores inner) : IsChain inner := by
  cases hs with
  | gathered hopening hchain hinner =>
    exact (h.isChain_of_gathered hmem hopening hchain).within hinner
  | inside htoken hchain hinner =>
    rcases h.begun_of_mem hmem with hnil | htokens
    · rw [hnil] at htoken
      cases htoken
    · exact htokens.within (.of_node (List.mem_reverse.mpr htoken) hchain hinner)

/-- A sound state has all that the machine relies on. -/
theorem State.Sound.stacked (h : s.Sound) : s.Stacked := by
  have hne := h.levels_ne_nil
  obtain ⟨hlevels, -, hdotted⟩ := h
  refine ⟨hne, fun i level hi => hlevels.opening_eq_none_iff hi, ?_, ?_, ?_⟩
  · rintro level ⟨⟩
    exact hdotted
  · intro level hmem
    rcases hlevels.begun_of_mem hmem with hnil | hchain
    · rw [hnil]
      exact .nil
    · exact hchain.placed
  · intro level hmem chain hs
    have hchain := hlevels.isChain_of_stores hmem hs
    exact ⟨hchain.ne_nil, hchain.placed⟩

/-! ### What cannot go wrong -/

/-- A level that is closed has an opening, and leaves a level below. -/
theorem State.Sound.of_ascend {closer : Char} {level : Level} {below : State} (h : s.Sound)
    (hascend : s.ascend closer = .ok (level, below)) : level.opening ≠ none ∧ below.levels ≠ [] := by
  obtain ⟨hlevels, -, -⟩ := h
  cases hlevels with
  | outermost _ => cases hascend
  | inner _ _ _ =>
    rw [ascend_inner] at hascend
    cases hascend
    exact ⟨by simp, List.cons_ne_nil _ _⟩

theorem State.Sound.isBreach_of_ascend {closer : Char} (h : s.Sound)
    (hascend : s.ascend closer = .error cause) : cause.isBreach = false := by
  obtain ⟨hlevels, -, -⟩ := h
  cases hlevels with
  | outermost _ =>
    cases hascend
    rfl
  | inner _ _ _ =>
    rw [ascend_inner] at hascend
    cases hascend

theorem isBreach_of_comma (h : s.comma = .error cause) : cause.isBreach = false := by
  unfold State.comma at h
  split at h
  · split at h <;> cases h
    rfl
  · split at h <;> cases h
    rfl
  · cases h
    rfl

theorem State.Sound.isBreach_of_closeBracket (h : s.Sound)
    (hclose : s.closeBracket = .error cause) : cause.isBreach = false := by
  rcases bind_eq_error_iff.mp hclose with hclose | ⟨⟨level, below⟩, hascend, hclose⟩
  · exact h.isBreach_of_ascend hclose
  · have hopening := (h.of_ascend hascend).1
    dsimp only at hclose
    split at hclose
    · split at hclose <;> cases hclose
      rfl
    · cases hclose
    · cases hclose
      obtain ⟨opening, hopening⟩ := Option.ne_none_iff_exists'.mp hopening
      rw [hopening]
      rfl

theorem State.Sound.isBreach_of_closeParenthesis (h : s.Sound)
    (hclose : s.closeParenthesis = .error cause) : cause.isBreach = false := by
  rcases bind_eq_error_iff.mp hclose with hclose | ⟨⟨level, below⟩, hascend, hclose⟩
  · exact h.isBreach_of_ascend hclose
  · have hopening := (h.of_ascend hascend).1
    dsimp only at hclose
    split at hclose
    · cases hclose
    · cases hclose
      obtain ⟨opening, hopening⟩ := Option.ne_none_iff_exists'.mp hopening
      rw [hopening]
      rfl

/-- No token breaches a sound state. -/
theorem State.Sound.isBreach_of_step {t : Token} (h : s.Sound) (hstep : s.step t = .error cause) :
    cause.isBreach = false := by
  unfold State.step at hstep
  split at hstep
  · unfold State.operator at hstep
    split_ifs at hstep <;> try cases hstep; rfl
    · exact isBreach_of_comma hstep
    · exact h.isBreach_of_closeBracket hstep
    · exact h.isBreach_of_closeParenthesis hstep
  · unfold State.shift at hstep
    split_ifs at hstep <;> cases hstep <;> rfl

/-- Nor does the end of the tokens. -/
theorem State.Sound.isBreach_of_close (h : s.Sound) (hclose : s.close = .error cause) :
    cause.isBreach = false := by
  obtain ⟨hlevels, -, -⟩ := h
  unfold State.close at hclose
  split at hclose
  · cases hclose
    rfl
  · cases hlevels with
    | outermost _ => cases hclose
    | inner _ _ _ =>
      cases hclose
      rfl

end Nesting

namespace Token

open Nesting

/-- Nesting has no fault of its own. -/
theorem isBreach_of_nest {ts : List Token} {cause : Cause} (h : nest ts = .error cause) :
    cause.isBreach = false :=
  of_nest_refused (P := (·.isBreach = false)) State.Sound.isBreach_of_step
    State.Sound.isBreach_of_close h

/-- **The stack is always sound.** Whatever the tokens are, and after each of them that is taken, there
is a level, the outermost one and no other has no opening, a dot waits exactly if the innermost level
has tokens and does not end in an operand, an array stands only at the front of what is on a level or
stored there, an index and a call never do, and nothing stored is empty; closing a level leaves one. So
the messages of a stack that has run out, and of an outermost level that a bracket cannot close or that
is unclosed, never appear. -/
theorem nest_stack_sound (expr : String) (ts : List Token) :
    (∀ taken s, taken <+: ts → taken.foldlM State.step .start = .ok s →
      s.Stacked ∧
        ∀ closer level below, s.ascend closer = .ok (level, below) → below.levels ≠ []) ∧
    ∀ fault, nestIn expr ts = .error fault →
      fault.cause.message ≠ "parse stack underflow" ∧
        (∀ closer : Char, fault.cause.message ≠ "'" ++ closer.toString ++ "' cannot close level") ∧
        fault.cause.message ≠ "unclosed level at end of expression" := by
  constructor
  · intro taken s _ hreads
    have hsound : s.Sound := Reads.sound .start hreads
    exact ⟨hsound.stacked, fun closer level below hascend => (hsound.of_ascend hascend).2⟩
  · intro fault hfault
    obtain ⟨cause, hcause, rfl⟩ := mapError_eq_error_iff.mp hfault
    have hbreach : ¬ cause.isBreach = true := by simp [isBreach_of_nest hcause]
    exact ⟨fun h => hbreach (Cause.isBreach_of_message (.inl h)),
      fun closer h => hbreach (Cause.isBreach_of_message (.inr (.inl ⟨closer, h⟩))),
      fun h => hbreach (Cause.isBreach_of_message (.inr (.inr h)))⟩

/-- After `f(x,[` there are three levels, and the call has gathered its first argument. -/
example :
    [.symbol "f", .operator '(', .symbol "x", .operator ',', .operator '['].foldlM State.step .start =
      .ok ⟨[⟨some (.array []), []⟩, ⟨some (.call [[.symbol "x"]]), []⟩, ⟨none, [.symbol "f"]⟩],
        false, false⟩ := rfl

end Token

end ReactiveViews
