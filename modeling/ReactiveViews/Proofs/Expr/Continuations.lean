import ReactiveViews.Proofs.Expr.Nesting

/-!
# What can still be read

A list of tokens is refused as early as possible: either it is the beginning of something that nesting
accepts, or it is refused together with all that begins with it, and for the same cause.

No state that reading can reach is a dead end. A dot that waits gets its selector, and then one bracket
after the other is closed: a list closes as it is, and an empty index is given an operand first
(`Nesting.State.Sound.descends`).

## What is proved

The tokens that come next may be chosen among operands and operators, so what has been read is also the
beginning of a list that scanning could give (`Token.nest_refuses_early`).
-/

namespace ReactiveViews

/-- Whether a token is a node, which no source text is scanned to. -/
def Token.isNode : Token → Bool
  | index _ | array _ | call _ => true
  | symbol _ | string _ | integer _ | float _ | operator _ => false

namespace Nesting

/-- Operands and operators lead to a sound state in which no dot waits, with so many levels. -/
def State.Reaches (s : State) (levels : Nat) : Prop :=
  ∃ us s', (∀ u ∈ us, u.isNode = false) ∧ Reads s us s' ∧ s'.Sound ∧ s'.dotted = false ∧
    s'.levels.length = levels

variable {s s' : State}

theorem State.Sound.reaches (h : s.Sound) (hdotted : s.dotted = false) : s.Reaches s.levels.length :=
  ⟨[], s, by simp, .nil s, h, hdotted, rfl⟩

/-- One token more, and then others. -/
theorem Move.reaches {t : Token} {levels : Nat} (hm : Move s t s') (ht : t.isNode = false)
    (h : s'.Reaches levels) : s.Reaches levels := by
  obtain ⟨us, u, hus, hreads, hu⟩ := h
  exact ⟨t :: us, u, List.forall_mem_cons.mpr ⟨ht, hus⟩, hm.cons hreads, hu⟩

/-- A dot that waits can have its selector. -/
theorem State.Sound.selects (h : s.Sound) : s.Reaches s.levels.length := by
  have hsound := h
  cases h with
  | @mk opening tokens rest operand dotted _ _ hdotted =>
    cases dotted with
    | false => exact hsound.reaches rfl
    | true =>
      obtain ⟨-, rfl⟩ := hdotted.mp rfl
      have hmove : Move ⟨⟨opening, tokens⟩ :: rest, false, true⟩ (.symbol "x")
          ⟨⟨opening, .symbol "x" :: tokens⟩ :: rest, true, false⟩ := .shift rfl
      exact hmove.reaches rfl ((hsound.move hmove).reaches rfl)

/-- The innermost bracket can be closed, if no dot waits. -/
theorem State.Sound.descends {levels : Nat} (h : s.Sound) (hdotted : s.dotted = false)
    (hlevels : s.levels.length = levels + 2) : s.Reaches (levels + 1) := by
  have hcloses {t : Token} {u : State} (hm : Move s t u) (ht : t.isNode = false)
      (hu : u.dotted = false) (hlength : u.levels.length = levels + 1) : s.Reaches (levels + 1) :=
    hm.reaches ht (hlength ▸ (h.move hm).reaches hu)
  have hsound := h
  cases h with
  | @mk opening tokens rest operand dotted hopen hoperand _ =>
    subst hdotted
    cases hopen with
    | outermost _ => simp at hlevels
    | @inner opening tokens below rest _ _ _ =>
      have hlength : (below :: rest).length = levels + 1 := by simpa using hlevels
      cases opening with
      | array items => exact hcloses (.closeList .array) rfl rfl hlength
      | call args => exact hcloses (.closeList .call) rfl rfl hlength
      | index =>
        by_cases hempty : tokens = []
        · -- An empty index cannot be closed: it gets an operand first.
          obtain rfl : operand = false := Bool.eq_false_iff.mpr fun hyes => hoperand hyes hempty
          have hfilled : Move ⟨⟨some .index, tokens⟩ :: below :: rest, false, false⟩ (.symbol "x")
              ⟨⟨some .index, .symbol "x" :: tokens⟩ :: below :: rest, true, false⟩ := .shift rfl
          have hclosed : Move ⟨⟨some .index, .symbol "x" :: tokens⟩ :: below :: rest, true, false⟩
              (.operator ']')
              ⟨⟨below.opening, .index (.symbol "x" :: tokens).reverse :: below.tokens⟩ :: rest, true, false⟩ :=
            .closeIndex (List.cons_ne_nil _ _)
          refine hfilled.reaches rfl (hclosed.reaches rfl (hlength ▸ ?_))
          exact ((hsound.move hfilled).move hclosed).reaches rfl
        · exact hcloses (.closeIndex hempty) rfl rfl hlength

/-- One bracket after the other is closed. -/
theorem State.Reaches.outermost {levels : Nat} (h : s.Reaches (levels + 1)) : s.Reaches 1 := by
  induction levels with
  | zero => exact h
  | succ levels ih =>
    obtain ⟨us, u, hus, hreads, hsound, hdotted, hlength⟩ := h
    obtain ⟨us', u', hus', hreads', hu'⟩ := hsound.descends hdotted hlength
    exact ih ⟨us ++ us', u', List.forall_mem_append.mpr ⟨hus, hus'⟩, hreads.append hreads', hu'⟩

/-- No sound state is a dead end. -/
theorem State.Sound.completes (h : s.Sound) :
    ∃ us s' chain, (∀ u ∈ us, u.isNode = false) ∧ Reads s us s' ∧ s'.close = .ok chain := by
  obtain ⟨levels, hlevels⟩ := Nat.exists_eq_succ_of_ne_zero (mt List.length_eq_zero_iff.mp h.levels_ne_nil)
  have hreaches : s.Reaches (levels + 1) := Nat.succ_eq_add_one levels ▸ hlevels ▸ h.selects
  obtain ⟨us, s', hus, hreads, -, hdotted, hlength⟩ := hreaches.outermost
  obtain ⟨level, hlevel⟩ := List.length_eq_one_iff.mp hlength
  exact ⟨us, s', _, hus, hreads, Token.close_eq_ok_iff.mpr ⟨hdotted, level, hlevel, rfl⟩⟩

end Nesting

namespace Token

open Nesting

/-- Tokens that are refused before their end are refused with whatever comes behind them. -/
theorem nest_append_eq_error {ts : List Token} {cause : Cause}
    (h : ts.foldlM State.step State.start = .error cause) (us : List Token) :
    nest (ts ++ us) = .error cause := by
  rw [nest, List.foldlM_append, h]
  rfl

/-- **Refusal at the earliest token.** Whatever has been read, either operands and operators can come
behind it so that nesting accepts it, or it is refused, and everything that begins with it is refused for
the same fault. -/
theorem nest_refuses_early (expr : String) (ts : List Token) :
    (∃ us chain, (∀ u ∈ us, u.isNode = false) ∧ nestIn expr (ts ++ us) = .ok chain) ∨
      ∃ fault, nestIn expr ts = .error fault ∧ ∀ us, nestIn expr (ts ++ us) = .error fault := by
  cases hts : ts.foldlM State.step State.start with
  | error cause =>
    have hrefused (us : List Token) : nestIn expr (ts ++ us) = .error ⟨cause, expr⟩ := by
      rw [nestIn, nest_append_eq_error hts]
      rfl
    exact .inr ⟨⟨cause, expr⟩, by simpa using hrefused [], hrefused⟩
  | ok s =>
    have hsound : s.Sound := Reads.sound .start hts
    obtain ⟨us, s', chain, hus, hreads, hclose⟩ := hsound.completes
    have hnest : nest (ts ++ us) = .ok chain := nest_eq_ok_iff.mpr ⟨s', Reads.append hts hreads, hclose⟩
    exact .inl ⟨us, chain, hus, by rw [nestIn, hnest]; rfl⟩

end Token

end ReactiveViews
