import ReactiveViews.Proofs.Expr.Layout
import ReactiveViews.Proofs.Expr.Nesting
import ReactiveViews.Proofs.Expr.Terms

/-!
# What nests compiles

Compiling refuses an index or a call at the front of a chain, operators, and chains without
tokens. Nesting makes no such thing, so that a text is refused either while it is scanned, or while
it is nested, or because there is nothing in it.

## What is proved

**Compilation** (`Chain.compile_refuses_blank`). Whatever nesting makes of a source text compiles,
and so does every chain inside of it, unless it is empty; a text fails to compile exactly if it is
white space, and every other fault is the one of scanning or of nesting.
-/

namespace ReactiveViews

namespace Nesting

/-! ### Faults of nesting -/

section Faults

variable {s s' : State} {cause : Cause}

theorem stage_of_ascend {closer : Char} (h : s.ascend closer = .error cause) :
    cause.stage = .syntactic := by
  unfold State.ascend at h
  split at h
  · cases h
    rfl
  · split at h <;> cases h
    rfl

theorem stage_of_comma (h : s.comma = .error cause) : cause.stage = .syntactic := by
  unfold State.comma at h
  split at h
  · split at h <;> cases h
    rfl
  · split at h <;> cases h
    rfl
  · cases h
    rfl

theorem stage_of_closeBracket (h : s.closeBracket = .error cause) : cause.stage = .syntactic := by
  rcases bind_eq_error_iff.mp h with h | ⟨⟨level, below⟩, -, h⟩
  · exact stage_of_ascend h
  · dsimp only at h
    split at h
    · split at h <;> cases h
      rfl
    · cases h
    · cases h
      rfl

theorem stage_of_closeParenthesis (h : s.closeParenthesis = .error cause) :
    cause.stage = .syntactic := by
  rcases bind_eq_error_iff.mp h with h | ⟨⟨level, below⟩, -, h⟩
  · exact stage_of_ascend h
  · dsimp only at h
    split at h <;> cases h
    rfl

theorem stage_of_operator {c : Char} (h : s.operator c = .error cause) :
    cause.stage = .syntactic := by
  unfold State.operator at h
  split_ifs at h <;> try cases h; rfl
  · exact stage_of_comma h
  · exact stage_of_closeBracket h
  · exact stage_of_closeParenthesis h

theorem stage_of_step {t : Token} (h : s.step t = .error cause) : cause.stage = .syntactic := by
  unfold State.step at h
  split at h
  · exact stage_of_operator h
  · unfold State.shift at h
    split_ifs at h <;> cases h <;> rfl

theorem stage_of_close (h : s.close = .error cause) : cause.stage = .syntactic := by
  unfold State.close at h
  split at h
  · cases h
    rfl
  · split at h <;> cases h <;> rfl

end Faults

end Nesting

namespace Token

open Nesting

theorem stage_of_nest {ts : List Token} {cause : Cause} (h : nest ts = .error cause) :
    cause.stage = .syntactic :=
  of_nest_refused (P := (·.stage = .syntactic)) (fun _ => stage_of_step) (fun _ => stage_of_close) h

/-! ### What nesting makes -/

/-- Nesting makes a chain, or nothing of nothing. -/
theorem isChain_of_nest {ts chain : List Token} (h : nest ts = .ok chain) :
    (ts = [] ∧ chain = []) ∨ IsChain chain := by
  obtain ⟨⟨levels, operand, dotted⟩, hreads, hclose⟩ := nest_eq_ok_iff.mp h
  obtain ⟨hdotted, ⟨opening, tokens⟩, hlevels, rfl⟩ := close_eq_ok_iff.mp hclose
  have hsound := hreads.sound .start
  have htext := hreads.text_eq
  simp only at hdotted hlevels
  subst hdotted hlevels
  obtain ⟨hlevels, -, -⟩ := hsound
  rcases hlevels.begun with rfl | hchain
  · refine .inl ⟨?_, rfl⟩
    cases hlevels with
    | outermost _ =>
      by_contra hne
      exact dropTrailingCommas_ne_nil hne (htext.symm.trans rfl)
  · exact .inr hchain

/-- A chain compiles. -/
theorem IsChain.exists_ofTokens {chain : List Token} (h : IsChain chain) (expr : String) :
    ∃ c, Chain.ofTokens chain expr = .ok c := by
  obtain ⟨t, rfl⟩ := h.exists_term
  exact ⟨_, Chain.ofTokens_tokens t expr⟩

/-! ### Source texts -/

variable {src : String} {tokens : List Token}

theorem parse_eq_ok_iff :
    parse src = .ok tokens ↔ ∃ ts, scan src = .ok ts ∧ nest ts = .ok tokens := by
  refine bind_eq_ok_iff.trans (exists_congr fun ts => and_congr_right fun _ => ?_)
  rw [nestIn, mapError_eq_ok_iff]

theorem isChain_of_parse (h : parse src = .ok tokens) (hne : tokens ≠ []) : IsChain tokens := by
  obtain ⟨ts, -, hnest⟩ := parse_eq_ok_iff.mp h
  exact (isChain_of_nest hnest).resolve_left fun hnil => hne hnil.2

/-- Only white space becomes nothing. -/
theorem parse_eq_nil_iff : parse src = .ok [] ↔ IsGap src.toList := by
  rw [parse_eq_ok_iff, ← scan_eq_nil_iff]
  constructor
  · rintro ⟨ts, hscan, hnest⟩
    obtain ⟨rfl, -⟩ := (isChain_of_nest hnest).resolve_right fun h => h.ne_nil rfl
    exact hscan
  · exact fun hscan => ⟨[], hscan, rfl⟩

/-- A fault of a source text is found by scanning it, or by nesting its tokens. -/
theorem parse_eq_error_iff {fault : Fault} :
    parse src = .error fault ↔
      scan src = .error fault ∨ ∃ ts, scan src = .ok ts ∧ nestIn src ts = .error fault :=
  bind_eq_error_iff

theorem stage_of_nestIn {ts : List Token} {fault : Fault} (h : nestIn src ts = .error fault) :
    fault.cause.stage = .syntactic := by
  obtain ⟨cause, hcause, rfl⟩ := mapError_eq_error_iff.mp h
  exact stage_of_nest hcause

theorem stage_of_parse {fault : Fault} (h : parse src = .error fault) :
    fault.cause.stage ≠ .compilation := by
  rcases parse_eq_error_iff.mp h with h | ⟨ts, -, h⟩
  · rw [stage_of_scan h]
    exact Stage.noConfusion
  · rw [stage_of_nestIn h]
    exact Stage.noConfusion

end Token

namespace Chain

open Token

variable {src : String}

theorem result_compile (src : String) :
    (compile src).result = (parse src).bind fun tokens => ofTokens tokens (Text.trim src) := by
  simp [compile, Except.bind]

/-- A text without tokens has no steps. -/
theorem ofTokens_nil (expr : String) : ofTokens [] expr = .error ⟨.emptyExpression, expr⟩ := rfl

/-- A text is refused as it is parsed, or has nothing in it. -/
theorem compile_eq_error_iff {fault : Fault} :
    (compile src).result = .error fault ↔
      parse src = .error fault ∨ IsGap src.toList ∧ fault = ⟨.emptyExpression, Text.trim src⟩ := by
  rw [result_compile, bind_eq_error_iff, ← parse_eq_nil_iff]
  refine or_congr_right ⟨?_, ?_⟩
  · rintro ⟨tokens, hparse, hfault⟩
    by_cases hne : tokens = []
    · subst hne
      rw [ofTokens_nil] at hfault
      cases hfault
      exact ⟨hparse, rfl⟩
    · obtain ⟨c, hc⟩ := (isChain_of_parse hparse hne).exists_ofTokens (Text.trim src)
      rw [hc] at hfault
      cases hfault
  · rintro ⟨hparse, rfl⟩
    exact ⟨[], hparse, rfl⟩

/-- **Only white space fails to compile**: the tokens of a source text, unless there are none,
compile together with every chain inside of them; a text fails at the stage of compilation exactly
if it is white space; and any other fault is the one that scanning finds, at the lexical stage, or
the one that nesting finds, at the syntactic stage. -/
theorem compile_refuses_blank (src : String) :
    (∀ tokens, parse src = .ok tokens → tokens ≠ [] → ∀ inner, Within inner tokens →
      ∀ expr, ∃ c, ofTokens inner expr = .ok c) ∧
    ((∃ fault, (compile src).result = .error fault ∧ fault.cause.stage = .compilation) ↔
      ∀ c ∈ src.toList, Text.isBlank c = true) ∧
    ∀ fault, (compile src).result = .error fault → fault.cause.stage ≠ .compilation →
      (scan src = .error fault ∧ fault.cause.stage = .lexical) ∨
        ∃ ts, scan src = .ok ts ∧ nestIn src ts = .error fault ∧ fault.cause.stage = .syntactic := by
  refine ⟨?_, ⟨?_, ?_⟩, ?_⟩
  · intro tokens hparse hne inner hinner expr
    exact ((isChain_of_parse hparse hne).within hinner).exists_ofTokens expr
  · rintro ⟨fault, hfault, hstage⟩
    rcases compile_eq_error_iff.mp hfault with hparse | ⟨hblank, -⟩
    · exact absurd hstage (stage_of_parse hparse)
    · exact hblank
  · intro hblank
    exact ⟨_, compile_eq_error_iff.mpr (.inr ⟨hblank, rfl⟩), rfl⟩
  · intro fault hfault hstage
    rcases compile_eq_error_iff.mp hfault with hparse | ⟨-, rfl⟩
    · rcases parse_eq_error_iff.mp hparse with hscan | ⟨ts, hscan, hnest⟩
      · exact .inl ⟨hscan, stage_of_scan hscan⟩
      · exact .inr ⟨ts, hscan, hnest, stage_of_nestIn hnest⟩
    · exact absurd rfl hstage

end Chain

end ReactiveViews
