import ReactiveViews.Live.Evaluation
import ReactiveViews.Proofs.Expr.Spans

/-!
# Texts with expressions

What a text with expressions stands for, told from its spans: a text without any stands for itself,
one that is a single expression and nothing else for the value of that expression, and every other
for its plain texts with the texts of the values between them.

Compiling knows pieces and parts. There are no empty ones among them, so that the number of parts
tells whether there is anything around an expression.

## What is proved

**Interpolation** (`text_interpolates`). A text is refused exactly if one of its expressions is, with
the fault of the first such expression. Otherwise it is evaluated to what it stands for; the
expressions are evaluated from left to right, each is turned into text before the next is evaluated,
and the first failure is the failure of the whole.
-/

namespace ReactiveViews.Interpolation

variable {σ : Type}

/-! ### What a text stands for -/

/-- A span whose expression is compiled. -/
structure CompiledSpan where
  /-- The span. -/
  span : Span
  /-- The compiled expression. -/
  chain : Chain
  compiles : (Chain.compile span.source).result = .ok chain

/-- The fault of the first expression that has one; those before it are compiled. -/
def FirstFault (spans : List Span) (fault : Fault) : Prop :=
  ∃ (before : List CompiledSpan) (s : Span) (after : List Span),
    spans = before.map CompiledSpan.span ++ s :: after ∧
      (Chain.compile s.source).result = .error fault

/-- The plain texts of spans and the texts of their values, and `rest` at the end. -/
def rendered (context : Context) (rest : List Char) : List CompiledSpan → Eval σ String
  | [] => return String.ofList rest
  | s :: others => do
    let value ← Eval.chain context s.chain
    let text ← Eval.act (Act.text value)
    let behind ← rendered context rest others
    return String.ofList s.span.before ++ text ++ behind

/-- What the text `T` stands for, which consists of spans and of `rest` at the end. -/
def value (T : String) (context : Context) (rest : List Char) : List CompiledSpan → Eval σ Value
  | [] => return .str T
  | [s] =>
    if s.span.before = [] ∧ rest = [] then Eval.chain context s.chain
    else .str <$> rendered context rest [s]
  | spans => .str <$> rendered context rest spans

/-! ### Compiling the pieces -/

/-- A part that is plain text, unless there is none. -/
def plainPart (cs : List Char) : List Part :=
  if cs.isEmpty then [] else [.plain (String.ofList cs)]

/-- The parts of a span. -/
def CompiledSpan.parts (s : CompiledSpan) : List Part := plainPart s.span.before ++ [.chain s.chain]

/-- The parts of spans, and of `rest` at the end. -/
def partsOf (spans : List CompiledSpan) (rest : List Char) : List Part :=
  spans.flatMap CompiledSpan.parts ++ plainPart rest

/-- Compiles pieces, without the remarks. -/
def compilePieces (ps : List Piece) : Except Fault (List Part) :=
  ps.mapM fun p => (Part.compile p).result

theorem result_compileText (T : String) :
    (Part.compileText T).result = compilePieces (split T) := by
  simp only [Part.compileText, Traced.result_bind, Traced.result_mapM, Traced.result_remark,
    Traced.result_pure, compilePieces]
  cases (split T).mapM fun p => (Part.compile p).result <;> rfl

theorem compilePieces_append (ps qs : List Piece) :
    compilePieces (ps ++ qs) = do return (← compilePieces ps) ++ (← compilePieces qs) :=
  List.mapM_append

theorem compilePieces_plain (cs : List Char) : compilePieces (plainPiece cs) = .ok (plainPart cs) := by
  unfold plainPiece plainPart
  split <;> rfl

theorem compilePieces_span (s : Span) :
    compilePieces s.pieces =
      (Chain.compile s.source).result.map fun c => plainPart s.before ++ [.chain c] := by
  rw [Span.pieces, compilePieces_append, compilePieces_plain]
  simp only [compilePieces, List.mapM_cons, List.mapM_nil, Part.compile, Traced.result_map]
  cases (Chain.compile s.source).result <;> rfl

theorem compilePieces_compiled (spans : List CompiledSpan) :
    compilePieces ((spans.map CompiledSpan.span).flatMap Span.pieces) =
      .ok (spans.flatMap CompiledSpan.parts) := by
  induction spans with
  | nil => rfl
  | cons s spans ih =>
    rw [List.map_cons, List.flatMap_cons, compilePieces_append, compilePieces_span, s.compiles, ih]
    rfl

/-- The first fault of the expressions is the fault of the pieces, whatever comes behind. -/
theorem compilePieces_fault {spans : List Span} {fault : Fault} (h : FirstFault spans fault)
    (ps : List Piece) : compilePieces (spans.flatMap Span.pieces ++ ps) = .error fault := by
  obtain ⟨compiled, s, after, rfl, hfault⟩ := h
  rw [List.flatMap_append, List.append_assoc, compilePieces_append, compilePieces_compiled,
    List.flatMap_cons, List.append_assoc, compilePieces_append, compilePieces_span, hfault]
  rfl

/-- Either all expressions are compiled, or there is a first that is not. -/
theorem compiled_or_fault (spans : List Span) :
    (∃ compiled : List CompiledSpan, compiled.map CompiledSpan.span = spans) ∨
      ∃ fault, FirstFault spans fault := by
  induction spans with
  | nil => exact .inl ⟨[], rfl⟩
  | cons s spans ih =>
    cases hs : (Chain.compile s.source).result with
    | error fault => exact .inr ⟨fault, [], s, spans, rfl, hs⟩
    | ok c =>
      rcases ih with ⟨compiled, hcompiled⟩ | ⟨fault, compiled, s', after, heq, hfault⟩
      · exact .inl ⟨⟨s, c, hs⟩ :: compiled, congrArg (s :: ·) hcompiled⟩
      · exact .inr ⟨fault, ⟨s, c, hs⟩ :: compiled, s', after, congrArg (s :: ·) heq, hfault⟩

/-! ### The value of the parts -/

open Eval (joined)

theorem joined_plainPart (context : Context) (cs : List Char) (ps : List Part) :
    (joined context (plainPart cs ++ ps) : Eval σ String) =
      (String.ofList cs ++ ·) <$> joined context ps := by
  unfold plainPart
  split
  next hempty =>
    rw [List.isEmpty_iff.mp hempty]
    simp
  next =>
    have htext : (Eval.act (Act.text (.str (String.ofList cs))) : Eval σ String) = pure (String.ofList cs) :=
      rfl
    simp [joined, Eval.part, htext]

/-- The texts of the parts, one after the other. -/
theorem joined_partsOf (context : Context) (rest : List Char) (spans : List CompiledSpan) :
    (joined context (partsOf spans rest) : Eval σ String) = rendered context rest spans := by
  induction spans with
  | nil =>
    have hplain : (joined context (plainPart rest ++ []) : Eval σ String) =
        (String.ofList rest ++ ·) <$> joined context [] := joined_plainPart context rest []
    simpa [joined, partsOf, rendered] using hplain
  | cons s spans ih =>
    have hparts : partsOf (s :: spans) rest =
        plainPart s.span.before ++ .chain s.chain :: partsOf spans rest := by
      simp [partsOf, CompiledSpan.parts]
    rw [hparts, joined_plainPart]
    simp [joined, Eval.part, ih, rendered, String.append_assoc]

/-- Only the value of a single part is not turned into text. -/
theorem resolve_text_of_length_ne {parts : List Part} (h : parts.length ≠ 1) (context : Context) :
    (Eval.resolve context (.text parts) : Eval σ Value) = .str <$> joined context parts := by
  match parts, h with
  | [], _ | _ :: _ :: _, _ => simp [Eval.resolve]

theorem length_partsOf_cons (s : CompiledSpan) (spans : List CompiledSpan) (rest : List Char) :
    (partsOf (s :: spans) rest).length =
      (plainPart s.span.before).length + 1 + (partsOf spans rest).length := by
  simp [partsOf, CompiledSpan.parts]
  omega

theorem length_plainPart_pos {cs : List Char} (h : cs ≠ []) : 0 < (plainPart cs).length := by
  simp [plainPart, h]

/-- The parts of a text with expressions have the value that it stands for. -/
theorem resolve_partsOf (T : String) (context : Context) (rest : List Char) {spans : List CompiledSpan}
    (h : spans ≠ []) :
    (Eval.resolve context (.text (partsOf spans rest)) : Eval σ Value) = value T context rest spans := by
  match spans, h with
  | [s], _ =>
    have hlength := length_partsOf_cons s [] rest
    have hrest : partsOf [] rest = plainPart rest := rfl
    by_cases hbare : s.span.before = [] ∧ rest = []
    · obtain ⟨hbefore, rfl⟩ := hbare
      have hparts : partsOf [s] [] = [.chain s.chain] := by
        simp [partsOf, CompiledSpan.parts, hbefore, plainPart]
      rw [hparts, value, if_pos ⟨hbefore, rfl⟩, Eval.resolve, Eval.part]
    · have hmany : (partsOf [s] rest).length ≠ 1 := by
        rw [hlength, hrest]
        by_cases hbefore : s.span.before = []
        · have hpos := length_plainPart_pos fun hrest => hbare ⟨hbefore, hrest⟩
          omega
        · have hpos := length_plainPart_pos hbefore
          omega
      rw [resolve_text_of_length_ne hmany, joined_partsOf, value, if_neg hbare]
  | s :: s' :: spans, _ =>
    have hmany : (partsOf (s :: s' :: spans) rest).length ≠ 1 := by
      rw [length_partsOf_cons, length_partsOf_cons]
      omega
    rw [resolve_text_of_length_ne hmany, joined_partsOf]
    rfl

/-! ### Texts -/

/-- A text without expressions is one plain part, also the empty text. -/
theorem compileText_plain {T : String} {cut : Cut} (h : cut.text = T.toList) (hspans : cut.spans = []) :
    (Part.compileText T).result = .ok [.plain T] := by
  have hrest : cut.rest = T.toList := by simpa [Cut.text, hspans] using h
  have hpieces : split T = [.plain T] := by
    rw [split, ← h, cut.pieces_text, Cut.pieces, hspans, List.flatMap_nil, List.nil_append, hrest]
    by_cases hempty : T = ""
    · subst hempty
      rfl
    · simp [plainPiece, hempty]
  rw [result_compileText, hpieces]
  rfl

/-- A text with expressions is compiled piece by piece. -/
theorem compileText_spans {T : String} {cut : Cut} (h : cut.text = T.toList) (hspans : cut.spans ≠ []) :
    (Part.compileText T).result = compilePieces cut.pieces := by
  have hpieces : cut.pieces ≠ [] := by
    obtain ⟨s, spans, hcons⟩ := List.exists_cons_of_ne_nil hspans
    simp [Cut.pieces, hcons, Span.pieces]
  rw [result_compileText, split, ← h, cut.pieces_text]
  split
  next hnil => exact absurd hnil hpieces
  next => rfl

/-- A text is compiled if all its expressions are, and then has the value that it stands for. -/
theorem compileText_compiled {T : String} {cut : Cut} (h : cut.text = T.toList)
    {compiled : List CompiledSpan} (hcompiled : compiled.map CompiledSpan.span = cut.spans) :
    ∃ parts, (Part.compileText T).result = .ok parts ∧
      ∀ (σ : Type) (context : Context),
        (Eval.resolve context (.text parts) : Eval σ Value) = value T context cut.rest compiled := by
  by_cases hspans : cut.spans = []
  · rw [hspans, List.map_eq_nil_iff] at hcompiled
    subst hcompiled
    exact ⟨[.plain T], compileText_plain h hspans, fun σ context => rfl⟩
  · have hne : compiled ≠ [] := by
      rintro rfl
      exact hspans hcompiled.symm
    refine ⟨partsOf compiled cut.rest, ?_, fun σ context => resolve_partsOf T context cut.rest hne⟩
    rw [compileText_spans h hspans, Cut.pieces, ← hcompiled, compilePieces_append, compilePieces_compiled,
      compilePieces_plain]
    rfl

/-- A text is refused with the first fault of its expressions. -/
theorem compileText_fault {T : String} {cut : Cut} (h : cut.text = T.toList) {fault : Fault}
    (hfault : FirstFault cut.spans fault) : (Part.compileText T).result = .error fault := by
  have hspans : cut.spans ≠ [] := by
    obtain ⟨compiled, s, after, heq, -⟩ := hfault
    simp [heq]
  rw [compileText_spans h hspans, Cut.pieces, compilePieces_fault hfault]

/-- The first fault is the fault of some expression, and where an expression has a fault, some
expression has the first. -/
theorem exists_firstFault_iff (spans : List Span) :
    (∃ fault, FirstFault spans fault) ↔
      ∃ s ∈ spans, ∃ fault, (Chain.compile s.source).result = .error fault := by
  constructor
  · rintro ⟨fault, compiled, s, after, rfl, hfault⟩
    exact ⟨s, by simp, fault, hfault⟩
  · rintro ⟨s, hs, fault, hfault⟩
    rcases compiled_or_fault spans with ⟨compiled, rfl⟩ | hfirst
    · obtain ⟨s', -, rfl⟩ := List.mem_map.mp hs
      rw [s'.compiles] at hfault
      cases hfault
    · exact hfirst

/-- What is to be known of a text and its cut. -/
structure Interpolates (T : String) (cut : Cut) : Prop where
  /-- The text is taken apart without loss. -/
  text : cut.text = T.toList
  /-- There is no other way to take it apart. -/
  only : ∀ cut' : Cut, cut'.text = T.toList → cut' = cut
  /-- A text is refused exactly if one of its expressions is. -/
  refused_iff : (∃ fault, (Part.compileText T).result = .error fault) ↔
    ∃ s ∈ cut.spans, ∃ fault, (Chain.compile s.source).result = .error fault
  /-- It is refused with the fault of the first such expression. -/
  fault_iff : ∀ fault, (Part.compileText T).result = .error fault ↔ FirstFault cut.spans fault
  /-- Otherwise it has the value that it stands for, in every context. -/
  value : ∀ parts, (Part.compileText T).result = .ok parts →
    ∃ compiled : List CompiledSpan, compiled.map CompiledSpan.span = cut.spans ∧
      ∀ (σ : Type) (context : Context),
        (Eval.resolve context (.text parts) : Eval σ Value) = value T context cut.rest compiled

/-- **Interpolation**: a text has one cut, is refused with the first fault of its expressions, and
otherwise has the value that it stands for. -/
theorem text_interpolates (T : String) : ∃ cut, Interpolates T cut := by
  obtain ⟨cut, htext⟩ := exists_cut T.toList
  have hfault : ∀ fault, (Part.compileText T).result = .error fault ↔ FirstFault cut.spans fault := by
    intro fault
    refine ⟨fun herror => ?_, compileText_fault htext⟩
    rcases compiled_or_fault cut.spans with ⟨compiled, hcompiled⟩ | ⟨fault', hfirst⟩
    · obtain ⟨parts, hok, -⟩ := compileText_compiled htext hcompiled
      rw [hok] at herror
      cases herror
    · have heq := compileText_fault htext hfirst
      rw [herror] at heq
      cases heq
      exact hfirst
  refine ⟨cut, htext, fun cut' h => Cut.text_injective (h.trans htext.symm), ?_, hfault, ?_⟩
  · rw [← exists_firstFault_iff]
    exact exists_congr hfault
  · intro parts hparts
    rcases compiled_or_fault cut.spans with ⟨compiled, hcompiled⟩ | ⟨fault, hfirst⟩
    · obtain ⟨parts', hok, hvalue⟩ := compileText_compiled htext hcompiled
      rw [hparts] at hok
      cases hok
      exact ⟨compiled, hcompiled, hvalue⟩
    · rw [compileText_fault htext hfirst] at hparts
      cases hparts

end ReactiveViews.Interpolation
