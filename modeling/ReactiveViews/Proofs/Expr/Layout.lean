import ReactiveViews.Proofs.Expr.Lexemes

/-!
# Layouts

Which source texts can be scanned: lexemes in a row with white space around them. White space is
needed in two places only. Two runs side by side would be one, and a point right behind an integer
would make it a number with a point, unless the integer is a selector, which never takes one.

## What is proved

**Scanning** (`scan_accepts_layouts`). A source text has tokens exactly if it is a layout, and then
they are the tokens of its lexemes; every other text is refused at the lexical stage.

## The invariant

What the walk has read so far is `Walked`: lexemes in a row, white space, and then the pending run
or the text that is open. Where no text is open, a run that is the last lexeme has white space
behind it; and a pending run with a point in it does not follow a dot.
-/

namespace ReactiveViews.Token

/-! ### The grammar -/

/-- Symbols and numbers; side by side they would be one run. -/
def IsRunToken : Token → Prop
  | symbol _ | integer _ | float _ => True
  | string _ | index _ | array _ | call _ | operator _ => False

/-- Integers. -/
def IsInteger : Token → Prop
  | integer _ => True
  | symbol _ | string _ | float _ | index _ | array _ | call _ | operator _ => False

/-- Numbers with a point. -/
def IsFloat : Token → Prop
  | float _ => True
  | symbol _ | string _ | integer _ | index _ | array _ | call _ | operator _ => False

/-- White space and nothing else. -/
def IsGap (cs : List Char) : Prop := ∀ c ∈ cs, Text.isBlank c = true

/-- A lexeme with the white space before it. -/
structure Lexeme where
  /-- The white space. -/
  gap : List Char
  /-- The lexeme itself. -/
  text : List Char
  /-- Its token. -/
  token : Token
  blank : IsGap gap
  reads : IsLexeme text token

/-- What must hold of a token `a`, the next token `b` and the white space between them; `before` is
the token before `a`, if there is one. -/
structure Apart (before : Option Token) (a : Token) (gap : List Char) (b : Token) : Prop where
  /-- Two runs are separated. -/
  runs : IsRunToken a → IsRunToken b → gap ≠ []
  /-- An integer that is no selector is separated from a dot. -/
  integer : IsInteger a → before ≠ some (.operator '.') → b = .operator '.' → gap ≠ []
  /-- No selector has a point. -/
  float : a = .operator '.' → ¬ IsFloat b

/-- Lexemes that can stand side by side as they do. -/
def Spaced (lexemes : List Lexeme) : Prop :=
  ∀ before a b after, lexemes = before ++ a :: b :: after →
    Apart (before.getLast?.map Lexeme.token) a.token b.gap b.token

/-- The text of lexemes. -/
def spelled (lexemes : List Lexeme) : List Char := lexemes.flatMap fun l => l.gap ++ l.text

/-- A source text taken apart into lexemes. -/
structure Layout where
  /-- The lexemes. -/
  lexemes : List Lexeme
  /-- The white space behind the last one. -/
  tail : List Char
  spaced : Spaced lexemes
  blank : IsGap tail

/-- The source text of a layout. -/
def Layout.text (layout : Layout) : List Char := spelled layout.lexemes ++ layout.tail

/-- The tokens of a layout. -/
def Layout.tokens (layout : Layout) : List Token := layout.lexemes.map Lexeme.token

/-! ### Lexemes in a row -/

theorem IsGap.nil : IsGap [] := fun _ h => absurd h List.not_mem_nil

theorem IsGap.snoc {gap : List Char} {c : Char} (h : IsGap gap) (hc : Text.isBlank c = true) :
    IsGap (gap ++ [c]) := by
  intro d hd
  rcases List.mem_append.mp hd with hd | hd
  · exact h d hd
  · rw [List.mem_singleton.mp hd]
    exact hc

theorem Spaced.nil : Spaced [] := by
  intro before a b after h
  simp at h

/-- One lexeme more in a row. -/
theorem Spaced.snoc {lexemes : List Lexeme} {b : Lexeme} (h : Spaced lexemes)
    (hb : ∀ before a, lexemes = before ++ [a] →
      Apart (before.getLast?.map Lexeme.token) a.token b.gap b.token) : Spaced (lexemes ++ [b]) := by
  intro before a b' after heq
  rcases List.eq_nil_or_concat after with rfl | ⟨after, last, rfl⟩
  · have hsplit : lexemes ++ [b] = (before ++ [a]) ++ [b'] := by simpa using heq
    obtain ⟨hlexemes, hlast⟩ := List.append_inj' hsplit rfl
    cases hlast
    exact hb before a hlexemes
  · have hsplit : lexemes ++ [b] = (before ++ a :: b' :: after) ++ [last] := by simpa using heq
    exact h before a b' after (List.append_inj' hsplit rfl).1

theorem spelled_snoc (lexemes : List Lexeme) (l : Lexeme) :
    spelled (lexemes ++ [l]) = spelled lexemes ++ (l.gap ++ l.text) := by
  simp [spelled]

/-- Something that is neither a run nor a dot can stand anywhere. -/
theorem Apart.of_not_run {before : Option Token} {a b : Token} (gap : List Char)
    (hrun : ¬ IsRunToken b) (hdot : b ≠ .operator '.') : Apart before a gap b where
  runs _ hb := absurd hb hrun
  integer _ _ hb := absurd hb hdot
  float _ hb := by cases b <;> simp_all [IsFloat, IsRunToken]

theorem IsRun.isRunToken {run : List Char} {token : Token} (h : IsRun run token) :
    IsRunToken token := by
  cases h <;> trivial

theorem IsRun.ne_nil {run : List Char} {token : Token} (h : IsRun run token) : run ≠ [] := by
  cases h <;> simp_all

theorem IsRun.isIntegerRun_of {run : List Char} {token : Token} (h : IsRun run token)
    (ht : IsInteger token) : isIntegerRun run = true := by
  cases h with
  | symbol _ _ | float _ _ _ => cases ht
  | integer hne hd _ _ => exact isIntegerRun_iff.mpr ⟨_, _, rfl, hne, hd⟩

theorem IsRun.isInteger_of {run : List Char} {token : Token} (h : IsRun run token)
    (hrun : isIntegerRun run = true) : IsInteger token := by
  cases h with
  | integer _ _ _ _ => trivial
  | symbol hc hcs =>
    obtain ⟨sign, digits, heq, hne, hd⟩ := isIntegerRun_iff.mp hrun
    have hsymbol := isSymbolRun_signed sign hne hd []
    rw [List.append_nil, ← heq, isSymbolRun_iff.mpr ⟨_, _, rfl, hc, hcs⟩] at hsymbol
    cases hsymbol
  | float _ _ _ => exact absurd (point_not_mem_of_isIntegerRun hrun) (by simp)

theorem IsRun.point_mem {run : List Char} {token : Token} (h : IsRun run token)
    (ht : IsFloat token) : '.' ∈ run := by
  cases h with
  | symbol _ _ | integer _ _ _ _ => cases ht
  | float _ _ _ => simp

theorem endsInDot_iff {tokens : List Token} :
    endsInDot tokens = true ↔ tokens.head? = some (.operator '.') := by
  unfold endsInDot
  split
  · simp
  · rename_i h
    cases tokens with
    | nil => simp
    | cons t rest => simpa using fun ht => h rest (by rw [ht])

/-! ### What has been read -/

/-- The tokens of lexemes, last first. -/
def tokensOf (lexemes : List Lexeme) : List Token := (lexemes.map Lexeme.token).reverse

theorem tokensOf_snoc (lexemes : List Lexeme) (l : Lexeme) :
    tokensOf (lexemes ++ [l]) = l.token :: tokensOf lexemes := by
  simp [tokensOf]

/-- What has been read when the walk is in a state. -/
inductive Walked : List Char → Option (List Char) → List Char → List Token → Prop where
  /-- A text is open. -/
  | text {lexemes : List Lexeme} {gap s : List Char} : Spaced lexemes → IsGap gap → apostrophe ∉ s →
    Walked (spelled lexemes ++ gap ++ apostrophe :: s.reverse) (some s) [] (tokensOf lexemes)
  /-- A run is pending, or nothing is. -/
  | run {lexemes : List Lexeme} {gap r : List Char} : Spaced lexemes → IsGap gap →
    (gap = [] → ∀ l ∈ lexemes.getLast?, ¬ IsRunToken l.token) →
    ('.' ∈ r → endsInDot (tokensOf lexemes) = false) →
    Walked (spelled lexemes ++ gap ++ r.reverse) none r (tokensOf lexemes)

/-- Nothing is pending. -/
theorem Walked.idle {lexemes : List Lexeme} {gap : List Char} (hspaced : Spaced lexemes) (hgap : IsGap gap)
    (hlast : gap = [] → ∀ l ∈ lexemes.getLast?, ¬ IsRunToken l.token) :
    Walked (spelled lexemes ++ gap) none [] (tokensOf lexemes) := by
  have hrun := Walked.run (r := []) hspaced hgap hlast fun hmem => absurd hmem List.not_mem_nil
  rwa [List.reverse_nil, List.append_nil] at hrun

theorem Walked.start : Walked [] none [] [] := .idle .nil .nil fun _ _ h => by cases h

/-- Right behind a lexeme that is no run. -/
theorem Walked.snoc {lexemes : List Lexeme} {l : Lexeme} (hspaced : Spaced (lexemes ++ [l]))
    (hl : ¬ IsRunToken l.token) :
    Walked (spelled lexemes ++ l.gap ++ l.text) none [] (l.token :: tokensOf lexemes) := by
  have hidle := Walked.idle hspaced .nil fun _ l' hl' => ?_
  · simpa [spelled_snoc, tokensOf_snoc] using hidle
  · simp only [List.getLast?_append, List.getLast?_singleton, Option.some_or, Option.mem_def,
      Option.some.injEq] at hl'
    rwa [← hl']

/-- The pending run as a lexeme. -/
theorem Spaced.snoc_run {lexemes : List Lexeme} {gap run : List Char} {token : Token}
    (h : Spaced lexemes) (hgap : IsGap gap)
    (hlast : gap = [] → ∀ l ∈ lexemes.getLast?, ¬ IsRunToken l.token)
    (hpoint : '.' ∈ run → endsInDot (tokensOf lexemes) = false) (hrun : IsRun run.reverse token) :
    Spaced (lexemes ++ [⟨gap, run.reverse, token, hgap, .run hrun⟩]) := by
  refine h.snoc fun before a heq => ⟨fun ha _ hnil => ?_, fun _ _ hb => ?_, fun ha hfloat => ?_⟩
  · exact hlast hnil a (by simp [heq]) ha
  · have hb' := hrun.isRunToken
    rw [show token = .operator '.' from hb] at hb'
    exact absurd hb' id
  · have hdot : endsInDot (tokensOf lexemes) = true := by
      rw [endsInDot_iff, heq, tokensOf_snoc, ha, List.head?_cons]
    rw [hpoint (List.mem_reverse.mp (hrun.point_mem hfloat))] at hdot
    exact Bool.false_ne_true hdot

theorem flush_eq_ok_iff {run : List Char} {tokens flushed : List Token} :
    flush run tokens = .ok flushed ↔
      (run = [] ∧ flushed = tokens) ∨ ∃ token, IsRun run.reverse token ∧ flushed = token :: tokens := by
  by_cases hempty : run = []
  · subst hempty
    have hno : ¬ ∃ token, IsRun [].reverse token ∧ flushed = token :: tokens :=
      fun ⟨_, h, _⟩ => h.ne_nil rfl
    simp only [flush, List.isEmpty_nil, if_true, hno, or_false, true_and, Except.ok.injEq]
    exact eq_comm
  · rw [flush, if_neg (by simpa using hempty)]
    cases h : ofRun run.reverse with
    | error cause =>
      have hno : ∀ token, ¬ IsRun run.reverse token := by
        intro token hrun
        rw [ofRun_of_isRun hrun] at h
        cases h
      simp [Except.map, hempty, hno]
    | ok token =>
      have hrun := isRun_of_ofRun h
      simp only [Except.map, Except.ok.injEq, hempty, false_and, false_or]
      constructor
      · rintro rfl
        exact ⟨token, hrun, rfl⟩
      · rintro ⟨token', hrun', rfl⟩
        rw [ofRun_of_isRun hrun'] at h
        cases h
        rfl

/-- What has been read when the pending run has just ended: a run that is the last lexeme and has
no white space behind it is the one that ended. -/
def Flushed (pre run : List Char) (tokens flushed : List Token) : Prop :=
  ∃ lexemes gap, Spaced lexemes ∧ IsGap gap ∧ flushed = tokensOf lexemes ∧ pre = spelled lexemes ++ gap ∧
    ∀ before a, lexemes = before ++ [a] → gap = [] → IsRunToken a.token →
      tokens = tokensOf before ∧ IsRun run.reverse a.token

theorem Walked.flushed {pre run : List Char} {tokens flushed : List Token}
    (h : Walked pre none run tokens) (hf : flush run tokens = .ok flushed) :
    Flushed pre run tokens flushed := by
  obtain _ | ⟨hspaced, hgap, hlast, hpoint⟩ := h
  rename_i lexemes gap
  rcases flush_eq_ok_iff.mp hf with ⟨rfl, rfl⟩ | ⟨token, hrun, rfl⟩
  · refine ⟨lexemes, gap, hspaced, hgap, rfl, by simp, fun before a heq hnil ha => ?_⟩
    exact absurd ha (hlast hnil a (by simp [heq]))
  · refine ⟨_, [], hspaced.snoc_run hgap hlast hpoint hrun, .nil, by rw [tokensOf_snoc], ?_, ?_⟩
    · simp [spelled_snoc]
    · intro before a heq _ _
      obtain ⟨rfl, hlexeme⟩ := List.append_inj' heq rfl
      cases hlexeme
      exact ⟨rfl, hrun⟩

/-! ### One character more -/

section Steps

variable {pre run : List Char} {tokens flushed : List Token} {c : Char}

/-- A text opens. -/
theorem Flushed.opened (h : Flushed pre run tokens flushed) :
    Walked (pre ++ [apostrophe]) (some []) [] flushed := by
  obtain ⟨lexemes, gap, hspaced, hgap, rfl, rfl, -⟩ := h
  exact .text (s := []) hspaced hgap List.not_mem_nil

/-- White space. -/
theorem Flushed.blank (h : Flushed pre run tokens flushed) (hc : Text.isBlank c = true) :
    Walked (pre ++ [c]) none [] flushed := by
  obtain ⟨lexemes, gap, hspaced, hgap, rfl, rfl, -⟩ := h
  have hidle := Walked.idle hspaced (hgap.snoc hc) fun hnil => by simp at hnil
  rwa [← List.append_assoc] at hidle

/-- An operator. A dot is one only if the run before it is no integer, or a selector. -/
theorem Flushed.operator (h : Flushed pre run tokens flushed) (hc : isOperator c = true)
    (hdot : c = '.' → isIntegerRun run.reverse = true → endsInDot tokens = true) :
    Walked (pre ++ [c]) none [] (.operator c :: flushed) := by
  obtain ⟨lexemes, gap, hspaced, hgap, rfl, rfl, hlast⟩ := h
  have hspaced' : Spaced (lexemes ++ [⟨gap, [c], .operator c, hgap, .operator hc⟩]) := by
    refine hspaced.snoc fun before a heq => ⟨fun _ hb => absurd hb id, fun ha hbefore hb hnil => ?_,
      fun _ hb => absurd hb id⟩
    have hinteger : IsRunToken a.token := by
      cases htoken : a.token <;> simp_all [IsInteger, IsRunToken]
    obtain ⟨rfl, hrun⟩ := hlast before a heq hnil hinteger
    have hend := hdot (by simpa using hb) (hrun.isIntegerRun_of ha)
    rw [endsInDot_iff] at hend
    refine hbefore ?_
    simpa [tokensOf] using hend
  exact .snoc hspaced' id

/-- A character of the pending run. -/
theorem Walked.push (h : Walked pre none run tokens) (hc : c = '.' → endsInDot tokens = false) :
    Walked (pre ++ [c]) none (c :: run) tokens := by
  obtain _ | ⟨hspaced, hgap, hlast, hpoint⟩ := h
  have hrun := Walked.run (r := c :: run) hspaced hgap hlast fun hmem => ?_
  · simpa using hrun
  · rcases List.mem_cons.mp hmem with hdot | hmem
    · exact hc hdot.symm
    · exact hpoint hmem

/-- A character of the open text. -/
theorem Walked.more {s : List Char} (h : Walked pre (some s) run tokens) (hc : c ≠ apostrophe) :
    Walked (pre ++ [c]) (some (c :: s)) run tokens := by
  obtain ⟨hspaced, hgap, hs⟩ | _ := h
  have htext := Walked.text (s := c :: s) hspaced hgap (by simpa using ⟨hc.symm, hs⟩)
  simpa using htext

/-- The open text closes. -/
theorem Walked.closed {s : List Char} (h : Walked pre (some s) run tokens) :
    Walked (pre ++ [apostrophe]) none run (.string (String.ofList s.reverse) :: tokens) := by
  obtain ⟨hspaced, hgap, hs⟩ | _ := h
  rename_i lexemes gap
  have hreads : IsLexeme (apostrophe :: (s.reverse ++ [apostrophe])) (.string (String.ofList s.reverse)) :=
    .string (by simpa using hs)
  have hspaced' : Spaced (lexemes ++ [⟨gap, _, _, hgap, hreads⟩]) :=
    hspaced.snoc fun before a _ => .of_not_run gap id (by simp)
  have hclosed := Walked.snoc hspaced' id
  simpa using hclosed

/-- Nothing follows. -/
theorem Flushed.exists_layout (h : Flushed pre run tokens flushed) :
    ∃ layout : Layout, layout.text = pre ∧ layout.tokens = flushed.reverse := by
  obtain ⟨lexemes, gap, hspaced, hgap, rfl, rfl, -⟩ := h
  exact ⟨⟨lexemes, gap, hspaced, hgap⟩, rfl, (List.reverse_reverse _).symm⟩

end Steps

/-- What the walk makes of the rest of a source text are the tokens of a layout. -/
theorem Walked.exists_layout {pre run rest : List Char} {text : Option (List Char)}
    {tokens ts : List Token} (h : Walked pre text run tokens)
    (hscan : scanChars text run tokens rest = .ok ts) :
    ∃ layout : Layout, layout.text = pre ++ rest ∧ layout.tokens = ts := by
  induction rest generalizing pre text run tokens with
  | nil =>
    cases text with
    | some s => cases hscan
    | none =>
      rw [scanChars] at hscan
      cases hf : flush run tokens with
      | error cause =>
        rw [hf] at hscan
        cases hscan
      | ok flushed =>
        rw [hf] at hscan
        cases hscan
        rw [List.append_nil]
        exact (h.flushed hf).exists_layout
  | cons c rest ih =>
    rw [← List.singleton_append, ← List.append_assoc]
    cases text with
    | some s =>
      rw [scanChars] at hscan
      by_cases hc : c = apostrophe
      · subst hc
        rw [if_pos rfl] at hscan
        exact ih h.closed hscan
      · rw [if_neg hc] at hscan
        exact ih (h.more hc) hscan
    | none =>
      rw [scanChars] at hscan
      split_ifs at hscan with happ hpoint hop hblank
      · obtain ⟨flushed, hf, hscan⟩ := bind_eq_ok_iff.mp hscan
        rw [happ]
        exact ih (h.flushed hf).opened hscan
      · exact ih (h.push fun _ => by simpa using hpoint.2.2) hscan
      · obtain ⟨flushed, hf, hscan⟩ := bind_eq_ok_iff.mp hscan
        refine ih ((h.flushed hf).operator hop fun hdot hinteger => ?_) hscan
        by_contra hend
        exact hpoint ⟨hdot, hinteger, hend⟩
      · obtain ⟨flushed, hf, hscan⟩ := bind_eq_ok_iff.mp hscan
        exact ih ((h.flushed hf).blank hblank) hscan
      · exact ih (h.push fun hdot => absurd (by rw [hdot]; rfl) hop) hscan

/-! ### The walk, one character at a time -/

section Characters

variable {c : Char} {run : List Char} {tokens : List Token} (rest : List Char)

theorem ne_apostrophe_of_isOperator (hc : isOperator c = true) : c ≠ apostrophe := by
  rintro rfl
  exact absurd hc (by decide)

theorem scanChars_apostrophe :
    scanChars none run tokens (apostrophe :: rest) =
      (flush run tokens).bind fun tokens => scanChars (some []) [] tokens rest := by
  rw [scanChars, if_pos rfl]

theorem scanChars_operator (hc : isOperator c = true)
    (hdot : c = '.' → isIntegerRun run.reverse = true → endsInDot tokens = true) :
    scanChars none run tokens (c :: rest) =
      (flush run tokens).bind fun tokens => scanChars none [] (.operator c :: tokens) rest := by
  have hpoint : ¬ (c = '.' ∧ isIntegerRun run.reverse = true ∧ ¬ endsInDot tokens = true) :=
    fun h => h.2.2 (hdot h.1 h.2.1)
  rw [scanChars, if_neg (ne_apostrophe_of_isOperator hc), if_neg hpoint, if_pos hc]

theorem scanChars_blank (hc : Text.isBlank c = true) :
    scanChars none run tokens (c :: rest) =
      (flush run tokens).bind fun tokens => scanChars none [] tokens rest := by
  have happ : c ≠ apostrophe := by
    rintro rfl
    exact absurd hc (by decide)
  have hop : ¬ isOperator c = true := by
    intro hop
    have hblank : Text.isBlank c = false := apply_of_isOperator rfl hop
    exact Bool.false_ne_true (hblank.symm.trans hc)
  have hpoint : ¬ (c = '.' ∧ isIntegerRun run.reverse = true ∧ ¬ endsInDot tokens = true) :=
    fun h => hop (by rw [h.1]; rfl)
  rw [scanChars, if_neg happ, if_neg hpoint, if_neg hop, if_pos hc]

theorem scanChars_plain (hc : IsPlain c) :
    scanChars none run tokens (c :: rest) = scanChars none (c :: run) tokens rest := by
  obtain ⟨happ, hop, hblank⟩ := hc
  have hpoint : ¬ (c = '.' ∧ isIntegerRun run.reverse = true ∧ ¬ endsInDot tokens = true) := by
    rintro ⟨rfl, -⟩
    exact absurd hop (by decide)
  rw [scanChars, if_neg happ, if_neg hpoint, hop, hblank, if_neg Bool.false_ne_true,
    if_neg Bool.false_ne_true]

theorem scanChars_point (hinteger : isIntegerRun run.reverse = true) (hend : endsInDot tokens = false) :
    scanChars none run tokens ('.' :: rest) = scanChars none ('.' :: run) tokens rest := by
  have happ : '.' ≠ apostrophe := by decide
  rw [scanChars, if_neg happ, if_pos ⟨rfl, hinteger, by simp [hend]⟩]

end Characters

/-! ### Layouts are scanned -/

theorem scanChars_gap {gap : List Char} (h : IsGap gap) (tokens : List Token) (rest : List Char) :
    scanChars none [] tokens (gap ++ rest) = scanChars none [] tokens rest := by
  induction gap with
  | nil => rfl
  | cons c gap ih =>
    rw [List.cons_append, scanChars_blank _ (h c (List.mem_cons_self ..))]
    exact ih fun d hd => h d (List.mem_cons_of_mem _ hd)

theorem scanChars_plain_append {cs : List Char} (h : ∀ c ∈ cs, IsPlain c) (run : List Char)
    (tokens : List Token) (rest : List Char) :
    scanChars none run tokens (cs ++ rest) = scanChars none (cs.reverse ++ run) tokens rest := by
  induction cs generalizing run with
  | nil => rfl
  | cons c cs ih =>
    rw [List.cons_append, scanChars_plain _ (h c (List.mem_cons_self ..)),
      ih fun d hd => h d (List.mem_cons_of_mem _ hd), List.reverse_cons, List.append_assoc,
      List.singleton_append]

theorem scanChars_text {cs : List Char} (h : apostrophe ∉ cs) (s run : List Char)
    (tokens : List Token) (rest : List Char) :
    scanChars (some s) run tokens (cs ++ apostrophe :: rest) =
      scanChars none run (.string (String.ofList (s.reverse ++ cs)) :: tokens) rest := by
  induction cs generalizing s with
  | nil => rw [List.nil_append, scanChars, if_pos rfl, List.append_nil]
  | cons c cs ih =>
    obtain ⟨hc, hcs⟩ : apostrophe ≠ c ∧ apostrophe ∉ cs := by simpa using h
    rw [List.cons_append, scanChars, if_neg (Ne.symm hc), ih hcs, List.reverse_cons, List.append_assoc,
      List.singleton_append]

/-- A run is read to its end, the point of a number included unless it follows a dot. -/
theorem scanChars_run {run : List Char} {token : Token} (h : IsRun run token)
    {tokens : List Token} (hdot : IsFloat token → endsInDot tokens = false) (rest : List Char) :
    scanChars none [] tokens (run ++ rest) = scanChars none run.reverse tokens rest := by
  cases h with
  | @symbol c cs hc hcs =>
    have hplain : ∀ d ∈ c :: cs, IsPlain d := by
      refine List.forall_mem_cons.mpr ⟨.of_isSymbolPart ?_, fun d hd => .of_isSymbolPart (hcs d hd)⟩
      exact isSymbolPart_of_isSymbolStart hc
    rw [scanChars_plain_append hplain, List.append_nil]
  | @integer sign digits _ hd _ _ => rw [scanChars_plain_append (plain_signed sign hd), List.append_nil]
  | @float sign whole fraction hne hwhole hfraction =>
    have hinteger : isIntegerRun (sign.chars ++ whole) = true :=
      isIntegerRun_iff.mpr ⟨sign, whole, rfl, hne, hwhole⟩
    have hpoint : scanChars none (sign.chars ++ whole).reverse tokens ('.' :: (fraction ++ rest)) =
        scanChars none ('.' :: (sign.chars ++ whole).reverse) tokens (fraction ++ rest) :=
      scanChars_point _ (by rwa [List.reverse_reverse]) (hdot trivial)
    rw [List.append_assoc, List.cons_append, scanChars_plain_append (plain_signed sign hwhole), List.append_nil,
      hpoint, scanChars_plain_append fun c hc => .of_isDigit (hfraction c hc)]
    congr 1
    simp

/-- Something that ends the pending run: the end, white space, an apostrophe, or an operator; a dot
not if the run is an integer, unless it is a selector. -/
inductive Ends (run : List Char) (tokens : List Token) : List Char → Prop where
  /-- The end. -/
  | nil : Ends run tokens []
  /-- White space. -/
  | blank {c : Char} {rest : List Char} : Text.isBlank c = true → Ends run tokens (c :: rest)
  /-- An apostrophe. -/
  | apostrophe {rest : List Char} : Ends run tokens (apostrophe :: rest)
  /-- An operator. -/
  | operator {c : Char} {rest : List Char} : isOperator c = true →
    (c = '.' → isIntegerRun run.reverse = true → endsInDot tokens = true) → Ends run tokens (c :: rest)

/-- Where a run ends, its token goes to the others and the walk goes on without it. -/
theorem Ends.scanChars_eq {run rest : List Char} {tokens flushed : List Token}
    (h : Ends run tokens rest) (hf : flush run tokens = .ok flushed) :
    scanChars none run tokens rest = scanChars none [] flushed rest := by
  have hnone : flush [] flushed = .ok flushed := rfl
  cases h with
  | nil => rw [scanChars, scanChars, hf, hnone]
  | blank hc => rw [scanChars_blank _ hc, scanChars_blank _ hc, hf, hnone]
  | apostrophe => rw [scanChars_apostrophe, scanChars_apostrophe, hf, hnone]
  | operator hc hdot =>
    rw [scanChars_operator _ hc hdot, scanChars_operator _ hc (fun _ h => by cases h), hf, hnone]

/-- A lexeme is read to its end, if what follows ends it. -/
theorem IsLexeme.scanChars_eq {text rest : List Char} {token : Token} {tokens : List Token}
    (h : IsLexeme text token) (hdot : IsFloat token → endsInDot tokens = false)
    (hends : IsRun text token → Ends text.reverse tokens rest) :
    scanChars none [] tokens (text ++ rest) = scanChars none [] (token :: tokens) rest := by
  cases h with
  | operator hc => exact scanChars_operator _ hc (fun _ h => by cases h)
  | @string cs hcs =>
    rw [List.cons_append, List.append_assoc, List.singleton_append, scanChars_apostrophe]
    exact scanChars_text hcs [] [] tokens rest
  | run hrun =>
    have hflush : flush text.reverse tokens = .ok (token :: tokens) :=
      flush_eq_ok_iff.mpr (.inr ⟨token, by rwa [List.reverse_reverse], rfl⟩)
    rw [scanChars_run hrun hdot, (hends hrun).scanChars_eq hflush]

/-- What follows a run in a layout ends it. -/
theorem Spaced.ends {done todo : List Lexeme} {l : Lexeme} {tail : List Char}
    (h : Spaced (done ++ l :: todo)) (htail : IsGap tail) (hrun : IsRun l.text l.token) :
    Ends l.text.reverse (tokensOf done) (spelled todo ++ tail) := by
  cases todo with
  | nil =>
    cases tail with
    | nil => exact .nil
    | cons c tail => exact .blank (htail c (List.mem_cons_self ..))
  | cons next todo =>
    obtain ⟨hruns, hinteger, -⟩ := h done l next todo rfl
    obtain ⟨gap, text, token, hgap, hreads⟩ := next
    cases gap with
    | cons c gap => exact .blank (hgap c (List.mem_cons_self ..))
    | nil =>
      cases hreads with
      | run hnext => exact absurd rfl (hruns hrun.isRunToken hnext.isRunToken)
      | string _ => exact .apostrophe
      | operator hc =>
        refine .operator hc fun hdot hrunInteger => ?_
        by_contra hend
        have hbefore : done.getLast?.map Lexeme.token ≠ some (.operator '.') := by
          intro hbefore
          refine hend (endsInDot_iff.mpr ?_)
          simpa [tokensOf] using hbefore
        rw [List.reverse_reverse] at hrunInteger
        exact hinteger (hrun.isInteger_of hrunInteger) hbefore (congrArg Token.operator hdot) rfl

/-- No number with a point follows a dot in a layout. -/
theorem Spaced.endsInDot_eq_false {done todo : List Lexeme} {l : Lexeme}
    (h : Spaced (done ++ l :: todo)) (hfloat : IsFloat l.token) : endsInDot (tokensOf done) = false := by
  rcases List.eq_nil_or_concat done with rfl | ⟨before, a, rfl⟩
  · rfl
  · rw [List.concat_eq_append, tokensOf_snoc]
    refine Bool.eq_false_iff.mpr fun hend => ?_
    have hdot : a.token = .operator '.' := by simpa using endsInDot_iff.mp hend
    exact (h before a l todo (by simp)).float hdot hfloat

/-- The lexemes of a layout are scanned one after the other. -/
theorem Spaced.scanChars_eq (done : List Lexeme) {todo : List Lexeme} {tail : List Char}
    (h : Spaced (done ++ todo)) (htail : IsGap tail) :
    scanChars none [] (tokensOf done) (spelled todo ++ tail) = .ok ((done ++ todo).map Lexeme.token) := by
  induction todo generalizing done with
  | nil =>
    have hgap := scanChars_gap htail (tokensOf done) []
    rw [List.append_nil] at hgap ⊢
    exact hgap.trans (congrArg Except.ok (List.reverse_reverse _))
  | cons l todo ih =>
    have hspelled : spelled (l :: todo) ++ tail = l.gap ++ (l.text ++ (spelled todo ++ tail)) := by
      simp [spelled]
    have hrest := ih (done ++ [l]) (by simpa using h)
    rw [tokensOf_snoc, List.append_assoc, List.singleton_append] at hrest
    rw [hspelled, scanChars_gap l.blank, l.reads.scanChars_eq h.endsInDot_eq_false (h.ends htail), hrest]

/-! ### Scanning and layouts -/

/-- A text has tokens exactly if it is a layout. -/
theorem scanChars_eq_ok_iff {cs : List Char} {ts : List Token} :
    scanChars none [] [] cs = .ok ts ↔ ∃ layout : Layout, layout.text = cs ∧ layout.tokens = ts := by
  constructor
  · intro h
    exact Walked.start.exists_layout h
  · rintro ⟨⟨lexemes, tail, hspaced, htail⟩, rfl, rfl⟩
    exact Spaced.scanChars_eq [] hspaced htail

theorem stage_of_flush {run : List Char} {tokens : List Token} {cause : Cause}
    (h : flush run tokens = .error cause) : cause.stage = .lexical := by
  rw [flush] at h
  split at h
  · cases h
  · cases hrun : ofRun run.reverse with
    | ok token =>
      rw [hrun] at h
      cases h
    | error cause' =>
      rw [hrun] at h
      cases h
      exact stage_of_ofRun hrun

/-- Whatever is wrong with a text is found at the lexical stage. -/
theorem stage_of_scanChars {text : Option (List Char)} {run : List Char} {tokens : List Token}
    {cs : List Char} {cause : Cause} (h : scanChars text run tokens cs = .error cause) :
    cause.stage = .lexical := by
  induction cs generalizing text run tokens with
  | nil =>
    cases text with
    | some s =>
      cases h
      rfl
    | none =>
      rw [scanChars] at h
      cases hf : flush run tokens with
      | ok flushed =>
        rw [hf] at h
        cases h
      | error cause' =>
        rw [hf] at h
        cases h
        exact stage_of_flush hf
  | cons c cs ih =>
    have hbind : ∀ {next : List Token → Except Cause (List Token)},
        (∀ flushed, next flushed = .error cause → cause.stage = .lexical) →
        (flush run tokens).bind next = .error cause → cause.stage = .lexical := by
      intro next hnext hb
      rcases bind_eq_error_iff.mp hb with hf | ⟨flushed, -, hf⟩
      · exact stage_of_flush hf
      · exact hnext flushed hf
    cases text with
    | some s =>
      rw [scanChars] at h
      split_ifs at h <;> exact ih h
    | none =>
      rw [scanChars] at h
      split_ifs at h
      · exact hbind (fun _ => ih) h
      · exact ih h
      · exact hbind (fun _ => ih) h
      · exact hbind (fun _ => ih) h
      · exact ih h

/-- The tokens of a source text, without the text that messages name. -/
theorem scan_eq_ok_iff {src : String} {ts : List Token} :
    scan src = .ok ts ↔ ∃ layout : Layout, layout.text = src.toList ∧ layout.tokens = ts := by
  rw [scan, mapError_eq_ok_iff, scanChars_eq_ok_iff]

theorem stage_of_scan {src : String} {fault : Fault} (h : scan src = .error fault) :
    fault.cause.stage = .lexical := by
  obtain ⟨cause, hcause, rfl⟩ := mapError_eq_error_iff.mp h
  exact stage_of_scanChars hcause

/-- Only white space has no tokens. -/
theorem scan_eq_nil_iff {src : String} : scan src = .ok [] ↔ IsGap src.toList := by
  rw [scan_eq_ok_iff]
  constructor
  · rintro ⟨⟨lexemes, tail, hspaced, htail⟩, htext, htokens⟩
    have hlexemes : lexemes = [] := List.map_eq_nil_iff.mp htokens
    subst hlexemes
    exact htext ▸ htail
  · intro h
    exact ⟨⟨[], src.toList, .nil, h⟩, rfl, rfl⟩

/-- **Scanning accepts exactly the layouts**: a source text has the tokens `ts` exactly if it is a
layout of lexemes whose tokens are `ts`, and is refused at the lexical stage exactly if it is no
layout. -/
theorem scan_accepts_layouts (src : String) :
    (∀ ts, scan src = .ok ts ↔ ∃ layout : Layout, layout.text = src.toList ∧ layout.tokens = ts) ∧
      ((∃ fault, scan src = .error fault ∧ fault.cause.stage = .lexical) ↔
        ¬ ∃ layout : Layout, layout.text = src.toList) := by
  refine ⟨fun ts => scan_eq_ok_iff, ?_, ?_⟩
  · rintro ⟨fault, hfault, -⟩ ⟨layout, hlayout⟩
    rw [scan_eq_ok_iff.mpr ⟨layout, hlayout, rfl⟩] at hfault
    cases hfault
  · intro hno
    cases h : scan src with
    | error fault => exact ⟨fault, rfl, stage_of_scan h⟩
    | ok ts =>
      obtain ⟨layout, hlayout, -⟩ := scan_eq_ok_iff.mp h
      exact absurd ⟨layout, hlayout⟩ hno

end ReactiveViews.Token
