import ReactiveViews.Expr.Interpolation

/-!
# Spans

A text with expressions taken apart: plain texts and expressions in turn, and a plain text at the
end. Every opening pair of braces is the first one behind the last expression, and every closing
pair the first one behind its opening pair; at the end there is no opening pair with a closing pair
behind it.

## What is proved

Every text can be taken apart so (`exists_cut`), and in one way only (`Cut.text_injective`). The
pieces that a text is split into are those of its cut (`Cut.pieces_text`).
-/

namespace ReactiveViews.Interpolation

/-! ### First places -/

/-- The braces before an expression. -/
def opener : List Char := [openBrace, openBrace]

/-- The braces behind an expression. -/
def closer : List Char := [closeBrace, closeBrace]

/-- A mark written behind some characters is found there and nowhere before. -/
def FirstAt (mark cs : List Char) : Prop := ∀ a b, cs ++ mark = a ++ mark ++ b → b = []

/-- Another place of a mark is behind its first place. -/
theorem FirstAt.le {mark cs rest a b : List Char} (h : FirstAt mark cs)
    (heq : cs ++ mark ++ rest = a ++ mark ++ b) : ∃ t u, a = cs ++ t ∧ rest = u ++ b := by
  rcases List.append_eq_append_iff.mp heq with ⟨u, ha, hrest⟩ | ⟨u, hcs, hb⟩
  · rw [List.append_assoc] at ha
    rcases List.append_eq_append_iff.mp ha with ⟨t, hcs, hmark⟩ | ⟨t, hcs, -⟩
    · -- the mark is no shorter than itself with something before it
      have hlength := congrArg List.length hmark
      simp only [List.length_append] at hlength
      have ht : t = [] := List.eq_nil_of_length_eq_zero (by omega)
      subst ht
      exact ⟨[], u, by simpa using hcs.symm, hrest⟩
    · exact ⟨t, u, hcs, hrest⟩
  · have hu := h a u hcs
    subst hu
    rw [List.append_nil] at hcs
    exact ⟨[], [], by simpa using (List.append_cancel_right hcs).symm, hb.symm⟩

/-- There is one first place. -/
theorem FirstAt.eq {mark cs cs' rest rest' : List Char} (h : FirstAt mark cs) (h' : FirstAt mark cs')
    (heq : cs ++ mark ++ rest = cs' ++ mark ++ rest') : cs = cs' ∧ rest = rest' := by
  obtain ⟨t, -, hcs', -⟩ := h.le heq
  obtain ⟨t', -, hcs, -⟩ := h'.le heq.symm
  have hlength := congrArg List.length hcs'
  have hlength' := congrArg List.length hcs
  simp only [List.length_append] at hlength hlength'
  have ht : t = [] := List.eq_nil_of_length_eq_zero (by omega)
  rw [ht, List.append_nil] at hcs'
  rw [hcs', List.append_assoc, List.append_assoc, List.append_cancel_left_eq, List.append_cancel_left_eq] at heq
  exact ⟨hcs'.symm, heq⟩

theorem FirstAt.nil (mark : List Char) : FirstAt mark [] := by
  intro a b heq
  have hlength := congrArg List.length heq
  simp only [List.nil_append, List.length_append] at hlength
  exact List.eq_nil_of_length_eq_zero (by omega)

/-- A mark that is found somewhere has a first place. -/
theorem exists_firstAt {mark cs a b : List Char} (h : cs = a ++ mark ++ b) :
    ∃ before rest, cs = before ++ mark ++ rest ∧ FirstAt mark before := by
  induction cs generalizing a with
  | nil => exact ⟨[], [], by simp_all, .nil mark⟩
  | cons c cs ih =>
    by_cases hstart : ∃ rest, c :: cs = mark ++ rest
    · obtain ⟨rest, hrest⟩ := hstart
      exact ⟨[], rest, hrest, .nil mark⟩
    · cases a with
      | nil => exact absurd ⟨b, h⟩ hstart
      | cons c' a =>
        obtain ⟨before, rest, rfl, hfirst⟩ := ih (List.cons.inj h).2
        refine ⟨c :: before, rest, rfl, fun a' b' heq => ?_⟩
        cases a' with
        | nil =>
          refine absurd ⟨b' ++ rest, ?_⟩ hstart
          rw [← List.append_assoc]
          exact congrArg (· ++ rest) heq
        | cons c'' a' => exact hfirst a' b' (List.cons.inj heq).2

/-! ### Cuts -/

/-- An opening pair of braces with a closing pair behind it. -/
def HasSpan (cs : List Char) : Prop := ∃ a b c, cs = a ++ opener ++ (b ++ closer ++ c)

/-- A plain text and the expression behind it. -/
structure Span where
  /-- The plain text. -/
  before : List Char
  /-- The source of the expression, without its braces. -/
  src : List Char
  before_first : FirstAt opener before
  src_first : FirstAt closer src

/-- The characters of a span. -/
def Span.text (s : Span) : List Char := s.before ++ opener ++ (s.src ++ closer)

/-- The source of the expression of a span. -/
def Span.source (s : Span) : String := String.ofList s.src

/-- A text taken apart. -/
structure Cut where
  /-- The plain texts with the expressions behind them. -/
  spans : List Span
  /-- The plain text at the end. -/
  rest : List Char
  rest_plain : ¬ HasSpan rest

/-- The text that was taken apart. -/
def Cut.text (cut : Cut) : List Char := cut.spans.flatMap Span.text ++ cut.rest

/-- A span more at the front. -/
def Cut.cons (s : Span) (cut : Cut) : Cut := ⟨s :: cut.spans, cut.rest, cut.rest_plain⟩

theorem Cut.text_cons (s : Span) (cut : Cut) :
    (cut.cons s).text = s.before ++ opener ++ (s.src ++ closer ++ cut.text) := by
  simp [Cut.cons, Cut.text, Span.text]

/-- A text with a span begins with a first one. -/
theorem HasSpan.exists_span {cs : List Char} (h : HasSpan cs) :
    ∃ (s : Span) (rest : List Char), cs = s.before ++ opener ++ (s.src ++ closer ++ rest) := by
  obtain ⟨a, b, c, hcs⟩ := h
  obtain ⟨before, rest, hbefore, hfirst⟩ := exists_firstAt hcs
  -- what stands behind the first opening pair ends in the text behind the given one
  obtain ⟨-, u, -, hrest⟩ := hfirst.le (hbefore.symm.trans hcs)
  have hcloser : rest = u ++ b ++ closer ++ c := by simpa using hrest
  obtain ⟨src, rest', hsrc, hfirst'⟩ := exists_firstAt hcloser
  exact ⟨⟨before, src, hfirst, hfirst'⟩, rest', by rw [hbefore, hsrc]⟩

/-- Every text can be taken apart. -/
theorem exists_cut (cs : List Char) : ∃ cut : Cut, cut.text = cs := by
  by_cases hspan : HasSpan cs
  · obtain ⟨s, rest, hcs⟩ := hspan.exists_span
    have hshorter : rest.length < cs.length := by
      simp only [hcs, opener, closer, List.length_append, List.length_cons, List.length_nil]
      omega
    obtain ⟨cut, hcut⟩ := exists_cut rest
    exact ⟨cut.cons s, by rw [cut.text_cons, hcut, hcs]⟩
  · exact ⟨⟨[], cs, hspan⟩, rfl⟩
termination_by cs.length

theorem Span.ext {s s' : Span} (hbefore : s.before = s'.before) (hsrc : s.src = s'.src) : s = s' := by
  cases s
  cases s'
  cases hbefore
  cases hsrc
  rfl

theorem hasSpan_text_cons (s : Span) (cut : Cut) : HasSpan (cut.cons s).text :=
  ⟨s.before, s.src, cut.text, cut.text_cons s⟩

/-- A text can be taken apart in one way only: its first span is decided by the first places of the
braces, and what is behind it is a shorter text. -/
theorem Cut.text_injective {cut cut' : Cut} (h : cut.text = cut'.text) : cut = cut' := by
  obtain ⟨spans, rest, hrest⟩ := cut
  obtain ⟨spans', rest', hrest'⟩ := cut'
  induction spans generalizing spans' with
  | nil =>
    cases spans' with
    | nil =>
      cases h
      rfl
    | cons s' spans' =>
      have hspan := hasSpan_text_cons s' ⟨spans', rest', hrest'⟩
      rw [Cut.cons, ← h] at hspan
      exact absurd hspan hrest
  | cons s spans ih =>
    cases spans' with
    | nil =>
      have hspan := hasSpan_text_cons s ⟨spans, rest, hrest⟩
      rw [Cut.cons, h] at hspan
      exact absurd hspan hrest'
    | cons s' spans' =>
      have heq := (Cut.text_cons s ⟨spans, rest, hrest⟩).symm.trans
        (h.trans (Cut.text_cons s' ⟨spans', rest', hrest'⟩))
      obtain ⟨hbefore, hbehind⟩ := s.before_first.eq s'.before_first heq
      obtain ⟨hsrc, htext⟩ := s.src_first.eq s'.src_first hbehind
      obtain ⟨rfl, rfl⟩ := Cut.mk.inj (ih spans' htext)
      rw [Span.ext hbefore hsrc]

/-! ### The pieces of a cut -/

section Walk

variable {before src rest : List Char} {c d : Char}

theorem pieces_open :
    pieces before none (openBrace :: openBrace :: rest) = pieces before (some []) rest := by
  rw [pieces, if_pos ⟨rfl, rfl⟩]

theorem pieces_plain (h : ¬ (c = openBrace ∧ d = openBrace)) :
    pieces before none (c :: d :: rest) = pieces (c :: before) none (d :: rest) := by
  rw [pieces, if_neg h]

theorem pieces_close :
    pieces before (some src) (closeBrace :: closeBrace :: rest) =
      plainPiece before.reverse ++ .expression (String.ofList src.reverse) :: pieces [] none rest := by
  rw [pieces, if_pos ⟨rfl, rfl⟩]

theorem pieces_inside (h : ¬ (c = closeBrace ∧ d = closeBrace)) :
    pieces before (some src) (c :: d :: rest) = pieces before (some (c :: src)) (d :: rest) := by
  rw [pieces, if_neg h]

end Walk

theorem FirstAt.tail {mark cs : List Char} {c : Char} (h : FirstAt mark (c :: cs)) :
    FirstAt mark cs := fun a b heq => h (c :: a) b (congrArg (c :: ·) heq)

/-- A mark of two equal characters does not stand before its first place. -/
theorem FirstAt.not_both {m c d : Char} {cs rest tail : List Char} (h : FirstAt [m, m] (c :: cs))
    (heq : cs ++ [m, m] ++ rest = d :: tail) : ¬ (c = m ∧ d = m) := by
  rintro ⟨rfl, rfl⟩
  cases cs with
  | nil =>
    have hnil := h [] [_] rfl
    cases hnil
  | cons e cs =>
    obtain ⟨rfl, -⟩ := List.cons.inj heq
    have hnil := h [] (cs ++ [e, e]) rfl
    simp at hnil

/-- Something stands at the beginning of a text that holds a pair. -/
theorem exists_head (cs rest : List Char) (m : Char) :
    ∃ d tail, cs ++ [m, m] ++ rest = d :: tail := by
  cases cs with
  | nil => exact ⟨m, m :: rest, rfl⟩
  | cons d cs => exact ⟨d, cs ++ [m, m] ++ rest, rfl⟩

/-- The plain text before an expression is passed over. -/
theorem pieces_before {cs : List Char} (h : FirstAt opener cs) (before rest : List Char) :
    pieces before none (cs ++ opener ++ rest) = pieces (cs.reverse ++ before) (some []) rest := by
  induction cs generalizing before with
  | nil => exact pieces_open
  | cons c cs ih =>
    obtain ⟨d, tail, htail⟩ := exists_head cs rest openBrace
    have hnot := h.not_both htail
    calc pieces before none (c :: (cs ++ opener ++ rest))
        = pieces (c :: before) none (cs ++ opener ++ rest) := by
          rw [opener, htail, pieces_plain hnot]
      _ = pieces ((c :: cs).reverse ++ before) (some []) rest := by
          rw [ih h.tail, List.reverse_cons, List.append_assoc, List.singleton_append]

/-- An expression is read up to its closing pair. -/
theorem pieces_src {cs : List Char} (h : FirstAt closer cs) (before src rest : List Char) :
    pieces before (some src) (cs ++ closer ++ rest) =
      plainPiece before.reverse ++ .expression (String.ofList (src.reverse ++ cs)) :: pieces [] none rest := by
  induction cs generalizing src with
  | nil =>
    rw [List.append_nil]
    exact pieces_close
  | cons c cs ih =>
    obtain ⟨d, tail, htail⟩ := exists_head cs rest closeBrace
    have hnot := h.not_both htail
    calc pieces before (some src) (c :: (cs ++ closer ++ rest))
        = pieces before (some (c :: src)) (cs ++ closer ++ rest) := by
          rw [closer, htail, pieces_inside hnot]
      _ = _ := by
          rw [ih h.tail, List.reverse_cons, List.append_assoc, List.singleton_append]

/-- An opening pair without a closing one is plain text, and so is all behind it. -/
theorem pieces_unclosed {cs : List Char} (h : ∀ a b, cs ≠ a ++ closer ++ b) (before src : List Char) :
    pieces before (some src) cs = plainPiece (before.reverse ++ opener ++ (src.reverse ++ cs)) := by
  induction cs generalizing src with
  | nil => simp [pieces, opener]
  | cons c cs ih =>
    cases cs with
    | nil => simp [pieces, opener]
    | cons d cs =>
      have hnot : ¬ (c = closeBrace ∧ d = closeBrace) := by
        rintro ⟨rfl, rfl⟩
        exact h [] cs rfl
      rw [pieces_inside hnot, ih fun a b heq => h (c :: a) b (congrArg (c :: ·) heq)]
      simp

/-- A text without a span is plain. -/
theorem pieces_of_not_hasSpan {cs : List Char} (h : ¬ HasSpan cs) (before : List Char) :
    pieces before none cs = plainPiece (before.reverse ++ cs) := by
  induction cs generalizing before with
  | nil => simp [pieces]
  | cons c cs ih =>
    cases cs with
    | nil => simp [pieces]
    | cons d cs =>
      by_cases hopen : c = openBrace ∧ d = openBrace
      · obtain ⟨rfl, rfl⟩ := hopen
        have hclosed : ∀ a b, cs ≠ a ++ closer ++ b := by
          rintro a b rfl
          exact h ⟨[], a, b, rfl⟩
        rw [pieces_open, pieces_unclosed hclosed]
        simp [opener]
      · have hrest : ¬ HasSpan (d :: cs) := by
          rintro ⟨a, b, e, heq⟩
          exact h ⟨c :: a, b, e, congrArg (c :: ·) heq⟩
        rw [pieces_plain hopen, ih hrest]
        simp

/-- The pieces of a span. -/
def Span.pieces (s : Span) : List Piece := plainPiece s.before ++ [.expression s.source]

/-- The pieces of a text taken apart. -/
def Cut.pieces (cut : Cut) : List Piece := cut.spans.flatMap Span.pieces ++ plainPiece cut.rest

/-- **Splitting**: the pieces of a text are those of its cut. -/
theorem Cut.pieces_text (cut : Cut) : Interpolation.pieces [] none cut.text = cut.pieces := by
  obtain ⟨spans, rest, hrest⟩ := cut
  induction spans with
  | nil => exact pieces_of_not_hasSpan hrest []
  | cons s spans ih =>
    have htext := Cut.text_cons s ⟨spans, rest, hrest⟩
    rw [Cut.cons] at htext
    rw [htext, pieces_before s.before_first, pieces_src s.src_first, ih]
    simp [Cut.pieces, Span.pieces, Span.source]

end ReactiveViews.Interpolation
