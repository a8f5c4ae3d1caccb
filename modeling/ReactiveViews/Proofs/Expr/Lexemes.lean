import ReactiveViews.Expr.Scan
import ReactiveViews.Traced
import Mathlib

/-!
# Lexemes

The lexical grammar of expressions: which texts are a token by themselves, and which token. An
operator is one character, a text stands between apostrophes, and a run is a symbol, an integer
of 64 bits or a number with a point.

## What is proved

A run of characters has a token exactly if the grammar gives it one (`ofRun_eq_ok_iff`); whatever
else is wrong with a run is found while scanning (`stage_of_ofRun`). No character of a symbol or
of an integer ends a run (`IsPlain.of_isSymbolPart`, `plain_signed`).
-/

namespace ReactiveViews.Token

/-! ### The grammar -/

/-- Decimal digits and nothing else. -/
def IsDecimal (ds : List Char) : Prop := ∀ d ∈ ds, d.isDigit = true

/-- What can stand in front of a number. -/
inductive Sign where
  /-- Nothing. -/
  | absent
  /-- A plus sign. -/
  | plus
  /-- A minus sign. -/
  | minus

namespace Sign

/-- The characters of a sign. -/
def chars : Sign → List Char
  | absent => []
  | plus => ['+']
  | minus => ['-']

/-- Whether a sign makes a number negative. -/
def isMinus : Sign → Bool
  | minus => true
  | absent | plus => false

/-- The integer with a sign and a size. -/
def of (sign : Sign) (n : Nat) : Int := if sign.isMinus then -n else n

end Sign

/-- A text that is a symbol or a number, and its token. -/
inductive IsRun : List Char → Token → Prop where
  /-- A symbol: a letter or underscore, then letters, digits and underscores. -/
  | symbol {c : Char} {rest : List Char} :
    isSymbolStart c = true → (∀ d ∈ rest, isSymbolPart d = true) →
    IsRun (c :: rest) (.symbol (String.ofList (c :: rest)))
  /-- An integer of 64 bits: digits, perhaps with a sign. -/
  | integer {sign : Sign} {digits : List Char} :
    digits ≠ [] → IsDecimal digits →
    -2 ^ 63 ≤ sign.of (Number.ofDigits digits) → sign.of (Number.ofDigits digits) < 2 ^ 63 →
    IsRun (sign.chars ++ digits) (.integer (Int64.ofInt (sign.of (Number.ofDigits digits))))
  /-- A number with a point: digits, the point and perhaps more digits, perhaps with a sign. -/
  | float {sign : Sign} {whole fraction : List Char} :
    whole ≠ [] → IsDecimal whole → IsDecimal fraction →
    IsRun (sign.chars ++ whole ++ '.' :: fraction) (.float (Number.ofDecimal sign.isMinus whole fraction))

/-- A text that is a token by itself, and its token. -/
inductive IsLexeme : List Char → Token → Prop where
  /-- An operator. -/
  | operator {c : Char} : isOperator c = true → IsLexeme [c] (.operator c)
  /-- A text between apostrophes. -/
  | string {cs : List Char} : apostrophe ∉ cs →
    IsLexeme (apostrophe :: (cs ++ [apostrophe])) (.string (String.ofList cs))
  /-- A symbol or a number. -/
  | run {text : List Char} {token : Token} : IsRun text token → IsLexeme text token

/-! ### Characters of runs -/

/-- A character that goes on with a run wherever it stands. -/
structure IsPlain (c : Char) : Prop where
  /-- It opens no text. -/
  notApostrophe : c ≠ apostrophe
  /-- It is no operator. -/
  notOperator : isOperator c = false
  /-- It is no white space. -/
  notBlank : Text.isBlank c = false

/-- What is true of no operator. -/
theorem apply_of_isOperator {p : Char → Bool} (hp : ['[', ']', '(', ')', '.', ','].any p = false)
    {c : Char} (hc : isOperator c = true) : p c = false := by
  simp only [isOperator, Bool.or_eq_true, beq_iff_eq] at hc
  rw [List.any_eq_false] at hp
  simpa using hp c (by simp only [List.mem_cons]; tauto)

/-- White space is below the printable characters of ASCII or above them. -/
theorem toNat_of_isBlank {c : Char} (h : Text.isBlank c = true) : c.toNat ≤ 32 ∨ 127 < c.toNat := by
  simp only [Text.isBlank, Bool.or_eq_true, Bool.and_eq_true, decide_eq_true_eq, beq_iff_eq] at h
  omega

theorem IsPlain.of_toNat {c : Char} (hlow : 32 < c.toNat) (hhigh : c.toNat ≤ 127)
    (happ : c ≠ apostrophe) (hop : isOperator c = false) : IsPlain c := by
  refine ⟨happ, hop, Bool.eq_false_iff.mpr fun hblank => ?_⟩
  have := toNat_of_isBlank hblank
  omega

theorem toNat_of_isSymbolPart {c : Char} (h : isSymbolPart c = true) :
    48 ≤ c.toNat ∧ c.toNat ≤ 122 := by
  simp only [isSymbolPart, Char.isAlphanum, Char.isAlpha, Char.isUpper, Char.isLower, Char.isDigit,
    Bool.or_eq_true, Bool.and_eq_true, decide_eq_true_eq, beq_iff_eq, UInt32.le_iff_toNat_le,
    ge_iff_le] at h
  have hc : c.toNat = c.val.toNat := rfl
  have hA : 'A'.val.toNat = 65 := rfl
  have hZ : 'Z'.val.toNat = 90 := rfl
  have ha : 'a'.val.toNat = 97 := rfl
  have hz : 'z'.val.toNat = 122 := rfl
  have h0 : '0'.val.toNat = 48 := rfl
  have h9 : '9'.val.toNat = 57 := rfl
  rcases h with h | rfl
  · omega
  · decide

theorem IsPlain.of_isSymbolPart {c : Char} (h : isSymbolPart c = true) : IsPlain c := by
  obtain ⟨hlow, hhigh⟩ := toNat_of_isSymbolPart h
  refine .of_toNat (by omega) (by omega) ?_ (Bool.eq_false_iff.mpr fun hop => ?_)
  · rintro rfl
    exact absurd h (by decide)
  · have hpart : isSymbolPart c = false := apply_of_isOperator rfl hop
    exact Bool.false_ne_true (hpart.symm.trans h)

theorem isSymbolPart_of_isDigit {c : Char} (h : c.isDigit = true) : isSymbolPart c = true := by
  simp [isSymbolPart, Char.isAlphanum, h]

theorem isSymbolPart_of_isSymbolStart {c : Char} (h : isSymbolStart c = true) :
    isSymbolPart c = true := by
  simp only [isSymbolStart, isSymbolPart, Char.isAlphanum, Bool.or_eq_true] at h ⊢
  exact h.imp_left .inl

theorem IsPlain.of_isDigit {c : Char} (h : c.isDigit = true) : IsPlain c :=
  .of_isSymbolPart (isSymbolPart_of_isDigit h)

theorem Sign.plain (sign : Sign) : ∀ c ∈ sign.chars, IsPlain c := by
  cases sign with
  | absent => simp [chars]
  | plus => simpa [chars] using ⟨by decide, rfl, rfl⟩
  | minus => simpa [chars] using ⟨by decide, rfl, rfl⟩

/-- The characters of a signed integer are plain. -/
theorem plain_signed (sign : Sign) {digits : List Char} (h : IsDecimal digits) :
    ∀ c ∈ sign.chars ++ digits, IsPlain c := by
  intro c hc
  rcases List.mem_append.mp hc with hc | hc
  · exact sign.plain c hc
  · exact .of_isDigit (h c hc)

/-! ### Signs and digits -/

theorem splitSign_signed (sign : Sign) {digits : List Char} (hne : digits ≠ [])
    (h : IsDecimal digits) (rest : List Char) :
    Number.splitSign (sign.chars ++ digits ++ rest) = (sign.isMinus, digits ++ rest) := by
  obtain ⟨d, ds, rfl⟩ := List.exists_cons_of_ne_nil hne
  have hd : d.isDigit = true := h d (List.mem_cons_self ..)
  cases sign with
  | plus | minus => rfl
  | absent =>
    -- the first digit is no sign
    rw [Sign.chars, List.nil_append, List.cons_append, Number.splitSign]
    · rfl
    · rintro _ ⟨⟩
      exact absurd hd (by decide)
    · rintro _ ⟨⟩
      exact absurd hd (by decide)

/-- Every text is a sign and what `splitSign` leaves of it. -/
theorem exists_sign (cs : List Char) :
    ∃ (sign : Sign) (rest : List Char), Number.splitSign cs = (sign.isMinus, rest) ∧
      cs = sign.chars ++ rest := by
  unfold Number.splitSign
  split
  · exact ⟨.plus, _, rfl, rfl⟩
  · exact ⟨.minus, _, rfl, rfl⟩
  · exact ⟨.absent, _, rfl, rfl⟩

theorem isDigits_iff {ds : List Char} : isDigits ds = true ↔ ds ≠ [] ∧ IsDecimal ds := by
  simp [isDigits, IsDecimal]

theorem ofSignedDigits_signed (sign : Sign) {digits : List Char} (hne : digits ≠ [])
    (h : IsDecimal digits) :
    Number.ofSignedDigits (sign.chars ++ digits) = sign.of (Number.ofDigits digits) := by
  have hsplit := splitSign_signed sign hne h []
  simp only [List.append_nil] at hsplit
  simp only [Number.ofSignedDigits, hsplit, Sign.of]

theorem isIntegerRun_iff {cs : List Char} :
    isIntegerRun cs = true ↔
      ∃ (sign : Sign) (digits : List Char), cs = sign.chars ++ digits ∧ digits ≠ [] ∧ IsDecimal digits := by
  constructor
  · intro h
    obtain ⟨sign, rest, hsplit, rfl⟩ := exists_sign cs
    rw [isIntegerRun, hsplit, isDigits_iff] at h
    exact ⟨sign, rest, rfl, h⟩
  · rintro ⟨sign, digits, rfl, hne, h⟩
    have hsplit := splitSign_signed sign hne h []
    simp only [List.append_nil] at hsplit
    rw [isIntegerRun, hsplit, isDigits_iff]
    exact ⟨hne, h⟩

theorem fits_iff {n : Int} : Number.fits n = true ↔ -2 ^ 63 ≤ n ∧ n < 2 ^ 63 := by
  have hmin : Int64.minValue.toInt = -2 ^ 63 := by decide
  have hmax : Int64.maxValue.toInt = 2 ^ 63 - 1 := by decide
  simp only [Number.fits, hmin, hmax, Bool.and_eq_true, decide_eq_true_eq]
  omega

/-- Digits before a point end at the point. -/
theorem span_point {whole : List Char} (h : IsDecimal whole) (rest : List Char) :
    (whole ++ '.' :: rest).span Char.isDigit = (whole, '.' :: rest) := by
  rw [List.span_eq_takeWhile_dropWhile, List.takeWhile_append_of_pos h, List.dropWhile_append_of_pos h]
  simp

theorem isFloatRun_iff {cs : List Char} :
    isFloatRun cs = true ↔
      ∃ (sign : Sign) (whole fraction : List Char), cs = sign.chars ++ whole ++ '.' :: fraction ∧
        whole ≠ [] ∧ IsDecimal whole ∧ IsDecimal fraction := by
  constructor
  · intro h
    obtain ⟨sign, rest, hsplit, rfl⟩ := exists_sign cs
    rw [isFloatRun, hsplit, List.span_eq_takeWhile_dropWhile] at h
    split at h
    · rename_i whole fraction heq
      obtain ⟨rfl, hrest⟩ := Prod.mk.inj heq
      simp only [Bool.and_eq_true, Bool.not_eq_true', List.isEmpty_eq_false_iff, List.all_eq_true] at h
      refine ⟨sign, _, fraction, ?_, h.1, ?_, h.2⟩
      · rw [List.append_assoc, ← hrest, List.takeWhile_append_dropWhile]
      · exact fun d hd => List.mem_takeWhile_imp hd
    · cases h
  · rintro ⟨sign, whole, fraction, rfl, hne, hwhole, hfraction⟩
    rw [isFloatRun, splitSign_signed sign hne hwhole, span_point hwhole]
    simpa using ⟨hne, hfraction⟩

theorem floatOf_point (sign : Sign) {whole : List Char} (hne : whole ≠ []) (h : IsDecimal whole)
    (fraction : List Char) :
    floatOf (sign.chars ++ whole ++ '.' :: fraction) = Number.ofDecimal sign.isMinus whole fraction := by
  simp only [floatOf, splitSign_signed sign hne h, span_point h, List.drop_one, List.tail_cons]

/-! ### The token of a run -/

theorem isSymbolRun_iff {cs : List Char} :
    isSymbolRun cs = true ↔
      ∃ c rest, cs = c :: rest ∧ isSymbolStart c = true ∧ ∀ d ∈ rest, isSymbolPart d = true := by
  cases cs with
  | nil => simp [isSymbolRun]
  | cons c rest => simp [isSymbolRun]

theorem toNat_of_isSymbolStart {c : Char} (h : isSymbolStart c = true) : 65 ≤ c.toNat := by
  simp only [isSymbolStart, Char.isAlpha, Char.isUpper, Char.isLower, Bool.or_eq_true, Bool.and_eq_true,
    decide_eq_true_eq, beq_iff_eq, UInt32.le_iff_toNat_le, ge_iff_le] at h
  have hc : c.toNat = c.val.toNat := rfl
  have hA : 'A'.val.toNat = 65 := rfl
  have ha : 'a'.val.toNat = 97 := rfl
  rcases h with h | rfl
  · omega
  · decide

theorem toNat_of_isDigit {c : Char} (h : c.isDigit = true) : c.toNat ≤ 57 := by
  simp only [Char.isDigit, Bool.and_eq_true, decide_eq_true_eq, UInt32.le_iff_toNat_le] at h
  exact h.2

theorem isSymbolStart_of_isDigit {c : Char} (h : c.isDigit = true) : isSymbolStart c = false := by
  refine Bool.eq_false_iff.mpr fun hstart => ?_
  have hlow := toNat_of_isSymbolStart hstart
  have hhigh := toNat_of_isDigit h
  omega

/-- A number does not begin like a symbol. -/
theorem isSymbolRun_signed (sign : Sign) {digits : List Char} (hne : digits ≠ [])
    (h : IsDecimal digits) (rest : List Char) :
    isSymbolRun (sign.chars ++ digits ++ rest) = false := by
  obtain ⟨d, ds, rfl⟩ := List.exists_cons_of_ne_nil hne
  have hd := isSymbolStart_of_isDigit (h d (List.mem_cons_self ..))
  cases sign with
  | plus | minus => rfl
  | absent => simp [Sign.chars, isSymbolRun, hd]

/-- No integer has a point. -/
theorem point_not_mem_of_isIntegerRun {cs : List Char} (h : isIntegerRun cs = true) : '.' ∉ cs := by
  obtain ⟨sign, digits, rfl, -, hdigits⟩ := isIntegerRun_iff.mp h
  exact fun hmem => absurd (plain_signed sign hdigits '.' hmem).notOperator (by decide)

theorem ofRun_of_isRun {run : List Char} {token : Token} (h : IsRun run token) :
    ofRun run = .ok token := by
  cases h with
  | symbol hc hrest =>
    rw [ofRun, if_pos (isSymbolRun_iff.mpr ⟨_, _, rfl, hc, hrest⟩)]
  | @integer sign digits hne hd hlow hhigh =>
    have hsymbol := isSymbolRun_signed sign hne hd []
    rw [List.append_nil] at hsymbol
    rw [ofRun, hsymbol, if_neg Bool.false_ne_true, if_pos (isIntegerRun_iff.mpr ⟨sign, digits, rfl, hne, hd⟩)]
    simp only [ofSignedDigits_signed sign hne hd, if_pos (fits_iff.mpr ⟨hlow, hhigh⟩)]
  | @float sign whole fraction hne hwhole hfraction =>
    have hinteger : ¬ isIntegerRun (sign.chars ++ whole ++ '.' :: fraction) = true :=
      fun h => point_not_mem_of_isIntegerRun h (by simp)
    rw [ofRun, isSymbolRun_signed sign hne hwhole, if_neg Bool.false_ne_true, if_neg hinteger,
      if_pos (isFloatRun_iff.mpr ⟨sign, whole, fraction, rfl, hne, hwhole, hfraction⟩),
      floatOf_point sign hne hwhole]

theorem isRun_of_ofRun {run : List Char} {token : Token} (h : ofRun run = .ok token) :
    IsRun run token := by
  rw [ofRun] at h
  split at h
  · rename_i hsymbol
    obtain ⟨c, rest, rfl, hc, hrest⟩ := isSymbolRun_iff.mp hsymbol
    cases h
    exact .symbol hc hrest
  split at h
  · rename_i hinteger
    obtain ⟨sign, digits, rfl, hne, hd⟩ := isIntegerRun_iff.mp hinteger
    simp only [ofSignedDigits_signed sign hne hd] at h
    split at h
    · rename_i hfits
      cases h
      exact .integer hne hd (fits_iff.mp hfits).1 (fits_iff.mp hfits).2
    · cases h
  split at h
  · rename_i hfloat
    obtain ⟨sign, whole, fraction, rfl, hne, hwhole, hfraction⟩ := isFloatRun_iff.mp hfloat
    rw [floatOf_point sign hne hwhole] at h
    cases h
    exact .float hne hwhole hfraction
  · cases h

/-- **The runs**: a run has a token exactly if the grammar gives it one. -/
theorem ofRun_eq_ok_iff {run : List Char} {token : Token} : ofRun run = .ok token ↔ IsRun run token :=
  ⟨isRun_of_ofRun, ofRun_of_isRun⟩

/-- What is wrong with a run is found while scanning. -/
theorem stage_of_ofRun {run : List Char} {cause : Cause} (h : ofRun run = .error cause) :
    cause.stage = .lexical := by
  simp only [ofRun] at h
  split at h
  · cases h
  split at h
  · split at h
    · cases h
    · cases h
      rfl
  split at h
  · cases h
  · cases h
    rfl

end ReactiveViews.Token
