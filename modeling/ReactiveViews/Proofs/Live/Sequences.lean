import ReactiveViews.Proofs.Live.Following

/-!
# Sequences

An array and a text are seen in three ways: a list directive walks through them, an expression asks for
their length, and an expression selects from them by a key, which goes through the text of the key and
back. All three see the same items.

## What is proved

Reading a key as a position is reading decimal digits, perhaps after a plus sign
(`position?_eq_some_iff`), and reads back what integers are written as (`position?_toString`).
**Sequences** (`Act.sequence_agrees`): the length is that of the items, an integer and its text select
the item at that place, and nothing is owned but the length and the items.
-/

namespace ReactiveViews

/-! ### Positions -/

/-- A text reads as a natural number: decimal digits, perhaps after a plus sign. -/
def ReadsAs (key : String) (n : Nat) : Prop :=
  ∃ digits : List Char, digits ≠ [] ∧ (∀ c ∈ digits, c.isDigit = true) ∧
    (key.toList = digits ∨ key.toList = '+' :: digits) ∧ Nat.ofDigitChars 10 digits 0 = n

theorem ofDigits_eq (digits : List Char) :
    Number.ofDigits digits = Nat.ofDigitChars 10 digits 0 := Nat.ofDigitChars_eq_foldl.symm

/-- The digits of a key, without the sign. -/
def unsigned (key : List Char) : List Char :=
  match key with
  | '+' :: rest => rest
  | digits => digits

theorem position?_eq (key : String) :
    position? key =
      if (unsigned key.toList).isEmpty = false ∧ (unsigned key.toList).all Char.isDigit = true
      then some (Nat.ofDigitChars 10 (unsigned key.toList) 0) else none := by
  simp only [position?, ofDigits_eq, Bool.and_eq_true, Bool.not_eq_true']
  rfl

theorem unsigned_of_isDigit {digits : List Char} (h : ∀ c ∈ digits, c.isDigit = true) :
    unsigned digits = digits := by
  unfold unsigned
  split
  · have hplus := h '+' List.mem_cons_self
    cases hplus
  · rfl

theorem eq_or_eq_plus_unsigned (key : List Char) :
    key = unsigned key ∨ key = '+' :: unsigned key := by
  unfold unsigned
  split
  · exact .inr rfl
  · exact .inl rfl

theorem position?_eq_some_iff {key : String} {n : Nat} :
    position? key = some n ↔ ReadsAs key n := by
  rw [position?_eq, Option.ite_none_right_eq_some, Option.some_inj]
  constructor
  · rintro ⟨⟨hne, hall⟩, hn⟩
    exact ⟨unsigned key.toList, by simpa using hne, by simpa using hall,
      eq_or_eq_plus_unsigned key.toList, hn⟩
  · rintro ⟨digits, hne, hall, hkey, rfl⟩
    have hunsigned : unsigned key.toList = digits := by
      rcases hkey with hkey | hkey
      · rw [hkey, unsigned_of_isDigit hall]
      · rw [hkey, unsigned]
    rw [hunsigned]
    exact ⟨⟨by simpa using hne, by simpa using hall⟩, rfl⟩

theorem toList_toString_ofNat (n : Nat) :
    (toString (Int.ofNat n)).toList = Nat.toDigits 10 n := by
  show (toString n).toList = _
  rw [Nat.toString_eq_ofList_toDigits, String.toList_ofList]

theorem toList_toString_negSucc (n : Nat) :
    (toString (Int.negSucc n)).toList = '-' :: Nat.toDigits 10 (n + 1) := by
  show ("-" ++ toString (n + 1)).toList = _
  rw [String.toList_append, Nat.toString_eq_ofList_toDigits,
    String.toList_ofList (l := Nat.toDigits 10 (n + 1))]
  rfl

/-- A natural number is the position that it is written as, and a negative number is none. -/
theorem position?_toString (i : Int) :
    position? (toString i) = if 0 ≤ i then some i.toNat else none := by
  cases i with
  | ofNat n =>
    rw [if_pos (show 0 ≤ Int.ofNat n from Int.natCast_nonneg n), position?_eq_some_iff]
    exact ⟨Nat.toDigits 10 n, Nat.toDigits_ne_nil,
      fun c hc => Nat.isDigit_of_mem_toDigits (by decide) (by decide) hc,
      .inl (toList_toString_ofNat n), Nat.ofDigitChars_ten_toDigits⟩
  | negSucc n =>
    rw [if_neg (Int.not_le.mpr (Int.negSucc_lt_zero n)), position?_eq, toList_toString_negSucc]
    simp [unsigned]

/-! ### Items at places -/

/-- The item at an integer; undefined outside of the list. -/
def itemAt (items : List Value) (i : Int) : Value :=
  if h : 0 ≤ i ∧ i < items.length then items.get ⟨i.toNat, by omega⟩ else .undefined

theorem toString_ne_length (i : Int) : toString i ≠ "length" := by
  intro h
  replace h := congrArg String.toList h
  cases i with
  | ofNat n =>
    rw [toList_toString_ofNat] at h
    have hmem : 'l' ∈ Nat.toDigits 10 n := by rw [h]; exact List.mem_cons_self
    have hdigit := Nat.isDigit_of_mem_toDigits (by decide) (by decide) hmem
    cases hdigit
  | negSucc n =>
    rw [toList_toString_negSucc] at h
    exact absurd (List.cons.inj h).1 (by decide)

/-- Selecting by the text of an integer. -/
theorem sequenceProperty_toString (items : List Value) (i : Int) :
    (sequenceProperty items (toString i)).getD .undefined = itemAt items i := by
  rw [sequenceProperty, if_neg (toString_ne_length i), position?_toString]
  by_cases hi : 0 ≤ i
  · rw [if_pos hi, Option.bind_some]
    by_cases hrange : i < items.length
    · rw [itemAt, dif_pos ⟨hi, hrange⟩, List.getElem?_eq_getElem (by omega)]
      rfl
    · rw [itemAt, dif_neg fun h => hrange h.2, List.getElem?_eq_none (by omega)]
      rfl
  · rw [if_neg hi, itemAt, dif_neg fun h => hi h.1]
    rfl

/-- What a sequence owns: its length, and the items at their places. -/
theorem isSome_sequenceProperty_iff {items : List Value} {key : String} :
    (sequenceProperty items key).isSome ↔ key = "length" ∨ ∃ n < items.length, ReadsAs key n := by
  unfold sequenceProperty
  by_cases hkey : key = "length"
  · simp [hkey]
  · rw [if_neg hkey]
    simp only [Option.isSome_iff_exists, Option.bind_eq_some_iff, position?_eq_some_iff, hkey, false_or]
    constructor
    · rintro ⟨v, n, hn, hv⟩
      exact ⟨n, (List.getElem?_eq_some_iff.mp hv).1, hn⟩
    · rintro ⟨n, hlt, hn⟩
      exact ⟨_, n, hn, List.getElem?_eq_getElem hlt⟩

/-- A key may have a plus sign and leading zeros, and places count characters. -/
example : sequenceProperty (characters "añb") "+01" = some (.str "ñ") := rfl

/-! ### Properties of sequences -/

/-- Walking through a value, asking for its length and selecting from it give the same items. -/
structure Act.Agrees {σ : Type} (enter : Enter σ) (w : World σ) (v : Value) (xs : List Value) :
    Prop where
  /-- It is walked through by these items. -/
  items : (Act.items v).runIn enter w = (some (.ok xs), w)
  /-- Its length is how many there are. -/
  length : (getNamed v "length").runIn enter w = (some (.int (Int64.ofNat xs.length)), w)
  /-- The length is exact as long as it fits 64 bits. -/
  length_exact : (xs.length : Int) ≤ Int64.maxValue.toInt →
    (Int64.ofNat xs.length).toInt = xs.length
  /-- An integer selects the item at its place. -/
  integer : ∀ i : Int64, (getKeyed v (.int i)).runIn enter w = (some (itemAt xs i.toInt), w)
  /-- So does the text of an integer. -/
  decimal : ∀ i : Int64,
    (getKeyed v (.str (toString i.toInt))).runIn enter w = (some (itemAt xs i.toInt), w)
  /-- It owns its length and the items at their places. -/
  owned : ∀ key, ∃ property, (getOwn v key).runIn enter w = (some property, w) ∧
    (property.isSome ↔ key = "length" ∨ ∃ n < xs.length, ReadsAs key n)

namespace Act

variable {σ : Type}

/-- A value agrees with a list if it is walked through by it and has its properties. -/
theorem Agrees.of_getOwn {enter : Enter σ} {w : World σ} {v : Value} {xs : List Value}
    (hitems : w.store.walk? v = some xs)
    (hown : ∀ key, (getOwn v key).runIn enter w = (some (sequenceProperty xs key), w)) :
    Agrees enter w v xs := by
  have hnamed (key : String) : (getNamed v key).runIn enter w =
      (some ((sequenceProperty xs key).getD .undefined), w) := by
    rw [getNamed, runIn_bind_some (hown key)]
    rfl
  have hkeyed {key : Value} {t : String} (ht : w.store.text key = some t) :
      (getKeyed v key).runIn enter w = (some ((sequenceProperty xs t).getD .undefined), w) := by
    rw [getKeyed, runIn_bind_some (by rw [runIn_text, ht]), hnamed]
  refine ⟨by rw [runIn_items, hitems], hnamed "length", fun hfits => ?_, fun i => ?_, fun i => ?_,
    fun key => ⟨_, hown key, isSome_sequenceProperty_iff⟩⟩
  · rw [Int64.toInt_maxValue] at hfits
    exact Int64.toInt_ofNat_of_lt (by omega)
  · rw [hkeyed (t := toString i.toInt) (by simp [Store.text, Store.textWithin]),
      sequenceProperty_toString]
  · rw [hkeyed (t := toString i.toInt) (by simp [Store.text, Store.textWithin]),
      sequenceProperty_toString]

/-- **Sequences.** In every world an array is walked through by its items and a text by its characters,
and these are what the length counts, what integers and their texts select, and what is owned. -/
theorem sequence_agrees (enter : Enter σ) (w : World σ) :
    (∀ a, Agrees enter w (.array a) (w.store.items a)) ∧
      ∀ s : String, Agrees enter w (.str s) (s.toList.map fun c => .str c.toString) :=
  ⟨fun _ => .of_getOwn rfl fun _ => rfl, fun _ => .of_getOwn rfl fun _ => rfl⟩

end Act

end ReactiveViews
