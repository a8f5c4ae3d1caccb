import ReactiveViews.Number.Power

/-!
# Binary floating-point numbers

A 64-bit floating-point number as what it stands for: not a number, an infinity, or a
sign with a natural mantissa and a power of two. All exact questions about floats (is it
an integer, which integer, what are its shortest digits) are asked of this form, in which
they are arithmetic of natural numbers.

## What is proved

A number that reads as an integer is the integer that its mantissa and exponent denote
(`wholePart_of_nonneg`, `wholePart_eq_some_iff`).
-/

namespace ReactiveViews

/-- What the 64 bits of a floating-point number stand for. -/
inductive Binary64 where
  /-- Not a number. -/
  | nan
  /-- An infinity and its sign. -/
  | infinite (negative : Bool)
  /-- The number `mantissa · 2 ^ exponent` with a sign; zero has a sign too. -/
  | finite (negative : Bool) (mantissa : Nat) (exponent : Int)
  deriving DecidableEq, Repr

namespace Binary64

open Number (twoPow twoPow_pos)

/-- The number of bits stored of a mantissa. -/
def fractionBits : Nat := 52

/-- The exponent of the smallest positive number, `2 ^ -1074`. -/
def leastExponent : Int := -1074

/-- Decoding: one bit of sign, eleven of exponent, 52 of fraction. The fraction of a
normal number has a further leading one. -/
def ofBits (bits : UInt64) : Binary64 :=
  let n := bits.toNat
  let negative := n / twoPow 63 % 2 == 1
  let biased := n / twoPow fractionBits % twoPow 11
  let fraction := n % twoPow fractionBits
  if biased = twoPow 11 - 1 then
    if fraction = 0 then infinite negative else nan
  else if biased = 0 then finite negative fraction leastExponent
  else finite negative (twoPow fractionBits + fraction) (leastExponent + (biased - 1 : Nat))

/-- What a float stands for. -/
def ofFloat (x : Float) : Binary64 := ofBits x.toBits

/-- The natural number `m · 2 ^ e`, if it is one. -/
def wholePart (m : Nat) (e : Int) : Option Nat :=
  if 0 ≤ e then some (m * twoPow e.toNat)
  else if m % twoPow (-e).toNat = 0 then some (m / twoPow (-e).toNat)
  else none

/-- The integer that a number is equal to, if there is one; zero of either sign is `0`. -/
def integer? : Binary64 → Option Int
  | finite negative m e => (wholePart m e).map fun n => if negative then -(n : Int) else n
  | _ => none

theorem wholePart_of_nonneg {m : Nat} {e : Int} (h : 0 ≤ e) :
    wholePart m e = some (m * twoPow e.toNat) := by
  simp [wholePart, h]

/-- A mantissa with a negative exponent is the natural number `n` exactly when the
mantissa is `n` times that power of two. -/
theorem wholePart_eq_some_iff {m n : Nat} {e : Int} (h : e < 0) :
    wholePart m e = some n ↔ m = n * twoPow (-e).toNat := by
  have hpos := twoPow_pos (-e).toNat
  simp only [wholePart, Int.not_le.2 h, if_false]
  split
  · next hm =>
    rw [Option.some.injEq, Nat.div_eq_iff_eq_mul_left hpos (Nat.dvd_of_mod_eq_zero hm)]
  · next hm =>
    refine ⟨fun hn => by simp at hn, fun hn => absurd ?_ hm⟩
    rw [hn, Nat.mul_mod_left]

end Binary64

end ReactiveViews
