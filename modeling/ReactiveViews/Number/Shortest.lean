import ReactiveViews.Number.Binary64

/-!
# Shortest decimal digits

The fewest decimal digits that read back as the same binary number. A binary number
`m · 2 ^ e` owns the reals nearer to it than to its neighbours, the two ends included when
`m` is even. `shortest` looks for a decimal number in that interval on the grid of one
digit, then of two, and so on to seventeen: on each grid it is enough to try the two
neighbours of the number itself. Of two that fit the nearer one is taken, and of two
equally near the larger.

## The model

Everything is done in natural numbers. The interval is written in quarters of the unit
of the last place: the number is `4 m`, the upper end `4 m + 2`, the lower end `4 m - 2`,
or `4 m - 1` where the spacing halves below a power of two. A grid of spacing `10 ^ k` is
compared with it by multiplying both sides with the powers of two and ten that clear the
fractions.
-/

namespace ReactiveViews.Shortest

open Number (twoPow tenPow)

/-- A decimal number `digits · 10 ^ exponent`. -/
structure Decimal where
  /-- The digits, read as a natural number. -/
  digits : Nat
  /-- The power of ten. -/
  exponent : Int
  deriving DecidableEq, Repr

/-- The reals that read as one binary number, in quarters of its last place: `value`,
and the two ends with whether they belong to it. The quarter is `2 ^ exponent`. -/
structure Interval where
  /-- The number itself. -/
  value : Nat
  /-- The lower end. -/
  lower : Nat
  /-- The upper end. -/
  upper : Nat
  /-- Whether the ends belong to the interval. -/
  closed : Bool
  /-- The power of two of a quarter. -/
  exponent : Int
  deriving DecidableEq, Repr

/-- The interval of `m · 2 ^ e`. The spacing below is halved at the least mantissa of a
normal number, except for the smallest normal number. -/
def Interval.of (m : Nat) (e : Int) : Interval where
  value := 4 * m
  lower :=
    if m = twoPow Binary64.fractionBits ∧ Binary64.leastExponent < e then 4 * m - 1
    else 4 * m - 2
  upper := 4 * m + 2
  closed := m % 2 == 0
  exponent := e - 2

/-- The factors that make `a · 2 ^ e` and `b · 10 ^ k` comparable natural numbers: the
first is `≤` the second exactly if `a * f ≤ b * g` for the factors `(f, g)`. -/
def factors (e k : Int) : Nat × Nat :=
  (twoPow e.toNat * tenPow (-k).toNat, twoPow (-e).toNat * tenPow k.toNat)

/-- Whether the grid point `a · 10 ^ k` lies in the interval. -/
def Interval.contains (i : Interval) (a : Nat) (k : Int) : Bool :=
  let (f, g) := factors i.exponent k
  if i.closed then i.lower * f ≤ a * g && a * g ≤ i.upper * f
  else i.lower * f < a * g && a * g < i.upper * f

/-- The better of the two neighbours of the number on the grid of spacing `10 ^ k`, among
those in the interval. -/
def Interval.onGrid (i : Interval) (k : Int) : Option Nat :=
  let (f, g) := factors i.exponent k
  let below := i.value * f / g
  let rest := i.value * f % g
  match i.contains below k, i.contains (below + 1) k with
  | true, true => if 2 * rest < g then some below else some (below + 1)
  | true, false => some below
  | false, true => some (below + 1)
  | false, false => none

/-- The least `d` at or above `d₀` for which the number is smaller than `10 ^ d`, tried
for `n` steps. -/
def Interval.decade (i : Interval) : Nat → Int → Int
  | 0, d => d
  | n + 1, d =>
    let (f, g) := factors i.exponent d
    if i.value * f < g then d else i.decade n (d + 1)

/-- A first guess at the decade, at most one too large: a power of two is worth 1233/4096
powers of ten, up to rounding. -/
def Interval.guess (i : Interval) : Int :=
  (((Nat.log2 i.value : Int) + i.exponent) * 1233).fdiv 4096 - 1

/-- The first grid with a hit, from `digits` digits on, for `n` grids. -/
def Interval.search (i : Interval) (d : Int) : Nat → Nat → Option Decimal
  | 0, _ => none
  | n + 1, digits =>
    let k := d - digits
    match i.onGrid k with
    | some a => some ⟨a, k⟩
    | none => i.search d n (digits + 1)

/-- A decimal number without zeros at the end of its digits, at most `n` of which are
removed. -/
def Decimal.strip : Nat → Decimal → Decimal
  | 0, x => x
  | n + 1, x =>
    if x.digits ≠ 0 ∧ x.digits % 10 = 0 then strip n ⟨x.digits / 10, x.exponent + 1⟩ else x

/-- The shortest decimal number that reads as `m · 2 ^ e`; zero has the digit `0`. -/
def shortest (m : Nat) (e : Int) : Decimal :=
  if m = 0 then ⟨0, 0⟩
  else
    let i := Interval.of m e
    match i.search (i.decade 5 i.guess) 17 1 with
    | some x => x.strip 17
    | none => ⟨m * twoPow e.toNat, 0⟩

/-- The shortest digits of the smallest positive number are `5e-324`. -/
example : shortest 1 Binary64.leastExponent = ⟨5, -324⟩ := by decide +kernel

/-- One tenth, in binary, is written with the single digit `1`. -/
example : shortest 7205759403792794 (-56) = ⟨1, -1⟩ := by decide +kernel

end ReactiveViews.Shortest
