/-!
# Powers of two and ten

The powers of the two bases in which numbers are stored and written.

## What is proved

Both are given by their first value and the step from each to the next (`twoPow_succ`,
`tenPow_succ`), and neither is ever zero (`twoPow_pos`, `tenPow_pos`).
-/

namespace ReactiveViews.Number

/-- The `k`-th power of two. -/
def twoPow (k : Nat) : Nat := Nat.pow 2 k

/-- The `k`-th power of ten. -/
def tenPow (k : Nat) : Nat := Nat.pow 10 k

@[simp] theorem twoPow_zero : twoPow 0 = 1 := rfl

theorem twoPow_succ (k : Nat) : twoPow (k + 1) = twoPow k * 2 := rfl

theorem twoPow_pos (k : Nat) : 0 < twoPow k := by
  induction k with
  | zero => exact Nat.one_pos
  | succ k ih => rw [twoPow_succ]; omega

@[simp] theorem tenPow_zero : tenPow 0 = 1 := rfl

theorem tenPow_succ (k : Nat) : tenPow (k + 1) = tenPow k * 10 := rfl

theorem tenPow_pos (k : Nat) : 0 < tenPow k := by
  induction k with
  | zero => exact Nat.one_pos
  | succ k ih => rw [tenPow_succ]; omega

end ReactiveViews.Number
