/-!
# Tables

A growing sequence of things, each of which keeps the row that it was given. Arrays,
records, elements and schedulers live in tables; a reference to one of them is its row.

## What is proved

A new thing is found at the row returned (`get?_add_new`) and leaves the others alone
(`get?_add_old`); writing a row changes that row (`get?_set_self`) and no other
(`get?_set_of_ne`).
-/

namespace ReactiveViews

/-- Things by row. -/
structure Table (α : Type) where
  /-- The things in order. -/
  rows : Array α

namespace Table

variable {α : Type}

/-- The table without rows. -/
def empty : Table α := ⟨#[]⟩

instance : Inhabited (Table α) := ⟨empty⟩

/-- How many rows there are. -/
def size (t : Table α) : Nat := t.rows.size

/-- The thing at a row. -/
def get? (t : Table α) (row : Nat) : Option α := t.rows[row]?

/-- Replaces the thing at a row; a row that does not exist is not made. -/
def set (t : Table α) (row : Nat) (a : α) : Table α := ⟨t.rows.setIfInBounds row a⟩

/-- Adds a thing at the end; its row is the old size. -/
def add (t : Table α) (a : α) : Table α := ⟨t.rows.push a⟩

theorem get?_add_new (t : Table α) (a : α) : (t.add a).get? t.size = some a := by
  simp [get?, add, size]

theorem get?_add_old (t : Table α) (a : α) {row : Nat} (h : row < t.size) :
    (t.add a).get? row = t.get? row := by
  simp only [get?, add, size] at *
  rw [Array.getElem?_push, if_neg (Nat.ne_of_lt h)]

theorem get?_set_self (t : Table α) (a : α) {row : Nat} (h : row < t.size) :
    (t.set row a).get? row = some a := by
  simp only [get?, set, size] at *
  simp [h]

theorem get?_set_of_ne (t : Table α) (a : α) {row other : Nat} (h : row ≠ other) :
    (t.set row a).get? other = t.get? other := by
  simp only [get?, set]
  rw [Array.getElem?_setIfInBounds, if_neg h]

@[simp] theorem size_set (t : Table α) (row : Nat) (a : α) : (t.set row a).size = t.size := by
  simp [set, size]

@[simp] theorem size_add (t : Table α) (a : α) : (t.add a).size = t.size + 1 := by
  simp [add, size]

end Table

end ReactiveViews
