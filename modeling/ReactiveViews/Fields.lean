/-!
# Fields in order of insertion

A finite map from names to values that remembers in which order the names came. Writing a
name that is already there keeps its place and replaces its value; a name that was removed
and is written again goes to the end. Records, attributes and the objects of a template are
such maps.

## What is proved

Reading after a write finds the value written (`get?_put_self`) and nothing else changes
(`get?_put_of_ne`); the names after a write are the old ones, with the new one at the end if
it was not there (`keys_put`). Reading a removed name finds nothing (`get?_erase_self`).
-/

namespace ReactiveViews

/-- Names with values, in order of insertion. -/
abbrev Fields (α : Type) := List (String × α)

namespace Fields

variable {α : Type}

/-- The value of a name. -/
def get? : Fields α → String → Option α
  | [], _ => none
  | (k, v) :: rest, key => if k = key then some v else get? rest key

/-- Writes a name: in its place if it is there, else at the end. -/
def put : Fields α → String → α → Fields α
  | [], key, value => [(key, value)]
  | (k, v) :: rest, key, value =>
    if k = key then (k, value) :: rest else (k, v) :: put rest key value

/-- Removes a name; the others keep their order. -/
def erase (fields : Fields α) (key : String) : Fields α := fields.filter (·.1 ≠ key)

/-- The names in order. -/
def keys (fields : Fields α) : List String := fields.map (·.1)

@[simp] theorem get?_nil (key : String) : get? ([] : Fields α) key = none := rfl

theorem get?_put_self (fields : Fields α) (key : String) (value : α) :
    (fields.put key value).get? key = some value := by
  induction fields with
  | nil => simp [put, get?]
  | cons head rest ih =>
    by_cases h : head.1 = key <;> simp [put, get?, h, ih]

theorem get?_put_of_ne (fields : Fields α) {key other : String} (value : α) (h : key ≠ other) :
    (fields.put key value).get? other = fields.get? other := by
  induction fields with
  | nil => simp [put, get?, h]
  | cons head rest ih =>
    by_cases hk : head.1 = key
    · have : head.1 ≠ other := hk ▸ h
      simp [put, get?, hk, h]
    · simp [put, get?, hk, ih]

theorem get?_eq_none_iff {fields : Fields α} {key : String} :
    fields.get? key = none ↔ key ∉ fields.keys := by
  induction fields with
  | nil => simp [keys]
  | cons head rest ih =>
    by_cases h : head.1 = key
    · simp [get?, keys, h]
    · simpa [get?, keys, h, Ne.symm h] using ih

theorem keys_put (fields : Fields α) (key : String) (value : α) :
    (fields.put key value).keys =
      if key ∈ fields.keys then fields.keys else fields.keys ++ [key] := by
  induction fields with
  | nil => simp [put, keys]
  | cons head rest ih =>
    by_cases h : head.1 = key
    · simp [put, keys, h]
    · have hmem : key ∈ keys (head :: rest) ↔ key ∈ keys rest := by
        simp [keys, Ne.symm h]
      have hput : put (head :: rest) key value = head :: put rest key value := by
        simp [put, h]
      rw [hput, show keys (head :: put rest key value) = head.1 :: keys (put rest key value)
        from rfl, ih]
      by_cases hk : key ∈ keys rest
      · rw [if_pos hk, if_pos (hmem.2 hk)]; rfl
      · rw [if_neg hk, if_neg (fun h' => hk (hmem.1 h'))]; rfl

theorem get?_erase_self (fields : Fields α) (key : String) :
    (fields.erase key).get? key = none := by
  induction fields with
  | nil => rfl
  | cons head rest ih =>
    by_cases h : head.1 = key
    · simpa [erase, h] using ih
    · simpa [erase, get?, h] using ih

end Fields

end ReactiveViews
