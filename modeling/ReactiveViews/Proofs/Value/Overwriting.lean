import Mathlib.Data.List.Forall2
import Mathlib.Data.List.Nodup
import ReactiveViews.Fields

/-!
# Fields that are written over

Attributes are written again and again in the same order, and a round of writing may end halfway.
What earlier rounds have written does not matter once a round has come to its end: the names stand
where the first round has put them, and the values are those of the last.

## What is proved

**Rounds of writing** (`Fields.putAll_putAll`). A round that writes the first of some names changes
nothing for a later round that writes all of them in the same order.
-/

namespace ReactiveViews.Fields

variable {α β : Type}

/-- Writes names with values, in order. -/
def putAll (fields : Fields α) (entries : List (String × α)) : Fields α :=
  entries.foldl (fun fields entry => fields.put entry.1 entry.2) fields

@[simp] theorem putAll_nil (fields : Fields α) : fields.putAll [] = fields := rfl

@[simp] theorem putAll_cons (fields : Fields α) (entry : String × α) (rest : List (String × α)) :
    fields.putAll (entry :: rest) = (fields.put entry.1 entry.2).putAll rest := rfl

theorem putAll_append (fields : Fields α) (entries more : List (String × α)) :
    fields.putAll (entries ++ more) = (fields.putAll entries).putAll more :=
  List.foldl_append ..

/-! ### Names -/

theorem nodup_keys_put {fields : Fields α} (h : fields.keys.Nodup) (key : String) (value : α) :
    (fields.put key value).keys.Nodup := by
  rw [keys_put]
  split
  · exact h
  · next hkey =>
    exact List.nodup_append.mpr ⟨h, List.nodup_singleton key, fun a ha b hb hab =>
      hkey (List.mem_singleton.mp hb ▸ hab ▸ ha)⟩

theorem nodup_keys_putAll {fields : Fields α} (h : fields.keys.Nodup)
    (entries : List (String × α)) : (fields.putAll entries).keys.Nodup := by
  induction entries generalizing fields with
  | nil => exact h
  | cons entry rest ih => exact ih (nodup_keys_put h _ _)

theorem mem_keys_put {fields : Fields α} {key name : String} {value : α} :
    name ∈ (fields.put key value).keys ↔ name ∈ fields.keys ∨ name = key := by
  rw [keys_put]
  split
  · next hkey => exact ⟨.inl, fun h => h.elim id fun heq => heq ▸ hkey⟩
  · simp

theorem mem_keys_putAll {fields : Fields α} {entries : List (String × α)} {name : String} :
    name ∈ (fields.putAll entries).keys ↔ name ∈ fields.keys ∨ name ∈ entries.map (·.1) := by
  induction entries generalizing fields with
  | nil => simp
  | cons entry rest ih => rw [putAll_cons, ih, mem_keys_put, List.map_cons, List.mem_cons, or_assoc]

/-- Names that are there already stay where they are. -/
theorem keys_putAll_of_subset {fields : Fields α} {entries : List (String × α)}
    (h : entries.map (·.1) ⊆ fields.keys) : (fields.putAll entries).keys = fields.keys := by
  induction entries generalizing fields with
  | nil => rfl
  | cons entry rest ih =>
    rw [List.map_cons, List.cons_subset] at h
    have hkeys : (fields.put entry.1 entry.2).keys = fields.keys := by rw [keys_put, if_pos h.1]
    rw [putAll_cons, ih (by rw [hkeys]; exact h.2), hkeys]

/-- Where names are put depends on names only. -/
theorem keys_putAll_congr {fields fields' : Fields α} {entries entries' : List (String × α)}
    (hfields : fields.keys = fields'.keys) (hentries : entries.map (·.1) = entries'.map (·.1)) :
    (fields.putAll entries).keys = (fields'.putAll entries').keys := by
  induction entries generalizing fields fields' entries' with
  | nil =>
    obtain rfl := List.map_eq_nil_iff.mp hentries.symm
    exact hfields
  | cons entry rest ih =>
    cases entries' with
    | nil => cases hentries
    | cons entry' rest' =>
      obtain ⟨hentry, hrest⟩ := List.cons.inj hentries
      have hput : (fields.put entry.1 entry.2).keys = (fields'.put entry'.1 entry'.2).keys := by
        rw [keys_put, keys_put, hfields, show entry.1 = entry'.1 from hentry]
      rw [putAll_cons, putAll_cons]
      exact ih hput hrest

/-! ### Values -/

theorem get?_putAll_of_not_mem {fields : Fields α} {entries : List (String × α)} {name : String}
    (h : name ∉ entries.map (·.1)) : (fields.putAll entries).get? name = fields.get? name := by
  induction entries generalizing fields with
  | nil => rfl
  | cons entry rest ih =>
    rw [List.map_cons, List.mem_cons, not_or] at h
    rw [putAll_cons, ih h.2, get?_put_of_ne _ _ (Ne.symm h.1)]

/-- What is written does not depend on what has been there. -/
theorem get?_putAll_of_mem {fields fields' : Fields α} {entries : List (String × α)} {name : String}
    (h : name ∈ entries.map (·.1)) :
    (fields.putAll entries).get? name = (fields'.putAll entries).get? name := by
  induction entries generalizing fields fields' with
  | nil => cases h
  | cons entry rest ih =>
    by_cases hrest : name ∈ rest.map (·.1)
    · exact ih hrest
    · obtain rfl := (List.mem_cons.mp h).resolve_right hrest
      rw [putAll_cons, putAll_cons, get?_putAll_of_not_mem hrest, get?_putAll_of_not_mem hrest,
        get?_put_self, get?_put_self]

/-! ### Rounds -/

/-- Fields are known by their names in order and the value of each. -/
theorem ext_of_nodup {fields fields' : Fields α} (hkeys : fields.keys = fields'.keys)
    (hnodup : fields.keys.Nodup) (hget : ∀ name, fields.get? name = fields'.get? name) :
    fields = fields' := by
  induction fields generalizing fields' with
  | nil => exact (List.map_eq_nil_iff.mp hkeys.symm).symm
  | cons field rest ih =>
    obtain ⟨name, value⟩ := field
    cases fields' with
    | nil => cases hkeys
    | cons field' rest' =>
      obtain ⟨name', value'⟩ := field'
      obtain ⟨hname, hrest⟩ := List.cons.inj hkeys
      obtain rfl : name = name' := hname
      obtain ⟨hnot, hnodup⟩ := List.nodup_cons.mp hnodup
      have hvalue := hget name
      rw [get?, get?, if_pos rfl, if_pos rfl] at hvalue
      obtain rfl := Option.some.inj hvalue
      refine congrArg _ (ih hrest hnodup fun other => ?_)
      by_cases hother : name = other
      · have hleft : other ∉ keys rest := hother ▸ hnot
        have hright : other ∉ keys rest' := fun h => hleft (by rw [keys, hrest]; exact h)
        rw [get?_eq_none_iff.mpr hleft, get?_eq_none_iff.mpr hright]
      · have := hget other
        rwa [get?, get?, if_neg hother, if_neg hother] at this

/-- **Rounds of writing.** A round that writes the first of some names changes nothing for a later
round that writes all of them in the same order. -/
theorem putAll_putAll {fields : Fields α} (hnodup : fields.keys.Nodup)
    {entries later : List (String × α)} (h : entries.map (·.1) <+: later.map (·.1)) :
    (fields.putAll entries).putAll later = fields.putAll later := by
  have hsubset : entries.map (·.1) ⊆ later.map (·.1) := h.subset
  refine ext_of_nodup ?_ (nodup_keys_putAll (nodup_keys_putAll hnodup _) _) fun name => ?_
  · -- the later round begins with the names of the earlier one, which are there by then
    obtain ⟨more, hmore⟩ := h
    obtain ⟨first, rest, rfl, hfirst, hrest⟩ := List.map_eq_append_iff.mp hmore.symm
    rw [putAll_append, putAll_append]
    refine keys_putAll_congr ?_ rfl
    rw [keys_putAll_of_subset]
    · exact keys_putAll_congr rfl hfirst.symm
    · intro name hname
      exact mem_keys_putAll.mpr (.inr (hfirst ▸ hname))
  · by_cases hname : name ∈ later.map (·.1)
    · exact get?_putAll_of_mem hname
    · rw [get?_putAll_of_not_mem hname, get?_putAll_of_not_mem hname,
        get?_putAll_of_not_mem fun h => hname (hsubset h)]

/-- Fields with the same names in the same order and related values. -/
abbrev Related (R : α → β → Prop) (fields : Fields α) (fields' : Fields β) : Prop :=
  List.Forall₂ (fun x y => x.1 = y.1 ∧ R x.2 y.2) fields fields'

theorem Related.put {R : α → β → Prop} {fields : Fields α} {fields' : Fields β}
    (h : Related R fields fields') (name : String) {a : α} {b : β} (hab : R a b) :
    Related R (fields.put name a) (fields'.put name b) := by
  induction h with
  | nil => exact .cons ⟨rfl, hab⟩ .nil
  | @cons x y rest rest' hxy hrest ih =>
    obtain ⟨k, v⟩ := x
    obtain ⟨k', v'⟩ := y
    obtain ⟨rfl, hv⟩ := hxy
    unfold Fields.put
    split
    · exact .cons ⟨rfl, hab⟩ hrest
    · exact .cons ⟨rfl, hv⟩ ih

theorem Related.keys_eq {R : α → β → Prop} {fields : Fields α} {fields' : Fields β}
    (h : Related R fields fields') : fields.keys = fields'.keys := by
  induction h with
  | nil => rfl
  | cons hxy _ ih => exact congrArg₂ List.cons hxy.1 ih

/-- Under a name that has been written there are related values, whatever has been there. -/
theorem Related.get?_putAll {R : α → β → Prop} {written : Fields α} {written' : Fields β}
    (h : Related R written written') {fields : Fields α} {fields' : Fields β} {name : String}
    (hsame : name ∉ written.keys → Option.Rel R (fields.get? name) (fields'.get? name)) :
    Option.Rel R ((fields.putAll written).get? name) ((fields'.putAll written').get? name) := by
  induction h generalizing fields fields' with
  | nil => exact hsame List.not_mem_nil
  | @cons x y rest rest' hxy _ ih =>
    rw [putAll_cons, putAll_cons]
    refine ih fun hrest => ?_
    rw [← hxy.1]
    by_cases hname : x.1 = name
    · subst hname
      rw [get?_put_self, get?_put_self]
      exact .some hxy.2
    · rw [get?_put_of_ne _ _ hname, get?_put_of_ne _ _ hname]
      exact hsame fun hmem => (List.mem_cons.mp hmem).elim (fun heq => hname heq.symm) hrest

/-- Fields with the same names in the same order are related if what stands under each name is. -/
theorem Related.of_get? {R : α → β → Prop} {fields : Fields α} {fields' : Fields β}
    (hkeys : fields.keys = fields'.keys) (hnodup : fields.keys.Nodup)
    (hget : ∀ name, Option.Rel R (fields.get? name) (fields'.get? name)) : Related R fields fields' := by
  induction fields generalizing fields' with
  | nil =>
    obtain rfl := List.map_eq_nil_iff.mp hkeys.symm
    exact .nil
  | cons field rest ih =>
    obtain ⟨name, a⟩ := field
    cases fields' with
    | nil => cases hkeys
    | cons field' rest' =>
      obtain ⟨name', b⟩ := field'
      obtain ⟨hname, hrest⟩ := List.cons.inj hkeys
      obtain rfl : name = name' := hname
      obtain ⟨hnot, hnodup⟩ := List.nodup_cons.mp hnodup
      have hab := hget name
      rw [get?, get?, if_pos rfl, if_pos rfl] at hab
      cases hab with
      | some hab =>
        refine .cons ⟨rfl, hab⟩ (ih hrest hnodup fun other => ?_)
        by_cases hother : name = other
        · have hleft : other ∉ keys rest := hother ▸ hnot
          have hright : other ∉ keys rest' := fun h => hleft (by rw [keys, hrest]; exact h)
          rw [get?_eq_none_iff.mpr hleft, get?_eq_none_iff.mpr hright]
          exact .none
        · have := hget other
          rwa [get?, get?, if_neg hother, if_neg hother] at this

end ReactiveViews.Fields
