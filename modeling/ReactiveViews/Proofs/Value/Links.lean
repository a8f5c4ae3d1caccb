import ReactiveViews.Proofs.Value.Texts

/-!
# Links between stores

Two runs of one program put their arrays and records into different rows. A *link* says which
array and which record of one store stands for which of another, each of them for at most one.
Values are linked if they are equal and refer to nothing, or refer to linked things; stores are
linked if linked things hold linked values. What can be read of linked values is then the same,
and whoever looks at them cannot tell in which of the two stores he is.

Elements as scopes are never linked: they are no data.

## What is proved

Linked values have the same text (`Link.Stores.text_eq`), the same items and the same properties,
up to links. Links survive when stores grow (`Link.Stores.grow`), and new arrays and records that
hold linked values can be linked (`Link.Stores.newArray`, `Link.Stores.newRecord`).
-/

namespace ReactiveViews

/-! ### Growing stores -/

namespace Store

/-- What was there is still there, as it was. -/
structure Grows (s s' : Store) : Prop where
  /-- No array is lost. -/
  arrays_le : s.arrays.size ≤ s'.arrays.size
  /-- No record is lost. -/
  records_le : s.records.size ≤ s'.records.size
  /-- The arrays have kept their items. -/
  items_eq : ∀ a : ArrayId, a.row < s.arrays.size → s'.items a = s.items a
  /-- The records have kept their fields. -/
  fields_eq : ∀ r : RecordId, r.row < s.records.size → s'.fields r = s.fields r

theorem Grows.refl (s : Store) : s.Grows s :=
  ⟨Nat.le_refl _, Nat.le_refl _, fun _ _ => rfl, fun _ _ => rfl⟩

theorem Grows.trans {s t u : Store} (h : s.Grows t) (h' : t.Grows u) : s.Grows u where
  arrays_le := Nat.le_trans h.arrays_le h'.arrays_le
  records_le := Nat.le_trans h.records_le h'.records_le
  items_eq a ha := (h'.items_eq a (Nat.lt_of_lt_of_le ha h.arrays_le)).trans (h.items_eq a ha)
  fields_eq r hr := (h'.fields_eq r (Nat.lt_of_lt_of_le hr h.records_le)).trans (h.fields_eq r hr)

theorem empty_grows (s : Store) : empty.Grows s :=
  ⟨Nat.zero_le _, Nat.zero_le _, fun _ h => (Nat.not_lt_zero _ h).elim,
    fun _ h => (Nat.not_lt_zero _ h).elim⟩

theorem items_newArray (s : Store) (items : List Value) :
    (s.newArray items).2.items (s.newArray items).1 = items := by
  simp [newArray, Store.items, Table.get?_add_new]

theorem newArray_grows (s : Store) (items : List Value) : s.Grows (s.newArray items).2 where
  arrays_le := by simp [newArray]
  records_le := Nat.le_refl _
  items_eq a ha := by simp only [newArray, Store.items, Table.get?_add_old _ _ ha]
  fields_eq _ _ := rfl

theorem fields_newRecord (s : Store) (fields : Fields Value) :
    (s.newRecord fields).2.fields (s.newRecord fields).1 = fields := by
  simp [newRecord, Store.fields, Table.get?_add_new]

theorem newRecord_grows (s : Store) (fields : Fields Value) : s.Grows (s.newRecord fields).2 where
  arrays_le := Nat.le_refl _
  records_le := by simp [newRecord]
  items_eq _ _ := rfl
  fields_eq r hr := by simp only [newRecord, Store.fields, Table.get?_add_old _ _ hr]

end Store

/-! ### Links -/

/-- Whether a value refers to nothing that lives in the store or in a component tree. -/
def Value.isPlain : Value → Bool
  | array _ | object (.record _) | object (.scope _ _) => false
  | _ => true

/-- Which arrays and records of one store stand for which of another. -/
structure Link where
  /-- The arrays. -/
  arrays : ArrayId → ArrayId → Prop
  /-- The records. -/
  records : RecordId → RecordId → Prop
  /-- An array stands for at most one, and at most one stands for it. -/
  arrays_iff : ∀ {a b a' b'}, arrays a b → arrays a' b' → (a = a' ↔ b = b')
  /-- A record stands for at most one, and at most one stands for it. -/
  records_iff : ∀ {r q r' q'}, records r q → records r' q' → (r = r' ↔ q = q')

namespace Link

/-- A value that stands for another. -/
inductive Values (ρ : Link) : Value → Value → Prop where
  /-- A value that refers to nothing stands for itself. -/
  | plain {v : Value} : v.isPlain = true → Values ρ v v
  /-- Linked arrays. -/
  | array {a b : ArrayId} : ρ.arrays a b → Values ρ (.array a) (.array b)
  /-- Linked records. -/
  | record {r q : RecordId} : ρ.records r q → Values ρ (.object (.record r)) (.object (.record q))

/-- Fields with the same names and linked values. -/
def Fields (ρ : Link) : ReactiveViews.Fields Value → ReactiveViews.Fields Value → Prop :=
  List.Forall₂ fun x y => x.1 = y.1 ∧ ρ.Values x.2 y.2

/-- Linked things exist and hold linked values. -/
structure Stores (ρ : Link) (s s' : Store) : Prop where
  /-- Arrays hold linked items. -/
  arrays : ∀ {a b}, ρ.arrays a b → a.row < s.arrays.size ∧ b.row < s'.arrays.size ∧
    List.Forall₂ ρ.Values (s.items a) (s'.items b)
  /-- Records hold linked fields. -/
  records : ∀ {r q}, ρ.records r q → r.row < s.records.size ∧ q.row < s'.records.size ∧
    ρ.Fields (s.fields r) (s'.fields q)

/-- A link says more than another. -/
instance : LE Link :=
  ⟨fun ρ ρ' => (∀ a b, ρ.arrays a b → ρ'.arrays a b) ∧ ∀ r q, ρ.records r q → ρ'.records r q⟩

/-- A link says more than another, but only of things that are new in two stores. -/
structure Extends (ρ ρ' : Link) (s s' : Store) : Prop where
  /-- It says no less. -/
  le : ρ ≤ ρ'
  /-- Arrays that are linked in addition are new. -/
  arrays : ∀ {a b}, ρ'.arrays a b → ρ.arrays a b ∨ s.arrays.size ≤ a.row ∧ s'.arrays.size ≤ b.row
  /-- Records that are linked in addition are new. -/
  records : ∀ {r q}, ρ'.records r q →
    ρ.records r q ∨ s.records.size ≤ r.row ∧ s'.records.size ≤ q.row

variable {ρ ρ' : Link} {s s' : Store} {v v' : Value}

protected theorem le_refl (ρ : Link) : ρ ≤ ρ := ⟨fun _ _ => id, fun _ _ => id⟩

protected theorem le_trans {ρ₁ ρ₂ ρ₃ : Link} (h : ρ₁ ≤ ρ₂) (h' : ρ₂ ≤ ρ₃) : ρ₁ ≤ ρ₃ :=
  ⟨fun a b hab => h'.1 a b (h.1 a b hab), fun r q hrq => h'.2 r q (h.2 r q hrq)⟩

theorem Values.mono (h : ρ ≤ ρ') (hv : ρ.Values v v') : ρ'.Values v v' := by
  cases hv with
  | plain hplain => exact .plain hplain
  | array hab => exact .array (h.1 _ _ hab)
  | record hrq => exact .record (h.2 _ _ hrq)

theorem Fields.mono (h : ρ ≤ ρ') {fields fields' : ReactiveViews.Fields Value}
    (hfields : ρ.Fields fields fields') : ρ'.Fields fields fields' :=
  List.Forall₂.imp (fun _ _ hxy => ⟨hxy.1, hxy.2.mono h⟩) hfields

theorem Extends.refl (ρ : Link) (s s' : Store) : ρ.Extends ρ s s' :=
  ⟨ρ.le_refl, fun h => .inl h, fun h => .inl h⟩

theorem Extends.trans {ρ₁ ρ₂ ρ₃ : Link} {t t' : Store} (h : ρ₁.Extends ρ₂ s s')
    (h' : ρ₂.Extends ρ₃ t t') (hs : s.Grows t) (hs' : s'.Grows t') : ρ₁.Extends ρ₃ s s' where
  le := Link.le_trans h.le h'.le
  arrays hab := by
    rcases h'.arrays hab with hab | ⟨ha, hb⟩
    · exact h.arrays hab
    · exact .inr ⟨Nat.le_trans hs.arrays_le ha, Nat.le_trans hs'.arrays_le hb⟩
  records hrq := by
    rcases h'.records hrq with hrq | ⟨hr, hq⟩
    · exact h.records hrq
    · exact .inr ⟨Nat.le_trans hs.records_le hr, Nat.le_trans hs'.records_le hq⟩

/-! ### What can be read of linked values -/

theorem Values.truthy_eq (h : ρ.Values v v') : v.truthy = v'.truthy := by
  cases h <;> rfl

theorem Values.isBlank_eq (h : ρ.Values v v') : v.isBlank = v'.isBlank := by
  cases h <;> rfl

namespace Stores

theorem textWithin_eq (h : ρ.Stores s s') (n : Nat) (hv : ρ.Values v v') :
    s.textWithin n v = s'.textWithin n v' := by
  induction n generalizing v v' with
  | zero =>
    cases hv with
    | @plain v hplain =>
      cases v with
      | array a => cases hplain
      | _ => simp only [Store.textWithin]
    | array hab => simp only [Store.textWithin]
    | record hrq => simp only [Store.textWithin, Object.typeName]
  | succ n ih =>
    cases hv with
    | @plain v hplain =>
      cases v with
      | array a => cases hplain
      | _ => simp only [Store.textWithin]
    | record hrq => simp only [Store.textWithin, Object.typeName]
    | array hab =>
      rw [Store.textWithin_array, Store.textWithin_array]
      congr 1
      have hitems := (h.arrays hab).2.2
      revert hitems
      generalize s.items _ = items
      generalize s'.items _ = items'
      intro hitems
      induction hitems with
      | nil => rfl
      | @cons v v' rest rest' hv _ ihrest =>
        have hitem : s.itemText n v = s'.itemText n v' := by
          rw [Store.itemText, Store.itemText, hv.isBlank_eq, ih hv]
        rw [List.mapM_cons, List.mapM_cons, hitem, ihrest]

/-- Linked values have the same text. -/
theorem text_eq (h : ρ.Stores s s') (hv : ρ.Values v v') : s.text v = s'.text v' := by
  refine Option.ext fun t => ?_
  rw [Store.text_eq_some_iff, Store.text_eq_some_iff]
  exact exists_congr fun n => by rw [h.textWithin_eq n hv]

/-- Links survive when stores grow. -/
theorem grow (h : ρ.Stores s s') {t t' : Store} (hs : s.Grows t) (hs' : s'.Grows t') :
    ρ.Stores t t' where
  arrays hab := by
    obtain ⟨ha, hb, hitems⟩ := h.arrays hab
    rw [hs.items_eq _ ha, hs'.items_eq _ hb]
    exact ⟨Nat.lt_of_lt_of_le ha hs.arrays_le, Nat.lt_of_lt_of_le hb hs'.arrays_le, hitems⟩
  records hrq := by
    obtain ⟨hr, hq, hfields⟩ := h.records hrq
    rw [hs.fields_eq _ hr, hs'.fields_eq _ hq]
    exact ⟨Nat.lt_of_lt_of_le hr hs.records_le, Nat.lt_of_lt_of_le hq hs'.records_le, hfields⟩

theorem walk? (h : ρ.Stores s s') (hv : ρ.Values v v') :
    Option.Rel (List.Forall₂ ρ.Values) (s.walk? v) (s'.walk? v') := by
  cases hv with
  | array hab => exact .some (h.arrays hab).2.2
  | record => exact .none
  | @plain v hplain =>
    cases v with
    | array a => cases hplain
    | str text =>
      refine .some (List.forall₂_same.mpr fun v hv => ?_)
      obtain ⟨c, -, rfl⟩ := List.mem_map.mp hv
      exact .plain rfl
    | undefined => exact .some .nil
    | null => exact .some .nil
    | _ => exact .none

end Stores

theorem getElem?_rel {items items' : List Value} (h : List.Forall₂ ρ.Values items items') (i : Nat) :
    Option.Rel ρ.Values items[i]? items'[i]? := by
  induction h generalizing i with
  | nil => simp
  | cons hv _ ih =>
    cases i with
    | zero => simpa using Option.Rel.some hv
    | succ i => simpa using ih i

theorem sequenceProperty {items items' : List Value} (h : List.Forall₂ ρ.Values items items')
    (key : String) :
    Option.Rel ρ.Values (ReactiveViews.sequenceProperty items key)
      (ReactiveViews.sequenceProperty items' key) := by
  unfold ReactiveViews.sequenceProperty
  split
  · rw [h.length_eq]
    exact .some (.plain rfl)
  · cases position? key with
    | none => exact .none
    | some i => exact getElem?_rel h i

theorem Fields.get? {fields fields' : ReactiveViews.Fields Value} (h : ρ.Fields fields fields')
    (key : String) : Option.Rel ρ.Values (fields.get? key) (fields'.get? key) := by
  induction h with
  | nil => exact .none
  | @cons x y rest rest' hxy _ ih =>
    obtain ⟨k, v⟩ := x
    obtain ⟨k', v'⟩ := y
    obtain ⟨rfl, hv⟩ := hxy
    unfold ReactiveViews.Fields.get?
    split
    · exact .some hv
    · exact ih

/-! ### Linking more -/

/-- Links one more pair of arrays. -/
def addArray (ρ : Link) (a b : ArrayId) (ha : ∀ b', ¬ ρ.arrays a b') (hb : ∀ a', ¬ ρ.arrays a' b) :
    Link where
  arrays a' b' := ρ.arrays a' b' ∨ a' = a ∧ b' = b
  records := ρ.records
  arrays_iff := by
    rintro a₁ b₁ a₂ b₂ (h₁ | ⟨rfl, rfl⟩) (h₂ | ⟨rfl, rfl⟩)
    · exact ρ.arrays_iff h₁ h₂
    · exact ⟨fun h => (ha b₁ (h ▸ h₁)).elim, fun h => (hb a₁ (h ▸ h₁)).elim⟩
    · exact ⟨fun h => (ha b₂ (h ▸ h₂)).elim, fun h => (hb a₂ (h ▸ h₂)).elim⟩
    · exact ⟨fun _ => rfl, fun _ => rfl⟩
  records_iff := ρ.records_iff

/-- Links one more pair of records. -/
def addRecord (ρ : Link) (r q : RecordId) (hr : ∀ q', ¬ ρ.records r q')
    (hq : ∀ r', ¬ ρ.records r' q) : Link where
  arrays := ρ.arrays
  records r' q' := ρ.records r' q' ∨ r' = r ∧ q' = q
  arrays_iff := ρ.arrays_iff
  records_iff := by
    rintro r₁ q₁ r₂ q₂ (h₁ | ⟨rfl, rfl⟩) (h₂ | ⟨rfl, rfl⟩)
    · exact ρ.records_iff h₁ h₂
    · exact ⟨fun h => (hr q₁ (h ▸ h₁)).elim, fun h => (hq r₁ (h ▸ h₁)).elim⟩
    · exact ⟨fun h => (hr q₂ (h ▸ h₂)).elim, fun h => (hq r₂ (h ▸ h₂)).elim⟩
    · exact ⟨fun _ => rfl, fun _ => rfl⟩

theorem le_addArray {a b : ArrayId} (ha : ∀ b', ¬ ρ.arrays a b') (hb : ∀ a', ¬ ρ.arrays a' b) :
    ρ ≤ ρ.addArray a b ha hb := ⟨fun _ _ => .inl, fun _ _ => id⟩

theorem le_addRecord {r q : RecordId} (hr : ∀ q', ¬ ρ.records r q')
    (hq : ∀ r', ¬ ρ.records r' q) : ρ ≤ ρ.addRecord r q hr hq := ⟨fun _ _ => id, fun _ _ => .inl⟩

namespace Stores

/-- New arrays that hold linked items can be linked. -/
theorem newArray (h : ρ.Stores s s') {items items' : List Value}
    (hitems : List.Forall₂ ρ.Values items items') :
    ∃ ρ' : Link, ρ.Extends ρ' s s' ∧ ρ'.Stores (s.newArray items).2 (s'.newArray items').2 ∧
      ρ'.arrays (s.newArray items).1 (s'.newArray items').1 := by
  have ha : ∀ b, ¬ ρ.arrays (s.newArray items).1 b :=
    fun b hab => Nat.lt_irrefl _ (h.arrays hab).1
  have hb : ∀ a, ¬ ρ.arrays a (s'.newArray items').1 :=
    fun a hab => Nat.lt_irrefl _ (h.arrays hab).2.1
  have hle := le_addArray ha hb
  have hgrown := h.grow (s.newArray_grows items) (s'.newArray_grows items')
  refine ⟨ρ.addArray _ _ ha hb, ⟨hle, ?_, .inl⟩, ⟨?_, ?_⟩, .inr ⟨rfl, rfl⟩⟩
  · rintro a b (hab | ⟨rfl, rfl⟩)
    · exact .inl hab
    · exact .inr ⟨Nat.le_refl _, Nat.le_refl _⟩
  · rintro a b (hab | ⟨rfl, rfl⟩)
    · obtain ⟨hra, hrb, hall⟩ := hgrown.arrays hab
      exact ⟨hra, hrb, hall.imp fun _ _ hv => hv.mono hle⟩
    · rw [Store.items_newArray, Store.items_newArray]
      exact ⟨by simp [Store.newArray], by simp [Store.newArray], hitems.imp fun _ _ hv => hv.mono hle⟩
  · intro r q hrq
    obtain ⟨hr, hq, hall⟩ := hgrown.records hrq
    exact ⟨hr, hq, hall.mono hle⟩

/-- Records that hold linked fields can be linked. -/
theorem addRecord (h : ρ.Stores s s') {r q : RecordId} (hr : ∀ q', ¬ ρ.records r q')
    (hq : ∀ r', ¬ ρ.records r' q) (hrange : r.row < s.records.size)
    (hrange' : q.row < s'.records.size) (hfields : ρ.Fields (s.fields r) (s'.fields q)) :
    (ρ.addRecord r q hr hq).Stores s s' where
  arrays hab := by
    obtain ⟨ha, hb, hall⟩ := h.arrays hab
    exact ⟨ha, hb, hall.imp fun _ _ hv => hv.mono (le_addRecord hr hq)⟩
  records := by
    rintro r' q' (hrq | ⟨rfl, rfl⟩)
    · obtain ⟨hr', hq', hall⟩ := h.records hrq
      exact ⟨hr', hq', hall.mono (le_addRecord hr hq)⟩
    · exact ⟨hrange, hrange', hfields.mono (le_addRecord hr hq)⟩

end Stores

end Link

/-! ### Regions -/

/-- A part of a store. -/
structure Region where
  /-- Its arrays. -/
  arrays : ArrayId → Prop
  /-- Its records. -/
  records : RecordId → Prop

namespace Region

/-- The link of a region with itself. -/
def link (D : Region) : Link where
  arrays a b := a = b ∧ D.arrays a
  records r q := r = q ∧ D.records r
  arrays_iff := by
    rintro a b a' b' ⟨rfl, -⟩ ⟨rfl, -⟩
    exact Iff.rfl
  records_iff := by
    rintro r q r' q' ⟨rfl, -⟩ ⟨rfl, -⟩
    exact Iff.rfl

/-- Values that refer to nothing outside of a region, and are no elements. -/
def Holds (D : Region) (v : Value) : Prop := D.link.Values v v

/-- What is in the region exists and holds nothing outside of it. -/
def Closed (D : Region) (s : Store) : Prop := D.link.Stores s s

end Region

end ReactiveViews
