import Mathlib.Data.List.Forall2
import Mathlib.Data.List.Perm.Subperm
import ReactiveViews.Value.Store

/-!
# Texts that end

The text of a value is found with as much room as the store has arrays. No more room is ever
needed: where a text exists at all, the arrays around its innermost place are inside of each
other, so they are different arrays, and there are no more of them than rows.

## What is proved

**Texts** (`Store.text_eq_some_iff`). A value has a text exactly if some room suffices for it.
-/

namespace ReactiveViews

variable {α β : Type}

/-- Several results are there if each of them is. -/
theorem mapM_eq_some_iff {f : α → Option β} {l : List α} {l' : List β} :
    l.mapM f = some l' ↔ List.Forall₂ (fun a b => f a = some b) l l' := by
  induction l generalizing l' with
  | nil => cases l' <;> simp
  | cons a rest ih =>
    rw [List.mapM_cons, List.forall₂_cons_left_iff]
    cases hf : f a with
    | none => simp
    | some b =>
      cases hrest : rest.mapM f with
      | none =>
        refine iff_of_false (by simp) ?_
        rintro ⟨b', rest', -, hall, -⟩
        rw [ih.mpr hall] at hrest
        cases hrest
      | some rest' =>
        constructor
        · intro h
          obtain rfl := Option.some.inj h
          exact ⟨b, rest', rfl, ih.mp hrest, rfl⟩
        · rintro ⟨b', rest'', hb, hall, rfl⟩
          obtain rfl := Option.some.inj hb
          obtain rfl := Option.some.inj (hrest.symm.trans (ih.mpr hall))
          rfl

theorem mapM_eq_none_iff {f : α → Option β} {l : List α} :
    l.mapM f = none ↔ ∃ a ∈ l, f a = none := by
  induction l with
  | nil => simp
  | cons a rest ih =>
    rw [List.mapM_cons]
    cases hf : f a with
    | none => simp [hf]
    | some b =>
      cases hrest : rest.mapM f with
      | none => simpa [hf] using ih.mp hrest
      | some rest' =>
        refine iff_of_false (by simp) ?_
        simp only [List.mem_cons, exists_eq_or_imp, hf]
        rintro (h | h)
        · cases h
        · rw [ih.mpr h] at hrest
          cases hrest

namespace Store

variable {s : Store}

/-- The text of an item of an array. -/
def itemText (s : Store) (depth : Nat) (v : Value) : Option String :=
  if v.isBlank then some "" else s.textWithin depth v

theorem textWithin_array (s : Store) (depth : Nat) (a : ArrayId) :
    s.textWithin (depth + 1) (.array a) =
      ((s.items a).mapM (s.itemText depth)).map (String.intercalate ",") := by
  rw [textWithin]
  cases h : (s.items a).mapM (s.itemText depth) <;> unfold itemText at h <;> rw [h] <;> rfl

theorem textWithin_eq_of_not_array {v : Value} (h : ∀ a, v ≠ .array a) (n m : Nat) :
    s.textWithin n v = s.textWithin m v := by
  cases v with
  | array a => exact (h a rfl).elim
  | _ => simp only [textWithin]

theorem textWithin_isSome_of_not_array {v : Value} (h : ∀ a, v ≠ .array a) (n : Nat) :
    (s.textWithin n v).isSome := by
  cases v with
  | array a => exact (h a rfl).elim
  | _ => simp only [textWithin, Option.isSome_some]

/-- More room does not change a text. -/
theorem textWithin_succ {n : Nat} {v : Value} {t : String} (h : s.textWithin n v = some t) :
    s.textWithin (n + 1) v = some t := by
  induction n generalizing v t with
  | zero =>
    cases v with
    | array a => simp [textWithin] at h
    | _ => rwa [textWithin_eq_of_not_array (by simp) 1 0]
  | succ n ih =>
    cases v with
    | array a =>
      rw [textWithin_array] at h ⊢
      obtain ⟨texts, htexts, rfl⟩ := Option.map_eq_some_iff.mp h
      have hmore : (s.items a).mapM (s.itemText (n + 1)) = some texts := by
        refine mapM_eq_some_iff.mpr ((mapM_eq_some_iff.mp htexts).imp fun v t hv => ?_)
        unfold itemText at hv ⊢
        split
        · next hblank => rwa [if_pos hblank] at hv
        · next hblank => exact ih (by rwa [if_neg hblank] at hv)
      rw [hmore, Option.map_some]
    | _ => rwa [textWithin_eq_of_not_array (by simp) (n + 1 + 1) (n + 1)]

theorem textWithin_mono {n m : Nat} (hnm : n ≤ m) {v : Value} {t : String}
    (h : s.textWithin n v = some t) : s.textWithin m v = some t := by
  induction hnm with
  | refl => exact h
  | step _ ih => exact textWithin_succ ih

/-- An array that needs so much room has as many different arrays inside of each other. -/
theorem nested_of_textWithin {n : Nat} {a : ArrayId}
    (hnone : s.textWithin n (.array a) = none)
    (hsome : (s.textWithin (n + 1) (.array a)).isSome) :
    ∃ rows : List Nat, rows.Nodup ∧ rows.length = n ∧
      ∀ row ∈ rows, row < s.arrays.size ∧ (s.textWithin (n + 1) (.array ⟨row⟩)).isSome := by
  induction n generalizing a with
  | zero => exact ⟨[], by simp⟩
  | succ n ih =>
    rw [textWithin_array, Option.map_eq_none_iff, mapM_eq_none_iff] at hnone
    obtain ⟨v, hmem, hv⟩ := hnone
    -- the item that needs most room is an array itself
    obtain ⟨b, rfl⟩ : ∃ b, v = .array b := by
      by_contra hnot
      rw [not_exists] at hnot
      have := textWithin_isSome_of_not_array (s := s) hnot n
      unfold itemText at hv
      split at hv
      · cases hv
      · rw [hv] at this
        cases this
    have hnone : s.textWithin (n + 1) (.array a) = none := by
      rw [textWithin_array, mapM_eq_none_iff.mpr ⟨_, hmem, hv⟩, Option.map_none]
    have hitem : (s.textWithin (n + 1) (.array b)).isSome := by
      rw [textWithin_array, Option.isSome_map] at hsome
      by_contra hdeep
      have hmissing : s.itemText (n + 1) (.array b) = none := by
        simpa [itemText, Value.isBlank] using hdeep
      rw [mapM_eq_none_iff.mpr ⟨_, hmem, hmissing⟩] at hsome
      cases hsome
    obtain ⟨rows, hnodup, hlength, hrows⟩ := ih (by simpa [itemText, Value.isBlank] using hv) hitem
    refine ⟨a.row :: rows, ?_, by simp [hlength], ?_⟩
    · refine List.nodup_cons.mpr ⟨fun hrow => ?_, hnodup⟩
      have := (hrows _ hrow).2
      rw [hnone] at this
      cases this
    · rintro row (_ | ⟨_, hrow⟩)
      · refine ⟨?_, hsome⟩
        by_contra hrange
        have : s.items a = [] := by
          simp only [items, Table.get?]
          rw [Array.getElem?_eq_none (by simpa [Table.size] using hrange)]
          rfl
        rw [this] at hmem
        cases hmem
      · obtain ⟨hrange, hdeep⟩ := hrows row hrow
        obtain ⟨t, ht⟩ := Option.isSome_iff_exists.mp hdeep
        exact ⟨hrange, Option.isSome_iff_exists.mpr ⟨t, textWithin_succ ht⟩⟩

/-- A text that needs some room needs no more than there are arrays. -/
theorem textWithin_size {n : Nat} {v : Value} {t : String} (h : s.textWithin n v = some t) :
    s.textWithin (s.arrays.size + 1) v = some t := by
  induction n with
  | zero => exact textWithin_mono (Nat.zero_le _) h
  | succ n ih =>
    by_cases hn : n + 1 ≤ s.arrays.size + 1
    · exact textWithin_mono hn h
    · cases hless : s.textWithin n v with
      | some t' => exact ih (hless.trans ((textWithin_succ hless).symm.trans h))
      | none =>
        obtain ⟨a, rfl⟩ : ∃ a, v = .array a := by
          by_contra hnot
          rw [not_exists] at hnot
          have := textWithin_isSome_of_not_array (s := s) hnot n
          rw [hless] at this
          cases this
        obtain ⟨rows, hnodup, hlength, hrows⟩ :=
          nested_of_textWithin hless (Option.isSome_iff_exists.mpr ⟨t, h⟩)
        have hsub : rows ⊆ List.range s.arrays.size :=
          fun row hrow => List.mem_range.mpr (hrows row hrow).1
        have hle := (List.subperm_of_subset hnodup hsub).length_le
        rw [hlength, List.length_range] at hle
        omega

/-- **Texts.** A value has a text exactly if some room suffices for it. -/
theorem text_eq_some_iff {v : Value} {t : String} :
    s.text v = some t ↔ ∃ n, s.textWithin n v = some t :=
  ⟨fun h => ⟨_, h⟩, fun ⟨_, h⟩ => textWithin_size h⟩

end Store

end ReactiveViews
