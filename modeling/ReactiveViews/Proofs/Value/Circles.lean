import Mathlib.Data.Fintype.Pigeonhole
import Mathlib.Logic.Relation
import Mathlib.Order.WellFounded
import ReactiveViews.Proofs.Value.Texts

/-!
# Arrays in circles

Arrays are shared and can be changed, so an array may come to hold itself, directly or through others.
Writing it down then never ends. Nothing else keeps a text from ending: objects and functions are
written by their names, whatever they hold.

## The model

The text of a value is written piece by piece (`Writing.Step`). What is still to be written is a list
of pieces; an array is replaced by its items with commas between them, and everything else is written
at once. Writing *ends* with a text when no pieces are left, and *terminates* if there is no infinite
sequence of steps.

## What is proved

Writing ends with the text that the store gives (`Store.ends_iff`), and the text of an array is made of
those of its items (`Store.text_array`). **Circles** (`Store.text_terminates`): writing terminates
exactly if no array that is reached through items of arrays holds itself.
-/

namespace ReactiveViews

open Relation

/-! ### Writing piece by piece -/

/-- A piece of a text that is still to be written. -/
inductive Fragment where
  /-- A text as it is. -/
  | text (t : String)
  /-- A value. -/
  | value (v : Value)

/-- What is written of an item of an array: nothing if it is blank. -/
def Fragment.ofItem (v : Value) : Fragment := if v.isBlank then .text "" else .value v

/-- The items of an array with commas between them. -/
def Fragment.ofItems (items : List Value) : List Fragment :=
  (items.map .ofItem).intersperse (.text ",")

/-- What has been written so far, and what is still to be written. -/
structure Writing where
  /-- The text so far. -/
  written : String
  /-- The pieces left, first to last. -/
  left : List Fragment

/-- One step of writing. -/
inductive Writing.Step (s : Store) : Writing → Writing → Prop where
  /-- A text is written. -/
  | text (w t : String) (rest : List Fragment) : Step s ⟨w, .text t :: rest⟩ ⟨w ++ t, rest⟩
  /-- A value that is no array is written. -/
  | plain (w : String) {v : Value} {t : String} (rest : List Fragment) :
    s.textWithin 0 v = some t → Step s ⟨w, .value v :: rest⟩ ⟨w ++ t, rest⟩
  /-- An array is opened. -/
  | array (w : String) (a : ArrayId) (rest : List Fragment) :
    Step s ⟨w, .value (.array a) :: rest⟩ ⟨w, Fragment.ofItems (s.items a) ++ rest⟩

/-- Writing goes one way only. -/
theorem Writing.Step.unique {s : Store} {u u₁ u₂ : Writing} (h₁ : Writing.Step s u u₁)
    (h₂ : Writing.Step s u u₂) : u₁ = u₂ := by
  cases h₁ with
  | text =>
    cases h₂
    rfl
  | plain w rest ht =>
    cases h₂ with
    | plain _ _ ht' => rw [Option.some.inj (ht.symm.trans ht')]
    | array => simp [Store.textWithin] at ht
  | array w a rest =>
    cases h₂ with
    | plain _ _ ht' => simp [Store.textWithin] at ht'
    | array => rfl

namespace Store

/-- Writing a value ends with a text. -/
def Ends (s : Store) (v : Value) (t : String) : Prop :=
  ReflTransGen (Writing.Step s) ⟨"", [.value v]⟩ ⟨t, []⟩

/-- Writing a value terminates: no sequence of steps is infinite. -/
def Terminates (s : Store) (v : Value) : Prop :=
  Acc (fun after before => Writing.Step s before after) ⟨"", [.value v]⟩

/-- What stands for an item in the text of an array: nothing if it is blank. -/
def entry (s : Store) (v : Value) : Option String := if v.isBlank then some "" else s.text v

variable {s : Store} {v : Value} {t : String}

/-! ### Texts of arrays -/

theorem entry_eq_some_iff : s.entry v = some t ↔ ∃ n, s.itemText n v = some t := by
  unfold entry itemText
  split
  · simp
  · exact text_eq_some_iff

theorem itemText_mono {n m : Nat} (hnm : n ≤ m) (h : s.itemText n v = some t) :
    s.itemText m v = some t := by
  unfold itemText at *
  split
  · next hblank => rwa [if_pos hblank] at h
  · next hblank => exact textWithin_mono hnm (by rwa [if_neg hblank] at h)

/-- Some room suffices for all items of an array, if it does for each. -/
theorem exists_room {items : List Value} {texts : List String}
    (h : List.Forall₂ (fun v t => s.entry v = some t) items texts) :
    ∃ n, List.Forall₂ (fun v t => s.itemText n v = some t) items texts := by
  induction h with
  | nil => exact ⟨0, .nil⟩
  | cons hv _ ih =>
    obtain ⟨n, hv⟩ := entry_eq_some_iff.mp hv
    obtain ⟨m, hrest⟩ := ih
    exact ⟨max n m, .cons (itemText_mono (Nat.le_max_left n m) hv)
      (hrest.imp fun _ _ hv => itemText_mono (Nat.le_max_right n m) hv)⟩

/-- The text of an array is its items between commas, where blank items leave an empty place. -/
theorem text_array (s : Store) (a : ArrayId) :
    s.text (.array a) = ((s.items a).mapM s.entry).map (String.intercalate ",") := by
  refine Option.ext fun t => ?_
  rw [text_eq_some_iff, Option.map_eq_some_iff]
  constructor
  · rintro ⟨n, hn⟩
    cases n with
    | zero => simp [textWithin] at hn
    | succ n =>
      rw [textWithin_array, Option.map_eq_some_iff] at hn
      obtain ⟨texts, htexts, rfl⟩ := hn
      refine ⟨texts, mapM_eq_some_iff.mpr ((mapM_eq_some_iff.mp htexts).imp fun v t hv => ?_), rfl⟩
      exact entry_eq_some_iff.mpr ⟨n, hv⟩
  · rintro ⟨texts, htexts, rfl⟩
    obtain ⟨n, hn⟩ := exists_room (mapM_eq_some_iff.mp htexts)
    exact ⟨n + 1, by rw [textWithin_array, mapM_eq_some_iff.mpr hn, Option.map_some]⟩

/-- An array has a text if all of its items have one. -/
theorem isSome_text_array {a : ArrayId} (h : ∀ v ∈ s.items a, (s.entry v).isSome) :
    (s.text (.array a)).isSome := by
  rw [text_array, Option.isSome_map, ← Option.ne_none_iff_isSome, ne_eq, mapM_eq_none_iff]
  rintro ⟨v, hmem, hnone⟩
  have hsome := h v hmem
  rw [hnone] at hsome
  cases hsome

/-- Nothing but an array lacks a text. -/
theorem isSome_text_of_not_array (h : ∀ a, v ≠ .array a) : (s.text v).isSome :=
  textWithin_isSome_of_not_array h _

theorem textWithin_zero_eq_none_iff : s.textWithin 0 v = none ↔ ∃ a, v = .array a := by
  cases v <;> simp [textWithin]

/-! ### How writing ends -/

/-- The items of an array are written one after the other, with commas between them. -/
theorem writes_ofItems {items : List Value} {texts : List String}
    (h : List.Forall₂ (fun v t => ∀ w rest,
      ReflTransGen (Writing.Step s) ⟨w, .ofItem v :: rest⟩ ⟨w ++ t, rest⟩) items texts)
    (w : String) (rest : List Fragment) :
    ReflTransGen (Writing.Step s) ⟨w, Fragment.ofItems items ++ rest⟩
      ⟨w ++ String.intercalate "," texts, rest⟩ := by
  induction h generalizing w with
  | nil => simpa [Fragment.ofItems] using ReflTransGen.refl
  | @cons v t items texts hv hrest ih =>
    cases hrest with
    | nil => simpa [Fragment.ofItems] using hv w rest
    | @cons v' t' items texts _ _ =>
      have hcomma := Writing.Step.text (s := s) (w ++ t) "," (Fragment.ofItems (v' :: items) ++ rest)
      have hfirst := hv w (.text "," :: (Fragment.ofItems (v' :: items) ++ rest))
      have hall := hfirst.trans ((ih (w ++ t ++ ",")).head hcomma)
      simpa [Fragment.ofItems, String.intercalate_cons_cons, String.append_assoc] using hall

/-- Whatever else is to be written, a value that has a text is written as it. -/
theorem writes {n : Nat} (h : s.textWithin n v = some t) (w : String) (rest : List Fragment) :
    ReflTransGen (Writing.Step s) ⟨w, .value v :: rest⟩ ⟨w ++ t, rest⟩ := by
  induction n generalizing v t w rest with
  | zero => exact .single (.plain w rest h)
  | succ n ih =>
    by_cases harray : ∃ a, v = .array a
    · obtain ⟨a, rfl⟩ := harray
      rw [textWithin_array, Option.map_eq_some_iff] at h
      obtain ⟨texts, htexts, rfl⟩ := h
      refine .head (.array w a rest) (writes_ofItems ?_ w rest)
      refine (mapM_eq_some_iff.mp htexts).imp fun v t hv w rest => ?_
      unfold itemText at hv
      unfold Fragment.ofItem
      split at hv
      · next hblank =>
        obtain rfl := Option.some.inj hv
        rw [if_pos hblank]
        exact .single (.text w "" rest)
      · next hblank =>
        rw [if_neg hblank]
        exact ih hv w rest
    · rw [textWithin_eq_of_not_array (not_exists.mp harray) (n + 1) 0] at h
      exact .single (.plain w rest h)

/-- As long as something is left to be written, there is a next step. -/
theorem exists_step (s : Store) (w : String) (piece : Fragment) (rest : List Fragment) :
    ∃ u, Writing.Step s ⟨w, piece :: rest⟩ u := by
  cases piece with
  | text t => exact ⟨_, .text w t rest⟩
  | value v =>
    cases h : s.textWithin 0 v with
    | some t => exact ⟨_, .plain w rest h⟩
    | none =>
      obtain ⟨a, rfl⟩ := textWithin_zero_eq_none_iff.mp h
      exact ⟨_, .array w a rest⟩

/-- Writing that has come to an end has had no other way to go. -/
theorem acc_of_reaches {u : Writing} (h : ReflTransGen (Writing.Step s) u ⟨t, []⟩) :
    Acc (fun after before => Writing.Step s before after) u := by
  induction h using ReflTransGen.head_induction_on with
  | refl => exact .intro _ fun u hu => nomatch hu
  | head hstep _ ih => exact .intro _ fun u hu => hu.unique hstep ▸ ih

theorem mem_ofItems {items : List Value} (h : v ∈ items) : .ofItem v ∈ Fragment.ofItems items := by
  obtain ⟨i, hi⟩ := List.mem_iff_getElem?.mp h
  refine List.mem_of_getElem? (i := 2 * i) ?_
  rw [Fragment.ofItems, List.getElem?_intersperse_two_mul, List.getElem?_map, hi]
  rfl

/-- If writing terminates, every value that is left to be written has a text. -/
theorem isSome_text_of_acc {u : Writing}
    (h : Acc (fun after before => Writing.Step s before after) u) :
    ∀ v, .value v ∈ u.left → (s.text v).isSome := by
  induction h with
  | intro u _ ih =>
    intro v hmem
    obtain ⟨w, left⟩ := u
    cases left with
    | nil => cases hmem
    | cons piece rest =>
      obtain ⟨u, hstep⟩ := exists_step s w piece rest
      have hlater := ih u hstep
      cases hstep with
      | text =>
        rcases List.mem_cons.mp hmem with hnow | hmem
        · cases hnow
        · exact hlater v hmem
      | @plain _ v' t _ ht =>
        rcases List.mem_cons.mp hmem with hnow | hmem
        · obtain rfl := Fragment.value.inj hnow
          exact Option.isSome_iff_exists.mpr ⟨t, text_eq_some_iff.mpr ⟨0, ht⟩⟩
        · exact hlater v hmem
      | array _ a =>
        rcases List.mem_cons.mp hmem with hnow | hmem
        · obtain rfl := Fragment.value.inj hnow
          refine isSome_text_array fun item hitem => ?_
          unfold entry
          split
          · rfl
          · next hblank =>
            refine hlater item (List.mem_append_left _ ?_)
            have hmem := mem_ofItems hitem
            rwa [Fragment.ofItem, if_neg hblank] at hmem
        · exact hlater v (List.mem_append_right _ hmem)

theorem ends_of_text (h : s.text v = some t) : s.Ends v t := by
  simpa [Ends] using writes h "" []

theorem eq_of_reaches_nil {u : Writing} (h : ReflTransGen (Writing.Step s) ⟨t, []⟩ u) :
    u = ⟨t, []⟩ := by
  rcases h.cases_head with heq | ⟨_, hstep, -⟩
  · exact heq.symm
  · cases hstep

/-- Writing ends with the text of the value. -/
theorem ends_iff : s.Ends v t ↔ s.text v = some t := by
  refine ⟨fun h => ?_, ends_of_text⟩
  obtain ⟨t', ht'⟩ := Option.isSome_iff_exists.mp
    (isSome_text_of_acc (acc_of_reaches h) v List.mem_cons_self)
  have hunique : Relator.RightUnique (Writing.Step s) := fun _ _ _ => Writing.Step.unique
  rcases ReflTransGen.total_of_right_unique hunique h (ends_of_text ht') with h | h
  · obtain ⟨rfl, -⟩ := Writing.mk.inj (eq_of_reaches_nil h)
    exact ht'
  · obtain ⟨rfl, -⟩ := Writing.mk.inj (eq_of_reaches_nil h)
    exact ht'

theorem terminates_iff_isSome : s.Terminates v ↔ (s.text v).isSome := by
  constructor
  · exact fun h => isSome_text_of_acc h v List.mem_cons_self
  · intro h
    obtain ⟨t, ht⟩ := Option.isSome_iff_exists.mp h
    exact acc_of_reaches (ends_of_text ht)

/-! ### Arrays inside of arrays -/

/-- The second array is an item of the first. -/
def Holds (s : Store) (a b : ArrayId) : Prop := .array b ∈ s.items a

/-- An array holds itself, directly or through others. -/
def Circular (s : Store) : Prop := ∃ a, Relation.TransGen s.Holds a a

/-- An array is one of those that hold themselves. -/
def InCircle (s : Store) (a : ArrayId) : Prop := TransGen s.Holds a a

/-- An array is reached from a value through items of arrays alone. -/
def Reaches (s : Store) (v : Value) (b : ArrayId) : Prop :=
  ∃ a, v = .array a ∧ ReflTransGen s.Holds a b

/-- There is no way down from an array without an end. -/
def Founded (s : Store) (a : ArrayId) : Prop := Acc (fun b a => s.Holds a b) a

variable {a b : ArrayId}

theorem Holds.lt_size (h : s.Holds a b) : a.row < s.arrays.size := by
  by_contra hrange
  have hnone : s.arrays.get? a.row = none :=
    Array.getElem?_eq_none (by simpa [Table.size] using hrange)
  rw [Holds, items, hnone] at h
  cases h

theorem founded_of_textWithin {n : Nat} (h : (s.textWithin n (.array a)).isSome) : s.Founded a := by
  induction n generalizing a with
  | zero => simp [textWithin] at h
  | succ n ih =>
    refine .intro a fun b hb => ih ?_
    rw [textWithin_array, Option.isSome_map] at h
    by_contra hnone
    have hitem : s.itemText n (.array b) = none := by simpa [itemText, Value.isBlank] using hnone
    rw [mapM_eq_none_iff.mpr ⟨_, hb, hitem⟩] at h
    cases h

theorem Founded.isSome_text (h : s.Founded a) : (s.text (.array a)).isSome := by
  induction h with
  | intro a _ ih =>
    refine isSome_text_array fun v hv => ?_
    unfold entry
    split
    · rfl
    · by_cases harray : ∃ b, v = .array b
      · obtain ⟨b, rfl⟩ := harray
        exact ih b hv
      · exact isSome_text_of_not_array (not_exists.mp harray)

theorem Founded.not_inCircle (h : s.Founded a) : ¬ s.InCircle a := by
  induction h with
  | intro a _ ih =>
    intro hcircle
    obtain ⟨b, hb, hback⟩ := TransGen.head'_iff.mp hcircle
    -- what is inside of a circle is in it as well
    exact ih b hb (TransGen.tail' hback hb)

theorem Founded.reach (h : s.Founded a) (hb : ReflTransGen s.Holds a b) : s.Founded b := by
  induction hb with
  | refl => exact h
  | tail _ hbc ih => exact ih.inv hbc

/-- A way down without an end comes back to an array that it has passed. -/
theorem founded_of_not_inCircle (h : ∀ b, ReflTransGen s.Holds a b → ¬ s.InCircle b) :
    s.Founded a := by
  by_contra hfounded
  obtain ⟨way, rfl, hway⟩ := not_acc_iff_exists_descending_chain.mp hfounded
  have hpath {i j : Nat} (hij : i ≤ j) : ReflTransGen s.Holds (way i) (way j) := by
    induction hij with
    | refl => exact .refl
    | step _ ih => exact ih.tail (hway _)
  have hcircle {i j : Nat} (hij : i < j) (heq : way i = way j) : s.InCircle (way i) := by
    have hloop := TransGen.head' (hway i) (hpath hij)
    rwa [← heq] at hloop
  obtain ⟨i, j, hne, heq⟩ := Finite.exists_ne_map_eq_of_infinite fun i =>
    (⟨(way i).row, (hway i).lt_size⟩ : Fin s.arrays.size)
  have hsame : way i = way j := by
    have hrow : (way i).row = (way j).row := congrArg Fin.val heq
    exact congrArg ArrayId.mk hrow
  rcases Nat.lt_or_gt_of_ne hne with hij | hij
  · exact h _ (hpath (Nat.zero_le i)) (hcircle hij hsame)
  · exact h _ (hpath (Nat.zero_le j)) (hcircle hij hsame.symm)

theorem founded_iff_isSome : s.Founded a ↔ (s.text (.array a)).isSome :=
  ⟨Founded.isSome_text, founded_of_textWithin⟩

/-- A value has a text exactly if no array that is reached from it holds itself. -/
theorem isSome_text_iff : (s.text v).isSome ↔ ∀ a, s.Reaches v a → ¬ s.InCircle a := by
  by_cases harray : ∃ a, v = .array a
  · obtain ⟨a, rfl⟩ := harray
    rw [← founded_iff_isSome]
    constructor
    · rintro h b ⟨_, ⟨⟩, hb⟩
      exact (h.reach hb).not_inCircle
    · exact fun h => founded_of_not_inCircle fun b hb => h b ⟨a, rfl, hb⟩
  · refine iff_of_true (isSome_text_of_not_array (not_exists.mp harray)) ?_
    rintro b ⟨a, ha, -⟩
    exact (harray ⟨a, ha⟩).elim

/-- A value has a text unless some array holds itself. -/
theorem circular_of_text (h : s.text v = none) : s.Circular := by
  by_contra hcircular
  have hsome : (s.text v).isSome := isSome_text_iff.mpr fun a _ ha => hcircular ⟨a, ha⟩
  rw [h] at hsome
  cases hsome

/-- What the records hold does not matter. -/
theorem textWithin_records (s : Store) (records : Table (Fields Value)) (n : Nat) (v : Value) :
    ({ s with records } : Store).textWithin n v = s.textWithin n v := by
  induction n generalizing v with
  | zero => cases v <;> simp only [textWithin]
  | succ n ih =>
    cases v with
    | array a =>
      have hitem : ({ s with records } : Store).itemText n = s.itemText n := by
        funext v
        rw [itemText, itemText, ih]
      rw [textWithin_array, textWithin_array, hitem]
      rfl
    | _ => simp only [textWithin]

/-- **Circles.** Writing a value down terminates exactly if no array that is reached from it through
items of arrays holds itself, and then ends with the text of the value and with no other. What the
records hold does not matter. The text of an array is that of its items with commas between them, where
nothing stands for undefined and null. -/
theorem text_terminates (s : Store) (v : Value) :
    (s.Terminates v ↔ ∀ a, s.Reaches v a → ¬ s.InCircle a) ∧
    (s.Terminates v ↔ ∃ t, s.text v = some t) ∧
    (∀ t, s.Ends v t ↔ s.text v = some t) ∧
    (∀ records, ({ s with records } : Store).text v = s.text v) ∧
    ∀ a, v = .array a → s.Terminates v → ∃ texts : List String,
      List.Forall₂ (fun item t => if item.isBlank then t = "" else s.text item = some t)
        (s.items a) texts ∧
      s.text v = some (String.intercalate "," texts) := by
  refine ⟨terminates_iff_isSome.trans isSome_text_iff,
    terminates_iff_isSome.trans Option.isSome_iff_exists, fun t => ends_iff,
    fun records => textWithin_records s records _ v, ?_⟩
  rintro a rfl hterminates
  obtain ⟨t, ht⟩ := Option.isSome_iff_exists.mp (terminates_iff_isSome.mp hterminates)
  obtain ⟨texts, htexts, rfl⟩ := Option.map_eq_some_iff.mp (text_array s a ▸ ht)
  refine ⟨texts, (mapM_eq_some_iff.mp htexts).imp fun item t hitem => ?_, ht⟩
  unfold entry at hitem
  split at hitem
  · next hblank =>
    rw [if_pos hblank]
    exact (Option.some.inj hitem).symm
  · next hblank =>
    rw [if_neg hblank]
    exact hitem

/-- An array is written down although an object in it leads back to it. -/
example :
    (Store.mk ⟨#[[.int 1, .object (.record ⟨0⟩), .null]]⟩ ⟨#[[("back", .array ⟨0⟩)]]⟩).text (.array ⟨0⟩) =
      some "1,[object Object]," := rfl

end Store

end ReactiveViews
