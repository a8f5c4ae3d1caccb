import ReactiveViews.Proofs.Template.Faults
import ReactiveViews.Proofs.Value.Overwriting
import Mathlib.Data.Option.Basic

/-!
# Keys of templates that are read

An object that is read has every key once: a name that is given again keeps its place and takes the new
value. Of the other values it matters only that they are no objects, since the entries of a template are
reached through objects alone.

## What is proved

A template that is read from a text has no object with a key twice (`Template.distinct_of_ofText`).
-/

namespace ReactiveViews

/-- What does not come out of any rest of a computation does not come out of the whole. -/

theorem bind_ne_some {α β : Type} {x : Option α} {f : α → Option β} {b : β} (h : ∀ a, f a ≠ some b) :
    x.bind f ≠ some b := by
  cases x with
  | none => simp
  | some a => exact h a

namespace Json

variable {negative : Bool} {significand : Nat} {members : List (String × Json)} {rest : List Char}

/-! ### Values that are no objects -/

theorem float?_ne_object {shift written : Int} :
    float? negative significand shift written ≠ some (.object members) := by
  unfold float?
  dsimp only
  split
  · split
    · exact bind_ne_some fun _ => by simp
    · exact bind_ne_some fun _ => by simp
  · exact bind_ne_some fun _ => by simp

theorem float?_rest_ne_object {shift written : Int} {rest' : List Char} :
    ((float? negative significand shift written).bind fun x => some (x, rest)) ≠
      some (.object members, rest') := by
  intro h
  obtain ⟨x, hfloat, hx⟩ := Option.bind_eq_some_iff.mp h
  cases hx
  exact float?_ne_object hfloat

theorem integerOrFloat_ne_object {dropped rest' : List Char} :
    readUnsigned.integerOrFloat negative significand dropped rest ≠ some (.object members, rest') := by
  unfold readUnsigned.integerOrFloat
  split
  · exact float?_rest_ne_object
  · simp

/-- A number is no object. -/
theorem readUnsigned_ne_object {cs : List Char} : readUnsigned negative cs ≠ some (.object members, rest) := by
  unfold readUnsigned
  dsimp only
  refine bind_ne_some fun _ => ?_
  split
  · refine bind_ne_some fun _ => ?_
    split
    · split
      · exact bind_ne_some fun _ => float?_rest_ne_object
      · exact float?_rest_ne_object
    · exact float?_rest_ne_object
  · split
    · exact bind_ne_some fun _ => float?_rest_ne_object
    · exact integerOrFloat_ne_object
  · exact integerOrFloat_ne_object

/-- A list is no object. -/
theorem readItems_ne_object (fuel depth : Nat) (acc : List Json) (cs : List Char) :
    readItems fuel depth acc cs ≠ some (.object members, rest) := by
  induction fuel generalizing acc cs with
  | zero => simp [readItems]
  | succ fuel ih =>
    rw [readItems]
    refine bind_ne_some fun _ => ?_
    dsimp only
    split
    · exact ih _ _
    · simp
    · simp

theorem readWord_eq_some {word cs : List Char} {value v : Json} (h : readWord word value cs = some (v, rest)) :
    v = value := by
  unfold readWord at h
  split at h <;> cases h
  rfl

/-! ### Objects -/

/-- A value in which no entry has the key of one in front of it. -/
def Keyed (value : Json) : Prop := ∀ above p, Json.Reaches above value p → p.key ∉ p.before.map Prod.fst

theorem Keyed.of_ne_object {value : Json} (h : ∀ members, value ≠ .object members) : value.Keyed := by
  intro above p hreaches
  cases hreaches <;> exact absurd rfl (h _)

theorem Keyed.object (hkeys : (Fields.keys members).Nodup) (hmembers : ∀ member ∈ members, member.2.Keyed) :
    (Json.object members).Keyed := by
  rintro above p (_ | ⟨-, hinside⟩)
  · rw [Fields.keys, List.map_append, List.map_cons, List.nodup_append] at hkeys
    exact fun hmem => hkeys.2.2 _ hmem _ List.mem_cons_self rfl
  · exact hmembers _ (List.mem_append_right _ List.mem_cons_self) _ p hinside

theorem mem_put {fields : Fields Json} {key : String} {value : Json} {member : String × Json}
    (h : member ∈ fields.put key value) : member ∈ fields ∨ member.2 = value := by
  induction fields with
  | nil => simp_all [Fields.put]
  | cons head tail ih =>
    unfold Fields.put at h
    split at h <;> grind

mutual

/-- Reading gives values whose objects have every key once. -/
theorem keyed_of_readValue : (fuel depth : Nat) → {cs rest : List Char} → {value : Json} →
    readValue fuel depth cs = some (value, rest) → value.Keyed
  | 0, _, _, _, _, h => by simp [readValue] at h
  | fuel + 1, depth, cs, rest, value, h => by
    cases value with
    | object members =>
      rw [readValue] at h
      split at h
      · cases h
      · obtain ⟨_, -, h⟩ := Option.bind_eq_some_iff.mp h
        cases h
      · obtain ⟨_, -, h⟩ := Option.bind_eq_some_iff.mp h
        split at h
        · cases h
        · exact absurd h (readItems_ne_object fuel _ _ _)
      · split at h
        · obtain ⟨_, -, h⟩ := Option.bind_eq_some_iff.mp h
          split at h
          · cases h
          · split at h
            · cases h
              exact .object List.nodup_nil fun _ hmember => absurd hmember List.not_mem_nil
            · have hnone : (Fields.keys ([] : Fields Json)).Nodup := List.nodup_nil
              exact keyed_of_readMembers fuel _ hnone (fun _ hmember => absurd hmember List.not_mem_nil) h
        · split at h
          · exact absurd h readUnsigned_ne_object
          · split at h
            · exact absurd h readUnsigned_ne_object
            · split at h
              · cases readWord_eq_some h
              · split at h
                · cases readWord_eq_some h
                · split at h
                  · cases readWord_eq_some h
                  · cases h
    | _ => exact .of_ne_object fun _ heq => by cases heq

/-- Members are written into those that have been read before. -/
theorem keyed_of_readMembers : (fuel depth : Nat) → {acc : Fields Json} → {cs rest : List Char} →
    {value : Json} → acc.keys.Nodup → (∀ member ∈ acc, member.2.Keyed) →
    readMembers fuel depth acc cs = some (value, rest) → value.Keyed
  | 0, _, _, _, _, _, _, _, h => by simp [readMembers] at h
  | fuel + 1, depth, acc, cs, rest, value, hkeys, hmembers, h => by
    rw [readMembers] at h
    split at h
    · obtain ⟨⟨name, rest₁⟩, -, h⟩ := Option.bind_eq_some_iff.mp h
      dsimp only at h
      split at h
      · obtain ⟨⟨item, rest₂⟩, hitem, h⟩ := Option.bind_eq_some_iff.mp h
        have hitem := keyed_of_readValue fuel depth hitem
        have hkeys' : (acc.put name item).keys.Nodup := Fields.nodup_keys_put hkeys name item
        have hmembers' : ∀ member ∈ acc.put name item, member.2.Keyed := fun member hmember =>
          (mem_put hmember).elim (hmembers member) fun heq => heq ▸ hitem
        dsimp only at h
        split at h
        · cases h
        · split at h
          · exact keyed_of_readMembers fuel depth hkeys' hmembers' h
          · split at h
            · cases h
              exact .object hkeys' hmembers'
            · cases h
      · cases h
    · cases h

end

theorem keyed_of_read {text : String} {value : Json} (h : Json.read text = some value) : value.Keyed := by
  obtain ⟨⟨value', rest⟩, hvalue, h⟩ := Option.bind_eq_some_iff.mp h
  obtain ⟨_, -, h⟩ := Option.bind_eq_some_iff.mp h
  cases h
  exact keyed_of_readValue _ _ hvalue

end Json

/-- No object of a template that is read has a key twice. -/
theorem Template.distinct_of_ofText {text : String} {t : Template} (h : Template.ofText text = .ok t) :
    t.Distinct := by
  unfold Template.ofText at h
  split at h
  · next value hread =>
    cases value with
    | object members =>
      cases h
      exact Json.keyed_of_read hread []
    | _ => cases h
  · cases h

end ReactiveViews
