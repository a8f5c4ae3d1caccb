import Mathlib.Data.List.Infix
import ReactiveViews.Proofs.Live.Growing

/-!
# Lists, followed

An update and a drawing evaluate the lists of a node side by side. The drawing makes a new record
for each item; the update does so as well, or takes the records that it remembers. One is linked to
the other if both hold linked items, for as long as something inside of the item is looked at.

The journal tells which records were taken from memory for which array. They are the right ones if
the array still has the items that the records hold.

## What is proved

Linked items give linked contexts (`Paired.follows`), conditions have the same values in them
(`Innocent.conditions`), and the records made for linked items on both sides are paired
(`paired_of_items`).
-/

namespace ReactiveViews

variable {σ : Type}

/-! ### What is remembered is right -/

/-- Whenever since the `n`-th event an array of the store `o` was shown from memory, the records
taken for its items hold these items in `o`. -/
def Faithful (o : Store) (n : Nat) (w : World σ) : Prop :=
  ∀ a frames, .kept a frames ∈ w.history.drop n → a.row < o.arrays.size →
    List.Forall₂ (fun r v => ∃ name, o.fields r = [(name, v)]) frames (o.items a)

theorem Faithful.of_prefix {o : Store} {n : Nat} {w w' : World σ} (h : Faithful o n w')
    (hw : w.history <+: w'.history) : Faithful o n w :=
  fun a frames hmem => h a frames ((List.IsPrefix.drop hw n).subset hmem)

theorem Keeps.faithful {α : Type} {enter : Enter σ} {act : Act σ α}
    (h : Keeps Lengthens enter act) (o : Store) (n : Nat) : Reflects (Faithful o n) enter act :=
  fun w hw => hw.of_prefix (h w)

/-- The world has come from one with the store `o` and `n` events. -/
structure Since (o : Store) (n : Nat) (w : World σ) : Prop where
  /-- The store has grown. -/
  store : o.Grows w.store
  /-- The journal is not shorter. -/
  journal : n ≤ w.history.length

theorem Since.touched {o : Store} {n : Nat} {w w' : World σ} {S : ElementId → Prop}
    (h : Since o n w) (hw : Touches S w w') : Since o n w' :=
  ⟨h.store.trans hw.store, Nat.le_trans h.journal hw.history.length_le⟩

/-! ### Links that an update is followed with -/

namespace Link

/-- Nothing is linked but the data, the scopes around, and what is new since the store was `o`. -/
def Apart (ρ : Link) (D : Scene σ) (o : Store) (C : Context) : Prop :=
  ∀ r q, ρ.records r q → D.records r ∨ o.records.size ≤ r.row ∨ .object (.record r) ∈ C

/-- A link that an update inside of some scopes is followed with. -/
structure Follows (ρ : Link) (D : Scene σ) (o : Store) (n : Nat) (names : List String)
    (C C' : Context) (w s : World σ) : Prop where
  /-- Worlds and contexts are linked. -/
  tied : ρ.Tied D names C C' w s
  /-- What is remembered from before is not linked. -/
  apart : ρ.Apart D o C
  /-- Where the update comes from. -/
  since : Since o n w

variable {ρ ρ' : Link} {D : Scene σ} {o : Store} {n : Nat} {names : List String} {C C' : Context}
  {w w' s s' : World σ}

theorem Follows.course {S : ElementId → Prop} (h : ρ.Follows D o n names C C' w s)
    (hcourse : ρ.Course S ρ' w w' s s')
    (hS : ∀ e, (w.lineage e).length ≤ (Context.elements C).length → ¬ S e) :
    ρ'.Follows D o n names C C' w' s' where
  tied := ⟨h.tied.worlds.step hcourse,
    (h.tied.contexts.mono hcourse.le (List.Subset.refl _)).touched hcourse.left hS⟩
  apart r q hrq := by
    rcases hcourse.extends_.records hrq with hrq | ⟨hr, -⟩
    · exact h.apart r q hrq
    · exact .inr (.inl (Nat.le_trans h.since.store.records_le hr))
  since := h.since.touched hcourse.left

theorem Follows.step (h : ρ.Follows D o n names C C' w s) (hstep : ρ.Step ρ' w w' s s') :
    ρ'.Follows D o n names C C' w' s' := h.course hstep fun _ _ => id

theorem Follows.mono (h : ρ.Follows D o n names C C' w s) {names' : List String}
    (hnames : names' ⊆ names) : ρ.Follows D o n names' C C' w s :=
  ⟨⟨h.tied.worlds, h.tied.contexts.mono ρ.le_refl hnames⟩, h.apart, h.since⟩

/-- Inside of an element the link is one for what is around it. -/
theorem Follows.scope {m : Nat} {e : ElementId}
    (h : ρ.Follows D o n names (.object (.scope m e) :: C) C' w s) :
    w.Hides names e ∧ w.lineage e = e :: Context.elements C ∧ ρ.Follows D o n names C C' w s := by
  have hapart : ρ.Apart D o C := fun r q hrq => by
    rcases h.apart r q hrq with hr | hr | hr
    · exact .inl hr
    · exact .inr (.inl hr)
    · exact .inr (.inr ((List.mem_cons.mp hr).resolve_left (by simp)))
  cases hC : h.tied.contexts with
  | value hv => cases hv with | plain hplain => cases hplain
  | scope _ hhides hlineage hrest => exact ⟨hhides, hlineage, ⟨h.tied.worlds, hrest⟩, hapart, h.since⟩

end Link

/-! ### Linked items -/

/-- Contexts for an item inside of an element, with records that hold linked items and are not
linked themselves so far. -/
structure Paired (ρ : Link) (D : Scene σ) (w s : World σ) (name : String) (e : ElementId)
    (C C' context context' : Context) (r q : RecordId) (v u : Value) : Prop where
  /-- The context inside of the element. -/
  context_eq : ∃ m, context = .object (.record r) :: .object (.scope m e) :: C
  /-- The context without elements. -/
  context_eq' : context' = .object (.record q) :: C'
  /-- The record of the one context. -/
  left : Framed w.store D w.store name C r v
  /-- The record of the other context holds its item. -/
  right : q.row < s.store.records.size ∧ s.store.fields q = [(name, u)]
  /-- The items are linked. -/
  values : ρ.Values v u
  /-- The record of the one context is not linked. -/
  unlinked : ∀ q', ¬ ρ.records r q'
  /-- The record of the other context is not linked. -/
  unlinked' : ∀ r', ¬ ρ.records r' q

/-- Contexts for a linked item. -/
def Pairs (ρ : Link) (D : Scene σ) (w s : World σ) (name : String) (e : ElementId)
    (C C' context context' : Context) : Prop :=
  ∃ r q v u, Paired ρ D w s name e C C' context context' r q v u

theorem Pairs.step {S : ElementId → Prop} {ρ ρ' : Link} {D : Scene σ} {w w' s s' : World σ}
    {name : String} {e : ElementId} {C C' context context' : Context}
    (h : Pairs ρ D w s name e C C' context context')
    (hstep : ρ.Course S ρ' w w' s s') : Pairs ρ' D w' s' name e C C' context context' := by
  obtain ⟨r, q, v, u, hcontext, hcontext', hleft, ⟨hrange, hfields⟩, hvalues, hr, hq⟩ := h
  refine ⟨r, q, v, u, hcontext, hcontext', hleft.grow hstep.left.store (.refl _) hstep.left.store,
    ⟨Nat.lt_of_lt_of_le hrange hstep.right.store.records_le,
      (hstep.right.store.fields_eq q hrange).trans hfields⟩, hvalues.mono hstep.le, ?_, ?_⟩
  · intro q' hrq
    rcases hstep.extends_.records hrq with hrq | ⟨hnew, -⟩
    · exact hr q' hrq
    · exact Nat.lt_irrefl _ (Nat.lt_of_lt_of_le hleft.old hnew)
  · intro r' hrq
    rcases hstep.extends_.records hrq with hrq | ⟨-, hnew⟩
    · exact hq r' hrq
    · exact Nat.lt_irrefl _ (Nat.lt_of_lt_of_le hrange hnew)

/-- Linked items give linked contexts. -/
theorem Pairs.follows {ρ : Link} {D : Scene σ} {o : Store} {n : Nat} {names : List String} {m : Nat}
    {e : ElementId} {w s : World σ} {name : String} {C C' context context' : Context}
    (h : Pairs ρ D w s name e C C' context context')
    (hρ : ρ.Follows D o n names (.object (.scope m e) :: C) C' w s) :
    ∃ ρ' : Link, ρ ≤ ρ' ∧ ρ'.Follows D o n names context context' w s ∧
      ∃ r q m, context = .object (.record r) :: .object (.scope m e) :: C ∧
        context' = .object (.record q) :: C' ∧ ρ'.records r q := by
  obtain ⟨r, q, v, u, ⟨m', rfl⟩, rfl, hleft, ⟨hrange, hfields⟩, hvalues, hr, hq⟩ := h
  obtain ⟨hhides, hlineage, hC⟩ := hρ.scope
  have hle := Link.le_addRecord hr hq
  have hlinked : (ρ.addRecord r q hr hq).records r q := .inr ⟨rfl, rfl⟩
  have hstores : (ρ.addRecord r q hr hq).Stores w.store s.store :=
    hC.tied.worlds.stores.addRecord hr hq hleft.old hrange <| by
      rw [hleft.fields, hfields]
      exact .cons ⟨rfl, hvalues⟩ .nil
  have hcontexts := (hC.tied.contexts.mono hle (List.Subset.refl _)).scope m' hhides hlineage
  refine ⟨_, hle, ⟨⟨⟨Link.le_trans hC.tied.worlds.covers hle, hstores, hC.tied.worlds.level,
    hC.tied.worlds.left, hC.tied.worlds.right⟩, .value (.record hlinked) hcontexts⟩, ?_, hρ.since⟩,
    r, q, m', rfl, rfl, hlinked⟩
  rintro r' q' (hrq | ⟨rfl, rfl⟩)
  · rcases hC.apart r' q' hrq with hD | ho | hmem
    · exact .inl hD
    · exact .inr (.inl ho)
    · exact .inr (.inr (List.mem_cons_of_mem _ (List.mem_cons_of_mem _ hmem)))
  · exact .inr (.inr List.mem_cons_self)

/-- A context that stands for an item inside of an element, with a record that is not linked. -/
def Stands (ρ : Link) (D : Scene σ) (w : World σ) (name : String) (e : ElementId) (C context : Context)
    (v : Value) : Prop :=
  ∃ r, (∃ m, context = .object (.record r) :: .object (.scope m e) :: C) ∧
    Framed w.store D w.store name C r v ∧ ∀ q, ¬ ρ.records r q

/-- A context that stands for an item without elements, with a record that is not linked. -/
def Mirrors (ρ : Link) (s : World σ) (name : String) (C context : Context) (u : Value) : Prop :=
  ∃ q, context = .object (.record q) :: C ∧ (q.row < s.store.records.size ∧
    s.store.fields q = [(name, u)]) ∧ ∀ r, ¬ ρ.records r q

theorem pairs_of_items {ρ : Link} {D : Scene σ} {w s : World σ} {name : String} {e : ElementId}
    {C C' : Context} {items items' : List Value} {contexts contexts' : List Context}
    (hitems : List.Forall₂ ρ.Values items items')
    (hleft : List.Forall₂ (Stands ρ D w name e C) contexts items)
    (hright : List.Forall₂ (Mirrors ρ s name C') contexts' items') :
    List.Forall₂ (Pairs ρ D w s name e C C') contexts contexts' := by
  induction hitems generalizing contexts contexts' with
  | nil =>
    cases hleft
    cases hright
    exact .nil
  | cons hvalues _ ih =>
    cases hleft with
    | cons hcontext hleft =>
      cases hright with
      | cons hcontext' hright =>
        obtain ⟨r, heq, hframed, hr⟩ := hcontext
        obtain ⟨q, heq', hfields, hq⟩ := hcontext'
        exact .cons ⟨r, q, _, _, heq, heq', hframed, hfields, hvalues, hr, hq⟩ (ih hleft hright)

/-! ### New records for items -/

/-- Making records for items succeeds. -/
theorem runIn_frames (enter : Enter σ) (name : String) (C : Context) (items : List Value)
    (w : World σ) : ∃ contexts w', (Build.frames name C items).runIn enter w = (some contexts, w') ∧
      Touches (fun _ => False) w w' ∧
      List.Forall₂ (fun context v => ∃ r : RecordId, context = .object (.record r) :: C ∧
        w.store.records.size ≤ r.row ∧ r.row < w'.store.records.size ∧
        w'.store.fields r = [(name, v)]) contexts items := by
  induction items generalizing w with
  | nil => exact ⟨[], w, rfl, .refl w, .nil⟩
  | cons item rest ih =>
    obtain ⟨v, hv⟩ : ∃ v : World σ, v = { w with store := (w.store.newRecord [(name, item)]).2 } :=
      ⟨_, rfl⟩
    have hnew : (Act.newRecord [(name, item)]).runIn enter w =
      (some (.object (.record ⟨w.store.records.size⟩)), v) := by rw [hv]; rfl
    have htouches : Touches (fun _ => False) w v :=
      hv ▸ .of_store (w.store.newRecord_grows [(name, item)])
    have hrange : w.store.records.size < v.store.records.size := by simp [hv, Store.newRecord]
    have hfields : v.store.fields ⟨w.store.records.size⟩ = [(name, item)] :=
      hv ▸ w.store.fields_newRecord [(name, item)]
    obtain ⟨contexts, w', hrun, hw', hall⟩ := ih v
    refine ⟨(.object (.record ⟨w.store.records.size⟩) :: C) :: contexts, w', ?_, htouches.trans hw',
      .cons ⟨_, rfl, Nat.le_refl _, Nat.lt_of_lt_of_le hrange hw'.store.records_le,
        (hw'.store.fields_eq _ hrange).trans hfields⟩ (hall.imp ?_)⟩
    · rw [Build.frames, Act.runIn_bind_some hnew, Act.runIn_bind_some hrun]
      rfl
    · rintro context u ⟨r, heq, hr, hrest⟩
      exact ⟨r, heq, Nat.le_trans (Nat.le_of_lt hrange) hr, hrest⟩

theorem Link.Contexts.record {ρ : Link} {w : World σ} {names : List String} {C C' : Context}
    (h : ρ.Contexts w names C C') {r : RecordId} (hr : .object (.record r) ∈ C) :
    ∃ q, ρ.records r q := by
  induction h with
  | nil => cases hr
  | value hv _ ih =>
    rcases List.mem_cons.mp hr with rfl | hr
    · cases hv with
      | plain hplain => cases hplain
      | record hrq => exact ⟨_, hrq⟩
    · exact ih hr
  | scope m _ _ _ ih => exact ih ((List.mem_cons.mp hr).resolve_left (by simp))

/-- The update makes new records for the items. -/
theorem stands_of_frames {ρ : Link} {D : Scene σ} {o : Store} {n : Nat} {names : List String} {m : Nat}
    {e : ElementId} {w w' s : World σ} {name : String} {C C' : Context}
    (hρ : ρ.Follows D o n names (.object (.scope m e) :: C) C' w s) {items : List Value}
    {contexts : List Context}
    (h : List.Forall₂ (fun context v => ∃ r : RecordId,
      context = .object (.record r) :: .object (.scope m e) :: C ∧ w.store.records.size ≤ r.row ∧
        r.row < w'.store.records.size ∧ w'.store.fields r = [(name, v)]) contexts items) :
    List.Forall₂ (Stands ρ D w' name e C) contexts items := by
  obtain ⟨-, -, hC⟩ := hρ.scope
  refine h.imp fun context v ⟨r, heq, hnew, hrange, hfields⟩ => ?_
  have hunlinked : ∀ q, ¬ ρ.records r q := fun q hrq =>
    Nat.lt_irrefl _ (Nat.lt_of_lt_of_le (hC.tied.worlds.stores.records hrq).1 hnew)
  refine ⟨r, ⟨m, heq⟩, ⟨hrange, fun hD => ?_, fun hmem => ?_, hfields⟩, hunlinked⟩
  · exact hunlinked r (hC.tied.worlds.covers.2 r r ⟨rfl, hD⟩)
  · obtain ⟨q, hrq⟩ := hC.tied.contexts.record hmem
    exact hunlinked q hrq

/-- The drawing makes new records for the items. -/
theorem mirrors_of_frames {ρ : Link} {w s s' : World σ} {name : String} {C' : Context}
    (hρ : ρ.Stores w.store s.store) {items : List Value} {contexts : List Context}
    (h : List.Forall₂ (fun context v => ∃ q : RecordId, context = .object (.record q) :: C' ∧
      s.store.records.size ≤ q.row ∧ q.row < s'.store.records.size ∧
        s'.store.fields q = [(name, v)]) contexts items) :
    List.Forall₂ (Mirrors ρ s' name C') contexts items := by
  refine h.imp fun context u ⟨q, heq, hnew, hrange, hfields⟩ => ⟨q, heq, ⟨hrange, hfields⟩, ?_⟩
  exact fun r hrq => Nat.lt_irrefl _ (Nat.lt_of_lt_of_le (hρ.records hrq).2.1 hnew)

/-! ### Records from memory -/

/-- The contexts that a slot remembers stand for the items, if their records hold these. -/
theorem stands_of_remembered {ρ : Link} {D : Scene σ} {o : Store} {n : Nat} {names : List String}
    {m : Nat} {e : ElementId} {w s : World σ} {name : String} {C C' : Context}
    (hρ : ρ.Follows D o n names (.object (.scope m e) :: C) C' w s) {items : List Value}
    {contexts : List Context}
    (hcontexts : ∀ context ∈ contexts, ∃ r m v,
      context = .object (.record r) :: .object (.scope m e) :: C ∧ Framed w.store D o name C r v)
    (hitems : List.Forall₂ (FrontHolds w.store) contexts items) :
    List.Forall₂ (Stands ρ D w name e C) contexts items := by
  obtain ⟨-, -, hC⟩ := hρ.scope
  induction hitems with
  | nil => exact .nil
  | @cons context v rest items hfront _ ih =>
    refine .cons ?_ (ih fun context hmem => hcontexts context (List.mem_cons_of_mem _ hmem))
    obtain ⟨r, m', v', heq, hframed⟩ := hcontexts context List.mem_cons_self
    obtain ⟨r', rest', name', heq', -, hfields⟩ := hfront
    obtain rfl : r = r' := by
      rw [heq] at heq'
      simpa using (List.cons.inj heq').1
    have hv : v' = v := by
      rw [hframed.fields] at hfields
      simpa using (Prod.mk.inj (List.cons.inj hfields).1).2
    rw [hv] at hframed
    refine ⟨r, ⟨m', heq⟩, hframed.grow (.refl _) hρ.since.store hρ.since.store, fun q hrq => ?_⟩
    rcases hC.apart r q hrq with hD | hnew | hmem
    · exact hframed.apart hD
    · exact Nat.lt_irrefl _ (Nat.lt_of_lt_of_le hframed.old hnew)
    · exact hframed.other hmem

/-- Records taken for the items of an array hold these, if what is remembered is right. -/
theorem frontHolds_of_faithful {o : Store} {n : Nat} {w : World σ} (hsince : Since o n w)
    {a : ArrayId} (ha : a.row < o.arrays.size) {last : Repetition}
    (hcontexts : ∀ context ∈ last.contexts, ∃ r rest,
      context = .object (.record r) :: rest ∧ r.row < o.records.size)
    (hkept : List.Forall₂ (fun r v => ∃ name, o.fields r = [(name, v)]) last.frames (o.items a)) :
    List.Forall₂ (FrontHolds w.store) last.contexts (w.store.items a) := by
  rw [hsince.store.items_eq a ha]
  obtain ⟨list, contexts, conditions, elements⟩ := last
  unfold Repetition.frames at hkept
  dsimp only at hcontexts hkept ⊢
  generalize o.items a = items at hkept ⊢
  induction contexts generalizing items with
  | nil =>
    cases hkept
    exact .nil
  | cons context rest ih =>
    obtain ⟨r, more, rfl, hr⟩ := hcontexts context List.mem_cons_self
    cases hkept with
    | cons hfields hkept =>
      obtain ⟨name, hfields⟩ := hfields
      refine .cons ⟨r, more, name, rfl, Nat.lt_of_lt_of_le hr hsince.store.records_le, ?_⟩
        (ih (fun context hmem => hcontexts context (List.mem_cons_of_mem _ hmem)) _ hkept)
      rw [hsince.store.fields_eq r hr, hfields]

/-- Acts with answers that do not depend on links may be followed with any of them. -/
theorem Mimics.forget {α β : Type} {enter : Enter σ} {R : α → β → Prop} {ρ ρ' : Link}
    {w s : World σ} {act : Act σ α} {act' : Act σ β}
    (h : Mimics enter (fun _ => R) ρ' w s act act') (hρ : ρ.Stores w.store s.store) :
    Mimics enter (fun _ => R) ρ w s act act' :=
  Answers.imp h fun _ _ _ _ ⟨_, hstep, hR⟩ =>
    ⟨ρ, ⟨.refl _ _ _, hρ.grow hstep.left.store hstep.right.store, hstep.left, hstep.right⟩, hR⟩

theorem Act.runIn_items (enter : Enter σ) (w : World σ) (v : Value) :
    (Act.items v).runIn enter w = (some (match w.store.walk? v with
      | some items => .ok items
      | none => .error (.notIterable v.typeName)), w) := by
  unfold Act.items
  rw [Act.runIn_bind_some (Act.runIn_get enter w)]
  cases w.store.walk? v <;> rfl

/-- Linked contexts give linked lists. -/
theorem Innocent.listOf {D : Scene σ} {enter : Enter σ} (h : Innocent D enter) {ρ : Link}
    {names : List String} {w s : World σ} {C C' : Context} (hC : ρ.Tied D names C C' w s)
    {resolver : Resolver} (hnames : resolver.names ⊆ names)
    (hv : ∀ v ∈ resolver.constants, D.Holds v) :
    Answers (Result (fun x y w' s' => ∃ ρ', ρ.Step ρ' w w' s s' ∧ ρ'.Values x.1 y.1 ∧
        List.Forall₂ ρ'.Values x.2 y.2 ∧ w'.store.walk? x.1 = some x.2)
        (Touches (fun _ => False) w))
      ((Build.listOf C resolver).run.runIn enter w)
      ((Build.listOf C' resolver).run.runIn enter s) := by
  unfold Build.listOf
  rw [ExceptT.run_bind, ExceptT.run_bind]
  refine Answers.bind (Mimics.eval (h.resolve hC resolver hnames hv)) ?_
  rintro x y w₁ s₁ - ⟨ρ₁, hstep, hxy⟩
  cases hxy with
  | error e e' => exact .both ⟨.error e e', fun _ => hstep.left⟩
  | @ok list list' hlist =>
    have hitems : ∀ (w : World σ) (list : Value),
        (ExceptT.run do
          let items ← Build.eval (Act.items list)
          return (list, items) : Act σ (Except ViewError (Value × List Value))).runIn enter w =
        (some (match w.store.walk? list with
          | some items => .ok (list, items)
          | none => .error (.eval (.notIterable list.typeName))), w) := by
      intro w list
      rw [ExceptT.run_bind]
      show ((Except.mapError ViewError.eval <$> Act.items list) >>= _).runIn enter w = _
      rw [map_eq_pure_bind, bind_assoc, Act.runIn_bind_some (Act.runIn_items enter w list)]
      cases w.store.walk? list <;> rfl
    dsimp only
    rw [hitems, hitems]
    have hwalk := hstep.stores.walk? hlist
    cases hleft : w₁.store.walk? list with
    | none =>
      rw [hleft] at hwalk
      cases hright : s₁.store.walk? list' with
      | none => exact .both ⟨.error _ _, fun _ => hstep.left⟩
      | some items' =>
        rw [hright] at hwalk
        cases hwalk
    | some items =>
      rw [hleft] at hwalk
      cases hright : s₁.store.walk? list' with
      | none =>
        rw [hright] at hwalk
        cases hwalk
      | some items' =>
        rw [hright] at hwalk
        cases hwalk with
        | some hall => exact .both ⟨.ok ⟨ρ₁, hstep, hlist, hall, hleft⟩, fun h => by cases h⟩

/-- Conditions have the same values for linked items. -/
theorem Innocent.conditions {D : Scene σ} {enter : Enter σ} (h : Innocent D enter) {ρ : Link}
    {o : Store} {n : Nat} {names : List String} {m : Nat} {e : ElementId} {w s : World σ}
    {name : String} {C C' : Context}
    (hρ : ρ.Follows D o n names (.object (.scope m e) :: C) C' w s) {node : Node Resolver}
    (hnames : ∀ condition ∈ node.condition, condition.names ⊆ names)
    (hv : ∀ condition ∈ node.condition, ∀ v ∈ condition.constants, D.Holds v)
    {contexts contexts' : List Context}
    (hpairs : List.Forall₂ (Pairs ρ D w s name e C C') contexts contexts') :
    Mimics enter (fun _ => Outcomes Eq) ρ w s (Build.conditions node contexts).run
      (Build.conditions node contexts').run := by
  induction contexts generalizing contexts' ρ w s with
  | nil =>
    cases hpairs
    exact .pureE (V := fun _ => Eq) hρ.tied.worlds.stores rfl
  | cons context rest ih =>
    cases hpairs with
    | cons hpair hrest =>
      obtain ⟨ρ', -, hρ', -⟩ := hpair.follows hρ
      have hshows := (h.shows hρ'.tied node hnames hv).forget hρ.tied.worlds.stores
      refine Mimics.bindE (Mimics.eval hshows) fun ρ₁ w₁ s₁ b b' hstep hb => ?_
      have hmore := ih (hρ.step hstep) (hrest.imp fun _ _ hpair => hpair.step hstep)
      refine Mimics.bindE hmore fun ρ₂ w₂ s₂ bs bs' hstep' hbs => ?_
      exact .pureE (V := fun _ => Eq) hstep'.stores (by rw [hb, hbs])

end ReactiveViews
