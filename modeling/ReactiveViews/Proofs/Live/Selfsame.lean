import ReactiveViews.Proofs.Live.Pairing

/-!
# What stands for itself

When one run goes on where another one has ended, both find the same arrays and records in front of
them, and make new ones of their own. A link between such runs *straddles* the end of the first: things
that were there stand for themselves, and what the second run makes stands for something that the first
has made.

What an update finds in a tree and does not evaluate anew has to stand for itself: the attributes that
are not bound, the lists that slots remember, and the contexts of their items. A tree is *kept* if all
that it remembers does.

## What is proved

What the first run makes and the second one finds can be linked with itself (`Link.Straddles.widen`).
A tree is kept for as long as none of its elements is touched (`Kept.touched`).
-/

namespace ReactiveViews

variable {σ : Type}

namespace Link

variable {ρ ρ' ρ₁ : Link} {o s s' t t' : Store} {v v' : Value}

/-- The things that stand for themselves. -/
def diag (ρ : Link) : Region := ⟨fun a => ρ.arrays a a, fun r => ρ.records r r⟩

theorem diag_mono (h : ρ ≤ ρ') : ρ.diag.link ≤ ρ'.diag.link :=
  ⟨fun _ _ hab => ⟨hab.1, h.1 _ _ hab.2⟩, fun _ _ hrq => ⟨hrq.1, h.2 _ _ hrq.2⟩⟩

/-- What a region is linked with is part of it. -/
theorem le_diag {D : Region} (h : D.link ≤ ρ) : D.link ≤ ρ.diag.link := by
  refine ⟨?_, ?_⟩
  · rintro a _ ⟨rfl, ha⟩
    exact ⟨rfl, h.1 a a ⟨rfl, ha⟩⟩
  · rintro r _ ⟨rfl, hr⟩
    exact ⟨rfl, h.2 r r ⟨rfl, hr⟩⟩

theorem Values.diag (h : ρ.Values v v) : ρ.diag.link.Values v v := by
  cases h with
  | plain hplain => exact .plain hplain
  | array hab => exact .array ⟨rfl, hab⟩
  | record hrq => exact .record ⟨rfl, hrq⟩

/-- A value stands for at most one. -/
theorem Values.unique {u : Value} (h : ρ.Values u v) (h' : ρ.Values u v') : v = v' := by
  cases h with
  | @plain u hplain =>
    cases h' with
    | plain => rfl
    | array => cases hplain
    | record => cases hplain
  | array hab =>
    cases h' with
    | plain hplain => cases hplain
    | array hab' => rw [(ρ.arrays_iff hab hab').mp rfl]
  | record hrq =>
    cases h' with
    | plain hplain => cases hplain
    | record hrq' => rw [(ρ.records_iff hrq hrq').mp rfl]

theorem forall₂_diag {l : List Value} (h : List.Forall₂ ρ.Values l l) :
    List.Forall₂ ρ.diag.link.Values l l :=
  List.forall₂_same.mpr fun v hv => (List.forall₂_same.mp h v hv).diag

/-- What stands for itself holds things that stand for themselves. -/
theorem Stores.closed_diag (h : ρ.Stores s s') (hs : s.Grows s') : ρ.diag.Closed s where
  arrays := by
    rintro a _ ⟨rfl, ha⟩
    obtain ⟨hrow, -, hitems⟩ := h.arrays ha
    rw [hs.items_eq a hrow] at hitems
    exact ⟨hrow, hrow, forall₂_diag hitems⟩
  records := by
    rintro r _ ⟨rfl, hr⟩
    obtain ⟨hrow, -, hfields⟩ := h.records hr
    rw [hs.fields_eq r hrow] at hfields
    exact ⟨hrow, hrow, List.forall₂_same.mpr fun entry hentry =>
      ⟨rfl, (List.forall₂_same.mp hfields entry hentry).2.diag⟩⟩

/-! ### Links that straddle -/

/-- Things stand for themselves, or for something that is new. -/
structure Straddles (ρ : Link) (o : Store) : Prop where
  /-- Arrays. -/
  arrays : ∀ {a b}, ρ.arrays a b → a = b ∨ o.arrays.size ≤ b.row
  /-- Records. -/
  records : ∀ {r q}, ρ.records r q → r = q ∨ o.records.size ≤ q.row

namespace Straddles

theorem link (D : Region) (o : Store) : D.link.Straddles o := ⟨fun h => .inl h.1, fun h => .inl h.1⟩

theorem extended (h : ρ.Straddles o) (hextends : ρ.Extends ρ' s s') (ho : o.Grows s') :
    ρ'.Straddles o where
  arrays hab := by
    rcases hextends.arrays hab with hab | ⟨-, hb⟩
    · exact h.arrays hab
    · exact .inr (Nat.le_trans ho.arrays_le hb)
  records hrq := by
    rcases hextends.records hrq with hrq | ⟨-, hq⟩
    · exact h.records hrq
    · exact .inr (Nat.le_trans ho.records_le hq)

/-- A pairing stays one if things that are in none of its pairs are paired with themselves. -/
theorem pairing_widened {α : Type} {R : α → α → Prop} {N : α → Prop}
    (hR : ∀ {a b a' b'}, R a b → R a' b' → (a = a' ↔ b = b'))
    (hapart : ∀ {a b c}, R a b → N c → a ≠ c ∧ b ≠ c) {a b a' b' : α} (hab : R a b ∨ a = b ∧ N a)
    (hab' : R a' b' ∨ a' = b' ∧ N a') : a = a' ↔ b = b' := by
  rcases hab with hab | ⟨rfl, ha⟩ <;> rcases hab' with hab' | ⟨rfl, ha'⟩
  · exact hR hab hab'
  · exact iff_of_false (hapart hab ha').1 (hapart hab ha').2
  · exact iff_of_false (hapart hab' ha).1.symm (hapart hab' ha).2.symm
  · exact Iff.rfl

/-- The link that says of new things in addition that they stand for themselves. -/
def widened (h : ρ.Straddles o) (hstores : ρ.Stores t s) (hstores' : ρ₁.Stores t' t') (ho : t'.Grows o) :
    Link where
  arrays a b := ρ.arrays a b ∨ a = b ∧ ρ₁.arrays a a ∧ t.arrays.size ≤ a.row
  records r q := ρ.records r q ∨ r = q ∧ ρ₁.records r r ∧ t.records.size ≤ r.row
  arrays_iff := pairing_widened ρ.arrays_iff
    (N := fun a => ρ₁.arrays a a ∧ t.arrays.size ≤ a.row) fun {a b c} hab hc => by
    have ha := (hstores.arrays hab).1
    have hrow := Nat.lt_of_lt_of_le (hstores'.arrays hc.1).1 ho.arrays_le
    refine ⟨fun heq => absurd (heq ▸ ha) (Nat.not_lt.mpr hc.2), fun heq => ?_⟩
    rcases h.arrays hab with rfl | hb
    · exact absurd (heq ▸ ha) (Nat.not_lt.mpr hc.2)
    · exact absurd hrow (Nat.not_lt.mpr (heq ▸ hb))
  records_iff := pairing_widened ρ.records_iff
    (N := fun r => ρ₁.records r r ∧ t.records.size ≤ r.row) fun {r q c} hrq hc => by
    have hr := (hstores.records hrq).1
    have hrow := Nat.lt_of_lt_of_le (hstores'.records hc.1).1 ho.records_le
    refine ⟨fun heq => absurd (heq ▸ hr) (Nat.not_lt.mpr hc.2), fun heq => ?_⟩
    rcases h.records hrq with rfl | hq
    · exact absurd (heq ▸ hr) (Nat.not_lt.mpr hc.2)
    · exact absurd hrow (Nat.not_lt.mpr (heq ▸ hq))

/-- What the first run makes while it follows itself, and the second one finds, stands for itself. -/
theorem widen (h : ρ.Straddles o) (hstores : ρ.Stores t s) (hextends : ρ.diag.link.Extends ρ₁ t t)
    (hstores' : ρ₁.Stores t' t') (ht : t.Grows t') (ho : t'.Grows o) (hs : o.Grows s) :
    ∃ ρ', ρ ≤ ρ' ∧ ρ'.Straddles o ∧ ρ'.Stores t' s ∧ ∀ v, ρ₁.Values v v → ρ'.Values v v := by
  have hle : ρ ≤ h.widened hstores hstores' ho := ⟨fun _ _ => .inl, fun _ _ => .inl⟩
  have hvalues : ∀ v, ρ₁.Values v v → (h.widened hstores hstores' ho).Values v v := by
    intro v hv
    cases hv with
    | plain hplain => exact .plain hplain
    | array hab =>
      rcases hextends.arrays hab with ⟨-, ha⟩ | ⟨hnew, -⟩
      · exact .array (.inl ha)
      · exact .array (.inr ⟨rfl, hab, hnew⟩)
    | record hrq =>
      rcases hextends.records hrq with ⟨-, hr⟩ | ⟨hnew, -⟩
      · exact .record (.inl hr)
      · exact .record (.inr ⟨rfl, hrq, hnew⟩)
  have hold := hstores.grow ht (.refl s)
  have hnew := ho.trans hs
  refine ⟨h.widened hstores hstores' ho, hle, ⟨?_, ?_⟩, ⟨?_, ?_⟩, hvalues⟩
  · rintro a b (hab | ⟨rfl, -⟩)
    · exact h.arrays hab
    · exact .inl rfl
  · rintro r q (hrq | ⟨rfl, -⟩)
    · exact h.records hrq
    · exact .inl rfl
  · rintro a b (hab | ⟨rfl, ha, -⟩)
    · obtain ⟨hrow, hrow', hitems⟩ := hold.arrays hab
      exact ⟨hrow, hrow', hitems.imp fun _ _ hv => hv.mono hle⟩
    · obtain ⟨hrow, -, hitems⟩ := hstores'.arrays ha
      rw [hnew.items_eq a hrow]
      exact ⟨hrow, Nat.lt_of_lt_of_le hrow hnew.arrays_le,
        List.forall₂_same.mpr fun v hv => hvalues v (List.forall₂_same.mp hitems v hv)⟩
  · rintro r q (hrq | ⟨rfl, hr, -⟩)
    · obtain ⟨hrow, hrow', hfields⟩ := hold.records hrq
      exact ⟨hrow, hrow', hfields.mono hle⟩
    · obtain ⟨hrow, -, hfields⟩ := hstores'.records hr
      rw [hnew.fields_eq r hrow]
      exact ⟨hrow, Nat.lt_of_lt_of_le hrow hnew.records_le, List.forall₂_same.mpr fun entry hentry =>
        ⟨rfl, hvalues _ (List.forall₂_same.mp hfields entry hentry).2⟩⟩

end Straddles

/-! ### A run and itself -/

section

variable {w w' w₁ : World σ} {D : Scene σ} {asked : String → Prop} {loose : List String} {C : Context}

/-- What stands for itself goes on to do so. -/
theorem Near.diag_pace {s₁ : World σ} (hnear : ρ.diag.link.Near D asked loose C C w w) (hle : ρ ≤ ρ')
    (hstores : ρ'.Stores w'.store s₁.store) (hgrows : w'.store.Grows s₁.store)
    (hw : Leaves (Context.elements C).length w w') : ρ'.diag.link.Near D asked loose C C w' w' :=
  hnear.pace ⟨diag_mono hle, hstores.closed_diag hgrows, hw, hw⟩

end

/-- What a slot remembers of a list stands for itself. -/
structure Retains (ρ : Link) (e : ElementId) (C : Context) (last : Repetition) : Prop where
  /-- The list. -/
  list : ρ.Values last.list last.list
  /-- The contexts of the items, apart from the scopes around. -/
  contexts : ∀ context ∈ last.contexts, ρ.Fronts e e C C context context

theorem Retains.mono {e : ElementId} {C : Context} {last : Repetition} (h : ρ.Retains e C last)
    (hle : ρ ≤ ρ') : ρ'.Retains e C last where
  list := h.list.mono hle
  contexts context hmem := (h.contexts context hmem).mono hle

end Link

/-! ### Trees that are kept -/

/-- A tree of a node in which everything that is not evaluated by an update stands for itself. -/
inductive Kept (ρ : Link) (w : World σ) : Node Resolver → ElementId → Prop where
  /-- An element with kept trees in its slots. -/
  | intro {node : Node Resolver} {e : ElementId} {x : Element} {h : Headless} :
    w.elements.get? e.row = some x → x.component = .headless h →
    (∀ name v, name ∉ node.bind.map (·.1) → h.attributes.get? name = some v → ρ.Values v v) →
    (∀ slot ∈ x.slots, ∀ last, slot.memory = .repeated (some last) → ρ.Retains e x.context last) →
    (∀ slot ∈ x.slots, ∀ c ∈ slot.elements, Kept ρ w slot.node c) → Kept ρ w node e

/-- What is in a slot stands for itself, and is kept trees. -/
structure Hoard (ρ : Link) (w : World σ) (e : ElementId) (C : Context) (slot : Slot) : Prop where
  /-- What is remembered. -/
  retains : ∀ last, slot.memory = .repeated (some last) → ρ.Retains e C last
  /-- The trees. -/
  kept : ∀ c ∈ slot.elements, Kept ρ w slot.node c

namespace Kept

variable {ρ ρ' : Link} {w w' : World σ} {node : Node Resolver} {e : ElementId}

theorem inspect (h : Kept ρ w node e) : ∃ x c, w.elements.get? e.row = some x ∧
    x.component = .headless c ∧
    (∀ name v, name ∉ node.bind.map (·.1) → c.attributes.get? name = some v → ρ.Values v v) ∧
    ∀ slot ∈ x.slots, Hoard ρ w e x.context slot := by
  cases h with
  | intro hx hc hattributes hretains hkept =>
    exact ⟨_, _, hx, hc, hattributes, fun slot hslot => ⟨hretains slot hslot, hkept slot hslot⟩⟩

theorem mono (h : Kept ρ w node e) (hle : ρ ≤ ρ') : Kept ρ' w node e := by
  induction h with
  | intro hx hc hattributes hretains _ ih =>
    exact .intro hx hc (fun name v hname hv => (hattributes name v hname hv).mono hle)
      (fun slot hslot last hlast => (hretains slot hslot last hlast).mono hle) ih

/-- A tree is kept if no element of it is touched. -/
theorem touched {S : ElementId → Prop} (h : Kept ρ w node e) (hstanding : Standing w node e)
    (hw : Touches S w w') (hS : ∀ x, w.Below e x → ¬ S x) : Kept ρ w' node e := by
  induction h with
  | @intro node e x c hx hc hattributes hretains _ ih =>
    obtain ⟨x', hnursed, -⟩ := hstanding.inspect
    obtain rfl : x = x' := Option.some.inj (hx.symm.trans hnursed.get)
    refine .intro (hw.get? hx (hS e (.refl w e))) hc hattributes hretains fun slot hslot c hc => ?_
    refine ih slot hslot c hc ((hnursed.limbs slot hslot).standing c hc) fun y hy => hS y (.trans ?_ hy)
    exact (hnursed.inside (List.mem_flatMap.mpr ⟨slot, hslot, hc⟩)).below

/-- A new element whose attributes stand for themselves is kept. -/
theorem of_cognate {C : Context} (h : ρ.Cognate w w node C C e e) : Kept ρ w node e := by
  obtain ⟨x, x', c, c', hx, hx', hc, hc', hfields⟩ := h
  obtain rfl : x = x' := Option.some.inj (hx.get.symm.trans hx'.get)
  obtain rfl : c = c' := Component.headless.inj (hc.symm.trans hc')
  refine .intro hx.get hc (fun name v _ hv => ?_) (fun slot hslot last hlast => ?_)
    fun slot hslot c hmem => ?_
  · have hrel := hfields.get? name
    rw [hv] at hrel
    cases hrel with
    | some hvalues => exact hvalues
  · rw [hx.slots] at hslot
    obtain ⟨child, -, rfl⟩ := List.mem_map.mp hslot
    unfold Slot.fresh at hlast
    split at hlast <;> cases hlast
  · rw [hx.slots] at hslot
    obtain ⟨child, -, rfl⟩ := List.mem_map.mp hslot
    rw [Slot.elements_fresh] at hmem
    cases hmem

end Kept

theorem Hoard.touched {S : ElementId → Prop} {ρ ρ' : Link} {w w' : World σ} {e : ElementId} {C : Context}
    {slot : Slot} (h : Hoard ρ w e C slot) (hlimb : Limb w e C slot) (hle : ρ ≤ ρ') (hw : Touches S w w')
    (hS : ∀ c ∈ slot.elements, ∀ x, w.Below c x → ¬ S x) : Hoard ρ' w' e C slot where
  retains last hlast := (h.retains last hlast).mono hle
  kept c hc := ((h.kept c hc).mono hle).touched (hlimb.standing c hc) hw (hS c hc)

/-! ### Trees that are the same in two worlds -/

/-- The elements of a tree in one world are as they are in another. -/
def World.Alike (w s : World σ) (e : ElementId) : Prop :=
  ∀ y x, w.Below e y → w.elements.get? y.row = some x → s.elements.get? y.row = some x

namespace World.Alike

variable {w w' s s' : World σ} {node : Node Resolver} {e c : ElementId}

theorem below (h : w.Alike s e) (hc : w.Below e c) : w.Alike s c := fun y x hy hx => h y x (hc.trans hy) hx

/-- Nothing in the tree has been touched in the one world until then. -/
theorem before {S : ElementId → Prop} (h : w'.Alike s e) (he : ∃ x, w.elements.get? e.row = some x)
    (hw : Touches S w w') (hS : ∀ y, w.Below e y → ¬ S y) : w.Alike s e := fun y x hy hx =>
  h y x ((hw.below he ⟨x, hx⟩).mpr hy) (hw.get? hx (hS y hy))

theorem standing (h : w.Alike s e) (hstanding : Standing w node e) : Standing s node e :=
  hstanding.unchanged fun y x hy hx => h y x (hstanding.below_of_encloses hy) hx

end World.Alike

end ReactiveViews
