import ReactiveViews.Proofs.Live.Comparison

/-!
# Evaluation in linked contexts

An expression asks the scopes for the names at the beginning of its chains and for nothing else,
and takes from elsewhere only its constants and what functions and objects of the host program
answer. If those only look, and answer the same when they see the same, an expression has the same
value in linked contexts.

## What is proved

Evaluation in a context mimics evaluation in a linked context (`Innocent.resolve`,
`Innocent.shows`): both succeed with linked values, both fail, or neither ends.
-/

namespace ReactiveViews

variable {σ : Type}

/-! ### Functions and objects that only look -/

/-- Functions and objects of the host program touch nothing, and answer the same to those who
cannot be told apart, except for what they make anew. -/
structure Innocent (D : Scene σ) (enter : Enter σ) : Prop where
  /-- Functions are applied. -/
  apply : ∀ {ρ : Link} {w s : World σ}, ρ.Worlds D w s → ∀ (f : Function) {v v' : Value}
    {args args' : List Value}, ρ.Values v v' → List.Forall₂ ρ.Values args args' →
    Mimics enter (fun ρ => Outcomes ρ.Values) ρ w s (Act.enterHost (.apply f v args))
      (Act.enterHost (.apply f v' args'))
  /-- Properties of objects are read. -/
  getOwn : ∀ {ρ : Link} {w s : World σ}, ρ.Worlds D w s → ∀ (object : Nat) (key : String),
    Mimics enter (fun ρ => Option.Rel ρ.Values) ρ w s (Act.enterHost (.getOwn object key))
      (Act.enterHost (.getOwn object key))

namespace Link

/-- Linked worlds with linked contexts in them. -/
structure Tied (ρ : Link) (D : Scene σ) (names : List String) (C C' : Context) (w s : World σ) :
    Prop where
  /-- The worlds. -/
  worlds : ρ.Worlds D w s
  /-- The contexts. -/
  contexts : ρ.Contexts w names C C'

theorem Tied.step {ρ ρ' : Link} {D : Scene σ} {names : List String} {C C' : Context}
    {w w' s s' : World σ} (h : ρ.Tied D names C C' w s) (hstep : ρ.Step ρ' w w' s s') :
    ρ'.Tied D names C C' w' s' := ⟨h.worlds.step hstep, h.contexts.step hstep⟩

end Link

/-! ### Names that an element does not own -/

namespace Act

variable {enter : Enter σ} {w : World σ}

/-- An element that hides a name owns nothing defined under it. -/
theorem runIn_getOwn_scope (enter : Enter σ) {names : List String} {e : ElementId}
    (h : w.Hides names e) (m : Nat) {name : String} (hname : name ∈ names) :
    ∃ owned, (owned = none ∨ owned = some .undefined) ∧
      (getOwn (.object (.scope m e)) name).runIn enter w = (some owned, w) := by
  obtain ⟨x, c, hx, hcomponent, hbusy, hnone⟩ := h
  obtain ⟨htag, hkeys⟩ := hnone name hname
  have halive : (alive e).runIn enter w = (some (w.alive e), w) := rfl
  show ∃ owned, _ ∧ (scopeGetOwn e name).runIn enter w = _
  rw [scopeGetOwn, runIn_bind_some halive]
  cases w.alive e with
  | false => exact ⟨none, .inl rfl, rfl⟩
  | true =>
    refine ⟨some .undefined, .inr rfl, ?_⟩
    rw [if_pos rfl, runIn_bind_some (runIn_element hx), if_neg htag, hbusy, hcomponent]
    have hvalue : c.attributeValue name = .undefined := by
      rw [Headless.attributeValue, Fields.get?_eq_none_iff.mpr hkeys]
      rfl
    show (some (some (c.attributeValue name)), { w with held := (e :: w.held).erase e }) = _
    rw [hvalue, List.erase_cons_head]

end Act

/-! ### Evaluation -/

theorem Mimics.left {α β γ : Type} {enter : Enter σ} {V : Link → α → β → Prop} {ρ : Link}
    {w s : World σ} {act : Act σ γ} {f : γ → Act σ α} {act' : Act σ β} {c : γ}
    (hrun : act.runIn enter w = (some c, w)) (h : Mimics enter V ρ w s (f c) act') :
    Mimics enter V ρ w s (act >>= f) act' := by
  unfold Mimics
  rw [Act.runIn_bind_some hrun]
  exact h

theorem Mimics.get {α β : Type} {enter : Enter σ} {V : Link → α → β → Prop} {ρ : Link}
    {w s : World σ} {f : World σ → Act σ α} {g : World σ → Act σ β}
    (h : Mimics enter V ρ w s (f w) (g s)) :
    Mimics enter V ρ w s (MonadState.get >>= f) (MonadState.get >>= g) := by
  unfold Mimics
  rw [Act.runIn_bind_some (Act.runIn_get enter w), Act.runIn_bind_some (Act.runIn_get enter s)]
  exact h

theorem Mimics.text {enter : Enter σ} {ρ : Link} {w s : World σ}
    (h : ρ.Stores w.store s.store) {v v' : Value} (hv : ρ.Values v v') :
    Mimics enter (fun _ => Eq) ρ w s (Act.text v) (Act.text v') := by
  unfold Act.text
  refine Mimics.get ?_
  rw [h.text_eq hv]
  cases s.store.text v' with
  | none => exact .never
  | some t => exact .pure h rfl

namespace Innocent

variable {D : Scene σ} {enter : Enter σ} {ρ : Link} {w s : World σ} {names : List String}
  {C C' : Context}

theorem ownProperty (h : Innocent D enter) (hw : ρ.Worlds D w s) {v v' : Value}
    (hv : ρ.Values v v') (key : String) :
    Mimics enter (fun ρ => Option.Rel ρ.Values) ρ w s (Act.getOwn v key) (Act.getOwn v' key) := by
  cases hv with
  | array hab => exact .both ⟨ρ, .refl hw.stores, Link.sequenceProperty (hw.stores.arrays hab).2.2 key⟩
  | record hrq => exact .both ⟨ρ, .refl hw.stores, (hw.stores.records hrq).2.2.get? key⟩
  | @plain v hplain =>
    cases v with
    | array => cases hplain
    | str text =>
      refine .both ⟨ρ, .refl hw.stores, Link.sequenceProperty (List.forall₂_same.mpr ?_) key⟩
      intro v hv
      obtain ⟨c, -, rfl⟩ := List.mem_map.mp hv
      exact .plain rfl
    | object o =>
      cases o with
      | record => cases hplain
      | scope => cases hplain
      | foreign n type => exact h.getOwn hw n key
    | _ => exact .pure hw.stores .none

theorem named (h : Innocent D enter) (hw : ρ.Worlds D w s) {v v' : Value} (hv : ρ.Values v v')
    (key : String) :
    Mimics enter (fun ρ => ρ.Values) ρ w s (Act.getNamed v key) (Act.getNamed v' key) := by
  refine (h.ownProperty hw hv key).bind fun ρ' w' s' a b hstep hab => .pure hstep.stores ?_
  cases hab with
  | none => exact .plain rfl
  | some hv => exact hv

theorem keyed (h : Innocent D enter) (hw : ρ.Worlds D w s) {v v' key key' : Value}
    (hv : ρ.Values v v') (hkey : ρ.Values key key') :
    Mimics enter (fun ρ => ρ.Values) ρ w s (Act.getKeyed v key) (Act.getKeyed v' key') := by
  refine (Mimics.text hw.stores hkey).bind fun ρ' w' s' t t' hstep ht => ?_
  rw [ht]
  exact h.named (hw.step hstep) (hv.mono hstep.le) t'

/-- Looking a name up passes over the elements. -/
theorem lookup (h : Innocent D enter) (hC : ρ.Tied D names C C' w s) {name : String}
    (hname : name ∈ names) :
    Mimics enter (fun ρ => Option.Rel fun x y => ρ.Values x.1 y.1 ∧ ρ.Values x.2 y.2) ρ w s
      (Act.lookup name C) (Act.lookup name C') := by
  induction C generalizing C' ρ w s with
  | nil =>
    cases hC.contexts with
    | nil => exact .pure hC.worlds.stores .none
  | cons scope rest ih =>
    obtain ⟨hw, hC⟩ := hC
    cases hC with
    | scope m hhides _ hrest =>
      obtain ⟨owned, howned, hrun⟩ := Act.runIn_getOwn_scope enter hhides m hname
      refine Mimics.left hrun ?_
      rcases howned with rfl | rfl
      · exact ih ⟨hw, hrest⟩
      · exact ih ⟨hw, hrest⟩
    | value hv hrest =>
      refine (h.ownProperty hw hv name).bind fun ρ' w' s' a b hstep hab => ?_
      have hfound := ih ⟨hw.step hstep, hrest.step hstep⟩
      cases hab with
      | none => exact hfound
      | @some x y hxy =>
        have hscope := Link.Values.mono hstep.le hv
        cases hxy with
        | plain hplain =>
          cases x with
          | undefined => exact hfound
          | _ => exact .pure hstep.stores (.some ⟨hscope, .plain hplain⟩)
        | array hab => exact .pure hstep.stores (.some ⟨hscope, .array hab⟩)
        | record hrq => exact .pure hstep.stores (.some ⟨hscope, .record hrq⟩)

theorem newArray (hw : ρ.Worlds D w s) {items items' : List Value}
    (hitems : List.Forall₂ ρ.Values items items') :
    Mimics enter (fun ρ => ρ.Values) ρ w s (Act.newArray items) (Act.newArray items') := by
  obtain ⟨ρ', hextends, hstores, hab⟩ := hw.stores.newArray hitems
  have hleft := Touches.of_store (w := w) (S := fun _ => False) (w.store.newArray_grows items)
  have hright := Touches.of_store (w := s) (S := fun _ => False) (s.store.newArray_grows items')
  exact .both ⟨ρ', ⟨hextends, hstores, hleft, hright⟩, .array hab⟩

/-- Linked contexts are read in the same way. -/
theorem reads (h : Innocent D enter) (C C' : Context) (names : List String) :
    Bond.Reads Link.bond enter (fun ρ => ρ.Tied D names C C') C C' names [] D.Holds where
  meets hC := hC.worlds.stores
  goes hstep hC := hC.step hstep
  known hC hv := hC.worlds.held hv
  lookup hC hname := by
    refine Answers.imp (h.lookup hC hname) fun _ _ _ _ ⟨ρ', hstep, hfound⟩ => ⟨ρ', hstep, ?_⟩
    cases hfound with
    | none => exact .none
    | some hxy => exact .some ⟨hxy.2, .inr (.inl hxy.1)⟩
  keyed hC hv hkey := h.keyed hC.worlds hv hkey
  newArray hC hitems := newArray hC.worlds hitems
  apply f _ _ _ _ hC hv hargs := h.apply hC.worlds f hv hargs
  text hC hv := Mimics.text hC.worlds.stores hv

/-- A directive has linked values in linked contexts. -/
theorem resolve (h : Innocent D enter) (hC : ρ.Tied D names C C' w s) (resolver : Resolver)
    (hnames : resolver.names ⊆ names) (hv : ∀ v ∈ resolver.constants, D.Holds v) :
    Mimics enter (fun ρ => Outcomes ρ.Values) ρ w s (Eval.resolve C resolver).run
      (Eval.resolve C' resolver).run :=
  (h.reads C C' names).resolve hC resolver hnames (fun _ _ => List.not_mem_nil) hv

/-- A node is shown in both of two linked contexts or in neither. -/
theorem shows (h : Innocent D enter) (hC : ρ.Tied D names C C' w s) (node : Node Resolver)
    (hnames : ∀ condition ∈ node.condition, condition.names ⊆ names)
    (hv : ∀ condition ∈ node.condition, ∀ v ∈ condition.constants, D.Holds v) :
    Mimics enter (fun _ => Outcomes Eq) ρ w s (Eval.shows C node).run (Eval.shows C' node).run :=
  (h.reads C C' names).shows hC node hnames (fun _ _ _ _ => List.not_mem_nil) hv

end Innocent

end ReactiveViews
