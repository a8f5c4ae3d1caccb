import ReactiveViews.Proofs.Live.Elements

/-!
# Functions that do nothing but look

Functions, objects and components of the host program are *harmless* if whatever is asked of them
changes nothing: no element is touched, the same elements are held, and nothing is requested. Then the
same is true of every evaluation, in whatever scopes, since evaluations do nothing else but make new
arrays.

An evaluation is compared with itself to see this; so nothing has to be said of what it looks up.
-/

namespace ReactiveViews

variable {σ α β ε : Type}

/-- The world goes on: of the elements that there were only some have been touched, some are held in
addition, and nothing has been requested. -/
structure Proceeds (S : ElementId → Prop) (es : List ElementId) (w w' : World σ) : Prop where
  /-- What has been touched. -/
  touches : Touches S w w'
  /-- What is held. -/
  held : w'.held = es ++ w.held
  /-- The schedulers. -/
  schedulers : w'.schedulers = w.schedulers
  /-- The receivers. -/
  receivers : w'.receivers = w.receivers

/-- Someone has looked at the world: there is more in the store and in the journal, and the rest is
what it was. -/
abbrev Looked : World σ → World σ → Prop := Proceeds (fun _ => False) []

/-- When the act answers, someone has looked at the world and done nothing else. -/
def Looks (enter : Enter σ) (act : Act σ α) : Prop :=
  ∀ w a w', act.runIn enter w = (some a, w') → Looked w w'

/-- Functions, objects and components of the host program do nothing but look. -/
structure Harmless (enter : Enter σ) : Prop where
  /-- Functions are applied. -/
  apply : ∀ (f : Function) (receiver : Value) (args : List Value),
    Looks enter (Act.enterHost (.apply f receiver args))
  /-- Properties of objects are read. -/
  getOwn : ∀ (object : Nat) (key : String), Looks enter (Act.enterHost (.getOwn object key))
  /-- Attributes of components are read. -/
  getAttribute : ∀ (component : Nat) (name : String),
    Looks enter (Act.enterHost (.getAttribute component name))

namespace Proceeds

variable {S T : ElementId → Prop} {es es' : List ElementId} {u v w : World σ}

theorem refl (w : World σ) : Proceeds S [] w w := ⟨.refl w, rfl, rfl, rfl⟩

theorem trans (h : Proceeds S es u v) (h' : Proceeds S es' v w) : Proceeds S (es' ++ es) u w :=
  ⟨h.touches.trans h'.touches, by rw [h'.held, h.held, List.append_assoc],
    h'.schedulers.trans h.schedulers, h'.receivers.trans h.receivers⟩

theorem mono (h : Proceeds S es u v) (hST : ∀ e, (∃ x, u.elements.get? e.row = some x) → S e → T e) :
    Proceeds T es u v := ⟨h.touches.mono hST, h.held, h.schedulers, h.receivers⟩

theorem of_looked (h : Proceeds (fun _ => False) es u v) : Proceeds S es u v := h.mono fun _ _ => False.elim

theorem of_store {w : World σ} {store : Store} (h : w.store.Grows store) :
    Proceeds S [] w { w with store } := ⟨.of_store h, rfl, rfl, rfl⟩

theorem record (w : World σ) (event : Event) : Proceeds S [] w (w.record event) :=
  ⟨.record w event, rfl, rfl, rfl⟩

theorem of_edits {e : ElementId} (h : Edits e u v) : Proceeds (· = e) [] u v :=
  ⟨h.touches, h.held, h.schedulers, h.receivers⟩

end Proceeds

/-! ### A run and itself -/

/-- Every world and every value is related to itself alone, and someone looks at the world. -/
def looking : Bond σ where
  Index := Unit
  Meets _ w s := w = s
  Values _ v v' := v = v'
  Goes _ _ w w' s s' := w' = s' ∧ w = s ∧ Looked w w'
  refl h := ⟨h, h, .refl _⟩
  trans h h' := ⟨h'.1, h.2.1, h.2.2.trans h'.2.2⟩
  meets h := h.1
  values _ h := h
  undefined _ := rfl
  str _ _ := rfl
  truthy h := congrArg _ h
  function h _ := by rw [h]

namespace Looks

variable {enter : Enter σ}

theorem mimics {act : Act σ α} (h : Looks enter act) {V : Unit → α → α → Prop} (hV : ∀ a, V () a a)
    {w s : World σ} (hws : w = s) : looking.Mimics enter V () w s act act := by
  subst hws
  have hw := h w
  unfold Bond.Mimics
  revert hw
  rcases act.runIn enter w with ⟨_ | a, w'⟩
  · exact fun _ => .neither w' w'
  · exact fun hw => .both ⟨(), ⟨rfl, rfl, hw a w' rfl⟩, hV a⟩

theorem of_mimics {act : Act σ α} {V : Unit → α → α → Prop}
    (h : ∀ w, looking.Mimics enter V () w w act act) : Looks enter act := by
  intro w a w' hrun
  have hw := h w
  unfold Bond.Mimics at hw
  rw [hrun] at hw
  cases hw with
  | both hgoes =>
    obtain ⟨-, ⟨-, -, hlooked⟩, -⟩ := hgoes
    exact hlooked

theorem pure (a : α) : Looks enter (Pure.pure a : Act σ α) := by
  rintro w _ _ ⟨⟩
  exact .refl w

theorem bind {act : Act σ α} {f : α → Act σ β} (h : Looks enter act) (hf : ∀ a, Looks enter (f a)) :
    Looks enter (act >>= f) := by
  intro w b w'' hrun
  obtain ⟨a, w', hact, hrest⟩ := Act.runIn_bind_eq_some hrun
  exact (h w a w' hact).trans (hf a w' b w'' hrest)

theorem map {act : Act σ α} (f : α → β) (h : Looks enter act) : Looks enter (f <$> act) := by
  rw [map_eq_pure_bind]
  exact h.bind fun a => .pure (f a)

theorem bindE {act : ExceptT ε (Act σ) α} {f : α → ExceptT ε (Act σ) β} (h : Looks enter act.run)
    (hf : ∀ a, Looks enter (f a).run) : Looks enter (act >>= f).run := by
  rw [ExceptT.run_bind]
  refine h.bind fun answer => ?_
  cases answer with
  | ok a => exact hf a
  | error error => exact .pure _

theorem pureE (a : α) : Looks enter (Pure.pure a : ExceptT ε (Act σ) α).run := .pure (Except.ok a)

theorem eval {act : Act σ (Except EvalError α)} (h : Looks enter act) :
    Looks enter (Build.eval act).run := h.map _

theorem get : Looks enter (get : Act σ (World σ)) := by
  rintro w _ _ ⟨⟩
  exact .refl w

theorem text (v : Value) : Looks enter (Act.text v) := by
  intro w t w' hrun
  rw [Act.runIn_text] at hrun
  exact (Prod.mk.inj hrun).2 ▸ .refl w

theorem items (v : Value) : Looks enter (Act.items v) := by
  refine get.bind fun w => ?_
  split <;> exact .pure _

theorem newArray (items : List Value) : Looks enter (Act.newArray items) := by
  rintro w _ _ ⟨⟩
  exact .of_store (w.store.newArray_grows items)

theorem newRecord (fields : Fields Value) : Looks enter (Act.newRecord fields) := by
  rintro w _ _ ⟨⟩
  exact .of_store (w.store.newRecord_grows fields)

theorem message (level : Level) {text : Act σ String} (h : Looks enter text) :
    Looks enter (Act.message level text) := by
  refine get.bind fun w => ?_
  split
  · refine h.bind fun t => ?_
    rintro v _ _ ⟨⟩
    exact .record v _
  · exact .pure ()

theorem noteKept (last : Repetition) : Looks enter (Build.noteKept last) := by
  unfold Build.noteKept
  split
  · rintro w _ _ ⟨⟩
    exact .record w _
  · exact .pure ()

theorem frames (name : String) (C : Context) (items : List Value) :
    Looks enter (Build.frames name C items) := by
  induction items with
  | nil => exact .pure []
  | cons item rest ih => exact (newRecord _).bind fun _ => ih.bind fun _ => .pure _

end Looks

/-! ### Evaluations -/

namespace Harmless

variable {enter : Enter σ}

theorem readAttribute (h : Harmless enter) (component : Component) (name : String) :
    Looks enter (Act.readAttribute component name) := by
  cases component with
  | headless => exact .pure _
  | foreign => exact h.getAttribute _ _

theorem scopeGetOwn (h : Harmless enter) (e : ElementId) (key : String) :
    Looks enter (Act.scopeGetOwn e key) := by
  intro w owned w' hrun
  have halive : (Act.alive e).runIn enter w = (some (w.alive e), w) := rfl
  rw [Act.scopeGetOwn, Act.runIn_bind_some halive] at hrun
  cases hlive : w.alive e with
  | false =>
    rw [hlive] at hrun
    exact (Prod.mk.inj hrun).2 ▸ .refl w
  | true =>
    rw [if_pos hlive] at hrun
    cases hx : w.elements.get? e.row with
    | none =>
      have hnone : (Act.element e).runIn enter w = (none, w) := by
        show (Act.ofOption (w.elements.get? e.row)).runIn _ w = _
        rw [hx]
        rfl
      cases (Act.runIn_bind_none hnone).symm.trans hrun
    | some x =>
      rw [Act.runIn_bind_some (Act.runIn_element hx)] at hrun
      by_cases htag : key = "tag"
      · rw [if_pos htag] at hrun
        exact (Prod.mk.inj hrun).2 ▸ .refl w
      rw [if_neg htag] at hrun
      cases hbusy : x.busy with
      | true =>
        rw [if_pos hbusy] at hrun
        exact (Prod.mk.inj hrun).2 ▸ .refl w
      | false =>
        -- the element is held while its attribute is read
        have hhold : (Act.hold [e]).runIn enter w = (some (), { w with held := e :: w.held }) := rfl
        rw [hbusy, if_neg Bool.false_ne_true, Act.holding, Act.runIn_bind_some hhold] at hrun
        obtain ⟨answer, u, hread, hrun⟩ := Act.runIn_bind_eq_some hrun
        obtain ⟨-, rfl⟩ := Prod.mk.inj hrun
        have hlooked := ((h.readAttribute x.component key).bind fun _ => .pure _) _ _ _ hread
        refine ⟨(Touches.of_held w _).trans (hlooked.touches.trans (.of_held u _)), ?_,
          hlooked.schedulers, hlooked.receivers⟩
        show u.held.erase e = w.held
        rw [hlooked.held]
        exact List.erase_cons_head ..

theorem ownProperty (h : Harmless enter) (v : Value) (key : String) :
    Looks enter (Act.getOwn v key) := by
  rcases v with _ | _ | _ | _ | _ | _ | _ | ⟨_ | _ | _⟩ | _
  case array => exact Looks.get.bind fun _ => .pure _
  case object.record => exact Looks.get.bind fun _ => .pure _
  case object.scope e => exact h.scopeGetOwn e key
  case object.foreign => exact h.getOwn _ _
  all_goals exact .pure _

theorem getKeyed (h : Harmless enter) (v key : Value) : Looks enter (Act.getKeyed v key) :=
  (Looks.text key).bind fun _ => (h.ownProperty v _).bind fun _ => .pure _

theorem lookup (h : Harmless enter) (name : String) (C : Context) :
    Looks enter (Act.lookup name C) := by
  induction C with
  | nil => exact .pure _
  | cons scope rest ih =>
    refine (h.ownProperty scope name).bind fun owned => ?_
    split
    · exact ih
    · exact ih
    · exact .pure _

theorem optionRel_refl {R : α → α → Prop} (h : ∀ a, R a a) (a : Option α) : Option.Rel R a a := by
  cases a with
  | none => exact .none
  | some a => exact .some (h a)

theorem outcomes_refl {R : α → α → Prop} (h : ∀ a, R a a) (x : Except ε α) : Outcomes R x x := by
  cases x with
  | ok a => exact .ok (h a)
  | error error => exact .error error error

/-- Every context is read as itself. -/
theorem reads (h : Harmless enter) (C : Context) (names : List String) :
    Bond.Reads looking enter (fun _ w s => w = s) C C names [] fun _ => True where
  meets hws := hws
  goes hgoes _ := hgoes.1
  known _ _ := rfl
  lookup {_ _ _ name} hws _ := (h.lookup name C).mimics
    (optionRel_refl fun _ => ⟨rfl, .inr (.inl rfl)⟩) hws
  keyed {_ _ _ v _ key _} hws hv hkey := by
    obtain rfl : v = _ := hv
    obtain rfl : key = _ := hkey
    exact (h.getKeyed v key).mimics (fun _ => rfl) hws
  newArray {_ _ _ items _} hws hitems := by
    obtain rfl : items = _ := List.forall₂_eq_eq_eq ▸ hitems
    exact (Looks.newArray items).mimics (fun _ => rfl) hws
  apply f v _ args _ hws hv hargs := by
    obtain rfl : v = _ := hv
    obtain rfl : args = _ := List.forall₂_eq_eq_eq ▸ hargs
    exact (h.apply f v args).mimics (V := fun _ => Outcomes Eq) (outcomes_refl fun _ => rfl) hws
  text {_ _ _ v _} hws hv := by
    obtain rfl : v = _ := hv
    exact (Looks.text v).mimics (fun _ => rfl) hws

/-- The evaluation of a directive does nothing but look. -/
theorem resolve (h : Harmless enter) (C : Context) (resolver : Resolver) :
    Looks enter (Eval.resolve C resolver).run :=
  .of_mimics fun _ => (h.reads C resolver.names).resolve (i := ()) rfl resolver (List.Subset.refl _)
    (fun _ _ => List.not_mem_nil) fun _ _ => trivial

theorem shows (h : Harmless enter) (C : Context) (node : Node Resolver) :
    Looks enter (Eval.shows C node).run := by
  unfold Eval.shows
  split
  · exact (h.resolve C _).bindE fun _ => .pureE _
  · exact .pureE _

theorem conditions (h : Harmless enter) (node : Node Resolver) (contexts : List Context) :
    Looks enter (Build.conditions node contexts).run := by
  induction contexts with
  | nil => exact .pureE _
  | cons context rest ih =>
    exact (h.shows context node).eval.bindE fun _ => ih.bindE fun _ => .pureE _

theorem listOf (h : Harmless enter) (C : Context) (resolver : Resolver) :
    Looks enter (Build.listOf C resolver).run :=
  (h.resolve C resolver).eval.bindE fun _ => (Looks.items _).eval.bindE fun _ => .pureE _

end Harmless

end ReactiveViews
