import ReactiveViews.Proofs.Live.Elements

/-!
# What else may go on

While trees are made and updated, functions and objects of the host program are asked for what expressions
need. A *conduct* says what they may do to the world meanwhile, and what is true of a world in which an
answer never comes. Whatever it allows, elements are left alone but for those that are worked on.

## What is proved

If evaluations keep to a conduct, so do all that tells what is shown (`Conduct.Rules.shows`,
`Conduct.Rules.conditions`, `Conduct.Rules.listOf`). What is true at the end of an act, whether it
succeeds, fails or never answers, is put together step by step (the lemmas of `Conduct.Ends`).
-/

namespace ReactiveViews

variable {σ α β ε : Type}

/-- What may go on besides. -/
structure Conduct (σ : Type) where
  /-- The world goes on: of the elements that there were only some are touched, and some are held in
  addition. -/
  Goes : (ElementId → Prop) → List ElementId → World σ → World σ → Prop
  /-- An answer never comes in the world. -/
  Stuck : World σ → Prop
  /-- Nothing goes on. -/
  refl : ∀ {S : ElementId → Prop} (w : World σ), Goes S [] w w
  /-- One thing goes on after another. -/
  trans : ∀ {S : ElementId → Prop} {es es' : List ElementId} {u v w : World σ}, Goes S es u v →
    Goes S es' v w → Goes S (es' ++ es) u w
  /-- More elements may be touched. -/
  mono : ∀ {S T : ElementId → Prop} {es : List ElementId} {u v : World σ}, Goes S es u v →
    (∀ e, (∃ x, u.elements.get? e.row = some x) → S e → T e) → Goes T es u v
  /-- The other elements are left alone. -/
  retains : ∀ {S : ElementId → Prop} {es : List ElementId} {u v : World σ}, Goes S es u v → Retains S u v
  /-- An element is edited. -/
  retouches : ∀ {e : ElementId} {u v : World σ}, Retouches e u v → Goes (· = e) [] u v
  /-- An element is added, and held. -/
  add : ∀ (w : World σ) (x : Element), Goes (fun _ => False) [⟨w.elements.size⟩] w
    { w with elements := w.elements.add x, held := ⟨w.elements.size⟩ :: w.held }
  /-- What is held in addition is let go of. -/
  release : ∀ {S : ElementId → Prop} {held es : List ElementId} {u v : World σ}, Goes S held u v →
    held.Perm es → Goes S [] u { v with held := es.foldl List.erase v.held }
  /-- Arrays and records are added. -/
  store : ∀ {w : World σ} {store : Store}, w.store.Grows store →
    Goes (fun _ => False) [] w { w with store }
  /-- Something is noted. -/
  record : ∀ (w : World σ) {event : Event}, event.isRun = false →
    Goes (fun _ => False) [] w (w.record event)
  /-- A text has no end. -/
  endless : ∀ {w : World σ} {v : Value}, w.store.text v = none → Stuck w

namespace Conduct

variable {K : Conduct σ} {enter : Enter σ}

/-- Nothing has been touched. -/
abbrev Saw (K : Conduct σ) : World σ → World σ → Prop := K.Goes (fun _ => False) []

theorem Goes.of_none {S : ElementId → Prop} {es : List ElementId} {u v : World σ}
    (h : K.Goes (fun _ => False) es u v) : K.Goes S es u v := K.mono h fun _ _ => False.elim

theorem Goes.refl {S : ElementId → Prop} (w : World σ) : K.Goes S [] w w := K.refl w

theorem Goes.trans {S : ElementId → Prop} {es es' : List ElementId} {u v w : World σ}
    (h : K.Goes S es u v) (h' : K.Goes S es' v w) : K.Goes S (es' ++ es) u w := K.trans h h'

theorem Goes.of_retouches {e : ElementId} {u v : World σ} (h : Retouches e u v) :
    K.Goes (· = e) [] u v := K.retouches h

theorem Goes.retains {S : ElementId → Prop} {es : List ElementId} {u v : World σ}
    (h : K.Goes S es u v) : Retains S u v := K.retains h

theorem Saw.trans {u v w : World σ} (h : K.Saw u v) (h' : K.Saw v w) : K.Saw u w := K.trans h h'

/-- The act touches nothing, and comes to an end as the conduct says. -/
def Looks (K : Conduct σ) (enter : Enter σ) (act : Act σ α) : Prop :=
  ∀ w, match act.runIn enter w with
    | (some _, w') => K.Saw w w'
    | (none, w') => K.Stuck w'

/-- What is true at the end of an act: after a success, and after a failure. -/
def Ends (K : Conduct σ) (enter : Enter σ) (w : World σ) (act : ExceptT ε (Act σ) α)
    (Q : α → World σ → Prop) (E : World σ → Prop) : Prop :=
  match act.run.runIn enter w with
  | (some (.ok a), w') => Q a w'
  | (some (.error _), w') => E w'
  | (none, w') => K.Stuck w'

/-! ### Looking at the world -/

namespace Looks

theorem pure (a : α) : K.Looks enter (Pure.pure a : Act σ α) := fun w => K.refl w

theorem bind {act : Act σ α} {f : α → Act σ β} (h : K.Looks enter act)
    (hf : ∀ a, K.Looks enter (f a)) : K.Looks enter (act >>= f) := by
  intro w
  have hw := h w
  rw [Act.runIn_bind]
  revert hw
  rcases act.runIn enter w with ⟨_ | a, v⟩
  · exact id
  · intro hv
    have hw := hf a v
    revert hw
    dsimp only
    rcases (f a).runIn enter v with ⟨_ | b, u⟩
    · exact id
    · exact fun hu => hv.trans hu

theorem map {act : Act σ α} (f : α → β) (h : K.Looks enter act) : K.Looks enter (f <$> act) := by
  rw [map_eq_pure_bind]
  exact h.bind fun a => .pure (f a)

theorem bindE {act : ExceptT ε (Act σ) α} {f : α → ExceptT ε (Act σ) β} (h : K.Looks enter act.run)
    (hf : ∀ a, K.Looks enter (f a).run) : K.Looks enter (act >>= f).run := by
  rw [ExceptT.run_bind]
  refine h.bind fun answer => ?_
  cases answer with
  | ok a => exact hf a
  | error error => exact .pure _

theorem pureE (a : α) : K.Looks enter (Pure.pure a : ExceptT ε (Act σ) α).run := .pure (Except.ok a)

theorem eval {act : Act σ (Except EvalError α)} (h : K.Looks enter act) :
    K.Looks enter (Build.eval act).run := h.map _

theorem get : K.Looks enter (get : Act σ (World σ)) := fun w => K.refl w

theorem text (v : Value) : K.Looks enter (Act.text v) := by
  intro w
  rw [Act.runIn_text]
  cases htext : w.store.text v with
  | none => exact K.endless htext
  | some t => exact K.refl w

theorem items (v : Value) : K.Looks enter (Act.items v) := by
  refine get.bind fun w => ?_
  split <;> exact .pure _

theorem newArray (items : List Value) : K.Looks enter (Act.newArray items) := fun w =>
  K.store (w.store.newArray_grows items)

theorem newRecord (fields : Fields Value) : K.Looks enter (Act.newRecord fields) := fun w =>
  K.store (w.store.newRecord_grows fields)

theorem record {event : Event} (h : event.isRun = false) : K.Looks enter (Act.record event) := fun w =>
  K.record w h

theorem message (level : Level) {text : Act σ String} (h : K.Looks enter text) :
    K.Looks enter (Act.message level text) := by
  refine get.bind fun w => ?_
  split
  · exact h.bind fun _ => .record rfl
  · exact .pure ()

theorem noteKept (last : Repetition) : K.Looks enter (Build.noteKept last) := by
  unfold Build.noteKept
  split
  · exact .record rfl
  · exact .pure ()

theorem frames (name : String) (C : Context) (items : List Value) :
    K.Looks enter (Build.frames name C items) := by
  induction items with
  | nil => exact .pure []
  | cons item rest ih => exact (newRecord _).bind fun _ => ih.bind fun _ => .pure _

/-- What is there after an act that has answered. -/
theorem saw {act : Act σ α} (h : K.Looks enter act) {w w' : World σ} {a : α}
    (hrun : act.runIn enter w = (some a, w')) : K.Saw w w' := by
  have hw := h w
  rw [hrun] at hw
  exact hw

end Looks

/-- Evaluations keep to the conduct. -/
structure Rules (K : Conduct σ) (enter : Enter σ) : Prop where
  /-- The evaluation of a directive. -/
  resolve : ∀ (C : Context) (resolver : Resolver), K.Looks enter (Eval.resolve C resolver).run

namespace Rules

theorem shows (h : K.Rules enter) (C : Context) (node : Node Resolver) :
    K.Looks enter (Eval.shows C node).run := by
  unfold Eval.shows
  split
  · exact (h.resolve C _).bindE fun _ => .pureE _
  · exact .pureE _

theorem conditions (h : K.Rules enter) (node : Node Resolver) (contexts : List Context) :
    K.Looks enter (Build.conditions node contexts).run := by
  induction contexts with
  | nil => exact .pureE _
  | cons context rest ih =>
    exact (h.shows context node).eval.bindE fun _ => ih.bindE fun _ => .pureE _

theorem listOf (h : K.Rules enter) (C : Context) (resolver : Resolver) :
    K.Looks enter (Build.listOf C resolver).run :=
  (h.resolve C resolver).eval.bindE fun _ => (Looks.items _).eval.bindE fun _ => .pureE _

end Rules

/-! ### How an act ends -/

namespace Ends

variable {w : World σ} {act : ExceptT ε (Act σ) α} {Q : α → World σ → Prop} {E : World σ → Prop}

theorem pure {a : α} (h : Q a w) : K.Ends enter w (Pure.pure a : ExceptT ε (Act σ) α) Q E := h

theorem bind {f : α → ExceptT ε (Act σ) β} {R : β → World σ → Prop} (h : K.Ends enter w act Q E)
    (hf : ∀ a w', Q a w' → K.Ends enter w' (f a) R E) : K.Ends enter w (act >>= f) R E := by
  unfold Ends at h ⊢
  rw [ExceptT.run_bind, Act.runIn_bind]
  revert h
  rcases act.run.runIn enter w with ⟨_ | _ | a, w'⟩
  · exact id
  · exact id
  · exact hf a w'

theorem imp {R : α → World σ → Prop} {F : World σ → Prop} (h : K.Ends enter w act Q E)
    (hQ : ∀ a w', Q a w' → R a w') (hE : ∀ w', E w' → F w') : K.Ends enter w act R F := by
  unfold Ends at h ⊢
  revert h
  rcases act.run.runIn enter w with ⟨_ | _ | a, w'⟩
  · exact id
  · exact hE w'
  · exact hQ a w'

/-- A step that succeeds comes first. -/
theorem step {f : α → ExceptT ε (Act σ) β} {R : β → World σ → Prop} {w' : World σ} {a : α}
    (hrun : act.run.runIn enter w = (some (.ok a), w')) (h : K.Ends enter w' (f a) R E) :
    K.Ends enter w (act >>= f) R E := by
  unfold Ends at h ⊢
  rw [Build.runIn_bindE_ok hrun]
  exact h

/-- Someone looks at the world first. -/
theorem look {f : α → ExceptT ε (Act σ) β} {R : β → World σ → Prop} (h : K.Looks enter act.run)
    (hE : ∀ w', K.Saw w w' → E w') (hf : ∀ a w', K.Saw w w' → K.Ends enter w' (f a) R E) :
    K.Ends enter w (act >>= f) R E := by
  refine bind (Q := fun _ w' => K.Saw w w') ?_ hf
  have hw := h w
  unfold Ends
  revert hw
  rcases act.run.runIn enter w with ⟨_ | _ | a, w'⟩
  · exact id
  · exact hE w'
  · exact id

/-- An act that lets go of something if it fails. -/
theorem releasing {es : List ElementId} {act : Build σ α} {F : World σ → Prop}
    (h : K.Ends enter w act Q E)
    (hE : ∀ w', E w' → F { w' with held := es.foldl List.erase w'.held }) :
    K.Ends enter w (Build.releasing es act) Q F := by
  unfold Ends at h ⊢
  have hrun : (Build.releasing es act).run.runIn enter w = _ := Act.runIn_bind act.run _ enter w
  rw [hrun]
  revert h
  rcases act.run.runIn enter w with ⟨_ | _ | a, w'⟩
  · exact id
  · exact hE w'
  · exact id

/-- Another act that runs alike. -/
theorem of_runIn_eq {enter' : Enter σ} {v : World σ} {act' : ExceptT ε (Act σ) α}
    (h : K.Ends enter' v act' Q E) (heq : act.run.runIn enter w = act'.run.runIn enter' v) :
    K.Ends enter w act Q E := by
  unfold Ends at h ⊢
  rw [heq]
  exact h

/-- What comes after an act depends on whether it has succeeded. -/
theorem sequel {δ : Type} {first : Act σ (Except ε α)} {f : Except ε α → Act σ (Except δ β)}
    {R : β → World σ → Prop} {F : World σ → Prop} (h : K.Ends enter w (ExceptT.mk first) Q E)
    (hok : ∀ a w', Q a w' → K.Ends enter w' (ExceptT.mk (f (.ok a))) R F)
    (herror : ∀ error w', E w' → K.Ends enter w' (ExceptT.mk (f (.error error))) R F) :
    K.Ends enter w (ExceptT.mk (first >>= f)) R F := by
  unfold Ends at h ⊢
  rw [ExceptT.run_mk] at h ⊢
  rw [Act.runIn_bind]
  revert h
  rcases first.runIn enter w with ⟨_ | error | a, w'⟩
  · exact id
  · exact herror error w'
  · exact hok a w'

/-- An act that answers comes first. -/
theorem opening {first : Act σ α} {f : α → Act σ (Except ε β)} {R : β → World σ → Prop} {w' : World σ}
    {a : α} (hrun : first.runIn enter w = (some a, w')) (h : K.Ends enter w' (ExceptT.mk (f a)) R E) :
    K.Ends enter w (ExceptT.mk (first >>= f)) R E :=
  h.of_runIn_eq (Act.runIn_bind_some hrun)

/-- What is there after a success. -/
theorem ok (h : K.Ends enter w act Q E) {a : α} {w' : World σ}
    (hrun : act.run.runIn enter w = (some (.ok a), w')) : Q a w' := by
  rw [Ends, hrun] at h
  exact h

/-- What is there after a failure. -/
theorem error (h : K.Ends enter w act Q E) {error : ε} {w' : World σ}
    (hrun : act.run.runIn enter w = (some (.error error), w')) : E w' := by
  rw [Ends, hrun] at h
  exact h

/-- What is there where no answer comes. -/
theorem never (h : K.Ends enter w act Q E) {w' : World σ} (hrun : act.run.runIn enter w = (none, w')) :
    K.Stuck w' := by
  rw [Ends, hrun] at h
  exact h

end Ends

end Conduct

end ReactiveViews
