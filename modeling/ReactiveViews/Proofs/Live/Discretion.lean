import ReactiveViews.Proofs.Live.Standing
import ReactiveViews.Proofs.Value.Circles

/-!
# Functions that leave elements alone

Functions, objects and components of the host program are *discreet* if they answer whatever is asked of
them, touch no element and run no updater. They may change the data, and what the host program remembers.
They need not answer where an array holds itself: neither has such an array a text, and evaluations that
ask for one do not end.

## What is proved

Evaluations with discreet functions are discreet themselves (`Discreet.rules`): they touch no element, run
no updater, and come to an end unless there is an array that holds itself.
-/

namespace ReactiveViews

variable {σ α β ε : Type}

/-! ### Those that leave elements alone -/

/-- The conduct of those that touch no element and run no updater, and that answer unless an array holds
itself. -/
def Conduct.discreet : Conduct σ where
  Goes S _ w w' := Retains S w w' ∧ w'.runs = w.runs
  Stuck w := w.store.Circular
  refl _ := ⟨.of_elements_eq rfl, rfl⟩
  trans h h' := ⟨h.1.trans h'.1, h'.2.trans h.2⟩
  mono h hST := ⟨h.1.mono hST, h.2⟩
  retains h := h.1
  retouches h := ⟨h.touches.retains, h.runs⟩
  add w x := ⟨(Touches.of_add w x _).retains, rfl⟩
  release h _ := ⟨h.1.trans (.of_elements_eq rfl), h.2⟩
  store _ := ⟨.of_elements_eq rfl, rfl⟩
  record w _ h := ⟨.of_elements_eq rfl, w.runs_record_of_not h⟩
  endless := Store.circular_of_text

/-- What is asked of functions, objects and components is answered, no element is touched and no updater is
run. -/
structure Discreet (enter : Enter σ) : Prop where
  /-- Functions are applied. -/
  apply : ∀ (f : Function) (receiver : Value) (args : List Value),
    Conduct.discreet.Looks enter (Act.enterHost (.apply f receiver args))
  /-- Properties of objects are read. -/
  getOwn : ∀ (object : Nat) (key : String), Conduct.discreet.Looks enter (Act.enterHost (.getOwn object key))
  /-- Attributes of components are read. -/
  getAttribute : ∀ (component : Nat) (name : String),
    Conduct.discreet.Looks enter (Act.enterHost (.getAttribute component name))

theorem World.exists_of_alive {w : World σ} {e : ElementId} (h : w.alive e = true) :
    ∃ x, w.elements.get? e.row = some x := by
  obtain ⟨hlt, -⟩ := Bool.and_eq_true_iff.mp h
  exact ⟨_, Array.getElem?_eq_getElem (of_decide_eq_true hlt)⟩

namespace Discreet

variable {enter : Enter σ}

/-- What is held does not matter. -/
theorem holding (es : List ElementId) {act : Act σ α} (hact : Conduct.discreet.Looks enter act) :
    Conduct.discreet.Looks enter (Act.holding es act) :=
  Conduct.Looks.bind (fun _ => ⟨.of_elements_eq rfl, rfl⟩) fun _ => hact.bind fun _ =>
    Conduct.Looks.bind (fun _ => ⟨.of_elements_eq rfl, rfl⟩) fun _ => .pure _

theorem readAttribute (h : Discreet enter) (component : Component) (name : String) :
    Conduct.discreet.Looks enter (Act.readAttribute component name) := by
  cases component with
  | headless => exact .pure _
  | foreign => exact h.getAttribute _ _

theorem scopeGetOwn (h : Discreet enter) (e : ElementId) (key : String) :
    Conduct.discreet.Looks enter (Act.scopeGetOwn e key) := by
  intro w
  have halive : (Act.alive e).runIn enter w = (some (w.alive e), w) := rfl
  rw [Act.scopeGetOwn, Act.runIn_bind_some halive]
  cases hlive : w.alive e with
  | false => exact Conduct.discreet.refl w
  | true =>
    obtain ⟨x, hx⟩ := World.exists_of_alive hlive
    have hread : Conduct.discreet.Looks enter (if key = "tag" then return some (.str x.tag.tag)
        else if x.busy then return none
        else Act.holding [e] do return (← Act.readAttribute x.component key).toOption :
        Act σ (Option Value)) := by
      split
      · exact .pure _
      · split
        · exact .pure _
        · exact holding [e] ((h.readAttribute x.component key).bind fun _ => .pure _)
    rw [if_pos rfl, Act.runIn_bind_some (Act.runIn_element hx)]
    exact hread w

theorem ownProperty (h : Discreet enter) (v : Value) (key : String) :
    Conduct.discreet.Looks enter (Act.getOwn v key) := by
  rcases v with _ | _ | _ | _ | _ | _ | _ | ⟨_ | _ | _⟩ | _
  case array => exact Conduct.Looks.get.bind fun _ => .pure _
  case object.record => exact Conduct.Looks.get.bind fun _ => .pure _
  case object.scope e => exact h.scopeGetOwn e key
  case object.foreign => exact h.getOwn _ _
  all_goals exact .pure _

theorem getKeyed (h : Discreet enter) (v key : Value) : Conduct.discreet.Looks enter (Act.getKeyed v key) :=
  (Conduct.Looks.text key).bind fun _ => (h.ownProperty v _).bind fun _ => .pure _

theorem lookup (h : Discreet enter) (name : String) (C : Context) :
    Conduct.discreet.Looks enter (Act.lookup name C) := by
  induction C with
  | nil => exact .pure _
  | cons scope rest ih =>
    refine (h.ownProperty scope name).bind fun owned => ?_
    split
    · exact ih
    · exact ih
    · exact .pure _

theorem applyE (h : Discreet enter) (expr : String) (r : Registers) (args : List Value) :
    Conduct.discreet.Looks enter (Eval.apply expr r args).run := by
  unfold Eval.apply
  split
  · exact Conduct.Looks.bindE (h.apply _ _ _) fun _ => .pureE _
  · exact .pure _

mutual

theorem step (h : Discreet enter) (C : Context) (expr : String) (r : Registers) :
    (s : Step) → Conduct.discreet.Looks enter (Eval.step C expr r s).run
  | .lookup name => by
    refine Conduct.Looks.bindE ((h.lookup name C).map _) fun found => ?_
    split <;> exact .pureE _
  | .constant v => .pureE _
  | .property key => Conduct.Looks.bindE ((h.getKeyed _ key).map _) fun _ => .pureE _
  | .index chain =>
    (steps h C expr .start chain).bindE fun _ =>
      Conduct.Looks.bindE ((h.getKeyed _ _).map _) fun _ => .pureE _
  | .array items =>
    (all h C expr items).bindE fun _ => Conduct.Looks.bindE ((Conduct.Looks.newArray _).map _) fun _ => .pureE _
  | .call args => (all h C expr args).bindE fun _ => h.applyE expr r _

theorem steps (h : Discreet enter) (C : Context) (expr : String) (r : Registers) :
    (chain : List Step) → Conduct.discreet.Looks enter (Eval.steps C expr r chain).run
  | [] => .pureE _
  | s :: rest => (step h C expr r s).bindE fun r => steps h C expr r rest

theorem all (h : Discreet enter) (C : Context) (expr : String) :
    (chains : List (List Step)) → Conduct.discreet.Looks enter (Eval.all C expr chains).run
  | [] => .pureE _
  | chain :: rest => (steps h C expr .start chain).bindE fun _ => (all h C expr rest).bindE fun _ => .pureE _

end

theorem part (h : Discreet enter) (C : Context) (p : Part) :
    Conduct.discreet.Looks enter (Eval.part C p).run := by
  cases p with
  | plain text => exact .pureE _
  | chain c => exact (h.steps C c.expr .start c.steps).bindE fun _ => .pureE _

theorem joined (h : Discreet enter) (C : Context) (parts : List Part) :
    Conduct.discreet.Looks enter (Eval.joined C parts).run := by
  induction parts with
  | nil => exact .pureE _
  | cons p rest ih =>
    exact (h.part C p).bindE fun _ => Conduct.Looks.bindE ((Conduct.Looks.text _).map _) fun _ =>
      ih.bindE fun _ => .pureE _

/-- Evaluations are discreet. -/
theorem rules (h : Discreet enter) : Conduct.discreet.Rules enter where
  resolve C resolver := by
    unfold Eval.resolve
    split
    · exact .pureE _
    · exact h.part C _
    · exact (h.joined C _).bindE fun _ => .pureE _

end Discreet

end ReactiveViews
