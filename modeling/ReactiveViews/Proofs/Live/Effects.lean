import ReactiveViews.Live.Script
import ReactiveViews.Proofs.Value.Links

/-!
# What acts do to the world

A relation between worlds describes what acts may do: `R true w w'` says that an act that
answers may lead from `w` to `w'`, and `R false w w'` that one that never answers may have got
from `w` to `w'` when it is given up. An act `Keeps` such a relation, an *effect*, if it does
nothing else, whatever world it is run in.

## What is proved

Everything that is put together from acts that keep an effect keeps it (`Bears.bind`,
`Bears.bindE`, `Bears.releasing`, …), once the effect can be chained and admits *ripples*: more
arrays and records, other things held, a scope taken, a message. Evaluations make no other changes,
so they keep every such effect that the calls keep that they enter (the lemmas of `Bears`).

Building and updating change elements as well, in a few ways only. An effect that admits these is
kept by all that is put together from them, whichever attributes may be set (the lemmas of `Draws` and
`Builds`).

*Quiet changes* are those of everything but the schedulers, the receivers and their events. An
effect that admits them as well is kept by each act of the library that does not deal with
schedulers (the lemmas of `Admits`), and by calls at every depth and runs of scripts if requests to
schedulers keep it (`Respects.admits`, `Respects.run`).
-/

namespace ReactiveViews

variable {σ α β ε : Type}

/-! ### Running an act -/

namespace Act

theorem runIn_pure (a : α) (enter : Enter σ) (w : World σ) :
    (pure a : Act σ α).runIn enter w = (some a, w) := rfl

theorem runIn_bind (act : Act σ α) (f : α → Act σ β) (enter : Enter σ) (w : World σ) :
    (act >>= f).runIn enter w =
      match act.runIn enter w with
      | (some a, w') => (f a).runIn enter w'
      | (none, w') => (none, w') := by
  show (act enter >>= fun a => f a enter) w = _
  simp only [runIn, bind, OptionT.bind, OptionT.mk, StateT.bind]
  rcases act enter w with ⟨_ | a, w'⟩ <;> rfl

theorem runIn_bind_some {act : Act σ α} {f : α → Act σ β} {enter : Enter σ} {w w' : World σ} {a : α}
    (h : act.runIn enter w = (some a, w')) :
    (act >>= f).runIn enter w = (f a).runIn enter w' := by
  rw [runIn_bind, h]

theorem runIn_bind_none {act : Act σ α} {f : α → Act σ β} {enter : Enter σ} {w w' : World σ}
    (h : act.runIn enter w = (none, w')) : (act >>= f).runIn enter w = (none, w') := by
  rw [runIn_bind, h]

/-- An answer of a sequence is an answer of its second part, after one of its first. -/
theorem runIn_bind_eq_some {act : Act σ α} {f : α → Act σ β} {enter : Enter σ} {w w'' : World σ}
    {b : β} (h : (act >>= f).runIn enter w = (some b, w'')) :
    ∃ a w', act.runIn enter w = (some a, w') ∧ (f a).runIn enter w' = (some b, w'') := by
  rw [runIn_bind] at h
  rcases hact : act.runIn enter w with ⟨_ | a, w'⟩
  · rw [hact] at h
    cases h
  · rw [hact] at h
    exact ⟨a, w', rfl, h⟩

theorem runIn_map (f : α → β) (act : Act σ α) (enter : Enter σ) (w : World σ) :
    (f <$> act).runIn enter w = ((act.runIn enter w).1.map f, (act.runIn enter w).2) := by
  rw [map_eq_pure_bind, runIn_bind]
  rcases act.runIn enter w with ⟨_ | a, w'⟩ <;> rfl

theorem runIn_get (enter : Enter σ) (w : World σ) :
    (get : Act σ (World σ)).runIn enter w = (some w, w) := rfl

theorem runIn_modify (f : World σ → World σ) (enter : Enter σ) (w : World σ) :
    (modify f : Act σ Unit).runIn enter w = (some (), f w) := rfl

theorem runIn_record (event : Event) (enter : Enter σ) (w : World σ) :
    (record event).runIn enter w = (some (), w.record event) := rfl

theorem runIn_message (level : Level) (text : String) (enter : Enter σ) (w : World σ) :
    (message level (pure text)).runIn enter w =
      (some (), if w.wants level then w.record (.message level text) else w) := by
  rw [message, runIn_bind_some (runIn_get enter w)]
  split <;> rfl

theorem runIn_element {enter : Enter σ} {w : World σ} {e : ElementId} {x : Element}
    (h : w.elements.get? e.row = some x) : (element e).runIn enter w = (some x, w) := by
  show (ofOption (w.elements.get? e.row)).runIn enter w = _
  rw [h]
  rfl

theorem runIn_element_none {enter : Enter σ} {w : World σ} {e : ElementId}
    (h : w.elements.get? e.row = none) : (element e).runIn enter w = (none, w) := by
  show (ofOption (w.elements.get? e.row)).runIn enter w = _
  rw [h]
  rfl

theorem runIn_takeUpdater {enter : Enter σ} {w : World σ} {e : ElementId} {x : Element}
    (h : w.elements.get? e.row = some x) :
    (takeUpdater e).runIn enter w =
      (some x.updater, w.updateElement e ({ · with updater := none })) := by
  rw [takeUpdater, runIn_bind_some (runIn_element h)]
  rfl

/-- An element that is not there is not updated. -/
theorem runIn_updateSelf_none {enter : Enter σ} {w : World σ} {e : ElementId}
    (h : w.elements.get? e.row = none) : (updateSelf e).runIn enter w = (none, w) := by
  rw [updateSelf, takeUpdater, bind_assoc, runIn_bind_none (runIn_element_none h)]

end Act

/-! ### Changes -/

/-- Events that tell nothing of schedulers. -/
def Event.isQuiet : Event → Bool
  | message .. | mark _ | installed .. | updating .. | updated .. | kept .. => true
  | _ => false

/-- Events that tell of the updaters of elements. -/
def Event.isUpdate : Event → Bool
  | installed .. | updating .. | updated .. => true
  | _ => false

/-- The changes of acts that do not deal with schedulers. An element keeps its tag and the scopes
around it for good. -/
inductive Change : World σ → World σ → Prop where
  /-- Arrays and records. -/
  | store (w : World σ) (store : Store) : Change w { w with store }
  /-- What is held. -/
  | held (w : World σ) (held : List ElementId) : Change w { w with held }
  /-- A scope is taken from an element. -/
  | mark (w : World σ) (marks : Nat) : Change w { w with marks }
  /-- What the host program remembers. -/
  | host (w : World σ) (host : σ) : Change w { w with host }
  /-- A quiet event. -/
  | event (w : World σ) {event : Event} : event.isQuiet = true → Change w (w.record event)
  /-- A new element, which is held. -/
  | element (w : World σ) (element : Element) :
    Change w { w with elements := w.elements.add element, held := ⟨w.elements.size⟩ :: w.held }
  /-- A change of an element. -/
  | update (w : World σ) (e : ElementId) {f : Element → Element} :
    (∀ x, (f x).tag = x.tag ∧ (f x).context = x.context) → Change w (w.updateElement e f)

/-- The changes of evaluations: nothing that there is becomes different, but what is held. -/
inductive Ripple : World σ → World σ → Prop where
  /-- More arrays and records. -/
  | store (w : World σ) {store : Store} : w.store.Grows store → Ripple w { w with store }
  /-- What is held. -/
  | held (w : World σ) (held : List ElementId) : Ripple w { w with held }
  /-- A scope is taken from an element. -/
  | mark (w : World σ) (marks : Nat) : Ripple w { w with marks }
  /-- A quiet event that tells nothing of updaters. -/
  | event (w : World σ) {event : Event} : event.isQuiet = true → event.isUpdate = false →
    Ripple w (w.record event)

theorem Ripple.change {w w' : World σ} (h : Ripple w w') : Change w w' := by
  cases h with
  | store => exact .store w _
  | held => exact .held w _
  | mark => exact .mark w _
  | event hquiet _ => exact .event w hquiet

theorem World.schedulers_updateElement (w : World σ) (e : ElementId) (f : Element → Element) :
    (w.updateElement e f).schedulers = w.schedulers := by
  unfold updateElement
  split <;> rfl

theorem World.receivers_updateElement (w : World σ) (e : ElementId) (f : Element → Element) :
    (w.updateElement e f).receivers = w.receivers := by
  unfold updateElement
  split <;> rfl

theorem World.journal_updateElement (w : World σ) (e : ElementId) (f : Element → Element) :
    (w.updateElement e f).journal = w.journal := by
  unfold updateElement
  split <;> rfl

theorem World.size_updateElement (w : World σ) (e : ElementId) (f : Element → Element) :
    (w.updateElement e f).elements.size = w.elements.size := by
  unfold World.updateElement
  split <;> simp

theorem World.elements_updateScheduler (w : World σ) (s : SchedulerId)
    (f : Scheduler → Scheduler) : (w.updateScheduler s f).elements = w.elements := by
  unfold World.updateScheduler
  split <;> rfl

theorem Change.schedulers_eq {w w' : World σ} (h : Change w w') : w'.schedulers = w.schedulers := by
  cases h <;> first | rfl | exact World.schedulers_updateElement ..

theorem Change.receivers_eq {w w' : World σ} (h : Change w w') : w'.receivers = w.receivers := by
  cases h <;> first | rfl | exact World.receivers_updateElement ..

/-- A change adds at most a quiet event to the journal. -/
theorem Change.journal_eq {w w' : World σ} (h : Change w w') :
    w'.journal = w.journal ∨ ∃ event : Event, event.isQuiet = true ∧ w'.journal = w.journal.push event := by
  cases h with
  | event hquiet => exact .inr ⟨_, hquiet, rfl⟩
  | update => exact .inl (World.journal_updateElement ..)
  | _ => exact .inl rfl

/-! ### Requests of scripts -/

/-- Whether a request has to do with schedulers and receivers, other than to look at them. -/
def Request.schedules : Request → Bool
  | newScheduler | close _ | request .. | cancel .. | runBatch _ | pump .. | takeFrame _ |
    dropReceiver _ => true
  | _ => false

/-- The script makes only some requests. -/
inductive Script.Only (p : Request → Prop) : Script σ α → Prop where
  /-- It ends. -/
  | done (a : α) : Only p (.done a)
  /-- It makes one of them and goes on, whatever the answer is. -/
  | ask {r : Request} {next : r.Reply → Script σ α} :
    p r → (∀ reply, Only p (next reply)) → Only p (.ask r next)
  /-- It looks at what the host program remembers. -/
  | memory {next : σ → Script σ α} : (∀ s, Only p (next s)) → Only p (.memory next)
  /-- The host program remembers something else. -/
  | remember (s : σ) {next : Script σ α} : Only p next → Only p (.remember s next)
  /-- It never answers. -/
  | hang : Only p .hang

theorem Script.Only.all (script : Script σ α) : script.Only fun _ => True := by
  induction script with
  | done a => exact .done a
  | ask r next ih => exact .ask trivial ih
  | memory next ih => exact .memory ih
  | remember s next ih => exact .remember s ih
  | hang => exact .hang

/-! ### Effects -/

/-- What acts may do to the world, when they answer and when they never do. -/
abbrev Effect (σ : Type) := Bool → World σ → World σ → Prop

/-- The act does nothing but what the effect says. -/
def Keeps (R : Effect σ) (enter : Enter σ) (act : Act σ α) : Prop :=
  ∀ w, R (act.runIn enter w).1.isSome w (act.runIn enter w).2

/-- What is known of a run of an act that keeps an effect. -/
theorem Keeps.of_run {R : Effect σ} {enter : Enter σ} {act : Act σ α} (h : Keeps R enter act)
    {w w' : World σ} {answer : Option α} (hrun : act.runIn enter w = (answer, w')) :
    R answer.isSome w w' := by
  have hw := h w
  rwa [hrun] at hw

/-- The effect admits ripples, can be chained, and is kept by the calls that are entered. -/
structure Bears (R : Effect σ) (enter : Enter σ) : Prop where
  /-- Changes of evaluations. -/
  ripple : ∀ {b : Bool} {w w' : World σ}, Ripple w w' → R b w w'
  /-- One act after another. -/
  trans : ∀ {b : Bool} {u v w : World σ}, R true u v → R b v w → R b u w
  /-- Calls. -/
  calls : ∀ call : Call, Keeps R enter (Act.enter call)

namespace Bears

variable {R : Effect σ} {enter : Enter σ}

/-! ### Sequences -/

theorem refl (h : Bears R enter) {b : Bool} (w : World σ) : R b w w := h.ripple (.held w w.held)

theorem pure (h : Bears R enter) (a : α) : Keeps R enter (pure a : Act σ α) := fun w => h.refl w

theorem never (h : Bears R enter) : Keeps R enter (Act.never : Act σ α) := fun w => h.refl w

theorem get (h : Bears R enter) : Keeps R enter (get : Act σ (World σ)) := fun w => h.refl w

theorem bind (h : Bears R enter) {act : Act σ α} {f : α → Act σ β} (hact : Keeps R enter act)
    (hf : ∀ a, Keeps R enter (f a)) : Keeps R enter (act >>= f) := by
  intro w
  have hw := hact w
  rw [Act.runIn_bind]
  revert hw
  rcases act.runIn enter w with ⟨_ | a, w'⟩
  · exact id
  · exact fun hw => h.trans hw (hf a w')

theorem map (h : Bears R enter) (f : α → β) {act : Act σ α} (hact : Keeps R enter act) :
    Keeps R enter (f <$> act) := by
  rw [map_eq_pure_bind]
  exact h.bind hact fun _ => h.pure _

theorem modify (h : Bears R enter) {f : World σ → World σ} (hf : ∀ w, Ripple w (f w)) :
    Keeps R enter (modify f : Act σ Unit) := fun w => h.ripple (hf w)

theorem modifyGet (h : Bears R enter) {f : World σ → α × World σ} (hf : ∀ w, Ripple w (f w).2) :
    Keeps R enter (modifyGet f : Act σ α) := fun w => h.ripple (hf w)

theorem mapM (h : Bears R enter) {f : α → Act σ β} (hf : ∀ a, Keeps R enter (f a))
    (l : List α) : Keeps R enter (l.mapM f) := by
  induction l with
  | nil => exact h.pure []
  | cons a rest ih =>
    rw [List.mapM_cons]
    exact h.bind (hf a) fun _ => h.bind ih fun _ => h.pure _

theorem forM (h : Bears R enter) {f : α → Act σ PUnit} (hf : ∀ a, Keeps R enter (f a))
    (l : List α) : Keeps R enter (l.forM f) := by
  induction l with
  | nil => exact h.pure ()
  | cons a rest ih => exact h.bind (hf a) fun _ => ih

/-! ### Acts that can fail -/

theorem bindE (h : Bears R enter) {act : ExceptT ε (Act σ) α} {f : α → ExceptT ε (Act σ) β}
    (hact : Keeps R enter act.run) (hf : ∀ a, Keeps R enter (f a).run) :
    Keeps R enter (act >>= f).run := by
  rw [ExceptT.run_bind]
  refine h.bind hact fun answer => ?_
  cases answer with
  | ok a => exact hf a
  | error e => exact h.pure _

theorem pureE (h : Bears R enter) (a : α) :
    Keeps R enter (Pure.pure a : ExceptT ε (Act σ) α).run := h.pure (Except.ok a)

theorem throwE (h : Bears R enter) (e : ε) :
    Keeps R enter (throw e : ExceptT ε (Act σ) α).run := h.pure (Except.error e)

theorem liftE (h : Bears R enter) {act : Act σ α} (hact : Keeps R enter act) :
    Keeps R enter (ExceptT.lift act : ExceptT ε (Act σ) α).run := h.map _ hact

theorem eval (h : Bears R enter) {act : Act σ (Except EvalError α)} (hact : Keeps R enter act) :
    Keeps R enter (Build.eval act).run := h.map _ hact

theorem component (h : Bears R enter) {act : Act σ (Except ComponentError α)}
    (hact : Keeps R enter act) : Keeps R enter (Build.component act).run := h.map _ hact

/-! ### Worlds and elements -/

theorem enterHost (h : Bears R enter) (call : HostCall) :
    Keeps R enter (Act.enterHost call) := h.calls (.host call)

theorem ofOption (h : Bears R enter) (a : Option α) : Keeps R enter (Act.ofOption a) := by
  cases a with
  | some a => exact h.pure a
  | none => exact h.never

theorem record (h : Bears R enter) {event : Event} (hquiet : event.isQuiet = true)
    (hupdate : event.isUpdate = false) : Keeps R enter (Act.record event) :=
  h.modify fun w => .event w hquiet hupdate

theorem message (h : Bears R enter) (level : Level) {text : Act σ String}
    (htext : Keeps R enter text) : Keeps R enter (Act.message level text) := by
  refine h.bind h.get fun w => ?_
  split
  · exact h.bind htext fun _ => h.record rfl rfl
  · exact h.pure ()

theorem element (h : Bears R enter) (e : ElementId) : Keeps R enter (Act.element e) :=
  h.bind h.get fun _ => h.ofOption _

theorem alive (h : Bears R enter) (e : ElementId) : Keeps R enter (Act.alive e) :=
  h.bind h.get fun _ => h.pure _

theorem hold (h : Bears R enter) (es : List ElementId) : Keeps R enter (Act.hold es) :=
  h.modify fun w => .held w _

theorem release (h : Bears R enter) (es : List ElementId) : Keeps R enter (Act.release es) :=
  h.modify fun w => .held w _

theorem holding (h : Bears R enter) (es : List ElementId) {act : Act σ α}
    (hact : Keeps R enter act) : Keeps R enter (Act.holding es act) :=
  h.bind (h.hold es) fun _ => h.bind hact fun _ => h.bind (h.release es) fun _ => h.pure _

theorem living (h : Bears R enter) (e : ElementId) {act : Act σ α} (hact : Keeps R enter act) :
    Keeps R enter (Act.living e act) := by
  refine h.bind (h.alive e) fun living => ?_
  split
  · exact hact
  · exact h.never

theorem newArray (h : Bears R enter) (items : List Value) : Keeps R enter (Act.newArray items) :=
  h.modifyGet fun w => .store w (w.store.newArray_grows items)

theorem newRecord (h : Bears R enter) (fields : Fields Value) :
    Keeps R enter (Act.newRecord fields) := h.modifyGet fun w => .store w (w.store.newRecord_grows fields)

theorem text (h : Bears R enter) (v : Value) : Keeps R enter (Act.text v) :=
  h.bind h.get fun _ => h.ofOption _

theorem contextOf (h : Bears R enter) (e : ElementId) : Keeps R enter (Act.contextOf e) :=
  h.bind (h.element e) fun _ => h.modifyGet fun w => .mark w _

theorem traced (h : Bears R enter) (x : Traced ε α) : Keeps R enter (Act.traced x) :=
  h.bind (h.forM (fun _ => h.message .trace (h.pure _)) _) fun _ => h.pure _

/-! ### Properties -/

theorem readAttribute (h : Bears R enter) (c : Component) (name : String) :
    Keeps R enter (Act.readAttribute c name) := by
  cases c with
  | headless => exact h.pure _
  | foreign => exact h.enterHost _

theorem readAttributes (h : Bears R enter) (c : Component) :
    Keeps R enter (Act.readAttributes c) := by
  cases c with
  | headless => exact h.pure _
  | foreign => exact h.enterHost _

theorem scopeGetOwn (h : Bears R enter) (e : ElementId) (key : String) :
    Keeps R enter (Act.scopeGetOwn e key) := by
  refine h.bind (h.alive e) fun living => ?_
  split
  · refine h.bind (h.element e) fun element => ?_
    split
    · exact h.pure _
    · split
      · exact h.pure _
      · exact h.holding _ (h.bind (h.readAttribute _ _) fun _ => h.pure _)
  · exact h.pure _

theorem scopeKeys (h : Bears R enter) (e : ElementId) : Keeps R enter (Act.scopeKeys e) := by
  refine h.bind (h.alive e) fun living => ?_
  split
  · refine h.bind (h.element e) fun element => ?_
    split
    · exact h.pure _
    · exact h.holding _ (h.bind (h.readAttributes _) fun _ => h.pure _)
  · exact h.pure _

theorem getOwn (h : Bears R enter) (v : Value) (key : String) :
    Keeps R enter (Act.getOwn v key) := by
  rcases v with _ | _ | _ | _ | _ | _ | _ | ⟨_ | _ | _⟩ | _
  case array => exact h.bind h.get fun _ => h.pure _
  case object.record => exact h.bind h.get fun _ => h.pure _
  case object.scope e => exact h.scopeGetOwn e key
  case object.foreign => exact h.enterHost _
  all_goals exact h.pure _

theorem getNamed (h : Bears R enter) (v : Value) (key : String) :
    Keeps R enter (Act.getNamed v key) := h.bind (h.getOwn v key) fun _ => h.pure _

theorem getKeyed (h : Bears R enter) (v key : Value) : Keeps R enter (Act.getKeyed v key) :=
  h.bind (h.text key) fun _ => h.getNamed v _

theorem keys (h : Bears R enter) (o : Object) : Keeps R enter (Act.keys o) := by
  cases o with
  | record => exact h.bind h.get fun _ => h.pure _
  | scope => exact h.scopeKeys _
  | foreign => exact h.enterHost _

theorem items (h : Bears R enter) (v : Value) : Keeps R enter (Act.items v) := by
  refine h.bind h.get fun w => ?_
  split <;> exact h.pure _

theorem inspectPart (h : Bears R enter) (v : Value) : Keeps R enter (Act.inspectPart v) :=
  h.calls _

theorem inspect (h : Bears R enter) (v : Value) : Keeps R enter (Act.inspect v) := by
  unfold Act.inspect
  split
  case h_7 =>
    exact h.bind h.get fun _ => h.bind (h.mapM h.inspectPart _) fun _ => h.pure _
  case h_8 =>
    refine h.bind (h.keys _) fun _ => h.bind (h.mapM (fun _ => ?_) _) fun _ => h.pure _
    exact h.bind (h.getNamed _ _) fun _ => h.bind (h.inspectPart _) fun _ => h.pure _
  all_goals exact h.pure _

/-! ### Evaluation -/

theorem lookup (h : Bears R enter) (name : String) (context : Context) :
    Keeps R enter (Act.lookup name context) := by
  induction context with
  | nil => exact h.pure _
  | cons scope rest ih =>
    refine h.bind (h.getOwn scope name) fun owned => ?_
    split
    · exact ih
    · exact ih
    · exact h.pure _

theorem apply (h : Bears R enter) (f : Function) (receiver : Value) (args : List Value) :
    Keeps R enter (Act.apply f receiver args) := h.enterHost _

theorem applyE (h : Bears R enter) (expr : String) (r : Registers) (args : List Value) :
    Keeps R enter (Eval.apply expr r args).run := by
  unfold Eval.apply
  split
  · exact h.bindE (h.apply _ _ _) fun _ => h.pureE _
  · exact h.throwE _

mutual

theorem step (h : Bears R enter) (context : Context) (expr : String) (r : Registers) :
    (s : Step) → Keeps R enter (Eval.step context expr r s).run
  | .lookup name => by
    refine h.bindE (h.liftE (h.lookup name context)) fun found => ?_
    split <;> exact h.pureE _
  | .constant v => h.pureE _
  | .property key => h.bindE (h.liftE (h.getKeyed _ key)) fun _ => h.pureE _
  | .index chain =>
    h.bindE (steps h context expr .start chain) fun _ =>
      h.bindE (h.liftE (h.getKeyed _ _)) fun _ => h.pureE _
  | .array items =>
    h.bindE (all h context expr items) fun _ => h.bindE (h.liftE (h.newArray _)) fun _ => h.pureE _
  | .call args => h.bindE (all h context expr args) fun _ => h.applyE expr r _

theorem steps (h : Bears R enter) (context : Context) (expr : String) (r : Registers) :
    (chain : List Step) → Keeps R enter (Eval.steps context expr r chain).run
  | [] => h.pureE _
  | s :: rest => h.bindE (step h context expr r s) fun r => steps h context expr r rest

theorem all (h : Bears R enter) (context : Context) (expr : String) :
    (chains : List (List Step)) → Keeps R enter (Eval.all context expr chains).run
  | [] => h.pureE _
  | chain :: rest =>
    h.bindE (steps h context expr .start chain) fun _ =>
      h.bindE (all h context expr rest) fun _ => h.pureE _

end

theorem chain (h : Bears R enter) (context : Context) (c : Chain) :
    Keeps R enter (Eval.chain context c).run :=
  h.bindE (h.steps context c.expr .start c.steps) fun _ => h.pureE _

theorem part (h : Bears R enter) (context : Context) (p : Part) :
    Keeps R enter (Eval.part context p).run := by
  cases p with
  | plain text => exact h.pureE _
  | chain c => exact h.chain context c

theorem joined (h : Bears R enter) (context : Context) (parts : List Part) :
    Keeps R enter (Eval.joined context parts).run := by
  induction parts with
  | nil => exact h.pureE _
  | cons p rest ih =>
    exact h.bindE (h.part context p) fun _ => h.bindE (h.liftE (h.text _)) fun _ =>
      h.bindE ih fun _ => h.pureE _

theorem resolve (h : Bears R enter) (context : Context) (resolver : Resolver) :
    Keeps R enter (Eval.resolve context resolver).run := by
  unfold Eval.resolve
  split
  · exact h.pureE _
  · exact h.part context _
  · exact h.bindE (h.joined context _) fun _ => h.pureE _

theorem shows (h : Bears R enter) (context : Context) (node : Node Resolver) :
    Keeps R enter (Eval.shows context node).run := by
  unfold Eval.shows
  split
  · exact h.bindE (h.resolve context _) fun _ => h.pureE _
  · exact h.pureE _

/-! ### Looking at components -/

theorem componentOf (h : Bears R enter) (e : ElementId) : Keeps R enter (Act.component e) := by
  refine h.bind (h.element e) fun element => ?_
  split
  · exact h.never
  · exact h.pure _

theorem make (h : Bears R enter) (factory : Factory) (tag : String) :
    Keeps R enter (Act.make factory tag) := by
  cases factory with
  | headless => exact h.pure _
  | foreign f => exact h.enterHost _

theorem getAttribute (h : Bears R enter) (e : ElementId) (name : String) :
    Keeps R enter (Act.getAttribute e name) :=
  h.bind (h.componentOf e) fun _ => h.readAttribute _ name

theorem announce (h : Bears R enter) (component : Component) (name : String) (v : Value) :
    Keeps R enter (Act.announce component name v) := by
  cases component with
  | headless c => exact h.message _ (h.bind (h.text v) fun _ => h.pure _)
  | foreign c => exact h.pure _

/-! ### Changing components -/

section

variable {e : ElementId} (h : Bears R enter)
  (hdraw : ∀ f : Element → Element,
    (∀ x, f x = { x with component := (f x).component, busy := (f x).busy }) →
      Keeps R enter (Act.updateElement e f))

include h hdraw

theorem change (own : Headless → Except ComponentError Headless)
    {foreign : Nat → Act σ (Except ComponentError Unit)}
    (hforeign : ∀ c, Keeps R enter (foreign c)) : Keeps R enter (Act.change e own foreign) := by
  refine h.bind (h.componentOf e) fun component => ?_
  cases component with
  | headless c =>
    dsimp only
    split
    · exact h.bind (hdraw _ fun _ => rfl) fun _ => h.pure _
    · exact h.pure _
  | foreign c =>
    exact h.bind (hdraw _ fun _ => rfl) fun _ => h.bind (hforeign c) fun _ =>
      h.bind (hdraw _ fun _ => rfl) fun _ => h.pure _

theorem setAttribute (name : String) (v : Value) : Keeps R enter (Act.setAttribute e name v) :=
  h.bind (h.componentOf e) fun _ => h.bind (h.announce _ name v) fun _ =>
    h.change hdraw _ fun _ => h.enterHost _

theorem addListener (event : String) (handler : Handler) :
    Keeps R enter (Act.addListener e event handler) := h.change hdraw _ fun _ => h.enterHost _

variable (hchildren : ∀ f : List ElementId → List ElementId,
  Keeps R enter (Act.updateElement e fun x => { x with children := f x.children }))

include hchildren

omit hdraw in
theorem changeChildren (answer : Except ComponentError Unit) (f : List ElementId → List ElementId) :
    Keeps R enter (Act.changeChildren e answer f) := by
  unfold Act.changeChildren
  split
  · exact h.bind (hchildren f) fun _ => h.pure _
  · exact h.pure _

theorem appendChild (child : ElementId) : Keeps R enter (Act.appendChild e child) :=
  h.bind (h.change hdraw _ fun _ => h.enterHost _) fun _ => h.changeChildren hchildren _ _

theorem removeChild (child : ElementId) : Keeps R enter (Act.removeChild e child) :=
  h.bind (h.change hdraw _ fun _ => h.enterHost _) fun _ => h.changeChildren hchildren _ _

theorem clearChildren : Keeps R enter (Act.clearChildren e) :=
  h.bind (h.change hdraw _ fun _ => h.enterHost _) fun _ => h.changeChildren hchildren _ _

end

/-! ### Events and outlines -/

theorem listeners (h : Bears R enter) (e : ElementId) (event : String) :
    Keeps R enter (Act.listeners e event) := by
  refine h.bind (h.componentOf e) fun component => ?_
  cases component with
  | headless c => exact h.pure _
  | foreign c => exact h.enterHost _

theorem handle (h : Bears R enter) (handler : Handler) (event : Value) :
    Keeps R enter (Act.handle handler event) := by
  cases handler with
  | directive target resolver =>
    refine h.bind (h.alive target) fun living => ?_
    split
    · exact h.holding _ (h.bind (h.newRecord _) fun _ => h.bind (h.contextOf target) fun _ =>
        h.resolve _ resolver)
    · exact h.pure _
  | foreign n => exact h.enterHost _

theorem handleAll (h : Bears R enter) (event : Value) (handlers : List Handler) :
    Keeps R enter (Act.handleAll event handlers) := by
  induction handlers with
  | nil => exact h.pure _
  | cons handler rest ih =>
    refine h.bind (h.handle handler event) fun answer => ?_
    cases answer with
    | error e => exact h.pure _
    | ok v => exact h.bind ih fun _ => h.pure _

theorem dispatch (h : Bears R enter) (e : ElementId) (name : String) (event : Value) :
    Keeps R enter (Act.dispatch e name event) := by
  refine h.bind (h.listeners e name) fun answer => ?_
  cases answer with
  | error e => exact h.pure _
  | ok handlers => exact h.handleAll event handlers

theorem find (h : Bears R enter) (e : ElementId) (name : String) :
    Keeps R enter (Act.find e name) := h.bind h.get fun _ => h.pure _

theorem outlineAttributes (h : Bears R enter) (attributes : Fields Value) :
    Keeps R enter (Act.outlineAttributes attributes) := by
  induction attributes with
  | nil => exact h.pure _
  | cons pair rest ih =>
    unfold Act.outlineAttributes
    split
    · exact ih
    · exact h.bind (h.text _) fun _ => h.bind ih fun _ => h.pure _

theorem concat (h : Bears R enter) {text : ElementId → Act σ String}
    (htext : ∀ e, Keeps R enter (text e)) (es : List ElementId) :
    Keeps R enter (Act.concat text es) := by
  induction es with
  | nil => exact h.pure _
  | cons e rest ih => exact h.bind (htext e) fun _ => h.bind ih fun _ => h.pure _

theorem outlineWithin (h : Bears R enter) (levels : Nat) :
    ∀ (depth : Nat) (e : ElementId), Keeps R enter (Act.outlineWithin levels depth e) := by
  induction levels with
  | zero => exact fun _ _ => h.never
  | succ levels ih =>
    intro depth e
    exact h.bind (h.componentOf e) fun _ => h.bind (h.readAttributes _) fun _ =>
      h.bind (h.outlineAttributes _) fun _ => h.bind (h.element e) fun _ =>
      h.bind (h.concat (ih (depth + 1)) _) fun _ => h.pure _

theorem outline (h : Bears R enter) (e : ElementId) : Keeps R enter (Act.outline e) :=
  h.bind h.get fun _ => h.outlineWithin _ _ e

/-! ### What building looks up -/

theorem releasing (h : Bears R enter) (es : List ElementId) {act : Build σ α}
    (hact : Keeps R enter act.run) : Keeps R enter (Build.releasing es act).run := by
  refine h.bind hact fun answer => ?_
  split
  · exact h.bind (h.release es) fun _ => h.pure _
  · exact h.pure _

theorem conditions (h : Bears R enter) (node : Node Resolver) (contexts : List Context) :
    Keeps R enter (Build.conditions node contexts).run := by
  induction contexts with
  | nil => exact h.pureE _
  | cons context rest ih =>
    exact h.bindE (h.eval (h.shows context node)) fun _ => h.bindE ih fun _ => h.pureE _

theorem frames (h : Bears R enter) (name : String) (context : Context) (items : List Value) :
    Keeps R enter (Build.frames name context items) := by
  induction items with
  | nil => exact h.pure _
  | cons item rest ih => exact h.bind (h.newRecord _) fun _ => h.bind ih fun _ => h.pure _

theorem listOf (h : Bears R enter) (context : Context) (resolver : Resolver) :
    Keeps R enter (Build.listOf context resolver).run :=
  h.bindE (h.eval (h.resolve context resolver)) fun _ =>
    h.bindE (h.eval (h.items _)) fun _ => h.pureE _

theorem noteKept (h : Bears R enter) (last : Repetition) : Keeps R enter (Build.noteKept last) := by
  unfold Build.noteKept
  split
  · exact h.record rfl rfl
  · exact h.pure _

theorem enterUpdate (h : Bears R enter) (e : ElementId) : Keeps R enter (Act.enterUpdate e) :=
  h.calls _

theorem updateAll (h : Bears R enter) (es : List ElementId) :
    Keeps R enter (Act.updateAll es) := by
  induction es with
  | nil => exact h.pure _
  | cons e rest ih =>
    refine h.bind (h.enterUpdate e) fun answer => h.bind (h.release _) fun _ => ?_
    cases answer with
    | ok => exact ih
    | error error => exact h.bind (h.release rest) fun _ => h.pure _

end Bears

/-- What a new element of a node has before its updater is installed. -/
def Build.adorn (e : ElementId) (node : Node Resolver) : Build σ Unit := do
  describe e "id" node.tag.id
  describe e "class" node.tag.classAttribute
  listen e node.on
  let scope ← act (Act.contextOf e)
  assign e scope node.once

theorem Build.furnish_eq_adorn (e : ElementId) (node : Node Resolver) (factory : Factory) :
    (furnish e node factory : Build σ Unit) = adorn e node >>= fun _ =>
      act (install e (.view node factory) (node.children.map .fresh)) := by
  simp only [furnish, adorn, bind_assoc]

namespace Build

/-- What an update does to the children of an element. -/
def restock (e : ElementId) (scope : Context) (factory : Factory) : Build σ Unit := do
  let slots := (← act (Act.element e)).slots
  if !slots.isEmpty then
    component (Act.clearChildren e)
    fill e scope factory 0 slots

/-- What comes before the bound attributes in an update, and the scopes for these. -/
def refill (e : ElementId) (factory : Factory) : Build σ Context := do
  let scope ← act (Act.contextOf e)
  restock e scope factory
  return scope

/-- A view updater refills its element and then sets the bound attributes. -/
theorem refresh_eq (e : ElementId) (node : Node Resolver) (factory : Factory) :
    (refresh e node factory : Build σ Unit) = (do
      let scope ← refill e factory
      assign e scope node.bind) := by
  simp only [refresh, refill, restock, bind_assoc, pure_bind]
  congr 1
  funext scope
  congr 1
  funext element
  split <;> simp only [bind_assoc, pure_bind]

end Build

/-- The effect is borne, and kept by what is done to the component and the children of an element: the
attributes under the names that are allowed are set. -/
structure Draws (allowed : ElementId → String → Prop) (R : Effect σ) (enter : Enter σ) : Prop
    extends Bears R enter where
  /-- An attribute is set. -/
  setAttribute : ∀ {e : ElementId} {name : String}, allowed e name → ∀ v : Value,
    Keeps R enter (Act.setAttribute e name v)
  /-- A handler is added. -/
  addListener : ∀ (e : ElementId) (event : String) (handler : Handler),
    Keeps R enter (Act.addListener e event handler)
  /-- A child is appended. -/
  appendChild : ∀ e child : ElementId, Keeps R enter (Act.appendChild e child)
  /-- The children are removed. -/
  clearChildren : ∀ e : ElementId, Keeps R enter (Act.clearChildren e)

namespace Draws

variable {allowed : ElementId → String → Prop} {R : Effect σ} {enter : Enter σ}

theorem describe (h : Draws allowed R enter) {e : ElementId} {name : String}
    {text : Option String} (hname : text.isSome → allowed e name) :
    Keeps R enter (Build.describe e name text).run := by
  cases text with
  | some text => exact h.component (h.setAttribute (hname rfl) _)
  | none => exact h.pureE _

theorem listen (h : Draws allowed R enter) (e : ElementId)
    (handlers : List (String × Resolver)) : Keeps R enter (Build.listen e handlers).run := by
  induction handlers with
  | nil => exact h.pureE _
  | cons handler rest ih =>
    exact h.bindE (h.component (h.addListener e _ _)) fun _ => ih

theorem assign (h : Draws allowed R enter) {e : ElementId} (context : Context)
    {attributes : List (String × Resolver)} (hallowed : ∀ entry ∈ attributes, allowed e entry.1) :
    Keeps R enter (Build.assign e context attributes).run := by
  induction attributes with
  | nil => exact h.pureE _
  | cons entry rest ih =>
    obtain ⟨hentry, hrest⟩ := List.forall_mem_cons.mp hallowed
    exact h.bindE (h.eval (h.resolve context _)) fun v =>
      h.bindE (h.component (h.setAttribute hentry v)) fun _ => ih hrest

theorem append (h : Draws allowed R enter) (e : ElementId) (children : List ElementId) :
    Keeps R enter (Build.append e children).run := by
  induction children with
  | nil => exact h.pureE _
  | cons child rest ih => exact h.bindE (h.component (h.appendChild e child)) fun _ => ih

/-- A new element may be given all attributes. -/
theorem adorn (h : Draws allowed R enter) {e : ElementId} (hallowed : ∀ name, allowed e name)
    (node : Node Resolver) : Keeps R enter (Build.adorn e node).run :=
  h.bindE (h.describe fun _ => hallowed _) fun _ => h.bindE (h.describe fun _ => hallowed _) fun _ =>
    h.bindE (h.listen e _) fun _ => h.bindE (h.liftE (h.contextOf e)) fun scope =>
    h.assign scope fun _ _ => hallowed _

/-- A new element is furnished, if its updater may be installed. -/
theorem furnish (h : Draws allowed R enter) {e : ElementId} (hallowed : ∀ name, allowed e name)
    {node : Node Resolver} {factory : Factory}
    (hinstall : Keeps R enter (Build.install e (.view node factory) (node.children.map .fresh))) :
    Keeps R enter (do Build.releasing [e] (Build.furnish e node factory); return e :
      Build σ ElementId).run := by
  rw [Build.furnish_eq_adorn]
  exact h.bindE (h.releasing [e] (h.bindE (h.adorn hallowed node) fun _ => h.liftE hinstall))
    fun _ => h.pureE _

theorem create (h : Draws allowed R enter) {node : Node Resolver} {context : Context}
    {factory : Factory} (hnew : ∀ component : Component,
      Keeps R enter (Act.newElement node.tag component context >>= fun e =>
        (do Build.releasing [e] (Build.furnish e node factory); return e : Build σ ElementId).run)) :
    Keeps R enter (Build.create node context factory).run := by
  refine h.bindE (h.component (h.make factory _)) fun made => ?_
  rw [Build.act, ExceptT.run_bind_lift]
  exact hnew made

end Draws

/-- The effect is borne, and kept by what building does to an element: it sets attributes under the
names that are allowed, writes the slots that are `stocked`, and makes elements of nodes. -/
structure Builds (allowed : ElementId → String → Prop) (stocked : ElementId → Nat → Prop)
    (R : Effect σ) (enter : Enter σ) : Prop extends Draws allowed R enter where
  /-- The memory of a slot is written. -/
  remember : ∀ {e : ElementId} {i : Nat}, stocked e i → ∀ memory : Memory,
    Keeps R enter (Build.remember e i memory)
  /-- An element is made of a node. -/
  create : ∀ (node : Node Resolver) (context : Context) (factory : Factory),
    Keeps R enter (Build.create node context factory).run

namespace Builds

variable {allowed : ElementId → String → Prop} {stocked : ElementId → Nat → Prop} {R : Effect σ}
  {enter : Enter σ}

/-! ### Making elements -/

theorem createAll (h : Builds allowed stocked R enter) (node : Node Resolver) (factory : Factory)
    (contexts : List Context) : Keeps R enter (Build.createAll node factory contexts).run := by
  induction contexts with
  | nil => exact h.pureE _
  | cons context rest ih =>
    exact h.bindE (h.create node context factory) fun _ =>
      h.bindE (h.releasing _ ih) fun _ => h.pureE _

theorem spread (h : Builds allowed stocked R enter) (node : Node Resolver) (factory : Factory)
    (name : String) (context : Context) (list : Value) (items : List Value) :
    Keeps R enter (Build.spread node factory name context list items).run :=
  h.bindE (h.liftE (h.message _ (h.pure _))) fun _ =>
    h.bindE (h.liftE (h.frames name context items)) fun _ =>
    h.bindE (h.conditions node _) fun _ => h.bindE (h.createAll node factory _) fun _ => h.pureE _

theorem instantiate (h : Builds allowed stocked R enter) (node : Node Resolver) (context : Context)
    (factory : Factory) : Keeps R enter (Build.instantiate node context factory).run := by
  unfold Build.instantiate
  split
  · refine h.bindE (h.eval (h.shows context node)) fun shown => ?_
    split
    · exact h.bindE (h.create node context factory) fun _ => h.pureE _
    · exact h.pureE _
  · exact h.bindE (h.listOf context _) fun _ =>
      h.bindE (h.spread node factory _ context _ _) fun _ => h.pureE _

theorem instantiateAll (h : Builds allowed stocked R enter) (context : Context) (factory : Factory)
    (nodes : List (Node Resolver)) :
    Keeps R enter (Build.instantiateAll context factory nodes).run := by
  induction nodes with
  | nil => exact h.pureE _
  | cons node rest ih =>
    exact h.bindE (h.instantiate node context factory) fun _ =>
      h.bindE (h.releasing _ ih) fun _ => h.pureE _

/-! ### Slots -/

theorem evaluateSingle (h : Builds allowed stocked R enter) {e : ElementId} {i : Nat} (he : stocked e i)
    (node : Node Resolver) (cached : Option ElementId) (context : Context) (factory : Factory) :
    Keeps R enter (Build.evaluateSingle e i node cached context factory).run := by
  refine h.bindE (h.eval (h.shows context node)) fun shown => ?_
  split
  · cases cached with
    | some child => exact h.pureE _
    | none =>
      exact h.bindE (h.create node context factory) fun _ =>
        h.bindE (h.liftE (h.remember he _)) fun _ =>
        h.bindE (h.liftE (h.release _)) fun _ => h.pureE _
  · exact h.bindE (h.liftE (h.remember he _)) fun _ => h.pureE _

theorem settle (h : Builds allowed stocked R enter) {e : ElementId} {i : Nat} (he : stocked e i)
    (last : Repetition) : Keeps R enter (Build.settle e i last).run :=
  h.bindE (h.liftE (h.remember he _)) fun _ =>
    h.bindE (h.liftE (h.release _)) fun _ => h.pureE _

theorem reuse (h : Builds allowed stocked R enter) {e : ElementId} {i : Nat} (he : stocked e i)
    (node : Node Resolver) (last : Repetition) (factory : Factory) :
    Keeps R enter (Build.reuse e i node last factory).run := by
  refine h.bindE (h.conditions node _) fun conditions => ?_
  split
  · exact h.pureE _
  · exact h.bindE (h.liftE (h.message _ (h.pure _))) fun _ =>
      h.bindE (h.createAll node factory _) fun _ => h.settle he _

theorem evaluateRepeated (h : Builds allowed stocked R enter) {e : ElementId} {i : Nat}
    (he : stocked e i) (node : Node Resolver) (name : String) (resolver : Resolver)
    (last : Option Repetition) (context : Context) (factory : Factory) :
    Keeps R enter (Build.evaluateRepeated e i node name resolver last context factory).run := by
  refine h.bindE (h.listOf context resolver) fun ⟨list, items⟩ => ?_
  have anew : Keeps R enter (ExceptT.run (do
      Build.settle e i (← Build.spread node factory name context list items))) :=
    h.bindE (h.spread node factory name context list items) fun _ => h.settle he _
  cases last with
  | none => exact anew
  | some last =>
    dsimp only
    split
    · exact h.bindE (h.liftE (h.noteKept last)) fun _ => h.reuse he node last factory
    · exact anew

theorem evaluate (h : Builds allowed stocked R enter) {e : ElementId} {i : Nat} (he : stocked e i)
    (slot : Slot) (context : Context) (factory : Factory) :
    Keeps R enter (Build.evaluate e i slot context factory).run := by
  unfold Build.evaluate
  split
  · exact h.evaluateSingle he _ _ context factory
  · exact h.evaluateRepeated he _ _ _ _ context factory
  · exact h.pureE _

/-! ### Updates -/

theorem fill (h : Builds allowed stocked R enter) {e : ElementId} (context : Context) (factory : Factory)
    (slots : List Slot) : ∀ i, (∀ j, i ≤ j → j < i + slots.length → stocked e j) →
      Keeps R enter (Build.fill e context factory i slots).run := by
  induction slots with
  | nil => exact fun _ _ => h.pureE _
  | cons slot rest ih =>
    intro i he
    rw [List.length_cons] at he
    have hslot : stocked e i := he i (Nat.le_refl i) (by omega)
    exact h.bindE (h.evaluate hslot slot context factory) fun _ => h.bindE (h.append e _) fun _ =>
      ih (i + 1) fun j hle hlt => he j (by omega) (by omega)

theorem restock (h : Builds allowed stocked R enter) {e : ElementId} (he : ∀ i, stocked e i)
    (scope : Context) (factory : Factory) : Keeps R enter (Build.restock e scope factory).run := by
  refine h.bindE (h.liftE (h.element e)) fun element => ?_
  dsimp only
  split
  · exact h.bindE (h.component (h.clearChildren e)) fun _ => h.fill scope factory _ 0 fun j _ _ => he j
  · exact h.pureE ()

theorem refill (h : Builds allowed stocked R enter) {e : ElementId} (he : ∀ i, stocked e i)
    (factory : Factory) : Keeps R enter (Build.refill e factory).run :=
  h.bindE (h.liftE (h.contextOf e)) fun scope =>
    h.bindE (h.restock he scope factory) fun _ => h.pureE scope

theorem refresh (h : Builds allowed stocked R enter) {e : ElementId} (he : ∀ i, stocked e i)
    {node : Node Resolver} (hallowed : ∀ entry ∈ node.bind, allowed e entry.1) (factory : Factory) :
    Keeps R enter (Build.refresh e node factory).run := by
  rw [Build.refresh_eq]
  exact h.bindE (h.refill he factory) fun scope => h.assign scope hallowed

/-- An update keeps what the updater of the element keeps. -/
theorem update (h : Builds allowed stocked R enter) {e : ElementId}
    (hself : Keeps R enter (Act.updateSelf e)) : Keeps R enter (Act.update e) := by
  refine h.holding _ (h.bind hself fun answer => ?_)
  cases answer with
  | error error => exact h.pure _
  | ok => exact h.bind (h.element e) fun _ => h.bind (h.hold _) fun _ => h.updateAll _

theorem build (h : Builds allowed stocked R enter) (view : View Resolver) (context : Context)
    (factory : Factory) : Keeps R enter (Build.build view context factory).run := by
  refine h.bindE (h.instantiateAll context factory _) fun made => ?_
  split
  · exact h.bindE (h.releasing _ (h.enterUpdate _)) fun _ => h.bindE (h.liftE (h.element _)) fun _ =>
      h.bindE (h.liftE (h.message _ (h.pure _))) fun _ => h.pureE _
  · exact h.bindE (h.liftE (h.release _)) fun _ => h.throwE _

end Builds

/-- The effect admits every change, can be chained, and is kept by the calls that are entered. -/
structure Admits (R : Effect σ) (enter : Enter σ) : Prop extends Bears R enter where
  /-- Changes that have nothing to do with schedulers. -/
  quiet : ∀ {b : Bool} {w w' : World σ}, Change w w' → R b w w'

namespace Admits

variable {R : Effect σ} {enter : Enter σ}

theorem of_quiet (hquiet : ∀ {b : Bool} {w w' : World σ}, Change w w' → R b w w')
    (htrans : ∀ {b : Bool} {u v w : World σ}, R true u v → R b v w → R b u w)
    (henter : ∀ call : Call, Keeps R enter (Act.enter call)) : Admits R enter where
  ripple h := hquiet h.change
  trans := htrans
  calls := henter
  quiet := hquiet

/-! ### Changing the world -/

theorem modify (h : Admits R enter) {f : World σ → World σ} (hf : ∀ w, Change w (f w)) :
    Keeps R enter (modify f : Act σ Unit) := fun w => h.quiet (hf w)

theorem modifyGet (h : Admits R enter) {f : World σ → α × World σ} (hf : ∀ w, Change w (f w).2) :
    Keeps R enter (modifyGet f : Act σ α) := fun w => h.quiet (hf w)

theorem record (h : Admits R enter) {event : Event} (hquiet : event.isQuiet = true) :
    Keeps R enter (Act.record event) := h.modify fun w => .event w hquiet

theorem updateElement (h : Admits R enter) (e : ElementId) {f : Element → Element}
    (hf : ∀ x, (f x).tag = x.tag ∧ (f x).context = x.context) :
    Keeps R enter (Act.updateElement e f) := h.modify fun w => .update w e hf

theorem setOwn (h : Admits R enter) (o : Object) (key : String) (v : Value) :
    Keeps R enter (Act.setOwn o key v) := by
  cases o with
  | record => exact h.bind (h.modify fun w => .store w _) fun _ => h.pure _
  | scope => exact h.pure _
  | foreign => exact h.enterHost _

/-! ### Components -/

/-- A change of an element that keeps its tag and the scopes around it. -/
theorem draw (h : Admits R enter) (e : ElementId) (f : Element → Element)
    (hf : ∀ x, f x = { x with component := (f x).component, busy := (f x).busy }) :
    Keeps R enter (Act.updateElement e f) :=
  h.updateElement e fun x => by rw [hf x]; exact ⟨rfl, rfl⟩

theorem newElement (h : Admits R enter) (tag : Tag) (component : Component) (context : Context) :
    Keeps R enter (Act.newElement tag component context) := h.modifyGet fun w => .element w _

theorem setAttribute (h : Admits R enter) (e : ElementId) (name : String) (v : Value) :
    Keeps R enter (Act.setAttribute e name v) := h.toBears.setAttribute (h.draw e) name v

theorem addListener (h : Admits R enter) (e : ElementId) (event : String) (handler : Handler) :
    Keeps R enter (Act.addListener e event handler) := h.toBears.addListener (h.draw e) event handler

theorem appendChild (h : Admits R enter) (e child : ElementId) :
    Keeps R enter (Act.appendChild e child) :=
  h.toBears.appendChild (h.draw e) (fun _ => h.updateElement e fun _ => ⟨rfl, rfl⟩) child

theorem removeChild (h : Admits R enter) (e child : ElementId) :
    Keeps R enter (Act.removeChild e child) :=
  h.toBears.removeChild (h.draw e) (fun _ => h.updateElement e fun _ => ⟨rfl, rfl⟩) child

theorem clearChildren (h : Admits R enter) (e : ElementId) :
    Keeps R enter (Act.clearChildren e) :=
  h.toBears.clearChildren (h.draw e) fun _ => h.updateElement e fun _ => ⟨rfl, rfl⟩

theorem remember (h : Admits R enter) (e : ElementId) (i : Nat) (memory : Memory) :
    Keeps R enter (Build.remember e i memory) := h.updateElement e fun _ => ⟨rfl, rfl⟩

theorem install (h : Admits R enter) (e : ElementId) (updater : Updater) (slots : List Slot) :
    Keeps R enter (Build.install e updater slots) :=
  h.bind (h.updateElement e fun _ => ⟨rfl, rfl⟩) fun _ => h.record rfl

theorem draws (h : Admits R enter) : Draws (fun _ _ => True) R enter where
  toBears := h.toBears
  setAttribute := fun _ _ => h.setAttribute _ _ _
  addListener := h.addListener
  appendChild := h.appendChild
  clearChildren := h.clearChildren

theorem builds (h : Admits R enter) : Builds (fun _ _ => True) (fun _ _ => True) R enter where
  toDraws := h.draws
  remember := fun _ => h.remember _ _
  create _ _ _ := h.draws.create fun _ => h.bind (h.newElement _ _ _) fun _ =>
    h.draws.furnish (fun _ => trivial) (h.install _ _ _)

/-! ### Updates -/

theorem setUpdater (h : Admits R enter) (e : ElementId) (updater : Nat) :
    Keeps R enter (Act.setUpdater e updater) :=
  h.bind (h.updateElement e fun _ => ⟨rfl, rfl⟩) fun _ => h.record rfl

theorem takeUpdater (h : Admits R enter) (e : ElementId) : Keeps R enter (Act.takeUpdater e) :=
  h.bind (h.element e) fun _ => h.bind (h.updateElement e fun _ => ⟨rfl, rfl⟩) fun _ => h.pure _

theorem putBack (h : Admits R enter) (e : ElementId) (updater : Updater) :
    Keeps R enter (Act.putBack e updater) := by
  refine h.updateElement e fun x => ?_
  split
  · exact ⟨rfl, rfl⟩
  · split <;> exact ⟨rfl, rfl⟩

theorem runUpdater (h : Admits R enter) (e : ElementId) (updater : Updater) :
    Keeps R enter (Act.runUpdater e updater) := by
  cases updater with
  | view node factory => exact h.builds.refresh (fun _ => trivial) (fun _ _ => trivial) factory
  | foreign u => exact h.enterHost _

theorem updateSelf (h : Admits R enter) (e : ElementId) : Keeps R enter (Act.updateSelf e) := by
  refine h.bind (h.takeUpdater e) fun updater => ?_
  cases updater with
  | none => exact h.pure _
  | some updater =>
    exact h.bind (h.record rfl) fun _ => h.bind (h.runUpdater e updater) fun _ =>
      h.bind (h.putBack e updater) fun _ => h.bind (h.record rfl) fun _ => h.pure _

theorem update (h : Admits R enter) (e : ElementId) : Keeps R enter (Act.update e) :=
  h.builds.update (h.updateSelf e)

/-! ### Loading -/

theorem load (h : Admits R enter) (value : Json) : Keeps R enter (Act.load value) :=
  h.modifyGet fun w => .store w _

theorem compileView (h : Admits R enter) (template : Template) :
    Keeps R enter (Act.compileView template) := by
  refine h.bind (h.traced _) fun answer => ?_
  cases answer with
  | error error => exact h.pure _
  | ok view => exact h.modifyGet fun w => .store w _

theorem compileSource (h : Admits R enter) (value : Json) :
    Keeps R enter (Act.compileSource value) := by
  refine h.bind (h.traced _) fun answer => ?_
  cases answer with
  | error error => exact h.pure _
  | ok source => exact h.modifyGet fun w => .store w _

theorem compileExpression (h : Admits R enter) (src : String) :
    Keeps R enter (Act.compileExpression src) := h.bind (h.traced _) fun _ => h.pure _

/-! ### Scripts and hosts -/

/-- Requests that deal with schedulers have no lemma of their own: what they do depends on the
effect. -/
theorem perform (h : Admits R enter) (r : Request) (hr : r.schedules = false) :
    Keeps R enter (Act.perform r) := by
  cases r with
  | newArray items => exact h.newArray items
  | arrayItems | fields | receiver | journal => exact h.bind h.get fun _ => h.pure _
  | setItems | setFields => exact h.modify fun w => .store w _
  | newRecord fields => exact h.newRecord fields
  | load value => exact h.load value
  | items v => exact h.items v
  | getOwn v key => exact h.getOwn v key
  | keys o => exact h.keys o
  | setOwn o key v => exact h.setOwn o key v
  | apply f receiver args => exact h.apply f receiver args
  | text v => exact h.text v
  | inspect v => exact h.inspect v
  | lookup name context => exact h.lookup name context
  | compileExpression src => exact h.compileExpression src
  | compileSource value => exact h.compileSource value
  | resolve resolver context => exact h.resolve context resolver
  | compileView template => exact h.compileView template
  | build view context factory => exact h.builds.build view context factory
  | make factory tag => exact h.make factory tag
  | newElement tag component context => exact h.newElement tag component context
  | element e => exact h.living e (h.element e)
  | contextOf e => exact h.living e (h.contextOf e)
  | getAttribute e name => exact h.living e (h.getAttribute e name)
  | attributes e => exact h.living e (h.bind (h.componentOf e) fun _ => h.readAttributes _)
  | setAttribute e name v => exact h.living e (h.setAttribute e name v)
  | addListener e event handler => exact h.living e (h.addListener e event handler)
  | listeners e event => exact h.living e (h.listeners e event)
  | dispatch e event v => exact h.living e (h.dispatch e event v)
  | handle handler event => exact h.handle handler event
  | appendChild e child => exact h.living e (h.living child (h.appendChild e child))
  | removeChild e child => exact h.living e (h.living child (h.removeChild e child))
  | clearChildren e => exact h.living e (h.clearChildren e)
  | setUpdater e updater => exact h.living e (h.setUpdater e updater)
  | update e => exact h.living e (h.update e)
  | find e name => exact h.living e (h.find e name)
  | outline e => exact h.living e (h.outline e)
  | hold e => exact h.living e (h.hold [e])
  | release e => exact h.release [e]
  | alive e => exact h.alive e
  | scheduler s => exact h.bind h.get fun _ => h.ofOption _
  | message level text => exact h.message level (h.pure text)
  | mark number => exact h.record rfl
  | _ => simp [Request.schedules] at hr

theorem run (h : Admits R enter) {p : Request → Prop}
    (hp : ∀ r, p r → Keeps R enter (Act.perform r)) {script : Script σ α}
    (hscript : script.Only p) : Keeps R enter (Act.run script) := by
  induction hscript with
  | done a => exact h.pure a
  | ask hr _ ih => exact h.bind (hp _ hr) ih
  | memory _ ih => exact h.bind h.get fun w => ih w.host
  | remember s _ ih => exact h.bind (h.modify fun w => .host w s) fun _ => ih
  | hang => exact h.never

end Admits

/-- A host program makes only some requests, and those that deal with schedulers keep the
effect. -/
structure Respects (R : Effect σ) (host : Host σ) (p : Request → Prop) : Prop where
  /-- What the host program asks for. -/
  only : ∀ call, (host.answer call).Only p
  /-- Changes that have nothing to do with schedulers. -/
  quiet : ∀ {b : Bool} {w w' : World σ}, Change w w' → R b w w'
  /-- One act after another. -/
  trans : ∀ {b : Bool} {u v w : World σ}, R true u v → R b v w → R b u w
  /-- Requests to schedulers, in which calls can be entered as well. -/
  schedules : ∀ {enter : Enter σ}, Admits R enter → ∀ r, p r → r.schedules = true →
    Keeps R enter (Act.perform r)

namespace Respects

variable {R : Effect σ} {host : Host σ} {p : Request → Prop}

theorem perform (h : Respects R host p) {enter : Enter σ} (henter : Admits R enter) (r : Request)
    (hr : p r) : Keeps R enter (Act.perform r) := by
  cases hschedules : r.schedules with
  | false => exact henter.perform r hschedules
  | true => exact h.schedules henter r hr hschedules

/-- The effect is kept however deep calls are nested. -/
theorem admits (h : Respects R host p) (depth : Nat) : Admits R (host.enter depth) := by
  induction depth with
  | zero => exact .of_quiet h.quiet h.trans fun _ w => h.quiet (.store w w.store)
  | succ depth ih =>
    refine .of_quiet h.quiet h.trans fun call => ?_
    cases call with
    | host call => exact ih.run (h.perform ih) (h.only call)
    | update e => exact ih.update e
    | inspect v => exact ih.inspect v

/-- The effect is kept by runs of scripts. -/
theorem run (h : Respects R host p) (depth : Nat) {script : Script σ α}
    (hscript : script.Only p) (w : World σ) :
    R (host.run depth script w).1.isSome w (host.run depth script w).2 :=
  (h.admits depth).run (h.perform (h.admits depth)) hscript w

end Respects

end ReactiveViews
