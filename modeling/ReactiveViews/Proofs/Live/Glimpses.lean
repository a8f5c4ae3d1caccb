import ReactiveViews.Proofs.Live.Effects

/-!
# Worlds that a host program sees

A host program sees the world at every step of its scripts: of the one that is run, and of those with
which it answers the calls of the library, wherever in the middle of an update these are entered. A run
can be stopped at any of these steps. Whatever holds of the world in which a run has been stopped, for
every condition to stop at, holds of every world that the host program gets to see.

## The model

`Act.runUntil` runs a script as `Act.run` does, but looks at the world before each step and does not
answer if it is one to stop at; `Host.stopped` is the world in which a run has been stopped, or in which
it has ended if it never came to such a world.

## What is proved

If there is nothing to stop at, a run is as it is otherwise (`Host.runUntil_never`). An effect that
*overlooks* all but the elements is kept by everything that does not touch them, and so by all that can
be stopped if it is kept by updates and by those requests that touch elements (`Watches.stopped`).
-/

namespace ReactiveViews

variable {σ α : Type}

/-! ### Stopping -/

namespace Act

/-- Goes on, unless the world is one to stop at. -/
def pass (stop : World σ → Bool) : Act σ Unit := do
  if stop (← get) then never

/-- Runs a script as long as the world is not one to stop at. -/
def runUntil (stop : World σ → Bool) : Script σ α → Act σ α
  | .done a => do
    pass stop
    return a
  | .ask r next => do
    pass stop
    runUntil stop (next (← perform r))
  | .memory next => do
    pass stop
    runUntil stop (next (← get).host)
  | .remember s next => do
    pass stop
    modify fun w => { w with host := s }
    runUntil stop next
  | .hang => never

theorem pass_never : (pass fun _ => false : Act σ Unit) = pure () := rfl

theorem runUntil_never (script : Script σ α) : runUntil (fun _ => false) script = run script := by
  induction script with
  | done a => rfl
  | ask r next ih => simp only [runUntil, run, pass_never, pure_bind, ih]
  | memory next ih => simp only [runUntil, run, pass_never, pure_bind, ih]
  | remember s next ih => simp only [runUntil, run, pass_never, pure_bind, ih]
  | hang => rfl

end Act

/-- What a call that is entered does as long as the world is not one to stop at. -/
def Call.bodyUntil (host : Host σ) (stop : World σ → Bool) : (call : Call) → Act σ call.Reply
  | .host call => Act.runUntil stop (host.answer call)
  | .update e => Act.update e
  | .inspect v => Act.inspect v

namespace Host

/-- Enters calls that are nested at most `depth` deep, as long as the world is not one to stop at. -/
def enterUntil (host : Host σ) (stop : World σ → Bool) : Nat → Enter σ
  | 0 => fun _ w => (none, w)
  | depth + 1 => fun call w => (call.bodyUntil host stop).runIn (host.enterUntil stop depth) w

/-- Runs a script with the help of a host as long as the world is not one to stop at. -/
def runUntil (host : Host σ) (stop : World σ → Bool) (depth : Nat) (script : Script σ α)
    (w : World σ) : Option α × World σ :=
  (Act.runUntil stop script).runIn (host.enterUntil stop depth) w

/-- The world in which a run from the beginning has been stopped, or has ended. -/
def stopped (host : Host σ) (stop : World σ → Bool) (depth : Nat) (script : Script σ α)
    (level : Level) (memory : σ) : World σ :=
  (host.runUntil stop depth script (.empty level memory)).2

theorem enterUntil_never (host : Host σ) (depth : Nat) :
    host.enterUntil (fun _ => false) depth = host.enter depth := by
  induction depth with
  | zero => rfl
  | succ depth ih =>
    funext call w
    have hbody : call.bodyUntil host (fun _ => false) = call.body host := by
      cases call with
      | host call => exact Act.runUntil_never _
      | update e => rfl
      | inspect v => rfl
    show (call.bodyUntil host fun _ => false).runIn (host.enterUntil (fun _ => false) depth) w =
      (call.body host).runIn (host.enter depth) w
    rw [hbody, ih]

/-- With nothing to stop at, a run is as it is otherwise. -/
theorem runUntil_never (host : Host σ) (depth : Nat) (script : Script σ α) (w : World σ) :
    host.runUntil (fun _ => false) depth script w = host.run depth script w := by
  rw [runUntil, Act.runUntil_never, enterUntil_never]
  rfl

end Host

/-! ### Effects on elements -/

/-- Requests that may make or change elements. -/
def Request.touches : Request → Bool
  | build .. | newElement .. | setAttribute .. | addListener .. | appendChild .. | removeChild .. |
    clearChildren _ | setUpdater .. | update _ | runBatch _ | pump .. => true
  | _ => false

/-- What the journal tells of updaters. -/
def World.updates (w : World σ) : List Event := w.journal.toList.filter Event.isUpdate

theorem World.updates_record (w : World σ) (event : Event) :
    (w.record event).updates = w.updates ++ if event.isUpdate then [event] else [] := by
  simp [updates, record, List.filter_append, List.filter_cons]

theorem World.updates_record_of_not {w : World σ} {event : Event} (h : event.isUpdate = false) :
    (w.record event).updates = w.updates := by
  simp [updates_record, h]

/-- The effect admits all that leaves the elements and their updaters alone, can be chained, and is kept
by the calls that are entered. -/
structure Overlooks (R : Effect σ) (enter : Enter σ) : Prop extends Bears R enter where
  /-- Changes of everything but the elements. -/
  aside : ∀ {b : Bool} {w w' : World σ}, w'.elements = w.elements → w'.updates = w.updates → R b w w'

theorem Ripple.elements_eq {w w' : World σ} (h : Ripple w w') : w'.elements = w.elements := by
  cases h <;> rfl

theorem Ripple.updates_eq {w w' : World σ} (h : Ripple w w') : w'.updates = w.updates := by
  cases h with
  | event _ hupdate => exact World.updates_record_of_not hupdate
  | _ => rfl

theorem World.updates_updateScheduler (w : World σ) (s : SchedulerId) (f : Scheduler → Scheduler) :
    (w.updateScheduler s f).updates = w.updates := by
  unfold World.updateScheduler
  split <;> rfl

namespace Overlooks

variable {R : Effect σ} {enter : Enter σ}

theorem of_aside
    (haside : ∀ {b : Bool} {w w' : World σ}, w'.elements = w.elements → w'.updates = w.updates → R b w w')
    (htrans : ∀ {b : Bool} {u v w : World σ}, R true u v → R b v w → R b u w)
    (hcalls : ∀ call : Call, Keeps R enter (Act.enter call)) : Overlooks R enter where
  ripple h := haside h.elements_eq h.updates_eq
  trans := htrans
  calls := hcalls
  aside := haside

theorem modify (h : Overlooks R enter) {f : World σ → World σ}
    (hf : ∀ w, (f w).elements = w.elements ∧ (f w).updates = w.updates) :
    Keeps R enter (modify f : Act σ Unit) := fun w => h.aside (hf w).1 (hf w).2

theorem modifyGet (h : Overlooks R enter) {f : World σ → α × World σ}
    (hf : ∀ w, (f w).2.elements = w.elements ∧ (f w).2.updates = w.updates) :
    Keeps R enter (modifyGet f : Act σ α) := fun w => h.aside (hf w).1 (hf w).2

theorem record (h : Overlooks R enter) {event : Event} (hupdate : event.isUpdate = false) :
    Keeps R enter (Act.record event) :=
  h.modify fun _ => ⟨rfl, World.updates_record_of_not hupdate⟩

/-! ### Values -/

theorem setOwn (h : Overlooks R enter) (o : Object) (key : String) (v : Value) :
    Keeps R enter (Act.setOwn o key v) := by
  cases o with
  | record => exact h.bind (h.modify fun _ => ⟨rfl, rfl⟩) fun _ => h.pure _
  | scope => exact h.pure _
  | foreign => exact h.enterHost _

theorem compileView (h : Overlooks R enter) (template : Template) :
    Keeps R enter (Act.compileView template) := by
  refine h.bind (h.traced _) fun answer => ?_
  cases answer with
  | error error => exact h.pure _
  | ok view => exact h.modifyGet fun _ => ⟨rfl, rfl⟩

theorem compileSource (h : Overlooks R enter) (value : Json) :
    Keeps R enter (Act.compileSource value) := by
  refine h.bind (h.traced _) fun answer => ?_
  cases answer with
  | error error => exact h.pure _
  | ok source => exact h.modifyGet fun _ => ⟨rfl, rfl⟩

/-! ### Schedulers -/

theorem scheduler (h : Overlooks R enter) (s : SchedulerId) : Keeps R enter (Act.scheduler s) :=
  h.bind h.get fun _ => h.ofOption _

theorem updateScheduler (h : Overlooks R enter) (s : SchedulerId) (f : Scheduler → Scheduler) :
    Keeps R enter (Act.updateScheduler s f) :=
  h.modify fun w => ⟨w.elements_updateScheduler s f, w.updates_updateScheduler s f⟩

theorem tell (h : Overlooks R enter) (state : ReceiverState) (r : ReceiverId) :
    Keeps R enter (Act.tell state r) := by
  refine h.bind h.get fun w => ?_
  split
  · exact h.bind (h.modify fun _ => ⟨rfl, rfl⟩) fun _ => h.record rfl
  · exact h.pure _

theorem request (h : Overlooks R enter) (s : SchedulerId) (e : ElementId) :
    Keeps R enter (Act.request s e) := by
  refine h.bind (h.modifyGet fun _ => ⟨rfl, rfl⟩) fun r => h.bind (h.scheduler s) fun x =>
    h.bind (h.updateScheduler s _) fun _ => h.bind (h.record rfl) fun _ => ?_
  split
  · exact h.bind (h.bind (h.message _ (h.pure _)) fun _ => h.updateScheduler s _) fun _ => h.pure _
  · exact h.pure _

theorem cancel (h : Overlooks R enter) (s : SchedulerId) (e : ElementId) :
    Keeps R enter (Act.cancel s e) := h.bind (h.updateScheduler s _) fun _ => h.record rfl

theorem takeFrame (h : Overlooks R enter) (s : SchedulerId) : Keeps R enter (Act.takeFrame s) :=
  h.bind (h.scheduler s) fun _ => h.bind (h.updateScheduler s _) fun _ => h.pure _

theorem close (h : Overlooks R enter) (s : SchedulerId) : Keeps R enter (Act.close s) :=
  h.bind (h.scheduler s) fun _ => h.bind (h.updateScheduler s _) fun _ =>
    h.bind (h.record rfl) fun _ => h.forM (h.tell _) _

theorem account (h : Overlooks R enter) (e : ElementId) (answer : Except ViewError Unit) :
    Keeps R enter (Act.account e answer) := by
  cases answer with
  | ok => exact h.pure _
  | error error =>
    exact h.bind (h.element e) fun _ => h.bind (h.message _ (h.pure _)) fun _ => h.pure _

theorem turnIfAlive (h : Overlooks R enter) (s : SchedulerId) (e : ElementId) :
    Keeps R enter (Act.turnIfAlive s e) := by
  refine h.bind (h.alive e) fun living => ?_
  split
  · refine h.holding _ (h.bind (h.record rfl) fun _ => h.bind (h.enterUpdate e) fun answer => ?_)
    exact h.bind (h.record rfl) fun _ => h.account e answer
  · exact h.bind (h.record rfl) fun _ => h.bind (h.message _ (h.pure _)) fun _ => h.pure _

theorem next (h : Overlooks R enter) (s : SchedulerId) : Keeps R enter (Act.next s) := by
  refine h.bind (h.scheduler s) fun x => ?_
  split
  · exact h.pure _
  · exact h.bind (h.updateScheduler s _) fun _ => h.pure _

theorem turns (h : Overlooks R enter) (s : SchedulerId) (n : Nat) :
    ∀ report, Keeps R enter (Act.turns s n report) := by
  induction n with
  | zero => exact fun _ => h.pure _
  | succ n ih =>
    intro report
    refine h.bind (h.next s) fun e => ?_
    cases e with
    | none => exact h.pure _
    | some e => exact h.bind (h.turnIfAlive s e) fun _ => ih _

theorem runBatch (h : Overlooks R enter) (s : SchedulerId) : Keeps R enter (Act.runBatch s) := by
  have hbegin : Keeps R enter (Act.begin s) :=
    h.bind (h.scheduler s) fun _ => h.bind (h.updateScheduler s _) fun _ =>
      h.bind (h.record rfl) fun _ => h.pure _
  exact h.bind hbegin fun _ => h.bind (h.turns s _ _) fun _ => h.bind (h.forM (h.tell _) _) fun _ =>
    h.bind (h.message _ (h.pure _)) fun _ => h.pure _

theorem pump (h : Overlooks R enter) (s : SchedulerId) (n : Nat) : Keeps R enter (Act.pump s n) := by
  induction n with
  | zero => exact h.pure _
  | succ n ih =>
    refine h.bind (h.takeFrame s) fun asked => ?_
    split
    · exact h.bind (h.runBatch s) fun _ => h.bind ih fun _ => h.pure _
    · exact h.pure _

/-! ### Requests -/

/-- Requests that touch no element, but in calls. -/
theorem perform (h : Overlooks R enter) (r : Request) (hr : r.touches = false) :
    Keeps R enter (Act.perform r) := by
  cases r with
  | newArray items => exact h.newArray items
  | arrayItems | fields | receiver | journal => exact h.bind h.get fun _ => h.pure _
  | setItems | setFields | dropReceiver => exact h.modify fun _ => ⟨rfl, rfl⟩
  | newRecord fields => exact h.newRecord fields
  | load value => exact h.modifyGet fun _ => ⟨rfl, rfl⟩
  | items v => exact h.items v
  | getOwn v key => exact h.getOwn v key
  | keys o => exact h.keys o
  | setOwn o key v => exact h.setOwn o key v
  | apply f receiver args => exact h.apply f receiver args
  | text v => exact h.text v
  | inspect v => exact h.inspect v
  | lookup name context => exact h.lookup name context
  | compileExpression src => exact h.bind (h.traced _) fun _ => h.pure _
  | compileSource value => exact h.compileSource value
  | resolve resolver context => exact h.resolve context resolver
  | compileView template => exact h.compileView template
  | make factory tag => exact h.make factory tag
  | element e => exact h.living e (h.element e)
  | contextOf e => exact h.living e (h.contextOf e)
  | getAttribute e name => exact h.living e (h.getAttribute e name)
  | attributes e => exact h.living e (h.bind (h.componentOf e) fun _ => h.readAttributes _)
  | listeners e event => exact h.living e (h.listeners e event)
  | dispatch e event v => exact h.living e (h.dispatch e event v)
  | handle handler event => exact h.handle handler event
  | find e name => exact h.living e (h.find e name)
  | outline e => exact h.living e (h.outline e)
  | hold e => exact h.living e (h.hold [e])
  | release e => exact h.release [e]
  | alive e => exact h.alive e
  | newScheduler => exact h.modifyGet fun _ => ⟨rfl, rfl⟩
  | scheduler s => exact h.scheduler s
  | close s => exact h.close s
  | request s e => exact h.living e (h.request s e)
  | cancel s e => exact h.living e (h.cancel s e)
  | takeFrame s => exact h.takeFrame s
  | message level text => exact h.message level (h.pure text)
  | mark number => exact h.record rfl
  | _ => simp [Request.touches] at hr

theorem pass (h : Overlooks R enter) (stop : World σ → Bool) : Keeps R enter (Act.pass stop) := by
  refine h.bind h.get fun w => ?_
  split
  · exact h.never
  · exact h.pure _

theorem runUntil (h : Overlooks R enter) (stop : World σ → Bool) {p : Request → Prop}
    (hp : ∀ r, p r → Keeps R enter (Act.perform r)) {script : Script σ α}
    (hscript : script.Only p) : Keeps R enter (Act.runUntil stop script) := by
  induction hscript with
  | done a => exact h.bind (h.pass stop) fun _ => h.pure a
  | ask hr _ ih => exact h.bind (h.pass stop) fun _ => h.bind (hp _ hr) ih
  | memory _ ih => exact h.bind (h.pass stop) fun _ => h.bind h.get fun w => ih w.host
  | remember s _ ih =>
    exact h.bind (h.pass stop) fun _ => h.bind (h.modify fun _ => ⟨rfl, rfl⟩) fun _ => ih
  | hang => exact h.never

end Overlooks

/-- A host program makes only some requests, and those that touch elements keep the effect, as
updates do. -/
structure Watches (R : Effect σ) (host : Host σ) (p : Request → Prop) : Prop where
  /-- What the host program asks for. -/
  only : ∀ call, (host.answer call).Only p
  /-- Changes of everything but the elements. -/
  aside : ∀ {b : Bool} {w w' : World σ}, w'.elements = w.elements → w'.updates = w.updates → R b w w'
  /-- One act after another. -/
  trans : ∀ {b : Bool} {u v w : World σ}, R true u v → R b v w → R b u w
  /-- Requests that touch elements, in which calls can be entered as well. -/
  touches : ∀ {enter : Enter σ}, Overlooks R enter → ∀ r, p r → r.touches = true →
    Keeps R enter (Act.perform r)
  /-- Updates. -/
  update : ∀ {enter : Enter σ}, Overlooks R enter → ∀ e, Keeps R enter (Act.update e)

namespace Watches

variable {R : Effect σ} {host : Host σ} {p : Request → Prop}

theorem perform (h : Watches R host p) {enter : Enter σ} (henter : Overlooks R enter) (r : Request)
    (hr : p r) : Keeps R enter (Act.perform r) := by
  cases htouches : r.touches with
  | false => exact henter.perform r htouches
  | true => exact h.touches henter r hr htouches

/-- The effect is kept however deep calls are nested, and wherever they are stopped. -/
theorem overlooks (h : Watches R host p) (stop : World σ → Bool) (depth : Nat) :
    Overlooks R (host.enterUntil stop depth) := by
  induction depth with
  | zero => exact .of_aside h.aside h.trans fun _ _ => h.aside rfl rfl
  | succ depth ih =>
    refine .of_aside h.aside h.trans fun call => ?_
    cases call with
    | host call => exact ih.runUntil stop (h.perform ih) (h.only call)
    | update e => exact h.update ih e
    | inspect v => exact ih.inspect v

/-- The effect has been kept wherever a run is stopped. -/
theorem stopped (h : Watches R host p) (stop : World σ → Bool) (depth : Nat) {script : Script σ α}
    (hscript : script.Only p) (level : Level) (memory : σ) :
    R (host.runUntil stop depth script (.empty level memory)).1.isSome (.empty level memory)
      (host.stopped stop depth script level memory) :=
  (h.overlooks stop depth).runUntil stop (h.perform (h.overlooks stop depth)) hscript _

end Watches

end ReactiveViews
