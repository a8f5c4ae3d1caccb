import ReactiveViews.Live.Scheduler

/-!
# Scripts and hosts

What the host program may do. A host answers the calls of the library with *scripts*: a script
asks the library for something, goes on depending on the answer, and ends with an answer of its
own. Between its calls the host remembers what it wants. So the functions, objects, components
and updaters of every host program are data here, and what holds of all scripts holds of all
host programs.

## The model

Every request is carried out by an act of the library. A script may ask only for elements that
are alive, since it could not have kept a reference to another; asked for a dead one, the
answer never comes. An element that a script has made or built is held for it until it lets go.

`Host.run` runs a script in a world. Calls that are entered run the scripts of the host in the
same way, with one level less to go; at the lowest level no answer comes.

## What is proved

Scripts form a lawful monad (`Script.bind_done`, `Script.bind_bind`), and running them respects
their sequence (`Act.run_bind`).
-/

namespace ReactiveViews

/-! ### Requests -/

/-- What a script may ask for. -/
inductive Request where
  /-- A new array. -/
  | newArray (items : List Value)
  /-- The items of an array. -/
  | arrayItems (a : ArrayId)
  /-- Other items for an array. -/
  | setItems (a : ArrayId) (items : List Value)
  /-- A new record. -/
  | newRecord (fields : Fields Value)
  /-- The fields of a record. -/
  | fields (r : RecordId)
  /-- Other fields for a record. -/
  | setFields (r : RecordId) (fields : Fields Value)
  /-- The value of a JSON value. -/
  | load (value : Json)
  /-- The items that a value is walked through by. -/
  | items (v : Value)
  /-- A property that a value owns. -/
  | getOwn (v : Value) (key : String)
  /-- The keys of an object. -/
  | keys (o : Object)
  /-- A property is written. -/
  | setOwn (o : Object) (key : String) (v : Value)
  /-- A function is called. -/
  | apply (f : Function) (receiver : Value) (args : List Value)
  /-- The text of a value. -/
  | text (v : Value)
  /-- A value shown in full. -/
  | inspect (v : Value)
  /-- The scope that owns a name, and the value. -/
  | lookup (name : String) (context : Context)
  /-- An expression is compiled. -/
  | compileExpression (src : String)
  /-- The value of a directive is compiled. -/
  | compileSource (value : Json)
  /-- A compiled value is evaluated. -/
  | resolve (resolver : Resolver) (context : Context)
  /-- A template is compiled. -/
  | compileView (template : Template)
  /-- A view is built. -/
  | build (view : View Resolver) (context : Context) (factory : Factory)
  /-- A component is made. -/
  | make (factory : Factory) (tag : String)
  /-- An element is made. -/
  | newElement (tag : Tag) (component : Component) (context : Context)
  /-- A look at an element. -/
  | element (e : ElementId)
  /-- The scopes for expressions of an element. -/
  | contextOf (e : ElementId)
  /-- An attribute. -/
  | getAttribute (e : ElementId) (name : String)
  /-- All attributes. -/
  | attributes (e : ElementId)
  /-- An attribute is set. -/
  | setAttribute (e : ElementId) (name : String) (v : Value)
  /-- A handler is added. -/
  | addListener (e : ElementId) (event : String) (handler : Handler)
  /-- The handlers of an event. -/
  | listeners (e : ElementId) (event : String)
  /-- An event is sent. -/
  | dispatch (e : ElementId) (event : String) (v : Value)
  /-- A handler handles an event. -/
  | handle (handler : Handler) (event : Value)
  /-- A child is appended. -/
  | appendChild (e child : ElementId)
  /-- A child is removed. -/
  | removeChild (e child : ElementId)
  /-- The children are removed. -/
  | clearChildren (e : ElementId)
  /-- An updater of the host program is installed. -/
  | setUpdater (e : ElementId) (updater : Nat)
  /-- An element is updated. -/
  | update (e : ElementId)
  /-- An element is looked for by name. -/
  | find (e : ElementId) (name : String)
  /-- The outline of a tree. -/
  | outline (e : ElementId)
  /-- An element is held. -/
  | hold (e : ElementId)
  /-- An element is let go. -/
  | release (e : ElementId)
  /-- Whether an element is alive. -/
  | alive (e : ElementId)
  /-- A new scheduler. -/
  | newScheduler
  /-- A look at a scheduler. -/
  | scheduler (s : SchedulerId)
  /-- A scheduler is given up. -/
  | close (s : SchedulerId)
  /-- An update is requested. -/
  | request (s : SchedulerId) (e : ElementId)
  /-- Requests are withdrawn. -/
  | cancel (s : SchedulerId) (e : ElementId)
  /-- A batch is run. -/
  | runBatch (s : SchedulerId)
  /-- Batches are run. -/
  | pump (s : SchedulerId) (batches : Nat)
  /-- Whether a frame had been asked for. -/
  | takeFrame (s : SchedulerId)
  /-- What a receiver knows. -/
  | receiver (r : ReceiverId)
  /-- A receiver is not listened to any more. -/
  | dropReceiver (r : ReceiverId)
  /-- A message is left. -/
  | message (level : Level) (text : String)
  /-- A mark is left. -/
  | mark (number : Nat)
  /-- What happened after the first so many events. -/
  | journal (since : Nat)

/-- What a request is answered with. -/
def Request.Reply : Request → Type
  | newArray _ | newRecord _ | load _ => Value
  | arrayItems _ => List Value
  | setItems .. | setFields .. | setUpdater .. | hold _ | release _ | close _ | cancel .. |
    dropReceiver _ | message .. | mark _ => Unit
  | fields _ | attributes _ => Fields Value
  | items _ => Except EvalError (List Value)
  | getOwn .. => Option Value
  | keys _ => List String
  | setOwn .. | alive _ | takeFrame _ => Bool
  | apply .. | resolve .. | handle .. => Except EvalError Value
  | text _ | inspect _ | outline _ => String
  | lookup .. => Option (Value × Value)
  | compileExpression _ | compileSource _ => Except Fault Resolver
  | compileView _ => Except ViewError (View Resolver)
  | build .. => Except ViewError ElementId
  | make .. => Except ComponentError Component
  | newElement .. => ElementId
  | element _ => Element
  | contextOf _ => Context
  | getAttribute .. => Except ComponentError Value
  | setAttribute .. | addListener .. | appendChild .. | removeChild .. | clearChildren _ =>
    Except ComponentError Unit
  | listeners .. => Except ComponentError (List Handler)
  | dispatch .. => Except ComponentError (List Value)
  | update _ => Except ViewError Unit
  | find .. => Option ElementId
  | newScheduler => SchedulerId
  | scheduler _ => Scheduler
  | request .. => ReceiverId
  | runBatch _ => BatchReport
  | pump .. => Nat
  | receiver _ => ReceiverState
  | journal _ => List Event

/-! ### Scripts -/

/-- A script of the host program, which remembers `σ` and ends with `α`. -/
inductive Script (σ α : Type) : Type where
  /-- The end. -/
  | done (a : α)
  /-- A request, and how to go on. -/
  | ask (r : Request) (next : r.Reply → Script σ α)
  /-- What the host program remembers. -/
  | memory (next : σ → Script σ α)
  /-- The host program remembers something else. -/
  | remember (s : σ) (next : Script σ α)
  /-- The host program never answers. -/
  | hang

namespace Script

variable {σ α β : Type}

/-- One script after another. -/
def bind : Script σ α → (α → Script σ β) → Script σ β
  | done a, f => f a
  | ask r next, f => ask r fun reply => (next reply).bind f
  | memory next, f => memory fun s => (next s).bind f
  | remember s next, f => remember s (next.bind f)
  | hang, _ => hang

instance : Monad (Script σ) where
  pure := done
  bind := bind

instance : Inhabited (Script σ α) := ⟨hang⟩

/-- A request by itself. -/
def request (r : Request) : Script σ r.Reply := ask r done

theorem bind_done (s : Script σ α) : s.bind done = s := by
  induction s with
  | done a => rfl
  | ask r next ih => exact congrArg (ask r) (funext ih)
  | memory next ih => exact congrArg memory (funext ih)
  | remember s next ih => exact congrArg (remember s) ih
  | hang => rfl

theorem bind_bind {γ : Type} (s : Script σ α) (f : α → Script σ β) (g : β → Script σ γ) :
    (s.bind f).bind g = s.bind fun a => (f a).bind g := by
  induction s with
  | done a => rfl
  | ask r next ih => exact congrArg (ask r) (funext ih)
  | memory next ih => exact congrArg memory (funext ih)
  | remember s next ih => exact congrArg (remember s) ih
  | hang => rfl

instance : LawfulMonad (Script σ) :=
  LawfulMonad.mk' (Script σ) bind_done (fun _ _ => rfl) bind_bind

end Script

/-! ### Carrying out requests -/

namespace Act

variable {σ α : Type}

/-- An act that a reference to an element is needed for. -/
def living (e : ElementId) (act : Act σ α) : Act σ α := do
  if ← alive e then act else never

/-- Carries out a request. -/
def perform : (r : Request) → Act σ r.Reply
  | .newArray items => newArray items
  | .arrayItems a => return (← get).store.items a
  | .setItems a items => modify fun w => { w with store := w.store.setItems a items }
  | .newRecord fields => newRecord fields
  | .fields r => return (← get).store.fields r
  | .setFields r fields => modify fun w => { w with store := w.store.setFields r fields }
  | .load value => load value
  | .items v => items v
  | .getOwn v key => getOwn v key
  | .keys o => keys o
  | .setOwn o key v => setOwn o key v
  | .apply f receiver args => apply f receiver args
  | .text v => text v
  | .inspect v => inspect v
  | .lookup name context => lookup name context
  | .compileExpression src => compileExpression src
  | .compileSource value => compileSource value
  | .resolve resolver context => ExceptT.run (Eval.resolve context resolver)
  | .compileView template => compileView template
  | .build view context factory => ExceptT.run (Build.build view context factory)
  | .make factory tag => make factory tag
  | .newElement tag component context => newElement tag component context
  | .element e => living e (element e)
  | .contextOf e => living e (contextOf e)
  | .getAttribute e name => living e (getAttribute e name)
  | .attributes e => living e do readAttributes (← component e)
  | .setAttribute e name v => living e (setAttribute e name v)
  | .addListener e event handler => living e (addListener e event handler)
  | .listeners e event => living e (listeners e event)
  | .dispatch e event v => living e (dispatch e event v)
  | .handle handler event => handle handler event
  | .appendChild e child => living e (living child (appendChild e child))
  | .removeChild e child => living e (living child (removeChild e child))
  | .clearChildren e => living e (clearChildren e)
  | .setUpdater e updater => living e (setUpdater e updater)
  | .update e => living e (update e)
  | .find e name => living e (find e name)
  | .outline e => living e (outline e)
  | .hold e => living e (hold [e])
  | .release e => release [e]
  | .alive e => alive e
  | .newScheduler => newScheduler
  | .scheduler s => scheduler s
  | .close s => close s
  | .request s e => living e (request s e)
  | .cancel s e => living e (cancel s e)
  | .runBatch s => runBatch s
  | .pump s batches => pump s batches
  | .takeFrame s => takeFrame s
  | .receiver r => return ((← get).receivers.get? r.row).getD .dropped
  | .dropReceiver r => dropReceiver r
  | .message level text => message level (pure text)
  | .mark number => record (.mark number)
  | .journal since => return ((← get).journal.extract since).toList

/-- Runs a script. -/
def run : Script σ α → Act σ α
  | .done a => return a
  | .ask r next => do run (next (← perform r))
  | .memory next => do run (next (← get).host)
  | .remember s next => do
    modify fun w => { w with host := s }
    run next
  | .hang => never

/-- Running one script after another is running the first and then the second. -/
theorem run_bind {β : Type} (s : Script σ α) (f : α → Script σ β) :
    run (s.bind f) = run s >>= fun a => run (f a) := by
  induction s with
  | done a => rfl
  | ask r next ih => simp only [Script.bind, run, ih, bind_assoc]
  | memory next ih => simp only [Script.bind, run, ih, bind_assoc]
  | remember s next ih => simp only [Script.bind, run, ih, bind_assoc]
  | hang => rfl

end Act

/-! ### Hosts -/

/-- A host program: the script with which it answers each call. -/
structure Host (σ : Type) where
  /-- The script of a call. -/
  answer : (call : HostCall) → Script σ call.Reply

/-- What a call that is entered does. -/
def Call.body {σ : Type} (host : Host σ) : (call : Call) → Act σ call.Reply
  | .host call => Act.run (host.answer call)
  | .update e => Act.update e
  | .inspect v => Act.inspect v

namespace Host

variable {σ α : Type}

/-- Enters calls that are nested at most `depth` deep. -/
def enter (host : Host σ) : Nat → Enter σ
  | 0 => fun _ w => (none, w)
  | depth + 1 => fun call w => (call.body host).runIn (host.enter depth) w

/-- Carries out an act with the help of a host. -/
def carryOut (host : Host σ) (depth : Nat) (act : Act σ α) (w : World σ) : Option α × World σ :=
  act.runIn (host.enter depth) w

/-- Runs a script with the help of a host. -/
def run (host : Host σ) (depth : Nat) (script : Script σ α) (w : World σ) : Option α × World σ :=
  host.carryOut depth (Act.run script) w

end Host

end ReactiveViews
