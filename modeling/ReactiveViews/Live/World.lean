import ReactiveViews.Value.Store
import ReactiveViews.Template.View

/-!
# The world of live elements

Everything that changes while views are shown: the store of arrays and records, the elements
with their components, the schedulers, and the journal of what happened.

## The model

Elements are rows of a table and are never taken out of it. Whether one is still *alive* is a
question about the rest: an element lives as long as it is held, or is kept by another living
element as a child or in one of its slots. `World.alive` follows the keepers of an element
upwards, each of them once. A chain of keepers longer than there are elements goes in a circle,
and elements that keep each other in a circle keep each other alive.

The journal is only ever added to. It records the messages for those who watch, the marks of
the host program, each request, withdrawal, batch, turn and resolution of the schedulers,
when updaters are installed, begin and end, and when lists are shown from memory.
-/

namespace ReactiveViews

/-! ### Contexts and resolvers -/

/-- The scopes in which an expression is evaluated, innermost first. -/
abbrev Context := List Value

/-- The compiled value of a directive, ready to be evaluated. -/
inductive Resolver where
  /-- A text with its expressions. -/
  | text (parts : List Part)
  /-- A value that stands for itself. -/
  | constant (v : Value)
  deriving Inhabited

/-! ### Components -/

/-- What is done when an event arrives. -/
inductive Handler where
  /-- Evaluate an expression in the context of an element, if it is alive. -/
  | directive (target : ElementId) (resolver : Resolver)
  /-- A handler of the host program. -/
  | foreign (number : Nat)
  deriving Inhabited

/-- A component that draws nothing and remembers everything. -/
structure Headless where
  /-- The kind of component. -/
  tag : String
  /-- The attributes in the order in which they were first set. -/
  attributes : Fields Value
  /-- The handlers of each event in the order in which they were added. -/
  listeners : Fields (List Handler)
  /-- The children shown, in order. -/
  mounted : List ElementId
  deriving Inhabited

/-- The thing behind an element that draws it. -/
inductive Component where
  /-- A component that draws nothing. -/
  | headless (h : Headless)
  /-- A component of the host program. -/
  | foreign (number : Nat)
  deriving Inhabited

/-- Where components come from. -/
inductive Factory where
  /-- Components that draw nothing. -/
  | headless
  /-- A factory of the host program. -/
  | foreign (number : Nat)
  deriving DecidableEq, Repr, Inhabited

/-! ### Elements -/

/-- What a list slot remembers of its last evaluation. -/
structure Repetition where
  /-- The list. -/
  list : Value
  /-- The context of each item. -/
  contexts : List Context
  /-- Whether each item was shown. -/
  conditions : List Bool
  /-- The elements of the items shown. -/
  elements : List ElementId

/-- The record in front of a context. -/
def Context.front? : Context → Option RecordId
  | .object (.record r) :: _ => some r
  | _ => none

/-- The records that stand for the items. -/
def Repetition.frames (last : Repetition) : List RecordId := last.contexts.filterMap Context.front?

/-- What a slot remembers. -/
inductive Memory where
  /-- The element of a single child, if it was shown. -/
  | single (element : Option ElementId)
  /-- The last evaluation of a list, if there was one. -/
  | repeated (last : Option Repetition)

/-- The place of one child node in the element of its parent. -/
structure Slot where
  /-- The node. -/
  node : Node Resolver
  /-- What is remembered. -/
  memory : Memory

/-- A slot before its first evaluation. -/
def Slot.fresh (node : Node Resolver) : Slot :=
  ⟨node, if node.repetition.isSome then .repeated none else .single none⟩

/-- The elements that a slot keeps. -/
def Slot.elements (slot : Slot) : List ElementId :=
  match slot.memory with
  | .single element => element.toList
  | .repeated last => (last.map Repetition.elements).getD []

/-- How an element is brought up to date. -/
inductive Updater where
  /-- As its node says. -/
  | view (node : Node Resolver) (factory : Factory)
  /-- By the host program. -/
  | foreign (number : Nat)
  deriving Inhabited

/-- The number of an updater of the host program. -/
def Updater.number? : Updater → Option Nat
  | view _ _ => none
  | foreign number => some number

/-- Whether an updater is the one that an element is made with. -/
def Updater.isView : Updater → Bool
  | view _ _ => true
  | foreign _ => false

/-- An element of a component tree. -/
structure Element where
  /-- Its tag descriptor. -/
  tag : Tag
  /-- What draws it. -/
  component : Component
  /-- Whether its component is in the middle of a change. -/
  busy : Bool
  /-- The scopes around it. -/
  context : Context
  /-- Its children in order. -/
  children : List ElementId
  /-- Its updater, unless it has none or is being updated. -/
  updater : Option Updater
  /-- The slots of its child nodes, as long as its own updater exists. -/
  slots : List Slot
  deriving Inhabited

/-- Whether an element keeps another as a child or in a slot. -/
def Element.keeps (element : Element) (e : ElementId) : Bool :=
  element.children.contains e || element.slots.any (·.elements.contains e)

/-! ### Schedulers -/

/-- A scheduler. -/
structure SchedulerId where
  /-- Its row. -/
  row : Nat
  deriving DecidableEq, Repr, Inhabited

/-- A receiver of the news that a requested update has been dealt with. -/
structure ReceiverId where
  /-- Its row; the receivers are numbered in the order in which they were handed out. -/
  row : Nat
  deriving DecidableEq, Repr, Inhabited

/-- What a receiver knows. -/
inductive ReceiverState where
  /-- Nothing yet. -/
  | pending
  /-- The batch of the request is over. -/
  | done
  /-- The scheduler is gone. -/
  | canceled
  /-- Nobody is listening any more. -/
  | dropped
  deriving DecidableEq, Repr, Inhabited

/-- A scheduler: the requests for the next batch and the batch in progress. -/
structure Scheduler where
  /-- The elements to be updated, in the order of their first requests. -/
  pending : List ElementId
  /-- The receivers to be told after the next batch. -/
  waiters : List ReceiverId
  /-- The elements of the batch in progress that have not had their turn. -/
  running : List ElementId
  /-- Whether a frame has been asked for. -/
  frame : Bool
  deriving DecidableEq, Repr, Inhabited

/-- A scheduler without requests. -/
def Scheduler.idle : Scheduler := ⟨[], [], [], false⟩

/-! ### The journal -/

/-- How important a message is. -/
inductive Level where
  /-- No message at all. -/
  | off
  /-- Something failed. -/
  | error
  /-- Something is suspicious. -/
  | warn
  /-- The large steps. -/
  | info
  /-- The steps. -/
  | debug
  /-- Everything. -/
  | trace
  deriving DecidableEq, Repr, Inhabited

namespace Level

/-- The levels in order of growing detail. -/
def rank : Level → Nat
  | off => 0
  | error => 1
  | warn => 2
  | info => 3
  | debug => 4
  | trace => 5

/-- The word for a level. -/
def word : Level → String
  | off => "off"
  | error => "error"
  | warn => "warn"
  | info => "info"
  | debug => "debug"
  | trace => "trace"

/-- The level of a word. -/
def ofWord? (word : String) : Option Level :=
  [off, error, warn, info, debug, trace].find? (·.word = word)

end Level

/-- Something that happened. -/
inductive Event where
  /-- A message. -/
  | message (level : Level) (text : String)
  /-- A mark of the host program. -/
  | mark (number : Nat)
  /-- An update was requested. -/
  | requested (s : SchedulerId) (e : ElementId) (r : ReceiverId)
  /-- The requests of an element were withdrawn. -/
  | withdrawn (s : SchedulerId) (e : ElementId)
  /-- A batch begins, in place of what is left of the one in progress. -/
  | began (s : SchedulerId) (left : List ElementId)
  /-- The turn of an element in a batch begins. -/
  | turn (s : SchedulerId) (e : ElementId)
  /-- The turn of an element in a batch is over; it was updated, or the update failed. -/
  | served (s : SchedulerId) (e : ElementId) (success : Bool)
  /-- A batch found an element dead. -/
  | skipped (s : SchedulerId) (e : ElementId)
  /-- A scheduler was given up. -/
  | closed (s : SchedulerId)
  /-- A receiver was told something. -/
  | resolved (r : ReceiverId) (state : ReceiverState)
  /-- An updater was installed; the host program's have numbers. -/
  | installed (e : ElementId) (updater : Option Nat)
  /-- The updater of an element begins. -/
  | updating (e : ElementId) (updater : Option Nat)
  /-- The updater of an element has ended. -/
  | updated (e : ElementId) (updater : Option Nat) (success : Bool)
  /-- A list slot found the array that it remembers, as long as it was; these records stand for
  its items. -/
  | kept (a : ArrayId) (frames : List RecordId)
  deriving DecidableEq, Repr

/-! ### The world -/

/-- Everything that changes; `σ` is what the host program remembers. -/
structure World (σ : Type) where
  /-- Arrays and records. -/
  store : Store
  /-- The elements. -/
  elements : Table Element
  /-- The elements that are held by running code or by the host program, each as often as it
  is held. -/
  held : List ElementId
  /-- The schedulers. -/
  schedulers : Table Scheduler
  /-- The receivers. -/
  receivers : Table ReceiverState
  /-- How many scopes have been taken from elements. -/
  marks : Nat
  /-- The detail of the messages. -/
  level : Level
  /-- What happened, first to last. -/
  journal : Array Event
  /-- What the host program remembers. -/
  host : σ

namespace World

variable {σ : Type}

/-- The world before anything happened. -/
def empty (level : Level) (host : σ) : World σ :=
  ⟨.empty, .empty, [], .empty, .empty, 0, level, #[], host⟩

/-- The elements that keep an element. -/
def keepers (w : World σ) (e : ElementId) : List ElementId :=
  (List.range w.elements.size).filterMap fun row =>
    match w.elements.get? row with
    | some element => if element.keeps e then some ⟨row⟩ else none
    | none => none

/-- Follows the keepers of an element upwards, given elements that are known to be dead. There
is no answer if something held is reached, or if a chain of keepers is at least so long;
otherwise the element is dead, and is added to the dead ones after all that keep it. -/
def bury (w : World σ) : Nat → List ElementId → ElementId → Option (List ElementId)
  | 0, _, _ => none
  | n + 1, dead, e =>
    if dead.contains e then some dead
    else if w.held.contains e then none
    else (e :: ·) <$> (w.keepers e).foldlM (w.bury n) dead

/-- Whether an element is alive. -/
def alive (w : World σ) (e : ElementId) : Bool :=
  e.row < w.elements.size && (w.bury (w.elements.size + 1) [] e).isNone

theorem alive_of_held {w : World σ} {e : ElementId} (h : e.row < w.elements.size)
    (hheld : e ∈ w.held) : w.alive e = true := by
  simp [alive, bury, h, hheld]

/-- Changes an element. -/
def updateElement (w : World σ) (e : ElementId) (f : Element → Element) : World σ :=
  match w.elements.get? e.row with
  | some element => { w with elements := w.elements.set e.row (f element) }
  | none => w

/-- Changes a scheduler. -/
def updateScheduler (w : World σ) (s : SchedulerId) (f : Scheduler → Scheduler) : World σ :=
  match w.schedulers.get? s.row with
  | some scheduler => { w with schedulers := w.schedulers.set s.row (f scheduler) }
  | none => w

/-- Adds to the journal. -/
def record (w : World σ) (event : Event) : World σ := { w with journal := w.journal.push event }

/-- Whether messages of a level are wanted. -/
def wants (w : World σ) (level : Level) : Bool := level.rank ≤ w.level.rank

end World

end ReactiveViews
