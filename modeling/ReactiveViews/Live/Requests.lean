import ReactiveViews.Live.Script

/-!
# Requests as scripts

Each request as a script by itself, so that scripts can be written down step by step; and what
is put together from them, such as a property that is undefined if it is not owned.
-/

namespace ReactiveViews.Script

variable {σ : Type}

/-- A new array. -/
def newArray (items : List Value) : Script σ Value := request (.newArray items)

/-- The items of an array. -/
def arrayItems (a : ArrayId) : Script σ (List Value) := request (.arrayItems a)

/-- Gives an array other items. -/
def setItems (a : ArrayId) (items : List Value) : Script σ Unit := request (.setItems a items)

/-- A new record. -/
def newRecord (fields : Fields Value) : Script σ Value := request (.newRecord fields)

/-- The fields of a record. -/
def fields (r : RecordId) : Script σ (Fields Value) := request (.fields r)

/-- Gives a record other fields. -/
def setFields (r : RecordId) (fields : Fields Value) :
    Script σ Unit := request (.setFields r fields)

/-- The value of a JSON value. -/
def load (value : Json) : Script σ Value := request (.load value)

/-- The items that a value is walked through by. -/
def items (v : Value) : Script σ (Except EvalError (List Value)) := request (.items v)

/-- A property that a value owns. -/
def getOwn (v : Value) (key : String) : Script σ (Option Value) := request (.getOwn v key)

/-- The keys of an object. -/
def keys (o : Object) : Script σ (List String) := request (.keys o)

/-- Writes a property. -/
def setOwn (o : Object) (key : String) (v : Value) : Script σ Bool := request (.setOwn o key v)

/-- Calls a function. -/
def apply (f : Function) (receiver : Value) (args : List Value) :
    Script σ (Except EvalError Value) := request (.apply f receiver args)

/-- The text of a value. -/
def text (v : Value) : Script σ String := request (.text v)

/-- A value shown in full. -/
def inspect (v : Value) : Script σ String := request (.inspect v)

/-- The scope that owns a name, and the value. -/
def lookup (name : String) (context : Context) :
    Script σ (Option (Value × Value)) := request (.lookup name context)

/-- Compiles an expression. -/
def compileExpression (src : String) :
    Script σ (Except Fault Resolver) := request (.compileExpression src)

/-- Compiles the value of a directive. -/
def compileSource (value : Json) :
    Script σ (Except Fault Resolver) := request (.compileSource value)

/-- Evaluates a compiled value. -/
def resolve (resolver : Resolver) (context : Context) :
    Script σ (Except EvalError Value) := request (.resolve resolver context)

/-- Compiles a template. -/
def compileView (template : Template) :
    Script σ (Except ViewError (View Resolver)) := request (.compileView template)

/-- Builds a view. -/
def build (view : View Resolver) (context : Context) (factory : Factory) :
    Script σ (Except ViewError ElementId) := request (.build view context factory)

/-- Makes a component. -/
def make (factory : Factory) (tag : String) :
    Script σ (Except ComponentError Component) := request (.make factory tag)

/-- Makes an element. -/
def newElement (tag : Tag) (component : Component) (context : Context) :
    Script σ ElementId := request (.newElement tag component context)

/-- Looks at an element. -/
def element (e : ElementId) : Script σ Element := request (.element e)

/-- The scopes for expressions of an element. -/
def contextOf (e : ElementId) : Script σ Context := request (.contextOf e)

/-- Reads an attribute. -/
def getAttribute (e : ElementId) (name : String) :
    Script σ (Except ComponentError Value) := request (.getAttribute e name)

/-- Reads all attributes. -/
def attributes (e : ElementId) : Script σ (Fields Value) := request (.attributes e)

/-- Sets an attribute. -/
def setAttribute (e : ElementId) (name : String) (v : Value) :
    Script σ (Except ComponentError Unit) := request (.setAttribute e name v)

/-- Adds a handler. -/
def addListener (e : ElementId) (event : String) (handler : Handler) :
    Script σ (Except ComponentError Unit) := request (.addListener e event handler)

/-- The handlers of an event. -/
def listeners (e : ElementId) (event : String) :
    Script σ (Except ComponentError (List Handler)) := request (.listeners e event)

/-- Sends an event. -/
def dispatch (e : ElementId) (event : String) (v : Value) :
    Script σ (Except ComponentError (List Value)) := request (.dispatch e event v)

/-- Lets a handler handle an event. -/
def handle (handler : Handler) (event : Value) :
    Script σ (Except EvalError Value) := request (.handle handler event)

/-- Appends a child. -/
def appendChild (e child : ElementId) :
    Script σ (Except ComponentError Unit) := request (.appendChild e child)

/-- Removes a child. -/
def removeChild (e child : ElementId) :
    Script σ (Except ComponentError Unit) := request (.removeChild e child)

/-- Removes the children. -/
def clearChildren (e : ElementId) :
    Script σ (Except ComponentError Unit) := request (.clearChildren e)

/-- Installs an updater of the host program. -/
def setUpdater (e : ElementId) (updater : Nat) : Script σ Unit := request (.setUpdater e updater)

/-- Updates an element and all below it. -/
def update (e : ElementId) : Script σ (Except ViewError Unit) := request (.update e)

/-- Looks for an element by name. -/
def find (e : ElementId) (name : String) : Script σ (Option ElementId) := request (.find e name)

/-- The outline of a tree. -/
def outline (e : ElementId) : Script σ String := request (.outline e)

/-- Holds an element. -/
def hold (e : ElementId) : Script σ Unit := request (.hold e)

/-- Lets go of an element. -/
def release (e : ElementId) : Script σ Unit := request (.release e)

/-- Whether an element is alive. -/
def alive (e : ElementId) : Script σ Bool := request (.alive e)

/-- A new scheduler. -/
def newScheduler : Script σ SchedulerId := request .newScheduler

/-- Looks at a scheduler. -/
def scheduler (s : SchedulerId) : Script σ Scheduler := request (.scheduler s)

/-- Gives a scheduler up. -/
def close (s : SchedulerId) : Script σ Unit := request (.close s)

/-- Requests an update. -/
def requestUpdate (s : SchedulerId) (e : ElementId) : Script σ ReceiverId := request (.request s e)

/-- Withdraws requests. -/
def cancel (s : SchedulerId) (e : ElementId) : Script σ Unit := request (.cancel s e)

/-- Runs a batch. -/
def runBatch (s : SchedulerId) : Script σ BatchReport := request (.runBatch s)

/-- Runs batches. -/
def pump (s : SchedulerId) (batches : Nat) : Script σ Nat := request (.pump s batches)

/-- Whether a frame had been asked for; afterwards none is. -/
def takeFrame (s : SchedulerId) : Script σ Bool := request (.takeFrame s)

/-- What a receiver knows. -/
def receiver (r : ReceiverId) : Script σ ReceiverState := request (.receiver r)

/-- Stops listening to a receiver. -/
def dropReceiver (r : ReceiverId) : Script σ Unit := request (.dropReceiver r)

/-- Leaves a message. -/
def message (level : Level) (text : String) : Script σ Unit := request (.message level text)

/-- Leaves a mark. -/
def mark (number : Nat) : Script σ Unit := request (.mark number)

/-- What happened after the first so many events. -/
def journal (since : Nat) : Script σ (List Event) := request (.journal since)

/-- A property of a value, undefined if the value does not own it. -/
def getNamed (v : Value) (key : String) : Script σ Value := do
  return (← getOwn v key).getD .undefined

/-- Writes a field of a record. -/
def insert (r : RecordId) (key : String) (v : Value) : Script σ Unit := do
  setFields r ((← fields r).put key v)

/-- A field of a record, undefined if it is not there. -/
def field (r : RecordId) (key : String) : Script σ Value := do
  return ((← fields r).get? key).getD .undefined

end ReactiveViews.Script
