import ReactiveViews.Frame.Loop
import ReactiveViews.Live.Script

/-!
# Applications

An application shows one view of one record. It is built from the text of its template, runs
in a frame loop, and gives the host program a turn in each frame. At the end of a frame the
updates that have been requested are carried out in one batch.

## The model

The root of an application and its scheduler belong to it as long as it exists; `close` gives
both up. The host program's turn is a script that is told the time and answers whether the
application is to end.
-/

namespace ReactiveViews

/-- The parts of an application before it is built. -/
structure Application where
  /-- Its title, if it is to replace the title of the loop. -/
  title : Option String
  /-- The text of its template. -/
  template : Option String
  /-- The record that it shows. -/
  data : RecordId
  /-- Where its components come from. -/
  factory : Factory

/-- An application that has been built. -/
structure App where
  /-- Its title. -/
  title : Option String
  /-- The record that it shows. -/
  data : RecordId
  /-- The root of its tree. -/
  root : ElementId
  /-- Its scheduler. -/
  scheduler : SchedulerId

/-- Why an application cannot be run. -/
inductive RunError where
  /-- It cannot be built. -/
  | view (error : ViewError)
  /-- Its loop cannot start. -/
  | loop (error : LoopError)

namespace Application

variable {σ : Type}

/-- Compiles the template and builds its view with the record as the only scope. -/
def build (app : Application) : Build σ App := do
  match app.template with
  | none => throw (.template none .missing)
  | some text =>
    let template ← ExceptT.mk (pure (Template.ofText text))
    let view ← ExceptT.mk (Act.compileView template)
    let root ← Build.build view [.object (.record app.data)] app.factory
    let scheduler ← Build.act Act.newScheduler
    return ⟨app.title, app.data, root, scheduler⟩

end Application

/-- The host program's turn in a frame: it answers whether the application is to end. -/
abbrev FrameHook (σ : Type) := App → FrameTime → Script σ Bool

/-- Acts that count the updates of an application. -/
abbrev Counting (σ : Type) := StateT BatchReport (Act σ)

instance (σ : Type) : Messages (Counting σ) where
  message level text := StateT.lift (Act.message level (pure text))

namespace App

variable {σ : Type}

/-- Carries out the requested updates, if a frame was asked for. -/
def flush (app : App) : Counting σ Unit := do
  if ← StateT.lift (Act.takeFrame app.scheduler) then
    let report ← StateT.lift (Act.runBatch app.scheduler)
    modify (·.add report)

/-- The host program's turn; without a hook nothing happens. -/
def turn (app : App) (hook : Option (FrameHook σ)) (time : FrameTime) : Act σ Bool :=
  match hook with
  | some hook => Act.run (hook app time)
  | none => return false

/-- An application as its frame loop sees it. -/
def frameApp (app : App) (hook : Option (FrameHook σ)) : FrameApp (Counting σ) where
  start := do
    let element ← StateT.lift (Act.element app.root)
    Messages.message .info ("ui app started, root `" ++ element.tag.text ++ "`")
  frame time := do
    let exit ← StateT.lift (app.turn hook time)
    app.flush
    return ⟨exit, false⟩
  stop := do
    let totals ← get
    Messages.message .info ("ui app stopped: " ++ toString totals.updated ++
      " element update(s), " ++ toString totals.failed ++ " failure(s)")

/-- Gives up the root and the scheduler. -/
def close (app : App) : Act σ Unit := do
  Act.release [app.root]
  Act.close app.scheduler

end App

namespace Application

variable {σ : Type}

/-- Builds an application and runs it in a frame loop, under its own title if it has one. -/
def run (application : Application) (config : LoopConfig) (patience : Nat)
    (hook : Option (FrameHook σ)) : Act σ (Except RunError LoopEnd) := do
  match ← ExceptT.run application.build with
  | .error error => return .error (.view error)
  | .ok app =>
    let config := { config with title := app.title.getD config.title }
    let (ending, _) ←
      (FrameLoop.run config patience (pure 0) (app.frameApp hook)).run BatchReport.zero
    app.close
    return ending.mapError .loop

end Application

end ReactiveViews
