import ReactiveViews.Frame.Application
import ReactiveViews.Live.Requests

/-!
# A checklist

A small application: a list of tasks, the number of open ones, and a line that appears when none
is left. It runs for six frames and writes its tree down in each. In the second and third frame
a task is ticked off by an event, so that its element is updated in place; in the fourth the list
is replaced by a longer one, so that all its elements are made anew.
-/

namespace ReactiveViews.Demo

/-- The template: a board with a heading, the tasks, a line for the end and a footer. -/
def template : String :=
"\x7b
  \"div#board.board\": \x7b
    \"once:title\": \"\x7b\x7b title \x7d\x7d\",
    \"h1$heading\": \x7b
      \"bind:text\": \"\x7b\x7b title \x7d\x7d: \x7b\x7b open \x7d\x7d open\"
    \x7d,
    \"ul#tasks.list$tasks\": \x7b
      \"li.task\": \x7b
        \"forEach:task\": \"\x7b\x7b tasks \x7d\x7d\",
        \"bind:text\": \"\x7b\x7b task.title \x7d\x7d\",
        \"bind:done\": \"\x7b\x7b task.done \x7d\x7d\",
        \"on:toggle\": \"\x7b\x7b toggle(task) \x7d\x7d\"
      \x7d
    \x7d,
    \"p.empty$empty\": \x7b
      \"if\": \"\x7b\x7b all_done \x7d\x7d\",
      \"once:text\": \"Nothing left to do.\"
    \x7d,
    \"footer\": \x7b
      \"bind:text\": \"frame \x7b\x7b frame \x7d\x7d\"
    \x7d
  \x7d
\x7d"

/-- How many frames the application runs. -/
def frameCount : Nat := 6

/-- What the application remembers: its record, and the lines written so far, last first. -/
structure Memory where
  /-- The record that is shown. -/
  data : RecordId
  /-- The lines. -/
  lines : List String

/-- A script of the application. -/
abbrev Act := Script Memory

/-- Writes lines. -/
def write (lines : List String) : Act Unit :=
  .memory fun m => .remember { m with lines := lines.reverse ++ m.lines } (.done ())

/-- The record that is shown. -/
def data : Act RecordId := .memory fun m => .done m.data

/-- A new task. -/
def task (title : String) (done : Bool) : Act Value :=
  Script.newRecord [("title", .str title), ("done", .bool done)]

/-- How many of some tasks are open. -/
def countOpen : List Value → Act Nat
  | [] => return 0
  | task :: rest => do
    let done := (← Script.getNamed task "done").truthy
    return (if done then 0 else 1) + (← countOpen rest)

/-- Counts the open tasks anew. -/
def refresh : Act Unit := do
  let data ← data
  let tasks ← Script.items (← Script.field data "tasks")
  let n ← countOpen (tasks.toOption.getD [])
  Script.insert data "open" (.int (Int64.ofNat n))
  Script.insert data "all_done" (.bool (n = 0))

/-- Ticks a task off, or not any more. -/
def toggle (args : List Value) : Act (Except EvalError Value) := do
  match args.headD .undefined with
  | .object o =>
    let done := !(← Script.getNamed (.object o) "done").truthy
    if ← Script.setOwn o "done" (.bool done) then
      refresh
      return .ok (.bool done)
    else return .error (.host "task is read-only")
  | other => return .error (.host ("cannot toggle " ++ other.typeName))

/-- The answers of the application to calls; only its one function is ever called. -/
def host : Host Memory where
  answer
    | .apply _ _ args => toggle args
    | _ => .hang

/-- The record at the start. -/
def start : Act RecordId := do
  let tasks ← Script.newArray [← task "Write changelog" true, ← task "Tag release" false,
    ← task "Publish crates" false]
  match ← Script.newRecord [("title", .str "Release checklist"), ("frame", .int 0),
      ("tasks", tasks), ("toggle", .function ⟨"toggle", 0⟩)] with
  | .object (.record r) =>
    .memory fun m => .remember { m with data := r } (.done ())
    refresh
    return r
  | _ => .hang

/-- Sends the toggle event to one of the tasks shown. -/
def toggleShown (app : App) (i : Nat) : Act Unit := do
  match ← Script.find app.root "tasks" with
  | none => return ()
  | some list =>
    match (← Script.element list).children[i]? with
    | none => return ()
    | some item =>
      match ← Script.dispatch item "toggle" .null with
      | .ok _ => return ()
      | .error error => Script.message .error ("toggle failed: " ++ error.message)

/-- Replaces the list by one with a further task. -/
def announce (data : RecordId) : Act Unit := do
  let tasks ← match ← Script.field data "tasks" with
    | .array a => Script.arrayItems a
    | _ => pure []
  Script.insert data "tasks" (← Script.newArray (tasks ++ [← task "Announce" false]))
  refresh

/-- The turn of the application in a frame. -/
def frame (app : App) (time : FrameTime) : Act Bool := do
  Script.insert app.data "frame" (.int (Int64.ofNat time.index))
  if time.index = 1 ∨ time.index = 2 then toggleShown app time.index
  else if time.index = 3 then announce app.data
  write ["── frame " ++ toString time.index ++ " ──"]
  write ((← Script.outline app.root).splitOn "\n").dropLast
  if time.index + 1 ≥ frameCount then return true
  else
    let _ ← Script.requestUpdate app.scheduler app.root
    return false

/-- The lines above the first frame. -/
def banner : List String := ["", "  nabu studio · headless renderer", ""]

/-- Everything that the application writes. -/
def lines : List String :=
  let w : World Memory := .empty .warn ⟨⟨0⟩, banner.reverse⟩
  match host.run 1000 start w with
  | (none, w) => w.host.lines.reverse
  | (some r, w) =>
    let application : Application := ⟨some "nabu studio", some template, r, .headless⟩
    let (_, w) := host.carryOut 1000 (application.run ⟨"nabu", 30, none⟩ 1000 (some frame)) w
    w.host.lines.reverse

end ReactiveViews.Demo
