import ReactiveViews.Live.Update

/-!
# Schedulers

A scheduler gathers requests for updates and carries them out in batches, one batch for each
frame. It asks for a frame when the first request comes in after nothing was pending. However
often an element is requested, it is updated once in a batch, in the order of the first
requests. Each request hands out a receiver, and all receivers of a batch are told when its last
update is over, also those of requests that were withdrawn.

## The model

A batch takes over all requests at its start, and its elements have their turns one at a time,
so that an updater can still withdraw later ones. Requests made during a batch belong to the
next. A batch that is started in the middle of another takes the place of its remaining
elements; so the number of elements at the start bounds the turns of a batch.
-/

namespace ReactiveViews

/-- What became of the updates of a batch. -/
structure BatchReport where
  /-- How many succeeded. -/
  updated : Nat
  /-- How many failed. -/
  failed : Nat
  deriving DecidableEq, Repr, Inhabited

namespace BatchReport

/-- The report of a batch without turns. -/
def zero : BatchReport := ⟨0, 0⟩

/-- Two reports as one. -/
def add (a b : BatchReport) : BatchReport := ⟨a.updated + b.updated, a.failed + b.failed⟩

end BatchReport

namespace Act

variable {σ : Type}

/-- A scheduler; there is none at a row that was never given out. -/
def scheduler (s : SchedulerId) : Act σ Scheduler := do
  ofOption ((← get).schedulers.get? s.row)

/-- Changes a scheduler. -/
def updateScheduler (s : SchedulerId) (f : Scheduler → Scheduler) : Act σ Unit :=
  modify (·.updateScheduler s f)

/-- A new scheduler. -/
def newScheduler : Act σ SchedulerId :=
  modifyGet fun w => (⟨w.schedulers.size⟩, { w with schedulers := w.schedulers.add .idle })

/-! ### Receivers -/

/-- A new receiver. -/
def newReceiver : Act σ ReceiverId :=
  modifyGet fun w => (⟨w.receivers.size⟩, { w with receivers := w.receivers.add .pending })

/-- Tells a receiver something, if it is still listening. -/
def tell (state : ReceiverState) (r : ReceiverId) : Act σ Unit := do
  if (← get).receivers.get? r.row = some .pending then
    modify fun w => { w with receivers := w.receivers.set r.row state }
    record (.resolved r state)

/-- Stops listening. -/
def dropReceiver (r : ReceiverId) : Act σ Unit :=
  modify fun w => { w with receivers := w.receivers.set r.row .dropped }

/-! ### Requests -/

/-- Adds an element to the end of a list, unless it is there. -/
def enlist (es : List ElementId) (e : ElementId) : List ElementId :=
  if es.contains e then es else es ++ [e]

/-- Asks for a frame. -/
def askForFrame (s : SchedulerId) (e : ElementId) : Act σ Unit := do
  message .trace do return "scheduler: requesting frame for " ++ e.text
  updateScheduler s ({ · with frame := true })

/-- Requests an update of an element. -/
def request (s : SchedulerId) (e : ElementId) : Act σ ReceiverId := do
  let r ← newReceiver
  let wasIdle := (← scheduler s).pending.isEmpty
  updateScheduler s fun x => { x with pending := enlist x.pending e, waiters := x.waiters ++ [r] }
  record (.requested s e r)
  if wasIdle then askForFrame s e
  return r

/-- Withdraws the requests of an element, also from the batch in progress. -/
def cancel (s : SchedulerId) (e : ElementId) : Act σ Unit := do
  updateScheduler s fun x =>
    { x with pending := x.pending.filter (· ≠ e), running := x.running.filter (· ≠ e) }
  record (.withdrawn s e)

/-- Whether a frame had been asked for; afterwards none is. -/
def takeFrame (s : SchedulerId) : Act σ Bool := do
  let asked := (← scheduler s).frame
  updateScheduler s ({ · with frame := false })
  return asked

/-! ### Batches -/

/-- Moves all requests into the batch in progress, in place of what is left of it; the
answer is the receivers to be told and the number of elements. -/
def begin (s : SchedulerId) : Act σ (List ReceiverId × Nat) := do
  let x ← scheduler s
  updateScheduler s fun x => { x with pending := [], waiters := [], running := x.pending }
  record (.began s x.running)
  return (x.waiters, x.pending.length)

/-- Takes the next element out of the batch in progress. -/
def next (s : SchedulerId) : Act σ (Option ElementId) := do
  match (← scheduler s).running with
  | [] => return none
  | e :: _ =>
    updateScheduler s fun x => { x with running := x.running.tail }
    return some e

/-- Counts an update, and leaves a message if it failed. -/
def account (e : ElementId) (answer : Except ViewError Unit) : Act σ BatchReport :=
  match answer with
  | .ok () => return ⟨1, 0⟩
  | .error error => do
    let tag := (← element e).tag
    message .error do
      return "scheduler: update of `" ++ tag.text ++ "` (" ++ e.text ++ ") failed: " ++
        error.message
    return ⟨0, 1⟩

/-- Updates an element in its turn. -/
def serve (s : SchedulerId) (e : ElementId) : Act σ BatchReport := do
  let answer ← enterUpdate e
  record (.served s e answer.isOk)
  account e answer

/-- The turn of a living element. -/
def turn (s : SchedulerId) (e : ElementId) : Act σ BatchReport :=
  holding [e] do
    record (.turn s e)
    serve s e

/-- The turn of an element, which is skipped if it is dead. -/
def turnIfAlive (s : SchedulerId) (e : ElementId) : Act σ BatchReport := do
  if ← alive e then turn s e
  else
    record (.skipped s e)
    message .warn do return "scheduler: skipping dropped element " ++ e.text
    return .zero

/-- At most a number of turns, as long as the batch has elements. -/
def turns (s : SchedulerId) : Nat → BatchReport → Act σ BatchReport
  | 0, report => return report
  | n + 1, report => do
    match ← next s with
    | none => return report
    | some e => turns s n (report.add (← turnIfAlive s e))

/-- Runs a batch. -/
def runBatch (s : SchedulerId) : Act σ BatchReport := do
  let (waiters, n) ← begin s
  let report ← turns s n .zero
  waiters.forM (tell .done)
  message .debug do
    return "scheduler: batch done (" ++ toString report.updated ++ " updated, " ++
      toString report.failed ++ " failed)"
  return report

/-- Runs a batch for each frame that is asked for, at most a number of them; the answer is
how many were run. -/
def pump (s : SchedulerId) : Nat → Act σ Nat
  | 0 => return 0
  | n + 1 => do
    if ← takeFrame s then
      let _ ← runBatch s
      return (← pump s n) + 1
    else return 0

/-- Gives a scheduler up: the receivers of its requests are told that it is gone. A batch in
progress still has its turns. -/
def close (s : SchedulerId) : Act σ Unit := do
  let waiters := (← scheduler s).waiters
  updateScheduler s ({ · with pending := [], waiters := [] })
  record (.closed s)
  waiters.forM (tell .canceled)

end Act

end ReactiveViews
