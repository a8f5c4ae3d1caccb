import ReactiveViews.Frame.Clock
import ReactiveViews.Live.World

/-!
# Frame loop

Runs an application frame by frame: one start, then a frame after the other until the
application wants to stop or a number of frames has been reached, then one end.

## The model

The loop works in any monad that takes messages, with the current time as one of its acts; how
fast the frames follow each other is left to whoever runs it. The application can ask for the
end in two ways: by the answer of a frame, or by a request made during the frame. The limit is
looked at after a frame, so there is always a first one.

A loop without a limit may have no end. `patience` bounds the frames that are run then; a loop
with a limit does not need it.
-/

namespace ReactiveViews

/-- A monad in which messages can be left. -/
class Messages (m : Type → Type) where
  /-- Leaves a message. -/
  message : Level → String → m Unit

/-- How a frame ends. -/
structure FrameAnswer where
  /-- Whether the frame is answered with the wish to stop. -/
  exit : Bool
  /-- Whether the end was requested during the frame. -/
  requested : Bool
  deriving DecidableEq, Repr, Inhabited

/-- Whether the loop goes on after a frame. -/
def FrameAnswer.stops (a : FrameAnswer) : Bool := a.exit || a.requested

/-- An application as a frame loop sees it. -/
structure FrameApp (m : Type → Type) where
  /-- Before the first frame. -/
  start : m Unit
  /-- A frame. -/
  frame : FrameTime → m FrameAnswer
  /-- After the last frame. -/
  stop : m Unit

/-- The settings of a frame loop. -/
structure LoopConfig where
  /-- The title. -/
  title : String
  /-- The frames for each second. -/
  fps : Nat
  /-- The number of frames after which the loop ends. -/
  limit : Option Nat
  deriving DecidableEq, Repr, Inhabited

/-- How a loop ends. -/
inductive LoopEnd where
  /-- The application wanted it, in the frame of this number. -/
  | exited (index : Nat)
  /-- The limit was reached after so many frames. -/
  | limited (frames : Nat)
  /-- Patience ran out. -/
  | unfinished
  deriving DecidableEq, Repr, Inhabited

/-- Why a loop does not even start. -/
inductive LoopError where
  /-- Frames that never come. -/
  | zeroRate
  deriving DecidableEq, Repr

/-- The wording of a loop error. -/
def LoopError.message : LoopError → String
  | zeroRate => "target_fps must be greater than zero"

namespace FrameLoop

variable {m : Type → Type} [Monad m] [Messages m]

/-- The frames of a loop, at most a number of them. -/
def frames (config : LoopConfig) (now : m Nat) (app : FrameApp m) : Nat → FrameClock → m LoopEnd
  | 0, _ => return .unfinished
  | n + 1, clock => do
    let (time, clock) := clock.tick (← now)
    let answer ← app.frame time
    if answer.stops then
      Messages.message .debug ("app requested exit after frame " ++ toString time.index)
      return .exited time.index
    else if config.limit.any (· ≤ clock.frames) then
      Messages.message .debug ("frame limit reached (" ++ toString clock.frames ++ " frames)")
      return .limited clock.frames
    else frames config now app n clock

/-- The number of frames that a loop can have. -/
def bound (config : LoopConfig) (patience : Nat) : Nat :=
  match config.limit with
  | some n => max n 1
  | none => patience

/-- Runs an application. -/
def run (config : LoopConfig) (patience : Nat) (now : m Nat) (app : FrameApp m) :
    m (Except LoopError LoopEnd) := do
  if config.fps = 0 then return .error .zeroRate
  else
    let clock := FrameClock.new (← now)
    Messages.message .info
      ("starting frame loop '" ++ config.title ++ "' at " ++ toString config.fps ++ " fps")
    app.start
    let ending ← frames config now app (bound config patience) clock
    if ending ≠ .unfinished then app.stop
    return .ok ending

end FrameLoop

end ReactiveViews
