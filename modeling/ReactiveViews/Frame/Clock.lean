/-!
# Frame clock

Numbers the frames of a loop and measures the time between them. The time is kept between two
bounds, so that a loop that stood still does not hand one enormous step to its application.

Times are in nanoseconds of a clock that never goes back. Steps are told in seconds as a
32-bit float: the whole seconds and the rest are turned into floats each for itself.
-/

namespace ReactiveViews

/-- One tick of a clock. -/
structure FrameTime where
  /-- The time since the tick before, in nanoseconds, kept between the bounds. -/
  step : Nat
  /-- The number of the frame, counted from zero. -/
  index : Nat
  deriving DecidableEq, Repr, Inhabited

/-- A frame clock. -/
structure FrameClock where
  /-- When it ticked last. -/
  last : Nat
  /-- How often it has ticked. -/
  frames : Nat
  /-- The shortest step. -/
  least : Nat
  /-- The longest step. -/
  most : Nat
  deriving DecidableEq, Repr, Inhabited

/-- The nanoseconds of a second. -/
def nanosPerSecond : Nat := 1000000000

/-- The step in seconds. -/
def FrameTime.seconds (t : FrameTime) : Float32 :=
  Float32.ofNat (t.step / nanosPerSecond) +
    Float32.ofNat (t.step % nanosPerSecond) / Float32.ofNat nanosPerSecond

namespace FrameClock

/-- A clock with given bounds that starts at a time. -/
def withBounds (least most now : Nat) : FrameClock := ⟨now, 0, least, most⟩

/-- A clock whose steps are between a tenth of a millisecond and a quarter of a second. -/
def new (now : Nat) : FrameClock := withBounds 100000 250000000 now

/-- Measures the next step from now on. -/
def reset (c : FrameClock) (now : Nat) : FrameClock := { c with last := now }

/-- A number kept between the bounds of a clock. -/
def clamp (c : FrameClock) (n : Nat) : Nat := max c.least (min c.most n)

/-- One tick. -/
def tick (c : FrameClock) (now : Nat) : FrameTime × FrameClock :=
  (⟨c.clamp (now - c.last), c.frames⟩, { c with last := now, frames := c.frames + 1 })

theorem index_tick (c : FrameClock) (now : Nat) : (c.tick now).1.index = c.frames := rfl

theorem frames_tick (c : FrameClock) (now : Nat) : (c.tick now).2.frames = c.frames + 1 := rfl

theorem step_tick_bounds (c : FrameClock) (now : Nat) (h : c.least ≤ c.most) :
    c.least ≤ (c.tick now).1.step ∧ (c.tick now).1.step ≤ c.most := by
  simp only [tick, clamp]
  omega

end FrameClock

end ReactiveViews
