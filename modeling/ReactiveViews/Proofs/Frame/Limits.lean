import ReactiveViews.Frame.Loop
import Mathlib.Data.ENat.Lattice

/-!
# Frame limits

A loop with a limit calls its application once before the first frame, then for one frame after the
other, and once after the last frame. The last frame is the first one in which the application wants to
end, or the one that reaches the limit, whichever comes first.

## The model

An application and its clock act on a world, of which nothing is known. The frames that there would be if
nothing ended the loop come from one `turn` after the other; `exitFrame` is the number of the first of them
in which the application wants to end, which may be infinite. What the loop really does is read off a
record of its calls: `FrameApp.recorded` is the application with a note of each of its calls, and the loop
runs it as it runs the application itself (`run_recorded`).

## What is proved

How many frames there are, and that they are the first so many turns (`FrameLoop.run_limited`). The limit is
looked at after a frame: a limit of zero lets one frame pass like a limit of one
(`FrameLoop.run_limited_zero`).
-/

namespace ReactiveViews

/-! ### The record of the calls -/

/-- A call of an application by its loop. -/
inductive LoopCall where
  /-- Before the first frame. -/
  | start
  /-- A frame, with its answer. -/
  | frame (time : FrameTime) (answer : FrameAnswer)
  /-- After the last frame. -/
  | stop
  deriving DecidableEq, Repr

/-- Acts that keep a record of calls, first to last. -/
abbrev Recorded (m : Type → Type) := StateT (List LoopCall) m

section

variable {m : Type → Type} [Monad m]

instance [Messages m] : Messages (Recorded m) where
  message level text := StateT.lift (Messages.message level text)

/-- An application with a record of its calls. -/
def FrameApp.recorded (app : FrameApp m) : FrameApp (Recorded m) where
  start := do
    modify (· ++ [.start])
    StateT.lift app.start
  frame time := do
    let answer ← StateT.lift (app.frame time)
    modify (· ++ [.frame time answer])
    return answer
  stop := do
    modify (· ++ [.stop])
    StateT.lift app.stop

section

variable [LawfulMonad m] (app : FrameApp m) (calls : List LoopCall)

@[simp]
theorem Messages.run_recorded [Messages m] (level : Level) (text : String) :
    (Messages.message level text : Recorded m Unit).run calls =
      (fun _ => ((), calls)) <$> (Messages.message level text : m Unit) := by
  simp [Messages.message]

@[simp]
theorem FrameApp.run_recorded_start :
    app.recorded.start.run calls = (fun _ => ((), calls ++ [.start])) <$> app.start := by
  simp [FrameApp.recorded]

@[simp]
theorem FrameApp.run_recorded_frame (time : FrameTime) :
    (app.recorded.frame time).run calls =
      (fun answer => (answer, calls ++ [.frame time answer])) <$> app.frame time := by
  simp [FrameApp.recorded]

@[simp]
theorem FrameApp.run_recorded_stop :
    app.recorded.stop.run calls = (fun _ => ((), calls ++ [.stop])) <$> app.stop := by
  simp [FrameApp.recorded]

end

namespace FrameLoop

variable [LawfulMonad m] [Messages m] (config : LoopConfig) (now : m Nat) (app : FrameApp m)

/-- The frames of a recorded application are those of the application itself. -/
theorem frames_recorded (n : Nat) (clock : FrameClock) (calls : List LoopCall) :
    Prod.fst <$> (frames config (StateT.lift now) app.recorded n clock).run calls =
      frames config now app n clock := by
  induction n generalizing clock calls with
  | zero => simp [frames]
  | succ n ih =>
    simp only [frames, StateT.run_bind, StateT.run_lift, FrameApp.run_recorded_frame, map_bind,
      bind_map_left, bind_assoc, pure_bind]
    refine bind_congr fun t => bind_congr fun answer => ?_
    split
    · simp
    · split
      · simp
      · exact ih _ _

/-- A loop does with a recorded application what it does with the application itself. -/
theorem run_recorded (patience : Nat) (calls : List LoopCall) :
    Prod.fst <$> (run config patience (StateT.lift now) app.recorded).run calls =
      run config patience now app := by
  simp only [run]
  split
  · simp
  · simp only [StateT.run_bind, StateT.run_lift, Messages.run_recorded, FrameApp.run_recorded_start,
      map_bind, bind_map_left, bind_assoc, pure_bind]
    refine bind_congr fun t => bind_congr fun _ => bind_congr fun _ => ?_
    rw [← frames_recorded config now app _ _ (calls ++ [.start]), bind_map_left]
    refine bind_congr fun p => ?_
    split <;> simp

end FrameLoop

end

namespace FrameLoop

variable {σ : Type} (now : StateM σ Nat) (app : FrameApp (StateM σ)) (s : FrameClock × σ)

/-! ### One turn after the other -/

/-- A frame: the clock ticks, and the application is called. -/
def turn : (FrameTime × FrameAnswer) × (FrameClock × σ) :=
  let (t, w) := now.run s.2
  let (time, clock) := s.1.tick t
  let (answer, w) := (app.frame time).run w
  ((time, answer), (clock, w))

/-- The clock and the world after a number of frames that do not end the loop. -/
def after (n : Nat) : FrameClock × σ := (fun s => (turn now app s).2)^[n] s

/-- The frame after so many others, with its answer. -/
def frameAt (n : Nat) : FrameTime × FrameAnswer := (turn now app (after now app s n)).1

/-- The number of the first frame, counted from one, in which the application wants to end. -/
noncomputable def exitFrame : ℕ∞ :=
  ⨅ n ∈ {n | (frameAt now app s n).2.stops = true}, ((n + 1 : ℕ) : ℕ∞)

/-- The calls of the first frames. -/
def frameCalls (count : Nat) : List LoopCall :=
  (List.range count).map fun n => .frame (frameAt now app s n).1 (frameAt now app s n).2

variable {now app s}

theorem frameAt_succ (n : Nat) : frameAt now app s (n + 1) = frameAt now app (turn now app s).2 n := rfl

theorem frames_turn : (turn now app s).2.1.frames = s.1.frames + 1 := rfl

/-- The frames are numbered as the clock counts them. -/
theorem index_frameAt (n : Nat) : (frameAt now app s n).1.index = s.1.frames + n := by
  induction n generalizing s with
  | zero => rfl
  | succ n ih => rw [frameAt_succ, ih, frames_turn]; omega

theorem one_le_exitFrame : 1 ≤ exitFrame now app s :=
  le_iInf₂ fun n _ => by exact_mod_cast Nat.le_add_left 1 n

theorem exitFrame_of_stops (h : (turn now app s).1.2.stops = true) : exitFrame now app s = 1 :=
  le_antisymm (iInf₂_le 0 h) one_le_exitFrame

theorem exitFrame_of_not_stops (h : (turn now app s).1.2.stops = false) :
    exitFrame now app s = exitFrame now app (turn now app s).2 + 1 := by
  unfold exitFrame
  rw [ENat.iInf₂_add]
  refine le_antisymm (le_iInf₂ fun n hn => iInf₂_le_of_le (n + 1) hn (by push_cast; exact le_rfl))
    (le_iInf₂ fun n hn => ?_)
  cases n with
  | zero => exact absurd (h.symm.trans hn) Bool.false_ne_true
  | succ n => exact iInf₂_le_of_le n hn (by push_cast; exact le_rfl)

theorem frameCalls_succ (count : Nat) :
    frameCalls now app s (count + 1) =
      .frame (turn now app s).1.1 (turn now app s).1.2 :: frameCalls now app (turn now app s).2 count := by
  rw [frameCalls, List.range_succ_eq_map, List.map_cons, List.map_map]
  rfl

/-! ### The frames of a loop with a limit -/

variable [Messages (StateM σ)] {config : LoopConfig} {limit : Nat}

/-- A loop that has a frame is over with it, or goes on from there. -/
theorem frames_succ (n : Nat) (calls : List LoopCall) :
    ((frames config (StateT.lift now) app.recorded (n + 1) s.1).run calls).run s.2 =
      StateT.run ((if (turn now app s).1.2.stops then do
          Messages.message .debug
            ("app requested exit after frame " ++ toString (turn now app s).1.1.index)
          return .exited (turn now app s).1.1.index
        else if config.limit.any (· ≤ (turn now app s).2.1.frames) then do
          Messages.message .debug
            ("frame limit reached (" ++ toString (turn now app s).2.1.frames ++ " frames)")
          return .limited (turn now app s).2.1.frames
        else frames config (StateT.lift now) app.recorded n (turn now app s).2.1).run
          (calls ++ [.frame (turn now app s).1.1 (turn now app s).1.2])) (turn now app s).2.2 := by
  simp only [frames, StateT.run_bind, StateT.run_lift, FrameApp.run_recorded_frame, bind_map_left]
  rfl

/-- A loop ends with a message. -/
theorem run_message (level : Level) (text : String) (ending : LoopEnd) (calls : List LoopCall) (w : σ) :
    ∃ w', StateT.run ((do
        Messages.message level text
        return ending : Recorded (StateM σ) LoopEnd).run calls) w = ((ending, calls), w') := by
  simp only [StateT.run_bind, Messages.run_recorded, bind_map_left]
  exact ⟨_, rfl⟩

variable (now app) in
/-- The frames of a loop that has not reached its limit. -/
theorem frames_limited (hlimit : config.limit = some limit) {n : Nat} (calls : List LoopCall)
    (hroom : s.1.frames < max limit 1) (hn : max limit 1 ≤ s.1.frames + n) :
    ∃ (count : Nat) (ending : LoopEnd) (w' : σ),
      (count : ℕ∞) = min ((max limit 1 - s.1.frames : Nat) : ℕ∞) (exitFrame now app s) ∧
      ending ≠ .unfinished ∧
      ((frames config (StateT.lift now) app.recorded n s.1).run calls).run s.2 =
        ((ending, calls ++ frameCalls now app s count), w') := by
  induction n generalizing s calls with
  | zero => omega
  | succ n ih =>
    have hnext : (turn now app s).2.1.frames = s.1.frames + 1 := frames_turn
    rw [frames_succ]
    by_cases hstops : (turn now app s).1.2.stops = true
    · -- The application ends the loop.
      rw [if_pos hstops, exitFrame_of_stops hstops]
      obtain ⟨w', hrun⟩ := run_message .debug
        ("app requested exit after frame " ++ toString (turn now app s).1.1.index)
        (.exited (turn now app s).1.1.index)
        (calls ++ [.frame (turn now app s).1.1 (turn now app s).1.2]) (turn now app s).2.2
      refine ⟨1, _, w', ?_, by simp, hrun⟩
      rw [Nat.cast_one, min_eq_right]
      exact_mod_cast (by omega : 1 ≤ max limit 1 - s.1.frames)
    rw [if_neg hstops]
    rw [Bool.not_eq_true] at hstops
    rw [exitFrame_of_not_stops hstops]
    by_cases hreached : limit ≤ (turn now app s).2.1.frames
    · -- The limit ends the loop.
      obtain ⟨w', hrun⟩ := run_message .debug
        ("frame limit reached (" ++ toString (turn now app s).2.1.frames ++ " frames)")
        (.limited (turn now app s).2.1.frames)
        (calls ++ [.frame (turn now app s).1.1 (turn now app s).1.2]) (turn now app s).2.2
      rw [if_pos (by simpa [hlimit] using hreached)]
      refine ⟨1, _, w', ?_, by simp, hrun⟩
      rw [show max limit 1 - s.1.frames = 1 by omega, Nat.cast_one, min_eq_left le_add_self]
    · -- The loop goes on.
      rw [if_neg (by simpa [hlimit] using hreached)]
      obtain ⟨count, ending, w', hcount, hending, hrun⟩ := ih (s := (turn now app s).2)
        (calls ++ [.frame (turn now app s).1.1 (turn now app s).1.2]) (by omega) (by omega)
      refine ⟨count + 1, ending, w', ?_, hending, ?_⟩
      · rw [show max limit 1 - s.1.frames = max limit 1 - (turn now app s).2.1.frames + 1 by omega]
        rw [Nat.cast_add, Nat.cast_add, Nat.cast_one, hcount, min_add_add_right]
      · rw [hrun, frameCalls_succ, List.append_assoc, List.singleton_append]

/-! ### Runs with a limit -/

variable (config now app) in
/-- The clock and the world before the first frame. -/
def opening (w : σ) : FrameClock × σ :=
  let p := now.run w
  let greeting : StateM σ Unit := Messages.message .info
    ("starting frame loop '" ++ config.title ++ "' at " ++ toString config.fps ++ " fps")
  (FrameClock.new p.1, (app.start.run (greeting.run p.2).2).2)

/-- A run is its opening, its frames and the last call. -/
theorem run_opening (hfps : 0 < config.fps) (patience : Nat) (w : σ) :
    ((run config patience (StateT.lift now) app.recorded).run []).run w =
      let s := opening now app config w
      let p := ((frames config (StateT.lift now) app.recorded (bound config patience) s.1).run [.start]).run s.2
      StateT.run ((do
        if p.1.1 ≠ .unfinished then app.recorded.stop
        return .ok p.1.1 : Recorded (StateM σ) (Except LoopError LoopEnd)).run p.1.2) p.2 := by
  rw [run, if_neg hfps.ne']
  simp only [StateT.run_bind, StateT.run_lift, Messages.run_recorded, FrameApp.run_recorded_start,
    bind_map_left, bind_assoc, pure_bind]
  rfl

/-- **Frame limits.** A loop with a limit and a rate above zero comes to an end. It calls its application
once before the first frame, then for the frames with the numbers zero, one, two and so on, and once after
the last one. There are as many frames as the limit says, where a limit of zero counts as one, unless the
application wants to end before; then the first frame in which it does is the last one. -/
theorem run_limited (hfps : 0 < config.fps) (hlimit : config.limit = some limit) (patience : Nat) (w : σ) :
    ∃ (count : Nat) (ending : LoopEnd) (w' : σ),
      (count : ℕ∞) = min ((max limit 1 : Nat) : ℕ∞) (exitFrame now app (opening now app config w)) ∧
      (run config patience now app).run w = (.ok ending, w') ∧
      ((run config patience (StateT.lift now) app.recorded).run []).run w =
        ((.ok ending, .start :: frameCalls now app (opening now app config w) count ++ [.stop]), w') ∧
      ∀ n < count, (frameAt now app (opening now app config w) n).1.index = n := by
  have hbound : bound config patience = max limit 1 := by rw [bound, hlimit]
  have hroom : (opening now app config w).1.frames < max limit 1 := Nat.le_max_right limit 1
  obtain ⟨count, ending, w₁, hcount, hending, hrun⟩ := frames_limited now app
    (s := opening now app config w) (n := max limit 1) hlimit [.start] hroom (Nat.le_add_left _ _)
  have hrecorded : ((run config patience (StateT.lift now) app.recorded).run []).run w =
      ((.ok ending, .start :: frameCalls now app (opening now app config w) count ++ [.stop]),
        (app.stop.run w₁).2) := by
    rw [run_opening hfps, hbound]
    simp only [hrun, ne_eq, hending, not_false_eq_true, if_true, List.singleton_append, StateT.run_bind,
      FrameApp.run_recorded_stop, bind_map_left]
    rfl
  refine ⟨count, ending, _, hcount, ?_, hrecorded, fun n _ => ?_⟩
  · rw [← run_recorded config now app patience [], StateT.run_map, hrecorded]
    rfl
  · rw [index_frameAt]
    exact Nat.zero_add n

/-- A world in which nobody listens to messages. -/
local instance : Messages (StateM Unit) := ⟨fun _ _ => pure ()⟩

/-- An application that does nothing and never wants to end. -/
def idle : FrameApp (StateM Unit) := ⟨pure (), fun _ => pure ⟨false, false⟩, pure ()⟩

/-- A limit of zero is exceeded: there is a frame all the same. -/
theorem run_limited_zero :
    0 < (⟨"idle", 60, some 0⟩ : LoopConfig).fps ∧
      ∃ time ending,
        ((run ⟨"idle", 60, some 0⟩ 0 (StateT.lift (pure 0)) idle.recorded).run []).run () =
          ((.ok ending, [.start, .frame time ⟨false, false⟩, .stop]), ()) := by
  refine ⟨by decide, ?_⟩
  obtain ⟨count, ending, _, hcount, -, hrun, -⟩ :=
    @run_limited Unit (pure 0) idle _ ⟨"idle", 60, some 0⟩ 0 (by decide) rfl 0 ()
  have hone : count = 1 := by
    rw [Nat.max_eq_right (Nat.zero_le 1), Nat.cast_one, min_eq_left one_le_exitFrame] at hcount
    exact_mod_cast hcount
  subst hone
  exact ⟨_, ending, hrun⟩

end FrameLoop

end ReactiveViews
