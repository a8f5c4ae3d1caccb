import ReactiveViews.Frame.Application
import ReactiveViews.Proofs.Live.Receivers

/-!
# Frames that are asked for

A scheduler asks for a frame when the first element is requested after nothing was pending, and
only then. What waits may outlive what is pending: when an element is withdrawn, its receivers go
on waiting. And the flag that a frame has been asked for is cleared at another moment than what
waits, just before a batch begins. Still nothing is left behind without a frame, as long as nobody
but a pump or an application at the end of its frame clears the flag, since they begin a batch at
once.

## The model

`Script.flush` is what an application does at the end of a frame (`App.run_flush`). A script that
`Drives` makes any requests, and clears the flag only in this way. A program may stop anywhere; so
the worlds in which runs of such programs are given up or come to an end are the worlds in which
their code runs.

## What is proved

**No request is stranded** (`Host.never_stranded`). Wherever programs that drive have got to, in
the middle of updaters and batches as well, whatever is pending or waits has its frame asked for.
A pump of such a program runs at most as many batches as it may; if it runs fewer, nothing is
pending or waits, and unless it was called in the middle of a turn, every receiver of the
scheduler has heard what became of its request.
-/

namespace ReactiveViews

variable {σ α : Type}

/-! ### Programs that clear the flag only for a batch -/

namespace Script

/-- Runs a batch if a frame had been asked for. -/
def flush (s : SchedulerId) : Script σ (Option BatchReport) := do
  if ← takeFrame s then
    let report ← runBatch s
    return some report
  else return none

/-- The script clears the flag of a scheduler only by pumping and flushing. -/
inductive Drives : Script σ α → Prop where
  /-- It ends. -/
  | done (a : α) : Drives (.done a)
  /-- It makes a request that does not clear the flag by itself. -/
  | ask {r : Request} {next : r.Reply → Script σ α} :
    (∀ s, r ≠ .takeFrame s) → (∀ reply, Drives (next reply)) → Drives (.ask r next)
  /-- It flushes. -/
  | flush (s : SchedulerId) {next : Option BatchReport → Script σ α} :
    (∀ report, Drives (next report)) → Drives ((flush s).bind next)
  /-- It looks at what the host program remembers. -/
  | memory {next : σ → Script σ α} : (∀ s, Drives (next s)) → Drives (.memory next)
  /-- The host program remembers something else. -/
  | remember (s : σ) {next : Script σ α} : Drives next → Drives (.remember s next)
  /-- It never answers. -/
  | hang : Drives .hang

end Script

theorem Act.run_flush (s : SchedulerId) :
    Act.run (Script.flush (σ := σ) s) = (do
      if ← Act.takeFrame s then
        let report ← Act.runBatch s
        return some report
      else return none) := by
  show (Act.takeFrame s >>= fun asked => Act.run _) = _
  refine bind_congr fun asked => ?_
  cases asked <;> rfl

/-- An application flushes as a script does, and adds the report of the batch to its own. -/
theorem App.run_flush (app : App) (total : BatchReport) :
    (app.flush (σ := σ)).run total =
      (fun report => ((), total.add (report.getD .zero))) <$>
        Act.run (Script.flush app.scheduler) := by
  rw [Act.run_flush, App.flush, StateT.run_bind, StateT.run_lift, map_bind, bind_assoc]
  refine bind_congr fun asked => ?_
  cases asked with
  | false => rfl
  | true =>
    simp only [if_true, map_bind, map_pure, pure_bind]
    rw [StateT.run_bind, StateT.run_lift, bind_assoc]
    rfl

/-! ### Schedulers with a frame -/

/-- Whatever is pending or waits has its frame asked for. -/
def Scheduler.Attended (x : Scheduler) : Prop :=
  x.pending ≠ [] ∨ x.waiters ≠ [] → x.frame = true

/-- Without a frame there is nothing to do. -/
theorem Scheduler.Attended.idle {x : Scheduler} (h : x.Attended) (hframe : x.frame = false) :
    x.pending = [] ∧ x.waiters = [] := by
  have hnone : ¬ (x.pending ≠ [] ∨ x.waiters ≠ []) := fun hwaits => by
    rw [h hwaits] at hframe
    cases hframe
  simpa using hnone

/-- All schedulers have asked for the frames that they need. -/
def World.Attended (w : World σ) : Prop := ∀ s, (w.scheduler s).Attended

/-- The effect on one scheduler of programs that drive, or leave its frame alone. -/
def Attending (s : SchedulerId) : Effect σ := fun _ w w' =>
  (w.scheduler s).Attended → (w'.scheduler s).Attended

namespace World

theorem attended_empty (level : Level) (host : σ) : (World.empty level host).Attended := fun s => by
  simp [scheduler, empty, Table.get?, Table.empty, Scheduler.Attended, Scheduler.idle]

theorem attended_updateScheduler {w : World σ} {s t : SchedulerId} {f : Scheduler → Scheduler}
    (hother : s ≠ t → (w.scheduler s).Attended) (hself : s = t → (f (w.scheduler s)).Attended) :
    ((w.updateScheduler t f).scheduler s).Attended := by
  by_cases hs : s = t
  · subst hs
    cases hexists : w.schedulers.get? s.row with
    | none => simp [updateScheduler, scheduler, hexists, Scheduler.Attended, Scheduler.idle]
    | some x =>
      rw [scheduler_updateScheduler_self w s (.inl (by simp [hexists]))]
      exact hself rfl
  · rw [scheduler_updateScheduler_of_ne w hs]
    exact hother hs

/-- A batch leaves nothing behind that would need a frame, whether it had one or not. -/
theorem attended_afterBegin {w : World σ} {s t : SchedulerId}
    (hother : s ≠ t → (w.scheduler s).Attended) : ((w.afterBegin t).scheduler s).Attended :=
  attended_updateScheduler hother fun _ => by simp [Scheduler.Attended]

end World

section Attending

variable {s : SchedulerId}

theorem Attending.trans {answered : Bool} {u v w : World σ} (h : Attending s true u v)
    (h' : Attending s answered v w) : Attending s answered u w := fun hu => h' (h hu)

theorem Attending.of_eq {answered : Bool} {w w' : World σ} (h : w'.scheduler s = w.scheduler s) :
    Attending s answered w w' := fun hw => h ▸ hw

theorem Change.attending {answered : Bool} {w w' : World σ} (h : Change w w') :
    Attending s answered w w' := .of_eq (by rw [World.scheduler, World.scheduler, h.schedulers_eq])

theorem attending_afterCancel {answered : Bool} (w : World σ) (t : SchedulerId) (e : ElementId) :
    Attending s answered w (w.afterCancel t e) := fun hw => by
  refine World.attended_updateScheduler (fun _ => hw) fun _ => ?_
  rintro (hpending | hwaiters)
  · exact hw (.inl fun hnil => hpending (by simp [hnil]))
  · exact hw (.inr hwaiters)

/-- The first request after nothing was pending asks for a frame; a later one has it already. -/
theorem attending_request {enter : Enter σ} (t : SchedulerId) (e : ElementId) :
    Keeps (Attending s) enter (Act.request t e) := by
  intro w hw
  by_cases hexists : (w.schedulers.get? t.row).isSome
  · have hother (hs : s ≠ t) : ((w.afterRequest t e).scheduler s).Attended := by
      rw [World.afterRequest, World.scheduler_record, World.scheduler_updateScheduler_of_ne _ hs]
      exact hw
    rw [Act.runIn_request_some enter w t e hexists]
    cases hpending : (w.scheduler t).pending.isEmpty with
    | false =>
      simp only [Bool.false_eq_true, if_false]
      rw [Act.runIn_pure]
      by_cases hs : s = t
      · subst hs
        rw [World.afterRequest, World.scheduler_record,
          World.scheduler_updateScheduler_self w.handOut s (.inl hexists)]
        exact fun _ => hw (.inl (by simpa using hpending))
      · exact hother hs
    | true =>
      simp only [if_true, Act.askForFrame, bind_assoc]
      rw [Act.runIn_bind_some (Act.runIn_message .trace _ enter _), Act.updateScheduler,
        Act.runIn_bind_some (Act.runIn_modify _ _ _), Act.runIn_pure]
      refine World.attended_updateScheduler (fun hs => ?_) fun _ _ => rfl
      split
      · exact hother hs
      · exact hother hs
  · rw [Act.runIn_request_none enter w t e hexists]
    exact hw

theorem runIn_takeFrame_some (enter : Enter σ) {w : World σ} {s : SchedulerId}
    (hexists : (w.schedulers.get? s.row).isSome) :
    (Act.takeFrame s).runIn enter w =
      (some (w.scheduler s).frame, w.updateScheduler s ({ · with frame := false })) := by
  rw [Act.takeFrame, Act.runIn_bind_some (Act.runIn_scheduler_some enter w s hexists)]
  rfl

theorem runIn_takeFrame_none (enter : Enter σ) {w : World σ} {s : SchedulerId}
    (hexists : ¬ (w.schedulers.get? s.row).isSome) : (Act.takeFrame s).runIn enter w = (none, w) :=
  Act.runIn_bind_none (Act.runIn_scheduler_none enter w s hexists)

/-- The flag of a scheduler is of no importance to others, and to itself only if it was raised. -/
theorem attending_unasked {w : World σ} {t : SchedulerId}
    (hframe : s = t → (w.scheduler t).frame = false) :
    Attending s true w (w.updateScheduler t ({ · with frame := false })) := fun hw => by
  refine World.attended_updateScheduler (fun _ => hw) fun hs hwaits => ?_
  subst hs
  rw [hw hwaits] at hframe
  cases hframe rfl

section Batches

variable {enter : Enter σ} (h : Admits (Attending s) enter)

include h

theorem attending_turns (t : SchedulerId) (n : Nat) (report : BatchReport) :
    Keeps (Attending s) enter (Act.turns t n report) :=
  h.turns (fun _ _ hw => World.attended_updateScheduler (fun _ => hw) fun _ => hw)
    (fun _ _ _ hw => hw) n report

/-- A batch can be run without a frame, and in the middle of another. -/
theorem attended_runBatch {t : SchedulerId} {w : World σ}
    (hexists : (w.schedulers.get? t.row).isSome) (hother : s ≠ t → (w.scheduler s).Attended) :
    (((Act.runBatch t).runIn enter w).2.scheduler s).Attended := by
  rw [Act.runIn_runBatch_some enter w t hexists]
  refine (h.bind (attending_turns h t _ _) fun report => ?_) _ (World.attended_afterBegin hother)
  intro v hv
  rw [Act.runIn_bind_some (Act.runIn_tells enter .done _ v)]
  refine h.bind (h.message .debug (h.pure _)) (fun _ => h.pure report) _ ?_
  rwa [World.scheduler_afterTells]

theorem attending_runBatch (t : SchedulerId) : Keeps (Attending s) enter (Act.runBatch t) := by
  intro w hw
  by_cases hexists : (w.schedulers.get? t.row).isSome
  · exact attended_runBatch h hexists fun _ => hw
  · rw [Act.runIn_runBatch_none enter w t hexists]
    exact hw

/-- Clearing the flag and beginning a batch at once leaves nothing behind without a frame. -/
theorem attended_taken {t : SchedulerId} {w : World σ} (hw : (w.scheduler s).Attended)
    (hexists : (w.schedulers.get? t.row).isSome) :
    (((Act.runBatch t).runIn enter
      (w.updateScheduler t ({ · with frame := false }))).2.scheduler s).Attended := by
  refine attended_runBatch h ?_ fun hs => ?_
  · have hsize := World.size_updateScheduler w t ({ · with frame := false })
    simp only [Table.get?, Table.size] at hsize hexists ⊢
    simpa [hsize] using hexists
  · rw [World.scheduler_updateScheduler_of_ne w hs]
    exact hw

/-- Clearing the flag, and if it was raised a batch and whatever follows. -/
theorem attending_taken (t : SchedulerId) {f : BatchReport → Act σ α} {b : α}
    (hf : ∀ report, Keeps (Attending s) enter (f report)) :
    Keeps (Attending s) enter (do
      if ← Act.takeFrame t then
        let report ← Act.runBatch t
        f report
      else return b) := by
  intro w hw
  by_cases hexists : (w.schedulers.get? t.row).isSome
  · have htaken := attended_taken h hw hexists
    rw [Act.runIn_bind_some (runIn_takeFrame_some enter hexists)]
    cases hframe : (w.scheduler t).frame with
    | false =>
      simp only [Bool.false_eq_true, if_false]
      exact attending_unasked (fun _ => hframe) hw
    | true =>
      simp only [if_true]
      rw [Act.runIn_bind]
      revert htaken
      rcases (Act.runBatch t).runIn enter (w.updateScheduler t ({ · with frame := false }))
        with ⟨_ | report, v⟩
      · exact id
      · exact hf report v
  · rw [Act.runIn_bind_none (runIn_takeFrame_none enter hexists)]
    exact hw

theorem attending_pump (t : SchedulerId) (n : Nat) : Keeps (Attending s) enter (Act.pump t n) := by
  induction n with
  | zero => exact h.pure _
  | succ n ih => exact attending_taken h t fun _ => h.bind ih fun _ => h.pure _

/-- Flushing clears the flag and begins a batch, or finds that there is nothing to do. -/
theorem attending_flush_each (t : SchedulerId) :
    Keeps (Attending s) enter (Act.run (Script.flush t)) := by
  rw [Act.run_flush]
  exact attending_taken h t fun _ => h.pure _

theorem attending_perform (r : Request) (hr : r ≠ .takeFrame s) :
    Keeps (Attending s) enter (Act.perform r) := by
  cases r with
  | newScheduler => exact fun w => .of_eq (World.scheduler_newScheduler w s)
  | request t e => exact h.living e (attending_request t e)
  | cancel t e => exact h.living e fun w => attending_afterCancel w t e
  | takeFrame t =>
    have hs : s ≠ t := fun heq => hr (by rw [heq])
    intro w hw
    by_cases hexists : (w.schedulers.get? t.row).isSome
    · show (((Act.takeFrame t).runIn enter w).2.scheduler s).Attended
      rw [runIn_takeFrame_some enter hexists]
      exact attending_unasked (fun heq => (hs heq).elim) hw
    · show (((Act.takeFrame t).runIn enter w).2.scheduler s).Attended
      rw [runIn_takeFrame_none enter hexists]
      exact hw
  | dropReceiver r => exact fun w hw => hw
  | runBatch t => exact attending_runBatch h t
  | pump t n => exact attending_pump h t n
  | close t =>
    intro w hw
    by_cases hexists : (w.schedulers.get? t.row).isSome
    · show (((Act.close t).runIn enter w).2.scheduler s).Attended
      rw [Act.runIn_close_some enter w t hexists, World.scheduler_afterTells]
      exact World.attended_updateScheduler (fun _ => hw) fun _ => by simp [Scheduler.Attended]
    · show (((Act.close t).runIn enter w).2.scheduler s).Attended
      rw [Act.runIn_close_none enter w t hexists]
      exact hw
  | _ => exact h.perform _ rfl

theorem Script.Drives.attending {script : Script σ α} (hscript : script.Drives) :
    Keeps (Attending s) enter (Act.run script) := by
  induction hscript with
  | done a => exact h.pure a
  | ask hr _ ih => exact h.bind (attending_perform h _ (hr s)) ih
  | flush t _ ih =>
    rw [Act.run_bind]
    exact h.bind (attending_flush_each h t) ih
  | memory _ ih => exact h.bind h.get fun w => ih w.host
  | remember m _ ih => exact h.bind (h.modify fun w => .host w m) fun _ => ih
  | hang => exact h.never

end Batches

end Attending

/-! ### All schedulers -/

section All

variable {enter : Enter σ} (h : ∀ s, Admits (Attending s) enter)

include h

theorem attending_flush (t : SchedulerId) (w : World σ) (hw : w.Attended) :
    ((Act.run (Script.flush t)).runIn enter w).2.Attended :=
  fun s => attending_flush_each (h s) t w (hw s)

theorem attending_run {script : Script σ α} (hscript : script.Drives) (w : World σ)
    (hw : w.Attended) : ((Act.run script).runIn enter w).2.Attended :=
  fun s => hscript.attending (h s) w (hw s)

end All

/-- What a pump has come to when it answers: it ran at most as many batches as it may, and if it
stopped before, no frame is asked for. -/
structure Pumped (s : SchedulerId) (n : Nat) (answer : Option Nat) (w : World σ) : Prop where
  /-- All schedulers have asked for the frames that they need. -/
  attended : w.Attended
  /-- The bound holds. -/
  le : ∀ m ∈ answer, m ≤ n
  /-- A pump goes on as long as there are frames. -/
  frame : ∀ m ∈ answer, m < n → (w.scheduler s).frame = false

theorem pumped {enter : Enter σ} (h : ∀ s, Admits (Attending s) enter) (s : SchedulerId) (n : Nat)
    {w : World σ} (hw : w.Attended) :
    Pumped s n ((Act.pump s n).runIn enter w).1 ((Act.pump s n).runIn enter w).2 := by
  induction n generalizing w with
  | zero =>
    refine ⟨hw, fun m hm => ?_, fun m _ hlt => (Nat.not_lt_zero m hlt).elim⟩
    exact Nat.le_of_eq (Option.some.inj hm).symm
  | succ n ih =>
    have hall := fun t => attending_pump (h t) s (n + 1) w (hw t)
    by_cases hexists : (w.schedulers.get? s.row).isSome
    · have htaken := fun t => attended_taken (h t) (hw t) hexists
      rw [Act.pump, Act.runIn_bind_some (runIn_takeFrame_some enter hexists)] at hall ⊢
      cases hframe : (w.scheduler s).frame with
      | false =>
        rw [hframe] at hall
        simp only [Bool.false_eq_true, if_false] at hall ⊢
        rw [Act.runIn_pure] at hall ⊢
        refine ⟨hall, fun m hm => ?_, fun _ _ _ => ?_⟩
        · exact Option.some.inj hm ▸ Nat.zero_le _
        · rw [World.scheduler_updateScheduler_self w s (.inl hexists)]
      | true =>
        simp only [if_true]
        rw [Act.runIn_bind]
        revert htaken
        rcases (Act.runBatch s).runIn enter (w.updateScheduler s ({ · with frame := false }))
          with ⟨_ | report, v⟩
        · exact fun htaken => ⟨htaken, nofun, nofun⟩
        · intro htaken
          have hrest := ih htaken
          dsimp only
          rw [Act.runIn_bind]
          revert hrest
          rcases (Act.pump s n).runIn enter v with ⟨_ | k, v'⟩
          · exact fun hrest => ⟨hrest.attended, nofun, nofun⟩
          · intro hrest
            refine ⟨hrest.attended, fun m hm => ?_, fun m hm hlt => ?_⟩
            · cases hm
              exact Nat.succ_le_succ (hrest.le k rfl)
            · cases hm
              exact hrest.frame k rfl (Nat.lt_of_succ_lt_succ hlt)
    · have hnone : (Act.pump s (n + 1)).runIn enter w = (none, w) :=
        Act.runIn_bind_none (runIn_takeFrame_none enter hexists)
      rw [hnone]
      exact ⟨hw, nofun, nofun⟩

/-- Programs that drive leave nothing behind without a frame, however deep their calls are
nested. -/
theorem Host.attending {host : Host σ} (hhost : ∀ call, (host.answer call).Drives) (depth : Nat) :
    ∀ s, Admits (Attending s) (host.enter depth) := by
  induction depth with
  | zero => exact fun s => .of_quiet Change.attending Attending.trans fun _ w hw => hw
  | succ depth ih =>
    refine fun s => .of_quiet Change.attending Attending.trans fun call => ?_
    cases call with
    | host call => exact (hhost call).attending (ih s)
    | update e => exact (ih s).update e
    | inspect v => exact (ih s).inspect v

/-- A program that leaves the frame of a scheduler alone leaves nothing behind that waits for a
frame. -/
theorem Host.attends {host : Host σ} {s : SchedulerId}
    (hhost : ∀ call, (host.answer call).Only fun r => r ≠ .takeFrame s) :
    Respects (Attending s) host fun r => r ≠ .takeFrame s where
  only := hhost
  quiet := Change.attending
  trans := Attending.trans
  schedules h r hr _ := attending_perform h r hr

/-! ### Runs -/

/-- **No request is stranded.** Wherever a program that drives has got to, whatever is pending or
waits has its frame asked for; an application that flushes leaves it so, and a pump as well, however
many batches it may run. A pump that runs fewer leaves nothing pending and nobody waiting, and
unless a turn of the scheduler was in progress when it was called, every receiver that the scheduler
has handed out has heard what became of its request. No turn is in progress outside of updaters:
none is when the program has come to its end. -/
theorem Host.never_stranded {past host : Host σ} (hpast : ∀ call, (past.answer call).Drives)
    (hhost : ∀ call, (host.answer call).Drives) {script : Script σ α} (hscript : script.Drives)
    (pastDepth depth : Nat) (level : Level) (memory : σ) {w : World σ}
    (hw : past.reached pastDepth script level memory = w) :
    (∀ s, (w.scheduler s).pending ≠ [] ∨ (w.scheduler s).waiters ≠ [] →
      (w.scheduler s).frame = true) ∧
    ((past.run pastDepth script (.empty level memory)).1.isSome = true →
      ∀ s, openTurns s w.history = 0) ∧
    (∀ (app : App) total, (host.carryOut depth (app.flush.run total) w).2.Attended) ∧
    ∀ s n m w', host.carryOut depth (Act.pump s n) w = (some m, w') →
      w'.Attended ∧ m ≤ n ∧
      (m < n → (w'.scheduler s).pending = [] ∧ (w'.scheduler s).waiters = [] ∧
        (openTurns s w.history = 0 → ∀ e r, .requested s e r ∈ w'.history → w'.Heard s r)) := by
  have hattended : w.Attended := by
    rw [← hw]
    exact attending_run (Host.attending hpast pastDepth) hscript _ (World.attended_empty level memory)
  have hadmits := Host.attending hhost depth
  refine ⟨hattended, fun hanswered s => ?_, fun app total => ?_, fun s n m w' hrun => ?_⟩
  · have hdelivers := past.delivering.run pastDepth (.all script) (.empty level memory)
      (World.Recorded.empty level memory)
    rw [← hw]
    exact hdelivers.rest hanswered s
  · rw [App.run_flush, Host.carryOut, Act.runIn_map]
    exact attending_flush hadmits app.scheduler w hattended
  · have hpumped := pumped hadmits s n hattended
    have hdelivers : Delivering ((Act.pump s n).runIn (host.enter depth) w).1.isSome w
        ((Act.pump s n).runIn (host.enter depth) w).2 :=
      host.delivering.perform (host.delivering.admits depth) (.pump s n) trivial w
    rw [Host.carryOut] at hrun
    rw [hrun] at hpumped hdelivers
    refine ⟨hpumped.attended, hpumped.le m rfl, fun hlt => ?_⟩
    obtain ⟨hpending, hwaiters⟩ := (hpumped.attended s).idle (hpumped.frame m rfl hlt)
    refine ⟨hpending, hwaiters, fun hrest e r hrequested => ?_⟩
    have hlanded : w.Landed s := hw ▸ past.landed pastDepth script level memory (hw ▸ hrest)
    have hheard := (hlanded.delivers (hdelivers hlanded.recorded)).waits_or_heard hrequested
    rw [hwaiters] at hheard
    exact hheard.resolve_left List.not_mem_nil

/-- A host program whose updaters ask for the second element and withdraw the request at once. -/
def fickle : Host Unit where
  answer
    | .refresh _ _ => do
      let _ ← Script.requestUpdate ⟨0⟩ ⟨1⟩
      Script.cancel ⟨0⟩ ⟨1⟩
      return .ok ()
    | _ => .hang

/-- Two elements, the first of them with an updater and requested. -/
def oneRequest : Script Unit ReceiverId := do
  let s ← Script.newScheduler
  let a ← Script.newElement ⟨"a", none, [], none⟩ (.headless (.new "a")) []
  let _ ← Script.newElement ⟨"b", none, [], none⟩ (.headless (.new "b")) []
  Script.setUpdater a 0
  Script.requestUpdate s a

theorem fickle_drives (call : HostCall) : (fickle.answer call).Drives :=
  match call with
  | .refresh _ _ => .ask nofun fun _ => .ask nofun fun _ => .done _
  | .apply .. | .getOwn .. | .keys .. | .set .. | .make .. | .getAttribute .. | .setAttribute .. |
    .addListener .. | .appendChild .. | .removeChild .. | .clearChildren .. | .listeners .. |
    .attributes .. | .handle .. => .hang

theorem oneRequest_drives : oneRequest.Drives :=
  .ask nofun fun _ => .ask nofun fun _ => .ask nofun fun _ => .ask nofun fun _ =>
    .ask nofun fun _ => .done _

/-- The withdrawn request of the first batch leaves a receiver that waits while nothing is pending;
a second batch tells it. -/
theorem Host.never_stranded_fickle :
    (fickle.carryOut 10 (Act.pump ⟨0⟩ 5) (fickle.reached 10 oneRequest .off ())).1 = some 2 ∧
    .requested ⟨0⟩ ⟨1⟩ ⟨1⟩ ∈
      (fickle.carryOut 10 (Act.pump ⟨0⟩ 5) (fickle.reached 10 oneRequest .off ())).2.history ∧
    (fickle.carryOut 10 (Act.pump ⟨0⟩ 5) (fickle.reached 10 oneRequest .off ())).2.Heard ⟨0⟩ ⟨1⟩ ∧
    (fickle.carryOut 10 (Act.pump ⟨0⟩ 1) (fickle.reached 10 oneRequest .off ())).1 = some 1 ∧
    (fickle.carryOut 10 (Act.pump ⟨0⟩ 1) (fickle.reached 10 oneRequest .off ())).2.Attended := by
  have hpair {answer : Option Nat} (out : Option Nat × World Unit) (h : out.1 = answer) :
      out = (answer, out.2) := by
    rw [← h]
  have hall := Host.never_stranded fickle_drives fickle_drives oneRequest_drives 10 10 .off () rfl
  have htwo : (fickle.carryOut 10 (Act.pump ⟨0⟩ 5) (fickle.reached 10 oneRequest .off ())).1 =
      some 2 := by decide +kernel
  have hone : (fickle.carryOut 10 (Act.pump ⟨0⟩ 1) (fickle.reached 10 oneRequest .off ())).1 =
      some 1 := by decide +kernel
  have hrequested : Event.requested ⟨0⟩ ⟨1⟩ ⟨1⟩ ∈
      (fickle.carryOut 10 (Act.pump ⟨0⟩ 5) (fickle.reached 10 oneRequest .off ())).2.history := by
    decide +kernel
  have hrest := hall.2.1 (by decide +kernel) ⟨0⟩
  obtain ⟨-, -, hheard⟩ := hall.2.2.2 ⟨0⟩ 5 2 _ (hpair _ htwo)
  obtain ⟨hattended, -, -⟩ := hall.2.2.2 ⟨0⟩ 1 1 _ (hpair _ hone)
  exact ⟨htwo, hrequested, (hheard (by decide)).2.2 hrest _ _ hrequested, hone, hattended⟩

end ReactiveViews
