import ReactiveViews.Proofs.Live.Overrun

/-!
# The contract of a batch

What one batch does, whatever the updaters do in the meantime, as long as they leave batches of
the same scheduler alone: they may succeed and fail, request and withdraw, let go of elements,
and run batches of other schedulers.

## The model

A batch is described by its *visits*: the elements whose turn came, each with the world at that
moment and the answer of its update, if it was alive. Whoever looks at the journal finds the visits
again (`BatchContract.turns`), and between them only what the updaters did.

## What is proved

**The contract of a batch** (`Host.batch_contract`). From every world that a host program can
reach, a batch that comes to its end has kept its contract, which is `BatchContract`: who is
visited and in which order, who is updated, what the report says, who is told and when, and what
waits afterwards.
-/

namespace ReactiveViews

variable {σ α : Type}

/-! ### Leaving the batches of a scheduler alone -/

/-- Requests that neither run batches of a scheduler nor give it up. -/
def Request.spares (s : SchedulerId) : Request → Bool
  | .runBatch s' | .pump s' _ | .close s' => s' ≠ s
  | _ => true

/-- Events that have nothing to do with the batches of a scheduler. -/
def Event.spares (s : SchedulerId) : Event → Bool
  | .turn s' _ | .served s' _ _ | .skipped s' _ | .began s' _ | .closed s' => s' ≠ s
  | _ => true

/-- Acts that leave the batches of a scheduler alone, and tell only receivers of others. -/
structure Spares (s : SchedulerId) (w w' : World σ) : Prop where
  /-- The world agrees with its journal. -/
  recorded : w'.Recorded
  /-- What has happened meanwhile. -/
  history : ∃ more, w'.history = w.history ++ more ∧ (∀ event ∈ more, event.spares s = true) ∧
    ∀ r state, .resolved r state ∈ more →
      ∃ s' e, s' ≠ s ∧ .requested s' e r ∈ w'.history

/-- The effect of everything that leaves the batches of a scheduler alone. -/
def Sparing (s : SchedulerId) : Effect σ := fun _ w w' => w.Recorded → Spares s w w'

variable {s : SchedulerId}

theorem Spares.trans {u v w : World σ} (h : Spares s u v) (h' : Spares s v w) : Spares s u w := by
  obtain ⟨more, hmore, hspares, htold⟩ := h.history
  obtain ⟨more', hmore', hspares', htold'⟩ := h'.history
  refine ⟨h'.recorded, more ++ more', by rw [hmore', hmore, List.append_assoc], ?_, ?_⟩
  · intro event hmem
    exact (List.mem_append.mp hmem).elim (hspares event) (hspares' event)
  · intro r state hmem
    rcases List.mem_append.mp hmem with hmem | hmem
    · obtain ⟨s', e, hs, hrequested⟩ := htold r state hmem
      exact ⟨s', e, hs, hmore' ▸ List.mem_append_left _ hrequested⟩
    · exact htold' r state hmem

theorem Sparing.trans {b : Bool} {u v w : World σ} (h : Sparing s true u v)
    (h' : Sparing s b v w) : Sparing s b u w := fun hu => (h hu).trans (h' (h hu).recorded)

/-- A step that tells nobody anything. -/
theorem Spares.step {w w' : World σ} (more : List Event) (hw' : w'.Recorded)
    (hhistory : w'.history = w.history ++ more)
    (hspares : ∀ event ∈ more, event.spares s = true)
    (htells : ∀ event ∈ more, ∀ r state, event ≠ .resolved r state) : Spares s w w' :=
  ⟨hw', more, hhistory, hspares, fun r state hmem => (htells _ hmem r state rfl).elim⟩

theorem Spares.refl {w : World σ} (h : w.Recorded) : Spares s w w :=
  .step [] h (by simp) (by simp) (by simp)

theorem Change.sparing {b : Bool} {w w' : World σ} (h : Change w w') : Sparing s b w w' := by
  intro hw
  rcases h.journal_eq with hjournal | ⟨event, hquiet, hjournal⟩
  · exact .step [] (h.recorded hw) (by simp [World.history, hjournal]) (by simp) (by simp)
  · refine .step [event] (h.recorded hw) (by simp [World.history, hjournal]) ?_ ?_
    · intro event' hmem
      obtain rfl := List.mem_singleton.mp hmem
      cases event' <;> first | rfl | cases hquiet
    · rintro event' hmem r state rfl
      obtain rfl := List.mem_singleton.mp hmem
      cases hquiet

theorem Operation.sparing {b : Bool} {w w' : World σ} (h : Operation w w') : Sparing s b w w' := by
  intro hw
  obtain ⟨more, hhistory, hmore⟩ := h.history_eq
  refine .step more (h.recorded hw) hhistory ?_ ?_
  all_goals
    intro event hmem
    rcases hmore event hmem with ⟨s', e, r, rfl⟩ | ⟨s', e, rfl⟩ <;> simp [Event.spares]

theorem sparing_turn {w : World σ} {s' : SchedulerId} (hs : s' ≠ s) {e : ElementId}
    {rest : List ElementId} {event : Event} (hrunning : (w.scheduler s').running = e :: rest)
    (hevent : event = .turn s' e ∨ event = .skipped s' e) :
    Sparing s true w ((w.popped s').record event) := by
  intro hw
  rcases hevent with rfl | rfl
  · exact .step [.turn s' e] (hw.turn hrunning) (by simp) (by simpa [Event.spares]) (by simp)
  · exact .step [.skipped s' e] (hw.skipped hrunning) (by simp) (by simpa [Event.spares]) (by simp)

theorem sparing_served {s' : SchedulerId} (hs : s' ≠ s) (w : World σ) (e : ElementId)
    (success : Bool) : Sparing s true w (w.record (.served s' e success)) := fun hw =>
  .step [.served s' e success] (hw.record (fun _ _ => rfl) (by simp) rfl) (by simp)
    (by simpa [Event.spares]) (by simp)

/-- Receivers of another scheduler can be told. -/
theorem sparing_tells {s' : SchedulerId} (hs : s' ≠ s) {state : ReceiverState}
    {rs : List ReceiverId} {w : World σ}
    (hrequested : ∀ r ∈ rs, ∃ e, .requested s' e r ∈ w.history) :
    Sparing s true w (w.afterTells state rs) := by
  induction rs generalizing w with
  | nil => exact Change.sparing (.store w w.store)
  | cons r rest ih =>
    unfold World.afterTells
    split
    · refine Sparing.trans (fun hw => ?_) (ih fun r' hr' => ?_)
      · obtain ⟨e, hmem⟩ := hrequested r (by simp)
        refine ⟨hw.afterTell r state, [.resolved r state], World.history_afterTell ..,
          by simp [Event.spares], ?_⟩
        intro r' state' heq
        simp only [List.mem_singleton, Event.resolved.injEq] at heq
        exact ⟨s', e, hs, by simp [heq.1, hmem]⟩
      · obtain ⟨e, hmem⟩ := hrequested r' (by simp [hr'])
        exact ⟨e, by simp [hmem]⟩
    · exact ih fun r' hr' => hrequested r' (by simp [hr'])

theorem requested_of_open {events : List Event} {r : ReceiverId}
    (h : r ∈ openReceivers s events) : ∃ e, .requested s e r ∈ events := by
  obtain ⟨e, pre, post, rfl, -⟩ := mem_openReceivers h
  exact ⟨e, by simp⟩

theorem sparing_runBatch {enter : Enter σ} (h : Admits (Sparing s) enter) {s' : SchedulerId}
    (hs : s' ≠ s) : Keeps (Sparing s) enter (Act.runBatch s') := by
  intro w hw
  by_cases hexists : (w.schedulers.get? s'.row).isSome
  · rw [Act.runIn_runBatch_some enter w s' hexists, Act.runIn_bind]
    have hbegin : Spares s w (w.afterBegin s') :=
      .step [_] (hw.afterBegin s') (World.history_afterBegin w s') (by simpa [Event.spares])
        (by simp)
    refine hbegin.trans ?_
    have hturns := h.turns (sparing_turn hs) (fun w e success => sparing_served hs w e success)
      (w.scheduler s').pending.length .zero (w.afterBegin s') hbegin.recorded
    revert hturns
    rcases (Act.turns s' (w.scheduler s').pending.length .zero).runIn enter (w.afterBegin s')
      with ⟨_ | report, v⟩
    · exact id
    · intro hturns
      have htells : Spares s v (v.afterTells .done (w.scheduler s').waiters) := by
        refine sparing_tells hs (fun r hr => ?_) hturns.recorded
        rw [hw.waiters_eq] at hr
        obtain ⟨e, hmem⟩ := requested_of_open hr
        obtain ⟨more, hmore, -⟩ := hturns.history
        exact ⟨e, by rw [hmore]; simp [hmem]⟩
      refine hturns.trans (htells.trans ?_)
      dsimp only
      rw [Act.runIn_bind_some (Act.runIn_tells enter .done _ v)]
      exact h.bind (h.message .debug (h.pure _)) (fun _ => h.pure report) _ htells.recorded
  · rw [Act.runIn_runBatch_none enter w s' hexists]
    exact .refl hw

theorem sparing_close {enter : Enter σ} {s' : SchedulerId} (hs : s' ≠ s) :
    Keeps (Sparing s) enter (Act.close s') := by
  intro w hw
  by_cases hexists : (w.schedulers.get? s'.row).isSome
  · rw [Act.runIn_close_some enter w s' hexists]
    have hclose : Spares s w (w.afterClose s') :=
      .step [.closed s'] (hw.afterClose s') (World.history_afterClose w s')
        (by simpa [Event.spares]) (by simp)
    refine hclose.trans (sparing_tells hs (fun r hr => ?_) hclose.recorded)
    rw [hw.waiters_eq] at hr
    obtain ⟨e, hmem⟩ := requested_of_open hr
    exact ⟨e, by simp [hmem]⟩
  · rw [Act.runIn_close_none enter w s' hexists]
    exact .refl hw

/-- A host program that leaves the batches of a scheduler alone. -/
theorem Host.sparing {host : Host σ}
    (hhost : ∀ call, (host.answer call).Only fun r => r.spares s = true) :
    Respects (Sparing s) host fun r => r.spares s = true where
  only := hhost
  quiet := Change.sparing
  trans := Sparing.trans
  schedules h r hr _ := by
    cases r with
    | runBatch s' => exact sparing_runBatch h (by simpa [Request.spares] using hr)
    | pump s' n =>
      exact h.pump Operation.sparing (sparing_runBatch h (by simpa [Request.spares] using hr)) n
    | close s' => exact sparing_close (by simpa [Request.spares] using hr)
    | _ =>
      exact h.operation Operation.sparing _ (fun _ => Request.noConfusion)
        (fun _ _ => Request.noConfusion) fun _ => Request.noConfusion

/-! ### Visits -/

/-- The turn of one element of a batch. -/
structure Visit (σ : Type) where
  /-- The element. -/
  element : ElementId
  /-- The world when its turn comes. -/
  world : World σ
  /-- The answer of its update, if it was alive. -/
  answer : Option (Except ViewError Unit)

/-- The world in which the update of an element begins in its turn. -/
def World.inTurn (w : World σ) (s : SchedulerId) (e : ElementId) : World σ :=
  { w with held := e :: w.held }.record (.turn s e)

namespace Visit

/-- How the turn is recorded when it begins. -/
def opening (s : SchedulerId) (visit : Visit σ) : Event :=
  if visit.answer.isSome then .turn s visit.element else .skipped s visit.element

/-- How the turn is recorded when it is over. -/
def closing (s : SchedulerId) (visit : Visit σ) : List Event :=
  (visit.answer.map fun answer => .served s visit.element answer.isOk).toList

/-- Whether an update succeeded. -/
def succeeded (visit : Visit σ) : Bool := visit.answer.any Except.isOk

/-- Whether an update failed. -/
def failed (visit : Visit σ) : Bool := visit.answer.any (!·.isOk)

/-- An element is updated in its turn if it is alive, and not otherwise. -/
structure Faithful (host : Host σ) (depth : Nat) (s : SchedulerId) (visit : Visit σ) : Prop where
  /-- It is updated if it is alive. -/
  alive : visit.answer.isSome = visit.world.alive visit.element
  /-- The answer is what the update answers. -/
  update : ∀ answer, visit.answer = some answer →
    (host.carryOut depth (Act.enterUpdate visit.element)
      (visit.world.inTurn s visit.element)).1 = some answer

end Visit

namespace Event

/-- Whether an event records a turn in a batch. -/
def serves (s : SchedulerId) : Event → Bool
  | .turn s' _ | .served s' _ _ | .skipped s' _ => s' = s
  | _ => false

/-- Whether an event withdraws the requests of an element. -/
def withdraws (s : SchedulerId) (e : ElementId) : Event → Bool
  | .withdrawn s' e' => s' = s ∧ e' = e
  | _ => false

/-- Whether an event takes elements out of a batch in progress, other than by a withdrawal. -/
def advances (s : SchedulerId) : Event → Bool
  | .turn s' _ | .skipped s' _ | .began s' _ => s' = s
  | _ => false

end Event

/-- Whether the requests of an element are withdrawn before anything else becomes of them. -/
def withdrawnFirst (s : SchedulerId) (e : ElementId) (events : List Event) : Bool :=
  (events.find? (·.settles s e)).any (·.withdraws s e)

theorem withdrawnFirst_append {e : ElementId} {events more : List Event}
    (hadvances : ∀ event ∈ events, event.advances s = false) :
    withdrawnFirst s e (events ++ more) =
      (events.any (·.withdraws s e) || withdrawnFirst s e more) := by
  induction events with
  | nil => rfl
  | cons event rest ih =>
    have ih := ih fun event' hmem => hadvances event' (by simp [hmem])
    have hevent := hadvances event (by simp)
    simp only [withdrawnFirst, List.cons_append, List.find?_cons, List.any_cons] at ih ⊢
    cases hsettles : event.settles s e with
    | true =>
      have hwithdraws : event.withdraws s e = true := by
        cases event <;> simp_all [Event.settles, Event.withdraws, Event.advances]
      simp [hwithdraws]
    | false =>
      have hwithdraws : event.withdraws s e = false := by
        cases event <;> simp_all [Event.settles, Event.withdraws]
      simpa [hwithdraws] using ih

theorem running_after_filter {event : Event} (hadvances : event.advances s = false)
    (x : Scheduler) :
    (x.after s event).running = x.running.filter fun e => !event.withdraws s e := by
  have keeps (h : ∀ e, event.withdraws s e = false) :
      x.running = x.running.filter fun e => !event.withdraws s e :=
    (List.filter_eq_self.mpr (by simp [h])).symm
  cases event with
  | withdrawn s' e =>
    by_cases hs : s' = s
    · simp only [Scheduler.after, Event.withdraws, hs, true_and]
      exact List.filter_congr fun e' _ => by simp [eq_comm]
    · rw [← keeps (by simp [Event.withdraws, hs])]
      simp [Scheduler.after, hs]
  | requested s' e r | closed s' =>
    rw [← keeps fun _ => rfl, Scheduler.after]
    split <;> rfl
  | turn s' e | skipped s' e | began s' left =>
    have hs : ¬ s' = s := by simpa [Event.advances] using hadvances
    rw [← keeps fun _ => rfl]
    simp [Scheduler.after, hs]
  | _ => exact keeps fun _ => rfl

/-- Until the next turn, only withdrawals take elements out of a batch in progress. -/
theorem running_replay_filter (events : List Event) {more : List Event}
    (hadvances : ∀ event ∈ more, event.advances s = false) :
    (replay s (events ++ more)).running =
      (replay s events).running.filter fun e => !more.any (·.withdraws s e) := by
  induction more using List.reverseRecOn with
  | nil =>
    rw [List.append_nil]
    exact (List.filter_eq_self.mpr (by simp)).symm
  | append_singleton more event ih =>
    rw [← List.append_assoc, replay_snoc, running_after_filter (hadvances event (by simp)),
      ih fun event' hmem => hadvances event' (by simp [hmem]), List.filter_filter]
    exact List.filter_congr fun e _ => by simp [Bool.and_comm]

/-! ### One turn -/

/-- What a turn leaves behind, from the world in which its element has been taken out of the batch. -/
structure Turned (host : Host σ) (depth : Nat) (s : SchedulerId) (visit : Visit σ)
    (more : List Event) (report : BatchReport) (v : World σ) : Prop where
  /-- The world agrees with its journal. -/
  recorded : v.Recorded
  /-- What has happened meanwhile. -/
  history : v.history = visit.world.history ++ visit.opening s :: more
  /-- The element was updated if it was alive. -/
  faithful : visit.Faithful host depth s
  /-- No other turns have been recorded. -/
  serves : more.filter (·.serves s) = visit.closing s
  /-- No other element was taken out of the batch, unless withdrawn. -/
  advances : ∀ event ∈ more, event.advances s = false
  /-- What has been asked for still waits. -/
  empties : ∀ event ∈ more, event.empties s = false
  /-- Only receivers of other schedulers have been told anything. -/
  told : ∀ r state, .resolved r state ∈ more → ∃ s' e, s' ≠ s ∧ .requested s' e r ∈ v.history
  /-- What the turn adds to the report. -/
  report : report = ⟨[visit].countP Visit.succeeded, [visit].countP Visit.failed⟩

theorem serves_of_spares {event : Event} (h : event.spares s = true) :
    event.serves s = false ∧ event.advances s = false ∧ event.empties s = false := by
  cases event <;> simp_all [Event.spares, Event.serves, Event.advances, Event.empties]

theorem filter_serves_of_spares {events : List Event}
    (h : ∀ event ∈ events, event.spares s = true) : events.filter (·.serves s) = [] :=
  List.filter_eq_nil_iff.mpr fun event hmem => by simp [(serves_of_spares (h event hmem)).1]

variable {host : Host σ} {depth : Nat}

section Turns

variable (h : Admits (Sparing s) (host.enter depth))

include h

/-- What follows the update of an element in its turn. -/
theorem served_of_serve {w v : World σ} {e : ElementId} {report : BatchReport}
    (hw : w.Recorded) (hrun : (Act.serve s e).runIn (host.enter depth) w = (some report, v)) :
    ∃ (answer : Except ViewError Unit) (u : World σ),
      (Act.enterUpdate e).runIn (host.enter depth) w = (some answer, u) ∧ Spares s w u ∧
      Spares s (u.record (.served s e answer.isOk)) v ∧
      report = if answer.isOk then ⟨1, 0⟩ else ⟨0, 1⟩ := by
  obtain ⟨answer, u, hanswer, hrun⟩ := Act.runIn_bind_eq_some hrun
  have hupdate := h.enterUpdate e w hw
  rw [hanswer] at hupdate
  have hserved : (u.record (.served s e answer.isOk)).Recorded :=
    hupdate.recorded.record (fun _ _ => rfl) (by simp) rfl
  rw [Act.runIn_bind_some (Act.runIn_record _ _ u)] at hrun
  have haccount := h.account e answer _ hserved
  rw [hrun] at haccount
  exact ⟨answer, u, hanswer, hupdate, haccount, Act.runIn_account hrun⟩

/-- The turn of a living element. -/
theorem turned_of_turn {w v : World σ} {e : ElementId} {report : BatchReport}
    (hw : (w.record (.turn s e)).Recorded) (halive : w.alive e = true)
    (hrun : (Act.turn s e).runIn (host.enter depth) w = (some report, v)) :
    ∃ answer more, Turned host depth s ⟨e, w, answer⟩ more report v := by
  have hturn : (w.inTurn s e).Recorded := (Change.held _ _).recorded hw
  have hinTurn : (w.inTurn s e).history = w.history ++ [.turn s e] := World.history_record _ _
  obtain ⟨turned, u, hserve, hrelease⟩ := Act.runIn_bind_eq_some
    (show (Act.serve s e >>= fun turned => Act.release [e] >>= fun _ => pure turned).runIn
      (host.enter depth) (w.inTurn s e) = (some report, v) from hrun)
  obtain ⟨answer, u', hanswer, hupdate, haccount, hreport⟩ := served_of_serve h hturn hserve
  cases hrelease
  obtain ⟨first, hfirst, hspares, htold⟩ := hupdate.history
  obtain ⟨second, hsecond, hspares', htold'⟩ := haccount.history
  rw [World.history_record] at hsecond
  -- what happens after the turn has begun is recorded in three pieces
  have hevents {P : Event → Prop} (hserved : P (.served s e answer.isOk))
      (hfirst : ∀ event ∈ first, P event) (hsecond : ∀ event ∈ second, P event) :
      ∀ event ∈ first ++ .served s e answer.isOk :: second, P event := by
    intro event hmem
    rcases List.mem_append.mp hmem with hmem | hmem
    · exact hfirst event hmem
    · rcases List.mem_cons.mp hmem with rfl | hmem
      · exact hserved
      · exact hsecond event hmem
  refine ⟨some answer, first ++ .served s e answer.isOk :: second, ?_⟩
  constructor
  case recorded => exact (Change.held u _).recorded haccount.recorded
  case history =>
    show u.history = _
    rw [hsecond, hfirst, hinTurn]
    simp [Visit.opening]
  case faithful =>
    refine ⟨halive.symm, ?_⟩
    rintro answer' ⟨⟩
    exact congrArg Prod.fst hanswer
  case serves =>
    rw [List.filter_append, List.filter_cons_of_pos (by simp [Event.serves]),
      filter_serves_of_spares hspares, filter_serves_of_spares hspares']
    rfl
  case advances =>
    exact hevents rfl (fun event hmem => (serves_of_spares (hspares event hmem)).2.1)
      fun event hmem => (serves_of_spares (hspares' event hmem)).2.1
  case empties =>
    exact hevents rfl (fun event hmem => (serves_of_spares (hspares event hmem)).2.2)
      fun event hmem => (serves_of_spares (hspares' event hmem)).2.2
  case told =>
    intro r state hmem
    rcases List.mem_append.mp hmem with hmem | hmem
    · obtain ⟨s', e', hs, hrequested⟩ := htold r state hmem
      refine ⟨s', e', hs, ?_⟩
      show _ ∈ u.history
      rw [hsecond]
      simp [hrequested]
    · rcases List.mem_cons.mp hmem with heq | hmem
      · cases heq
      · exact htold' r state hmem
  case report =>
    rw [hreport]
    cases answer <;> rfl

/-- The turn of a dead element. -/
theorem turned_of_skip {w v : World σ} {e : ElementId} {report : BatchReport}
    (hw : (w.record (.skipped s e)).Recorded) (halive : w.alive e = false)
    (hrun : (do
      Act.message .warn do return "scheduler: skipping dropped element " ++ e.text
      return BatchReport.zero : Act σ BatchReport).runIn (host.enter depth)
        (w.record (.skipped s e)) = (some report, v)) :
    ∃ answer more, Turned host depth s ⟨e, w, answer⟩ more report v := by
  have hrest := h.bind (h.message .warn (h.pure ("scheduler: skipping dropped element " ++ e.text)))
    (fun _ => h.pure BatchReport.zero) _ hw
  rw [hrun] at hrest
  obtain ⟨more, hmore, hspares, htold⟩ := hrest.history
  rw [World.history_record] at hmore
  obtain ⟨_, u, -, hreport⟩ := Act.runIn_bind_eq_some hrun
  cases hreport
  refine ⟨none, more, ?_⟩
  constructor
  case recorded => exact hrest.recorded
  case history => rw [hmore]; simp [Visit.opening]
  case faithful => exact ⟨halive.symm, fun answer heq => by cases heq⟩
  case serves => exact filter_serves_of_spares hspares
  case advances => exact fun event hmem => (serves_of_spares (hspares event hmem)).2.1
  case empties => exact fun event hmem => (serves_of_spares (hspares event hmem)).2.2
  case told => exact htold
  case report => rfl

theorem turned_of_turnIfAlive {w v : World σ} {e : ElementId} {report : BatchReport}
    (hw : ∀ event, event = .turn s e ∨ event = .skipped s e → (w.record event).Recorded)
    (hrun : (Act.turnIfAlive s e).runIn (host.enter depth) w = (some report, v)) :
    ∃ answer more, Turned host depth s ⟨e, w, answer⟩ more report v := by
  have halive : (Act.alive e).runIn (host.enter depth) w = (some (w.alive e), w) := rfl
  rw [Act.turnIfAlive, Act.runIn_bind_some halive] at hrun
  cases hliving : w.alive e with
  | true =>
    rw [hliving] at hrun
    exact turned_of_turn h (hw _ (.inl rfl)) hliving hrun
  | false =>
    rw [hliving] at hrun
    exact turned_of_skip h (hw _ (.inr rfl)) hliving hrun

end Turns

/-! ### All turns -/

/-- What the turns of a batch leave behind, for the elements that it had to go when they began. -/
structure Toured (host : Host σ) (depth : Nat) (s : SchedulerId) (queue : List ElementId)
    (w : World σ) (visits : List (Visit σ)) (during : List Event) (v : World σ) : Prop where
  /-- The world agrees with its journal. -/
  recorded : v.Recorded
  /-- What has happened meanwhile. -/
  history : v.history = w.history ++ during
  /-- All elements have had their turn, in order, but those withdrawn before. -/
  visited : visits.map Visit.element = queue.filter fun e => !withdrawnFirst s e during
  /-- Elements were updated if they were alive. -/
  faithful : ∀ visit ∈ visits, visit.Faithful host depth s
  /-- The journal has a place for each visit. -/
  placed : ∀ visit ∈ visits, ∃ post, v.history = visit.world.history ++ visit.opening s :: post
  /-- There were no other turns. -/
  turns : during.filter (·.serves s) =
    visits.flatMap fun visit => visit.opening s :: visit.closing s
  /-- None is left. -/
  running : (v.scheduler s).running = []
  /-- What has been asked for still waits. -/
  empties : ∀ event ∈ during, event.empties s = false
  /-- Only receivers of other schedulers have been told anything. -/
  told : ∀ r state, .resolved r state ∈ during → ∃ s' e, s' ≠ s ∧ .requested s' e r ∈ v.history

/-- The report about visits. -/
def BatchReport.ofVisits (visits : List (Visit σ)) : BatchReport :=
  ⟨visits.countP Visit.succeeded, visits.countP Visit.failed⟩

/-- Nothing is left to go. -/
theorem Toured.nil {w : World σ} (hw : w.Recorded) (hrunning : (w.scheduler s).running = []) :
    Toured host depth s [] w [] [] w where
  recorded := hw
  history := by simp
  visited := rfl
  faithful := by simp
  placed := by simp
  turns := rfl
  running := hrunning
  empties := by simp
  told := by simp

theorem withdrawnFirst_opening_self (visit : Visit σ) (events : List Event) :
    withdrawnFirst s visit.element (visit.opening s :: events) = false := by
  rw [withdrawnFirst, List.find?_cons_of_pos]
  all_goals
    unfold Visit.opening
    split <;> simp [Event.withdraws, Event.settles]

theorem withdrawnFirst_opening_of_ne {visit : Visit σ} {e : ElementId} (he : e ≠ visit.element)
    (events : List Event) :
    withdrawnFirst s e (visit.opening s :: events) = withdrawnFirst s e events := by
  rw [withdrawnFirst, List.find?_cons_of_neg, ← withdrawnFirst]
  unfold Visit.opening
  split <;> simp [Event.settles, Ne.symm he]

theorem Event.serves_opening (visit : Visit σ) : (visit.opening s).serves s = true := by
  unfold Visit.opening
  split <;> simp [Event.serves]

/-- What a turn leaves of the elements still to go. -/
theorem Turned.running {w u : World σ} {visit : Visit σ} {rest : List ElementId}
    {more : List Event} {turned : BatchReport} (h : Turned host depth s visit more turned u)
    (hw : w.Recorded) (hrunning : (w.scheduler s).running = visit.element :: rest)
    (hworld : visit.world = w.popped s) :
    (u.scheduler s).running = rest.filter fun e => !more.any (·.withdraws s e) := by
  have hrest : (replay s (w.history ++ [visit.opening s])).running = rest := by
    rw [replay_snoc, ← hw.scheduler]
    unfold Visit.opening
    split <;> simp [Scheduler.after, Scheduler.unframed, hrunning]
  rw [h.recorded.running_eq, h.history, hworld, World.history_popped, ← hrest,
    ← running_replay_filter _ h.advances, List.append_assoc, List.singleton_append]

/-- One turn, and then the others, of which those are left that were not withdrawn in the first. -/
theorem Toured.cons {w u v : World σ} {visit : Visit σ} {rest : List ElementId}
    {more : List Event} {turned : BatchReport} {visits : List (Visit σ)} {during : List Event}
    (hw : w.Recorded) (hrunning : (w.scheduler s).running = visit.element :: rest)
    (hworld : visit.world = w.popped s) (hturned : Turned host depth s visit more turned u)
    (h : Toured host depth s (rest.filter fun e => !more.any (·.withdraws s e)) u visits during v) :
    Toured host depth s (visit.element :: rest) w (visit :: visits)
      (visit.opening s :: more ++ during) v where
  recorded := h.recorded
  history := by rw [h.history, hturned.history, hworld, World.history_popped, List.append_assoc]
  visited := by
    have hnodup : (visit.element :: rest).Nodup := by
      rw [← hrunning, hw.running_eq]
      exact nodup_running_replay s w.history
    rw [List.map_cons, h.visited, List.filter_filter, List.cons_append, List.filter_cons_of_pos
      (by rw [withdrawnFirst_opening_self]; rfl)]
    refine congrArg _ (List.filter_congr fun e he => ?_)
    have hne : e ≠ visit.element := fun heq => (List.nodup_cons.mp hnodup).1 (heq ▸ he)
    rw [withdrawnFirst_opening_of_ne hne, withdrawnFirst_append hturned.advances, Bool.not_or,
      Bool.and_comm]
  faithful visit' hmem := by
    rcases List.mem_cons.mp hmem with rfl | hmem
    · exact hturned.faithful
    · exact h.faithful visit' hmem
  placed visit' hmem := by
    rcases List.mem_cons.mp hmem with rfl | hmem
    · exact ⟨more ++ during, by rw [h.history, hturned.history]; simp⟩
    · exact h.placed visit' hmem
  turns := by
    rw [List.cons_append, List.filter_cons_of_pos (Event.serves_opening visit), List.filter_append,
      hturned.serves, h.turns, List.flatMap_cons]
    rfl
  running := h.running
  empties event hmem := by
    rcases List.mem_cons.mp hmem with rfl | hmem
    · unfold Visit.opening
      split <;> rfl
    · exact (List.mem_append.mp hmem).elim (hturned.empties event) (h.empties event)
  told r state hmem := by
    rcases List.mem_cons.mp hmem with heq | hmem
    · unfold Visit.opening at heq
      split at heq <;> cases heq
    · rcases List.mem_append.mp hmem with hmem | hmem
      · obtain ⟨s', e, hs, hrequested⟩ := hturned.told r state hmem
        exact ⟨s', e, hs, by rw [h.history]; exact List.mem_append_left _ hrequested⟩
      · exact h.told r state hmem

theorem BatchReport.add_ofVisits_cons (report : BatchReport) (visit : Visit σ)
    (visits : List (Visit σ)) :
    (report.add ⟨[visit].countP Visit.succeeded, [visit].countP Visit.failed⟩).add (.ofVisits visits) =
      report.add (.ofVisits (visit :: visits)) := by
  simp only [BatchReport.add, BatchReport.ofVisits, List.countP_cons, List.countP_nil,
    BatchReport.mk.injEq]
  omega

theorem toured_of_turns (h : Admits (Sparing s) (host.enter depth)) {n : Nat}
    {report report' : BatchReport} {w v : World σ} (hw : w.Recorded)
    (hn : (w.scheduler s).running.length ≤ n)
    (hrun : (Act.turns s n report).runIn (host.enter depth) w = (some report', v)) :
    ∃ visits during, Toured host depth s (w.scheduler s).running w visits during v ∧
      report' = report.add (.ofVisits visits) := by
  induction n generalizing report w with
  | zero =>
    rcases Act.turns_cases hn hrun with ⟨hrunning, rfl, rfl⟩ | ⟨_, _, _, _, _, _, heq, _⟩
    · exact ⟨[], [], hrunning ▸ .nil hw hrunning, rfl⟩
    · cases heq
  | succ n ih =>
    rcases Act.turns_cases hn hrun with
      ⟨hrunning, rfl, rfl⟩ | ⟨e, rest, m, turned, u, hrunning, heq, hturned, hrun⟩
    · exact ⟨[], [], hrunning ▸ .nil hw hrunning, rfl⟩
    · obtain rfl := Nat.succ.inj heq
      have hpopped (event : Event) (hevent : event = .turn s e ∨ event = .skipped s e) :
          ((w.popped s).record event).Recorded := by
        rcases hevent with rfl | rfl
        · exact hw.turn hrunning
        · exact hw.skipped hrunning
      obtain ⟨answer, more, hturn⟩ := turned_of_turnIfAlive h hpopped hturned
      have hrest := hturn.running hw hrunning rfl
      have hlength : (u.scheduler s).running.length ≤ n := by
        rw [hrunning, List.length_cons] at hn
        rw [hrest]
        exact Nat.le_trans (List.length_filter_le ..) (Nat.le_of_succ_le_succ hn)
      obtain ⟨visits, during, htoured, hreport⟩ := ih hturn.recorded hlength hrun
      rw [hrest] at htoured
      refine ⟨_, _, hrunning ▸ Toured.cons hw hrunning rfl hturn htoured, ?_⟩
      rw [hreport, hturn.report, BatchReport.add_ofVisits_cons]

/-! ### The contract -/

/-- The contract of a batch of a scheduler that is run in the world `w` and answers with `report`
in the world `w'`; `v` is the world when the last turn is over, and `during` what happens between
the beginning of the batch and that moment. -/
structure BatchContract (host : Host σ) (depth : Nat) (s : SchedulerId) (w : World σ)
    (visits : List (Visit σ)) (during : List Event) (v : World σ) (report : BatchReport)
    (w' : World σ) : Prop where
  /-- What waits when the batch begins are the elements requested since they last left, in the
  order of the first such requests. -/
  pending : (w.scheduler s).pending = openRequests s w.history
  /-- The receivers waiting with them were handed out since the batch before. -/
  waiters : (w.scheduler s).waiters = openReceivers s w.history
  /-- The batch as the journal tells it. -/
  history : v.history = w.history ++ .began s (w.scheduler s).running :: during
  /-- The elements that were waiting have their turns in order, each once, and only those are left
  out that are withdrawn before their turn. -/
  visited : visits.map Visit.element =
    (w.scheduler s).pending.filter fun e => !withdrawnFirst s e during
  /-- In its turn an element is updated if it is alive, and not otherwise. -/
  faithful : ∀ visit ∈ visits, visit.Faithful host depth s
  /-- The journal has a place for each turn. -/
  placed : ∀ visit ∈ visits, ∃ post, v.history = visit.world.history ++ visit.opening s :: post
  /-- There are no other turns. -/
  turns : during.filter (·.serves s) =
    visits.flatMap fun visit => visit.opening s :: visit.closing s
  /-- The report counts the updates that succeeded. -/
  updated : report.updated = visits.countP Visit.succeeded
  /-- The report counts the updates that failed. -/
  failed : report.failed = visits.countP Visit.failed
  /-- No receiver that was waiting is told anything before the last turn is over. -/
  patient : ∀ r ∈ (w.scheduler s).waiters, (∀ state, .resolved r state ∉ v.history) ∧
    (v.receivers.get? r.row = some .pending ∨ v.receivers.get? r.row = some .dropped)
  /-- Then all that still listen are told, in the order in which they were handed out. -/
  told : ∃ last, w'.history = v.history ++
      ((w.scheduler s).waiters.filter fun r => v.receivers.get? r.row = some .pending).map
        (.resolved · .done) ++ last ∧
    ∀ event ∈ last, event.isQuiet = true
  /-- They know that the batch is over. -/
  done : ∀ r ∈ (w.scheduler s).waiters, v.receivers.get? r.row = some .pending →
    w'.receivers.get? r.row = some .done
  /-- No receiver handed out during the batch is told anything in it. -/
  unresolved : ∀ e r, .requested s e r ∈ during → ∀ state, .resolved r state ∉ w'.history
  /-- Afterwards those elements wait that were requested during the batch and not withdrawn. -/
  pending_after : (w'.scheduler s).pending = openRequests s during
  /-- With them wait the receivers handed out during the batch. -/
  waiters_after : (w'.scheduler s).waiters = openReceivers s during
  /-- Nothing is left to go. -/
  running_after : (w'.scheduler s).running = []

/-- A receiver that waits has not been told anything. -/
theorem not_resolved_of_open {events : List Event} (honce : (receiversOf events).Nodup)
    (hmet : EachAfter TellsMet events) {r : ReceiverId} (hr : r ∈ openReceivers s events)
    (state : ReceiverState) : .resolved r state ∉ events := by
  intro hmem
  obtain ⟨before, after, hsplit⟩ := List.append_of_mem hmem
  obtain ⟨pre, s', e, post, hbefore, hempties⟩ := (hmet _ _ _ hsplit r state rfl).1
  obtain ⟨e', pre', post', hsplit', hopen⟩ := mem_openReceivers hr
  have hsplit : events = pre ++ .requested s' e r :: (post ++ .resolved r state :: after) := by
    rw [hsplit, hbefore]
    simp
  obtain ⟨-, rfl, -, hpost⟩ := requested_unique honce hsplit hsplit'
  rw [← hpost] at hopen
  exact hopen (by simp only [List.any_append, hempties, Bool.true_or])

/-- What follows the turns of a batch. -/
structure Ended (rs : List ReceiverId) (v w' : World σ) : Prop where
  /-- The world agrees with its journal. -/
  recorded : w'.Recorded
  /-- The receivers that listen have been told. -/
  history : ∃ last, w'.history = v.history ++
      (rs.filter fun r => v.receivers.get? r.row = some .pending).map (.resolved · .done) ++ last ∧
    ∀ event ∈ last, event.isQuiet = true
  /-- The schedulers are as they were. -/
  scheduler : ∀ s, w'.scheduler s = v.scheduler s
  /-- The receivers know that the batch is over. -/
  receivers : w'.receivers = (v.afterTells .done rs).receivers

theorem ended_of_tells {enter : Enter σ} {rs : List ReceiverId} (hnodup : rs.Nodup)
    {v w' : World σ} (hv : v.Recorded) {text : String} {report report' : BatchReport}
    (hrun : (do
      rs.forM (Act.tell .done)
      Act.message .debug (pure text)
      return report : Act σ BatchReport).runIn enter v = (some report', w')) :
    Ended rs v w' ∧ report' = report := by
  rw [Act.runIn_bind_some (Act.runIn_tells enter .done rs v),
    Act.runIn_bind_some (Act.runIn_message .debug text enter _)] at hrun
  cases hrun
  have htells := hv.afterTells .done rs
  refine ⟨?_, rfl⟩
  split
  · refine ⟨htells.record (fun _ _ => rfl) (by simp) rfl, ⟨[.message .debug text], ?_, ?_⟩,
      by simp, rfl⟩
    · rw [World.history_record, World.history_afterTells hnodup]
    · simp [Event.isQuiet]
  · exact ⟨htells, ⟨[], by simp [World.history_afterTells hnodup], by simp⟩, by simp, rfl⟩

/-- The events of a batch after its beginning that matter for what waits afterwards. -/
theorem open_of_batch {events during last : List Event} {left : List ElementId}
    {rs : List ReceiverId} (hlast : ∀ event ∈ last, event.isQuiet = true) :
    openRequests s (events ++ .began s left :: during ++ rs.map (.resolved · .done) ++ last) =
        openRequests s during ∧
      openReceivers s (events ++ .began s left :: during ++ rs.map (.resolved · .done) ++ last) =
        openReceivers s during := by
  have hbegan : (Event.began s left).empties s = true := by simp [Event.empties]
  have hsplit : events ++ .began s left :: during ++ rs.map (.resolved · .done) ++ last =
      events ++ .began s left :: (during ++ (rs.map (.resolved · .done) ++ last)) := by simp
  have hother : ∀ event ∈ rs.map (Event.resolved · .done) ++ last,
      event.isQuiet = true ∨ ∃ r, event = .resolved r .done := by
    intro event hmem
    rcases List.mem_append.mp hmem with hmem | hmem
    · obtain ⟨r, -, rfl⟩ := List.mem_map.mp hmem
      exact .inr ⟨r, rfl⟩
    · exact .inl (hlast event hmem)
  rw [hsplit, openRequests_append_empties s hbegan, openReceivers_append_empties s hbegan]
  generalize rs.map (Event.resolved · .done) ++ last = more at hother
  induction more using List.reverseRecOn with
  | nil => simp
  | append_singleton more event ih =>
    have ih := ih fun event' hmem => hother event' (by simp [hmem])
    rw [← List.append_assoc]
    rcases hother event (by simp) with hquiet | ⟨r, rfl⟩
    · have hempties : event.empties s = false := by
        cases event <;> first | rfl | cases hquiet
      have hclears (e : ElementId) : event.clears s e = false := by
        cases event <;> first | rfl | cases hquiet
      have hrequested (e : ElementId) (r : ReceiverId) : event ≠ .requested s e r := by
        rintro rfl
        cases hquiet
      rw [openRequests_other s hclears hrequested, openReceivers_other s hempties hrequested]
      exact ih
    · rw [openRequests_other s (fun _ => rfl) (by simp), openReceivers_other s rfl (by simp)]
      exact ih

section Parts

variable {depth : Nat} {w v w' : World σ} {visits : List (Visit σ)} {during : List Event}

/-- A receiver that waits when a batch begins is not told anything before the last turn is over. -/
theorem Toured.not_resolved {r : ReceiverId} (hw : w.Recorded) (hmet : EachAfter TellsMet w.history)
    (htoured : Toured host depth s (w.scheduler s).pending (w.afterBegin s) visits during v)
    (hhistory : v.history = w.history ++ .began s (w.scheduler s).running :: during)
    (hr : r ∈ openReceivers s w.history) (state : ReceiverState) : .resolved r state ∉ v.history := by
  intro hmem
  rw [hhistory] at hmem
  rcases List.mem_append.mp hmem with hmem | hmem
  · exact not_resolved_of_open hw.once hmet hr state hmem
  rcases List.mem_cons.mp hmem with heq | hmem
  · cases heq
  obtain ⟨s', e, hs, hrequested⟩ := htoured.told r state hmem
  obtain ⟨e', hrequested'⟩ := requested_of_open hr
  have hold : .requested s e' r ∈ v.history := by
    rw [hhistory]
    exact List.mem_append_left _ hrequested'
  exact hs (scheduler_unique htoured.recorded.once hrequested hold)

/-- It still listens then, or has been dropped. -/
theorem Toured.pending_or_dropped {r : ReceiverId} (hw : w.Recorded) (hmet : EachAfter TellsMet w.history)
    (htoured : Toured host depth s (w.scheduler s).pending (w.afterBegin s) visits during v)
    (hhistory : v.history = w.history ++ .began s (w.scheduler s).running :: during)
    (hr : r ∈ openReceivers s w.history) :
    v.receivers.get? r.row = some .pending ∨ v.receivers.get? r.row = some .dropped := by
  have hgiven : r ∈ receiversOf v.history := by
    obtain ⟨e, hrequested⟩ := requested_of_open hr
    rw [hhistory]
    exact mem_receiversOf.mpr ⟨s, e, List.mem_append_left _ hrequested⟩
  rcases htoured.recorded.states r hgiven with hpending | hdropped | ⟨state, hmem⟩
  · exact .inl hpending
  · exact .inr hdropped
  · exact (htoured.not_resolved hw hmet hhistory hr state hmem).elim

/-- A receiver that is handed out in the second part of a journal was not handed out in the first. -/
theorem not_requested_before {events more : List Event} (honce : (receiversOf (events ++ more)).Nodup)
    {s' : SchedulerId} {e e' : ElementId} {r : ReceiverId} (hrequested : .requested s e r ∈ more) :
    .requested s' e' r ∉ events := by
  intro hmem
  rw [receiversOf_append] at honce
  exact (List.nodup_append.mp honce).2.2 r (mem_receiversOf.mpr ⟨s', e', hmem⟩) r
    (mem_receiversOf.mpr ⟨s, e, hrequested⟩) rfl

/-- A receiver that is handed out during a batch is not told anything in it. -/
theorem Ended.not_resolved {e : ElementId} {r : ReceiverId} (hw : w.Recorded)
    (hmet : EachAfter TellsMet w.history)
    (htoured : Toured host depth s (w.scheduler s).pending (w.afterBegin s) visits during v)
    (hended : Ended (w.scheduler s).waiters v w')
    (hhistory : v.history = w.history ++ .began s (w.scheduler s).running :: during)
    (hrequested : .requested s e r ∈ during) (state : ReceiverState) : .resolved r state ∉ w'.history := by
  intro hmem
  have honce := htoured.recorded.once
  obtain ⟨last, hlast, hquiet⟩ := hended.history
  have hnew (s' : SchedulerId) (e' : ElementId) : .requested s' e' r ∉ w.history :=
    not_requested_before (hhistory ▸ honce) (List.mem_cons_of_mem _ hrequested)
  have hduring : .requested s e r ∈ v.history := by
    rw [hhistory]
    simp [hrequested]
  -- The journal has what was there before the batch, the batch up to its last turn, and what follows.
  rw [hlast, hhistory, List.append_assoc, List.mem_append, List.mem_append] at hmem
  rcases hmem with (hmem | hmem) | hmem
  · obtain ⟨before, after, hsplit⟩ := List.append_of_mem hmem
    obtain ⟨pre, s', e', post, hbefore, -⟩ := (hmet _ _ _ hsplit r state rfl).1
    exact hnew s' e' (by rw [hsplit, hbefore]; simp)
  · rcases List.mem_cons.mp hmem with heq | hmem
    · cases heq
    · obtain ⟨s', e', hs, hrequested'⟩ := htoured.told r state hmem
      exact hs (scheduler_unique honce hrequested' hduring)
  · rcases List.mem_append.mp hmem with hmem | hmem
    · obtain ⟨r', hr', heq⟩ := List.mem_map.mp hmem
      cases heq
      have hwaits := (List.mem_filter.mp hr').1
      rw [hw.waiters_eq s] at hwaits
      obtain ⟨e', hrequested'⟩ := requested_of_open hwaits
      exact hnew s e' hrequested'
    · cases hquiet _ hmem

theorem contract_of_parts {report : BatchReport} (hw : w.Recorded)
    (hmet : EachAfter TellsMet w.history)
    (htoured : Toured host depth s (w.scheduler s).pending (w.afterBegin s) visits during v)
    (hended : Ended (w.scheduler s).waiters v w')
    (hreport : report = BatchReport.zero.add (.ofVisits visits))
    (hhistory : v.history = w.history ++ .began s (w.scheduler s).running :: during) :
    BatchContract host depth s w visits during v report w' := by
  have hwaiters := hw.waiters_eq s
  obtain ⟨last, hlast, hquiet⟩ := hended.history
  constructor
  case pending => exact hw.pending_eq s
  case waiters => exact hwaiters
  case history => exact hhistory
  case visited => exact htoured.visited
  case faithful => exact htoured.faithful
  case placed => exact htoured.placed
  case turns => exact htoured.turns
  case updated => rw [hreport]; simp [BatchReport.add, BatchReport.zero, BatchReport.ofVisits]
  case failed => rw [hreport]; simp [BatchReport.add, BatchReport.zero, BatchReport.ofVisits]
  case patient =>
    intro r hr
    rw [hwaiters] at hr
    exact ⟨htoured.not_resolved hw hmet hhistory hr, htoured.pending_or_dropped hw hmet hhistory hr⟩
  case told => exact hended.history
  case done =>
    intro r hr hpending
    have hnodup : (w.scheduler s).waiters.Nodup := by
      rw [hwaiters]
      exact hw.once.sublist (openReceivers_sublist s _)
    rw [hended.receivers]
    exact World.receivers_afterTells hnodup hr .done hpending
  case unresolved =>
    intro e r hrequested
    exact hended.not_resolved hw hmet htoured hhistory hrequested
  case pending_after =>
    rw [hended.recorded.pending_eq, hlast, hhistory]
    exact (open_of_batch hquiet).1
  case waiters_after =>
    rw [hended.recorded.waiters_eq, hlast, hhistory]
    exact (open_of_batch hquiet).2
  case running_after => rw [hended.scheduler, htoured.running]

end Parts

/-- **The contract of a batch.** A host program that leaves the batches of a scheduler alone, but
may do anything else in the middle of a batch, in whatever world a host program has got to: a batch
that answers has kept its contract. -/
theorem Host.batch_contract {host : Host σ}
    (hhost : ∀ call, (host.answer call).Only fun r => r.spares s = true) (depth : Nat)
    (past : Host σ) (pastDepth : Nat) (script : Script σ α) (level : Level) (memory : σ)
    {report : BatchReport} {w' : World σ}
    (hrun : host.carryOut depth (Act.runBatch s) (past.reached pastDepth script level memory) =
      (some report, w')) :
    ∃ visits during v,
      BatchContract host depth s (past.reached pastDepth script level memory) visits during v report
        w' := by
  have hgrows := past.growing.run pastDepth (.all script) (.empty level memory)
    (World.Recorded.empty level memory)
  rw [← Host.reached] at hgrows
  generalize past.reached pastDepth script level memory = w at *
  have hw := hgrows.recorded
  have hmet := hgrows.met (.nil _)
  have hexists : (w.schedulers.get? s.row).isSome := by
    by_contra hnone
    rw [Host.carryOut, Act.runIn_runBatch_none _ w s hnone] at hrun
    cases hrun
  rw [Host.carryOut, Act.runIn_runBatch_some _ w s hexists] at hrun
  obtain ⟨report', v, hturns, hrun⟩ := Act.runIn_bind_eq_some hrun
  obtain ⟨visits, during, htoured, hreport⟩ := toured_of_turns
    ((Host.sparing hhost).admits depth) (hw.afterBegin s)
    (World.running_afterBegin w s ▸ Nat.le_refl _) hturns
  rw [World.running_afterBegin] at htoured
  have hnodup : (w.scheduler s).waiters.Nodup := by
    rw [hw.waiters_eq]
    exact hw.once.sublist (openReceivers_sublist s _)
  obtain ⟨hended, rfl⟩ := ended_of_tells hnodup htoured.recorded hrun
  have hhistory : v.history = w.history ++ .began s (w.scheduler s).running :: during := by
    rw [htoured.history, World.history_afterBegin, List.append_assoc, List.singleton_append]
  exact ⟨visits, during, v, contract_of_parts hw hmet htoured hended hreport hhistory⟩

/-- A host program whose first updater withdraws the second element and asks for the first one
again; its other updaters fail. -/
def busybody : Host Unit where
  answer
    | .refresh 0 _ => do
      Script.cancel ⟨0⟩ ⟨1⟩
      let _ ← Script.requestUpdate ⟨0⟩ ⟨0⟩
      return .ok ()
    | .refresh _ _ => .done (.error (.rootCount 0))
    | _ => .hang

/-- Four elements with such updaters, all of them requested, and the last one let go. -/
def fourRequests : Script Unit Unit := do
  let s ← Script.newScheduler
  for name in ["a", "b", "c", "d"] do
    let e ← Script.newElement ⟨name, none, [], none⟩ (.headless (.new name)) []
    Script.setUpdater e e.row
    let _ ← Script.requestUpdate s e
  Script.release ⟨3⟩

/-- Of four elements one is updated, one withdrawn, one fails and one is dead. -/
theorem Host.batch_contract_busybody :
    (busybody.carryOut 10 (Act.runBatch ⟨0⟩) (busybody.reached 10 fourRequests .off ())).1 =
      some ⟨1, 1⟩ ∧
    ∃ visits during v,
      BatchContract busybody 10 ⟨0⟩ (busybody.reached 10 fourRequests .off ()) visits during v ⟨1, 1⟩
        (busybody.carryOut 10 (Act.runBatch ⟨0⟩) (busybody.reached 10 fourRequests .off ())).2 := by
  have hreport :
      (busybody.carryOut 10 (Act.runBatch ⟨0⟩) (busybody.reached 10 fourRequests .off ())).1 =
        some ⟨1, 1⟩ := by decide +kernel
  have hrun : ∀ out : Option BatchReport × World Unit, out.1 = some ⟨1, 1⟩ →
      out = (some ⟨1, 1⟩, out.2) := by
    rintro ⟨answer, w⟩ rfl
    rfl
  refine ⟨hreport, Host.batch_contract (fun call => ?_) 10 busybody 10 fourRequests .off ()
    (hrun _ hreport)⟩
  match call with
  | .refresh 0 _ => exact .ask rfl fun _ => .ask rfl fun _ => .done _
  | .refresh (_ + 1) _ => exact .done _
  | .apply .. | .getOwn .. | .keys .. | .set .. | .make .. | .getAttribute .. | .setAttribute .. |
    .addListener .. | .appendChild .. | .removeChild .. | .clearChildren .. | .listeners .. |
    .attributes .. | .handle .. => exact .hang

end ReactiveViews
