import ReactiveViews.Proofs.Live.Batch
import ReactiveViews.Proofs.Live.Bracketing
import ReactiveViews.Proofs.Live.Frames
import ReactiveViews.Proofs.Live.Elements

/-!
# Applications frame by frame

In each frame of an application the host program has its turn, in which it may do what it likes: it
changes data, requests updates and withdraws requests, and it may run batches itself. At the end of
the frame what has been requested is carried out in one batch. The updaters of this batch may request
updates too. These belong to the next frame.

## The model

An application is built wherever some program has got to, and comes from one world to the next by
frames (`App.Driven`). Nobody else gets hold of the flag by which its scheduler asks for a frame: so
the host program leaves that flag alone. That updaters start no batches themselves can be seen in the
journal: batches begin while no turn is in progress (`Flat`).

## What is proved

**The contract of a frame** (`Host.frame_contract`). Whatever the host program has done in its turns
and in those of earlier frames, the end of a frame keeps the contract `Flushed`: everybody who asked
before has been told, there was at most one batch, and exactly what was requested in this batch and
not withdrawn again is pending, has been told nothing, and has its frame. What is pending when a frame
begins is served in it.
-/

namespace ReactiveViews

variable {σ : Type}

/-! ### Schedulers and what is noted of them -/

/-- The scheduler that must be there for an event to happen. A withdrawal is noted in any case. -/
def Event.scheduler? : Event → Option SchedulerId
  | .requested s _ _ | .began s _ | .turn s _ | .skipped s _ | .closed s => some s
  | _ => none

/-- Nothing is noted of schedulers that are not there. -/
def World.Founded (w : World σ) : Prop :=
  ∀ event ∈ w.history, ∀ s ∈ event.scheduler?, s.row < w.schedulers.size

/-- The effect of everything that can happen. -/
def Founding : Effect σ := fun _ w w' => w.Founded → w'.Founded

theorem World.row_lt_of_isSome {w : World σ} {s : SchedulerId}
    (h : (w.schedulers.get? s.row).isSome) : s.row < w.schedulers.size := by
  simpa [Table.get?, Table.size] using h

theorem World.Founded.step {w w' : World σ} (h : w.Founded) (more : List Event)
    (hhistory : w'.history = w.history ++ more)
    (hschedulers : w.schedulers.size ≤ w'.schedulers.size)
    (hmore : ∀ event ∈ more, ∀ s ∈ event.scheduler?, s.row < w.schedulers.size) : w'.Founded := by
  intro event hmem s hs
  rw [hhistory] at hmem
  rcases List.mem_append.mp hmem with hmem | hmem
  · exact Nat.lt_of_lt_of_le (h event hmem s hs) hschedulers
  · exact Nat.lt_of_lt_of_le (hmore event hmem s hs) hschedulers

theorem Change.founding {answered : Bool} {w w' : World σ} (h : Change w w') :
    Founding answered w w' := by
  intro hw
  have hschedulers : w.schedulers.size ≤ w'.schedulers.size := h.schedulers_eq ▸ Nat.le_refl _
  rcases h.journal_eq with hjournal | ⟨event, hquiet, hjournal⟩
  · exact hw.step [] (by simp [World.history, hjournal]) hschedulers (by simp)
  · have hnone : event.scheduler? = none := by cases event <;> first | rfl | cases hquiet
    exact hw.step [event] (by simp [World.history, hjournal]) hschedulers (by simp [hnone])

theorem Operation.founding {answered : Bool} {w w' : World σ} (h : Operation w w') :
    Founding answered w w' := by
  intro hw
  cases h with
  | scheduler => exact hw.step [] (List.append_nil _).symm (by simp) (by simp)
  | frame s frame =>
    exact hw.step [] (by simp) (Nat.le_of_eq (World.size_updateScheduler ..).symm) (by simp)
  | handOut => exact hw.step [] (List.append_nil _).symm (Nat.le_refl _) (by simp)
  | request e hexists =>
    refine hw.step _ (World.history_afterRequest ..) ?_ fun event hmem s' hs => ?_
    · exact Nat.le_of_eq (World.size_updateScheduler w.handOut ..).symm
    · obtain rfl := List.mem_singleton.mp hmem
      cases hs
      exact World.row_lt_of_isSome hexists
  | cancel s e =>
    refine hw.step _ (World.history_afterCancel ..) ?_ (by simp [Event.scheduler?])
    exact Nat.le_of_eq (World.size_updateScheduler w ..).symm
  | drop r => exact hw.step [] (List.append_nil _).symm (Nat.le_refl _) (by simp)

theorem founding_turn {w : World σ} {s : SchedulerId} {e : ElementId} {rest : List ElementId}
    {event : Event} (hrunning : (w.scheduler s).running = e :: rest)
    (hevent : event = .turn s e ∨ event = .skipped s e) :
    Founding true w ((w.popped s).record event) := fun hw =>
  hw.step [event] (by simp) (Nat.le_of_eq (World.size_updateScheduler w ..).symm) (by
    have hrow := World.row_lt_of_isSome (Act.exists_of_running e hrunning)
    rcases hevent with rfl | rfl <;> simpa [Event.scheduler?] using hrow)

theorem World.schedulers_afterTells (state : ReceiverState) (rs : List ReceiverId) (w : World σ) :
    (w.afterTells state rs).schedulers = w.schedulers := by
  induction rs generalizing w with
  | nil => rfl
  | cons r rest ih =>
    unfold World.afterTells
    split
    · exact ih (w.afterTell r state)
    · exact ih w

theorem founding_tells (state : ReceiverState) (rs : List ReceiverId) (w : World σ) :
    Founding true w (w.afterTells state rs) := by
  intro hw
  obtain ⟨more, hmore, htold⟩ := w.history_afterTells_eq state rs
  have hschedulers := congrArg Table.size (World.schedulers_afterTells state rs w)
  refine hw.step more hmore (Nat.le_of_eq hschedulers.symm) fun event hmem s hs => ?_
  obtain ⟨r, rfl⟩ := htold event hmem
  cases hs

theorem founding_runBatch {enter : Enter σ} (h : Admits Founding enter) (s : SchedulerId) :
    Keeps Founding enter (Act.runBatch s) := by
  have hturns := h.turns founding_turn fun w e success hw =>
    hw.step [.served s e success] (World.history_record w _) (Nat.le_refl _) (by simp [Event.scheduler?])
  intro w
  by_cases hexists : (w.schedulers.get? s.row).isSome
  · have hbegin : Founding true w (w.afterBegin s) := fun hw =>
      hw.step [_] (World.history_afterBegin w s)
        (Nat.le_of_eq (World.size_updateScheduler w ..).symm)
        (by simpa [Event.scheduler?] using World.row_lt_of_isSome hexists)
    rw [Act.runIn_runBatch_some enter w s hexists]
    refine h.trans hbegin (h.bind (hturns _ .zero) (fun report v => ?_) _)
    rw [Act.runIn_bind_some (Act.runIn_tells enter .done _ v)]
    exact h.trans (founding_tells .done _ v)
      (h.bind (h.message .debug (h.pure _)) (fun _ => h.pure report) _)
  · rw [Act.runIn_runBatch_none enter w s hexists]
    exact h.refl w

theorem founding_close {enter : Enter σ} (s : SchedulerId) :
    Keeps Founding enter (Act.close s) := by
  intro w hw
  by_cases hexists : (w.schedulers.get? s.row).isSome
  · rw [Act.runIn_close_some enter w s hexists]
    refine founding_tells .canceled _ _ (hw.step [_] (World.history_afterClose w s)
      (Nat.le_of_eq (World.size_updateScheduler w ..).symm) ?_)
    simpa [Event.scheduler?] using World.row_lt_of_isSome hexists
  · rw [Act.runIn_close_none enter w s hexists]
    exact hw

/-- Whatever a host program does, nothing is noted of a scheduler before there is one. -/
theorem Host.founding (host : Host σ) : Respects Founding host fun _ => True where
  only call := .all _
  quiet := Change.founding
  trans huv hvw hu := hvw (huv hu)
  schedules h r _ _ := by
    cases r with
    | runBatch s => exact founding_runBatch h s
    | pump s n => exact h.pump Operation.founding (founding_runBatch h s) n
    | close s => exact founding_close s
    | _ =>
      exact h.operation Operation.founding _ (fun _ => Request.noConfusion)
        (fun _ _ => Request.noConfusion) fun _ => Request.noConfusion

/-! ### Frames of an application -/

/-- The frames of an application lead from one world to another. -/
inductive App.Driven (app : App) (host : Host σ) (depth : Nat) (hook : Option (FrameHook σ))
    (w : World σ) : World σ → Prop where
  /-- No frame at all. -/
  | start : App.Driven app host depth hook w w
  /-- One more frame, which has come to its end. -/
  | frame {u v : World σ} {time : FrameTime} {total total' : BatchReport} {answer : FrameAnswer} :
    App.Driven app host depth hook w u →
    host.carryOut depth (((app.frameApp hook).frame time).run total) u = (some (answer, total'), v) →
    App.Driven app host depth hook w v

/-- No batch of a scheduler begins inside of another, and the scheduler is not given up. -/
structure Flat (s : SchedulerId) (events : List Event) : Prop where
  /-- Batches begin outside of turns. -/
  outside : ∀ pre left post, events = pre ++ .began s left :: post → openTurns s pre = 0
  /-- Nobody gives it up. -/
  open_ : .closed s ∉ events

theorem Flat.of_append {s : SchedulerId} {events more : List Event} (h : Flat s (events ++ more)) :
    Flat s events where
  outside pre left post heq := h.outside pre left (post ++ more) (by rw [heq]; simp)
  open_ hmem := h.open_ (List.mem_append_left _ hmem)

/-- No batch begins among the events after one that began outside of turns. -/
theorem Flat.not_began {s : SchedulerId} {events more : List Event} {left : List ElementId}
    (h : Flat s (events ++ .began s left :: more)) {answered : Bool} (hwithin : Within s answered more)
    (hzero : openTurns s events = 0) : ∀ event ∈ more, event.empties s = false := by
  intro event hmem
  by_contra hempties
  cases event with
  | began s' left' =>
    obtain rfl : s' = s := by simpa [Event.empties] using hempties
    obtain ⟨pre, post, rfl⟩ := List.append_of_mem hmem
    have hinside := hwithin.within pre left' post rfl
    have houtside := h.outside (events ++ .began s' left :: pre) left' post (by simp)
    rw [openTurns_add, ← List.singleton_append, openTurns_add, hzero] at houtside
    have hbegan : openTurns s' [.began s' left] = 0 := by simp [openTurns, Event.opens, Event.shuts]
    omega
  | closed s' =>
    obtain rfl : s' = s := by simpa [Event.empties] using hempties
    exact h.open_ (List.mem_append_right _ (List.mem_cons_of_mem _ hmem))
  | _ => simp [Event.empties] at hempties

/-! ### Between frames -/

/-- A scheduler between two frames: no batch is in progress, and what waits has its frame. -/
structure World.Between (w : World σ) (s : SchedulerId) : Prop where
  /-- No receiver is in flight. -/
  landed : w.Landed s
  /-- What waits has its frame. -/
  attended : (w.scheduler s).Attended
  /-- Nothing is left to go. -/
  running : (w.scheduler s).running = []
  /-- No turn is in progress. -/
  turns : openTurns s w.history = 0
  /-- Whoever was told had a request that was met. -/
  met : EachAfter TellsMet w.history

namespace World.Between

variable {s : SchedulerId} {u v : World σ}

/-- What acts that answer keep. -/
theorem answered (h : u.Between s) (hdelivers : Delivering true u v) (hgrows : Growing true u v)
    (hattends : Attending s true u v) : v.Between s := by
  have hdelivers := hdelivers h.landed.recorded
  have hgrows := hgrows h.landed.recorded
  have hlength := hgrows.running rfl s
  rw [h.running, List.length_nil] at hlength
  exact ⟨h.landed.delivers hdelivers, hattends h.attended,
    List.eq_nil_of_length_eq_zero (Nat.le_zero.mp hlength), (hdelivers.rest rfl s).trans h.turns,
    hgrows.met h.met⟩

theorem cleared (h : u.Between s) : u.Cleared s :=
  ⟨h.landed.recorded, Int.le_of_eq h.turns.symm, fun _ => h.running⟩

/-- Each receiver waits, or it has been told that its batch is over, or it is not listened to. -/
theorem told (h : u.Between s) (hflat : Flat s u.history) {e : ElementId} {r : ReceiverId}
    (hrequested : .requested s e r ∈ u.history) (hwaits : r ∉ (u.scheduler s).waiters) :
    .resolved r .done ∈ u.history ∨ u.receivers.get? r.row = some .dropped := by
  rcases (h.landed.waits_or_heard hrequested).resolve_left hwaits with
    hdropped | hdone | ⟨-, hclosed⟩
  · exact .inr hdropped
  · exact .inl hdone
  · exact (hflat.open_ hclosed).elim

end World.Between

/-! ### The end of a frame -/

/-- What the end of a frame does, from the world in which the host program's turn is over. -/
structure Flushes (s : SchedulerId) (u w : World σ) (flushed : List Event) : Prop where
  /-- What happens meanwhile. -/
  history : w.history = u.history ++ flushed
  /-- Whoever asked before has been told that the batch is over, unless nobody listens. -/
  resolved : ∀ e r, .requested s e r ∈ u.history →
    .resolved r .done ∈ w.history ∨ w.receivers.get? r.row = some .dropped
  /-- There was one batch, or none. -/
  batches : flushed.countP (·.begins s) ≤ 1
  /-- What has been requested meanwhile is pending, unless it was withdrawn, and nothing else is. -/
  pending : ∀ e, e ∈ (w.scheduler s).pending ↔
    ∃ pre r post, flushed = pre ++ .requested s e r :: post ∧ .withdrawn s e ∉ post
  /-- Whoever asked meanwhile waits and has been told nothing. -/
  waiting : ∀ e r, .requested s e r ∈ flushed →
    r ∈ (w.scheduler s).waiters ∧ ∀ state, .resolved r state ∉ w.history
  /-- What is pending has its frame. -/
  frame : (w.scheduler s).pending ≠ [] → (w.scheduler s).frame = true

/-- The end of a frame that nobody asked for. -/
theorem flushes_idle {s : SchedulerId} {u w : World σ} (hw : w.Between s) (hflat : Flat s w.history)
    (hhistory : w.history = u.history) (hpending : (w.scheduler s).pending = [])
    (hwaiters : (w.scheduler s).waiters = []) : Flushes s u w [] where
  history := by rw [hhistory, List.append_nil]
  resolved e r hrequested := hw.told hflat (hhistory ▸ hrequested) (by simp [hwaiters])
  batches := Nat.zero_le 1
  pending e := by simp [hpending]
  waiting := by simp
  frame hne := (hne hpending).elim

/-- Without batches, what waits is what was requested and not withdrawn. -/
theorem mem_openRequests_of_not_empties {s : SchedulerId} {e : ElementId} {events : List Event}
    (hempties : ∀ event ∈ events, event.empties s = false) :
    e ∈ openRequests s events ↔
      ∃ pre r post, events = pre ++ .requested s e r :: post ∧ .withdrawn s e ∉ post := by
  rw [mem_openRequests]
  refine exists_congr fun pre => exists_congr fun r => exists_congr fun post => ?_
  refine and_congr_right fun hsplit => not_congr ?_
  rw [List.any_eq_true]
  constructor
  · rintro ⟨event, hmem, hclears⟩
    have hnot := hempties event (by rw [hsplit]; simp [hmem])
    cases event <;> simp_all [Event.clears, Event.empties]
  · exact fun hmem => ⟨_, hmem, by simp [Event.clears]⟩

/-- Whoever is told something asked before the last batch began. -/
theorem not_resolved_of_not_empties {s : SchedulerId} {e : ElementId} {r : ReceiverId}
    {events more : List Event} (hmet : EachAfter TellsMet (events ++ more))
    (honce : (receiversOf (events ++ more)).Nodup)
    (hempties : ∀ event ∈ more, event.empties s = false) (hrequested : .requested s e r ∈ more)
    (state : ReceiverState) : .resolved r state ∉ events ++ more := by
  intro hresolved
  obtain ⟨pre, post, hsplit⟩ := List.append_of_mem hresolved
  obtain ⟨pre', s', e', between, rfl, hany⟩ := (hmet pre _ post hsplit r state rfl).1
  obtain ⟨before, after, rfl⟩ := List.append_of_mem hrequested
  have hfirst : events ++ (before ++ .requested s e r :: after) =
      (events ++ before) ++ .requested s e r :: after := by simp
  have hsecond : events ++ (before ++ .requested s e r :: after) =
      pre' ++ .requested s' e' r :: (between ++ .resolved r state :: post) := by
    rw [hsplit]
    simp
  obtain ⟨-, rfl, -, rfl⟩ := requested_unique honce hfirst hsecond
  obtain ⟨event, hmem, hevent⟩ := List.any_eq_true.mp hany
  rw [hempties event (by simp [hmem])] at hevent
  cases hevent

/-- The end of a frame with a batch. -/
theorem flushes_batch {s : SchedulerId} {u w : World σ} (hw : w.Between s) {left : List ElementId}
    {more : List Event} (hhistory : w.history = u.history ++ .began s left :: more)
    (hempties : ∀ event ∈ more, event.empties s = false) (hflat : Flat s w.history) :
    Flushes s u w (.began s left :: more) where
  history := hhistory
  resolved e r hrequested := by
    have honce := hw.landed.recorded.once
    refine hw.told hflat (hhistory ▸ List.mem_append_left _ hrequested) fun hwaits => ?_
    rw [hw.landed.recorded.waiters_eq, hhistory,
      openReceivers_append_empties s (by simp [Event.empties])] at hwaits
    obtain ⟨e', hlater⟩ := requested_of_open hwaits
    -- nobody asks twice with the same receiver
    rw [hhistory, receiversOf_append, ← List.singleton_append, receiversOf_append] at honce
    have hdisjoint := (List.nodup_append.mp honce).2.2 r (mem_receiversOf.mpr ⟨s, e, hrequested⟩) r
      (List.mem_append_right _ (mem_receiversOf.mpr ⟨s, e', hlater⟩))
    exact hdisjoint rfl
  batches := by
    have hnone : more.countP (·.begins s) = 0 := List.countP_eq_zero.mpr fun event hmem => by
      have hevent := hempties event hmem
      cases event <;> simp_all [Event.begins, Event.empties]
    rw [List.countP_cons, hnone]
    split <;> simp
  pending e := by
    rw [hw.landed.recorded.pending_eq, hhistory,
      openRequests_append_empties s (by simp [Event.empties]), mem_openRequests_of_not_empties hempties]
    constructor
    · rintro ⟨pre, r, post, rfl, hpost⟩
      exact ⟨.began s left :: pre, r, post, by simp, hpost⟩
    · rintro ⟨pre, r, post, heq, hpost⟩
      cases pre with
      | nil => cases (List.cons.inj heq).1
      | cons event pre => exact ⟨pre, r, post, (List.cons.inj heq).2, hpost⟩
  waiting e r hrequested := by
    have hrequested : .requested s e r ∈ more := by simpa using hrequested
    have hsplit : w.history = (u.history ++ [.began s left]) ++ more := by rw [hhistory]; simp
    constructor
    · rw [hw.landed.recorded.waiters_eq, hhistory,
        openReceivers_append_empties s (by simp [Event.empties])]
      exact (openReceivers_append s [] hempties).2 e r hrequested
    · rw [hsplit]
      exact not_resolved_of_not_empties (hsplit ▸ hw.met) (hsplit ▸ hw.landed.recorded.once) hempties
        hrequested
  frame hne := hw.attended (.inl hne)

/-! ### What is pending is served -/

/-- An element that is listed stays so until it has been dealt with, if batches begin when nothing is
left of those before. -/
theorem Scheduler.listed_after {s : SchedulerId} {x : Scheduler} {e : ElementId} {event : Event}
    (h : e ∈ x.pending ∨ e ∈ x.running) (hclosed : event ≠ .closed s)
    (hbegan : ∀ left, event = .began s left → x.running = []) :
    (e ∈ (x.after s event).pending ∨ e ∈ (x.after s event).running) ∨ event.settles s e = true := by
  cases event with
  | requested s' e' r =>
    refine .inl ?_
    simp only [Scheduler.after]
    split
    · refine h.imp_left fun hpending => ?_
      unfold Act.enlist
      split
      · exact hpending
      · exact List.mem_append_left _ hpending
    · exact h
  | withdrawn s' e' =>
    by_cases hsettles : s' = s ∧ e' = e
    · exact .inr (by simp [Event.settles, hsettles])
    · refine .inl ?_
      simp only [Scheduler.after]
      split
      · have hne : e ≠ e' := fun heq => hsettles ⟨‹_›, heq.symm⟩
        simpa [hne] using h
      · exact h
  | began s' left =>
    by_cases hs : s' = s
    · subst hs
      rw [hbegan left rfl] at h
      exact .inl (.inr (by simpa [Scheduler.after] using h))
    · exact .inl (by simpa [Scheduler.after, hs] using h)
  | turn s' e' | skipped s' e' =>
    by_cases hsettles : s' = s ∧ e' = e
    · exact .inr (by simp [Event.settles, hsettles])
    · refine .inl (h.imp (fun hpending => ?_) fun hrunning => ?_)
      · simp only [Scheduler.after]
        split <;> exact hpending
      · simp only [Scheduler.after]
        split
        · exact (List.mem_erase_of_ne fun heq => hsettles ⟨‹_›, heq.symm⟩).mpr hrunning
        · exact hrunning
  | closed s' =>
    have hs : ¬ s' = s := fun heq => hclosed (by rw [heq])
    exact .inl (by simpa [Scheduler.after, hs] using h)
  | _ => exact .inl h

theorem listed_replay {s : SchedulerId} {e : ElementId} {events more : List Event}
    (htells : EachAfter TellsLeft (events ++ more)) (hclosed : .closed s ∉ more)
    (hbegan : ∀ left, .began s left ∈ more → left = [])
    (he : e ∈ (replay s events).pending ∨ e ∈ (replay s events).running) :
    (e ∈ (replay s (events ++ more)).pending ∨ e ∈ (replay s (events ++ more)).running) ∨
      ∃ event ∈ more, event.settles s e = true := by
  induction more using List.reverseRecOn with
  | nil => exact .inl (by simpa using he)
  | append_singleton more event ih =>
    rw [← List.append_assoc] at htells ⊢
    rcases ih htells.of_append (fun hmem => hclosed (by simp [hmem]))
      (fun left hmem => hbegan left (by simp [hmem])) with hlisted | ⟨event', hmem, hsettles⟩
    · rw [replay_snoc]
      refine (Scheduler.listed_after hlisted (fun heq => hclosed (by simp [heq]))
        fun left heq => ?_).imp_right fun hsettles => ⟨event, by simp, hsettles⟩
      rw [← htells _ _ [] rfl s left heq]
      exact hbegan left (by simp [heq])
    · exact .inr ⟨event', by simp [hmem], hsettles⟩

/-- What is pending is dealt with until the scheduler is between frames again, or is still pending. -/
theorem World.Between.settles {s : SchedulerId} {u v : World σ} (hu : u.Between s) (hv : v.Between s)
    (hclears : Exhausts s true u v) (hflat : Flat s v.history) {more : List Event}
    (hhistory : v.history = u.history ++ more) {e : ElementId} (he : e ∈ (u.scheduler s).pending) :
    e ∈ (v.scheduler s).pending ∨ ∃ event ∈ more, event.settles s e = true := by
  rw [hu.landed.recorded.pending_eq, ← replay_pending] at he
  have hbegan : ∀ left, .began s left ∈ more → left = [] := by
    intro left hmem
    obtain ⟨pre, post, rfl⟩ := List.append_of_mem hmem
    exact hclears.left pre left post hhistory (hflat.outside _ left post (by rw [hhistory]; simp))
  have hclosed : .closed s ∉ more := fun hmem => hflat.open_ (by rw [hhistory]; simp [hmem])
  rcases listed_replay (hhistory ▸ hv.landed.recorded.consistent) hclosed hbegan (.inl he) with
    (hpending | hrunning) | hsettles
  · rw [← hhistory, replay_pending, ← hv.landed.recorded.pending_eq] at hpending
    exact .inl hpending
  · rw [← hhistory, ← hv.landed.recorded.running_eq, hv.running] at hrunning
    cases hrunning
  · exact .inr hsettles

/-- A batch deals with everything that was pending. -/
theorem settles_batch {s : SchedulerId} {u w : World σ} (hu : u.Recorded) (hw : w.Between s)
    {left : List ElementId} {more : List Event}
    (hhistory : w.history = u.history ++ .began s left :: more)
    (hempties : ∀ event ∈ more, event.empties s = false) {e : ElementId}
    (he : e ∈ (u.scheduler s).pending) : ∃ event ∈ more, event.settles s e = true := by
  have hsplit : w.history = (u.history ++ [.began s left]) ++ more := by rw [hhistory]; simp
  have hrunning : e ∈ (replay s (u.history ++ [.began s left])).running := by
    rw [hu.pending_eq, ← replay_pending] at he
    rw [replay_snoc]
    simpa [Scheduler.after] using he
  rcases mem_running_replay (hsplit ▸ hw.landed.recorded.consistent) hrunning with
    hleft | ⟨event, hmem, hsettles | hoverruns⟩
  · rw [← hsplit, ← hw.landed.recorded.running_eq, hw.running] at hleft
    cases hleft
  · exact ⟨event, hmem, hsettles⟩
  · have hevent := hempties event hmem
    cases event <;> simp_all [Event.overruns, Event.empties]

/-! ### Running a frame -/

/-- The ways in which a flush comes to its end. -/
theorem runIn_flush_cases {enter : Enter σ} {s : SchedulerId} {u w : World σ}
    {report : Option BatchReport}
    (hrun : (Act.run (Script.flush s)).runIn enter u = (some report, w)) :
    ((u.scheduler s).frame = false ∧ w = u.updateScheduler s ({ · with frame := false })) ∨
      ∃ report, (u.schedulers.get? s.row).isSome ∧
        (Act.runBatch s).runIn enter (u.updateScheduler s ({ · with frame := false })) =
          (some report, w) := by
  rw [Act.run_flush] at hrun
  by_cases hexists : (u.schedulers.get? s.row).isSome
  · rw [Act.runIn_bind_some (runIn_takeFrame_some enter hexists)] at hrun
    cases hframe : (u.scheduler s).frame with
    | false =>
      rw [hframe] at hrun
      cases hrun
      exact .inl ⟨rfl, rfl⟩
    | true =>
      simp only [hframe, if_true] at hrun
      obtain ⟨report, w', hbatch, hrun⟩ := Act.runIn_bind_eq_some hrun
      cases hrun
      exact .inr ⟨report, hexists, hbatch⟩
  · rw [Act.runIn_bind_none (runIn_takeFrame_none enter hexists)] at hrun
    cases hrun

/-- A frame is the host program's turn, and then what was requested is carried out. -/
theorem App.runIn_frame {app : App} {hook : Option (FrameHook σ)} {time : FrameTime}
    {total total' : BatchReport} {enter : Enter σ} {v w : World σ} {answer : FrameAnswer}
    (hrun : (((app.frameApp hook).frame time).run total).runIn enter v =
      (some (answer, total'), w)) :
    ∃ exit u, (app.turn hook time).runIn enter v = (some exit, u) ∧
      (app.flush.run total).runIn enter u = (some ((), total'), w) := by
  have hframe : ((app.frameApp hook).frame time).run total = (do
      let exit ← app.turn hook time
      let flushed ← app.flush.run total
      return (⟨exit, false⟩, flushed.2)) := by
    show (StateT.lift (app.turn hook time) >>= fun exit =>
      app.flush >>= fun _ => (pure ⟨exit, false⟩ : Counting σ FrameAnswer)).run total = _
    rw [StateT.run_bind, StateT.run_lift, bind_assoc]
    refine bind_congr fun exit => ?_
    rw [pure_bind, StateT.run_bind]
    rfl
  rw [hframe] at hrun
  obtain ⟨exit, u, hturn, hrun⟩ := Act.runIn_bind_eq_some hrun
  obtain ⟨flushed, u', hflush, hrun⟩ := Act.runIn_bind_eq_some hrun
  cases hrun
  exact ⟨exit, u, hturn, hflush⟩

/-- What is carried out at the end of a frame is a flush of the scheduler. -/
theorem App.runIn_flush {app : App} {total total' : BatchReport} {enter : Enter σ} {u w : World σ}
    (hrun : (app.flush.run total).runIn enter u = (some ((), total'), w)) :
    ∃ report, total' = total.add (report.getD .zero) ∧
      (Act.run (Script.flush app.scheduler)).runIn enter u = (some report, w) := by
  rw [App.run_flush, Act.runIn_map] at hrun
  rcases hflush : (Act.run (Script.flush app.scheduler)).runIn enter u with ⟨_ | report, v⟩
  · rw [hflush] at hrun
    cases hrun
  · rw [hflush] at hrun
    cases hrun
    exact ⟨report, rfl, rfl⟩

/-! ### Building an application -/

/-- An application is built: what is done for it, and at last its scheduler is made. -/
theorem Application.runIn_build {application : Application} {enter : Enter σ} {w v : World σ} {app : App}
    (hrun : (Application.build application).run.runIn enter w = (some (.ok app), v)) :
    ∃ u, app.scheduler = ⟨u.schedulers.size⟩ ∧ v = { u with schedulers := u.schedulers.add .idle } ∧
      ∀ R : Effect σ, Admits R enter → R true w u := by
  unfold Application.build at hrun
  split at hrun
  · cases hrun
  · obtain ⟨template, w₁, htemplate, hrun⟩ := Build.runIn_bindE_eq_ok hrun
    obtain ⟨view, w₂, hview, hrun⟩ := Build.runIn_bindE_eq_ok hrun
    obtain ⟨root, w₃, hroot, hrun⟩ := Build.runIn_bindE_eq_ok hrun
    obtain ⟨s, w₄, hs, hrun⟩ := Build.runIn_bindE_eq_ok hrun
    have hs := Build.runIn_lift_eq_ok hs
    cases hrun
    cases hs
    obtain rfl : w = w₁ := congrArg Prod.snd htemplate
    refine ⟨w₃, rfl, rfl, fun R h => ?_⟩
    have hcompiled := h.compileView template w
    have hbuilt := h.builds.build view [.object (.record application.data)] application.factory w₂
    have hview : (Act.compileView template).runIn enter w = (some (.ok view), w₂) := hview
    rw [hview] at hcompiled
    rw [hroot] at hbuilt
    exact h.trans hcompiled hbuilt

/-- What is known of all schedulers, wherever a program has got to. -/
structure World.Accounted (w : World σ) : Prop where
  /-- The world agrees with its journal. -/
  recorded : w.Recorded
  /-- Nothing is noted of schedulers that are not there. -/
  founded : w.Founded
  /-- Receivers are in flight only in the middle of turns. -/
  flight : ∀ s r, w.InFlight s r → 0 < openTurns s w.history
  /-- No turn has ended that did not begin. -/
  turns : ∀ s, 0 ≤ openTurns s w.history
  /-- Whoever was told something was told it for a reason. -/
  told : ∀ r state, .resolved r state ∈ w.history → state = .done ∨ state = .canceled ∧
    ∃ s e, .requested s e r ∈ w.history ∧ .closed s ∈ w.history
  /-- Whoever was told had a request that was met. -/
  met : EachAfter TellsMet w.history

theorem Host.accounted {α : Type} (host : Host σ) (depth : Nat) (script : Script σ α) (level : Level)
    (memory : σ) : (host.reached depth script level memory).Accounted := by
  have hempty := World.Recorded.empty level memory
  have hdelivers := host.delivering.run depth (.all script) (.empty level memory) hempty
  have hgrows := host.growing.run depth (.all script) (.empty level memory) hempty
  have hfounded := host.founding.run depth (.all script) (.empty level memory)
    fun event hmem => by simp at hmem
  refine ⟨hdelivers.recorded, hfounded, fun s r hr => ?_, fun s => hdelivers.turns s,
    fun r state hmem => ?_, hgrows.met (.nil _)⟩
  · refine (hdelivers.flight s r hr).resolve_left fun hflight => ?_
    obtain ⟨e, hrequested⟩ := hflight.requested
    simp at hrequested
  · refine (hdelivers.told r state hmem).resolve_left fun htold => ?_
    simp at htold

namespace World.Accounted

variable {w v : World σ}

theorem answered (h : w.Accounted) (hdelivers : Delivering true w v) (hgrows : Growing true w v)
    (hfounded : Founding true w v) : v.Accounted := by
  have hdelivers := hdelivers h.recorded
  have hturns := hdelivers.rest rfl
  refine ⟨hdelivers.recorded, hfounded h.founded, fun s r hr => ?_, fun s => ?_,
    fun r state hmem => ?_, (hgrows h.recorded).met h.met⟩
  · rw [hturns s]
    rcases hdelivers.flight s r hr with hflight | hturn
    · exact h.flight s r hflight
    · rw [hturns s] at hturn
      exact (Int.lt_irrefl _ hturn).elim
  · rw [hturns s]
    exact h.turns s
  · rcases hdelivers.told r state hmem with htold | hnew
    · refine (h.told r state htold).imp_right ?_
      rintro ⟨hcanceled, s, e, hrequested, hclosed⟩
      exact ⟨hcanceled, s, e, hdelivers.kept _ hrequested, hdelivers.kept _ hclosed⟩
    · exact hnew

/-- Nothing has happened to a scheduler that has just been made. -/
theorem between (h : w.Accounted) :
    ({ w with schedulers := w.schedulers.add .idle } : World σ).Between ⟨w.schedulers.size⟩ := by
  obtain ⟨v, hv⟩ : ∃ v : World σ, v = { w with schedulers := w.schedulers.add .idle } := ⟨_, rfl⟩
  have hidle : v.scheduler ⟨w.schedulers.size⟩ = .idle := by
    rw [hv, World.scheduler_newScheduler, World.scheduler, Table.get?, Table.size]
    simp
  have hturns : openTurns ⟨w.schedulers.size⟩ w.history = 0 := by
    have hopens : w.history.countP (·.opens ⟨w.schedulers.size⟩) = 0 :=
      List.countP_eq_zero.mpr fun event hmem hopens => by
        cases event with
        | turn s e =>
          obtain rfl : s = ⟨w.schedulers.size⟩ := by simpa [Event.opens] using hopens
          exact Nat.lt_irrefl _ (h.founded _ hmem _ rfl)
        | _ => simp [Event.opens] at hopens
    have hle := h.turns ⟨w.schedulers.size⟩
    rw [openTurns, hopens] at hle ⊢
    omega
  rw [← hv]
  have hhistory : v.history = w.history := by rw [hv]; rfl
  refine ⟨⟨?_, fun r hr => ?_, hhistory ▸ h.told⟩, ?_, ?_, hhistory ▸ hturns, hhistory ▸ h.met⟩
  · exact hv ▸ h.recorded.newScheduler
  · subst hv
    have hflight := h.flight _ r ⟨hr.requested, hr.taken, hr.pending⟩
    rw [hturns] at hflight
    exact Int.lt_irrefl _ hflight
  · simp [hidle, Scheduler.idle, Scheduler.Attended]
  · rw [hidle]
    rfl

end World.Accounted

/-! ### The contract of a frame -/

section Frames

variable {host : Host σ} {app : App} {hook : Option (FrameHook σ)}

/-- What host programs keep is kept by their turns. -/
theorem App.keeps_turn {R : Effect σ} {p : Request → Prop} (h : Respects R host p) (depth : Nat)
    (hhook : ∀ f ∈ hook, ∀ time, (f app time).Only p) (time : FrameTime) :
    Keeps R (host.enter depth) (app.turn hook time) := by
  cases hook with
  | none => exact (h.admits depth).pure false
  | some f => exact (h.admits depth).run (h.perform (h.admits depth)) (hhook f rfl time)

variable (hhost : ∀ call, (host.answer call).Only fun r => r ≠ .takeFrame app.scheduler)
  (hhook : ∀ f ∈ hook, ∀ time, (f app time).Only fun r => r ≠ .takeFrame app.scheduler)

include hhost hhook

/-- The host program's turn leaves the scheduler of its application as it is between frames. -/
theorem App.between_turn {depth : Nat} {time : FrameTime} {exit : Bool} {v u : World σ}
    (hv : v.Between app.scheduler)
    (hrun : (app.turn hook time).runIn (host.enter depth) v = (some exit, u)) :
    u.Between app.scheduler := by
  have hall : ∀ f ∈ hook, ∀ time, (f app time).Only fun _ => True := fun f _ time => .all _
  have hdelivers : Keeps Delivering (host.enter depth) (app.turn hook time) :=
    App.keeps_turn host.delivering depth hall time
  have hgrows : Keeps Growing (host.enter depth) (app.turn hook time) :=
    App.keeps_turn host.growing depth hall time
  have hattends := App.keeps_turn (Host.attends hhost) depth hhook time
  replace hdelivers := hdelivers v
  replace hgrows := hgrows v
  replace hattends := hattends v
  rw [hrun] at hdelivers hgrows hattends
  exact hv.answered hdelivers hgrows hattends

omit hhook in
/-- So does the flush. -/
theorem App.between_flush {depth : Nat} {report : Option BatchReport} {u w : World σ}
    (hu : u.Between app.scheduler)
    (hrun : (Act.run (Script.flush app.scheduler)).runIn (host.enter depth) u = (some report, w)) :
    w.Between app.scheduler := by
  have hdelivers := host.delivering.run depth (.all (Script.flush app.scheduler)) u
  have hgrows := host.growing.run depth (.all (Script.flush app.scheduler)) u
  have hattends := attending_flush_each ((Host.attends hhost).admits depth) app.scheduler u
  have hrun' : host.run depth (Script.flush app.scheduler) u = (some report, w) := hrun
  rw [hrun'] at hdelivers hgrows
  rw [hrun] at hattends
  exact hu.answered hdelivers hgrows hattends

/-- So does a whole frame, and so do many. -/
theorem App.Driven.between {depth : Nat} {w v : World σ} (h : app.Driven host depth hook w v)
    (hw : w.Between app.scheduler) : v.Between app.scheduler := by
  induction h with
  | start => exact hw
  | frame _ hrun ih =>
    obtain ⟨exit, u, hturn, hflush⟩ := App.runIn_frame hrun
    obtain ⟨report, -, hflush⟩ := App.runIn_flush hflush
    exact App.between_flush hhost (App.between_turn hhost hhook ih hturn) hflush

end Frames

/-- A batch at the end of a frame begins with everything that is pending, and nothing that happens
until it is over empties the scheduler again. -/
theorem history_flush {s : SchedulerId} {host : Host σ} {depth : Nat} {u w : World σ}
    {report : BatchReport} (hu : u.Between s) (hexists : (u.schedulers.get? s.row).isSome)
    (hrun : (Act.runBatch s).runIn (host.enter depth)
      (u.updateScheduler s ({ · with frame := false })) = (some report, w))
    (hflat : Flat s w.history) :
    ∃ left more, w.history = u.history ++ .began s left :: more ∧
      ∀ event ∈ more, event.empties s = false := by
  have hexists : ((u.updateScheduler s ({ · with frame := false })).schedulers.get? s.row).isSome := by
    have hsize := World.size_updateScheduler u s ({ · with frame := false })
    simp only [Table.get?, Table.size] at hsize hexists ⊢
    simpa [hsize] using hexists
  obtain ⟨more, hmore, hwithin⟩ :=
    within_runBatch ((host.nesting s).admits depth) hexists
  rw [hrun, World.history_updateScheduler] at hmore
  exact ⟨_, more, hmore, (hmore ▸ hflat).not_began hwithin hu.turns⟩

/-- The end of a frame keeps its contract, and deals with everything that was pending before. -/
theorem flushes_of_flush {s : SchedulerId} {host : Host σ} {depth : Nat} {u w : World σ}
    {report : Option BatchReport} (hu : u.Between s) (hw : w.Between s) (hflat : Flat s w.history)
    (hrun : (Act.run (Script.flush s)).runIn (host.enter depth) u = (some report, w)) :
    ∃ flushed, Flushes s u w flushed ∧
      ∀ e ∈ (u.scheduler s).pending, ∃ event ∈ flushed, event.settles s e = true := by
  rcases runIn_flush_cases hrun with ⟨hframe, rfl⟩ | ⟨report, hexists, hbatch⟩
  · obtain ⟨hpending, hwaiters⟩ := hu.attended.idle hframe
    have hsame : (u.updateScheduler s ({ · with frame := false })).scheduler s =
        { u.scheduler s with frame := false } :=
      World.scheduler_updateScheduler_self u s (.inr rfl)
    refine ⟨[], flushes_idle hw hflat (World.history_updateScheduler ..) ?_ ?_, by simp [hpending]⟩
    · rw [hsame]
      exact hpending
    · rw [hsame]
      exact hwaiters
  · obtain ⟨left, more, hhistory, hempties⟩ := history_flush hu hexists hbatch hflat
    refine ⟨_, flushes_batch hw hhistory hempties hflat, fun e he => ?_⟩
    obtain ⟨event, hmem, hsettles⟩ := settles_batch hu.landed.recorded hw hhistory hempties he
    exact ⟨event, List.mem_cons_of_mem _ hmem, hsettles⟩

/-- **The contract of a frame.** An application is built wherever a program has got to, and then has
frames, in which the host program may do anything but clear the flag of its scheduler. If in all that
time no batch of the scheduler began inside of another, the end of each frame keeps its contract,
`Flushes`; and everything that is pending when a frame begins is served in it: it has its turn, or is
found dead, or is withdrawn. -/
theorem Host.frame_contract {α : Type} {past host : Host σ} {pastDepth depth : Nat}
    {script : Script σ α} {level : Level} {memory : σ} {application : Application} {app : App}
    {built : World σ}
    (hbuilt : host.carryOut depth (Application.build application).run
      (past.reached pastDepth script level memory) = (some (.ok app), built))
    (hhost : ∀ call, (host.answer call).Only fun r => r ≠ .takeFrame app.scheduler)
    {hook : Option (FrameHook σ)}
    (hhook : ∀ f ∈ hook, ∀ time, (f app time).Only fun r => r ≠ .takeFrame app.scheduler)
    {v w : World σ} (hdriven : app.Driven host depth hook built v) {time : FrameTime}
    {total total' : BatchReport} {answer : FrameAnswer}
    (hframe : host.carryOut depth (((app.frameApp hook).frame time).run total) v =
      (some (answer, total'), w))
    (hflat : Flat app.scheduler w.history) :
    ∃ exit u turn flushed,
      host.carryOut depth (app.turn hook time) v = (some exit, u) ∧
      host.carryOut depth (app.flush.run total) u = (some ((), total'), w) ∧
      u.history = v.history ++ turn ∧ Flushes app.scheduler u w flushed ∧
      ∀ e ∈ (v.scheduler app.scheduler).pending,
        ∃ event ∈ turn ++ flushed, event.settles app.scheduler e = true := by
  have hpast := past.accounted pastDepth script level memory
  obtain ⟨w₀, hs, hnew, hkept⟩ := Application.runIn_build hbuilt
  have hmade := hpast.answered (hkept _ (host.delivering.admits depth))
    (hkept _ (host.growing.admits depth)) (hkept _ (host.founding.admits depth))
  have hv : v.Between app.scheduler :=
    hdriven.between hhost hhook (by rw [hs, hnew]; exact hmade.between)
  obtain ⟨exit, u, hturn, hflush⟩ := App.runIn_frame hframe
  obtain ⟨report, -, hrun⟩ := App.runIn_flush hflush
  have hu : u.Between app.scheduler := App.between_turn hhost hhook hv hturn
  have hw : w.Between app.scheduler := App.between_flush hhost hu hrun
  obtain ⟨flushed, hflushes, hserved⟩ := flushes_of_flush hu hw hflat hrun
  have hclears : Keeps (Clearing app.scheduler) (host.enter depth) (app.turn hook time) :=
    App.keeps_turn (host.clearing app.scheduler) depth (fun f _ time => .all (f app time)) time
  have hexhausts := (hclears v).2 hv.cleared
  rw [show (app.turn hook time).runIn (host.enter depth) v = (some exit, u) from hturn] at hexhausts
  obtain ⟨turn, hhistory⟩ := hexhausts.history
  refine ⟨exit, u, turn, flushed, hturn, hflush, hhistory.symm, hflushes, fun e he => ?_⟩
  have hflat' : Flat app.scheduler u.history := Flat.of_append (hflushes.history ▸ hflat)
  rcases hv.settles hu hexhausts hflat' hhistory.symm he with hpending | ⟨event, hmem, hsettles⟩
  · obtain ⟨event, hmem, hsettles⟩ := hserved e hpending
    exact ⟨event, List.mem_append_right _ hmem, hsettles⟩
  · exact ⟨event, List.mem_append_left _ hmem, hsettles⟩

/-- It can be looked up whether a journal is flat. -/
theorem Flat.of_take {s : SchedulerId} {events : List Event}
    (h : ∀ i : Fin events.length, events[i].begins s = true → openTurns s (events.take i) = 0)
    (hclosed : .closed s ∉ events) : Flat s events where
  outside pre left post heq := by
    subst heq
    have hi := h ⟨pre.length, by simp⟩ (by simp [Event.begins])
    simpa using hi
  open_ := hclosed

/-- A host program whose updaters request their elements again. -/
def insistent : Host Unit where
  answer
    | .refresh _ e => do
      let _ ← Script.requestUpdate ⟨0⟩ e
      return .ok ()
    | _ => .hang

/-- An application that shows one element. -/
def shownElement : Application := ⟨none, some "\x7b\"p\": \x7b\x7d\x7d", ⟨0⟩, .headless⟩

/-- It is built with the first scheduler. -/
def elementShown : App := ⟨none, ⟨0⟩, ⟨0⟩, ⟨0⟩⟩

/-- In its turn the host program gives the root an updater, requests it, runs a batch and requests it
once more. -/
def hastyTurn : FrameHook Unit := fun app _ => do
  Script.setUpdater app.root 0
  let _ ← Script.requestUpdate app.scheduler app.root
  let _ ← Script.runBatch app.scheduler
  let _ ← Script.requestUpdate app.scheduler app.root
  return false

/-- The application is built. -/
def buildingElement : Option (Except ViewError App) × World Unit :=
  insistent.carryOut 10 (Application.build shownElement).run
    (insistent.reached 10 (Script.newRecord []) .off ())

/-- A frame of the application. -/
def hastyFrame (index : Nat) (total : BatchReport) (w : World Unit) :
    Option (FrameAnswer × BatchReport) × World Unit :=
  insistent.carryOut 10 (((elementShown.frameApp (some hastyTurn)).frame ⟨0, index⟩).run total) w

/-- The world after the first frame. -/
def firstFrame : World Unit := (hastyFrame 0 .zero buildingElement.2).2

/-- The world after the second frame. -/
def secondFrame : World Unit := (hastyFrame 1 ⟨1, 0⟩ firstFrame).2

theorem buildingElement_eq : buildingElement = (some (.ok elementShown), buildingElement.2) := by
  have hparts : (buildingElement.1.bind Except.toOption).map
      (fun app => (app.title, app.data, app.root, app.scheduler)) = some (none, ⟨0⟩, ⟨0⟩, ⟨0⟩) := by
    decide +kernel
  rcases hbuilt : buildingElement with ⟨_ | error | ⟨title, data, root, scheduler⟩, w⟩
  all_goals
    rw [hbuilt] at hparts
    cases hparts
  rfl

theorem insistent_only (call : HostCall) :
    (insistent.answer call).Only fun r => r ≠ .takeFrame elementShown.scheduler := by
  cases call with
  | refresh => exact .ask Request.noConfusion fun _ => .done _
  | _ => exact .hang

theorem hastyTurn_only (time : FrameTime) :
    (hastyTurn elementShown time).Only fun r => r ≠ .takeFrame elementShown.scheduler :=
  .ask Request.noConfusion fun _ => .ask Request.noConfusion fun _ =>
    .ask Request.noConfusion fun _ => .ask Request.noConfusion fun _ => .done _

/-- What the updater requests at the end of the first frame is served by the batch that the host
program runs in the second, and what it requests in this batch by the one at the end of the frame. -/
theorem Host.frame_contract_hasty :
    (firstFrame.scheduler ⟨0⟩).pending = [⟨0⟩] ∧ (secondFrame.scheduler ⟨0⟩).pending = [⟨0⟩] ∧
    ∃ exit u turn flushed,
      insistent.carryOut 10 (elementShown.turn (some hastyTurn) ⟨0, 1⟩) firstFrame =
        (some exit, u) ∧
      insistent.carryOut 10 (elementShown.flush.run ⟨1, 0⟩) u = (some ((), ⟨2, 0⟩), secondFrame) ∧
      u.history = firstFrame.history ++ turn ∧ Flushes ⟨0⟩ u secondFrame flushed ∧
      ∀ e ∈ (firstFrame.scheduler ⟨0⟩).pending,
        ∃ event ∈ turn ++ flushed, event.settles ⟨0⟩ e = true := by
  have hpair {β : Type} {answer : Option β} (out : Option β × World Unit) (h : out.1 = answer) :
      out = (answer, out.2) := by
    rw [← h]
  have hfirst : hastyFrame 0 .zero buildingElement.2 =
      (some (⟨false, false⟩, ⟨1, 0⟩), firstFrame) := hpair _ (by decide +kernel)
  have hsecond : hastyFrame 1 ⟨1, 0⟩ firstFrame =
      (some (⟨false, false⟩, ⟨2, 0⟩), secondFrame) := hpair _ (by decide +kernel)
  have hhook : ∀ f ∈ some hastyTurn, ∀ time,
      (f elementShown time).Only fun r => r ≠ .takeFrame elementShown.scheduler := by
    rintro f ⟨⟩ time
    exact hastyTurn_only time
  have hdriven : elementShown.Driven insistent 10 (some hastyTurn) buildingElement.2 firstFrame :=
    .frame .start hfirst
  have hflat : Flat ⟨0⟩ secondFrame.history := .of_take (by decide +kernel) (by decide +kernel)
  exact ⟨by decide +kernel, by decide +kernel,
    Host.frame_contract buildingElement_eq insistent_only hhook hdriven hsecond hflat⟩

end ReactiveViews
