import ReactiveViews.Proofs.Live.Overrun

/-!
# Withdrawn requests

A withdrawal takes an element out of what waits for the next batch and out of the batch in progress.
Only a request brings it back: nothing gets into a batch that did not wait for it, and nothing waits
that was not requested. This holds however batches are nested, and wherever in them the request is
withdrawn.

## What is proved

Only elements of the batch in progress have their turn (`Host.orderly`). **Withdrawals last**
(`Host.withdrawal_lasts`): in every run of every host program, a scheduler does not begin the update
of an element whose requests have been withdrawn, until it is requested again.
-/

namespace ReactiveViews

variable {σ α : Type}

/-! ### Elements that a scheduler does not list -/

/-- The element neither waits for the next batch nor has its turn to come in the batch in
progress. -/
def Scheduler.Omits (x : Scheduler) (e : ElementId) : Prop := e ∉ x.pending ∧ e ∉ x.running

theorem Scheduler.omits_withdrawn (s : SchedulerId) (x : Scheduler) (e : ElementId) :
    (x.after s (.withdrawn s e)).Omits e := by
  simp [Omits, after]

/-- Only a request puts an element onto a list of a scheduler. -/
theorem Scheduler.Omits.after {s : SchedulerId} {x : Scheduler} {e : ElementId} (h : x.Omits e)
    {event : Event} (hrequested : ∀ r, event ≠ .requested s e r) : (x.after s event).Omits e := by
  obtain ⟨hpending, hrunning⟩ := h
  cases event with
  | requested s' e' r =>
    by_cases hs : s' = s
    · subst hs
      have he : e' ≠ e := fun he => hrequested r (by rw [he])
      have henlist : e ∉ Act.enlist x.pending e' := by
        unfold Act.enlist
        split
        · exact hpending
        · simp [hpending, Ne.symm he]
      simpa [Omits, Scheduler.after, hrunning] using henlist
    · simpa [Omits, Scheduler.after, hs] using ⟨hpending, hrunning⟩
  | withdrawn s' e' =>
    simp only [Scheduler.after]
    split
    · exact ⟨fun hmem => hpending (List.mem_filter.mp hmem).1,
        fun hmem => hrunning (List.mem_filter.mp hmem).1⟩
    · exact ⟨hpending, hrunning⟩
  | began s' left =>
    simp only [Scheduler.after]
    split
    · exact ⟨List.not_mem_nil, hpending⟩
    · exact ⟨hpending, hrunning⟩
  | turn s' e' | skipped s' e' =>
    simp only [Scheduler.after]
    split
    · exact ⟨hpending, fun hmem => hrunning (List.mem_of_mem_erase hmem)⟩
    · exact ⟨hpending, hrunning⟩
  | closed s' =>
    simp only [Scheduler.after]
    split
    · exact ⟨List.not_mem_nil, hrunning⟩
    · exact ⟨hpending, hrunning⟩
  | _ => exact ⟨hpending, hrunning⟩

/-- An element that has been withdrawn is not listed until it is requested again. -/
theorem omits_replay {s : SchedulerId} {e : ElementId} (pre : List Event) {post : List Event}
    (hrequested : ∀ r, .requested s e r ∉ post) :
    (replay s (pre ++ .withdrawn s e :: post)).Omits e := by
  induction post using List.reverseRecOn with
  | nil =>
    rw [replay_snoc]
    exact Scheduler.omits_withdrawn s _ e
  | append_singleton post event ih =>
    rw [← List.cons_append, ← List.append_assoc, replay_snoc]
    refine (ih fun r hmem => hrequested r (by simp [hmem])).after fun r heq => ?_
    exact hrequested r (by simp [heq])

/-! ### Turns -/

/-- An element that has its turn is listed in the batch in progress. -/
def TurnsListed (events : List Event) (event : Event) : Prop :=
  ∀ s e, event = .turn s e → e ∈ (replay s events).running

/-- The world agrees with its journal, and each turn was one of the batch in progress. -/
structure World.Orderly (w : World σ) : Prop where
  /-- The world agrees with its journal. -/
  recorded : w.Recorded
  /-- Nothing had its turn that was not listed. -/
  listed : EachAfter TurnsListed w.history

/-- The effect of everything that can happen. -/
def Ordering : Effect σ := fun _ w w' => w.Orderly → w'.Orderly

/-- Something happens that is no turn. -/
theorem World.Orderly.step {w w' : World σ} (h : w.Orderly) (more : List Event) (hw' : w'.Recorded)
    (hhistory : w'.history = w.history ++ more)
    (hmore : ∀ event ∈ more, ∀ s e, event ≠ .turn s e) : w'.Orderly where
  recorded := hw'
  listed := by
    rw [hhistory]
    exact h.listed.append fun pre event hmem s e heq => (hmore event hmem s e heq).elim

theorem Change.ordering {b : Bool} {w w' : World σ} (h : Change w w') : Ordering b w w' := by
  intro hw
  rcases h.journal_eq with hjournal | ⟨event, hquiet, hjournal⟩
  · exact hw.step [] (h.recorded hw.recorded) (by simp [World.history, hjournal]) (by simp)
  · refine hw.step [event] (h.recorded hw.recorded) (by simp [World.history, hjournal]) ?_
    rintro event' hmem s e rfl
    obtain rfl := List.mem_singleton.mp hmem
    cases hquiet

theorem Operation.ordering {b : Bool} {w w' : World σ} (h : Operation w w') :
    Ordering b w w' := by
  intro hw
  obtain ⟨more, hhistory, hmore⟩ := h.history_eq
  refine hw.step more (h.recorded hw.recorded) hhistory fun event hmem s e heq => ?_
  rcases hmore event hmem with ⟨s', e', r, rfl⟩ | ⟨s', e', rfl⟩ <;> cases heq

/-- The first element that is listed is taken out of the batch, and has its turn if it is alive. -/
theorem ordering_turn {w : World σ} {s : SchedulerId} {e : ElementId} {rest : List ElementId}
    {event : Event} (hrunning : (w.scheduler s).running = e :: rest)
    (hevent : event = .turn s e ∨ event = .skipped s e) :
    Ordering true w ((w.popped s).record event) := by
  intro hw
  rcases hevent with rfl | rfl
  · refine ⟨hw.recorded.turn hrunning, ?_⟩
    rw [World.history_record, World.history_popped]
    refine hw.listed.snoc fun s' e' heq => ?_
    obtain ⟨rfl, rfl⟩ := Event.turn.inj heq
    rw [← hw.recorded.running_eq, hrunning]
    exact List.mem_cons_self
  · exact hw.step [.skipped s e] (hw.recorded.skipped hrunning) (by simp) (by simp)

theorem ordering_served (w : World σ) (s : SchedulerId) (e : ElementId) (success : Bool) :
    Ordering true w (w.record (.served s e success)) := fun hw =>
  hw.step [.served s e success] (hw.recorded.record (fun _ _ => rfl) (by simp) rfl) (by simp)
    (by simp)

theorem ordering_tells (state : ReceiverState) (rs : List ReceiverId) (w : World σ) :
    Ordering true w (w.afterTells state rs) := by
  induction rs generalizing w with
  | nil => exact Change.ordering (.store w w.store)
  | cons r rest ih =>
    unfold World.afterTells
    split
    · exact fun hw => ih _ <|
        hw.step [_] (hw.recorded.afterTell r state) (World.history_afterTell ..) (by simp)
    · exact ih w

theorem ordering_runBatch {enter : Enter σ} (h : Admits Ordering enter) (s : SchedulerId) :
    Keeps Ordering enter (Act.runBatch s) := by
  intro w
  by_cases hexists : (w.schedulers.get? s.row).isSome
  · rw [Act.runIn_runBatch_some enter w s hexists]
    have hbegin : Ordering true w (w.afterBegin s) := fun hw =>
      hw.step [_] (hw.recorded.afterBegin s) (World.history_afterBegin w s) (by simp)
    have hturns := h.turns ordering_turn (fun w e success => ordering_served w s e success)
      (w.scheduler s).pending.length .zero
    refine h.trans hbegin (h.bind hturns (fun report v => ?_) _)
    rw [Act.runIn_bind_some (Act.runIn_tells enter .done _ v)]
    exact h.trans (ordering_tells .done _ v)
      (h.bind (h.message .debug (h.pure _)) (fun _ => h.pure report) _)
  · rw [Act.runIn_runBatch_none enter w s hexists]
    exact h.refl w

theorem ordering_close {enter : Enter σ} (s : SchedulerId) :
    Keeps Ordering enter (Act.close s) := by
  intro w hw
  by_cases hexists : (w.schedulers.get? s.row).isSome
  · rw [Act.runIn_close_some enter w s hexists]
    exact ordering_tells .canceled _ _ <|
      hw.step [_] (hw.recorded.afterClose s) (World.history_afterClose w s) (by simp)
  · rw [Act.runIn_close_none enter w s hexists]
    exact hw

/-- Whatever a host program does, only elements of a batch in progress have their turn. -/
theorem Host.orderly (host : Host σ) : Respects Ordering host fun _ => True where
  only call := .all _
  quiet := Change.ordering
  trans huv hvw hu := hvw (huv hu)
  schedules h r _ _ := by
    cases r with
    | runBatch s => exact ordering_runBatch h s
    | pump s n => exact h.pump Operation.ordering (ordering_runBatch h s) n
    | close s => exact ordering_close s
    | _ =>
      exact h.operation Operation.ordering _ (fun _ => Request.noConfusion)
        (fun _ _ => Request.noConfusion) fun _ => Request.noConfusion

/-! ### Runs -/

/-- **Withdrawals last.** In every run of every host program, also one that never ends, the scheduler
does not begin the update of an element after its requests have been withdrawn, until it is
requested again; and so long the element is neither among those that wait for the next batch nor
among those whose turn is to come. -/
theorem Host.withdrawal_lasts (host : Host σ) (depth : Nat) (script : Script σ α) (level : Level)
    (memory : σ) {s : SchedulerId} {e : ElementId} {pre post : List Event}
    (hhistory : (host.reached depth script level memory).history =
      pre ++ .withdrawn s e :: post)
    (hrequested : ∀ r, .requested s e r ∉ post) :
    .turn s e ∉ post ∧ ((host.reached depth script level memory).scheduler s).Omits e := by
  have horderly : (host.reached depth script level memory).Orderly :=
    host.orderly.run depth (.all script) (.empty level memory) ⟨.empty level memory, .nil _⟩
  constructor
  · intro hturn
    obtain ⟨mid, last, rfl⟩ := List.append_of_mem hturn
    have hlisted := horderly.listed (pre ++ .withdrawn s e :: mid) (.turn s e) last
      (by rw [hhistory]; simp) s e rfl
    exact (omits_replay pre fun r hmem => hrequested r (by simp [hmem])).2 hlisted
  · have homits := omits_replay pre hrequested
    rw [← hhistory, ← horderly.recorded.scheduler] at homits
    exact homits

/-- A host program whose first updater requests the third element and once more the second, and runs
a batch for them; in its turn the third element requests the second again and withdraws it. -/
def repentant : Host Unit where
  answer
    | .refresh 0 _ => do
      let _ ← Script.requestUpdate ⟨0⟩ ⟨2⟩
      let _ ← Script.requestUpdate ⟨0⟩ ⟨1⟩
      let _ ← Script.runBatch ⟨0⟩
      return .ok ()
    | .refresh 2 _ => do
      let _ ← Script.requestUpdate ⟨0⟩ ⟨1⟩
      Script.cancel ⟨0⟩ ⟨1⟩
      return .ok ()
    | .refresh _ _ => .done (.ok ())
    | _ => .hang

/-- Three elements with these updaters, the first two of them requested, and batches as long as there
are frames for them. -/
def threeElements : Script Unit Nat := do
  let s ← Script.newScheduler
  let a ← Script.newElement ⟨"a", none, [], none⟩ (.headless (.new "a")) []
  let b ← Script.newElement ⟨"b", none, [], none⟩ (.headless (.new "b")) []
  let c ← Script.newElement ⟨"c", none, [], none⟩ (.headless (.new "c")) []
  Script.setUpdater a 0
  Script.setUpdater b 1
  Script.setUpdater c 2
  let _ ← Script.requestUpdate s a
  let _ ← Script.requestUpdate s b
  Script.pump s 5

/-- What happens until the second element is withdrawn: it waits for the next batch, and is listed in
the batch in progress, which has taken the place of one that was to come to it as well. -/
def untilWithdrawn : List Event :=
  [.installed ⟨0⟩ (some 0), .installed ⟨1⟩ (some 1), .installed ⟨2⟩ (some 2),
    .requested ⟨0⟩ ⟨0⟩ ⟨0⟩, .requested ⟨0⟩ ⟨1⟩ ⟨1⟩, .began ⟨0⟩ [], .turn ⟨0⟩ ⟨0⟩,
    .updating ⟨0⟩ (some 0), .requested ⟨0⟩ ⟨2⟩ ⟨2⟩, .requested ⟨0⟩ ⟨1⟩ ⟨3⟩, .began ⟨0⟩ [⟨1⟩],
    .turn ⟨0⟩ ⟨2⟩, .updating ⟨2⟩ (some 2), .requested ⟨0⟩ ⟨1⟩ ⟨4⟩]

/-- What happens afterwards, with another batch at the end. -/
def onceWithdrawn : List Event :=
  [.updated ⟨2⟩ (some 2) true, .served ⟨0⟩ ⟨2⟩ true, .resolved ⟨2⟩ .done, .resolved ⟨3⟩ .done,
    .updated ⟨0⟩ (some 0) true, .served ⟨0⟩ ⟨0⟩ true, .resolved ⟨0⟩ .done, .resolved ⟨1⟩ .done,
    .began ⟨0⟩ [], .resolved ⟨4⟩ .done]

/-- The second element is not updated, although it was requested three times. -/
theorem Host.withdrawal_lasts_repentant :
    (repentant.reached 10 threeElements .off ()).history =
      untilWithdrawn ++ .withdrawn ⟨0⟩ ⟨1⟩ :: onceWithdrawn ∧
    .turn ⟨0⟩ ⟨1⟩ ∉ onceWithdrawn ∧
    ((repentant.reached 10 threeElements .off ()).scheduler ⟨0⟩).Omits ⟨1⟩ := by
  have hhistory : (repentant.reached 10 threeElements .off ()).history =
      untilWithdrawn ++ .withdrawn ⟨0⟩ ⟨1⟩ :: onceWithdrawn := by decide +kernel
  have hrequested : ∀ r, .requested ⟨0⟩ ⟨1⟩ r ∉ onceWithdrawn := by simp [onceWithdrawn]
  exact ⟨hhistory, Host.withdrawal_lasts repentant 10 threeElements .off () hhistory hrequested⟩

end ReactiveViews
