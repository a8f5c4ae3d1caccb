import ReactiveViews.Proofs.Live.Operations
import ReactiveViews.Live.Requests

/-!
# What becomes of a request

A receiver that is told that its batch is over was handed out for an element. Between the request
and the news the element has had its turn, or was found dead, or its requests were withdrawn, or
another batch that began in the middle of the one that had taken the request over has cost it its
place. The last of these is a defect of batches inside batches: nobody comes back for the elements
that a batch finds left when it begins.

## What is proved

**Answered requests** (`Host.told_settles`). In every run of every host program, with batches
nested in any way, a request whose receiver is told that its batch is over has been dealt with
before, or has lost its place to another batch; and every element that a batch finds left when it
begins had been taken over by a batch before that has not dealt with it since. So a request gets
lost exactly when a batch begins while one of the same scheduler still has elements to go.
-/

namespace ReactiveViews

variable {σ α : Type}

/-! ### The journal of told receivers -/

/-- A request has been made, and its element has been dealt with since or has lost its place. -/
def Met (events : List Event) (r : ReceiverId) : Prop :=
  ∃ pre s e post, events = pre ++ .requested s e r :: post ∧
    ∃ event ∈ post, event.settles s e = true ∨ event.overruns s e = true

/-- A request has been made, and since then a batch has taken over what was waiting, or the
scheduler has been given up. -/
def Taken (events : List Event) (r : ReceiverId) : Prop :=
  ∃ pre s e post, events = pre ++ .requested s e r :: post ∧ post.any (·.empties s) = true

/-- Whoever is told something had a request that did not wait any more, and whoever is told that
the batch is over one that was met. -/
def TellsMet (events : List Event) (event : Event) : Prop :=
  ∀ r state, event = .resolved r state → Taken events r ∧ (state = .done → Met events r)

theorem Taken.append {events : List Event} {r : ReceiverId} (h : Taken events r)
    (more : List Event) : Taken (events ++ more) r := by
  obtain ⟨pre, s, e, post, rfl, hempties⟩ := h
  exact ⟨pre, s, e, post ++ more, by simp, by simp only [List.any_append, hempties, Bool.true_or]⟩

/-- Receivers that waited do not any more after an event that empties the scheduler. -/
theorem taken_of_empties {s : SchedulerId} {r : ReceiverId} {events more : List Event}
    {event : Event} (hr : r ∈ openReceivers s events) (hempties : event.empties s = true) :
    Taken (events ++ event :: more) r := by
  obtain ⟨e, pre, post, rfl, -⟩ := mem_openReceivers hr
  exact ⟨pre, s, e, post ++ event :: more, by simp, by simp [hempties]⟩

theorem Met.append {events : List Event} {r : ReceiverId} (h : Met events r)
    (more : List Event) : Met (events ++ more) r := by
  obtain ⟨pre, s, e, post, rfl, event, hmem, hevent⟩ := h
  exact ⟨pre, s, e, post ++ more, by simp, event, by simp [hmem], hevent⟩

/-- A receiver that waits belongs to an element that waits as well or has been withdrawn. -/
theorem waiting_or_settled {s : SchedulerId} {r : ReceiverId} {events : List Event}
    (hr : r ∈ openReceivers s events) :
    ∃ pre e post, events = pre ++ .requested s e r :: post ∧
      (e ∈ openRequests s events ∨ ∃ event ∈ post, event.settles s e = true) := by
  obtain ⟨e, pre, post, hsplit, hpost⟩ := mem_openReceivers hr
  refine ⟨pre, e, post, hsplit, ?_⟩
  by_cases hany : post.any (·.clears s e) = true
  · obtain ⟨event, hmem, hclears⟩ := List.any_eq_true.mp hany
    refine .inr ⟨event, hmem, ?_⟩
    have hempties : event.empties s = false := by
      by_contra h
      exact hpost (List.any_eq_true.mpr ⟨event, hmem, by simpa using h⟩)
    cases event <;> simp_all [Event.clears, Event.empties, Event.settles]
  · exact .inl (mem_openRequests.mpr ⟨pre, r, post, hsplit, hany⟩)

/-- Once a batch has no more to go, all requests that it has taken over are met. -/
theorem met_of_running_nil {s : SchedulerId} {r : ReceiverId} {events more : List Event}
    {left : List ElementId} (hr : r ∈ openReceivers s events)
    (htells : EachAfter TellsLeft (events ++ .began s left :: more))
    (hnil : (replay s (events ++ .began s left :: more)).running = []) :
    Met (events ++ .began s left :: more) r := by
  obtain ⟨pre, e, post, rfl, hopen | ⟨event, hmem, hsettles⟩⟩ := waiting_or_settled hr
  · have hrunning :
        e ∈ (replay s (pre ++ .requested s e r :: post ++ [.began s left])).running := by
      rw [replay_snoc, ← replay_pending] at *
      simpa [Scheduler.after] using hopen
    have hsplit (events : List Event) :
        events ++ .began s left :: more = events ++ [.began s left] ++ more := by simp
    rw [hsplit] at htells hnil
    rcases mem_running_replay htells hrunning with hleft | ⟨event, hmem, hevent⟩
    · rw [hnil] at hleft
      cases hleft
    · exact ⟨pre, s, e, post ++ .began s left :: more, by simp, event, by simp [hmem], hevent⟩
  · exact ⟨pre, s, e, post ++ .began s left :: more, by simp, event, by simp [hmem], .inl hsettles⟩

/-! ### The effect of batches -/

/-- Events that neither begin a batch nor tell anyone anything. -/
def Event.isCalm : Event → Bool
  | .began .. | .resolved .. => false
  | _ => true

/-- The journal only grows and accounts for everyone who is told, and no batch has more to go
after an act that answers. -/
structure Grows (answered : Bool) (w w' : World σ) : Prop where
  /-- The world agrees with its journal. -/
  recorded : w'.Recorded
  /-- Nothing is taken out of the journal. -/
  history : ∃ more, w'.history = w.history ++ more
  /-- Whoever was told had a request that was met. -/
  met : EachAfter TellsMet w.history → EachAfter TellsMet w'.history
  /-- No batch in progress has more to go. -/
  running : answered = true →
    ∀ s, (w'.scheduler s).running.length ≤ (w.scheduler s).running.length

/-- The effect of everything that can happen, batches included. -/
def Growing : Effect σ := fun answered w w' => w.Recorded → Grows answered w w'

theorem Grows.trans {answered : Bool} {u v w : World σ} (h : Grows true u v)
    (h' : Grows answered v w) : Grows answered u w where
  recorded := h'.recorded
  history := by
    obtain ⟨more, hmore⟩ := h.history
    obtain ⟨more', hmore'⟩ := h'.history
    exact ⟨more ++ more', by rw [hmore', hmore, List.append_assoc]⟩
  met hu := h'.met (h.met hu)
  running hanswered s := Nat.le_trans (h'.running hanswered s) (h.running rfl s)

/-- A batch that has begun and has nothing to go any more, or never answers. -/
theorem Grows.of_begun {answered : Bool} {w v : World σ} {s : SchedulerId}
    (h : Grows answered (w.afterBegin s) v)
    (hnil : answered = true → (v.scheduler s).running = []) : Grows answered w v where
  recorded := h.recorded
  history := by
    obtain ⟨more, hmore⟩ := h.history
    exact ⟨_, by rw [hmore, World.history_afterBegin, List.append_assoc]⟩
  met hmet := h.met (by
    rw [World.history_afterBegin]
    exact hmet.snoc fun r state heq => by cases heq)
  running hanswered s' := by
    by_cases hs : s' = s
    · rw [hs, hnil hanswered]
      exact Nat.zero_le _
    · rw [← World.scheduler_afterBegin_of_ne w hs]
      exact h.running hanswered s'

/-- A step that adds only calm events. -/
theorem Grows.calm {answered : Bool} {w w' : World σ} (more : List Event) (hw : w.Recorded)
    (hw' : w'.Recorded) (hhistory : w'.history = w.history ++ more)
    (hmore : ∀ event ∈ more, event.isCalm = true) : Grows answered w w' where
  recorded := hw'
  history := ⟨more, hhistory⟩
  met h := by
    rw [hhistory]
    refine h.append fun pre event hmem r state heq => ?_
    have hcalm := hmore event hmem
    rw [heq] at hcalm
    cases hcalm
  running _ s := by
    rw [hw'.running_eq, hw.running_eq, hhistory]
    refine (running_replay_sublist _ fun event hmem => ?_).length_le
    have hcalm := hmore event hmem
    cases event <;> first | rfl | cases hcalm

theorem Growing.trans {answered : Bool} {u v w : World σ} (h : Growing true u v)
    (h' : Growing answered v w) : Growing answered u w :=
  fun hu => (h hu).trans (h' (h hu).recorded)

theorem Change.growing {answered : Bool} {w w' : World σ} (h : Change w w') :
    Growing answered w w' := by
  intro hw
  rcases h.journal_eq with hjournal | ⟨event, hquiet, hjournal⟩
  · exact .calm [] hw (h.recorded hw) (by simp [World.history, hjournal]) (by simp)
  · refine .calm [event] hw (h.recorded hw) (by simp [World.history, hjournal]) ?_
    rintro event' hmem
    obtain rfl := List.mem_singleton.mp hmem
    cases event' <;> first | rfl | cases hquiet

theorem Operation.growing {answered : Bool} {w w' : World σ} (h : Operation w w') :
    Growing answered w w' := by
  intro hw
  obtain ⟨more, hhistory, hmore⟩ := h.history_eq
  refine .calm more hw (h.recorded hw) hhistory fun event hmem => ?_
  rcases hmore event hmem with ⟨s, e, r, rfl⟩ | ⟨s, e, rfl⟩ <;> rfl

theorem growing_turn {w : World σ} {s : SchedulerId} {e : ElementId} {rest : List ElementId}
    {event : Event} (hrunning : (w.scheduler s).running = e :: rest)
    (hevent : event = .turn s e ∨ event = .skipped s e) :
    Growing true w ((w.popped s).record event) := by
  intro hw
  rcases hevent with rfl | rfl
  · exact .calm [.turn s e] hw (hw.turn hrunning) (by simp) (by simp [Event.isCalm])
  · exact .calm [.skipped s e] hw (hw.skipped hrunning) (by simp) (by simp [Event.isCalm])

theorem growing_served (w : World σ) (s : SchedulerId) (e : ElementId) (success : Bool) :
    Growing true w (w.record (.served s e success)) := fun hw =>
  .calm [.served s e success] hw (hw.record (fun _ _ => rfl) (by simp) rfl) (by simp)
    (by simp [Event.isCalm])

theorem growing_afterClose (w : World σ) (s : SchedulerId) : Growing true w (w.afterClose s) :=
  fun hw => .calm [.closed s] hw (hw.afterClose s) (by simp) (by simp [Event.isCalm])

/-- Receivers whose requests do not wait any more and are met can be told. -/
theorem growing_tells {state : ReceiverState} {rs : List ReceiverId} {w : World σ}
    (hmet : ∀ r ∈ rs, Taken w.history r ∧ (state = .done → Met w.history r)) :
    Growing true w (w.afterTells state rs) := by
  induction rs generalizing w with
  | nil => exact Change.growing (.store w w.store)
  | cons r rest ih =>
    unfold World.afterTells
    split
    · refine Growing.trans (fun hw => ?_) (ih fun r' hr' => ?_)
      · have hrecorded := hw.afterTell r state
        refine ⟨hrecorded, ⟨_, World.history_afterTell ..⟩, fun h => ?_, fun _ s => Nat.le_refl _⟩
        rw [World.history_afterTell]
        exact h.snoc fun r' state' heq => by cases heq; exact hmet r (by simp)
      · rw [World.history_afterTell]
        obtain ⟨htaken, hdone⟩ := hmet r' (by simp [hr'])
        exact ⟨htaken.append _, fun hstate => (hdone hstate).append _⟩
    · exact ih fun r' hr' => hmet r' (by simp [hr'])

/-! ### Batches -/

section Batches

variable {enter : Enter σ} (h : Admits Growing enter)

include h

theorem growing_turns (s : SchedulerId) (n : Nat) (report : BatchReport) :
    Keeps Growing enter (Act.turns s n report) :=
  h.turns growing_turn (fun w e success => growing_served w s e success) n report

/-- After as many turns as a batch had to go at first, it has nothing to go. -/
theorem running_nil_of_turns {s : SchedulerId} {n : Nat} {report report' : BatchReport}
    {w w' : World σ} (hw : w.Recorded) (hn : (w.scheduler s).running.length ≤ n)
    (hrun : (Act.turns s n report).runIn enter w = (some report', w')) :
    (w'.scheduler s).running = [] := by
  induction n generalizing report w with
  | zero =>
    cases hrun
    exact List.eq_nil_of_length_eq_zero (Nat.le_zero.mp hn)
  | succ n ih =>
    rcases Act.turns_cases hn hrun with ⟨hrunning, rfl, -⟩ |
      ⟨e, rest, m, turned, u, hrunning, heq, hturned, hrun⟩
    · exact hrunning
    · obtain rfl := Nat.succ.inj heq
      obtain ⟨event, hevent, hturn⟩ :=
        h.turnIfAlive (fun w e success => growing_served w s e success) e (w.popped s)
      rw [hturned] at hturn
      have hgrows := hturn (growing_turn hrunning hevent hw).recorded
      have hlength := hgrows.running rfl s
      rw [World.scheduler_record, World.running_popped, hrunning, List.tail_cons] at hlength
      rw [hrunning, List.length_cons] at hn
      exact ih hgrows.recorded (Nat.le_trans hlength (Nat.le_of_succ_le_succ hn)) hrun

/-- A batch as a whole only grows the journal, although its beginning puts other elements into the
batch in progress: in the end none is left. -/
theorem growing_runBatch (s : SchedulerId) : Keeps Growing enter (Act.runBatch s) := by
  intro w hw
  by_cases hexists : (w.schedulers.get? s.row).isSome
  · have hbegin := hw.afterBegin s
    have hturns := growing_turns h s (w.scheduler s).pending.length .zero (w.afterBegin s) hbegin
    rw [Act.runIn_runBatch_some enter w s hexists, Act.runIn_bind]
    rcases hrun : (Act.turns s (w.scheduler s).pending.length .zero).runIn enter (w.afterBegin s)
      with ⟨_ | report, v⟩
    · rw [hrun] at hturns
      exact hturns.of_begun fun hanswered => by cases hanswered
    · rw [hrun] at hturns
      have hnil : (v.scheduler s).running = [] :=
        running_nil_of_turns h hbegin (World.running_afterBegin w s ▸ Nat.le_refl _) hrun
      obtain ⟨more, hmore⟩ := hturns.history
      rw [World.history_afterBegin, List.append_assoc, List.singleton_append] at hmore
      have hmet : ∀ r ∈ (w.scheduler s).waiters,
          Taken v.history r ∧ (ReceiverState.done = .done → Met v.history r) := by
        intro r hr
        have htells := hturns.recorded.consistent
        have hrunning := hturns.recorded.running_eq s
        rw [hmore] at htells hrunning ⊢
        rw [hw.waiters_eq] at hr
        exact ⟨taken_of_empties hr (by simp [Event.empties]),
          fun _ => met_of_running_nil hr htells (hrunning.symm.trans hnil)⟩
      have hturned : Growing true w v := fun _ => hturns.of_begun fun _ => hnil
      dsimp only
      rw [Act.runIn_bind_some (Act.runIn_tells enter .done _ v)]
      refine Growing.trans hturned (Growing.trans (growing_tells hmet) ?_) hw
      exact h.bind (h.message .debug (h.pure _)) (fun _ => h.pure report) _
  · rw [Act.runIn_runBatch_none enter w s hexists]
    exact Change.growing (.store w w.store) hw

end Batches

theorem growing_close {enter : Enter σ} (s : SchedulerId) : Keeps Growing enter (Act.close s) := by
  intro w hw
  by_cases hexists : (w.schedulers.get? s.row).isSome
  · rw [Act.runIn_close_some enter w s hexists]
    refine Growing.trans (growing_afterClose w s) (growing_tells fun r hr => ?_) hw
    rw [hw.waiters_eq] at hr
    rw [World.history_afterClose]
    exact ⟨taken_of_empties hr (by simp [Event.empties]), fun h => by cases h⟩
  · rw [Act.runIn_close_none enter w s hexists]
    exact Change.growing (.store w w.store) hw

/-- Whatever a host program does, the journal grows and accounts for everyone who is told. -/
theorem Host.growing (host : Host σ) : Respects Growing host fun _ => True where
  only call := .all _
  quiet := Change.growing
  trans := Growing.trans
  schedules h r _ _ := by
    cases r with
    | runBatch s => exact growing_runBatch h s
    | pump s n => exact h.pump Operation.growing (growing_runBatch h s) n
    | close s => exact growing_close s
    | _ =>
      exact h.operation Operation.growing _ (fun _ => Request.noConfusion)
        (fun _ _ => Request.noConfusion) fun _ => Request.noConfusion

/-! ### Runs -/

/-- The world to which a script has got from the beginning. -/
def Host.reached (host : Host σ) (depth : Nat) (script : Script σ α) (level : Level)
    (memory : σ) : World σ :=
  (host.run depth script (.empty level memory)).2

/-- **Answered requests.** In every run of every host program, also one that never ends, a request
whose receiver is told that its batch is over has been settled in between, by the turn of its
element, by finding it dead or by a withdrawal, or has lost its place to another batch. And what a
batch finds left when it begins had been taken over by the batch before, which has not come to
it. -/
theorem Host.told_settles (host : Host σ) (depth : Nat) (script : Script σ α) (level : Level)
    (memory : σ) :
    (∀ pre s e r mid post,
      (host.reached depth script level memory).history =
        pre ++ .requested s e r :: mid ++ .resolved r .done :: post →
      (∃ event ∈ mid, event.settles s e = true) ∨ ∃ event ∈ mid, event.overruns s e = true) ∧
    ∀ pre s left post,
      (host.reached depth script level memory).history = pre ++ .began s left :: post →
      ∀ e ∈ left, ∃ before left' between, pre = before ++ .began s left' :: between ∧
        e ∈ openRequests s before ∧
        ∀ event ∈ between, event.settles s e = false ∧ event.begins s = false := by
  have hgrows := host.growing.run depth (.all script) (.empty level memory)
    (World.Recorded.empty level memory)
  have hmet := hgrows.met (.nil _)
  constructor
  · intro pre s e r mid post hhistory
    obtain ⟨pre', s', e', mid', hsplit, event, hmem, hevent⟩ :=
      (hmet _ _ post hhistory r .done rfl).2 rfl
    have honce := hgrows.recorded.once
    rw [← Host.reached, hhistory, receiversOf_append] at honce
    obtain ⟨rfl, rfl, rfl, rfl⟩ := requested_unique (List.nodup_append.mp honce).1 rfl hsplit
    rcases hevent with hevent | hevent
    · exact .inl ⟨event, hmem, hevent⟩
    · exact .inr ⟨event, hmem, hevent⟩
  · intro pre s left post hhistory e he
    have hleft := hgrows.recorded.consistent _ _ post hhistory s left rfl
    rw [hleft] at he
    exact taken_of_mem_running he

/-- A host program whose first updater runs a batch; its second does nothing. -/
def restless : Host Unit where
  answer
    | .refresh 0 _ => do
      let _ ← Script.runBatch ⟨0⟩
      return .ok ()
    | .refresh _ _ => .done (.ok ())
    | _ => .hang

/-- Two elements with these updaters, requested one after the other, and a batch. -/
def twoRequests : Script Unit BatchReport := do
  let s ← Script.newScheduler
  let a ← Script.newElement ⟨"a", none, [], none⟩ (.headless (.new "a")) []
  let b ← Script.newElement ⟨"b", none, [], none⟩ (.headless (.new "b")) []
  Script.setUpdater a 0
  Script.setUpdater b 1
  let _ ← Script.requestUpdate s a
  let _ ← Script.requestUpdate s b
  Script.runBatch s

/-- What happens between the request of the second element and the news that its batch is over. -/
def secondWait : List Event :=
  [.began ⟨0⟩ [], .turn ⟨0⟩ ⟨0⟩, .updating ⟨0⟩ (some 0), .began ⟨0⟩ [⟨1⟩], .updated ⟨0⟩ (some 0) true,
    .served ⟨0⟩ ⟨0⟩ true, .resolved ⟨0⟩ .done]

/-- The second element never has its turn, though its receiver is told that the batch is over. -/
theorem Host.told_settles_restless :
    (restless.reached 10 twoRequests .off ()).history =
      [.installed ⟨0⟩ (some 0), .installed ⟨1⟩ (some 1), .requested ⟨0⟩ ⟨0⟩ ⟨0⟩] ++
        .requested ⟨0⟩ ⟨1⟩ ⟨1⟩ :: secondWait ++ .resolved ⟨1⟩ .done :: [] ∧
    (∀ event ∈ secondWait, event.settles ⟨0⟩ ⟨1⟩ = false) ∧
    ∃ event ∈ secondWait, event.overruns ⟨0⟩ ⟨1⟩ = true := by
  have hhistory : (restless.reached 10 twoRequests .off ()).history =
      [.installed ⟨0⟩ (some 0), .installed ⟨1⟩ (some 1), .requested ⟨0⟩ ⟨0⟩ ⟨0⟩] ++
        .requested ⟨0⟩ ⟨1⟩ ⟨1⟩ :: secondWait ++ .resolved ⟨1⟩ .done :: [] := by decide +kernel
  have hsettles : ∀ event ∈ secondWait, event.settles ⟨0⟩ ⟨1⟩ = false := by decide
  refine ⟨hhistory, hsettles, ?_⟩
  refine ((Host.told_settles restless 10 twoRequests .off ()).1 _ _ _ _ _ _ hhistory).resolve_left ?_
  rintro ⟨event, hmem, hevent⟩
  rw [hsettles event hmem] at hevent
  cases hevent

end ReactiveViews
