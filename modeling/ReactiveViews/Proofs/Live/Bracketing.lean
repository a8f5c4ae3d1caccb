import ReactiveViews.Proofs.Live.Journal
import ReactiveViews.Proofs.Live.Receivers

/-!
# Turns as brackets

The journal notes where the turn of an element in a batch begins and where it is over. A turn lasts
as long as the update of its element, and whatever an update does has come to its end before it does
itself; so turns are shut in the order opposite to that in which they were opened. Code of the host
program is run by a batch only inside of turns.

## What is proved

Turns open and shut like brackets, whatever a host program does (`Host.nesting`), and what begins a
batch while another is carried out does so in the middle of a turn (`within_runBatch`). So a batch
that begins outside of turns finds nothing left of the one before (`Host.clearing`).
-/

namespace ReactiveViews

variable {σ : Type}

/-! ### Brackets -/

theorem openTurns_add (s : SchedulerId) (events more : List Event) :
    openTurns s (events ++ more) = openTurns s events + openTurns s more := by
  simp only [openTurns, List.countP_append]
  omega

theorem openTurns_cons_turn (s : SchedulerId) (e : ElementId) (events : List Event) :
    openTurns s (.turn s e :: events) = 1 + openTurns s events := by
  rw [← List.singleton_append, openTurns_add]
  simp [openTurns, Event.opens, Event.shuts]

theorem openTurns_cons_served (s : SchedulerId) (e : ElementId) (success : Bool)
    (events : List Event) :
    openTurns s (.served s e success :: events) = -1 + openTurns s events := by
  rw [← List.singleton_append, openTurns_add]
  simp [openTurns, Event.opens, Event.shuts]

/-- An event that has nothing to do with the turns of a scheduler and begins no batch of it. -/
def Event.Beside (s : SchedulerId) (event : Event) : Prop :=
  (event.opens s = false ∧ event.shuts s = false) ∧ event.begins s = false

theorem openTurns_none {s : SchedulerId} {events : List Event}
    (h : ∀ event ∈ events, event.opens s = false ∧ event.shuts s = false) :
    openTurns s events = 0 := by
  simpa [openTurns] using openTurns_append s [] h

/-- The turns that are begun among some events are over before any other ends; if the events are
those of an act that has answered, all of them are over. -/
structure Nests (s : SchedulerId) (answered : Bool) (events : List Event) : Prop where
  /-- No turn ends that was in progress. -/
  opened : ∀ {pre}, pre <+: events → 0 ≤ openTurns s pre
  /-- In the end no other turns are in progress than before. -/
  rest : answered = true → openTurns s events = 0

/-- Batches of a scheduler begin only in the middle of its turns. -/
def BeginsWithin (s : SchedulerId) (events : List Event) : Prop :=
  ∀ pre left post, events = pre ++ .began s left :: post → 0 < openTurns s pre

/-- Turns are brackets, and batches begin only in between. -/
structure Within (s : SchedulerId) (answered : Bool) (events : List Event) : Prop
    extends Nests s answered events where
  /-- Batches begin in the middle of turns. -/
  within : BeginsWithin s events

section Brackets

variable {s : SchedulerId} {answered : Bool} {events more : List Event}

theorem opened_append (h : ∀ {pre}, pre <+: events → 0 ≤ openTurns s pre)
    (hmore : ∀ {pre}, pre <+: more → 0 ≤ openTurns s events + openTurns s pre) {pre : List Event}
    (hpre : pre <+: events ++ more) : 0 ≤ openTurns s pre := by
  rcases List.prefix_or_prefix_of_prefix hpre (List.prefix_append events more) with hold | ⟨t, rfl⟩
  · exact h hold
  · rw [openTurns_add]
    exact hmore ((List.prefix_append_right_inj events).mp hpre)

theorem Nests.append (h : Nests s true events) (h' : Nests s answered more) :
    Nests s answered (events ++ more) where
  opened := opened_append h.opened fun hpre => by
    rw [h.rest rfl, Int.zero_add]
    exact h'.opened hpre
  rest hanswered := by rw [openTurns_add, h.rest rfl, h'.rest hanswered, Int.zero_add]

theorem Nests.aside (h : ∀ event ∈ events, event.opens s = false ∧ event.shuts s = false) :
    Nests s answered events where
  opened hpre := Int.le_of_eq (openTurns_none fun event hmem => h event (hpre.subset hmem)).symm
  rest _ := openTurns_none h

/-- A batch that begins among events appended to others begins among one or the other. -/
theorem began_append {pre post : List Event} {left : List ElementId}
    (h : events ++ more = pre ++ .began s left :: post) :
    (∃ rest, events = pre ++ .began s left :: rest) ∨
      ∃ pre', pre = events ++ pre' ∧ more = pre' ++ .began s left :: post := by
  rcases List.append_eq_append_iff.mp h with ⟨pre', rfl, hmore⟩ | ⟨rest, hevents, hrest⟩
  · exact .inr ⟨pre', rfl, hmore⟩
  · cases rest with
    | nil => exact .inr ⟨[], by simpa using hevents.symm, hrest.symm⟩
    | cons event rest =>
      obtain ⟨rfl, -⟩ := List.cons.inj hrest
      exact .inl ⟨rest, hevents⟩

theorem BeginsWithin.append (h : BeginsWithin s events) (hzero : openTurns s events = 0)
    (h' : BeginsWithin s more) : BeginsWithin s (events ++ more) := by
  intro pre left post heq
  rcases began_append heq with ⟨rest, hevents⟩ | ⟨pre', rfl, hmore⟩
  · exact h pre left rest hevents
  · rw [openTurns_add, hzero, Int.zero_add]
    exact h' pre' left post hmore

theorem BeginsWithin.append_beside (h : BeginsWithin s events)
    (hmore : ∀ event ∈ more, event.Beside s) : BeginsWithin s (events ++ more) := by
  intro pre left post heq
  rcases began_append heq with ⟨rest, hevents⟩ | ⟨pre', rfl, rfl⟩
  · exact h pre left rest hevents
  · have hbegan := hmore (.began s left) (by simp)
    simp [Event.Beside, Event.begins] at hbegan

theorem Within.append (h : Within s true events) (h' : Within s answered more) :
    Within s answered (events ++ more) where
  toNests := h.toNests.append h'.toNests
  within := h.within.append (h.rest rfl) h'.within

theorem Within.beside (h : ∀ event ∈ events, event.Beside s) :
    Within s answered events where
  toNests := .aside fun event hmem => (h event hmem).1
  within := by
    have hnil : BeginsWithin s [] := fun pre left post heq => by simp at heq
    exact hnil.append_beside h

/-- What happens after a turn has begun. -/
theorem Nests.turn (h : Nests s answered events) (e : ElementId) :
    Within s false (.turn s e :: events) where
  opened {pre} hpre := by
    cases pre with
    | nil => exact Int.le_refl 0
    | cons event pre =>
      obtain ⟨rfl, hrest⟩ := List.cons_prefix_cons.mp hpre
      have hopened := h.opened hrest
      rw [openTurns_cons_turn]
      omega
  rest hanswered := by cases hanswered
  within pre left post heq := by
    cases pre with
    | nil => cases (List.cons.inj heq).1
    | cons event pre =>
      obtain ⟨rfl, rfl⟩ := List.cons.inj heq
      have hopened := h.opened (List.prefix_append pre _)
      rw [openTurns_cons_turn]
      omega

/-- A turn from its beginning to its end, and what is noted of it afterwards. -/
theorem Nests.served (h : Nests s true events) (e : ElementId) (success : Bool)
    (hmore : ∀ event ∈ more, event.Beside s) :
    Within s true (.turn s e :: events ++ .served s e success :: more) := by
  have hturn := h.turn e
  have hone : openTurns s (.turn s e :: events) = 1 := by
    rw [openTurns_cons_turn, h.rest rfl, Int.add_zero]
  have hnone := fun event hmem => (hmore event hmem).1
  refine ⟨⟨opened_append hturn.opened fun {pre} hpre => ?_, fun _ => ?_⟩, ?_⟩
  · cases pre with
    | nil =>
      rw [hone]
      exact Int.one_nonneg
    | cons event pre =>
      obtain ⟨rfl, hrest⟩ := List.cons_prefix_cons.mp hpre
      rw [hone, openTurns_cons_served, openTurns_none fun event hmem => hnone event (hrest.subset hmem)]
      exact Int.le_refl 0
  · rw [openTurns_add, hone, openTurns_cons_served, openTurns_none hnone]
    rfl
  · intro pre left post heq
    rcases began_append heq with ⟨rest, hevents⟩ | ⟨pre', rfl, hpost⟩
    · exact hturn.within pre left rest hevents
    · cases pre' with
      | nil => cases (List.cons.inj hpost).1
      | cons event pre' =>
        have hbegan := hmore (.began s left) (by rw [(List.cons.inj hpost).2]; simp)
        simp [Event.Beside, Event.begins] at hbegan

end Brackets

/-! ### The effect on brackets -/

/-- The effect of everything that can happen on the turns of a scheduler. -/
def Nesting (s : SchedulerId) : Effect σ := fun answered w w' =>
  ∃ more, w'.history = w.history ++ more ∧ Nests s answered more

variable {s : SchedulerId}

theorem Nesting.trans {answered : Bool} {u v w : World σ} (h : Nesting s true u v)
    (h' : Nesting s answered v w) : Nesting s answered u w := by
  obtain ⟨more, hmore, hnests⟩ := h
  obtain ⟨more', hmore', hnests'⟩ := h'
  exact ⟨more ++ more', by rw [hmore', hmore, List.append_assoc], hnests.append hnests'⟩

theorem Nesting.aside {answered : Bool} {w w' : World σ} (more : List Event)
    (hhistory : w'.history = w.history ++ more)
    (hmore : ∀ event ∈ more, event.opens s = false ∧ event.shuts s = false) :
    Nesting s answered w w' := ⟨more, hhistory, .aside hmore⟩

theorem Event.beside_of_quiet {event : Event} (h : event.isQuiet = true) : event.Beside s := by
  cases event <;> first | exact ⟨⟨rfl, rfl⟩, rfl⟩ | cases h

theorem Change.nesting {answered : Bool} {w w' : World σ} (h : Change w w') :
    Nesting s answered w w' := by
  rcases h.journal_eq with hjournal | ⟨event, hquiet, hjournal⟩
  · exact .aside [] (by simp [World.history, hjournal]) (by simp)
  · refine .aside [event] (by simp [World.history, hjournal]) ?_
    rintro event' hmem
    obtain rfl := List.mem_singleton.mp hmem
    exact (Event.beside_of_quiet hquiet).1

theorem Operation.nesting {answered : Bool} {w w' : World σ} (h : Operation w w') :
    Nesting s answered w w' := by
  obtain ⟨more, hhistory, hmore⟩ := h.history_eq
  refine .aside more hhistory fun event hmem => ?_
  rcases hmore event hmem with ⟨s', e, r, rfl⟩ | ⟨s', e, rfl⟩ <;> exact ⟨rfl, rfl⟩

/-- Those who are told something are noted, and nothing else. -/
theorem World.history_afterTells_eq (state : ReceiverState) (rs : List ReceiverId) (w : World σ) :
    ∃ more, (w.afterTells state rs).history = w.history ++ more ∧
      ∀ event ∈ more, ∃ r, event = .resolved r state := by
  induction rs generalizing w with
  | nil => exact ⟨[], (List.append_nil _).symm, by simp⟩
  | cons r rest ih =>
    unfold World.afterTells
    split
    · obtain ⟨more, hmore, htold⟩ := ih (w.afterTell r state)
      refine ⟨.resolved r state :: more, by rw [hmore, World.history_afterTell]; simp, ?_⟩
      rintro event hmem
      rcases List.mem_cons.mp hmem with rfl | hmem
      · exact ⟨r, rfl⟩
      · exact htold event hmem
    · exact ih w

theorem nesting_tells {answered : Bool} (state : ReceiverState) (rs : List ReceiverId)
    (w : World σ) : Nesting s answered w (w.afterTells state rs) := by
  obtain ⟨more, hmore, htold⟩ := w.history_afterTells_eq state rs
  refine .aside more hmore fun event hmem => ?_
  obtain ⟨r, rfl⟩ := htold event hmem
  exact ⟨rfl, rfl⟩

/-- A message is noted if it is wanted. -/
theorem Act.history_message (enter : Enter σ) (level : Level) (text : String) (w : World σ) :
    ∃ v more, (Act.message level (pure text)).runIn enter w = (some (), v) ∧
      v.history = w.history ++ more ∧ ∀ event ∈ more, event.isQuiet = true := by
  rw [Act.runIn_message]
  split
  · exact ⟨_, [.message level text], rfl, World.history_record w _, by simp [Event.isQuiet]⟩
  · exact ⟨w, [], rfl, (List.append_nil _).symm, by simp⟩

/-- Counting an update leaves at most a message. -/
theorem Act.history_account (enter : Enter σ) (e : ElementId) (answer : Except ViewError Unit)
    (w : World σ) :
    ∃ more, ((Act.account e answer).runIn enter w).2.history = w.history ++ more ∧
      ∀ event ∈ more, event.isQuiet = true := by
  cases answer with
  | ok => exact ⟨[], (List.append_nil _).symm, by simp⟩
  | error error =>
    cases hget : w.elements.get? e.row with
    | none =>
      have helement : (Act.element e).runIn enter w = (none, w) := by
        rw [Act.element, Act.runIn_bind_some (Act.runIn_get enter w), hget]
        rfl
      rw [Act.account, Act.runIn_bind_none helement]
      exact ⟨[], (List.append_nil _).symm, by simp⟩
    | some x =>
      have helement : (Act.element e).runIn enter w = (some x, w) := by
        rw [Act.element, Act.runIn_bind_some (Act.runIn_get enter w), hget]
        rfl
      obtain ⟨v, more, hmessage, hmore⟩ := Act.history_message enter .error
        ("scheduler: update of `" ++ x.tag.text ++ "` (" ++ e.text ++ ") failed: " ++
          error.message) w
      rw [Act.account, Act.runIn_bind_some helement, Act.runIn_bind_some hmessage]
      exact ⟨more, hmore⟩

/-! ### Batches -/

section Batches

variable {enter : Enter σ} (h : Admits (Nesting s) enter)

include h

/-- The turn of a living element, from where it is noted. -/
theorem within_serve (e : ElementId) (w : World σ) :
    ∃ more, ((Act.serve s e).runIn enter w).2.history = w.history ++ more ∧
      Within s ((Act.serve s e).runIn enter w).1.isSome (.turn s e :: more) := by
  have hupdate := h.enterUpdate e w
  rw [Act.serve, Act.runIn_bind]
  revert hupdate
  rcases (Act.enterUpdate e).runIn enter w with ⟨_ | answer, v⟩
  · rintro ⟨more, hmore, hnests⟩
    exact ⟨more, hmore, hnests.turn e⟩
  · rintro ⟨more, hmore, hnests⟩
    obtain ⟨after, hafter, hquiet⟩ :=
      Act.history_account enter e answer (v.record (.served s e answer.isOk))
    have hwithin := hnests.served e answer.isOk fun event hmem =>
      Event.beside_of_quiet (s := s) (hquiet event hmem)
    dsimp only
    rw [Act.runIn_bind_some (Act.runIn_record _ _ v)]
    refine ⟨more ++ .served s e answer.isOk :: after, ?_, ?_⟩
    · rw [hafter, World.history_record, show v.history = _ from hmore]
      simp
    · rw [← List.cons_append]
      exact ⟨⟨hwithin.opened, fun _ => hwithin.rest rfl⟩, hwithin.within⟩

theorem within_turnIfAlive (e : ElementId) (w : World σ) :
    ∃ more, ((Act.turnIfAlive s e).runIn enter w).2.history = w.history ++ more ∧
      Within s ((Act.turnIfAlive s e).runIn enter w).1.isSome more := by
  have halive : (Act.alive e).runIn enter w = (some (w.alive e), w) := rfl
  rw [Act.turnIfAlive, Act.runIn_bind_some halive]
  cases w.alive e with
  | true =>
    let u : World σ := { w.record (.turn s e) with held := [e] ++ w.held }
    have hu : u.history = w.history ++ [.turn s e] := World.history_record w _
    have hturn : (Act.turn s e).runIn enter w =
        (do
          let report ← Act.serve s e
          Act.release [e]
          return report).runIn enter u := by
      rw [Act.turn, Act.holding, Act.hold, Act.runIn_bind_some (Act.runIn_modify _ _ _), bind_assoc,
        Act.runIn_bind_some (Act.runIn_record _ _ _)]
      rfl
    obtain ⟨more, hmore, hwithin⟩ := within_serve h e u
    refine ⟨.turn s e :: more, ?_, ?_⟩
    all_goals
      simp only [if_true]
      rw [hturn, Act.runIn_bind]
      revert hmore hwithin
      rcases (Act.serve s e).runIn enter u with ⟨_ | report, v⟩
    · exact fun hmore _ => hmore.trans (by rw [hu]; simp)
    · exact fun hmore _ => hmore.trans (by rw [hu]; simp)
    · exact fun _ hwithin => hwithin
    · exact fun _ hwithin => hwithin
  | false =>
    obtain ⟨v, more, hmessage, hmore, hquiet⟩ := Act.history_message enter .warn
      ("scheduler: skipping dropped element " ++ e.text) (w.record (.skipped s e))
    simp only [Bool.false_eq_true, if_false]
    rw [Act.runIn_bind_some (Act.runIn_record _ _ w), Act.runIn_bind_some hmessage]
    refine ⟨.skipped s e :: more, ?_, .beside fun event hmem => ?_⟩
    · rw [Act.runIn_pure, hmore, World.history_record]
      simp
    · rcases List.mem_cons.mp hmem with rfl | hmem
      · exact ⟨⟨rfl, rfl⟩, rfl⟩
      · exact Event.beside_of_quiet (hquiet event hmem)

theorem within_turns (n : Nat) (report : BatchReport) (w : World σ) :
    ∃ more, ((Act.turns s n report).runIn enter w).2.history = w.history ++ more ∧
      Within s ((Act.turns s n report).runIn enter w).1.isSome more := by
  have hnothing (w : World σ) (answered : Bool) :
      ∃ more, w.history = w.history ++ more ∧ Within s answered more :=
    ⟨[], (List.append_nil _).symm, .beside (by simp)⟩
  induction n generalizing report w with
  | zero => exact hnothing w true
  | succ n ih =>
    by_cases hexists : (w.schedulers.get? s.row).isSome
    · cases hrunning : (w.scheduler s).running with
      | nil =>
        rw [Act.runIn_turns_nil enter hexists hrunning]
        exact hnothing w true
      | cons e rest =>
        obtain ⟨more, hmore, hwithin⟩ := within_turnIfAlive h e (w.popped s)
        rw [World.history_popped] at hmore
        rw [Act.runIn_turns_cons enter hrunning, Act.runIn_bind]
        revert hmore hwithin
        rcases (Act.turnIfAlive s e).runIn enter (w.popped s) with ⟨_ | turned, v⟩
        · exact fun hmore hwithin => ⟨more, hmore, hwithin⟩
        · intro hmore hwithin
          obtain ⟨more', hmore', hwithin'⟩ := ih (report.add turned) v
          refine ⟨more ++ more', ?_, hwithin.append hwithin'⟩
          rw [hmore', show v.history = _ from hmore, List.append_assoc]
    · have hnone : (Act.turns s (n + 1) report).runIn enter w = (none, w) :=
        Act.runIn_bind_none (Act.runIn_bind_none (Act.runIn_scheduler_none enter w s hexists))
      rw [hnone]
      exact hnothing w false

/-- A batch begins, and other batches of its scheduler that begin before it is over do so in the
middle of its turns. -/
theorem within_runBatch {w : World σ} (hexists : (w.schedulers.get? s.row).isSome) :
    ∃ more, ((Act.runBatch s).runIn enter w).2.history =
        w.history ++ .began s (w.scheduler s).running :: more ∧
      Within s ((Act.runBatch s).runIn enter w).1.isSome more := by
  obtain ⟨more, hmore, hwithin⟩ :=
    within_turns h (w.scheduler s).pending.length .zero (w.afterBegin s)
  rw [World.history_afterBegin] at hmore
  rw [Act.runIn_runBatch_some enter w s hexists, Act.runIn_bind]
  revert hmore hwithin
  rcases (Act.turns s (w.scheduler s).pending.length .zero).runIn enter (w.afterBegin s)
    with ⟨_ | report, v⟩
  · exact fun hmore hwithin => ⟨more, hmore.trans (by simp), hwithin⟩
  · intro hmore hwithin
    obtain ⟨told, htold, hresolved⟩ := v.history_afterTells_eq .done (w.scheduler s).waiters
    have htells : ∀ event ∈ told, event.Beside s := by
      intro event hmem
      obtain ⟨r, rfl⟩ := hresolved event hmem
      exact ⟨⟨rfl, rfl⟩, rfl⟩
    obtain ⟨v', message, hmessage, hmore', hquiet⟩ := Act.history_message enter .debug
      ("scheduler: batch done (" ++ toString report.updated ++ " updated, " ++
        toString report.failed ++ " failed)") (v.afterTells .done (w.scheduler s).waiters)
    dsimp only
    rw [Act.runIn_bind_some (Act.runIn_tells enter .done _ v), Act.runIn_bind_some hmessage]
    refine ⟨more ++ told ++ message, ?_, (hwithin.append (.beside htells)).append (.beside ?_)⟩
    · rw [Act.runIn_pure, hmore', htold, show v.history = _ from hmore]
      simp
    · exact fun event hmem => Event.beside_of_quiet (hquiet event hmem)

/-- The turns of other schedulers are beside those of this one. -/
theorem nesting_runBatch_of_ne {s' : SchedulerId} (hs : s' ≠ s) :
    Keeps (Nesting s) enter (Act.runBatch s') := by
  have hturns := h.turns (s := s')
    (fun {w e rest event} _ hevent => .aside [event] (by simp) (by
      rcases hevent with rfl | rfl <;> simp [Event.opens, Event.shuts, hs]))
    (fun w e success => .aside [.served s' e success] (by simp) (by
      simp [Event.opens, Event.shuts, hs]))
  intro w
  by_cases hexists : (w.schedulers.get? s'.row).isSome
  · have hbegin : Nesting s true w (w.afterBegin s') :=
      .aside [_] (World.history_afterBegin w s') (by simp [Event.opens, Event.shuts])
    rw [Act.runIn_runBatch_some enter w s' hexists]
    refine hbegin.trans (h.bind (hturns _ .zero) (fun report v => ?_) _)
    rw [Act.runIn_bind_some (Act.runIn_tells enter .done _ v)]
    exact (nesting_tells .done _ v).trans
      (h.bind (h.message .debug (h.pure _)) (fun _ => h.pure report) _)
  · rw [Act.runIn_runBatch_none enter w s' hexists]
    exact h.refl w

theorem nesting_runBatch (s' : SchedulerId) : Keeps (Nesting s) enter (Act.runBatch s') := by
  by_cases hs : s' = s
  · subst hs
    intro w
    by_cases hexists : (w.schedulers.get? s'.row).isSome
    · obtain ⟨more, hmore, hwithin⟩ := within_runBatch h hexists
      have hbegin : Nests s' true [.began s' (w.scheduler s').running] :=
        .aside (by simp [Event.opens, Event.shuts])
      exact ⟨_, hmore, hbegin.append hwithin.toNests⟩
    · rw [Act.runIn_runBatch_none enter w s' hexists]
      exact h.refl w
  · exact nesting_runBatch_of_ne h hs

end Batches

theorem nesting_close {enter : Enter σ} (s' : SchedulerId) :
    Keeps (Nesting s) enter (Act.close s') := by
  intro w
  by_cases hexists : (w.schedulers.get? s'.row).isSome
  · have hclose : Nesting s true w (w.afterClose s') :=
      .aside [_] (World.history_afterClose w s') (by simp [Event.opens, Event.shuts])
    rw [Act.runIn_close_some enter w s' hexists]
    exact hclose.trans (nesting_tells .canceled _ _)
  · rw [Act.runIn_close_none enter w s' hexists]
    exact Change.nesting (.store w w.store)

/-- Whatever a host program does, turns open and shut like brackets. -/
theorem Host.nesting (host : Host σ) (s : SchedulerId) :
    Respects (Nesting s) host fun _ => True where
  only call := .all _
  quiet := Change.nesting
  trans := Nesting.trans
  schedules h r _ _ := by
    cases r with
    | runBatch s' => exact nesting_runBatch h s'
    | pump s' n => exact h.pump Operation.nesting (nesting_runBatch h s') n
    | close s' => exact nesting_close s'
    | _ =>
      exact h.operation Operation.nesting _ (fun _ => Request.noConfusion)
        (fun _ _ => Request.noConfusion) fun _ => Request.noConfusion

/-! ### What is left when a batch begins -/

/-- While no turn of a scheduler is in progress, nothing is left of a batch. -/
structure World.Cleared (w : World σ) (s : SchedulerId) : Prop where
  /-- The world agrees with its journal. -/
  recorded : w.Recorded
  /-- No turn has ended that did not begin. -/
  turns : 0 ≤ openTurns s w.history
  /-- Nothing is left. -/
  running : openTurns s w.history = 0 → (w.scheduler s).running = []

/-- Batches that begin outside of turns find nothing left of those before. -/
structure Exhausts (s : SchedulerId) (answered : Bool) (w w' : World σ) : Prop where
  /-- Nothing is taken out of the journal. -/
  history : w.history <+: w'.history
  /-- Outside of turns nothing is left afterwards either. -/
  cleared : answered = true → w'.Cleared s
  /-- What a batch finds left when it begins. -/
  left : ∀ pre left post, w'.history = w.history ++ (pre ++ .began s left :: post) →
    openTurns s (w.history ++ pre) = 0 → left = []

/-- The effect of everything that can happen, where nothing is left. -/
def Exhausting (s : SchedulerId) : Effect σ := fun answered w w' => w.Cleared s → Exhausts s answered w w'

theorem Exhausting.trans {answered : Bool} {u v w : World σ} (h : Exhausting s true u v)
    (h' : Exhausting s answered v w) : Exhausting s answered u w := by
  intro hu
  obtain ⟨⟨more, hmore⟩, hcleared, hleft⟩ := h hu
  obtain ⟨⟨more', hmore'⟩, hcleared', hleft'⟩ := h' (hcleared rfl)
  refine ⟨⟨more ++ more', by rw [← hmore', ← hmore, List.append_assoc]⟩, hcleared', ?_⟩
  intro pre left post hhistory hzero
  rw [← hmore', ← hmore, List.append_assoc] at hhistory
  rcases began_append (List.append_cancel_left hhistory) with ⟨rest, hrest⟩ | ⟨pre', rfl, hrest⟩
  · exact hleft pre left rest (by rw [← hmore, hrest]) hzero
  · refine hleft' pre' left post (by rw [← hmore', hrest]) ?_
    rw [← hmore, List.append_assoc]
    exact hzero

/-- A step by which the scheduler neither begins a batch nor opens or shuts a turn, and that leaves
what is to go in its batch as it is or makes it less. -/
theorem Exhausts.step {answered : Bool} {w w' : World σ} (hw : w.Cleared s) (hw' : w'.Recorded)
    (more : List Event) (hhistory : w'.history = w.history ++ more)
    (hmore : ∀ event ∈ more, event.Beside s) : Exhausts s answered w w' where
  history := ⟨more, hhistory.symm⟩
  cleared _ := by
    have hturns : openTurns s w'.history = openTurns s w.history := by
      rw [hhistory, openTurns_append s _ fun event hmem => (hmore event hmem).1]
    refine ⟨hw', hturns ▸ hw.turns, fun hzero => ?_⟩
    have hnil := hw.running (hturns ▸ hzero)
    rw [hw.recorded.running_eq] at hnil
    have hless := running_replay_sublist w.history fun event hmem => (hmore event hmem).2
    rw [← hhistory, hnil, ← hw'.running_eq] at hless
    exact List.sublist_nil.mp hless
  left pre left post heq := by
    have hsplit := List.append_cancel_left (hhistory.symm.trans heq)
    have hbegan := hmore (.began s left) (by rw [hsplit]; simp)
    simp [Event.Beside, Event.begins] at hbegan

theorem Change.exhausting {answered : Bool} {w w' : World σ} (h : Change w w') :
    Exhausting s answered w w' := by
  intro hw
  rcases h.journal_eq with hjournal | ⟨event, hquiet, hjournal⟩
  · exact .step hw (h.recorded hw.recorded) [] (by simp [World.history, hjournal]) (by simp)
  · refine .step hw (h.recorded hw.recorded) [event] (by simp [World.history, hjournal]) ?_
    rintro event' hmem
    obtain rfl := List.mem_singleton.mp hmem
    exact Event.beside_of_quiet hquiet

theorem Operation.exhausting {answered : Bool} {w w' : World σ} (h : Operation w w') :
    Exhausting s answered w w' := by
  intro hw
  obtain ⟨more, hhistory, hmore⟩ := h.history_eq
  refine .step hw (h.recorded hw.recorded) more hhistory fun event hmem => ?_
  rcases hmore event hmem with ⟨s', e, r, rfl⟩ | ⟨s', e, rfl⟩ <;> exact ⟨⟨rfl, rfl⟩, rfl⟩

theorem exhausting_tells {answered : Bool} (state : ReceiverState) (rs : List ReceiverId)
    (w : World σ) : Exhausting s answered w (w.afterTells state rs) := by
  intro hw
  obtain ⟨more, hmore, htold⟩ := w.history_afterTells_eq state rs
  refine .step hw (hw.recorded.afterTells state rs) more hmore fun event hmem => ?_
  obtain ⟨r, rfl⟩ := htold event hmem
  exact ⟨⟨rfl, rfl⟩, rfl⟩

theorem exhausting_close {enter : Enter σ} (s' : SchedulerId) :
    Keeps (Exhausting s) enter (Act.close s') := by
  intro w
  by_cases hexists : (w.schedulers.get? s'.row).isSome
  · have hclose : Exhausting s true w (w.afterClose s') := fun hw =>
      .step hw (hw.recorded.afterClose s') [_] (World.history_afterClose w s')
        (by simp [Event.Beside, Event.opens, Event.shuts, Event.begins])
    rw [Act.runIn_close_some enter w s' hexists]
    exact hclose.trans (exhausting_tells .canceled _ _)
  · rw [Act.runIn_close_none enter w s' hexists]
    exact Change.exhausting (.store w w.store)

/-- Batches of other schedulers. -/
theorem exhausting_runBatch_of_ne {enter : Enter σ} (h : Admits (Exhausting s) enter) {s' : SchedulerId}
    (hs : s' ≠ s) : Keeps (Exhausting s) enter (Act.runBatch s') := by
  have hturns := h.turns (s := s')
    (fun {w e rest event} hrunning hevent hw => by
      refine .step hw ?_ [event] (by simp) ?_
      · rcases hevent with rfl | rfl
        · exact hw.recorded.turn hrunning
        · exact hw.recorded.skipped hrunning
      · rcases hevent with rfl | rfl <;>
          simp [Event.Beside, Event.opens, Event.shuts, Event.begins, hs])
    (fun w e success hw =>
      .step hw (hw.recorded.record (fun _ _ => rfl) (by simp) rfl) [.served s' e success] (by simp)
        (by simp [Event.Beside, Event.opens, Event.shuts, Event.begins, hs]))
  intro w
  by_cases hexists : (w.schedulers.get? s'.row).isSome
  · have hbegin : Exhausting s true w (w.afterBegin s') := fun hw =>
      .step hw (hw.recorded.afterBegin s') [_] (World.history_afterBegin w s')
        (by simp [Event.Beside, Event.opens, Event.shuts, Event.begins, hs])
    rw [Act.runIn_runBatch_some enter w s' hexists]
    refine hbegin.trans (h.bind (hturns _ .zero) (fun report v => ?_) _)
    rw [Act.runIn_bind_some (Act.runIn_tells enter .done _ v)]
    exact (exhausting_tells .done _ v).trans
      (h.bind (h.message .debug (h.pure _)) (fun _ => h.pure report) _)
  · rw [Act.runIn_runBatch_none enter w s' hexists]
    exact h.refl w

/-- The effect of everything that can happen: a batch has nothing to go when it is over, and what
begins another while it lasts does so in the middle of a turn. -/
def Clearing (s : SchedulerId) : Effect σ := fun answered w w' =>
  (Growing answered w w' ∧ Nesting s answered w w') ∧ Exhausting s answered w w'

section Clearing

variable {enter : Enter σ} (h : Admits (Clearing s) enter)

include h

theorem Admits.growing : Admits Growing enter :=
  .of_quiet Change.growing Growing.trans fun call w => (h.calls call w).1.1

theorem Admits.nesting : Admits (Nesting s) enter :=
  .of_quiet Change.nesting Nesting.trans fun call w => (h.calls call w).1.2

theorem Admits.exhausting : Admits (Exhausting s) enter :=
  .of_quiet Change.exhausting Exhausting.trans fun call w => (h.calls call w).2

theorem exhausting_runBatch (s' : SchedulerId) : Keeps (Exhausting s) enter (Act.runBatch s') := by
  by_cases hs : s' = s
  · subst hs
    intro w hw
    by_cases hexists : (w.schedulers.get? s'.row).isSome
    · obtain ⟨more, hmore, hwithin⟩ := within_runBatch h.nesting hexists
      have hgrows := growing_runBatch h.growing s' w hw.recorded
      refine ⟨⟨_, hmore.symm⟩, fun hanswered => ?_, fun pre left post hhistory hzero => ?_⟩
      · have hturns : openTurns s' ((Act.runBatch s').runIn enter w).2.history =
            openTurns s' w.history := by
          rw [hmore, openTurns_add, ← List.singleton_append, openTurns_add, hwithin.rest hanswered]
          simp [openTurns, Event.opens, Event.shuts]
        refine ⟨hgrows.recorded, hturns ▸ hw.turns, fun hzero => ?_⟩
        have hlength := hgrows.running hanswered s'
        rw [hw.running (hturns ▸ hzero), List.length_nil] at hlength
        exact List.eq_nil_of_length_eq_zero (Nat.le_zero.mp hlength)
      · have hsplit := List.append_cancel_left (hmore.symm.trans hhistory)
        cases pre with
        | nil =>
          obtain ⟨hbegan, -⟩ := List.cons.inj hsplit
          cases hbegan
          exact hw.running (by simpa using hzero)
        | cons event pre =>
          obtain ⟨rfl, hrest⟩ := List.cons.inj hsplit
          have hinside := hwithin.within pre left post hrest
          have hturns := hw.turns
          rw [openTurns_add, ← List.singleton_append, openTurns_add] at hzero
          have hbegan : openTurns s' [.began s' (w.scheduler s').running] = 0 := by
            simp [openTurns, Event.opens, Event.shuts]
          omega
    · rw [Act.runIn_runBatch_none enter w s' hexists]
      exact Change.exhausting (.store w w.store) hw
  · exact exhausting_runBatch_of_ne h.exhausting hs

theorem clearing_runBatch (s' : SchedulerId) : Keeps (Clearing s) enter (Act.runBatch s') :=
  fun w => ⟨⟨growing_runBatch h.growing s' w, nesting_runBatch h.nesting s' w⟩,
    exhausting_runBatch h s' w⟩

end Clearing

theorem Operation.clearing {answered : Bool} {w w' : World σ} (h : Operation w w') :
    Clearing s answered w w' := ⟨⟨h.growing, h.nesting⟩, h.exhausting⟩

/-- Whatever a host program does, batches that begin outside of turns find nothing left. -/
theorem Host.clearing (host : Host σ) (s : SchedulerId) :
    Respects (Clearing s) host fun _ => True where
  only call := .all _
  quiet h := ⟨⟨h.growing, h.nesting⟩, h.exhausting⟩
  trans h h' := ⟨⟨h.1.1.trans h'.1.1, h.1.2.trans h'.1.2⟩, h.2.trans h'.2⟩
  schedules h r _ _ := by
    cases r with
    | runBatch s' => exact clearing_runBatch h s'
    | pump s' n => exact h.pump Operation.clearing (clearing_runBatch h s') n
    | close s' => exact fun w => ⟨⟨growing_close s' w, nesting_close s' w⟩, exhausting_close s' w⟩
    | _ =>
      exact h.operation Operation.clearing _ (fun _ => Request.noConfusion)
        (fun _ _ => Request.noConfusion) fun _ => Request.noConfusion

end ReactiveViews
