import ReactiveViews.Proofs.Live.Effects
import Mathlib.Data.List.Induction

/-!
# The journal as a ledger

The journal tells all there is to know of schedulers. Read from its beginning, each event changes
a scheduler in one way, and a scheduler is at any moment what the events so far have made of an
idle one; only the question whether a frame has been asked for is left out.

## What is proved

The requests that wait for the next batch are those that were made and since then neither
withdrawn nor taken by a batch, in the order in which they were first made
(`replay_pending`). A receiver that waits was handed out for an element that waits as well or
has been withdrawn in the meantime (`mem_replay_waiters`), and an element leaves a batch in
progress only by its turn, by being withdrawn or by another batch (`mem_running_after`). That a
world agrees with its journal is said by `World.Recorded`, which every change respects
(`Change.recorded`), and every operation of a scheduler (`World.Recorded.request`,
`World.Recorded.began`, …).
-/

namespace ReactiveViews

variable {σ α β : Type}

/-! ### Reading the journal -/

/-- What an event makes of a scheduler. -/
def Scheduler.after (s : SchedulerId) (x : Scheduler) : Event → Scheduler
  | .requested s' e r =>
    if s' = s then { x with pending := Act.enlist x.pending e, waiters := x.waiters ++ [r] } else x
  | .withdrawn s' e =>
    if s' = s then
      { x with pending := x.pending.filter (· ≠ e), running := x.running.filter (· ≠ e) }
    else x
  | .began s' _ =>
    if s' = s then { x with pending := [], waiters := [], running := x.pending } else x
  | .turn s' e | .skipped s' e => if s' = s then { x with running := x.running.erase e } else x
  | .closed s' => if s' = s then { x with pending := [], waiters := [] } else x
  | _ => x

/-- What events make of an idle scheduler. -/
def replay (s : SchedulerId) (events : List Event) : Scheduler :=
  events.foldl (Scheduler.after s) .idle

theorem replay_snoc (s : SchedulerId) (events : List Event) (event : Event) :
    replay s (events ++ [event]) = (replay s events).after s event := by
  simp [replay]

theorem Scheduler.after_quiet (s : SchedulerId) (x : Scheduler) {event : Event}
    (hquiet : event.isQuiet = true) : x.after s event = x := by
  cases event <;> first | rfl | cases hquiet

/-! ### What waits for the next batch -/

/-- An event after which no earlier request of the element waits any more. -/
def Event.clears (s : SchedulerId) (e : ElementId) : Event → Bool
  | .withdrawn s' e' => s' = s ∧ e' = e
  | .began s' _ | .closed s' => s' = s
  | _ => false

/-- An event after which no receiver that was handed out earlier waits any more. -/
def Event.empties (s : SchedulerId) : Event → Bool
  | .began s' _ | .closed s' => s' = s
  | _ => false

/-- The elements that events leave waiting for the next batch: each that has been requested since
it last left, in the order of the first such requests. -/
def openRequests (s : SchedulerId) : List Event → List ElementId
  | [] => []
  | .requested s' e _ :: rest =>
    if s' = s ∧ ¬ rest.any (·.clears s e) then e :: (openRequests s rest).filter (· ≠ e)
    else openRequests s rest
  | _ :: rest => openRequests s rest

/-- The receivers that events leave waiting for the next batch, in the order in which they were
handed out. -/
def openReceivers (s : SchedulerId) : List Event → List ReceiverId
  | [] => []
  | .requested s' _ r :: rest =>
    if s' = s ∧ ¬ rest.any (·.empties s) then r :: openReceivers s rest
    else openReceivers s rest
  | _ :: rest => openReceivers s rest

theorem mem_openRequests {s : SchedulerId} {e : ElementId} {events : List Event} :
    e ∈ openRequests s events ↔
      ∃ pre r post, events = pre ++ .requested s e r :: post ∧ ¬ post.any (·.clears s e) := by
  constructor
  · fun_induction openRequests s events with
    | case1 => simp
    | case2 s' e' r rest hopen ih =>
      intro he
      rcases List.mem_cons.mp he with rfl | he
      · exact ⟨[], r, rest, by simp [hopen.1], hopen.2⟩
      · obtain ⟨pre, r', post, rfl, hpost⟩ := ih (List.mem_filter.mp he).1
        exact ⟨_ :: pre, r', post, rfl, hpost⟩
    | case3 s' e' r rest _ ih | case4 event rest _ ih =>
      intro he
      obtain ⟨pre, r', post, rfl, hpost⟩ := ih he
      exact ⟨_ :: pre, r', post, rfl, hpost⟩
  · rintro ⟨pre, r, post, rfl, hpost⟩
    induction pre with
    | nil => simp [openRequests, hpost]
    | cons event pre ih =>
      have hmem (e' : ElementId) (es : List ElementId) (h : e ∈ es) :
          e ∈ e' :: es.filter (· ≠ e') := by
        by_cases heq : e = e' <;> simp [heq, h]
      cases event <;> simp only [List.cons_append, openRequests, ih]
      split
      · exact hmem _ _ ih
      · exact ih

theorem nodup_openRequests (s : SchedulerId) (events : List Event) :
    (openRequests s events).Nodup := by
  fun_induction openRequests s events with
  | case1 => exact List.nodup_nil
  | case2 s' e r rest _ ih => exact List.nodup_cons.mpr ⟨by simp, ih.filter _⟩
  | case3 s' e r rest _ ih | case4 event rest _ ih => exact ih

theorem openRequests_requested (s : SchedulerId) (e : ElementId) (r : ReceiverId)
    (events : List Event) :
    openRequests s (events ++ [.requested s e r]) = Act.enlist (openRequests s events) e := by
  fun_induction openRequests s events with
  | case1 => simp [openRequests, Act.enlist]
  | case2 s' e' r' rest hopen ih =>
    have hany : ¬ (rest ++ [Event.requested s e r]).any (·.clears s e') := by
      simpa [Event.clears] using hopen.2
    rw [List.cons_append, openRequests, if_pos ⟨hopen.1, hany⟩, ih]
    by_cases heq : e = e'
    · subst heq
      unfold Act.enlist
      split <;> simp
    · unfold Act.enlist
      by_cases hmem : e ∈ openRequests s rest <;> simp [hmem, heq]
  | case3 s' e' r' rest hopen ih =>
    have hany : ¬ (s' = s ∧ ¬ (rest ++ [Event.requested s e r]).any (·.clears s e')) := by
      simpa [Event.clears] using hopen
    rw [List.cons_append, openRequests, if_neg hany, ih]
  | case4 event rest hother ih =>
    cases event <;> simp_all [openRequests]

theorem openRequests_withdrawn (s : SchedulerId) (e : ElementId) (events : List Event) :
    openRequests s (events ++ [.withdrawn s e]) = (openRequests s events).filter (· ≠ e) := by
  fun_induction openRequests s events with
  | case1 => simp [openRequests]
  | case2 s' e' r' rest hopen ih =>
    by_cases heq : e = e'
    · subst heq
      simp [openRequests, Event.clears, ih]
    · have hany : ¬ (rest ++ [Event.withdrawn s e]).any (·.clears s e') := by
        simpa [Event.clears, heq] using hopen.2
      rw [List.cons_append, openRequests, if_pos ⟨hopen.1, hany⟩, ih]
      simp [Ne.symm heq, List.filter_filter, Bool.and_comm]
  | case3 s' e' r' rest hopen ih =>
    have hany : ¬ (s' = s ∧ ¬ (rest ++ [Event.withdrawn s e]).any (·.clears s e')) := by
      simp only [List.any_append, Bool.or_eq_true]
      tauto
    rw [List.cons_append, openRequests, if_neg hany, ih]
  | case4 event rest hother ih =>
    cases event <;> simp_all [openRequests]

theorem openRequests_empties (s : SchedulerId) {event : Event} (hevent : event.empties s = true)
    (events : List Event) : openRequests s (events ++ [event]) = [] := by
  have hclears (e : ElementId) : event.clears s e = true := by
    cases event <;> simp_all [Event.clears, Event.empties]
  induction events with
  | nil => cases event <;> simp_all [openRequests, Event.empties]
  | cons first rest ih => cases first <;> simp [openRequests, ih, hclears]

/-- What was waiting before does not matter after an event that empties the scheduler. -/
theorem openRequests_append_empties (s : SchedulerId) {event : Event}
    (hevent : event.empties s = true) (events more : List Event) :
    openRequests s (events ++ event :: more) = openRequests s more := by
  have hclears (e : ElementId) : event.clears s e = true := by
    cases event <;> simp_all [Event.clears, Event.empties]
  induction events with
  | nil => cases event <;> simp_all [openRequests, Event.empties]
  | cons first rest ih => cases first <;> simp [openRequests, ih, hclears]

/-- Other events do not change what waits. -/
theorem openRequests_other (s : SchedulerId) {event : Event}
    (hclears : ∀ e, event.clears s e = false) (hrequested : ∀ e r, event ≠ .requested s e r)
    (events : List Event) : openRequests s (events ++ [event]) = openRequests s events := by
  induction events with
  | nil =>
    cases event <;> simp_all [openRequests]
  | cons first rest ih => cases first <;> simp [openRequests, ih, hclears]

/-! ### What waits to be told -/

theorem mem_openReceivers {s : SchedulerId} {r : ReceiverId} {events : List Event}
    (hr : r ∈ openReceivers s events) :
    ∃ e pre post, events = pre ++ .requested s e r :: post ∧ ¬ post.any (·.empties s) := by
  fun_induction openReceivers s events with
  | case1 => simp at hr
  | case2 s' e' r' rest hopen ih =>
    rcases List.mem_cons.mp hr with rfl | hr
    · exact ⟨e', [], rest, by simp [hopen.1], hopen.2⟩
    · obtain ⟨e, pre, post, rfl, hpost⟩ := ih hr
      exact ⟨e, _ :: pre, post, rfl, hpost⟩
  | case3 s' e' r' rest _ ih | case4 event rest _ ih =>
    obtain ⟨e, pre, post, rfl, hpost⟩ := ih hr
    exact ⟨e, _ :: pre, post, rfl, hpost⟩

theorem openReceivers_requested (s : SchedulerId) (e : ElementId) (r : ReceiverId)
    (events : List Event) :
    openReceivers s (events ++ [.requested s e r]) = openReceivers s events ++ [r] := by
  induction events with
  | nil => simp [openReceivers]
  | cons first rest ih =>
    have hany : (rest ++ [Event.requested s e r]).any (·.empties s) = rest.any (·.empties s) := by
      simp [Event.empties]
    cases first <;> simp only [List.cons_append, openReceivers, ih, hany]
    split <;> simp

theorem openReceivers_empties (s : SchedulerId) {event : Event} (hevent : event.empties s = true)
    (events : List Event) : openReceivers s (events ++ [event]) = [] := by
  induction events with
  | nil => cases event <;> simp_all [openReceivers, Event.empties]
  | cons first rest ih => cases first <;> simp [openReceivers, ih, hevent]

theorem openReceivers_append_empties (s : SchedulerId) {event : Event}
    (hevent : event.empties s = true) (events more : List Event) :
    openReceivers s (events ++ event :: more) = openReceivers s more := by
  induction events with
  | nil => cases event <;> simp_all [openReceivers, Event.empties]
  | cons first rest ih => cases first <;> simp [openReceivers, ih, hevent]

theorem openReceivers_other (s : SchedulerId) {event : Event} (hempties : event.empties s = false)
    (hrequested : ∀ e r, event ≠ .requested s e r) (events : List Event) :
    openReceivers s (events ++ [event]) = openReceivers s events := by
  induction events with
  | nil => cases event <;> simp_all [openReceivers]
  | cons first rest ih => cases first <;> simp [openReceivers, ih, hempties]

/-! ### What events make of a scheduler -/

theorem replay_pending (s : SchedulerId) (events : List Event) :
    (replay s events).pending = openRequests s events := by
  induction events using List.reverseRecOn with
  | nil => rfl
  | append_singleton events event ih =>
    rw [replay_snoc]
    by_cases hempties : event.empties s = true
    · rw [openRequests_empties s hempties]
      cases event <;> simp_all [Event.empties, Scheduler.after]
    · cases event with
      | requested s' e r =>
        by_cases hs : s' = s
        · subst hs
          simp [openRequests_requested, Scheduler.after, ih]
        · rw [openRequests_other s (fun _ => rfl) (by simp [hs]), ← ih]
          simp [Scheduler.after, hs]
      | withdrawn s' e =>
        by_cases hs : s' = s
        · subst hs
          simp [openRequests_withdrawn, Scheduler.after, ih]
        · rw [openRequests_other s (by simp [Event.clears, hs]) (by simp), ← ih]
          simp [Scheduler.after, hs]
      | _ =>
        rw [openRequests_other s (by simp_all [Event.clears, Event.empties]) (by simp), ← ih]
        simp_all [Event.empties, Scheduler.after, apply_ite Scheduler.pending]

theorem replay_waiters (s : SchedulerId) (events : List Event) :
    (replay s events).waiters = openReceivers s events := by
  induction events using List.reverseRecOn with
  | nil => rfl
  | append_singleton events event ih =>
    rw [replay_snoc]
    by_cases hempties : event.empties s = true
    · rw [openReceivers_empties s hempties]
      cases event <;> simp_all [Event.empties, Scheduler.after]
    · have hempties : event.empties s = false := by simpa using hempties
      cases event with
      | requested s' e r =>
        by_cases hs : s' = s
        · subst hs
          simp [openReceivers_requested, Scheduler.after, ih]
        · rw [openReceivers_other s hempties (by simp [hs]), ← ih]
          simp [Scheduler.after, hs]
      | _ =>
        rw [openReceivers_other s hempties (by simp), ← ih]
        simp_all [Event.empties, Scheduler.after, apply_ite Scheduler.waiters]

/-! ### How an element leaves a batch in progress -/

/-- An event by which an element that was to be updated has been dealt with: its turn began, it was
found dead, or its requests were withdrawn. -/
def Event.settles (s : SchedulerId) (e : ElementId) : Event → Bool
  | .turn s' e' | .skipped s' e' | .withdrawn s' e' => s' = s ∧ e' = e
  | _ => false

/-- An event by which an element loses its place in a batch to another batch. -/
def Event.overruns (s : SchedulerId) (e : ElementId) : Event → Bool
  | .began s' left => s' = s ∧ e ∈ left
  | _ => false

theorem mem_running_after {s : SchedulerId} {e : ElementId} {x : Scheduler} {event : Event}
    (hbegan : ∀ left, event = .began s left → left = x.running) (he : e ∈ x.running) :
    e ∈ (x.after s event).running ∨ event.settles s e = true ∨ event.overruns s e = true := by
  cases event with
  | requested s' e' r | closed s' =>
    refine .inl ?_
    unfold Scheduler.after
    dsimp only
    split <;> exact he
  | withdrawn s' e' =>
    by_cases h : s' = s ∧ e' = e
    · exact .inr (.inl (by simp [Event.settles, h]))
    · refine .inl ?_
      simp only [Scheduler.after]
      split <;> grind
  | began s' left =>
    by_cases hs : s' = s
    · subst hs
      rw [hbegan left rfl]
      exact .inr (.inr (by simp [Event.overruns, he]))
    · exact .inl (by simpa [Scheduler.after, hs] using he)
  | turn s' e' | skipped s' e' =>
    by_cases h : s' = s ∧ e' = e
    · exact .inr (.inl (by simp [Event.settles, h]))
    · refine .inl ?_
      simp only [Scheduler.after]
      split
      · exact (List.mem_erase_of_ne (by grind)).mpr he
      · exact he
  | _ => exact .inl he

/-- Every event is as it may be after those before it. -/
def EachAfter (P : List Event → Event → Prop) (events : List Event) : Prop :=
  ∀ pre event post, events = pre ++ event :: post → P pre event

theorem EachAfter.nil (P : List Event → Event → Prop) : EachAfter P [] := by
  intro pre event post h
  simp at h

theorem EachAfter.of_append {P : List Event → Event → Prop} {events more : List Event}
    (h : EachAfter P (events ++ more)) : EachAfter P events := by
  rintro pre event post rfl
  exact h pre event (post ++ more) (by simp)

theorem EachAfter.snoc {P : List Event → Event → Prop} {events : List Event} {event : Event}
    (h : EachAfter P events) (hevent : P events event) : EachAfter P (events ++ [event]) := by
  intro pre event' post hsplit
  rcases List.eq_nil_or_concat post with rfl | ⟨post, last, rfl⟩
  · obtain ⟨rfl, heq⟩ := List.append_inj' hsplit rfl
    obtain rfl := List.singleton_inj.mp heq
    exact hevent
  · have hsplit : events ++ [event] = (pre ++ event' :: post) ++ [last] := by
      simpa using hsplit
    obtain ⟨rfl, -⟩ := List.append_inj' hsplit rfl
    exact h pre event' post rfl

theorem EachAfter.append {P : List Event → Event → Prop} {events more : List Event}
    (h : EachAfter P events) (hmore : ∀ pre, ∀ event ∈ more, P pre event) :
    EachAfter P (events ++ more) := by
  induction more using List.reverseRecOn with
  | nil => simpa using h
  | append_singleton more event ih =>
    rw [← List.append_assoc]
    exact (ih fun pre event' hmem => hmore pre event' (by simp [hmem])).snoc
      (hmore _ event (by simp))

/-- A batch tells what was left of the one before. -/
def TellsLeft (events : List Event) (event : Event) : Prop :=
  ∀ s left, event = .began s left → left = (replay s events).running

/-- An element that was to be updated still is, or has been dealt with, or lost its place. -/
theorem mem_running_replay {s : SchedulerId} {e : ElementId} {events more : List Event}
    (h : EachAfter TellsLeft (events ++ more)) (he : e ∈ (replay s events).running) :
    e ∈ (replay s (events ++ more)).running ∨
      ∃ event ∈ more, event.settles s e = true ∨ event.overruns s e = true := by
  induction more using List.reverseRecOn with
  | nil => exact .inl (by simpa using he)
  | append_singleton more event ih =>
    rw [← List.append_assoc] at h
    rcases ih h.of_append with hmem | ⟨event', hmem, hevent'⟩
    · rw [← List.append_assoc, replay_snoc]
      refine (mem_running_after (fun left heq => ?_) hmem).imp_right fun hevent => ?_
      · exact h _ event [] rfl s left heq
      · exact ⟨event, by simp, hevent⟩
    · exact .inr ⟨event', by simp [hmem], hevent'⟩

/-- Whether an event begins a batch of a scheduler. -/
def Event.begins (s : SchedulerId) : Event → Bool
  | .began s' _ => s' = s
  | _ => false

/-- Until the next batch begins, the elements of the one in progress only get fewer, and in
order. -/
theorem running_after_sublist {s : SchedulerId} {event : Event} (hbegins : event.begins s = false)
    (x : Scheduler) : (x.after s event).running.Sublist x.running := by
  cases event with
  | withdrawn s' e =>
    simp only [Scheduler.after]
    split
    · exact List.filter_sublist
    · exact .refl _
  | turn s' e | skipped s' e =>
    simp only [Scheduler.after]
    split
    · exact List.erase_sublist
    · exact .refl _
  | requested s' e r | closed s' =>
    simp only [Scheduler.after]
    split <;> exact .refl _
  | began s' left =>
    have hs : ¬ s' = s := by simpa [Event.begins] using hbegins
    simp only [Scheduler.after, if_neg hs, List.Sublist.refl]
  | _ => exact .refl _

theorem running_replay_sublist {s : SchedulerId} (events : List Event) {more : List Event}
    (hbegins : ∀ event ∈ more, event.begins s = false) :
    (replay s (events ++ more)).running.Sublist (replay s events).running := by
  induction more using List.reverseRecOn with
  | nil => simp
  | append_singleton more event ih =>
    rw [← List.append_assoc, replay_snoc]
    exact (running_after_sublist (hbegins event (by simp)) _).trans
      (ih fun event' hmem => hbegins event' (by simp [hmem]))

theorem nodup_running_replay (s : SchedulerId) (events : List Event) :
    (replay s events).running.Nodup := by
  induction events using List.reverseRecOn with
  | nil => exact List.nodup_nil
  | append_singleton events event ih =>
    rw [replay_snoc]
    by_cases hbegins : event.begins s = true
    · cases event <;> simp_all [Event.begins, Scheduler.after, replay_pending, nodup_openRequests]
    · exact ih.sublist (running_after_sublist (by simpa using hbegins) _)

/-- An event that settles the update of an element takes it out of the batch in progress. -/
theorem not_mem_running_of_settles {s : SchedulerId} {e : ElementId} {x : Scheduler}
    (hnodup : x.running.Nodup) {event : Event} (h : event.settles s e = true) :
    e ∉ (x.after s event).running := by
  cases event <;> simp_all [Event.settles, Scheduler.after, hnodup.mem_erase_iff]

/-- An element in a batch in progress was taken over when it began, and nothing has become of it
since. -/
theorem taken_of_mem_running {s : SchedulerId} {e : ElementId} {events : List Event}
    (he : e ∈ (replay s events).running) :
    ∃ before left between, events = before ++ .began s left :: between ∧
      e ∈ openRequests s before ∧
      ∀ event ∈ between, event.settles s e = false ∧ event.begins s = false := by
  induction events using List.reverseRecOn with
  | nil => simp [replay, Scheduler.idle] at he
  | append_singleton events event ih =>
    rw [replay_snoc] at he
    by_cases hbegins : event.begins s = true
    · cases event with
      | began s' left =>
        obtain rfl : s' = s := by simpa [Event.begins] using hbegins
        refine ⟨events, left, [], rfl, ?_, by simp⟩
        simpa [Scheduler.after, replay_pending] using he
      | _ => cases hbegins
    · have hbegins : event.begins s = false := by simpa using hbegins
      have hsettles : event.settles s e = false := by
        by_contra h
        exact not_mem_running_of_settles (nodup_running_replay s events) (by simpa using h) he
      obtain ⟨before, left, between, rfl, hopen, hbetween⟩ :=
        ih ((running_after_sublist hbegins _).subset he)
      refine ⟨before, left, between ++ [event], by simp, hopen, fun event' hmem => ?_⟩
      rcases List.mem_append.mp hmem with hmem | hmem
      · exact hbetween event' hmem
      · obtain rfl := List.mem_singleton.mp hmem
        exact ⟨hsettles, hbegins⟩

/-! ### Receivers in the journal -/

/-- The receiver that an event hands out. -/
def Event.receiver? : Event → Option ReceiverId
  | .requested _ _ r => some r
  | _ => none

/-- The receivers that events hand out, in order. -/
def receiversOf (events : List Event) : List ReceiverId := events.filterMap Event.receiver?

theorem mem_receiversOf {r : ReceiverId} {events : List Event} :
    r ∈ receiversOf events ↔ ∃ s e, .requested s e r ∈ events := by
  simp only [receiversOf, List.mem_filterMap]
  constructor
  · rintro ⟨event, hmem, hr⟩
    cases event with
    | requested s e r' =>
      cases hr
      exact ⟨s, e, hmem⟩
    | _ => cases hr
  · rintro ⟨s, e, hmem⟩
    exact ⟨_, hmem, rfl⟩

theorem receiversOf_append (events more : List Event) :
    receiversOf (events ++ more) = receiversOf events ++ receiversOf more :=
  List.filterMap_append

/-- Receivers wait in the order in which they were handed out. -/
theorem openReceivers_sublist (s : SchedulerId) (events : List Event) :
    (openReceivers s events).Sublist (receiversOf events) := by
  fun_induction openReceivers s events with
  | case1 => exact .refl _
  | case2 s' e r rest _ ih => exact ih.cons_cons r
  | case3 s' e r rest _ ih => exact ih.cons r
  | case4 event rest hother ih =>
    have hnone : event.receiver? = none := by
      cases event with
      | requested s' e r => exact (hother s' e r rfl).elim
      | _ => rfl
    simpa [receiversOf, hnone] using ih

/-- A receiver that is not handed out twice belongs to one request. -/
theorem requested_unique {events pre pre' post post' : List Event} {s s' : SchedulerId}
    {e e' : ElementId} {r : ReceiverId} (honce : (receiversOf events).Nodup)
    (h : events = pre ++ .requested s e r :: post)
    (h' : events = pre' ++ .requested s' e' r :: post') :
    pre = pre' ∧ s = s' ∧ e = e' ∧ post = post' := by
  -- two different places of the same receiver would be two occurrences
  have twice {a b c : List Event} {s s' : SchedulerId} {e e' : ElementId}
      (h : events = a ++ .requested s e r :: b ++ .requested s' e' r :: c) : False := by
    rw [h, receiversOf_append, receiversOf_append] at honce
    simp [receiversOf, Event.receiver?, List.nodup_append] at honce
  rcases List.append_eq_append_iff.mp (h.symm.trans h') with ⟨c, hpre, hpost⟩ | ⟨c, hpre, hpost⟩
  · cases c with
    | nil =>
      simp only [List.nil_append, List.cons.injEq, Event.requested.injEq] at hpost
      exact ⟨by simpa using hpre.symm, hpost.1.1, hpost.1.2.1, hpost.2⟩
    | cons event c =>
      obtain ⟨rfl, rfl⟩ := List.cons.inj hpost
      exact (twice (a := pre) (b := c) (by simpa using h)).elim
  · cases c with
    | nil =>
      simp only [List.nil_append, List.cons.injEq, Event.requested.injEq] at hpost
      exact ⟨by simpa using hpre, hpost.1.1.symm, hpost.1.2.1.symm, hpost.2.symm⟩
    | cons event c =>
      obtain ⟨rfl, rfl⟩ := List.cons.inj hpost
      exact (twice (a := pre') (b := c) (by simpa using h')).elim

/-- A receiver that is not handed out twice belongs to one scheduler. -/
theorem scheduler_unique {events : List Event} {s s' : SchedulerId} {e e' : ElementId}
    {r : ReceiverId} (honce : (receiversOf events).Nodup) (h : .requested s e r ∈ events)
    (h' : .requested s' e' r ∈ events) : s = s' := by
  obtain ⟨pre, post, hsplit⟩ := List.append_of_mem h
  obtain ⟨pre', post', hsplit'⟩ := List.append_of_mem h'
  exact (requested_unique honce hsplit hsplit').2.1

/-! ### Worlds that agree with their journal -/

/-- What is known of a scheduler apart from its frame. -/
def Scheduler.unframed (x : Scheduler) : Scheduler := { x with frame := false }

namespace World

/-- What has happened, first to last. -/
def history (w : World σ) : List Event := w.journal.toList

/-- A scheduler; at a row that was never given out it has nothing to do. -/
def scheduler (w : World σ) (s : SchedulerId) : Scheduler :=
  (w.schedulers.get? s.row).getD .idle

/-- The world agrees with its journal. -/
structure Recorded (w : World σ) : Prop where
  /-- The schedulers are what the events have made of them. -/
  scheduler : ∀ s, (w.scheduler s).unframed = replay s w.history
  /-- Every batch has told what was left of the one before. -/
  consistent : EachAfter TellsLeft w.history
  /-- Receivers that have been handed out have rows. -/
  given : ∀ r ∈ receiversOf w.history, r.row < w.receivers.size
  /-- No receiver has been handed out twice. -/
  once : (receiversOf w.history).Nodup
  /-- A receiver waits, or nobody is listening, or it has been told something. -/
  states : ∀ r ∈ receiversOf w.history, w.receivers.get? r.row = some .pending ∨
    w.receivers.get? r.row = some .dropped ∨ ∃ state, .resolved r state ∈ w.history

@[simp] theorem history_empty (level : Level) (host : σ) : (empty level host).history = [] := rfl

@[simp] theorem history_record (w : World σ) (event : Event) :
    (w.record event).history = w.history ++ [event] := Array.toList_push

@[simp] theorem scheduler_record (w : World σ) (event : Event) (s : SchedulerId) :
    (w.record event).scheduler s = w.scheduler s := rfl

@[simp] theorem history_updateScheduler (w : World σ) (s : SchedulerId)
    (f : Scheduler → Scheduler) : (w.updateScheduler s f).history = w.history := by
  unfold updateScheduler
  split <;> rfl

@[simp] theorem receivers_updateScheduler (w : World σ) (s : SchedulerId)
    (f : Scheduler → Scheduler) : (w.updateScheduler s f).receivers = w.receivers := by
  unfold updateScheduler
  split <;> rfl

theorem scheduler_updateScheduler_of_ne (w : World σ) {s s' : SchedulerId} (h : s' ≠ s)
    (f : Scheduler → Scheduler) : (w.updateScheduler s f).scheduler s' = w.scheduler s' := by
  unfold updateScheduler
  split
  · have hrow : s.row ≠ s'.row := fun hrow => h (by cases s; cases s'; simp_all)
    simp only [scheduler, Table.get?_set_of_ne _ _ hrow]
  · rfl

theorem scheduler_updateScheduler_self (w : World σ) (s : SchedulerId)
    {f : Scheduler → Scheduler} (h : (w.schedulers.get? s.row).isSome ∨ f .idle = .idle) :
    (w.updateScheduler s f).scheduler s = f (w.scheduler s) := by
  unfold updateScheduler
  split
  case h_1 x hx =>
    have hsize : s.row < w.schedulers.size := by
      simp only [Table.get?, Table.size] at hx ⊢
      exact (Array.getElem?_eq_some_iff.mp hx).1
    simp only [scheduler, Table.get?_set_self _ _ hsize, hx, Option.getD_some]
  case h_2 hx =>
    simp only [hx, Option.isSome_none, Bool.false_eq_true, false_or] at h
    simp [scheduler, hx, h]

/-- A new scheduler has nothing to do, as one that was never given out. -/
theorem scheduler_newScheduler (w : World σ) (s : SchedulerId) :
    ({ w with schedulers := w.schedulers.add .idle } : World σ).scheduler s = w.scheduler s := by
  simp only [scheduler]
  rcases Nat.lt_trichotomy s.row w.schedulers.size with hlt | heq | hgt
  · rw [Table.get?_add_old _ _ hlt]
  · rw [heq, Table.get?_add_new]
    simp [Table.get?, Table.size]
  · have hold : w.schedulers.get? s.row = none := Array.getElem?_eq_none (Nat.le_of_lt hgt)
    have hnew : (w.schedulers.add .idle).get? s.row = none :=
      Array.getElem?_eq_none (by simpa [Table.add, Table.size] using Nat.succ_le_of_lt hgt)
    rw [hold, hnew]

/-! ### Worlds after an operation -/

/-- The world in which one more receiver has been handed out. -/
def handOut (w : World σ) : World σ := { w with receivers := w.receivers.add .pending }

/-- The world in which the update of an element has been requested. -/
def afterRequest (w : World σ) (s : SchedulerId) (e : ElementId) : World σ :=
  (w.handOut.updateScheduler s fun x =>
    { x with
      pending := Act.enlist x.pending e
      waiters := x.waiters ++ [⟨w.receivers.size⟩] }).record (.requested s e ⟨w.receivers.size⟩)

/-- The world in which the requests of an element have been withdrawn. -/
def afterCancel (w : World σ) (s : SchedulerId) (e : ElementId) : World σ :=
  (w.updateScheduler s fun x =>
    { x with
      pending := x.pending.filter (· ≠ e)
      running := x.running.filter (· ≠ e) }).record (.withdrawn s e)

/-- The world in which a batch has taken the requests over. -/
def afterBegin (w : World σ) (s : SchedulerId) : World σ :=
  (w.updateScheduler s fun x =>
    { x with
      pending := []
      waiters := []
      running := x.pending }).record (.began s (w.scheduler s).running)

/-- The world in which a scheduler has been given up. -/
def afterClose (w : World σ) (s : SchedulerId) : World σ :=
  (w.updateScheduler s fun x => { x with pending := [], waiters := [] }).record (.closed s)

/-- The world in which the first element of a batch in progress has been taken out of it. -/
def popped (w : World σ) (s : SchedulerId) : World σ :=
  w.updateScheduler s fun x => { x with running := x.running.tail }

/-- The world in which a receiver has been told something. -/
def afterTell (w : World σ) (r : ReceiverId) (state : ReceiverState) : World σ :=
  { w with receivers := w.receivers.set r.row state }.record (.resolved r state)

/-- The world in which receivers have been told something, those that still listen. -/
def afterTells (state : ReceiverState) : List ReceiverId → World σ → World σ
  | [], w => w
  | r :: rest, w =>
    if w.receivers.get? r.row = some .pending then afterTells state rest (w.afterTell r state)
    else afterTells state rest w

@[simp] theorem history_handOut (w : World σ) : w.handOut.history = w.history := rfl

@[simp] theorem history_afterRequest (w : World σ) (s : SchedulerId) (e : ElementId) :
    (w.afterRequest s e).history = w.history ++ [.requested s e ⟨w.receivers.size⟩] := by
  simp [afterRequest]

@[simp] theorem history_afterCancel (w : World σ) (s : SchedulerId) (e : ElementId) :
    (w.afterCancel s e).history = w.history ++ [.withdrawn s e] := by
  simp [afterCancel]

@[simp] theorem history_afterBegin (w : World σ) (s : SchedulerId) :
    (w.afterBegin s).history = w.history ++ [.began s (w.scheduler s).running] := by
  simp [afterBegin]

theorem running_afterBegin (w : World σ) (s : SchedulerId) :
    ((w.afterBegin s).scheduler s).running = (w.scheduler s).pending := by
  rw [afterBegin, scheduler_record, scheduler_updateScheduler_self w s (.inr rfl)]

theorem scheduler_afterBegin_of_ne (w : World σ) {s s' : SchedulerId} (h : s' ≠ s) :
    (w.afterBegin s).scheduler s' = w.scheduler s' :=
  scheduler_updateScheduler_of_ne w h _

@[simp] theorem history_afterClose (w : World σ) (s : SchedulerId) :
    (w.afterClose s).history = w.history ++ [.closed s] := by
  simp [afterClose]

@[simp] theorem history_popped (w : World σ) (s : SchedulerId) :
    (w.popped s).history = w.history := by
  simp [popped]

theorem running_popped (w : World σ) (s : SchedulerId) :
    ((w.popped s).scheduler s).running = (w.scheduler s).running.tail := by
  rw [popped, scheduler_updateScheduler_self w s (.inr rfl)]

@[simp] theorem history_afterTell (w : World σ) (r : ReceiverId) (state : ReceiverState) :
    (w.afterTell r state).history = w.history ++ [.resolved r state] := history_record _ _

@[simp] theorem scheduler_afterTell (w : World σ) (r : ReceiverId) (state : ReceiverState)
    (s : SchedulerId) : (w.afterTell r state).scheduler s = w.scheduler s := rfl

@[simp] theorem scheduler_afterTells (state : ReceiverState) (rs : List ReceiverId)
    (w : World σ) (s : SchedulerId) : (w.afterTells state rs).scheduler s = w.scheduler s := by
  induction rs generalizing w with
  | nil => rfl
  | cons r rest ih =>
    unfold afterTells
    split <;> simp [ih]

theorem receivers_afterTell_of_ne (w : World σ) {r r' : ReceiverId} (h : r ≠ r')
    (state : ReceiverState) :
    (w.afterTell r state).receivers.get? r'.row = w.receivers.get? r'.row := by
  refine Table.get?_set_of_ne _ _ fun hrow => h ?_
  cases r
  cases r'
  exact congrArg ReceiverId.mk hrow

theorem receivers_afterTells_of_not_mem {rs : List ReceiverId} {r : ReceiverId} (h : r ∉ rs)
    (state : ReceiverState) (w : World σ) :
    (w.afterTells state rs).receivers.get? r.row = w.receivers.get? r.row := by
  induction rs generalizing w with
  | nil => rfl
  | cons r' rest ih =>
    rw [List.mem_cons, not_or] at h
    unfold afterTells
    split
    · rw [ih h.2, receivers_afterTell_of_ne w (Ne.symm h.1)]
    · exact ih h.2 w

/-- Each receiver that listens is told, in order. -/
theorem history_afterTells {rs : List ReceiverId} (hnodup : rs.Nodup) (state : ReceiverState)
    (w : World σ) :
    (w.afterTells state rs).history = w.history ++
      (rs.filter fun r => w.receivers.get? r.row = some .pending).map (.resolved · state) := by
  induction rs generalizing w with
  | nil => simp [afterTells]
  | cons r rest ih =>
    obtain ⟨hr, hrest⟩ := List.nodup_cons.mp hnodup
    unfold afterTells
    split
    case isTrue hpending =>
      rw [ih hrest, history_afterTell, List.filter_cons_of_pos (by simpa using hpending)]
      have hcongr : (rest.filter fun r' => (w.afterTell r state).receivers.get? r'.row =
          some .pending) = rest.filter fun r' => w.receivers.get? r'.row = some .pending :=
        List.filter_congr fun r' hr' => by
          have hne : r ≠ r' := fun heq => hr (heq ▸ hr')
          rw [receivers_afterTell_of_ne w hne]
      simp [hcongr]
    case isFalse hpending =>
      rw [ih hrest, List.filter_cons_of_neg (by simpa using hpending)]

theorem receivers_afterTells {rs : List ReceiverId} (hnodup : rs.Nodup) {r : ReceiverId}
    (hr : r ∈ rs) (state : ReceiverState) {w : World σ}
    (hpending : w.receivers.get? r.row = some .pending) :
    (w.afterTells state rs).receivers.get? r.row = some state := by
  induction rs generalizing w with
  | nil => cases hr
  | cons r' rest ih =>
    obtain ⟨hr', hrest⟩ := List.nodup_cons.mp hnodup
    unfold afterTells
    rcases List.mem_cons.mp hr with rfl | hr
    · have hrow : r.row < w.receivers.size := (Array.getElem?_eq_some_iff.mp hpending).1
      rw [if_pos hpending, receivers_afterTells_of_not_mem hr']
      exact Table.get?_set_self _ _ hrow
    · split
      · have hne : r' ≠ r := fun heq => hr' (heq ▸ hr)
        refine ih hrest hr ?_
        rw [receivers_afterTell_of_ne w hne]
        exact hpending
      · exact ih hrest hr hpending

/-! ### Agreement with the journal -/

theorem Recorded.empty (level : Level) (host : σ) : (World.empty level host).Recorded where
  scheduler s := by simp [World.scheduler, World.empty, Table.get?, Table.empty, replay]; rfl
  consistent := .nil _
  given r h := by simp [receiversOf] at h
  once := by simp [receiversOf]
  states r h := by simp [receiversOf] at h

namespace Recorded

variable {w w' : World σ}

theorem pending_eq (h : w.Recorded) (s : SchedulerId) :
    (w.scheduler s).pending = openRequests s w.history := by
  rw [← replay_pending, ← h.scheduler]
  rfl

theorem waiters_eq (h : w.Recorded) (s : SchedulerId) :
    (w.scheduler s).waiters = openReceivers s w.history := by
  rw [← replay_waiters, ← h.scheduler]
  rfl

theorem running_eq (h : w.Recorded) (s : SchedulerId) :
    (w.scheduler s).running = (replay s w.history).running := by
  rw [← h.scheduler]
  rfl

/-- Nothing that the journal has to tell has happened. -/
theorem unchanged (h : w.Recorded)
    (hscheduler : ∀ s, (w'.scheduler s).unframed = (w.scheduler s).unframed)
    (hhistory : w'.history = w.history) (hsize : w.receivers.size ≤ w'.receivers.size)
    (hstates : ∀ row < w.receivers.size, w'.receivers.get? row = w.receivers.get? row ∨
      w'.receivers.get? row = some .dropped) : w'.Recorded where
  scheduler s := by rw [hscheduler, h.scheduler, hhistory]
  consistent := by rw [hhistory]; exact h.consistent
  given r hr := by
    rw [hhistory] at hr
    exact Nat.lt_of_lt_of_le (h.given r hr) hsize
  once := by rw [hhistory]; exact h.once
  states r hr := by
    rw [hhistory] at hr ⊢
    rcases hstates r.row (h.given r hr) with heq | hdropped
    · rw [heq]
      exact h.states r hr
    · exact .inr (.inl hdropped)

/-- One event has happened. -/
theorem event (h : w.Recorded) (event : Event) (hhistory : w'.history = w.history ++ [event])
    (hscheduler : ∀ s, (w'.scheduler s).unframed = (w.scheduler s).unframed.after s event)
    (hbegan : ∀ s left, event = .began s left → left = (w.scheduler s).running)
    (hsize : w.receivers.size ≤ w'.receivers.size)
    (hgiven : ∀ r, event.receiver? = some r →
      w.receivers.size ≤ r.row ∧ r.row < w'.receivers.size ∧
        w'.receivers.get? r.row = some .pending)
    (hstates : ∀ r : ReceiverId, r.row < w.receivers.size →
      w'.receivers.get? r.row = w.receivers.get? r.row ∨ ∃ state, event = .resolved r state) :
    w'.Recorded where
  scheduler s := by rw [hscheduler, h.scheduler, hhistory, replay_snoc]
  consistent := by
    rw [hhistory]
    exact h.consistent.snoc fun s left heq => by rw [hbegan s left heq, h.running_eq]
  given r hr := by
    rw [hhistory, receiversOf_append, List.mem_append] at hr
    rcases hr with hr | hr
    · exact Nat.lt_of_lt_of_le (h.given r hr) hsize
    · exact (hgiven r (by simpa [receiversOf] using hr)).2.1
  once := by
    rw [hhistory, receiversOf_append]
    refine List.nodup_append.mpr ⟨h.once, ?_, ?_⟩
    · cases hr : event.receiver? <;> simp [receiversOf, hr]
    · rintro r hr r' hr' rfl
      have hnew := hgiven r (by simpa [receiversOf] using hr')
      have hold := h.given r hr
      omega
  states r hr := by
    rw [hhistory, receiversOf_append, List.mem_append] at hr
    rcases hr with hr | hr
    · rcases hstates r (h.given r hr) with heq | ⟨state, rfl⟩
      · rw [heq, hhistory]
        rcases h.states r hr with hpending | hdropped | ⟨state, hmem⟩
        · exact .inl hpending
        · exact .inr (.inl hdropped)
        · exact .inr (.inr ⟨state, List.mem_append_left _ hmem⟩)
      · exact .inr (.inr ⟨state, by simp [hhistory]⟩)
    · exact .inl (hgiven r (by simpa [receiversOf] using hr)).2.2

/-- A scheduler has changed as an event tells. -/
theorem update (h : w.Recorded) {s : SchedulerId} {f : Scheduler → Scheduler} {event : Event}
    (hexists : (w.schedulers.get? s.row).isSome ∨ f .idle = .idle)
    (hself : (f (w.scheduler s)).unframed = (w.scheduler s).unframed.after s event)
    (hother : ∀ s' ≠ s, ∀ x : Scheduler, x.after s' event = x)
    (hbegan : ∀ s left, event = .began s left → left = (w.scheduler s).running)
    (hgiven : event.receiver? = none) : ((w.updateScheduler s f).record event).Recorded := by
  refine h.event event (by simp) (fun s' => ?_) hbegan (by simp [World.record]) (by simp [hgiven])
    fun r _ => .inl (by simp [World.record])
  by_cases hs : s' = s
  · subst hs
    rw [scheduler_record, scheduler_updateScheduler_self w s' hexists, hself]
  · rw [scheduler_record, scheduler_updateScheduler_of_ne w hs, hother s' hs]

/-- An event has been recorded that changes no scheduler. -/
theorem record (h : w.Recorded) {event : Event} (hafter : ∀ s (x : Scheduler), x.after s event = x)
    (hbegan : ∀ s left, event ≠ .began s left) (hgiven : event.receiver? = none) :
    (w.record event).Recorded :=
  h.event event (by simp) (fun s => (hafter s _).symm) (fun s left heq => (hbegan s left heq).elim)
    (by simp [World.record]) (by simp [hgiven]) fun _ _ => .inl rfl

/-! ### Operations of schedulers -/

theorem newScheduler (h : w.Recorded) :
    ({ w with schedulers := w.schedulers.add .idle } : World σ).Recorded :=
  h.unchanged (fun s => congrArg Scheduler.unframed (scheduler_newScheduler w s)) rfl
    (Nat.le_refl _) fun _ _ => .inl rfl

/-- Whether a frame has been asked for is not in the journal. -/
theorem framed (h : w.Recorded) (s : SchedulerId) (frame : Bool) :
    (w.updateScheduler s ({ · with frame })).Recorded := by
  refine h.unchanged (fun s' => ?_) (by simp) (by simp) fun _ _ => .inl (by simp)
  by_cases hs : s' = s
  · subst hs
    by_cases hexists : (w.schedulers.get? s'.row).isSome
    · rw [scheduler_updateScheduler_self w s' (.inl hexists)]
      rfl
    · simp only [Option.not_isSome_iff_eq_none] at hexists
      simp [World.updateScheduler, hexists]
  · rw [scheduler_updateScheduler_of_ne w hs]

theorem handOut (h : w.Recorded) : w.handOut.Recorded :=
  h.unchanged (fun _ => rfl) rfl (by simp [World.handOut])
    fun _ hrow => .inl (Table.get?_add_old _ _ hrow)

theorem dropReceiver (h : w.Recorded) (r : ReceiverId) :
    ({ w with receivers := w.receivers.set r.row .dropped } : World σ).Recorded := by
  refine h.unchanged (fun _ => rfl) rfl (by simp) fun row hrow => ?_
  by_cases heq : r.row = row
  · subst heq
    exact .inr (Table.get?_set_self _ _ hrow)
  · exact .inl (Table.get?_set_of_ne _ _ heq)

theorem afterRequest (h : w.Recorded) {s : SchedulerId} (e : ElementId)
    (hexists : (w.schedulers.get? s.row).isSome) : (w.afterRequest s e).Recorded := by
  have hreceivers : (w.afterRequest s e).receivers = w.receivers.add .pending := by
    simp [World.afterRequest, World.record, World.handOut]
  refine h.event (.requested s e ⟨w.receivers.size⟩) (by simp) (fun s' => ?_) (by simp)
    (by simp [hreceivers]) ?_ fun r hrow => .inl ?_
  · by_cases hs : s' = s
    · subst hs
      rw [World.afterRequest, scheduler_record,
        scheduler_updateScheduler_self w.handOut s' (.inl hexists)]
      simp only [Scheduler.after, if_pos]
      rfl
    · rw [World.afterRequest, scheduler_record, scheduler_updateScheduler_of_ne _ hs]
      simp only [Scheduler.after, if_neg (Ne.symm hs)]
      rfl
  · rintro r hr
    cases hr
    rw [hreceivers]
    exact ⟨Nat.le_refl _, by simp, Table.get?_add_new _ _⟩
  · rw [hreceivers]
    exact Table.get?_add_old _ _ hrow

theorem afterCancel (h : w.Recorded) (s : SchedulerId) (e : ElementId) :
    (w.afterCancel s e).Recorded :=
  h.update (.inr rfl) (by simp [Scheduler.after, Scheduler.unframed])
    (fun s' hs x => by simp [Scheduler.after, Ne.symm hs]) (by simp) rfl

theorem afterBegin (h : w.Recorded) (s : SchedulerId) : (w.afterBegin s).Recorded :=
  h.update (.inr rfl) (by simp [Scheduler.after, Scheduler.unframed])
    (fun s' hs x => by simp [Scheduler.after, Ne.symm hs])
    (fun s' left heq => by cases heq; rfl) rfl

theorem afterClose (h : w.Recorded) (s : SchedulerId) : (w.afterClose s).Recorded :=
  h.update (.inr rfl) (by simp [Scheduler.after, Scheduler.unframed])
    (fun s' hs x => by simp [Scheduler.after, Ne.symm hs]) (by simp) rfl

theorem turn (h : w.Recorded) {s : SchedulerId} {e : ElementId} {rest : List ElementId}
    (hrunning : (w.scheduler s).running = e :: rest) :
    ((w.popped s).record (.turn s e)).Recorded :=
  h.update (.inr rfl) (by simp [Scheduler.after, Scheduler.unframed, hrunning])
    (fun s' hs x => by simp [Scheduler.after, Ne.symm hs]) (by simp) rfl

theorem skipped (h : w.Recorded) {s : SchedulerId} {e : ElementId} {rest : List ElementId}
    (hrunning : (w.scheduler s).running = e :: rest) :
    ((w.popped s).record (.skipped s e)).Recorded :=
  h.update (.inr rfl) (by simp [Scheduler.after, Scheduler.unframed, hrunning])
    (fun s' hs x => by simp [Scheduler.after, Ne.symm hs]) (by simp) rfl

theorem afterTell (h : w.Recorded) (r : ReceiverId) (state : ReceiverState) :
    (w.afterTell r state).Recorded := by
  refine h.event (.resolved r state) (by simp) (fun s => rfl) (by simp)
    (by simp [World.afterTell, World.record]) (fun _ hr => by cases hr) fun r' _ => ?_
  by_cases hr : r = r'
  · exact .inr ⟨state, by rw [hr]⟩
  · exact .inl (receivers_afterTell_of_ne w hr state)

theorem afterTells (h : w.Recorded) (state : ReceiverState) (rs : List ReceiverId) :
    (w.afterTells state rs).Recorded := by
  induction rs generalizing w with
  | nil => exact h
  | cons r rest ih =>
    unfold World.afterTells
    split
    · exact ih (h.afterTell r state)
    · exact ih h

end Recorded

end World

/-- Changes that have nothing to do with schedulers leave the world in agreement with its
journal. -/
theorem Change.recorded {w w' : World σ} (hchange : Change w w') (h : w.Recorded) :
    w'.Recorded := by
  have hscheduler (s : SchedulerId) : w'.scheduler s = w.scheduler s := by
    simp only [World.scheduler, hchange.schedulers_eq]
  have hsize : w.receivers.size ≤ w'.receivers.size := by simp [hchange.receivers_eq]
  rcases hchange.journal_eq with hjournal | ⟨event, hquiet, hjournal⟩
  · exact h.unchanged (fun s => by rw [hscheduler]) (by simp [World.history, hjournal]) hsize
      fun _ _ => .inl (by rw [hchange.receivers_eq])
  · refine h.event event (by simp [World.history, hjournal]) (fun s => ?_) ?_ hsize ?_
      fun _ _ => .inl (by rw [hchange.receivers_eq])
    · rw [hscheduler, Scheduler.after_quiet s _ hquiet]
    · rintro s left rfl
      cases hquiet
    · intro r hr
      cases event <;> cases hquiet <;> cases hr

end ReactiveViews
