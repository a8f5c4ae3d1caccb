import ReactiveViews.Proofs.Live.Overrun
import ReactiveViews.Proofs.Live.Journal

/-!
# What becomes of receivers

A batch takes over the receivers that were waiting and tells them when its last turn is over. In
between they are *in flight*: they wait for no batch, and nobody has told them anything. If the
batch never got to its end, nobody ever would.

## What is proved

Whatever a host program does, an act that answers leaves no more receivers in flight than there
were before, and an act that is given up leaves more of them only in the middle of a turn
(`Host.delivering`). So while no turn of a scheduler is in progress, each receiver that it has
handed out waits for the next batch, or has been told that its batch is over or that the scheduler
is gone, or has been dropped (`Host.landed`,
`World.Landed.waits_or_heard`).
-/

namespace ReactiveViews

variable {σ α : Type}

/-! ### Turns in progress -/

/-- Whether an event begins the turn of an element in a batch. -/
def Event.opens (s : SchedulerId) : Event → Bool
  | .turn s' _ => s' = s
  | _ => false

/-- Whether an event ends the turn of an element in a batch. -/
def Event.shuts (s : SchedulerId) : Event → Bool
  | .served s' _ _ => s' = s
  | _ => false

/-- How many turns of a scheduler are in progress. -/
def openTurns (s : SchedulerId) (events : List Event) : Int :=
  (events.countP (·.opens s) : Int) - events.countP (·.shuts s)

theorem openTurns_snoc (s : SchedulerId) (events : List Event) (event : Event) :
    openTurns s (events ++ [event]) = openTurns s events +
      (if event.opens s = true then 1 else 0) - if event.shuts s = true then 1 else 0 := by
  simp only [openTurns, List.countP_append, List.countP_singleton]
  split <;> split <;> omega

/-- Events that neither begin nor end a turn or a batch, and tell nobody anything. -/
def Event.isAside : Event → Bool
  | .turn .. | .served .. | .began .. | .closed _ | .resolved .. => false
  | _ => true

theorem openTurns_append (s : SchedulerId) (events : List Event) {more : List Event}
    (hmore : ∀ event ∈ more, event.opens s = false ∧ event.shuts s = false) :
    openTurns s (events ++ more) = openTurns s events := by
  have hopens : more.countP (·.opens s) = 0 :=
    List.countP_eq_zero.mpr fun event hmem => by simp [(hmore event hmem).1]
  have hshuts : more.countP (·.shuts s) = 0 :=
    List.countP_eq_zero.mpr fun event hmem => by simp [(hmore event hmem).2]
  simp only [openTurns, List.countP_append, hopens, hshuts, Nat.add_zero]

/-! ### Receivers in flight -/

/-- A receiver of a scheduler that waits for no batch and has heard nothing, though somebody
listens. -/
structure World.InFlight (w : World σ) (s : SchedulerId) (r : ReceiverId) : Prop where
  /-- It has been handed out. -/
  requested : ∃ e, .requested s e r ∈ w.history
  /-- It does not wait any more. -/
  taken : r ∉ openReceivers s w.history
  /-- It has not been told anything. -/
  pending : w.receivers.get? r.row = some .pending

/-- Receivers go on waiting, and new ones wait, as long as no batch begins. -/
theorem openReceivers_append (s : SchedulerId) (events : List Event) {more : List Event}
    (hmore : ∀ event ∈ more, event.empties s = false) :
    (∀ r ∈ openReceivers s events, r ∈ openReceivers s (events ++ more)) ∧
      ∀ e r, .requested s e r ∈ more → r ∈ openReceivers s (events ++ more) := by
  induction more using List.reverseRecOn with
  | nil => simp
  | append_singleton more event ih =>
    obtain ⟨hold, hnew⟩ := ih fun event' hmem => hmore event' (by simp [hmem])
    have hlast : event.empties s = false := hmore event (by simp)
    rw [← List.append_assoc]
    by_cases hrequested : ∃ e r, event = .requested s e r
    · obtain ⟨e, r, rfl⟩ := hrequested
      rw [openReceivers_requested]
      refine ⟨fun r' hr' => List.mem_append_left _ (hold r' hr'), fun e' r' hmem => ?_⟩
      rcases List.mem_append.mp hmem with hmem | hmem
      · exact List.mem_append_left _ (hnew e' r' hmem)
      · cases List.mem_singleton.mp hmem
        simp
    · rw [openReceivers_other s hlast fun e r heq => hrequested ⟨e, r, heq⟩]
      refine ⟨hold, fun e' r' hmem => ?_⟩
      rcases List.mem_append.mp hmem with hmem | hmem
      · exact hnew e' r' hmem
      · exact (hrequested ⟨e', r', (List.mem_singleton.mp hmem).symm⟩).elim

/-- As long as no batch begins, no receiver takes off. -/
theorem World.InFlight.before {w w' : World σ} {s : SchedulerId} {r : ReceiverId}
    (h : w'.InFlight s r) (hw : w.Recorded) {more : List Event}
    (hhistory : w'.history = w.history ++ more) (hmore : ∀ event ∈ more, event.empties s = false)
    (hstates : ∀ row < w.receivers.size, w'.receivers.get? row = some .pending →
      w.receivers.get? row = some .pending) : w.InFlight s r := by
  obtain ⟨⟨e, hrequested⟩, htaken, hpending⟩ := h
  rw [hhistory] at hrequested htaken
  obtain ⟨hold, hnew⟩ := openReceivers_append s w.history hmore
  rcases List.mem_append.mp hrequested with hmem | hmem
  · refine ⟨⟨e, hmem⟩, fun hr => htaken (hold r hr), hstates _ ?_ hpending⟩
    exact hw.given r (mem_receiversOf.mpr ⟨s, e, hmem⟩)
  · exact (htaken (hnew e r hmem)).elim

/-! ### The effect of acts on receivers -/

/-- Acts that answer leave no receiver in flight, and acts that are given up do so only in the
middle of a turn. -/
structure Delivers (answered : Bool) (w w' : World σ) : Prop where
  /-- The world agrees with its journal. -/
  recorded : w'.Recorded
  /-- No element is taken away. -/
  elements : w.elements.size ≤ w'.elements.size
  /-- No scheduler is taken away. -/
  schedulers : w.schedulers.size ≤ w'.schedulers.size
  /-- Nothing is taken out of the journal. -/
  kept : ∀ event ∈ w.history, event ∈ w'.history
  /-- Receivers are told that their batch is over, or that their scheduler is gone. -/
  told : ∀ r state, .resolved r state ∈ w'.history → .resolved r state ∈ w.history ∨
    state = .done ∨ state = .canceled ∧
      ∃ s e, .requested s e r ∈ w'.history ∧ .closed s ∈ w'.history
  /-- No turn ends that was in progress. -/
  turns : ∀ s, openTurns s w.history ≤ openTurns s w'.history
  /-- After an act that answers, no other turns are in progress than before. -/
  rest : answered = true → ∀ s, openTurns s w'.history = openTurns s w.history
  /-- A receiver that is in flight was so before, unless a turn is in progress. -/
  flight : ∀ s r, w'.InFlight s r → w.InFlight s r ∨ openTurns s w.history < openTurns s w'.history

/-- The effect of everything that can happen. -/
def Delivering : Effect σ := fun answered w w' => w.Recorded → Delivers answered w w'

namespace Delivers

variable {answered : Bool} {u v w w' : World σ}

theorem trans (h : Delivers true u v) (h' : Delivers answered v w) : Delivers answered u w where
  recorded := h'.recorded
  elements := Nat.le_trans h.elements h'.elements
  schedulers := Nat.le_trans h.schedulers h'.schedulers
  kept event hmem := h'.kept event (h.kept event hmem)
  told r state hmem := by
    rcases h'.told r state hmem with hmem | hnew
    · refine (h.told r state hmem).imp_right (.imp_right ?_)
      rintro ⟨hcanceled, s, e, hrequested, hclosed⟩
      exact ⟨hcanceled, s, e, h'.kept _ hrequested, h'.kept _ hclosed⟩
    · exact .inr hnew
  turns s := Int.le_trans (h.turns s) (h'.turns s)
  rest hanswered s := (h'.rest hanswered s).trans (h.rest rfl s)
  flight s r hflight := by
    rw [← h.rest rfl s]
    rcases h'.flight s r hflight with hflight | hturn
    · refine (h.flight s r hflight).imp_right fun hturn => ?_
      rw [h.rest rfl s] at hturn
      exact (Int.lt_irrefl _ hturn).elim
    · exact .inr hturn

/-- A step beside all batches. -/
theorem step (more : List Event) (hw : w.Recorded) (hw' : w'.Recorded)
    (helements : w.elements.size ≤ w'.elements.size)
    (hschedulers : w.schedulers.size ≤ w'.schedulers.size)
    (hhistory : w'.history = w.history ++ more) (hmore : ∀ event ∈ more, event.isAside = true)
    (hstates : ∀ row < w.receivers.size, w'.receivers.get? row = some .pending →
      w.receivers.get? row = some .pending) : Delivers answered w w' := by
  have hturns (s : SchedulerId) : openTurns s w'.history = openTurns s w.history := by
    rw [hhistory]
    refine openTurns_append s _ fun event hmem => ?_
    have haside := hmore event hmem
    cases event <;> first | exact ⟨rfl, rfl⟩ | cases haside
  have hempties (s : SchedulerId) : ∀ event ∈ more, event.empties s = false := by
    intro event hmem
    have haside := hmore event hmem
    cases event <;> first | rfl | cases haside
  refine ⟨hw', helements, hschedulers, fun event hmem => ?_, fun r state hmem => ?_,
    fun s => Int.le_of_eq (hturns s).symm, fun _ => hturns, fun s r hflight => ?_⟩
  · exact hhistory ▸ List.mem_append_left _ hmem
  · rw [hhistory] at hmem
    rcases List.mem_append.mp hmem with hmem | hmem
    · exact .inl hmem
    · cases hmore _ hmem
  · exact .inl (hflight.before hw hhistory (hempties s) hstates)

end Delivers

theorem Delivering.trans {answered : Bool} {u v w : World σ} (h : Delivering true u v)
    (h' : Delivering answered v w) : Delivering answered u w :=
  fun hu => (h hu).trans (h' (h hu).recorded)

theorem World.size_updateScheduler (w : World σ) (s : SchedulerId) (f : Scheduler → Scheduler) :
    (w.updateScheduler s f).schedulers.size = w.schedulers.size := by
  unfold World.updateScheduler
  split <;> simp

theorem Change.delivering {answered : Bool} {w w' : World σ} (h : Change w w') :
    Delivering answered w w' := by
  intro hw
  have helements : w.elements.size ≤ w'.elements.size := by
    cases h <;> first | exact Nat.le_refl _ | simp [World.size_updateElement]
  have hschedulers : w.schedulers.size ≤ w'.schedulers.size := h.schedulers_eq ▸ Nat.le_refl _
  have hstates : ∀ row < w.receivers.size, w'.receivers.get? row = some .pending →
      w.receivers.get? row = some .pending := by
    intro row _ hpending
    rwa [h.receivers_eq] at hpending
  rcases h.journal_eq with hjournal | ⟨event, hquiet, hjournal⟩
  · exact .step [] hw (h.recorded hw) helements hschedulers (by simp [World.history, hjournal])
      (by simp) hstates
  · refine .step [event] hw (h.recorded hw) helements hschedulers
      (by simp [World.history, hjournal]) ?_ hstates
    rintro event' hmem
    obtain rfl := List.mem_singleton.mp hmem
    cases event' <;> first | rfl | cases hquiet

theorem Operation.delivering {answered : Bool} {w w' : World σ} (h : Operation w w') :
    Delivering answered w w' := by
  intro hw
  obtain ⟨more, hhistory, hmore⟩ := h.history_eq
  have haside : ∀ event ∈ more, event.isAside = true := by
    intro event hmem
    rcases hmore event hmem with ⟨s, e, r, rfl⟩ | ⟨s, e, rfl⟩ <;> rfl
  have helements : w.elements.size ≤ w'.elements.size := by
    cases h <;> simp [World.afterRequest, World.afterCancel, World.record, World.handOut,
      World.elements_updateScheduler]
  have hschedulers : w.schedulers.size ≤ w'.schedulers.size := by
    cases h <;> simp [World.afterRequest, World.afterCancel, World.record, World.handOut,
      World.size_updateScheduler]
  refine .step more hw (h.recorded hw) helements hschedulers hhistory haside ?_
  intro row hrow
  cases h with
  | scheduler => exact id
  | frame s frame => simp
  | handOut => exact fun h => (Table.get?_add_old _ _ hrow).symm.trans h
  | request e _ =>
    have hreceivers : ∀ s, (w.afterRequest s e).receivers = w.receivers.add .pending := by
      simp [World.afterRequest, World.record, World.handOut]
    rw [hreceivers, Table.get?_add_old _ _ hrow]
    exact id
  | cancel s e => simp [World.afterCancel, World.record]
  | drop r =>
    intro hpending
    by_cases heq : r.row = row
    · subst heq
      rw [Table.get?_set_self _ _ hrow] at hpending
      cases hpending
    · rwa [Table.get?_set_of_ne _ _ heq] at hpending

/-- A receiver that listens to the end of telling was not among those told. -/
theorem World.pending_of_afterTells {state : ReceiverState} (hstate : state ≠ .pending)
    {rs : List ReceiverId} {r : ReceiverId} {w : World σ}
    (h : (w.afterTells state rs).receivers.get? r.row = some .pending) :
    r ∉ rs ∧ w.receivers.get? r.row = some .pending := by
  induction rs generalizing w with
  | nil => exact ⟨by simp, h⟩
  | cons r' rest ih =>
    unfold afterTells at h
    split at h
    case isTrue hlistens =>
      obtain ⟨hrest, hpending⟩ := ih h
      have hne : r' ≠ r := by
        rintro rfl
        have hrow : r'.row < w.receivers.size := (Array.getElem?_eq_some_iff.mp hlistens).1
        exact hstate (Option.some.inj ((Table.get?_set_self _ _ hrow).symm.trans hpending))
      rw [receivers_afterTell_of_ne w hne] at hpending
      exact ⟨by simp [hrest, Ne.symm hne], hpending⟩
    case isFalse hlistens =>
      obtain ⟨hrest, hpending⟩ := ih h
      refine ⟨?_, hpending⟩
      rw [List.mem_cons, not_or]
      exact ⟨fun heq => hlistens (heq ▸ hpending), hrest⟩

/-! ### Turns -/

/-- The turn of an element has just begun. -/
structure Opened (s : SchedulerId) (w w' : World σ) : Prop where
  /-- The world agrees with its journal. -/
  recorded : w'.Recorded
  /-- No element is taken away. -/
  elements : w'.elements = w.elements
  /-- No scheduler is taken away. -/
  schedulers : w.schedulers.size ≤ w'.schedulers.size
  /-- The turn is in the journal. -/
  history : ∃ e, w'.history = w.history ++ [.turn s e]
  /-- A receiver that is in flight was so before. -/
  flight : ∀ s' r, w'.InFlight s' r → w.InFlight s' r

namespace Opened

variable {s : SchedulerId} {w u v : World σ}

theorem openTurns_eq (h : Opened s w u) (s' : SchedulerId) :
    openTurns s' u.history = openTurns s' w.history + if s = s' then 1 else 0 := by
  obtain ⟨e, hhistory⟩ := h.history
  rw [hhistory, openTurns_snoc]
  simp [Event.opens, Event.shuts]

theorem resolved_mem (h : Opened s w u) {r : ReceiverId} {state : ReceiverState}
    (hmem : .resolved r state ∈ u.history) : .resolved r state ∈ w.history := by
  obtain ⟨e, hhistory⟩ := h.history
  simpa [hhistory] using hmem

theorem kept (h : Opened s w u) : ∀ event ∈ w.history, event ∈ u.history := by
  obtain ⟨e, hhistory⟩ := h.history
  exact fun event hmem => hhistory ▸ List.mem_append_left _ hmem

/-- An update that is given up leaves the turn in progress. -/
theorem givenUp (h : Opened s w u) (hv : Delivers false u v) :
    Delivers false w v ∧ openTurns s w.history < openTurns s v.history := by
  have hle (s' : SchedulerId) : openTurns s' w.history ≤ openTurns s' u.history := by
    rw [h.openTurns_eq]
    split <;> omega
  refine ⟨⟨hv.recorded, ?_, Nat.le_trans h.schedulers hv.schedulers,
    fun event hmem => hv.kept event (h.kept event hmem), fun r state hmem => ?_,
    fun s' => Int.le_trans (hle s') (hv.turns s'), nofun,
    fun s' r hr => ?_⟩, ?_⟩
  · exact h.elements ▸ hv.elements
  · exact (hv.told r state hmem).imp_left h.resolved_mem
  · rcases hv.flight s' r hr with hr | hturn
    · exact .inl (h.flight s' r hr)
    · exact .inr (Int.lt_of_le_of_lt (hle s') hturn)
  · have hturns := hv.turns s
    rw [h.openTurns_eq, if_pos rfl] at hturns
    omega

/-- An update that answers ends the turn. -/
theorem served (h : Opened s w u) (hv : Delivers true u v) (e : ElementId) (success : Bool) :
    Delivers true w (v.record (.served s e success)) := by
  have hhistory := World.history_record v (.served s e success)
  have hrecorded : (v.record (.served s e success)).Recorded :=
    hv.recorded.record (fun _ _ => rfl) (by simp) rfl
  have hturns (s' : SchedulerId) :
      openTurns s' (v.record (.served s e success)).history = openTurns s' w.history := by
    have hrest := hv.rest rfl s'
    rw [h.openTurns_eq] at hrest
    rw [hhistory, openTurns_snoc, hrest]
    by_cases hs : s = s' <;> simp [Event.opens, Event.shuts, hs]
  refine ⟨hrecorded, ?_, Nat.le_trans h.schedulers hv.schedulers, fun event hmem => ?_,
    fun r state hmem => ?_, fun s' => Int.le_of_eq (hturns s').symm, fun _ => hturns,
    fun s' r hr => .inl ?_⟩
  · exact h.elements ▸ hv.elements
  · exact hhistory ▸ List.mem_append_left _ (hv.kept event (h.kept event hmem))
  · rw [hhistory] at hmem ⊢
    rcases List.mem_append.mp hmem with hmem | hmem
    · refine (hv.told r state hmem).imp h.resolved_mem (.imp_right ?_)
      rintro ⟨hcanceled, s', e', hrequested, hclosed⟩
      exact ⟨hcanceled, s', e', List.mem_append_left _ hrequested, List.mem_append_left _ hclosed⟩
    · cases List.mem_singleton.mp hmem
  · have hr := hr.before hv.recorded hhistory (by simp [Event.empties]) fun _ _ => id
    rcases hv.flight s' r hr with hr | hturn
    · exact h.flight s' r hr
    · rw [hv.rest rfl s'] at hturn
      exact (Int.lt_irrefl _ hturn).elim

end Opened

/-- Counting an update answers as long as the element has its row. -/
theorem runIn_account_some (enter : Enter σ) {w : World σ} {e : ElementId}
    (he : e.row < w.elements.size) (answer : Except ViewError Unit) :
    ∃ report w', (Act.account e answer).runIn enter w = (some report, w') := by
  cases answer with
  | ok => exact ⟨_, _, rfl⟩
  | error error =>
    obtain ⟨x, hget⟩ : ∃ x, w.elements.get? e.row = some x := ⟨_, Array.getElem?_eq_getElem he⟩
    have helement : (Act.element e).runIn enter w = (some x, w) := by
      rw [Act.element, Act.runIn_bind_some (Act.runIn_get enter w), hget]
      rfl
    rw [Act.account, Act.runIn_bind_some helement,
      Act.runIn_bind_some (Act.runIn_message .error _ enter w)]
    exact ⟨_, _, rfl⟩

/-- What a batch does between its beginning and its end: it leaves no receiver in flight when it
answers, and a turn is in progress when it is given up. -/
structure Turns (answered : Bool) (s : SchedulerId) (w w' : World σ) : Prop where
  /-- What an act does. -/
  delivers : Delivers answered w w'
  /-- Where it is given up. -/
  inTurn : answered = false → openTurns s w.history < openTurns s w'.history

theorem Turns.trans {answered : Bool} {s : SchedulerId} {u v w : World σ}
    (h : Delivers true u v) (h' : Turns answered s v w) : Turns answered s u w :=
  ⟨h.trans h'.delivers, fun hanswered => h.rest rfl s ▸ h'.inTurn hanswered⟩

/-! ### Telling receivers -/

theorem delivers_afterTell {w : World σ} (hw : w.Recorded) {r : ReceiverId} {state : ReceiverState}
    (hstate : state ≠ .pending)
    (hreason : state = .done ∨ state = .canceled ∧
      ∃ s e, .requested s e r ∈ w.history ∧ .closed s ∈ w.history) :
    Delivers true w (w.afterTell r state) := by
  have hhistory := World.history_afterTell w r state
  have hturns (s : SchedulerId) :
      openTurns s (w.afterTell r state).history = openTurns s w.history := by
    simp [hhistory, openTurns_snoc, Event.opens, Event.shuts]
  have hkept : ∀ event ∈ w.history, event ∈ (w.afterTell r state).history :=
    fun event hmem => hhistory ▸ List.mem_append_left _ hmem
  refine ⟨hw.afterTell r state, Nat.le_refl _, Nat.le_refl _, hkept, fun r' state' hmem => ?_,
    fun s => Int.le_of_eq (hturns s).symm, fun _ => hturns, fun s r' hr => .inl ?_⟩
  · rw [hhistory] at hmem
    rcases List.mem_append.mp hmem with hmem | hmem
    · exact .inl hmem
    · cases List.mem_singleton.mp hmem
      refine .inr (hreason.imp_right ?_)
      exact fun ⟨hcanceled, s, e, hrequested, hclosed⟩ =>
        ⟨hcanceled, s, e, hkept _ hrequested, hkept _ hclosed⟩
  · refine hr.before hw hhistory (by simp [Event.empties]) fun row hrow hpending => ?_
    by_cases heq : r.row = row
    · subst heq
      exact (hstate (Option.some.inj ((Table.get?_set_self _ _ hrow).symm.trans hpending))).elim
    · exact (Table.get?_set_of_ne _ _ heq).symm.trans hpending

theorem delivers_afterTells {w : World σ} (hw : w.Recorded) {state : ReceiverState}
    (hstate : state ≠ .pending) {rs : List ReceiverId}
    (hreason : ∀ r ∈ rs, state = .done ∨ state = .canceled ∧
      ∃ s e, .requested s e r ∈ w.history ∧ .closed s ∈ w.history) :
    Delivers true w (w.afterTells state rs) := by
  induction rs generalizing w with
  | nil => exact Change.delivering (.store w w.store) hw
  | cons r rest ih =>
    unfold World.afterTells
    split
    · have htell := delivers_afterTell hw hstate (hreason r (by simp))
      refine htell.trans (ih htell.recorded fun r' hr' => ?_)
      refine (hreason r' (by simp [hr'])).imp_right ?_
      rintro ⟨hcanceled, s, e, hrequested, hclosed⟩
      exact ⟨hcanceled, s, e, htell.kept _ hrequested, htell.kept _ hclosed⟩
    · exact ih hw fun r' hr' => hreason r' (by simp [hr'])

/-! ### Batches -/

/-- A batch has taken over what was waiting, or the scheduler has been given up. -/
structure Emptied (s : SchedulerId) (w w' : World σ) : Prop where
  /-- The world agrees with its journal. -/
  recorded : w'.Recorded
  /-- The elements are as they were. -/
  elements : w'.elements = w.elements
  /-- No scheduler is taken away. -/
  schedulers : w'.schedulers.size = w.schedulers.size
  /-- The receivers are as they were. -/
  receivers : w'.receivers = w.receivers
  /-- The event is in the journal. -/
  history : ∃ event, w'.history = w.history ++ [event] ∧
    ((∃ left, event = .began s left) ∨ event = .closed s)

theorem emptied_afterBegin {w : World σ} (hw : w.Recorded) (s : SchedulerId) :
    Emptied s w (w.afterBegin s) :=
  ⟨hw.afterBegin s, World.elements_updateScheduler .., World.size_updateScheduler ..,
    World.receivers_updateScheduler .., _, World.history_afterBegin w s, .inl ⟨_, rfl⟩⟩

theorem emptied_afterClose {w : World σ} (hw : w.Recorded) (s : SchedulerId) :
    Emptied s w (w.afterClose s) :=
  ⟨hw.afterClose s, World.elements_updateScheduler .., World.size_updateScheduler ..,
    World.receivers_updateScheduler .., _, World.history_afterClose w s, .inr rfl⟩

namespace Emptied

variable {s : SchedulerId} {w u v : World σ}

theorem openTurns_eq (h : Emptied s w u) (s' : SchedulerId) :
    openTurns s' u.history = openTurns s' w.history := by
  obtain ⟨event, hhistory, ⟨left, rfl⟩ | rfl⟩ := h.history <;>
    simp [hhistory, openTurns_snoc, Event.opens, Event.shuts]

theorem kept (h : Emptied s w u) : ∀ event ∈ w.history, event ∈ u.history := by
  obtain ⟨event, hhistory, -⟩ := h.history
  exact fun event' hmem => hhistory ▸ List.mem_append_left _ hmem

theorem resolved_mem (h : Emptied s w u) {r : ReceiverId} {state : ReceiverState}
    (hmem : .resolved r state ∈ u.history) : .resolved r state ∈ w.history := by
  obtain ⟨event, hhistory, ⟨left, rfl⟩ | rfl⟩ := h.history <;> simpa [hhistory] using hmem

/-- The receivers that were waiting take off, and no others. -/
theorem flight (h : Emptied s w u) (hw : w.Recorded) {s' : SchedulerId} {r : ReceiverId}
    (hr : u.InFlight s' r) :
    w.InFlight s' r ∨ s' = s ∧ r ∈ openReceivers s w.history := by
  by_cases hs : s' = s
  · subst hs
    by_cases hwaits : r ∈ openReceivers s' w.history
    · exact .inr ⟨rfl, hwaits⟩
    · obtain ⟨⟨e, hrequested⟩, -, hpending⟩ := hr
      refine .inl ⟨⟨e, ?_⟩, hwaits, h.receivers ▸ hpending⟩
      obtain ⟨event, hhistory, ⟨left, rfl⟩ | rfl⟩ := h.history <;>
        simpa [hhistory] using hrequested
  · obtain ⟨event, hhistory, hevent⟩ := h.history
    refine .inl (hr.before hw hhistory ?_ fun row _ hpending => ?_)
    · rintro event' hmem
      obtain rfl := List.mem_singleton.mp hmem
      rcases hevent with ⟨left, rfl⟩ | rfl <;> simp [Event.empties, Ne.symm hs]
    · exact h.receivers ▸ hpending

/-- A batch that is given up is in the middle of a turn. -/
theorem givenUp (h : Emptied s w u) (hw : w.Recorded) (hv : Turns false s u v) :
    Delivers false w v := by
  refine ⟨hv.delivers.recorded, h.elements ▸ hv.delivers.elements,
    h.schedulers ▸ hv.delivers.schedulers,
    fun event hmem => hv.delivers.kept event (h.kept event hmem),
    fun r state hmem => (hv.delivers.told r state hmem).imp_left h.resolved_mem,
    fun s' => h.openTurns_eq s' ▸ hv.delivers.turns s', nofun, fun s' r hr => ?_⟩
  rw [← h.openTurns_eq]
  rcases hv.delivers.flight s' r hr with hr | hturn
  · rcases h.flight hw hr with hr | ⟨rfl, -⟩
    · exact .inl hr
    · exact .inr (hv.inTurn rfl)
  · exact .inr hturn

/-- Once the receivers that were waiting have been told, they are in flight no more. -/
theorem told (h : Emptied s w u) (hw : w.Recorded) (hv : Delivers true u v)
    {state : ReceiverState} (hstate : state ≠ .pending)
    (hreason : state = .done ∨ state = .canceled ∧ .closed s ∈ v.history) :
    Delivers true w (v.afterTells state (w.scheduler s).waiters) := by
  have hrequested : ∀ r ∈ openReceivers s w.history, ∃ e, .requested s e r ∈ v.history := by
    intro r hr
    obtain ⟨e, pre, post, hsplit, -⟩ := mem_openReceivers hr
    exact ⟨e, hv.kept _ (h.kept _ (by simp [hsplit]))⟩
  rw [hw.waiters_eq]
  have htells := delivers_afterTells hv.recorded hstate fun r hr =>
    hreason.imp_right fun ⟨hcanceled, hclosed⟩ =>
      (hrequested r hr).elim fun e hmem => ⟨hcanceled, s, e, hmem, hclosed⟩
  have hall := hv.trans htells
  refine ⟨hall.recorded, h.elements ▸ hall.elements, h.schedulers ▸ hall.schedulers,
    fun event hmem => hall.kept event (h.kept event hmem),
    fun r state hmem => (hall.told r state hmem).imp_left h.resolved_mem,
    fun s' => h.openTurns_eq s' ▸ hall.turns s',
    fun _ s' => (hall.rest rfl s').trans (h.openTurns_eq s'), fun s' r hr => ?_⟩
  rw [← h.openTurns_eq]
  rcases hall.flight s' r hr with hflight | hturn
  · refine (h.flight hw hflight).imp_right fun ⟨_, hwaits⟩ => ?_
    exact ((World.pending_of_afterTells hstate hr.pending).1 hwaits).elim
  · exact .inr hturn

end Emptied

section Batches

variable {enter : Enter σ} (h : Admits Delivering enter)

include h

/-- A dead element is skipped, and nothing that waits is lost. -/
theorem delivers_skip {s : SchedulerId} {e : ElementId} {rest : List ElementId} {w : World σ}
    (hw : w.Recorded) (hrunning : (w.scheduler s).running = e :: rest) :
    Delivers true w ((Act.message .warn (pure ("scheduler: skipping dropped element " ++ e.text))).runIn enter
      ((w.popped s).record (.skipped s e))).2 := by
  have helements : (w.popped s).elements = w.elements := World.elements_updateScheduler ..
  have hschedulers : (w.popped s).schedulers.size = w.schedulers.size :=
    World.size_updateScheduler ..
  have hreceivers : (w.popped s).receivers = w.receivers := World.receivers_updateScheduler ..
  have hskipped := hw.skipped hrunning
  have hstep : Delivers true w ((w.popped s).record (.skipped s e)) :=
    .step [.skipped s e] hw hskipped (helements ▸ Nat.le_refl _) (Nat.le_of_eq hschedulers.symm)
      (by simp) (by simp [Event.isAside]) fun row _ hpending => hreceivers ▸ hpending
  have hquiet := h.message .warn (h.pure ("scheduler: skipping dropped element " ++ e.text)) _ hskipped
  rw [Act.runIn_message] at hquiet ⊢
  exact hstep.trans hquiet

/-- The turn of a living element opens, its update has its way, and the turn is served. -/
theorem turns_turn {s : SchedulerId} {e : ElementId} {rest : List ElementId} {w : World σ}
    (hw : w.Recorded) (hrunning : (w.scheduler s).running = e :: rest) (hliving : (w.popped s).alive e = true) :
    Turns ((Act.turn s e).runIn enter (w.popped s)).1.isSome s w
      ((Act.turn s e).runIn enter (w.popped s)).2 := by
  have helements : (w.popped s).elements = w.elements := World.elements_updateScheduler ..
  have hschedulers : (w.popped s).schedulers.size = w.schedulers.size :=
    World.size_updateScheduler ..
  have hreceivers : (w.popped s).receivers = w.receivers := World.receivers_updateScheduler ..
  have hturn := hw.turn hrunning
  let u : World σ := { (w.popped s).record (.turn s e) with held := [e] ++ (w.popped s).held }
  have hhistory : u.history = w.history ++ [.turn s e] :=
    (World.history_record _ _).trans (by rw [World.history_popped])
  have hopened : Opened s w u :=
    ⟨Change.recorded (.held _ _) hturn, helements, Nat.le_of_eq hschedulers.symm, ⟨e, hhistory⟩,
      fun s' r hr => hr.before hw hhistory (by simp [Event.empties])
        fun row _ hpending => hreceivers ▸ hpending⟩
  have hupdate := h.enterUpdate e u hopened.recorded
  have hentered : (Act.turn s e).runIn enter (w.popped s) =
      (do
        let answer ← Act.enterUpdate e
        Act.record (.served s e answer.isOk)
        let report ← Act.account e answer
        Act.release [e]
        return report).runIn enter u := by
    rw [Act.turn, Act.holding, Act.hold, Act.runIn_bind_some (Act.runIn_modify _ _ _), bind_assoc,
      Act.runIn_bind_some (Act.runIn_record _ _ _), Act.serve]
    simp only [bind_assoc]
    rfl
  rw [hentered, Act.runIn_bind]
  revert hupdate
  rcases (Act.enterUpdate e).runIn enter u with ⟨_ | answer, v⟩
  · intro hupdate
    exact ⟨(hopened.givenUp hupdate).1, fun _ => (hopened.givenUp hupdate).2⟩
  · intro hupdate
    have hserved := hopened.served hupdate e answer.isOk
    have hrow : e.row < (v.record (.served s e answer.isOk)).elements.size := by
      have hrow : e.row < (w.popped s).elements.size := by
        simp only [World.alive, Bool.and_eq_true, decide_eq_true_eq] at hliving
        exact hliving.1
      exact Nat.lt_of_lt_of_le (helements ▸ hrow) hserved.elements
    obtain ⟨report, v', hreport⟩ := runIn_account_some enter hrow answer
    have haccount := h.account e answer _ hserved.recorded
    rw [hreport] at haccount
    have hrelease := h.release [e] v' haccount.recorded
    dsimp only
    rw [Act.runIn_bind_some (Act.runIn_record _ _ _), Act.runIn_bind_some hreport]
    exact ⟨hserved.trans (haccount.trans hrelease), fun hanswered => by cases hanswered⟩

theorem turns_turnIfAlive {s : SchedulerId} {e : ElementId} {rest : List ElementId} {w : World σ}
    (hw : w.Recorded) (hrunning : (w.scheduler s).running = e :: rest) :
    Turns ((Act.turnIfAlive s e).runIn enter (w.popped s)).1.isSome s w
      ((Act.turnIfAlive s e).runIn enter (w.popped s)).2 := by
  have halive : (Act.alive e).runIn enter (w.popped s) = (some ((w.popped s).alive e), w.popped s) :=
    rfl
  rw [Act.turnIfAlive, Act.runIn_bind_some halive]
  cases hliving : (w.popped s).alive e with
  | false =>
    have hskip := delivers_skip h hw hrunning
    have hmessage := Act.runIn_message .warn ("scheduler: skipping dropped element " ++ e.text) enter
      ((w.popped s).record (.skipped s e))
    rw [hmessage] at hskip
    simp only [Bool.false_eq_true, if_false]
    rw [Act.runIn_bind_some (Act.runIn_record _ _ _), Act.runIn_bind_some hmessage]
    exact ⟨hskip, fun hanswered => by cases hanswered⟩
  | true => exact turns_turn h hw hrunning hliving

/-- An act that answers at once is no reason for being in a turn. -/
theorem turns_turns {s : SchedulerId} (n : Nat) (report : BatchReport) {w : World σ}
    (hw : w.Recorded) (hexists : s.row < w.schedulers.size) :
    Turns ((Act.turns s n report).runIn enter w).1.isSome s w
      ((Act.turns s n report).runIn enter w).2 := by
  induction n generalizing report w with
  | zero => exact ⟨Change.delivering (.store w w.store) hw, fun hanswered => by cases hanswered⟩
  | succ n ih =>
    cases hrunning : (w.scheduler s).running with
    | nil =>
      have hsome : (w.schedulers.get? s.row).isSome := by
        simpa [Table.get?, Table.size] using hexists
      rw [Act.runIn_turns_nil enter hsome hrunning]
      exact ⟨Change.delivering (.store w w.store) hw, fun hanswered => by cases hanswered⟩
    | cons e rest =>
      have hturn := turns_turnIfAlive h hw hrunning
      rw [Act.runIn_turns_cons enter hrunning, Act.runIn_bind]
      revert hturn
      rcases (Act.turnIfAlive s e).runIn enter (w.popped s) with ⟨_ | turned, v⟩
      · exact id
      · intro hturn
        have hexists : s.row < v.schedulers.size :=
          Nat.lt_of_lt_of_le hexists hturn.delivers.schedulers
        exact .trans hturn.delivers (ih _ hturn.delivers.recorded hexists)

/-- A batch that answers has told all that it had taken over. -/
theorem delivering_runBatch (s : SchedulerId) : Keeps Delivering enter (Act.runBatch s) := by
  intro w hw
  by_cases hexists : (w.schedulers.get? s.row).isSome
  · have hbegin := emptied_afterBegin hw s
    have hrow : s.row < (w.afterBegin s).schedulers.size := by
      rw [hbegin.schedulers]
      simpa [Table.get?, Table.size] using hexists
    have hturns := turns_turns h (w.scheduler s).pending.length .zero hbegin.recorded hrow
    rw [Act.runIn_runBatch_some enter w s hexists, Act.runIn_bind]
    revert hturns
    rcases (Act.turns s (w.scheduler s).pending.length .zero).runIn enter (w.afterBegin s)
      with ⟨_ | report, v⟩
    · exact fun hturns => hbegin.givenUp hw hturns
    · intro hturns
      have hdone : ReceiverState.done ≠ .pending := fun heq => by cases heq
      have htold := hbegin.told hw hturns.delivers hdone (.inl rfl)
      dsimp only
      rw [Act.runIn_bind_some (Act.runIn_tells enter .done _ v)]
      refine htold.trans ?_
      exact h.bind (h.message .debug (h.pure _)) (fun _ => h.pure report) _ htold.recorded
  · rw [Act.runIn_runBatch_none enter w s hexists]
    exact Change.delivering (.store w w.store) hw

end Batches

theorem delivering_close {enter : Enter σ} (s : SchedulerId) :
    Keeps Delivering enter (Act.close s) := by
  intro w hw
  by_cases hexists : (w.schedulers.get? s.row).isSome
  · rw [Act.runIn_close_some enter w s hexists]
    have hclose := emptied_afterClose hw s
    have hclosed : .closed s ∈ (w.afterClose s).history := by simp
    exact hclose.told hw (Change.delivering (.store _ _) hclose.recorded) nofun
      (.inr ⟨rfl, hclosed⟩)
  · rw [Act.runIn_close_none enter w s hexists]
    exact Change.delivering (.store w w.store) hw

/-- Whatever a host program does, acts that answer leave no receiver in flight, and acts that are
given up do so only in the middle of a turn. -/
theorem Host.delivering (host : Host σ) : Respects Delivering host fun _ => True where
  only call := .all _
  quiet := Change.delivering
  trans := Delivering.trans
  schedules h r _ _ := by
    cases r with
    | runBatch s => exact delivering_runBatch h s
    | pump s n => exact h.pump Operation.delivering (delivering_runBatch h s) n
    | close s => exact delivering_close s
    | _ =>
      exact h.operation Operation.delivering _ (fun _ => Request.noConfusion)
        (fun _ _ => Request.noConfusion) fun _ => Request.noConfusion

/-! ### Receivers of a scheduler that is at rest -/

/-- What has become of a receiver that waits no more: nobody listens, or its batch is over, or its
scheduler is gone. -/
def World.Heard (w : World σ) (s : SchedulerId) (r : ReceiverId) : Prop :=
  w.receivers.get? r.row = some .dropped ∨ .resolved r .done ∈ w.history ∨
    .resolved r .canceled ∈ w.history ∧ .closed s ∈ w.history

/-- No receiver of a scheduler is in flight, and whoever was told something was told it for a
reason. -/
structure World.Landed (w : World σ) (s : SchedulerId) : Prop where
  /-- The world agrees with its journal. -/
  recorded : w.Recorded
  /-- No receiver is in flight. -/
  flight : ∀ r, ¬ w.InFlight s r
  /-- Receivers are told that their batch is over, or that their scheduler is gone. -/
  told : ∀ r state, .resolved r state ∈ w.history → state = .done ∨ state = .canceled ∧
    ∃ s e, .requested s e r ∈ w.history ∧ .closed s ∈ w.history

namespace World.Landed

variable {w w' : World σ} {s : SchedulerId}

theorem delivers (h : w.Landed s) (hw' : Delivers true w w') : w'.Landed s where
  recorded := hw'.recorded
  flight r hr := by
    rcases hw'.flight s r hr with hr | hturn
    · exact h.flight r hr
    · rw [hw'.rest rfl s] at hturn
      exact Int.lt_irrefl _ hturn
  told r state hmem := by
    rcases hw'.told r state hmem with hmem | hnew
    · refine (h.told r state hmem).imp_right ?_
      exact fun ⟨hcanceled, s', e, hrequested, hclosed⟩ =>
        ⟨hcanceled, s', e, hw'.kept _ hrequested, hw'.kept _ hclosed⟩
    · exact hnew

/-- Each receiver that has been handed out waits for the next batch or has heard what became of
its request. -/
theorem waits_or_heard (h : w.Landed s) {e : ElementId} {r : ReceiverId}
    (hrequested : .requested s e r ∈ w.history) : r ∈ (w.scheduler s).waiters ∨ w.Heard s r := by
  by_cases hwaits : r ∈ openReceivers s w.history
  · exact .inl (h.recorded.waiters_eq s ▸ hwaits)
  · refine .inr ?_
    rcases h.recorded.states r (mem_receiversOf.mpr ⟨s, e, hrequested⟩) with
      hpending | hdropped | ⟨state, hmem⟩
    · exact (h.flight r ⟨⟨e, hrequested⟩, hwaits, hpending⟩).elim
    · exact .inl hdropped
    · rcases h.told r state hmem with rfl | ⟨rfl, s', e', hrequested', hclosed⟩
      · exact .inr (.inl hmem)
      · obtain rfl := scheduler_unique h.recorded.once hrequested hrequested'
        exact .inr (.inr ⟨hmem, hclosed⟩)

end World.Landed

/-- While no turn of a scheduler is in progress, none of its receivers is in flight, wherever a
host program has got to. -/
theorem Host.landed (host : Host σ) (depth : Nat) (script : Script σ α) (level : Level)
    (memory : σ) {s : SchedulerId}
    (hrest : openTurns s (host.reached depth script level memory).history = 0) :
    (host.reached depth script level memory).Landed s := by
  have hdelivers := host.delivering.run depth (.all script) (.empty level memory)
    (World.Recorded.empty level memory)
  rw [← Host.reached] at hdelivers
  refine ⟨hdelivers.recorded, fun r hr => ?_, fun r state hmem => ?_⟩
  · rcases hdelivers.flight s r hr with ⟨⟨e, hrequested⟩, -, -⟩ | hturn
    · simp at hrequested
    · rw [hrest] at hturn
      exact Int.lt_irrefl _ hturn
  · rcases hdelivers.told r state hmem with hmem | hnew
    · simp at hmem
    · exact hnew

end ReactiveViews
