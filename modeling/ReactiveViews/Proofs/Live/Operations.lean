import ReactiveViews.Proofs.Live.Ledger

/-!
# What scheduler operations do

The acts of schedulers, world by world. Each of them is reduced to the worlds after the operations
it is made of, so that an effect has to be checked for those alone.

## What is proved

Where an act leads (`Act.runIn_request`, `Act.runIn_begin`, `Act.runIn_turns_cons`, …). The turns
of a batch keep an effect that the beginnings and ends of turns keep (`Admits.turns`), and all
requests to schedulers but those for batches keep one that the single operations keep
(`Admits.schedules`).
-/

namespace ReactiveViews

variable {σ α : Type}

/-! ### Where acts lead -/

namespace Act

variable (enter : Enter σ) (w : World σ) (s : SchedulerId) (e : ElementId)

theorem runIn_scheduler : (scheduler s).runIn enter w = (w.schedulers.get? s.row, w) := by
  rw [scheduler, runIn_bind_some (runIn_get enter w)]
  cases w.schedulers.get? s.row <;> rfl

/-- An answer about a scheduler is there if the scheduler is. -/
theorem runIn_scheduler_some (hexists : (w.schedulers.get? s.row).isSome) :
    (scheduler s).runIn enter w = (some (w.scheduler s), w) := by
  rw [runIn_scheduler, World.scheduler]
  cases h : w.schedulers.get? s.row with
  | none => simp [h] at hexists
  | some x => rfl

theorem runIn_scheduler_none (hexists : ¬ (w.schedulers.get? s.row).isSome) :
    (scheduler s).runIn enter w = (none, w) := by
  rw [runIn_scheduler]
  simpa using hexists

theorem runIn_newReceiver :
    (newReceiver).runIn enter w = (some ⟨w.receivers.size⟩, w.handOut) := rfl

theorem runIn_request_none (hexists : ¬ (w.schedulers.get? s.row).isSome) :
    (request s e).runIn enter w = (none, w.handOut) := by
  rw [request, runIn_bind, runIn_newReceiver]
  exact runIn_bind_none (runIn_scheduler_none enter w.handOut s hexists)

theorem runIn_request_some (hexists : (w.schedulers.get? s.row).isSome) :
    (request s e).runIn enter w =
      (if (w.scheduler s).pending.isEmpty then do
          askForFrame s e
          return ⟨w.receivers.size⟩
        else return ⟨w.receivers.size⟩ : Act σ ReceiverId).runIn enter (w.afterRequest s e) := by
  rw [request, runIn_bind, runIn_newReceiver]
  dsimp only
  rw [runIn_bind_some (runIn_scheduler_some enter w.handOut s hexists)]
  rfl

theorem runIn_begin_some (hexists : (w.schedulers.get? s.row).isSome) :
    (begin s).runIn enter w =
      (some ((w.scheduler s).waiters, (w.scheduler s).pending.length), w.afterBegin s) := by
  rw [begin, runIn_bind_some (runIn_scheduler_some enter w s hexists)]
  rfl

theorem runIn_begin_none (hexists : ¬ (w.schedulers.get? s.row).isSome) :
    (begin s).runIn enter w = (none, w) :=
  runIn_bind_none (runIn_scheduler_none enter w s hexists)

/-- An element that is listed has a scheduler that lists it. -/
theorem exists_of_running {w : World σ} {s : SchedulerId} {rest : List ElementId}
    (h : (w.scheduler s).running = e :: rest) : (w.schedulers.get? s.row).isSome := by
  cases hx : w.schedulers.get? s.row with
  | none => simp [World.scheduler, hx, Scheduler.idle] at h
  | some x => rfl

theorem runIn_turns_cons {w : World σ} {s : SchedulerId} {e : ElementId} {rest : List ElementId}
    (h : (w.scheduler s).running = e :: rest) (n : Nat) (report : BatchReport) :
    (turns s (n + 1) report).runIn enter w =
      (do turns s n (report.add (← turnIfAlive s e))).runIn enter (w.popped s) := by
  have hnext : (next s).runIn enter w = (some (some e), w.popped s) := by
    rw [next, runIn_bind_some (runIn_scheduler_some enter w s (exists_of_running e h)), h]
    rfl
  rw [turns, runIn_bind_some hnext]

theorem runIn_turns_nil {w : World σ} {s : SchedulerId}
    (hexists : (w.schedulers.get? s.row).isSome) (h : (w.scheduler s).running = []) (n : Nat)
    (report : BatchReport) : (turns s n report).runIn enter w = (some report, w) := by
  cases n with
  | zero => rfl
  | succ n =>
    have hnext : (next s).runIn enter w = (some none, w) := by
      rw [next, runIn_bind_some (runIn_scheduler_some enter w s hexists), h]
      rfl
    rw [turns, runIn_bind_some hnext]
    rfl

/-- The ways in which turns come to an end: there was nothing to go, or there was a first one. -/
theorem turns_cases {enter : Enter σ} {w v : World σ} {s : SchedulerId} {n : Nat}
    {report report' : BatchReport} (hn : (w.scheduler s).running.length ≤ n)
    (hrun : (turns s n report).runIn enter w = (some report', v)) :
    ((w.scheduler s).running = [] ∧ v = w ∧ report' = report) ∨
      ∃ e rest m turned u, (w.scheduler s).running = e :: rest ∧ n = m + 1 ∧
        (turnIfAlive s e).runIn enter (w.popped s) = (some turned, u) ∧
        (turns s m (report.add turned)).runIn enter u = (some report', v) := by
  cases n with
  | zero =>
    cases hrun
    exact .inl ⟨List.eq_nil_of_length_eq_zero (Nat.le_zero.mp hn), rfl, rfl⟩
  | succ m =>
    by_cases hexists : (w.schedulers.get? s.row).isSome
    · cases hrunning : (w.scheduler s).running with
      | nil =>
        rw [runIn_turns_nil enter hexists hrunning] at hrun
        cases hrun
        exact .inl ⟨rfl, rfl, rfl⟩
      | cons e rest =>
        rw [runIn_turns_cons enter hrunning] at hrun
        obtain ⟨turned, u, hturned, hrun⟩ := runIn_bind_eq_some hrun
        exact .inr ⟨e, rest, m, turned, u, rfl, rfl, hturned, hrun⟩
    · have hnone : (turns s (m + 1) report).runIn enter w = (none, w) :=
        runIn_bind_none (runIn_bind_none (runIn_scheduler_none enter w s hexists))
      rw [hnone] at hrun
      cases hrun

end Act

namespace Act

theorem runIn_tells (enter : Enter σ) (state : ReceiverState) (rs : List ReceiverId)
    (w : World σ) : (rs.forM (tell state)).runIn enter w = (some (), w.afterTells state rs) := by
  induction rs generalizing w with
  | nil => rfl
  | cons r rest ih =>
    have htell : (tell state r).runIn enter w =
        (some (), if w.receivers.get? r.row = some .pending then w.afterTell r state else w) := by
      rw [tell, runIn_bind_some (runIn_get enter w)]
      split <;> rfl
    show (tell state r >>= fun _ => rest.forM (tell state)).runIn enter w = _
    rw [runIn_bind_some htell, ih, World.afterTells]
    split <;> rfl

theorem runIn_close_some (enter : Enter σ) (w : World σ) (s : SchedulerId)
    (hexists : (w.schedulers.get? s.row).isSome) :
    (close s).runIn enter w =
      (some (), (w.afterClose s).afterTells .canceled (w.scheduler s).waiters) := by
  rw [close, runIn_bind_some (runIn_scheduler_some enter w s hexists)]
  exact runIn_tells enter .canceled (w.scheduler s).waiters (w.afterClose s)

theorem runIn_close_none (enter : Enter σ) (w : World σ) (s : SchedulerId)
    (hexists : ¬ (w.schedulers.get? s.row).isSome) : (close s).runIn enter w = (none, w) :=
  runIn_bind_none (runIn_scheduler_none enter w s hexists)

theorem runIn_account {enter : Enter σ} {w v : World σ} {e : ElementId}
    {answer : Except ViewError Unit} {report : BatchReport}
    (h : (account e answer).runIn enter w = (some report, v)) :
    report = if answer.isOk then ⟨1, 0⟩ else ⟨0, 1⟩ := by
  cases answer with
  | ok =>
    cases h
    rfl
  | error error =>
    obtain ⟨x, u, -, h⟩ := runIn_bind_eq_some h
    obtain ⟨_, u', -, h⟩ := runIn_bind_eq_some h
    cases h
    rfl

/-- A batch: the requests are taken over, the elements have their turns, the receivers are told. -/
theorem runIn_runBatch_some (enter : Enter σ) (w : World σ) (s : SchedulerId)
    (hexists : (w.schedulers.get? s.row).isSome) :
    (runBatch s).runIn enter w =
      (do
        let report ← turns s (w.scheduler s).pending.length .zero
        (w.scheduler s).waiters.forM (tell .done)
        message .debug do
          return "scheduler: batch done (" ++ toString report.updated ++ " updated, " ++
            toString report.failed ++ " failed)"
        return report).runIn enter (w.afterBegin s) := by
  rw [runBatch, runIn_bind_some (runIn_begin_some enter w s hexists)]

theorem runIn_runBatch_none (enter : Enter σ) (w : World σ) (s : SchedulerId)
    (hexists : ¬ (w.schedulers.get? s.row).isSome) : (runBatch s).runIn enter w = (none, w) :=
  runIn_bind_none (runIn_begin_none enter w s hexists)

end Act

/-! ### Operations and effects -/

/-- What requests to schedulers do to the world, other than to run batches and to give schedulers
up. -/
inductive Operation : World σ → World σ → Prop where
  /-- A new scheduler. -/
  | scheduler (w : World σ) : Operation w { w with schedulers := w.schedulers.add .idle }
  /-- Whether a frame has been asked for. -/
  | frame (w : World σ) (s : SchedulerId) (frame : Bool) :
    Operation w (w.updateScheduler s ({ · with frame }))
  /-- A receiver that nobody gets, since there is no such scheduler. -/
  | handOut (w : World σ) : Operation w w.handOut
  /-- An update is requested. -/
  | request (w : World σ) {s : SchedulerId} (e : ElementId) :
    (w.schedulers.get? s.row).isSome → Operation w (w.afterRequest s e)
  /-- Requests are withdrawn. -/
  | cancel (w : World σ) (s : SchedulerId) (e : ElementId) : Operation w (w.afterCancel s e)
  /-- A receiver is not listened to any more. -/
  | drop (w : World σ) (r : ReceiverId) :
    Operation w { w with receivers := w.receivers.set r.row .dropped }

theorem Operation.recorded {w w' : World σ} (h : Operation w w') (hw : w.Recorded) :
    w'.Recorded := by
  cases h with
  | scheduler => exact hw.newScheduler
  | frame s frame => exact hw.framed s frame
  | handOut => exact hw.handOut
  | request e hexists => exact hw.afterRequest e hexists
  | cancel s e => exact hw.afterCancel s e
  | drop r => exact hw.dropReceiver r

/-- An operation adds at most a request or a withdrawal to the journal. -/
theorem Operation.history_eq {w w' : World σ} (h : Operation w w') :
    ∃ more, w'.history = w.history ++ more ∧
      ∀ event ∈ more, (∃ s e r, event = .requested s e r) ∨ ∃ s e, event = .withdrawn s e := by
  cases h with
  | request e _ => exact ⟨_, World.history_afterRequest .., by simp⟩
  | cancel s e => exact ⟨_, World.history_afterCancel .., by simp⟩
  | frame s frame => exact ⟨[], by simp, by simp⟩
  | _ => exact ⟨[], (List.append_nil _).symm, by simp⟩

namespace Admits

variable {R : Effect σ} {enter : Enter σ}

theorem scheduler (h : Admits R enter) (s : SchedulerId) : Keeps R enter (Act.scheduler s) :=
  h.bind h.get fun _ => h.ofOption _

theorem askForFrame (h : Admits R enter)
    (hoperation : ∀ {b : Bool} {w w' : World σ}, Operation w w' → R b w w') (s : SchedulerId)
    (e : ElementId) : Keeps R enter (Act.askForFrame s e) :=
  h.bind (h.message _ (h.pure _)) fun _ w => hoperation (.frame w s true)

theorem takeFrame (h : Admits R enter)
    (hoperation : ∀ {b : Bool} {w w' : World σ}, Operation w w' → R b w w') (s : SchedulerId) :
    Keeps R enter (Act.takeFrame s) := by
  have hframe : Keeps R enter (Act.updateScheduler s ({ · with frame := false })) :=
    fun w => hoperation (.frame w s false)
  exact h.bind (h.scheduler s) fun _ => h.bind hframe fun _ => h.pure _

theorem request (h : Admits R enter)
    (hoperation : ∀ {b : Bool} {w w' : World σ}, Operation w w' → R b w w') (s : SchedulerId)
    (e : ElementId) : Keeps R enter (Act.request s e) := by
  intro w
  by_cases hexists : (w.schedulers.get? s.row).isSome
  · rw [Act.runIn_request_some enter w s e hexists]
    refine h.trans (hoperation (.request w e hexists)) ?_
    split
    · exact h.bind (h.askForFrame hoperation s e) (fun _ => h.pure _) _
    · exact h.refl _
  · rw [Act.runIn_request_none enter w s e hexists]
    exact hoperation (.handOut w)

/-- The requests to schedulers that are single operations. -/
theorem operation (h : Admits R enter)
    (hoperation : ∀ {b : Bool} {w w' : World σ}, Operation w w' → R b w w') (r : Request)
    (hbatch : ∀ s, r ≠ .runBatch s) (hpump : ∀ s n, r ≠ .pump s n) (hclose : ∀ s, r ≠ .close s) :
    Keeps R enter (Act.perform r) := by
  cases r with
  | newScheduler => exact fun w => hoperation (.scheduler w)
  | request s e => exact h.living e (h.request hoperation s e)
  | cancel s e => exact h.living e fun w => hoperation (.cancel w s e)
  | takeFrame s => exact h.takeFrame hoperation s
  | dropReceiver r => exact fun w => hoperation (.drop w r)
  | runBatch s => exact (hbatch s rfl).elim
  | pump s n => exact (hpump s n rfl).elim
  | close s => exact (hclose s rfl).elim
  | _ => exact h.perform _ rfl

theorem pump (h : Admits R enter)
    (hoperation : ∀ {b : Bool} {w w' : World σ}, Operation w w' → R b w w') {s : SchedulerId}
    (hbatch : Keeps R enter (Act.runBatch s)) (n : Nat) : Keeps R enter (Act.pump s n) := by
  induction n with
  | zero => exact h.pure _
  | succ n ih =>
    refine h.bind (h.takeFrame hoperation s) fun asked => ?_
    split
    · exact h.bind hbatch fun _ => h.bind ih fun _ => h.pure _
    · exact h.pure _

/-! ### Turns and effects -/

theorem account (h : Admits R enter) (e : ElementId) (answer : Except ViewError Unit) :
    Keeps R enter (Act.account e answer) := by
  cases answer with
  | ok => exact h.pure _
  | error error =>
    exact h.bind (h.element e) fun _ => h.bind (h.message _ (h.pure _)) fun _ => h.pure _

theorem serve (h : Admits R enter) {s : SchedulerId}
    (hserved : ∀ w e success, R true w (w.record (.served s e success))) (e : ElementId) :
    Keeps R enter (Act.serve s e) :=
  h.bind (h.enterUpdate e) fun answer => h.bind (fun w => hserved w e answer.isOk) fun _ =>
    h.account e answer

/-- The turn of an element is recorded, and what follows keeps the effect. -/
theorem turnIfAlive (h : Admits R enter) {s : SchedulerId}
    (hserved : ∀ w e success, R true w (w.record (.served s e success))) (e : ElementId)
    (w : World σ) :
    ∃ event, (event = .turn s e ∨ event = .skipped s e) ∧
      R ((Act.turnIfAlive s e).runIn enter w).1.isSome (w.record event)
        ((Act.turnIfAlive s e).runIn enter w).2 := by
  have halive : (Act.alive e).runIn enter w = (some (w.alive e), w) := rfl
  rw [Act.turnIfAlive, Act.runIn_bind_some halive]
  cases w.alive e with
  | true =>
    refine ⟨.turn s e, .inl rfl, h.trans (h.quiet (.held _ ([e] ++ w.held))) ?_⟩
    exact h.bind (h.serve hserved e) (fun _ => h.bind (h.release [e]) fun _ => h.pure _) _
  | false =>
    exact ⟨.skipped s e, .inr rfl, h.bind (h.message _ (h.pure _)) (fun _ => h.pure _) _⟩

theorem turns (h : Admits R enter) {s : SchedulerId}
    (hnext : ∀ {w : World σ} {e rest event}, (w.scheduler s).running = e :: rest →
      event = .turn s e ∨ event = .skipped s e → R true w ((w.popped s).record event))
    (hserved : ∀ w e success, R true w (w.record (.served s e success))) (n : Nat) :
    ∀ report, Keeps R enter (Act.turns s n report) := by
  induction n with
  | zero => exact fun _ => h.pure _
  | succ n ih =>
    intro report w
    by_cases hexists : (w.schedulers.get? s.row).isSome
    · cases hrunning : (w.scheduler s).running with
      | nil =>
        rw [Act.runIn_turns_nil enter hexists hrunning]
        exact h.refl w
      | cons e rest =>
        rw [Act.runIn_turns_cons enter hrunning]
        obtain ⟨event, hevent, hturn⟩ := h.turnIfAlive hserved e (w.popped s)
        refine h.trans (hnext hrunning hevent) ?_
        rw [Act.runIn_bind]
        revert hturn
        rcases (Act.turnIfAlive s e).runIn enter (w.popped s) with ⟨_ | turned, w'⟩
        · exact id
        · exact fun hturn => h.trans hturn (ih _ w')
    · have hnone : (Act.turns s (n + 1) report).runIn enter w = (none, w) :=
        Act.runIn_bind_none (Act.runIn_bind_none (Act.runIn_scheduler_none enter w s hexists))
      rw [hnone]
      exact h.refl w

end Admits

end ReactiveViews
