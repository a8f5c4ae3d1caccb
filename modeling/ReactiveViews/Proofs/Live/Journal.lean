import ReactiveViews.Proofs.Live.Operations

/-!
# The journal is only ever added to

Nothing that the library or the host program does takes anything out of the journal, whether it
answers or not. So what has been recorded once is still there when a run is looked at afterwards.

## What is proved

`Host.lengthens`: every act of every host program, at every depth, leaves what is in the journal
where it is.
-/

namespace ReactiveViews

variable {σ : Type}

/-- The journal has only been added to. -/
def Lengthens : Effect σ := fun _ w w' => w.history <+: w'.history

theorem Lengthens.of_append {answered : Bool} {w w' : World σ} (more : List Event)
    (h : w'.history = w.history ++ more) : Lengthens answered w w' := ⟨more, h.symm⟩

theorem Change.lengthens {answered : Bool} {w w' : World σ} (h : Change w w') :
    Lengthens answered w w' := by
  rcases h.journal_eq with hjournal | ⟨event, -, hjournal⟩
  · exact .of_append [] (by simp [World.history, hjournal])
  · exact .of_append [event] (by simp [World.history, hjournal])

theorem Operation.lengthens {answered : Bool} {w w' : World σ} (h : Operation w w') :
    Lengthens answered w w' := by
  obtain ⟨more, hhistory, -⟩ := h.history_eq
  exact .of_append more hhistory

theorem Lengthens.trans {answered : Bool} {u v w : World σ} (h : Lengthens true u v)
    (h' : Lengthens answered v w) : Lengthens answered u w := List.IsPrefix.trans h h'

theorem lengthens_tells (state : ReceiverState) (rs : List ReceiverId) (w : World σ) :
    Lengthens true w (w.afterTells state rs) := by
  induction rs generalizing w with
  | nil => exact Change.lengthens (.store w w.store)
  | cons r rest ih =>
    unfold World.afterTells
    split
    · exact Lengthens.trans (.of_append _ (World.history_afterTell ..)) (ih _)
    · exact ih w

section Batches

variable {enter : Enter σ} (h : Admits Lengthens enter)

include h

theorem lengthens_runBatch (s : SchedulerId) : Keeps Lengthens enter (Act.runBatch s) := by
  have hturns := h.turns (s := s)
    (fun {w e rest event} _ _ => .of_append [event] (by simp))
    (fun w e success => .of_append [.served s e success] (by simp))
  intro w
  by_cases hexists : (w.schedulers.get? s.row).isSome
  · rw [Act.runIn_runBatch_some enter w s hexists]
    have hbegin : Lengthens true w (w.afterBegin s) := .of_append _ (World.history_afterBegin w s)
    refine hbegin.trans (h.bind (hturns _ .zero) (fun report v => ?_) _)
    rw [Act.runIn_bind_some (Act.runIn_tells enter .done _ v)]
    exact (lengthens_tells .done _ v).trans
      (h.bind (h.message .debug (h.pure _)) (fun _ => h.pure report) _)
  · rw [Act.runIn_runBatch_none enter w s hexists]
    exact h.refl w

end Batches

theorem lengthens_close {enter : Enter σ} (s : SchedulerId) :
    Keeps Lengthens enter (Act.close s) := by
  intro w
  by_cases hexists : (w.schedulers.get? s.row).isSome
  · rw [Act.runIn_close_some enter w s hexists]
    have hclose : Lengthens true w (w.afterClose s) := .of_append _ (World.history_afterClose w s)
    exact hclose.trans (lengthens_tells .canceled _ _)
  · rw [Act.runIn_close_none enter w s hexists]
    exact Change.lengthens (.store w w.store)

/-- Whatever a host program does, the journal is only added to. -/
theorem Host.lengthens (host : Host σ) : Respects Lengthens host fun _ => True where
  only call := .all _
  quiet := Change.lengthens
  trans := Lengthens.trans
  schedules h r _ _ := by
    cases r with
    | runBatch s => exact lengthens_runBatch h s
    | pump s n => exact h.pump Operation.lengthens (lengthens_runBatch h s) n
    | close s => exact lengthens_close s
    | _ =>
      exact h.operation Operation.lengthens _ (fun _ => Request.noConfusion)
        (fun _ _ => Request.noConfusion) fun _ => Request.noConfusion

end ReactiveViews
