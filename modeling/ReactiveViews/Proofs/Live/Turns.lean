import ReactiveViews.Proofs.Live.Aftermath
import ReactiveViews.Proofs.Live.Operations

/-!
# The turns of a batch

The elements of a batch have their turns in the order in which they have been requested. A living element is
updated, and a dead one is skipped; between the turns no element is touched, and the same ones are held
(`Lull`).

## What is proved

In a batch without failures the elements that have been requested before have their turns, if they have
trees (`Host.Serves.of_batchOf`).
-/

namespace ReactiveViews

variable {σ : Type}

/-! ### Between turns -/

/-- From a world to another one in which no element has been touched, and the same ones are held. -/
structure Lull (w w' : World σ) : Prop where
  /-- Nothing has been touched. -/
  touches : Touches (fun _ => False) w w'
  /-- What is held. -/
  held : w'.held = w.held

namespace Lull

variable {u v w : World σ}

theorem refl (w : World σ) : Lull w w := ⟨.refl w, rfl⟩

theorem trans (h : Lull u v) (h' : Lull v w) : Lull u w :=
  ⟨h.touches.trans h'.touches, h'.held.trans h.held⟩

theorem of_looked (h : Looked v w) : Lull v w := ⟨h.touches, h.held⟩

theorem record (w : World σ) (event : Event) : Lull w (w.record event) := ⟨.record w event, rfl⟩

/-- Schedulers and receivers are no elements. -/
theorem unscheduled (w : World σ) (schedulers : Table Scheduler) (receivers : Table ReceiverState) :
    Lull w { w with schedulers, receivers } :=
  ⟨⟨.refl _, rfl, rfl, List.prefix_refl _, fun _ x hx => ⟨x, hx, rfl, fun _ => rfl⟩⟩, rfl⟩

theorem updateScheduler (w : World σ) (s : SchedulerId) (f : Scheduler → Scheduler) :
    Lull w (w.updateScheduler s f) := by
  unfold World.updateScheduler
  split
  · exact .unscheduled w _ _
  · exact .refl w

theorem afterBegin (w : World σ) (s : SchedulerId) : Lull w (w.afterBegin s) :=
  (updateScheduler w s _).trans (.record _ _)

theorem afterTells (state : ReceiverState) (rs : List ReceiverId) (w : World σ) :
    Lull w (w.afterTells state rs) := by
  induction rs generalizing w with
  | nil => exact .refl w
  | cons r rest ih =>
    rw [World.afterTells]
    split
    · exact (unscheduled w _ _).trans ((record _ (.resolved r state)).trans (ih _))
    · exact ih w

theorem afterRequest (w : World σ) (s : SchedulerId) (e : ElementId) : Lull w (w.afterRequest s e) :=
  (unscheduled w _ _).trans ((updateScheduler w.handOut s _).trans (.record _ _))

end Lull

/-! ### Turns -/

/-- The turns of a batch, in order: a living element is updated, and with success, and a dead one is skipped.
Nothing else is touched, and the same elements are held before and after each turn. -/
inductive Host.Serves (host : Host σ) : List ElementId → World σ → World σ → Prop where
  /-- All turns are over. -/
  | done {w w' : World σ} : Lull w w' → Serves host [] w w'
  /-- An element is skipped. -/
  | skip {c : ElementId} {rest : List ElementId} {w v w' : World σ} : Lull w v → v.alive c = false →
    Serves host rest v w' → Serves host (c :: rest) w w'
  /-- An element is updated. -/
  | turn {c : ElementId} {rest : List ElementId} {depth : Nat} {w u u' v w' : World σ} :
    Touches (fun _ => False) w u → (Act.update c).runIn (host.enter depth) u = (some (.ok ()), u') →
    Touches (fun _ => False) u' v → v.held = w.held → Serves host rest v w' →
    Serves host (c :: rest) w w'

section

variable {host : Host σ} {w w' v : World σ} {child : Node Resolver} {s : SchedulerId} {c : ElementId}
  {es rest : List ElementId} {depth n : Nat} {report report' : BatchReport}

theorem Host.Serves.after (hw : Lull w v) (h : host.Serves es v w') : host.Serves es w w' := by
  cases h with
  | done h => exact .done (hw.trans h)
  | skip h hdead hrest => exact .skip (hw.trans h) hdead hrest
  | turn h hrun h' hheld hrest => exact .turn (hw.touches.trans h) hrun h' (hheld.trans hw.held) hrest

theorem Host.Serves.before (h : host.Serves es w v) (hv : Lull v w') : host.Serves es w w' := by
  induction h with
  | done h => exact .done (h.trans hv)
  | skip h hdead _ ih => exact .skip h hdead (ih hv)
  | turn h hrun h' hheld _ ih => exact .turn h hrun h' hheld (ih hv)

theorem Act.runIn_enterUpdate_ok
    (hrun : (Act.enterUpdate c).runIn (host.enter depth) w = (some (.ok ()), v)) :
    ∃ depth', (Act.update c).runIn (host.enter depth') w = (some (.ok ()), v) := by
  cases depth with
  | zero => cases hrun
  | succ depth => exact ⟨depth, hrun⟩

/-- A living element is updated in its turn. -/
theorem Host.update_of_turn (hharmless : ∀ depth, Harmless (host.enter depth))
    (hchild : Standing w child c) (hrun : (Act.turn s c).runIn (host.enter depth) w = (some report, v))
    (hfailed : report.failed = 0) :
    ∃ depth' u u', Touches (fun _ => False) w u ∧
      (Act.update c).runIn (host.enter depth') u = (some (.ok ()), u') ∧ Touches (fun _ => False) u' v ∧
      v.held = w.held ∧ v.schedulers = w.schedulers := by
  have hbegun : Touches (fun _ => False) w (World.record { w with held := c :: w.held } (.turn s c)) :=
    (Touches.of_held w _).trans (.record _ _)
  have hrun : (Act.serve s c >>= fun turned => Act.release [c] >>= fun _ => pure turned).runIn
      (host.enter depth) (World.record { w with held := c :: w.held } (.turn s c)) = (some report, v) := hrun
  obtain ⟨turned, u, hserve, hrelease⟩ := Act.runIn_bind_eq_some hrun
  obtain ⟨answer, u', hupdate, hserve⟩ := Act.runIn_bind_eq_some hserve
  cases hrelease
  rw [Act.runIn_bind_some (Act.runIn_record _ _ u')] at hserve
  obtain rfl := Act.runIn_account hserve
  cases answer with
  | error error => cases hfailed
  | ok =>
    cases hserve
    obtain ⟨depth', hupdate⟩ := Act.runIn_enterUpdate_ok hupdate
    obtain ⟨⟨-, hheld, hschedulers, -⟩, -⟩ :=
      host.update_stands hharmless depth' (hchild.untouched hbegun) hupdate
    refine ⟨depth', _, u', hbegun, hupdate, (Touches.record _ _).trans (.of_held _ _), ?_, hschedulers⟩
    show u'.held.erase c = w.held
    rw [hheld]
    exact List.erase_cons_head ..

/-- A turn, as the first one of a batch. -/
theorem Host.serves_of_turnIfAlive (hharmless : ∀ depth, Harmless (host.enter depth))
    (hchild : Standing w child c)
    (hrun : (Act.turnIfAlive s c).runIn (host.enter depth) w = (some report, v)) (hfailed : report.failed = 0) :
    v.schedulers = w.schedulers ∧ Upholds w v ∧
      ∀ {rest w'}, host.Serves rest v w' → host.Serves (c :: rest) w w' := by
  have halive : (Act.alive c).runIn (host.enter depth) w = (some (w.alive c), w) := rfl
  rw [Act.turnIfAlive, Act.runIn_bind_some halive] at hrun
  cases hliving : w.alive c with
  | true =>
    rw [hliving] at hrun
    obtain ⟨depth', u, u', hu, hupdate, hv, hheld, hschedulers⟩ :=
      host.update_of_turn hharmless hchild hrun hfailed
    refine ⟨hschedulers, ?_, .turn hu hupdate hv hheld⟩
    have hupholds := host.update_upholds hharmless depth' (hchild.untouched hu) hupdate
    exact (Upholds.of_untouched hu).trans (hupholds.trans (.of_untouched hv))
  | false =>
    rw [hliving, if_neg Bool.false_ne_true, Act.runIn_bind_some (Act.runIn_record _ _ w)] at hrun
    have hlooked := ((Looks.message .warn (.pure _)).bind fun _ => .pure _) _ _ _ hrun
    have hv := (Lull.record w (.skipped s c)).trans (.of_looked hlooked)
    exact ⟨hlooked.schedulers, .of_untouched hv.touches, fun hrest => .skip (.refl w) hliving (hrest.after hv)⟩

/-- Failures are counted, and never forgotten. -/
theorem Act.failed_le_of_turns {enter : Enter σ}
    (hrun : (Act.turns s n report).runIn enter w = (some report', v)) : report.failed ≤ report'.failed := by
  induction n generalizing report w with
  | zero =>
    cases hrun
    exact Nat.le_refl _
  | succ n ih =>
    rw [Act.turns] at hrun
    obtain ⟨first, u, -, hrun⟩ := Act.runIn_bind_eq_some hrun
    cases first with
    | none =>
      cases hrun
      exact Nat.le_refl _
    | some c =>
      obtain ⟨turned, u', -, hrun⟩ := Act.runIn_bind_eq_some hrun
      exact (Nat.le_add_right _ _).trans (ih hrun)

theorem Host.Serves.of_turns (hharmless : ∀ depth, Harmless (host.enter depth))
    (hstanding : ∀ c ∈ (w.scheduler s).running, ∃ child, Standing w child c)
    (hn : (w.scheduler s).running.length ≤ n)
    (hrun : (Act.turns s n report).runIn (host.enter depth) w = (some report', v))
    (hfailed : report'.failed = 0) : host.Serves (w.scheduler s).running w v := by
  induction n generalizing report w with
  | zero =>
    obtain ⟨hnil, rfl, -⟩ | ⟨c, rest, m, turned, u, hrunning, ⟨⟩, -⟩ := Act.turns_cases hn hrun
    exact hnil ▸ .done (.refl _)
  | succ n ih =>
    obtain ⟨hnil, rfl, -⟩ | ⟨c, rest, m, turned, u, hrunning, ⟨⟩, hturned, hrun⟩ := Act.turns_cases hn hrun
    · exact hnil ▸ .done (.refl _)
    rw [hrunning] at hstanding hn ⊢
    have hpop : Lull w (w.popped s) := .updateScheduler w s _
    obtain ⟨⟨child, hchild⟩, hrest⟩ := List.forall_mem_cons.mp hstanding
    have hle : report.failed + turned.failed ≤ 0 := hfailed ▸ Act.failed_le_of_turns hrun
    obtain ⟨hschedulers, hupholds, hserves⟩ := host.serves_of_turnIfAlive hharmless
      (hchild.untouched hpop.touches) hturned (by omega)
    -- the turn has left the list of those that follow as it was
    have hleft : (u.scheduler s).running = rest := by
      rw [World.scheduler, hschedulers]
      show ((w.popped s).scheduler s).running = rest
      rw [World.popped, World.scheduler_updateScheduler_self w s (.inr rfl), hrunning, List.tail_cons]
    refine .after hpop (hserves (hleft ▸ ih ?_ ?_ hrun))
    · rw [hleft]
      intro b hb
      obtain ⟨other, hother⟩ := hrest b hb
      exact ⟨other, hupholds _ _ (hother.untouched hpop.touches)⟩
    · rw [hleft]
      exact Nat.le_of_succ_le_succ hn

/-- A batch without failures gives its elements their turns. -/
theorem Host.Serves.of_runBatch (hharmless : ∀ depth, Harmless (host.enter depth))
    (hstanding : ∀ c ∈ (w.scheduler s).pending, ∃ child, Standing w child c)
    (hrun : (Act.runBatch s).runIn (host.enter depth) w = (some report, v)) (hfailed : report.failed = 0) :
    host.Serves (w.scheduler s).pending w v := by
  by_cases hexists : (w.schedulers.get? s.row).isSome
  · rw [Act.runIn_runBatch_some _ _ _ hexists] at hrun
    obtain ⟨report', u, hturns, hrun⟩ := Act.runIn_bind_eq_some hrun
    rw [Act.runIn_bind_some (Act.runIn_tells _ _ _ u)] at hrun
    obtain ⟨_, u', hmessage, hrun⟩ := Act.runIn_bind_eq_some hrun
    cases hrun
    have hlooked := Looks.message .debug (.pure _) _ _ _ hmessage
    have hbegun := Lull.afterBegin w s
    have hrunning := w.running_afterBegin s
    have hserves : host.Serves (w.scheduler s).pending (w.afterBegin s) u := by
      rw [← hrunning]
      refine .of_turns hharmless (fun c hc => ?_) (hrunning ▸ Nat.le_refl _) hturns hfailed
      obtain ⟨child, hchild⟩ := hstanding c (hrunning ▸ hc)
      exact ⟨child, hchild.untouched hbegun.touches⟩
    exact .after hbegun (hserves.before ((Lull.afterTells .done _ u).trans (.of_looked hlooked)))
  · rw [Act.runIn_runBatch_none _ _ _ hexists] at hrun
    cases hrun

/-! ### Requests -/

theorem Act.mem_enlist {b : ElementId} : c ∈ Act.enlist es b ↔ c ∈ es ∨ c = b := by
  unfold Act.enlist
  split
  · next hmem => exact ⟨.inl, fun h => h.elim id fun heq => heq ▸ List.contains_iff_mem.mp hmem⟩
  · rw [List.mem_append, List.mem_singleton]

theorem World.pending_framed (w : World σ) (s : SchedulerId) (frame : Bool) :
    ((w.updateScheduler s ({ · with frame })).scheduler s).pending = (w.scheduler s).pending := by
  by_cases hexists : (w.schedulers.get? s.row).isSome
  · rw [World.scheduler_updateScheduler_self w s (.inl hexists)]
  · simp only [Option.not_isSome_iff_eq_none] at hexists
    rw [World.updateScheduler, hexists]

/-- What is requested of a scheduler waits for its next batch. -/
theorem Act.lull_of_request {enter : Enter σ} {r : ReceiverId}
    (hrun : (Act.request s c).runIn enter w = (some r, v)) :
    Lull w v ∧ (v.scheduler s).pending = Act.enlist (w.scheduler s).pending c := by
  by_cases hexists : (w.schedulers.get? s.row).isSome
  · rw [Act.runIn_request_some _ _ _ _ hexists] at hrun
    have hrequest := Lull.afterRequest w s c
    have hpending : ((w.afterRequest s c).scheduler s).pending = Act.enlist (w.scheduler s).pending c := by
      rw [World.afterRequest, World.scheduler_record, World.scheduler_updateScheduler_self w.handOut s (.inl hexists)]
      rfl
    split at hrun
    · obtain ⟨_, v', hask, hrun⟩ := Act.runIn_bind_eq_some hrun
      obtain ⟨_, u, hmessage, hupdate⟩ := Act.runIn_bind_eq_some hask
      cases hrun
      cases hupdate
      have hlooked := Looks.message .trace (.pure _) _ _ _ hmessage
      refine ⟨hrequest.trans ((Lull.of_looked hlooked).trans (.updateScheduler u s _)), ?_⟩
      refine (u.pending_framed s true).trans ?_
      rw [World.scheduler, hlooked.schedulers]
      exact hpending
    · cases hrun
      exact ⟨hrequest, hpending⟩
  · rw [Act.runIn_request_none _ _ _ _ hexists] at hrun
    cases hrun

/-- Elements are requested one after the other. -/
theorem Act.lull_of_requests {enter : Enter σ} {rs : List ReceiverId}
    (hrun : (es.mapM (Act.request s)).runIn enter w = (some rs, v)) :
    Lull w v ∧ ∀ c, c ∈ (v.scheduler s).pending ↔ c ∈ (w.scheduler s).pending ∨ c ∈ es := by
  induction es generalizing w rs with
  | nil =>
    cases hrun
    exact ⟨.refl v, fun c => by simp⟩
  | cons b rest ih =>
    rw [List.mapM_cons] at hrun
    obtain ⟨r, u, hrequest, hrun⟩ := Act.runIn_bind_eq_some hrun
    obtain ⟨rs', u', hrest, hrun⟩ := Act.runIn_bind_eq_some hrun
    cases hrun
    obtain ⟨hu, hpending⟩ := Act.lull_of_request hrequest
    obtain ⟨hv, hmem⟩ := ih hrest
    refine ⟨hu.trans hv, fun c => ?_⟩
    rw [hmem, hpending, Act.mem_enlist, List.mem_cons, or_assoc]

/-- Some elements are requested, one after the other, and a batch is run. -/
def Act.batchOf (s : SchedulerId) (es : List ElementId) : Act σ BatchReport := do
  let _ ← es.mapM (request s)
  runBatch s

/-- **Batches.** In a batch without failures the elements have their turns that have been requested. -/
theorem Host.Serves.of_batchOf (hharmless : ∀ depth, Harmless (host.enter depth))
    (hstanding : ∀ c, c ∈ (w.scheduler s).pending ∨ c ∈ es → ∃ child, Standing w child c)
    (hrun : (Act.batchOf s es).runIn (host.enter depth) w = (some report, v)) (hfailed : report.failed = 0) :
    ∃ order, (∀ c, c ∈ order ↔ c ∈ (w.scheduler s).pending ∨ c ∈ es) ∧ host.Serves order w v := by
  obtain ⟨rs, u, hrequests, hbatch⟩ := Act.runIn_bind_eq_some hrun
  obtain ⟨hu, hmem⟩ := Act.lull_of_requests hrequests
  refine ⟨(u.scheduler s).pending, hmem, .after hu (.of_runBatch hharmless (fun c hc => ?_) hbatch hfailed)⟩
  obtain ⟨child, hchild⟩ := hstanding c ((hmem c).mp hc)
  exact ⟨child, hchild.untouched hu.touches⟩

end

end ReactiveViews
