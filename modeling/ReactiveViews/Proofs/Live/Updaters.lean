import ReactiveViews.Live.Requests
import ReactiveViews.Proofs.Live.Ledger
import ReactiveViews.Proofs.Live.Sheltering

/-!
# Updaters are never lost and never run inside of themselves

An updater is taken out of its element while it runs, and put back unless another one has been installed
in the meantime. What it runs may update the element again, or install other updaters, or both, as deep
as it likes; and the updater may fail. So several updaters of one element can be in the middle of a run at
the same time, each of them installed during the run of the one before.

## The model

A `Roster` is what the journal tells of the updaters of an element: those that have been installed, and
the runs that have begun and not ended. A run is told by how many updaters had been installed when it
began: no two updaters that have been installed are the same one, even if they have the same number.

## What is proved

What is said in `World.Tends` holds in every world: an updater that is in its element is the one that was
installed last, and is not running, and as long as there is none in the element the one that was installed
last is running. What starts with an updater and ends with it keeps this (`World.Tends.start`,
`World.Tends.finish`), if what comes in between does, and so everything does that is put together from
acts; if it comes to an end the same runs are open as before (`Host.tidies`). So it holds of every world
that a host program sees (`Host.updater_rests`).
-/

namespace ReactiveViews

variable {σ α : Type}

/-! ### What the journal tells of updaters -/

/-- Whether an event tells of the updaters of an element. -/
def Event.concerns (e : ElementId) : Event → Bool
  | installed e' _ | updating e' _ | updated e' _ _ => e' = e
  | _ => false

/-- What is known of the updaters of an element. -/
structure Roster where
  /-- Those that have been installed, first to last; those of the host program have numbers. -/
  installed : List (Option Nat)
  /-- The runs that are open, last first, each with the number of updaters that had been installed when
  it began; the last one of these is the one that runs. -/
  running : List Nat

namespace Roster

/-- Nothing has been installed. -/
def none : Roster := ⟨[], []⟩

/-- What is known after an event. -/
def after (e : ElementId) (r : Roster) : Event → Roster
  | .installed e' u => if e' = e then { r with installed := r.installed ++ [u] } else r
  | .updating e' _ => if e' = e then { r with running := r.installed.length :: r.running } else r
  | .updated e' _ _ => if e' = e then { r with running := r.running.tail } else r
  | _ => r

/-- The event may come next. An updater that begins is the one that was installed last, and no run of it
is open; one that ends is the one that has begun last. -/
def Expects (e : ElementId) (r : Roster) : Event → Prop
  | .updating e' n => e' = e → r.installed.getLast? = some n ∧ r.installed.length ∉ r.running
  | .updated e' n _ => e' = e → ∃ k rest, r.running = k :: rest ∧ (r.installed.take k).getLast? = some n
  | _ => True

/-- What is known fits an element with an updater: this one was installed last, and is not running; if
there is none, either none was ever installed, or the one that was installed last has begun last. -/
def Fits (r : Roster) : Option Updater → Prop
  | some u => r.installed.getLast? = some u.number? ∧ ∀ k ∈ r.running, k < r.installed.length
  | .none => (r.installed = [] ∧ r.running = []) ∨ r.running.head? = some r.installed.length

theorem after_of_not_concerns {e : ElementId} (r : Roster) {event : Event}
    (h : event.concerns e = false) : r.after e event = r := by
  cases event <;> first | rfl | exact if_neg (by simpa [Event.concerns] using h)

theorem expects_of_not_concerns {e : ElementId} (r : Roster) {event : Event}
    (h : event.concerns e = false) : r.Expects e event := by
  cases event with
  | updating e' n => exact fun he => absurd he (by simpa [Event.concerns] using h)
  | updated e' n success => exact fun he => absurd he (by simpa [Event.concerns] using h)
  | _ => trivial

end Roster

/-- What events tell of the updaters of an element. -/
def roster (e : ElementId) (events : List Event) : Roster := events.foldl (Roster.after e) .none

theorem roster_snoc (e : ElementId) (events : List Event) (event : Event) :
    roster e (events ++ [event]) = (roster e events).after e event := by
  simp [roster]

/-- Only what concerns the element tells of it. -/
theorem roster_filter (e : ElementId) (events : List Event) :
    roster e (events.filter (·.concerns e)) = roster e events := by
  induction events using List.reverseRecOn with
  | nil => rfl
  | append_singleton events event ih =>
    rw [List.filter_append, roster_snoc]
    cases hconcerns : event.concerns e with
    | false =>
      rw [List.filter_singleton, hconcerns, Roster.after_of_not_concerns _ hconcerns]
      simpa using ih
    | true =>
      rw [List.filter_singleton, hconcerns]
      simp only [cond_true, roster_snoc, ih]

/-- Each event comes when it may come next. -/
def TakesTurns (e : ElementId) (events : List Event) : Prop :=
  ∀ (before after : List Event) (event : Event), events = before ++ event :: after →
    (roster e before).Expects e event

theorem TakesTurns.nil (e : ElementId) : TakesTurns e [] :=
  fun _ _ _ heq => by simp at heq

theorem TakesTurns.snoc {e : ElementId} {events : List Event} (h : TakesTurns e events) {event : Event}
    (hevent : (roster e events).Expects e event) : TakesTurns e (events ++ [event]) := by
  intro before after event' heq
  cases after using List.reverseRecOn with
  | nil =>
    obtain ⟨rfl, hlast⟩ := List.append_inj' heq rfl
    cases hlast
    exact hevent
  | append_singleton after last =>
    rw [← List.cons_append, ← List.append_assoc] at heq
    exact h before after event' (List.append_inj' heq rfl).1

/-- It is enough that those come so that concern the element. -/
theorem TakesTurns.of_filter {e : ElementId} {events : List Event}
    (h : TakesTurns e (events.filter (·.concerns e))) : TakesTurns e events := by
  intro before after event heq
  cases hconcerns : event.concerns e with
  | false => exact Roster.expects_of_not_concerns _ hconcerns
  | true =>
    have hsplit : events.filter (·.concerns e) =
        before.filter (·.concerns e) ++ event :: after.filter (·.concerns e) := by
      rw [heq, List.filter_append, List.filter_cons_of_pos hconcerns]
    rw [← roster_filter]
    exact h _ _ _ hsplit

/-! ### Worlds in which the updater of an element is in order -/

namespace World

/-- What the journal tells of the updaters of an element. -/
def updatesOf (w : World σ) (e : ElementId) : List Event := w.updates.filter (·.concerns e)

/-- What is known of the updaters of an element. -/
def roster (w : World σ) (e : ElementId) : Roster := ReactiveViews.roster e (w.updatesOf e)

/-- The updater of an element is in order. -/
structure Tends (w : World σ) (e : ElementId) : Prop where
  /-- Updaters have begun and ended as they should. -/
  turns : TakesTurns e (w.updatesOf e)
  /-- No run has begun with more updaters than have been installed. -/
  bounded : ∀ k ∈ (w.roster e).running, k ≤ (w.roster e).installed.length
  /-- The element has the updater that it should have. -/
  fits : ∀ {x : Element}, w.elements.get? e.row = some x → (w.roster e).Fits x.updater
  /-- As long as there is no such element, nothing is told of it. -/
  absent : w.elements.get? e.row = none → w.roster e = .none

theorem updatesOf_record (w : World σ) (e : ElementId) (event : Event) :
    (w.record event).updatesOf e = w.updatesOf e ++ if event.concerns e then [event] else [] := by
  rw [updatesOf, updates_record, List.filter_append]
  cases event <;> simp [updatesOf, Event.isUpdate, Event.concerns, List.filter_cons]

theorem roster_record (w : World σ) (e : ElementId) (event : Event) :
    (w.record event).roster e = (w.roster e).after e event := by
  rw [roster, updatesOf_record]
  split
  · exact roster_snoc e _ _
  · rename_i hconcerns
    rw [List.append_nil, Roster.after_of_not_concerns _ (Bool.not_eq_true _ ▸ hconcerns)]
    rfl

theorem updatesOf_updateElement (w : World σ) (e e' : ElementId) (f : Element → Element) :
    (w.updateElement e' f).updatesOf e = w.updatesOf e := by
  rw [updatesOf, updates, journal_updateElement, updatesOf, updates]

theorem roster_updateElement (w : World σ) (e e' : ElementId) (f : Element → Element) :
    (w.updateElement e' f).roster e = w.roster e :=
  congrArg (ReactiveViews.roster e) (w.updatesOf_updateElement e e' f)

/-- What may come next comes, and the element is as it should be after it. -/
theorem Tends.record {w w' : World σ} {e : ElementId} {event : Event} {x : Element} (hw : w.Tends e)
    (hupdates : w'.updatesOf e = w.updatesOf e) (hevent : (w.roster e).Expects e event)
    (hbounded : ∀ k ∈ ((w.roster e).after e event).running,
      k ≤ ((w.roster e).after e event).installed.length)
    (hx : w'.elements.get? e.row = some x) (hfits : ((w.roster e).after e event).Fits x.updater) :
    (w'.record event).Tends e := by
  have hroster : (w'.record event).roster e = (w.roster e).after e event := by
    rw [roster_record, roster, hupdates]
    rfl
  refine ⟨?_, hroster ▸ hbounded, fun {y} hy => ?_, fun habsent => ?_⟩
  · rw [updatesOf_record, hupdates]
    split
    · exact hw.turns.snoc hevent
    · rw [List.append_nil]
      exact hw.turns
  · obtain rfl : x = y := Option.some.inj (hx.symm.trans hy)
    exact hroster ▸ hfits
  · cases hx.symm.trans habsent

theorem tends_empty (level : Level) (memory : σ) (e : ElementId) : (empty level memory).Tends e where
  turns := .nil e
  bounded := List.forall_mem_nil _
  fits hx := by simp [empty, Table.get?, Table.empty] at hx
  absent _ := rfl

end World

/-- The updater of an element is kept in order: the element is not lost, its updaters are installed one
after the other, and when it is over the same runs are open as before. -/
structure Tidies (e : ElementId) (b : Bool) (w w' : World σ) : Prop where
  /-- It is still in order. -/
  tends : w'.Tends e
  /-- The element is not lost. -/
  lasts : (w.elements.get? e.row).isSome → (w'.elements.get? e.row).isSome
  /-- What has been installed has been. -/
  installed : (w.roster e).installed <+: (w'.roster e).installed
  /-- The open runs are the same. -/
  running : b = true → (w'.roster e).running = (w.roster e).running

/-- What may be done to a world in which the updater of the element is in order. -/
def Tidying (e : ElementId) : Effect σ := fun b w w' => w.Tends e → Tidies e b w w'

namespace Tidies

variable {e : ElementId} {b : Bool} {u v w w' : World σ}

theorem trans (h : Tidies e true u v) (h' : Tidies e b v w) : Tidies e b u w where
  tends := h'.tends
  lasts hsome := h'.lasts (h.lasts hsome)
  installed := h.installed.trans h'.installed
  running hb := (h'.running hb).trans (h.running rfl)

/-- Nothing is told of the element, and its updater is the same. -/
theorem of_updater_eq (hw : w.Tends e) (hupdates : w'.updatesOf e = w.updatesOf e)
    (hupdater : (w'.elements.get? e.row).map Element.updater =
      (w.elements.get? e.row).map Element.updater) : Tidies e b w w' := by
  have hroster : w'.roster e = w.roster e := congrArg (roster e) hupdates
  refine ⟨⟨hupdates ▸ hw.turns, hroster ▸ hw.bounded, fun {x'} hx' => ?_, fun habsent => ?_⟩,
    fun hsome => ?_, hroster ▸ List.prefix_refl _, fun _ => by rw [hroster]⟩
  · rw [hx'] at hupdater
    obtain ⟨x, hx, hsame⟩ := Option.map_eq_some_iff.mp hupdater.symm
    rw [hroster, ← hsame]
    exact hw.fits hx
  · rw [habsent] at hupdater
    rw [hroster]
    exact hw.absent (Option.map_eq_none_iff.mp hupdater.symm)
  · rw [← Option.isSome_map, hupdater, Option.isSome_map]
    exact hsome

/-- Another element is changed, or something else than the updater. -/
theorem updateElement (hw : w.Tends e) {e' : ElementId} {f : Element → Element}
    (hf : e' = e → ∀ x, (f x).updater = x.updater) : Tidies e b w (w.updateElement e' f) := by
  refine .of_updater_eq hw (w.updatesOf_updateElement e e' f) ?_
  by_cases he : e = e'
  · obtain rfl := he
    cases hx : w.elements.get? e.row with
    | none => rw [World.updateElement, hx, hx]
    | some x =>
      rw [World.get?_updateElement_self hx]
      exact congrArg some (hf rfl x)
  · rw [World.get?_updateElement_of_ne w he f]

/-- The element gets another updater, and this is told. -/
theorem install (hw : w.Tends e) {x : Element} (hx : w.elements.get? e.row = some x)
    {f : Element → Element} {updater : Updater} (hf : (f x).updater = some updater) :
    Tidies e b w ((w.updateElement e f).record (.installed e updater.number?)) := by
  have hself := World.get?_updateElement_self hx f
  have hafter : (w.roster e).after e (.installed e updater.number?) =
      { w.roster e with installed := (w.roster e).installed ++ [updater.number?] } := if_pos rfl
  have hmore : ∀ k ∈ (w.roster e).running, k < ((w.roster e).installed ++ [updater.number?]).length :=
    fun k hk => by simpa using Nat.lt_succ_of_le (hw.bounded k hk)
  have hroster : ((w.updateElement e f).record (.installed e updater.number?)).roster e =
      { w.roster e with installed := (w.roster e).installed ++ [updater.number?] } := by
    rw [World.roster_record, World.roster_updateElement, hafter]
  refine ⟨hw.record (w.updatesOf_updateElement e e f) trivial ?_ hself ?_, fun _ => ?_, ?_, fun _ => ?_⟩
  · rw [hafter]
    exact fun k hk => Nat.le_of_lt (hmore k hk)
  · rw [hafter, hf]
    exact ⟨List.getLast?_concat, hmore⟩
  · exact Option.isSome_of_mem hself
  · rw [hroster]
    exact List.prefix_append _ _
  · rw [hroster]

end Tidies

/-! ### What keeps the updater of an element in order -/

section

variable {e e' : ElementId} {b : Bool} {u v w w' : World σ} {enter : Enter σ}

theorem Tidying.trans (h : Tidying e true u v) (h' : Tidying e b v w) : Tidying e b u w := fun hu =>
  (h hu).trans (h' (h hu).tends)

theorem Tidying.aside (helements : w'.elements = w.elements) (hupdates : w'.updates = w.updates) :
    Tidying e b w w' := fun hw =>
  .of_updater_eq hw (by rw [World.updatesOf, hupdates, World.updatesOf]) (by rw [helements])

theorem tidying_updateElement {f : Element → Element}
    (hf : e' = e → ∀ x, (f x).updater = x.updater) :
    Keeps (Tidying e) enter (Act.updateElement e' f) := fun _ hw => .updateElement hw hf

theorem tidying_draw (e' : ElementId) (f : Element → Element)
    (hf : ∀ x, f x = { x with component := (f x).component, busy := (f x).busy }) :
    Keeps (Tidying e) enter (Act.updateElement e' f) :=
  tidying_updateElement fun _ x => by rw [hf x]

/-- An element gets another updater; if it is this one, it has to be there. -/
theorem Tidying.install (updater : Updater) (hthere : e' = e → (w.elements.get? e'.row).isSome)
    {f : Element → Element} (hf : ∀ x, (f x).updater = some updater) :
    Tidying e b w ((w.updateElement e' f).record (.installed e' updater.number?)) := by
  intro hw
  by_cases he : e' = e
  · obtain ⟨x, hx⟩ := Option.isSome_iff_exists.mp (hthere he)
    obtain rfl := he
    exact .install hw hx (hf x)
  · have hother : Event.concerns e (.installed e' updater.number?) = false := decide_eq_false he
    have hchanged : Tidies e true w (w.updateElement e' f) := .updateElement hw fun heq => (he heq).elim
    refine hchanged.trans (.of_updater_eq hchanged.tends ?_ rfl)
    rw [World.updatesOf_record, hother]
    simp

theorem Table.isSome_get? {t : Table α} {row : Nat} (h : row < t.size) : (t.get? row).isSome := by
  rw [get?, Array.getElem?_eq_getElem h]
  rfl

theorem Table.eq_of_get?_add {t : Table α} {a a' : α} {row : Nat} (habsent : t.get? row = none)
    (h : (t.add a).get? row = some a') : a' = a := by
  rw [get?, add, Array.getElem?_push] at h
  split at h
  · exact (Option.some.inj h).symm
  · cases habsent.symm.trans h

/-- A new element has no updater, and nothing is told of it. -/
theorem Tidying.newElement {x : Element} (hx : x.updater = none) (held : List ElementId) :
    Tidying e b w { w with elements := w.elements.add x, held } := by
  intro hw
  cases habsent : w.elements.get? e.row with
  | some y =>
    refine .of_updater_eq hw rfl ?_
    rw [Table.get?_add_old _ _ (Table.lt_size_of_get? habsent)]
  | none =>
    have hnone : w.roster e = .none := hw.absent habsent
    refine ⟨⟨hw.turns, hw.bounded, fun {y} hy => ?_, fun _ => hnone⟩, fun hsome => ?_,
      List.prefix_refl _, fun _ => rfl⟩
    · show (w.roster e).Fits y.updater
      rw [hnone, Table.eq_of_get?_add habsent hy, hx]
      exact .inl ⟨rfl, rfl⟩
    · rw [habsent] at hsome
      cases hsome

/-- What may be done to a world in which the element is there, and its updater is in order. -/
def Minding (e : ElementId) : Effect σ := fun b w w' => (w.elements.get? e.row).isSome → Tidying e b w w'

theorem tidying_draws (h : Overlooks (Tidying e) enter) : Draws (fun _ _ => True) (Tidying e) enter where
  toBears := h.toBears
  setAttribute _ v := h.toBears.setAttribute (tidying_draw _) _ v
  addListener e' := h.toBears.addListener (tidying_draw e')
  appendChild e' := h.toBears.appendChild (tidying_draw e') fun _ => tidying_updateElement fun _ _ => rfl
  clearChildren e' :=
    h.toBears.clearChildren (tidying_draw e') fun _ => tidying_updateElement fun _ _ => rfl

theorem minding_draws (h : Draws (fun _ _ => True) (Tidying e) enter) :
    Draws (fun _ _ => True) (Minding e) enter where
  ripple hripple _ := h.ripple hripple
  trans h h' hthere hu := (h hthere hu).trans (h' ((h hthere hu).lasts hthere) (h hthere hu).tends)
  calls call w _ := h.calls call w
  setAttribute hname v w _ := h.setAttribute hname v w
  addListener e' event handler w _ := h.addListener e' event handler w
  appendChild e' child w _ := h.appendChild e' child w
  clearChildren e' w _ := h.clearChildren e' w

theorem minding_furnish (h : Overlooks (Tidying e) enter) (node : Node Resolver) (factory : Factory) :
    Keeps (Minding e) enter
      (do Build.releasing [e] (Build.furnish e node factory); return e : Build σ ElementId).run :=
  (minding_draws (tidying_draws h)).furnish (fun _ => trivial) fun _ hthere =>
    .install _ (fun _ => hthere) fun _ => rfl

theorem tidying_furnish (h : Overlooks (Tidying e) enter) (he : e' ≠ e) (node : Node Resolver)
    (factory : Factory) :
    Keeps (Tidying e) enter
      (do Build.releasing [e'] (Build.furnish e' node factory); return e' : Build σ ElementId).run :=
  (tidying_draws h).furnish (fun _ => trivial) fun _ => .install _ (fun heq => (he heq).elim) fun _ => rfl

theorem tidying_builds (h : Overlooks (Tidying e) enter) :
    Builds (fun _ _ => True) (fun _ _ => True) (Tidying e) enter where
  toDraws := tidying_draws h
  remember _ _ := tidying_updateElement fun _ _ => rfl
  create node context factory := by
    refine (tidying_draws h).create fun component w => ?_
    let x : Element := ⟨node.tag, component, false, context, [], none, []⟩
    have hmade : Tidying e true w
        { w with elements := w.elements.add x, held := ⟨w.elements.size⟩ :: w.held } := .newElement rfl _
    refine Tidying.trans hmade ?_
    by_cases he : ⟨w.elements.size⟩ = e
    · have hthere : (w.elements.add x).get? w.elements.size = some x := Table.get?_add_new _ _
      subst he
      exact minding_furnish h node factory _ (Option.isSome_of_mem hthere)
    · exact tidying_furnish h he node factory _

/-! ### Runs of an updater -/

/-- The element when an updater is put back that has run. -/
def Element.regain (updater : Updater) (x : Element) : Element :=
  match x.updater with
  | none => { x with updater := some updater }
  | some _ => if updater.isView then { x with slots := [] } else x

theorem Element.updater_regain (updater : Updater) (x : Element) :
    (x.regain updater).updater = x.updater.or (some updater) := by
  unfold Element.regain
  cases hupdater : x.updater with
  | none => rfl
  | some other =>
    dsimp only
    split
    · rfl
    · exact hupdater

theorem tidying_record {event : Event} (h : event.concerns e = false) :
    Keeps (Tidying e) enter (Act.record event) := fun w hw =>
  .of_updater_eq hw ((w.updatesOf_record e event).trans (by rw [h]; simp)) rfl

namespace World.Tends

variable {x : Element} {updater : Updater}

/-- The updater is taken out of the element, and begins. -/
theorem start (hw : w.Tends e) (hx : w.elements.get? e.row = some x) (hupdater : x.updater = some updater) :
    let v := (w.updateElement e ({ · with updater := none })).record (.updating e updater.number?)
    v.Tends e ∧ v.roster e =
      { w.roster e with running := (w.roster e).installed.length :: (w.roster e).running } := by
  intro v
  have hafter : (w.roster e).after e (.updating e updater.number?) =
      { w.roster e with running := (w.roster e).installed.length :: (w.roster e).running } := if_pos rfl
  obtain ⟨hlast, hless⟩ : (w.roster e).Fits (some updater) := hupdater ▸ hw.fits hx
  refine ⟨hw.record (w.updatesOf_updateElement e e _) (fun _ => ?_) ?_
    (World.get?_updateElement_self hx _) ?_, ?_⟩
  · exact ⟨hlast, fun hmem => Nat.lt_irrefl _ (hless _ hmem)⟩
  · rw [hafter]
    exact List.forall_mem_cons.mpr ⟨Nat.le_refl _, hw.bounded⟩
  · rw [hafter]
    exact .inr rfl
  · rw [World.roster_record, World.roster_updateElement, hafter]

/-- An updater has ended, and is put back, unless there is another one. -/
theorem finish {k : Nat} {rest : List Nat} (hw : w.Tends e) (hx : w.elements.get? e.row = some x)
    (hrunning : (w.roster e).running = k :: rest) (hrest : ∀ j ∈ rest, j < k)
    (hlast : ((w.roster e).installed.take k).getLast? = some updater.number?) (success : Bool) :
    let v := (w.updateElement e (Element.regain updater)).record (.updated e updater.number? success)
    v.Tends e ∧ v.roster e = { w.roster e with running := rest } := by
  intro v
  have hafter : (w.roster e).after e (.updated e updater.number? success) =
      { w.roster e with running := rest } := by
    rw [Roster.after, if_pos rfl, hrunning, List.tail_cons]
  have hfits := hw.fits hx
  refine ⟨hw.record (w.updatesOf_updateElement e e _) (fun _ => ⟨k, rest, hrunning, hlast⟩) ?_
    (World.get?_updateElement_self hx _) ?_, ?_⟩
  · rw [hafter]
    exact fun j hj => hw.bounded j (hrunning ▸ List.mem_cons_of_mem _ hj)
  · rw [hafter, Element.updater_regain]
    cases hupdater : x.updater with
    | some other =>
      rw [hupdater] at hfits
      exact ⟨hfits.1, fun j hj => hfits.2 j (hrunning ▸ List.mem_cons_of_mem _ hj)⟩
    | none =>
      -- Nothing has been installed since it began.
      rw [hupdater] at hfits
      have hk : k = (w.roster e).installed.length := by
        rcases hfits with ⟨-, hnil⟩ | hhead
        · cases hrunning.symm.trans hnil
        · rw [hrunning] at hhead
          exact Option.some.inj hhead
      rw [hk, List.take_length] at hlast
      exact ⟨hlast, hk ▸ hrest⟩
  · rw [World.roster_record, World.roster_updateElement, hafter]

end World.Tends

theorem tidying_runUpdater (h : Overlooks (Tidying e) enter) (e' : ElementId) (updater : Updater) :
    Keeps (Tidying e) enter (Act.runUpdater e' updater) := by
  cases updater with
  | view node factory => exact (tidying_builds h).refresh (fun _ => trivial) (fun _ _ => trivial) factory
  | foreign number => exact h.enterHost _

/-- Whatever the updater of the element does, it ends as the last one that has begun and not ended. -/
theorem tidying_updateSelf_self (h : Overlooks (Tidying e) enter) :
    Keeps (Tidying e) enter (Act.updateSelf e) := by
  intro w hw
  cases hx : w.elements.get? e.row with
  | none =>
    rw [Act.runIn_updateSelf_none hx]
    exact .of_updater_eq hw rfl rfl
  | some x =>
    rw [Act.updateSelf, Act.runIn_bind_some (Act.runIn_takeUpdater hx)]
    cases hupdater : x.updater with
    | none =>
      refine .of_updater_eq hw (w.updatesOf_updateElement e e _) ?_
      show ((w.updateElement e _).elements.get? e.row).map _ = _
      rw [World.get?_updateElement_self hx, hx]
      exact congrArg some hupdater.symm
    | some updater =>
      dsimp only
      rw [Act.runIn_bind_some (Act.runIn_record _ _ _), Act.runIn_bind]
      obtain ⟨hv, hstarted⟩ := hw.start hx hupdater
      have hran := tidying_runUpdater h e updater _ hv
      have hthere := hran.lasts (Option.isSome_of_mem (World.get?_updateElement_self hx _))
      have hinstalled := hstarted ▸ hran.installed
      revert hran hthere hinstalled
      rcases (Act.runUpdater e updater).runIn enter
        ((w.updateElement e ({ · with updater := none })).record (.updating e updater.number?))
        with ⟨_ | answer, w'⟩
      · exact fun hran hthere hinstalled =>
          ⟨hran.tends, fun _ => hthere, hinstalled, fun hanswered => Bool.noConfusion hanswered⟩
      · intro hran hthere hinstalled
        obtain ⟨x', hx'⟩ := Option.isSome_iff_exists.mp hthere
        obtain ⟨hlast, hless⟩ : (w.roster e).Fits (some updater) := hupdater ▸ hw.fits hx
        have hrunning := (hran.running rfl).trans (congrArg Roster.running hstarted)
        have htake := List.prefix_iff_eq_take.mp hinstalled
        let v := (w'.updateElement e (Element.regain updater)).record
          (.updated e updater.number? answer.isOk)
        show Tidies e true w v
        obtain ⟨htends, hroster⟩ : v.Tends e ∧
            v.roster e = { w'.roster e with running := (w.roster e).running } :=
          hran.tends.finish hx' hrunning hless (htake ▸ hlast) answer.isOk
        refine ⟨htends, fun _ => ?_, ?_, fun _ => by rw [hroster]⟩
        · exact Option.isSome_of_mem (World.get?_updateElement_self hx' (Element.regain updater))
        · rw [hroster]
          exact hinstalled

theorem tidying_updateSelf (h : Overlooks (Tidying e) enter) (e' : ElementId) :
    Keeps (Tidying e) enter (Act.updateSelf e') := by
  by_cases he : e' = e
  · obtain rfl := he
    exact tidying_updateSelf_self h
  have halone {f : Element → Element} : Keeps (Tidying e) enter (Act.updateElement e' f) :=
    tidying_updateElement fun heq => (he heq).elim
  refine h.bind (h.bind (h.element e') fun _ => h.bind halone fun _ => h.pure _) fun taken => ?_
  cases taken with
  | none => exact h.pure _
  | some updater =>
    exact h.bind (tidying_record (decide_eq_false he)) fun _ =>
      h.bind (tidying_runUpdater h e' updater) fun _ => h.bind halone fun _ =>
        h.bind (tidying_record (decide_eq_false he)) fun _ => h.pure _

/-! ### Requests -/

theorem tidying_setUpdater (h : Overlooks (Tidying e) enter) (e' : ElementId) (updater : Nat) :
    Keeps (Tidying e) enter (Act.living e' (Act.setUpdater e' updater)) := by
  intro w
  rw [Act.living, Act.runIn_bind_some (a := w.alive e') rfl]
  split
  · rename_i halive
    rw [World.alive, Bool.and_eq_true, decide_eq_true_iff] at halive
    exact Tidying.install (.foreign updater) (fun _ => Table.isSome_get? halive.1) fun _ => rfl
  · exact h.never w

/-- The updater of an element is kept in order, whatever a host program does. -/
theorem Host.tidies (host : Host σ) (e : ElementId) : Watches (Tidying e) host fun _ => True where
  only call := .all _
  aside := Tidying.aside
  trans := Tidying.trans
  update h e' := (tidying_builds h).update (tidying_updateSelf h e')
  touches h r _ htouches := by
    have hbuilds := tidying_builds h
    cases r with
    | build view context factory => exact hbuilds.build view context factory
    | newElement tag component context => exact fun _ => Tidying.newElement rfl _
    | setAttribute e' name v => exact h.living e' (hbuilds.setAttribute trivial v)
    | addListener e' event handler => exact h.living e' (hbuilds.addListener e' event handler)
    | appendChild e' child => exact h.living e' (h.living child (hbuilds.appendChild e' child))
    | removeChild e' child =>
      exact h.living e' (h.living child (h.toBears.removeChild (tidying_draw e')
        (fun _ => tidying_updateElement fun _ _ => rfl) child))
    | clearChildren e' => exact h.living e' (hbuilds.clearChildren e')
    | setUpdater e' updater => exact tidying_setUpdater h e' updater
    | update e' => exact h.living e' (hbuilds.update (tidying_updateSelf h e'))
    | runBatch s => exact h.runBatch s
    | pump s n => exact h.pump s n
    | _ => cases htouches

end

theorem World.updatesOf_eq (w : World σ) (e : ElementId) :
    w.updatesOf e = w.history.filter (·.concerns e) := by
  rw [updatesOf, updates, List.filter_filter]
  refine List.filter_congr fun event _ => ?_
  cases event <;> simp [Event.concerns, Event.isUpdate]

/-- **An updater is never lost and never runs inside of itself.** Wherever a host program is, in the
middle of however many updates of an element, of those around it and of those below it, updaters of the
element begin and end in turn: one that begins is the one that was installed last, and is not running,
and one that ends is the one that has begun last of those that run. And if none of them is running, the
element has the updater that was installed last, and none only if none was ever installed. -/
theorem Host.updater_rests (host : Host σ) (stop : World σ → Bool) (depth : Nat) (script : Script σ α)
    (level : Level) (memory : σ) (e : ElementId) :
    let w := host.stopped stop depth script level memory
    TakesTurns e w.history ∧ ∀ {x : Element}, w.elements.get? e.row = some x →
      (roster e w.history).running = [] →
        x.updater.map Updater.number? = (roster e w.history).installed.getLast? := by
  intro w
  have hw : w.Tends e := ((host.tidies e).stopped stop depth (.all script) level memory
    (World.tends_empty level memory e)).tends
  have hroster : roster e w.history = w.roster e := by
    rw [World.roster, World.updatesOf_eq, roster_filter]
  refine ⟨.of_filter (w.updatesOf_eq e ▸ hw.turns), fun {x} hx hrunning => ?_⟩
  rw [hroster] at hrunning ⊢
  have hfits := hw.fits hx
  cases hupdater : x.updater with
  | some updater =>
    rw [hupdater] at hfits
    exact hfits.1.symm
  | none =>
    rw [hupdater] at hfits
    rcases hfits with ⟨hnone, -⟩ | hhead
    · rw [hnone]
      rfl
    · rw [hrunning] at hhead
      cases hhead

/-- A host program whose first updater installs another one and updates the element, and whose other
updaters update the element and fail. -/
def relieving : Host Unit where
  answer
    | .refresh 0 e => do
      Script.setUpdater e 1
      let _ ← Script.update e
      return .ok ()
    | .refresh _ e => do
      let _ ← Script.update e
      return .error (.rootCount 0)
    | _ => .hang

/-- An element gets the first updater and is updated. -/
def roused : Script Unit Unit := do
  let e ← Script.newElement ⟨"a", none, [], none⟩ (.headless (.new "a")) []
  Script.setUpdater e 0
  let _ ← Script.update e
  return ()

/-- The second updater runs within the run of the first one, and stays. -/
theorem Host.updater_rests_relieving :
    let w := relieving.stopped (fun _ => false) 9 roused .off ()
    w.history = [.installed ⟨0⟩ (some 0), .updating ⟨0⟩ (some 0), .installed ⟨0⟩ (some 1),
      .updating ⟨0⟩ (some 1), .updated ⟨0⟩ (some 1) false, .updated ⟨0⟩ (some 0) true] ∧
    ∃ x, w.elements.get? 0 = some x ∧ x.updater.map Updater.number? = some (some 1) := by
  intro w
  have hhistory : w.history = [.installed ⟨0⟩ (some 0), .updating ⟨0⟩ (some 0),
      .installed ⟨0⟩ (some 1), .updating ⟨0⟩ (some 1), .updated ⟨0⟩ (some 1) false,
      .updated ⟨0⟩ (some 0) true] := by decide +kernel
  have hthere : (w.elements.get? 0).isSome := by decide +kernel
  obtain ⟨x, hx⟩ := Option.isSome_iff_exists.mp hthere
  have hrests := (Host.updater_rests relieving (fun _ => false) 9 roused .off () ⟨0⟩).2 hx
  rw [hhistory] at hrests
  exact ⟨hhistory, x, hx, hrests rfl⟩

end ReactiveViews
