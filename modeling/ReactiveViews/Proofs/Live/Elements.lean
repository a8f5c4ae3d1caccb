import ReactiveViews.Proofs.Live.Drawing
import ReactiveViews.Proofs.Value.Overwriting

/-!
# Elements that draw nothing

What acts do to a single element whose component draws nothing: they answer, and nothing but that
element is touched. The making of an element is put together from them.

An element of a node has the attributes that its tag tells, and over them the bound ones, as many as
the updates so far have got to. Whatever they have got to, once all bound attributes are set the
attributes are what they would be if no update had been before.

## What is proved

Each act that an update does to an element alters it in a way that is written down
(`Alters.setAttribute`, `Alters.appendChild`, …), and making an element succeeds and touches none of
the others (`Build.create_sprouts`, `Build.createAll_sprouts`).
-/

namespace ReactiveViews

variable {σ α β ε : Type}

/-! ### Changing an element -/

namespace World

theorem get?_updateElement_self {w : World σ} {e : ElementId} {x : Element}
    (hx : w.elements.get? e.row = some x) (f : Element → Element) :
    (w.updateElement e f).elements.get? e.row = some (f x) := by
  unfold updateElement
  rw [hx]
  exact Table.get?_set_self _ _ (Table.lt_size_of_get? hx)

theorem get?_updateElement_of_ne (w : World σ) {e e' : ElementId} (h : e' ≠ e)
    (f : Element → Element) :
    (w.updateElement e f).elements.get? e'.row = w.elements.get? e'.row := by
  have hrow : e.row ≠ e'.row := fun hrow => h (by cases e; cases e'; cases hrow; rfl)
  unfold updateElement
  split
  · exact Table.get?_set_of_ne _ _ hrow
  · rfl

end World

namespace Touches

variable {S : ElementId → Prop}

theorem record (w : World σ) (event : Event) : Touches S w (w.record event) :=
  ⟨.refl _, rfl, rfl, ⟨[event], by simp⟩, fun _ x hx => ⟨x, hx, rfl, fun _ => rfl⟩⟩

theorem of_held (w : World σ) (held : List ElementId) : Touches S w { w with held } :=
  ⟨.refl _, rfl, rfl, List.prefix_refl _, fun _ x hx => ⟨x, hx, rfl, fun _ => rfl⟩⟩

theorem of_add (w : World σ) (x : Element) (held : List ElementId) :
    Touches S w { w with elements := w.elements.add x, held } :=
  ⟨.refl _, rfl, rfl, List.prefix_refl _, fun _ y hy =>
    ⟨y, (Table.get?_add_old _ _ (Table.lt_size_of_get? hy)).trans hy, rfl, fun _ => rfl⟩⟩

end Touches

/-- Nothing has become different but an element, the number of scopes taken and the journal, and the
element keeps the scopes around it. -/
structure Edits (e : ElementId) (w w' : World σ) : Prop where
  /-- Arrays and records. -/
  store : w'.store = w.store
  /-- The detail of the messages. -/
  level : w'.level = w.level
  /-- What the host program remembers. -/
  host : w'.host = w.host
  /-- What is held. -/
  held : w'.held = w.held
  /-- The schedulers. -/
  schedulers : w'.schedulers = w.schedulers
  /-- The receivers. -/
  receivers : w'.receivers = w.receivers
  /-- The journal has only been added to. -/
  history : w.history <+: w'.history
  /-- No element is made. -/
  size : w'.elements.size = w.elements.size
  /-- The other elements are what they were. -/
  others : ∀ row, row ≠ e.row → w'.elements.get? row = w.elements.get? row
  /-- The element keeps the scopes around it. -/
  context : ∀ x, w.elements.get? e.row = some x →
    ∃ x', w'.elements.get? e.row = some x' ∧ x'.context = x.context

namespace Edits

variable {e : ElementId} {u v w : World σ}

theorem refl (e : ElementId) (w : World σ) : Edits e w w :=
  ⟨rfl, rfl, rfl, rfl, rfl, rfl, List.prefix_refl _, rfl, fun _ _ => rfl, fun x hx => ⟨x, hx, rfl⟩⟩

theorem trans (h : Edits e u v) (h' : Edits e v w) : Edits e u w where
  store := h'.store.trans h.store
  level := h'.level.trans h.level
  host := h'.host.trans h.host
  held := h'.held.trans h.held
  schedulers := h'.schedulers.trans h.schedulers
  receivers := h'.receivers.trans h.receivers
  history := h.history.trans h'.history
  size := h'.size.trans h.size
  others row hrow := (h'.others row hrow).trans (h.others row hrow)
  context x hx := by
    obtain ⟨y, hy, hcontext⟩ := h.context x hx
    obtain ⟨z, hz, hcontext'⟩ := h'.context y hy
    exact ⟨z, hz, hcontext'.trans hcontext⟩

theorem touches (h : Edits e u v) : Touches (· = e) u v where
  store := h.store ▸ .refl _
  level := h.level
  host := h.host
  history := h.history
  element e' x hx := by
    by_cases he : e' = e
    · obtain rfl := he
      obtain ⟨x', hx', hcontext⟩ := h.context x hx
      exact ⟨x', hx', hcontext, fun hne => (hne rfl).elim⟩
    · have hrow : e'.row ≠ e.row := fun hrow => he (by cases e; cases e'; cases hrow; rfl)
      exact ⟨x, (h.others _ hrow).trans hx, rfl, fun _ => rfl⟩

/-- The element is what it was. -/
theorem untouched {S : ElementId → Prop} (h : Edits e u v) (helements : v.elements = u.elements) :
    Touches S u v :=
  { h.touches with element := fun _ x hx => ⟨x, helements ▸ hx, rfl, fun _ => rfl⟩ }

theorem updateElement (w : World σ) (e : ElementId) {f : Element → Element}
    (hf : ∀ x, (f x).context = x.context) : Edits e w (w.updateElement e f) := by
  have hcontext : ∀ x, w.elements.get? e.row = some x →
      ∃ x', (w.updateElement e f).elements.get? e.row = some x' ∧ x'.context = x.context :=
    fun x hx => ⟨f x, World.get?_updateElement_self hx f, hf x⟩
  have hothers : ∀ row, row ≠ e.row →
      (w.updateElement e f).elements.get? row = w.elements.get? row := fun row hrow => by
    have hne : (⟨row⟩ : ElementId) ≠ e := fun h => hrow (congrArg ElementId.row h)
    exact World.get?_updateElement_of_ne w hne f
  have hhistory : w.history <+: (w.updateElement e f).history := by
    have hjournal : (w.updateElement e f).history = w.history :=
      congrArg Array.toList (World.journal_updateElement w e f)
    exact hjournal ▸ List.prefix_rfl
  refine ⟨?_, ?_, ?_, ?_, ?_, ?_, hhistory, ?_, hothers, hcontext⟩ <;> unfold World.updateElement <;>
    split <;> first | rfl | exact Table.size_set _ _ _

theorem record (e : ElementId) (w : World σ) (event : Event) : Edits e w (w.record event) :=
  ⟨rfl, rfl, rfl, rfl, rfl, rfl, ⟨[event], by simp⟩, rfl, fun _ _ => rfl, fun x hx => ⟨x, hx, rfl⟩⟩

theorem of_marks (e : ElementId) (w : World σ) (marks : Nat) : Edits e w { w with marks } :=
  ⟨rfl, rfl, rfl, rfl, rfl, rfl, List.prefix_refl _, rfl, fun _ _ => rfl, fun x hx => ⟨x, hx, rfl⟩⟩

end Edits

/-! ### Runs of updaters -/

/-- Events that tell that an updater begins or ends. -/
def Event.isRun : Event → Bool
  | updating .. | updated .. => true
  | _ => false

/-- What the journal tells of the runs of updaters. -/
def World.runs (w : World σ) : List Event := w.history.filter Event.isRun

theorem World.runs_record (w : World σ) (event : Event) :
    (w.record event).runs = w.runs ++ if event.isRun then [event] else [] := by
  simp [runs, List.filter_append, List.filter_cons]

theorem World.runs_record_of_not (w : World σ) {event : Event} (h : event.isRun = false) :
    (w.record event).runs = w.runs := by
  simp [runs_record, h]

theorem World.runs_updateElement (w : World σ) (e : ElementId) (f : Element → Element) :
    (w.updateElement e f).runs = w.runs := by
  rw [runs, history, journal_updateElement, runs, history]

/-- An element is edited, and no updater begins or ends. -/
structure Retouches (e : ElementId) (w w' : World σ) : Prop extends Edits e w w' where
  /-- The runs of updaters. -/
  runs : w'.runs = w.runs

namespace Retouches

variable {e : ElementId} {u v w : World σ}

theorem refl (e : ElementId) (w : World σ) : Retouches e w w := ⟨.refl e w, rfl⟩

theorem trans (h : Retouches e u v) (h' : Retouches e v w) : Retouches e u w :=
  ⟨h.toEdits.trans h'.toEdits, h'.runs.trans h.runs⟩

theorem updateElement (w : World σ) (e : ElementId) {f : Element → Element}
    (hf : ∀ x, (f x).context = x.context) : Retouches e w (w.updateElement e f) :=
  ⟨.updateElement w e hf, w.runs_updateElement e f⟩

theorem record (e : ElementId) (w : World σ) {event : Event} (h : event.isRun = false) :
    Retouches e w (w.record event) := ⟨.record e w event, w.runs_record_of_not h⟩

theorem of_marks (e : ElementId) (w : World σ) (marks : Nat) : Retouches e w { w with marks } :=
  ⟨.of_marks e w marks, rfl⟩

end Retouches

/-! ### Messages -/

/-- A message whose text is there changes nothing but the journal. -/
theorem Act.runIn_message_edits (enter : Enter σ) {w : World σ} (level : Level) {text : Act σ String}
    {t : String} (h : w.wants level = true → text.runIn enter w = (some t, w)) :
    ∃ w', (Act.message level text).runIn enter w = (some (), w') ∧ w'.elements = w.elements ∧
      ∀ e, Retouches e w w' := by
  rw [Act.message, Act.runIn_bind_some (Act.runIn_get enter w)]
  cases hwants : w.wants level with
  | false => exact ⟨w, rfl, rfl, fun e => .refl e w⟩
  | true =>
    refine ⟨w.record (.message level t), ?_, rfl, fun e => .record e w rfl⟩
    show (text >>= fun t => Act.record (.message level t)).runIn enter w = _
    rw [Act.runIn_bind_some (h hwants)]
    rfl

/-- A message whose text is there touches nothing. -/
theorem Act.runIn_message_some (enter : Enter σ) {w : World σ} (level : Level) {text : Act σ String}
    {t : String} (h : w.wants level = true → text.runIn enter w = (some t, w)) :
    ∃ w', (Act.message level text).runIn enter w = (some (), w') ∧
      ∀ S, Touches S w w' := by
  obtain ⟨w', hrun, helements, hw⟩ := Act.runIn_message_edits enter level h
  -- whichever element may be edited, it is not
  exact ⟨w', hrun, fun S => (hw ⟨0⟩).untouched helements⟩

/-- A message that is wanted, and whose text never comes. -/
theorem Act.runIn_message_none {enter : Enter σ} {w : World σ} {level : Level} {text : Act σ String}
    (hwants : w.wants level = true) (htext : text.runIn enter w = (none, w)) :
    (Act.message level text).runIn enter w = (none, w) := by
  rw [Act.message, Act.runIn_bind_some (Act.runIn_get enter w), if_pos hwants]
  exact Act.runIn_bind_none htext

theorem Act.runIn_text (enter : Enter σ) (w : World σ) (v : Value) :
    (Act.text v).runIn enter w = (w.store.text v, w) := by
  show (Act.ofOption (w.store.text v)).runIn enter w = _
  cases w.store.text v <;> rfl

theorem Act.runIn_component {enter : Enter σ} {w : World σ} {e : ElementId} {x : Element}
    (hx : w.elements.get? e.row = some x) (hbusy : x.busy = false) :
    (Act.component e).runIn enter w = (some x.component, w) := by
  rw [Act.component, Act.runIn_bind_some (Act.runIn_element hx), hbusy]
  rfl

namespace Headless

/-- A component with an attribute that the tag tells, if it does. -/
def described (h : Headless) (name : String) (text : Option String) : Headless :=
  { h with attributes := h.attributes.putAll (text.map fun t => (name, .str t)).toList }

/-- A component with handlers for an element. -/
def listening (h : Headless) (e : ElementId) (handlers : List (String × Resolver)) : Headless :=
  handlers.foldl (fun h handler => h.addListener handler.1 (.directive e handler.2)) h

theorem described_none (h : Headless) (name : String) : h.described name none = h := rfl

theorem listening_eq (h : Headless) (e : ElementId) (handlers : List (String × Resolver)) :
    h.listening e handlers = { h with listeners := (h.listening e handlers).listeners } := by
  unfold listening
  induction handlers generalizing h with
  | nil => rfl
  | cons handler rest ih => exact ih _

end Headless

/-! ### Altering one element -/

/-- An act answers, and nothing is touched but an element, which then is as described. -/
def Alters (enter : Enter σ) (w : World σ) (e : ElementId) (act : Act σ α) (a : α)
    (x : Element) : Prop :=
  ∃ w', act.runIn enter w = (some a, w') ∧ Retouches e w w' ∧ w'.elements.get? e.row = some x

namespace Alters

variable {enter : Enter σ} {w : World σ} {e : ElementId} {x y : Element} {h : Headless}

theorem pure (hx : w.elements.get? e.row = some x) (a : α) :
    Alters enter w e (Pure.pure a) a x := ⟨w, rfl, .refl e w, hx⟩

theorem bind {act : Act σ α} {f : α → Act σ β} {a : α} {b : β} (hact : Alters enter w e act a x)
    (hf : ∀ w', Retouches e w w' → w'.elements.get? e.row = some x →
      Alters enter w' e (f a) b y) :
    Alters enter w e (act >>= f) b y := by
  obtain ⟨w', hrun, hw, hx⟩ := hact
  obtain ⟨w'', hrun', hw', hy⟩ := hf w' hw hx
  exact ⟨w'', by rw [Act.runIn_bind_some hrun, hrun'], hw.trans hw', hy⟩

theorem map {act : Act σ α} {a : α} (f : α → β) (hact : Alters enter w e act a x) :
    Alters enter w e (f <$> act) (f a) x := by
  rw [map_eq_pure_bind]
  exact hact.bind fun w' _ hx => .pure hx (f a)

theorem bindE {act : ExceptT ε (Act σ) α} {f : α → ExceptT ε (Act σ) β} {a : α} {b : β}
    (hact : Alters enter w e act.run (Except.ok a) x)
    (hf : ∀ w', Retouches e w w' → w'.elements.get? e.row = some x →
      Alters enter w' e (f a).run (Except.ok b) y) :
    Alters enter w e (act >>= f).run (Except.ok b) y := by
  rw [ExceptT.run_bind]
  exact hact.bind hf

theorem pureE (hx : w.elements.get? e.row = some x) (a : α) :
    Alters enter w e (Pure.pure a : ExceptT ε (Act σ) α).run (Except.ok a) x := .pure hx _

theorem liftE {act : Act σ α} {a : α} (hact : Alters enter w e act a x) :
    Alters enter w e (ExceptT.lift act : ExceptT ε (Act σ) α).run (Except.ok a) x :=
  hact.map Except.ok

theorem component {act : Act σ (Except ComponentError α)} {a : α}
    (hact : Alters enter w e act (Except.ok a) x) :
    Alters enter w e (Build.component act).run (Except.ok a) x := hact.map _

/-- A look at the world comes first. -/
theorem look {act : Act σ α} {f : α → Act σ β} {a : α} {b : β}
    (hrun : act.runIn enter w = (some a, w)) (hf : Alters enter w e (f a) b y) :
    Alters enter w e (act >>= f) b y := by
  obtain ⟨w', hrun', hw, hy⟩ := hf
  exact ⟨w', by rw [Act.runIn_bind_some hrun, hrun'], hw, hy⟩

theorem updateElement (hx : w.elements.get? e.row = some x) (f : Element → Element)
    (hf : ∀ x, (f x).context = x.context) :
    Alters enter w e (Act.updateElement e f) () (f x) :=
  ⟨_, rfl, .updateElement w e hf, World.get?_updateElement_self hx f⟩

theorem record (hx : w.elements.get? e.row = some x) {event : Event} (h : event.isRun = false) :
    Alters enter w e (Act.record event) () x := ⟨_, rfl, .record e w h, hx⟩

theorem message (hx : w.elements.get? e.row = some x) {level : Level} {text : Act σ String}
    {t : String} (ht : w.wants level = true → text.runIn enter w = (some t, w)) :
    Alters enter w e (Act.message level text) () x := by
  obtain ⟨w', hrun, helements, hw⟩ := Act.runIn_message_edits enter level ht
  exact ⟨w', hrun, hw e, helements ▸ hx⟩

theorem contextOf (hx : w.elements.get? e.row = some x) :
    Alters enter w e (Act.contextOf e) (.object (.scope w.marks e) :: x.context) x :=
  look (Act.runIn_element hx) ⟨{ w with marks := w.marks + 1 }, rfl, .of_marks e w _, hx⟩

/-- Changes of a component that draws nothing. -/
theorem change (hx : w.elements.get? e.row = some x) (hbusy : x.busy = false)
    (hc : x.component = .headless h) {own : Headless → Except ComponentError Headless}
    {d : Headless} (hown : own h = .ok d) (foreign : Nat → Act σ (Except ComponentError Unit)) :
    Alters enter w e (Act.change e own foreign) (.ok ()) { x with component := .headless d } := by
  refine look (Act.runIn_component hx hbusy) ?_
  rw [hc]
  simp only [hown]
  exact (updateElement hx ({ · with component := .headless d }) fun _ => rfl).bind fun w' _ hx' =>
    .pure hx' _

theorem setAttribute (hx : w.elements.get? e.row = some x) (hbusy : x.busy = false)
    (hc : x.component = .headless h) (name : String) {v : Value} {t : String}
    (ht : w.wants .trace = true → w.store.text v = some t) :
    Alters enter w e (Act.setAttribute e name v) (.ok ())
      { x with component := .headless (h.setAttribute name v) } := by
  refine look (Act.runIn_component hx hbusy) ?_
  rw [hc]
  refine (message (t := "<" ++ h.tag ++ "> " ++ name ++ " = " ++ t) hx fun hwants => ?_).bind ?_
  · have htext : (Act.text v).runIn enter w = (some t, w) := by
      show (Act.ofOption (w.store.text v)).runIn enter w = _
      rw [ht hwants]
      rfl
    rw [Act.runIn_bind_some htext]
    rfl
  · exact fun w' _ hx' => by
      refine change hx' hbusy hc ?_ _
      rfl

theorem addListener (hx : w.elements.get? e.row = some x) (hbusy : x.busy = false)
    (hc : x.component = .headless h) (event : String) (handler : Handler) :
    Alters enter w e (Act.addListener e event handler) (.ok ())
      { x with component := .headless (h.addListener event handler) } := by
  refine change hx hbusy hc ?_ _
  rfl

theorem appendChild (hx : w.elements.get? e.row = some x) (hbusy : x.busy = false)
    (hc : x.component = .headless h) (child : ElementId) :
    Alters enter w e (Act.appendChild e child) (.ok ())
      { x with component := .headless (h.mount child), children := x.children ++ [child] } := by
  refine (change (d := h.mount child) hx hbusy hc ?_ _).bind fun w' _ hx' => ?_
  · rfl
  · exact (updateElement hx' (fun y => { y with children := y.children ++ [child] })
      fun _ => rfl).bind fun w'' _ hx'' => .pure hx'' _

theorem clearChildren (hx : w.elements.get? e.row = some x) (hbusy : x.busy = false)
    (hc : x.component = .headless h) :
    Alters enter w e (Act.clearChildren e) (.ok ())
      { x with component := .headless h.clear, children := [] } := by
  refine (change (d := h.clear) hx hbusy hc ?_ _).bind fun w' _ hx' => ?_
  · rfl
  · exact (updateElement hx' (fun y => { y with children := [] })
      fun _ => rfl).bind fun w'' _ hx'' => .pure hx'' _

theorem takeUpdater (hx : w.elements.get? e.row = some x) :
    Alters enter w e (Act.takeUpdater e) x.updater { x with updater := none } :=
  look (Act.runIn_element hx) <|
    (updateElement hx ({ · with updater := none }) fun _ => rfl).bind fun _ _ hx' => pure hx' _

/-- An updater is put back if there is no other one by now. -/
theorem putBack (hx : w.elements.get? e.row = some x) (hnone : x.updater = none) (updater : Updater) :
    Alters enter w e (Act.putBack e updater) () { x with updater := some updater } := by
  have hput : Alters enter w e (Act.putBack e updater) () _ := updateElement hx _ fun z => by
    split
    · rfl
    · split <;> rfl
  rw [hnone] at hput
  exact hput

theorem describe (hx : w.elements.get? e.row = some x) (hbusy : x.busy = false)
    (hc : x.component = .headless h) (name : String) (text : Option String) :
    Alters enter w e (Build.describe e name text).run (.ok ())
      { x with component := .headless (h.described name text) } := by
  cases text with
  | none =>
    have heq : { x with component := .headless (h.described name none) } = x := by
      rw [Headless.described_none, ← hc]
    rw [heq]
    exact pureE hx ()
  | some t => exact component (setAttribute hx hbusy hc name (t := t) fun _ => rfl)

theorem listen (hx : w.elements.get? e.row = some x) (hbusy : x.busy = false)
    (hc : x.component = .headless h) (handlers : List (String × Resolver)) :
    Alters enter w e (Build.listen e handlers).run (.ok ())
      { x with component := .headless (h.listening e handlers) } := by
  induction handlers generalizing w x h with
  | nil =>
    have heq : { x with component := .headless (h.listening e []) } = x := by
      rw [Headless.listening, List.foldl_nil, ← hc]
    rw [heq]
    exact pureE hx ()
  | cons handler rest ih =>
    refine (component (addListener hx hbusy hc handler.1 (.directive e handler.2))).bindE ?_
    intro w' _ hx'
    have hrest := ih hx' hbusy rfl
    exact hrest

end Alters

/-- Something is noted, be it that an updater begins or ends. -/
theorem Act.runIn_record_edits (enter : Enter σ) {w : World σ} {e : ElementId} {x : Element}
    (hx : w.elements.get? e.row = some x) (event : Event) :
    ∃ w', (Act.record event).runIn enter w = (some (), w') ∧ Edits e w w' ∧
      w'.elements.get? e.row = some x := ⟨_, rfl, .record e w event, hx⟩

/-- The text that a message about an attribute needs is there, unless it would not end. -/
theorem World.exists_text {w : World σ} {v : Value}
    (h : ¬ (w.wants .trace = true ∧ w.store.text v = none)) :
    ∃ t, w.wants .trace = true → w.store.text v = some t := by
  cases hsome : w.store.text v with
  | none => exact ⟨"", fun hwanted => (h ⟨hwanted, hsome⟩).elim⟩
  | some t => exact ⟨t, fun _ => rfl⟩

/-- Setting an attribute does not end where a message needs a text that would not end. -/
theorem Build.runIn_setAttribute_none {enter : Enter σ} {w : World σ} {e : ElementId} {x : Element}
    {h : Headless} (hx : w.elements.get? e.row = some x) (hbusy : x.busy = false)
    (hc : x.component = .headless h) (name : String) {v : Value} (hwanted : w.wants .trace = true)
    (hnone : w.store.text v = none) :
    (Build.component (Act.setAttribute e name v)).run.runIn enter w = (none, w) := by
  have hset : (Act.setAttribute e name v).runIn enter w = (none, w) := by
    unfold Act.setAttribute
    rw [Act.runIn_bind_some (Act.runIn_component hx hbusy), hc]
    refine Act.runIn_bind_none (Act.runIn_message_none hwanted ?_)
    exact Act.runIn_bind_none (by rw [Act.runIn_text, hnone])
  show ((Except.mapError ViewError.component) <$> Act.setAttribute e name v).runIn enter w = _
  rw [map_eq_pure_bind, Act.runIn_bind_none hset]

/-! ### The element of a node -/

namespace Node

/-- The attributes that an element of a node has before any bound one is set. -/
def told (node : Node Resolver) : Fields Value :=
  node.tag.attributes.map fun (name, text) => (name, .str text)

/-- Attributes that an element of a node may have: whatever has been set so far, it does not matter
once all bound attributes are set. -/
structure Dressed (node : Node Resolver) (attributes : Fields Value) : Prop where
  /-- The names are those that the element owns. -/
  keys : attributes.keys ⊆ node.reserved
  /-- Each name stands once. -/
  nodup : attributes.keys.Nodup
  /-- Setting all bound attributes leaves nothing of what they were. -/
  round : ∀ entries : List (String × Value), entries.map (·.1) = node.bind.map (·.1) →
    attributes.putAll entries = node.told.putAll entries

theorem dressed_told (node : Node Resolver) : node.Dressed node.told where
  keys name hname := by
    simp only [told, Tag.attributes, Fields.keys, List.map_map, List.map_append, List.mem_append,
      List.mem_map] at hname
    rcases hname with ⟨x, hx, rfl⟩ | ⟨x, hx, rfl⟩
    · obtain ⟨t, -, rfl⟩ := Option.map_eq_some_iff.mp (Option.mem_toList.mp hx)
      simp [reserved]
    · obtain ⟨t, -, rfl⟩ := Option.map_eq_some_iff.mp (Option.mem_toList.mp hx)
      simp [reserved]
  nodup := by
    unfold told Tag.attributes Fields.keys
    cases node.tag.id <;> cases node.tag.classAttribute <;> simp
  round _ _ := rfl

/-- Setting the first of the bound attributes. -/
theorem Dressed.putAll {node : Node Resolver} {attributes : Fields Value}
    (h : node.Dressed attributes) {entries : List (String × Value)}
    (hentries : entries.map (·.1) <+: node.bind.map (·.1)) :
    node.Dressed (attributes.putAll entries) where
  keys name hname := by
    rcases Fields.mem_keys_putAll.mp hname with hname | hname
    · exact h.keys hname
    · obtain ⟨entry, hentry, rfl⟩ := List.mem_map.mp (hentries.subset hname)
      simp only [reserved, List.map_append, List.mem_cons, List.mem_append, List.mem_map]
      exact .inr (.inr (.inr (.inr ⟨entry, hentry, rfl⟩)))
  nodup := Fields.nodup_keys_putAll h.nodup _
  round later hlater := by rw [Fields.putAll_putAll h.nodup (hlater ▸ hentries), h.round later hlater]

end Node

/-- What is always true of an element of a node, even while it is updated. -/
structure Stem (node : Node Resolver) (x : Element) : Prop where
  /-- It has the tag of the node. -/
  tag : x.tag = node.tag
  /-- Its component is not in the middle of a change. -/
  idle : x.busy = false
  /-- It has a slot for each child node. -/
  slots : x.slots.map Slot.node = node.children
  /-- Without child nodes it has no children. -/
  bare : node.children = [] → x.children = []
  /-- Its component draws nothing, shows its children, and has attributes that the node can give. -/
  component : ∃ h, x.component = .headless h ∧ h.mounted = x.children ∧ node.Dressed h.attributes

/-- A new element of a node, on which no update has been run. -/
def Sprouts (w : World σ) (node : Node Resolver) (context : Context) (e : ElementId) : Prop :=
  ∃ x, w.elements.get? e.row = some x ∧ x.context = context ∧ Stem node x ∧
    x.updater = some (.view node .headless) ∧ x.slots = node.children.map .fresh

theorem Sprouts.touched {S : ElementId → Prop} {w w' : World σ} {node : Node Resolver}
    {context : Context} {e : ElementId} (h : Sprouts w node context e) (hw : Touches S w w')
    (he : ¬ S e) : Sprouts w' node context e := by
  obtain ⟨x, hx, hrest⟩ := h
  exact ⟨x, hw.get? hx he, hrest⟩

namespace Build

variable {enter : Enter σ}

theorem runIn_bindE_ok {act : ExceptT ε (Act σ) α} {f : α → ExceptT ε (Act σ) β} {w w' : World σ}
    {a : α} (h : act.run.runIn enter w = (some (.ok a), w')) :
    (act >>= f).run.runIn enter w = (f a).run.runIn enter w' := by
  rw [ExceptT.run_bind, Act.runIn_bind_some h]

/-- What an element of a node gets before the attributes that are set once. -/
theorem runIn_furnish (enter : Enter σ) {w : World σ} {e : ElementId} {x : Element}
    (node : Node Resolver) (hx : w.elements.get? e.row = some x) (hbusy : x.busy = false)
    (hc : x.component = .headless (.new node.tag.tag)) :
    ∃ (h : Headless) (m : Nat) (w₁ : World σ), h.attributes = node.told ∧ h.mounted = [] ∧
      Retouches e w w₁ ∧ w₁.elements.get? e.row = some { x with component := .headless h } ∧
      (furnish e node .headless).run.runIn enter w =
        (assign e (.object (.scope m e) :: x.context) node.once >>= fun _ =>
          act (install e (.view node .headless) (node.children.map .fresh))).run.runIn enter w₁ := by
  obtain ⟨w₁, hrun₁, hw₁, hx₁⟩ : Alters enter w e (describe e "id" node.tag.id).run _ _ :=
    .describe hx hbusy hc "id" node.tag.id
  obtain ⟨w₂, hrun₂, hw₂, hx₂⟩ : Alters enter w₁ e (describe e "class" node.tag.classAttribute).run _ _ :=
    .describe hx₁ hbusy rfl "class" node.tag.classAttribute
  obtain ⟨w₃, hrun₃, hw₃, hx₃⟩ : Alters enter w₂ e (listen e node.on).run _ _ :=
    .listen hx₂ hbusy rfl node.on
  obtain ⟨w₄, hrun₄, hw₄, hx₄⟩ : Alters enter w₃ e (act (Act.contextOf e)).run _ _ :=
    .liftE (.contextOf hx₃)
  refine ⟨_, w₃.marks, w₄, ?_, ?_, hw₁.trans (hw₂.trans (hw₃.trans hw₄)), hx₄, ?_⟩
  · rw [Headless.listening_eq, Node.told, Tag.attributes]
    cases node.tag.id <;> cases node.tag.classAttribute <;> rfl
  · rw [Headless.listening_eq]
    rfl
  · unfold furnish
    rw [runIn_bindE_ok hrun₁, runIn_bindE_ok hrun₂, runIn_bindE_ok hrun₃, runIn_bindE_ok hrun₄]

/-- An updater is installed. -/
theorem install_alters (enter : Enter σ) {w : World σ} {e : ElementId} {x : Element}
    (hx : w.elements.get? e.row = some x) (updater : Updater) (slots : List Slot) :
    Alters enter w e (install e updater slots) () { x with updater := some updater, slots } :=
  (Alters.updateElement hx ({ · with updater := some updater, slots }) fun _ => rfl).bind
    fun _ _ hx' => .record hx' rfl

/-- A new element is furnished as its node says. -/
theorem furnish_alters (enter : Enter σ) {w : World σ} {e : ElementId} {node : Node Resolver}
    (honce : node.once = []) {x : Element} (hx : w.elements.get? e.row = some x) (hbusy : x.busy = false)
    (hc : x.component = .headless (.new node.tag.tag)) :
    ∃ h : Headless, h.attributes = node.told ∧ h.mounted = [] ∧
      Alters enter w e (furnish e node .headless).run (.ok ())
        { x with
          component := .headless h, updater := some (.view node .headless),
          slots := node.children.map .fresh } := by
  obtain ⟨h, m, w₁, hattributes, hmounted, hw₁, hx₁, hrun⟩ := runIn_furnish enter node hx hbusy hc
  obtain ⟨w₂, hrun₂, hw₂, hx₂⟩ := (install_alters enter hx₁ (.view node .headless)
    (node.children.map .fresh)).liftE (ε := ViewError)
  refine ⟨h, hattributes, hmounted, w₂, ?_, hw₁.trans hw₂, hx₂⟩
  rw [hrun, honce]
  exact hrun₂

/-- A sequence succeeds only if both parts do. -/
theorem runIn_bindE_eq_ok {act : ExceptT ε (Act σ) α} {f : α → ExceptT ε (Act σ) β} {w w'' : World σ}
    {b : β} (h : (act >>= f).run.runIn enter w = (some (.ok b), w'')) :
    ∃ a w', act.run.runIn enter w = (some (.ok a), w') ∧
      (f a).run.runIn enter w' = (some (.ok b), w'') := by
  rw [ExceptT.run_bind] at h
  obtain ⟨answer, w', hact, hf⟩ := Act.runIn_bind_eq_some h
  cases answer with
  | error => cases hf
  | ok a => exact ⟨a, w', hact, hf⟩

/-- An act that cannot fail succeeds when it answers. -/
theorem runIn_lift_eq_ok {act : Act σ α} {w w' : World σ} {a : α}
    (h : (ExceptT.lift act : ExceptT ε (Act σ) α).run.runIn enter w = (some (.ok a), w')) :
    act.runIn enter w = (some a, w') := by
  rw [ExceptT.run_lift, Act.runIn_map] at h
  rcases hact : act.runIn enter w with ⟨_ | a', w''⟩
  · rw [hact] at h
    cases h
  · rw [hact] at h
    cases h
    rfl

theorem runIn_releasing_ok {es : List ElementId} {act : Build σ α} {w w' : World σ} {a : α}
    (h : act.run.runIn enter w = (some (.ok a), w')) :
    (releasing es act).run.runIn enter w = (some (.ok a), w') := by
  show (act.run >>= fun answer => _).runIn enter w = _
  rw [Act.runIn_bind_some h]
  rfl

theorem runIn_releasing_eq_ok {es : List ElementId} {act : Build σ α} {w w' : World σ} {a : α}
    (hrun : (releasing es act).run.runIn enter w = (some (.ok a), w')) :
    act.run.runIn enter w = (some (.ok a), w') := by
  obtain ⟨answer, v, hact, hrest⟩ := Act.runIn_bind_eq_some hrun
  cases answer with
  | error error => cases hrest
  | ok b =>
    cases hrest
    exact hact

/-- Making an element succeeds and touches no other. -/
theorem create_sprouts (enter : Enter σ) (w : World σ) {node : Node Resolver} (honce : node.once = [])
    (context : Context) :
    ∃ w', (create node context .headless).run.runIn enter w = (some (.ok ⟨w.elements.size⟩), w') ∧
      Touches (fun _ => False) w w' ∧ Sprouts w' node context ⟨w.elements.size⟩ := by
  let x : Element := ⟨node.tag, .headless (.new node.tag.tag), false, context, [], none, []⟩
  let v : World σ :=
    { w with elements := w.elements.add x, held := ⟨w.elements.size⟩ :: w.held }
  have hx : v.elements.get? w.elements.size = some x := Table.get?_add_new _ _
  obtain ⟨h, hattributes, hmounted, w', hrun, hw', hx'⟩ :=
    furnish_alters enter (e := ⟨w.elements.size⟩) honce hx rfl rfl
  have hmake : (component (Act.make .headless node.tag.tag)).run.runIn enter w =
      (some (.ok (.headless (.new node.tag.tag))), w) := rfl
  have hnew : (act (Act.newElement node.tag (.headless (.new node.tag.tag)) context)).run.runIn enter w =
      (some (.ok ⟨w.elements.size⟩), v) := rfl
  refine ⟨w', ?_, ?_, _, hx', rfl, ⟨rfl, rfl, ?_, fun _ => rfl, h, rfl, hmounted, ?_⟩, rfl, rfl⟩
  · unfold create
    rw [runIn_bindE_ok hmake, runIn_bindE_ok hnew, runIn_bindE_ok (runIn_releasing_ok hrun)]
    rfl
  · have htouches : Touches (· = ⟨w.elements.size⟩) w w' := Touches.trans (.of_add w x _) hw'.touches
    refine htouches.mono ?_
    rintro e ⟨y, hy⟩ rfl
    exact Nat.lt_irrefl _ (Table.lt_size_of_get? hy)
  · simp [Slot.fresh, List.map_map, Function.comp_def]
  · rw [hattributes]
    exact node.dressed_told

/-- Making elements in several contexts succeeds, makes different ones, and touches no others. -/
theorem createAll_sprouts (enter : Enter σ) (w : World σ) {node : Node Resolver} (honce : node.once = [])
    (contexts : List Context) :
    ∃ es w', (createAll node .headless contexts).run.runIn enter w = (some (.ok es), w') ∧
      Touches (fun _ => False) w w' ∧ List.Forall₂ (fun e C => Sprouts w' node C e) es contexts ∧
      es.Nodup ∧ ∀ e ∈ es, w.elements.size ≤ e.row := by
  induction contexts generalizing w with
  | nil => exact ⟨[], w, rfl, .refl w, .nil, .nil, by simp⟩
  | cons context rest ih =>
    obtain ⟨v, hrun, hv, hsprouts⟩ := create_sprouts enter w honce context
    obtain ⟨es, w', hrun', hw', hall, hnodup, hnew⟩ := ih v
    have hsize : w.elements.size < v.elements.size := by
      obtain ⟨x, hx, -⟩ := hsprouts
      exact Table.lt_size_of_get? hx
    refine ⟨⟨w.elements.size⟩ :: es, w', ?_, hv.trans hw', .cons (hsprouts.touched hw' id) hall, ?_, ?_⟩
    · unfold createAll
      rw [runIn_bindE_ok hrun, runIn_bindE_ok (runIn_releasing_ok hrun')]
      rfl
    · refine List.nodup_cons.mpr ⟨fun hmem => ?_, hnodup⟩
      have hle : v.elements.size ≤ w.elements.size := hnew _ hmem
      omega
    · rintro e (_ | ⟨_, hmem⟩)
      · exact Nat.le_refl _
      · exact Nat.le_trans (Nat.le_of_lt hsize) (hnew e hmem)

end Build

/-! ### Updates -/

theorem Act.runIn_bind_congr {enter : Enter σ} {w w' : World σ} {act act' : Act σ α}
    (h : act.runIn enter w = act'.runIn enter w') (f : α → Act σ β) :
    (act >>= f).runIn enter w = (act' >>= f).runIn enter w' := by
  rw [runIn_bind, runIn_bind, h]

/-- What an update does to an element once the updater of its node has answered. -/
def Act.conclude (e : ElementId) (node : Node Resolver) (answer : Except ViewError Unit) :
    Act σ (Except ViewError Unit) := do
  putBack e (.view node .headless)
  record (.updated e none answer.isOk)
  match answer with
  | .error error =>
    release [e]
    return .error error
  | .ok () =>
    let children := (← element e).children
    hold children
    let answer ← updateAll children
    release [e]
    return answer

/-- An update holds an element, takes its updater out, runs it and concludes. -/
theorem Act.runIn_update (enter : Enter σ) {w : World σ} {e : ElementId} {x : Element}
    {node : Node Resolver} (hx : w.elements.get? e.row = some x)
    (hupdater : x.updater = some (.view node .headless)) :
    ∃ w₁, Edits e { w with held := e :: w.held } w₁ ∧ w₁.runs = w.runs ++ [.updating e none] ∧
      w₁.elements.get? e.row = some { x with updater := none } ∧
      (update e).runIn enter w =
        ((Build.refresh e node .headless).run >>= conclude e node).runIn enter w₁ := by
  let v : World σ := { w with held := e :: w.held }
  have hx₀ : v.elements.get? e.row = some x := hx
  obtain ⟨v₁, htake, hv₁, hx₁⟩ : Alters enter v e (takeUpdater e) _ _ := .takeUpdater hx₀
  have hrecord : (record (.updating e none)).runIn enter v₁ = (some (), v₁.record (.updating e none)) := rfl
  have hruns : (v₁.record (.updating e none)).runs = w.runs ++ [.updating e none] := by
    rw [World.runs_record, hv₁.runs]
    rfl
  refine ⟨_, hv₁.toEdits.trans (.record e v₁ _), hruns, hx₁, ?_⟩
  have hhold : (hold [e]).runIn enter w = (some (), v) := rfl
  unfold update holding updateSelf
  rw [runIn_bind_some hhold]
  simp only [bind_assoc]
  rw [runIn_bind_some htake, hupdater]
  simp only [Updater.number?, runUpdater, bind_assoc, pure_bind]
  rw [runIn_bind_some hrecord]
  refine congrArg (fun act => Act.runIn act enter _) (congrArg _ (funext fun answer => ?_))
  unfold conclude
  cases answer <;> simp only [bind_assoc, pure_bind]

end ReactiveViews
