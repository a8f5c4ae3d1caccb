import ReactiveViews.Proofs.Live.Nursing

/-!
# Laps

A *lap* is what happens at the element of a standing tree in an update that does not fail there: the
updater is taken out, the slots are filled, the bound attributes are set, and the updater is put back.
The children come after that.

## What is proved

If nothing fails before, an update goes on with the children (`Nursed.lap`), and every update that
succeeds has come that way (`Standing.lap`).
-/

namespace ReactiveViews

variable {σ : Type}

/-- An element keeps the scopes around it. -/
theorem Touches.context_eq {S : ElementId → Prop} {w w' : World σ} (hw : Touches S w w') {e : ElementId}
    {x y : Element} (hx : w.elements.get? e.row = some x) (hy : w'.elements.get? e.row = some y) :
    y.context = x.context := by
  obtain ⟨y', hy', hcontext, -⟩ := hw.element e x hx
  obtain rfl : y = y' := Option.some.inj (hy.symm.trans hy')
  exact hcontext

/-- A component that shows what is in some slots and has written some attributes. -/
def Headless.filled (h : Headless) (slots : List Slot) (written : List (String × Value)) : Headless :=
  { h with
    mounted := slots.flatMap Slot.elements
    attributes := h.attributes.putAll written }

theorem Headless.get?_filled (h : Headless) (slots : List Slot) {written : List (String × Value)}
    {name : String} (hname : name ∉ written.map (·.1)) :
    (h.filled slots written).attributes.get? name = h.attributes.get? name :=
  Fields.get?_putAll_of_not_mem hname

/-- Names that are written again, or into attributes with the same names, stand in the same order. -/
theorem Headless.keys_filled_eq {h h' : Headless} {slots slots' : List Slot}
    {written written' : List (String × Value)} (hnames : written.map (·.1) = written'.map (·.1))
    (hkeys : h'.attributes.keys = h.attributes.keys ∨ h'.attributes = h.attributes.putAll written) :
    (h.filled slots written).attributes.keys = (h'.filled slots' written').attributes.keys := by
  show (h.attributes.putAll written).keys = (h'.attributes.putAll written').keys
  rcases hkeys with hkeys | hkeys
  · exact Fields.keys_putAll_congr hkeys.symm hnames
  · have hthere : written'.map (·.1) ⊆ h'.attributes.keys := fun name hname => by
      rw [hkeys]
      exact Fields.mem_keys_putAll.mpr (.inr (hnames ▸ hname))
    rw [Fields.keys_putAll_of_subset hthere, hkeys]

namespace Element

/-- An element whose updater runs, before its slots are filled. -/
def opened (x : Element) (h : Headless) : Element :=
  { x with updater := none, component := .headless h.clear, children := [] }

/-- An element whose updater has filled the slots and written some attributes. -/
def filled (x : Element) (h : Headless) (slots : List Slot) (written : List (String × Value)) : Element :=
  { x with
    updater := none
    slots
    children := slots.flatMap Slot.elements
    component := .headless (h.filled slots written) }

/-- An element of a node whose updater has run. -/
def refreshed (x : Element) (node : Node Resolver) (h : Headless) (slots : List Slot)
    (written : List (String × Value)) : Element :=
  { x.filled h slots written with updater := some (.view node .headless) }

end Element

section

variable {enter : Enter σ} {w w' w₁ w₂ w₃ : World σ} {node : Node Resolver} {e : ElementId} {x : Element}
  {h : Headless} {m : Nat}

/-- An update opens the element, fills its slots, sets its bound attributes, and concludes. -/
theorem Standing.runIn_update (enter : Enter σ) (hstanding : Standing w node e)
    (hx : w.elements.get? e.row = some x) (hc : x.component = .headless h) :
    ∃ m w₁, Edits e { w with held := e :: w.held } w₁ ∧ Nursed w₁ node e (x.opened h) ∧
      (Act.update e).runIn enter w =
        ((Build.fill e (.object (.scope m e) :: x.context) .headless 0 x.slots >>= fun _ =>
          Build.assign e (.object (.scope m e) :: x.context) node.bind).run >>=
          Act.conclude e node).runIn enter w₁ := by
  obtain ⟨x', hnursed, hupdater, hchildren⟩ := hstanding.inspect
  obtain rfl : x = x' := Option.some.inj (hx.symm.trans hnursed.get)
  obtain ⟨w₁, hw₁, -, hx₁, heq⟩ := Act.runIn_update enter hnursed.get hupdater
  obtain ⟨htag, hidle, hslots, hcomponent⟩ := hnursed.trunk
  have h₁ := (hnursed.untouched (.of_held w (e :: w.held))).alter hw₁.touches hx₁
    ⟨htag, hidle, hslots, hcomponent⟩ rfl
  obtain ⟨m, w₂, hw₂, h₂, hrefresh⟩ := h₁.runIn_refresh enter hc hchildren
  refine ⟨m, w₂, hw₁.trans hw₂.toEdits, h₂, heq.trans ?_⟩
  exact Act.runIn_bind_congr hrefresh _

/-- When its updater has run, the children of an element are updated. -/
theorem Nursed.runIn_conclude (enter : Enter σ) (hnursed : Nursed w node e x) (hupdater : x.updater = none)
    (hchildren : x.children <+: x.slots.flatMap Slot.elements) :
    ∃ w₁, Edits e w w₁ ∧ w₁.runs = w.runs ++ [.updated e none true] ∧
      w₁.elements.get? e.row = some { x with updater := some (.view node .headless) } ∧
      Standing w₁ node e ∧ (Act.conclude e node (.ok ())).runIn enter w =
        (Act.updateAll x.children >>= fun answer => do
          Act.release [e]
          return answer).runIn enter { w₁ with held := x.children ++ w₁.held } := by
  obtain ⟨w₁, hput, hw₁, hruns, hx₁, hstanding⟩ := hnursed.putBack enter hupdater hchildren (.ok ())
  refine ⟨w₁, hw₁, hruns, hx₁, hstanding, ?_⟩
  rw [Act.conclude_eq, Act.runIn_bind_some hput, Act.runIn_bind_some (Act.runIn_element hx₁)]
  have hhold : (Act.hold x.children).runIn enter w₁ =
    (some (), { w₁ with held := x.children ++ w₁.held }) := rfl
  rw [Act.runIn_bind_some hhold]

/-- A slot of an element is evaluated, and what it contributes is shown. -/
structure Served (enter : Enter σ) (node : Node Resolver) (e : ElementId) (x : Element) (h : Headless) (m : Nat)
    (done rest : List Slot) (slot : Slot) (memory : Memory) (es : List ElementId) (w w₁ w₂ : World σ) :
    Prop where
  /-- The slot is evaluated. -/
  evaluate : (Build.evaluate e done.length slot (.object (.scope m e) :: x.context) .headless).run.runIn
    enter w = (some (.ok es), w₁)
  /-- Nothing else is touched meanwhile. -/
  evaluates : Proceeds (· = e) [] w w₁
  /-- The slot has been written. -/
  written : Nursed w₁ node e { x with slots := done ++ ⟨slot.node, memory⟩ :: rest }
  /-- What is in it. -/
  elements : (Slot.mk slot.node memory).elements = es
  /-- What it contributes is shown. -/
  append : (Build.append e es).run.runIn enter w₁ = (some (.ok ()), w₂)
  /-- Nothing else is touched meanwhile. -/
  edits : Edits e w₁ w₂
  /-- The element shows more children. -/
  shown : Nursed w₂ node e
    (Element.showing { x with slots := done ++ ⟨slot.node, memory⟩ :: rest } h es)

theorem Nursed.served (hharmless : Harmless enter) (hnursed : Nursed w node e x)
    (hc : x.component = .headless h) {done rest : List Slot} {slot : Slot}
    (hslots : x.slots = done ++ slot :: rest) {es : List ElementId}
    (hevaluate : (Build.evaluate e done.length slot (.object (.scope m e) :: x.context)
      .headless).run.runIn enter w = (some (.ok es), w₁)) :
    ∃ memory w₂, Served enter node e x h m done rest slot memory es w w₁ w₂ := by
  obtain ⟨memory, hw₁, hx₁, hes, -⟩ := (hnursed.evaluate_ends hharmless.rules hslots).ok hevaluate
  obtain ⟨w₂, happend, hw₂, hx₂⟩ := hx₁.append enter hc es
  exact ⟨memory, w₂, hevaluate, hw₁, hx₁, hes, happend, hw₂.toEdits, hx₂⟩

namespace Served

variable {done rest : List Slot} {slot : Slot} {memory : Memory} {es : List ElementId}

theorem proceeds (h : Served enter node e x h m done rest slot memory es w w₁ w₂) :
    Proceeds (· = e) [] w w₂ := h.evaluates.trans (.of_edits h.edits)

/-- If that which has been in the slots before is shown, it is what has been in them until now. -/
theorem children (hserved : Served enter node e x h m done rest slot memory es w w₁ w₂)
    (hchildren : x.children = done.flatMap Slot.elements) :
    x.children ++ es = (done ++ [Slot.mk slot.node memory]).flatMap Slot.elements := by
  simp [hchildren, hserved.elements]

theorem children_prefix (hserved : Served enter node e x h m done rest slot memory es w w₁ w₂)
    (hchildren : x.children = done.flatMap Slot.elements) :
    x.children ++ es <+: (done ++ ⟨slot.node, memory⟩ :: rest).flatMap Slot.elements := by
  rw [hserved.children hchildren, List.append_cons done _ rest]
  exact (List.prefix_append _ rest).flatMap _

theorem subset (hserved : Served enter node e x h m done rest slot memory es w w₁ w₂) :
    es ⊆ (done ++ ⟨slot.node, memory⟩ :: rest).flatMap Slot.elements := fun c hc => by
  rw [← hserved.elements] at hc
  exact List.mem_flatMap.mpr ⟨_, List.mem_append_right _ List.mem_cons_self, hc⟩

end Served

/-- What is done for the children of an element when its updater has been put back. -/
def Act.descend (e : ElementId) (es : List ElementId) : Act σ (Except ViewError Unit) := do
  let answer ← Act.updateAll es
  Act.release [e]
  return answer

/-- What the updater of an opened element does if nothing fails. -/
structure Lap (enter : Enter σ) (node : Node Resolver) (e : ElementId) (x : Element) (h : Headless) (m : Nat)
    (slots : List Slot) (written : List (String × Value)) (w₁ w₂ w₃ w₄ : World σ) : Prop where
  /-- The slots are filled. -/
  fill : (Build.fill e (.object (.scope m e) :: x.context) .headless 0 x.slots).run.runIn enter w₁ =
    (some (.ok ()), w₂)
  /-- Nothing else is touched meanwhile. -/
  fills : Proceeds (· = e) [] w₁ w₂
  /-- What is in the slots is shown. -/
  fed : Nursed w₂ node e (x.filled h slots [])
  /-- The bound attributes are set. -/
  assign : (Build.assign e (.object (.scope m e) :: x.context) node.bind).run.runIn enter w₂ =
    (some (.ok ()), w₃)
  /-- Nothing else is touched meanwhile. -/
  assigns : Proceeds (· = e) [] w₂ w₃
  /-- They are the ones that are written. -/
  names : written.map (·.1) = node.bind.map (·.1)
  /-- The element has its attributes. -/
  dressed : Nursed w₃ node e (x.filled h slots written)
  /-- The updater is put back. -/
  edits : Edits e w₃ w₄
  /-- The element is ready for its next update. -/
  get : w₄.elements.get? e.row = some (x.refreshed node h slots written)
  /-- It is the root of a tree. -/
  standing : Standing w₄ node e
  /-- The children come next. -/
  concludes : (Act.conclude e node (.ok ())).runIn enter w₃ =
    (Act.descend e (slots.flatMap Slot.elements)).runIn enter
      { w₄ with held := slots.flatMap Slot.elements ++ w₄.held }

/-- If nothing fails at the element, an update goes on with the children. -/
theorem Lap.runIn {slots : List Slot} {written : List (String × Value)} {w₄ : World σ}
    (hlap : Lap enter node e x h m slots written w₁ w₂ w₃ w₄) :
    ((Build.fill e (.object (.scope m e) :: x.context) .headless 0 x.slots >>= fun _ =>
        Build.assign e (.object (.scope m e) :: x.context) node.bind).run >>=
      Act.conclude e node).runIn enter w₁ =
    (Act.descend e (slots.flatMap Slot.elements)).runIn enter
      { w₄ with held := slots.flatMap Slot.elements ++ w₄.held } := by
  have hall : (Build.fill e (.object (.scope m e) :: x.context) .headless 0 x.slots >>= fun _ =>
      Build.assign e (.object (.scope m e) :: x.context) node.bind).run.runIn enter w₁ =
      (some (.ok ()), w₃) := by
    rw [Build.runIn_bindE_ok hlap.fill, hlap.assign]
  rw [Act.runIn_bind_some hall, hlap.concludes]

/-- When the children have been updated, the element is let go of. -/
theorem Lap.complete {slots : List Slot} {written : List (String × Value)} {w₄ w₅ : World σ}
    {answer : Except ViewError Unit} (hlap : Lap enter node e x h m slots written w₁ w₂ w₃ w₄)
    (hrun : (Act.updateAll (slots.flatMap Slot.elements)).runIn enter
      { w₄ with held := slots.flatMap Slot.elements ++ w₄.held } = (some answer, w₅)) :
    ((Build.fill e (.object (.scope m e) :: x.context) .headless 0 x.slots >>= fun _ =>
        Build.assign e (.object (.scope m e) :: x.context) node.bind).run >>=
      Act.conclude e node).runIn enter w₁ = (some answer, { w₅ with held := w₅.held.erase e }) := by
  rw [hlap.runIn, Act.descend, Act.runIn_bind_some hrun]
  rfl

theorem Lap.nursed {slots : List Slot} {written : List (String × Value)} {w₄ : World σ}
    (hlap : Lap enter node e x h m slots written w₁ w₂ w₃ w₄) :
    Nursed w₄ node e (x.refreshed node h slots written) := by
  obtain ⟨y, hnursed, -⟩ := hlap.standing.inspect
  obtain rfl := Option.some.inj (hnursed.get.symm.trans hlap.get)
  exact hnursed

/-- The updates of the children leave the element as it is. -/
theorem Lap.after {slots : List Slot} {written : List (String × Value)} {w₄ w₅ : World σ}
    {answer : Except ViewError Unit} (hstays : ∀ child ∈ node.children, Stays enter child)
    (hlap : Lap enter node e x h m slots written w₁ w₂ w₃ w₄)
    (hrun : (Act.updateAll (slots.flatMap Slot.elements)).runIn enter
      { w₄ with held := slots.flatMap Slot.elements ++ w₄.held } = (some answer, w₅)) :
    Touches (w₄.BelowAny (slots.flatMap Slot.elements)) w₄ w₅ ∧ Standing w₅ node e ∧
      w₅.elements.get? e.row = some (x.refreshed node h slots written) := by
  obtain ⟨hw₅, hstanding⟩ := (hlap.standing.untouched
    (.of_held w₄ (slots.flatMap Slot.elements ++ w₄.held))).updateAll hstays hlap.get
      (List.Subset.refl _) rfl hrun
  have htouches : Touches (w₄.BelowAny (slots.flatMap Slot.elements)) w₄ w₅ := hw₅.touches.swap_held w₄.held
  refine ⟨htouches, hstanding, htouches.get? hlap.get ?_⟩
  rintro ⟨c, hc, hbelow⟩
  exact (hlap.nursed.inside hc).not_below hbelow

theorem Nursed.lap (hharmless : Harmless enter) (hopened : Nursed w₁ node e (x.opened h))
    (hfill : (Build.fill e (.object (.scope m e) :: x.context) .headless 0 x.slots).run.runIn enter w₁ =
      (some (.ok ()), w₂))
    (hassign : (Build.assign e (.object (.scope m e) :: x.context) node.bind).run.runIn enter w₂ =
      (some (.ok ()), w₃)) :
    ∃ slots written w₄, Lap enter node e x h m slots written w₁ w₂ w₃ w₄ := by
  obtain ⟨slots, hw₂, h₂, -⟩ :=
    (hopened.fill_ends hharmless.rules rfl (List.nil_append _).symm rfl rfl).ok hfill
  obtain ⟨written, hnames, hw₃, h₃⟩ := (h₂.bind_ends hharmless.rules rfl _).ok hassign
  obtain ⟨w₄, hw₄, -, hx₄, hstanding, hconclude⟩ := h₃.runIn_conclude enter rfl List.prefix_rfl
  exact ⟨slots, written, w₄, hfill, hw₂, h₂, hassign, hw₃, hnames, h₃, hw₄, hx₄, hstanding, hconclude⟩

/-- An update that succeeds. -/
theorem Standing.lap (hharmless : Harmless enter) (hstanding : Standing w node e)
    (hx : w.elements.get? e.row = some x) (hc : x.component = .headless h)
    (hrun : (Act.update e).runIn enter w = (some (.ok ()), w')) :
    ∃ m slots written w₁ w₂ w₃ w₄ w₅, Edits e { w with held := e :: w.held } w₁ ∧
      Nursed w₁ node e (x.opened h) ∧ Lap enter node e x h m slots written w₁ w₂ w₃ w₄ ∧
      (Act.updateAll (slots.flatMap Slot.elements)).runIn enter
        { w₄ with held := slots.flatMap Slot.elements ++ w₄.held } = (some (.ok ()), w₅) ∧
      w' = { w₅ with held := w₅.held.erase e } := by
  obtain ⟨m, w₁, hw₁, h₁, heq⟩ := hstanding.runIn_update enter hx hc
  rw [heq] at hrun
  obtain ⟨answer, w₃, hall, hconclude⟩ := Act.runIn_bind_eq_some hrun
  cases answer with
  | error error =>
    rw [Act.conclude_eq] at hconclude
    obtain ⟨⟨⟩, v, -, hconclude⟩ := Act.runIn_bind_eq_some hconclude
    cases hconclude
  | ok =>
    obtain ⟨⟨⟩, w₂, hfill, hassign⟩ := Build.runIn_bindE_eq_ok hall
    obtain ⟨slots, written, w₄, hlap⟩ := h₁.lap hharmless hfill hassign
    rw [hlap.runIn] at hrun
    obtain ⟨answer, w₅, hchildren, hrun⟩ := Act.runIn_bind_eq_some hrun
    cases hrun
    exact ⟨m, slots, written, w₁, w₂, w₃, w₄, w₅, hw₁, h₁, hlap, hchildren, rfl⟩

end

end ReactiveViews
