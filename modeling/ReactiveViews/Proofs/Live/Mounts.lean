import ReactiveViews.Proofs.Live.Elements

/-!
# Mounts

An element has a list of children, and its component has a list of the children it shows. Each
operation on the children edits both lists, the one of the component first, and leaves the other alone
if the component refuses. A component that draws nothing refuses only to stop showing what it does not
show.

## What is proved

Of an element whose component draws nothing, an operation changes both lists in the same way or nothing
at all (`Mounting.exists_outcome`). **Mounts** (`Mounting.lists_agree`): so the two lists are the same
after every operation of every sequence, whatever is appended how often and whatever is refused.
-/

namespace ReactiveViews

variable {σ : Type} {enter : Enter σ}

/-! ### The two lists -/

/-- What a component shows, as far as it draws nothing. -/
def Component.mounted : Component → List ElementId
  | headless h => h.mounted
  | foreign _ => []

namespace World

/-- The children of an element. -/
def children (w : World σ) (e : ElementId) : List ElementId :=
  ((w.elements.get? e.row).map Element.children).getD []

/-- The children that the component of an element shows. -/
def mounted (w : World σ) (e : ElementId) : List ElementId :=
  ((w.elements.get? e.row).map (·.component.mounted)).getD []

/-- An element with a component that draws nothing and is not in the middle of a change. -/
def Plain (w : World σ) (e : ElementId) : Prop :=
  ∃ x h, w.elements.get? e.row = some x ∧ x.busy = false ∧ x.component = .headless h

/-- An element with such a component, which shows the children of the element in their order. -/
structure InStep (w : World σ) (e : ElementId) : Prop where
  /-- The component draws nothing. -/
  plain : w.Plain e
  /-- The lists are the same. -/
  same : w.mounted e = w.children e

variable {w w' : World σ} {e : ElementId} {x : Element} {h : Headless}

theorem children_eq (hx : w.elements.get? e.row = some x) : w.children e = x.children := by
  simp [children, hx]

theorem mounted_eq (hx : w.elements.get? e.row = some x) (hc : x.component = .headless h) :
    w.mounted e = h.mounted := by
  simp [mounted, hx, hc, Component.mounted]

theorem inStep_of_element (hx : w.elements.get? e.row = some x) (hbusy : x.busy = false)
    (hc : x.component = .headless h) (hsame : h.mounted = x.children) : w.InStep e :=
  ⟨⟨x, h, hx, hbusy, hc⟩, by rw [mounted_eq hx hc, children_eq hx, hsame]⟩

/-- Only the element itself is asked. -/
theorem InStep.congr (hw : w.InStep e) (helement : w'.elements.get? e.row = w.elements.get? e.row) :
    w'.InStep e := by
  obtain ⟨⟨x, h, hx, hbusy, hc⟩, hsame⟩ := hw
  rw [mounted_eq hx hc, children_eq hx] at hsame
  exact inStep_of_element (helement.trans hx) hbusy hc hsame

end World

/-! ### New elements -/

/-- A new element with a new component that draws nothing. -/
def Act.newPlain (tag : Tag) (context : Context) : Act σ ElementId :=
  newElement tag (.headless (.new tag.tag)) context

/-- A new element is in step, and so are those that were before. -/
theorem Act.newPlain_inStep (enter : Enter σ) (w : World σ) (tag : Tag) (context : Context) :
    ∃ v, (newPlain tag context).runIn enter w = (some ⟨w.elements.size⟩, v) ∧
      v.elements.size = w.elements.size + 1 ∧ v.InStep ⟨w.elements.size⟩ ∧
      ∀ e, w.InStep e → v.InStep e := by
  refine ⟨_, rfl, Table.size_add _ _, ?_, fun e he => ?_⟩
  · exact World.inStep_of_element (Table.get?_add_new _ _) rfl rfl rfl
  · obtain ⟨x, -, hx, -⟩ := he.plain
    exact he.congr (Table.get?_add_old _ _ (Table.lt_size_of_get? hx))

/-- New elements are different ones and are in step, and so are those that were before. -/
theorem Act.mapM_newPlain_inStep (enter : Enter σ) (w : World σ) (made : List (Tag × Context)) :
    ∃ es v, (made.mapM fun new => newPlain new.1 new.2).runIn enter w = (some es, v) ∧
      es.length = made.length ∧ es.Nodup ∧ (∀ e ∈ es, w.elements.size ≤ e.row) ∧
      ∀ e, w.InStep e ∨ e ∈ es → v.InStep e := by
  induction made generalizing w with
  | nil => exact ⟨[], w, rfl, rfl, .nil, by simp, by simp⟩
  | cons new rest ih =>
    obtain ⟨u, hrun, hsize, hnew, hold⟩ := newPlain_inStep enter w new.1 new.2
    obtain ⟨es, v, hrun', hlength, hnodup, hrows, hes⟩ := ih u
    -- the later ones have later rows
    have hfresh : (⟨w.elements.size⟩ : ElementId) ∉ es := fun hmem => by
      have hle : u.elements.size ≤ w.elements.size := hrows _ hmem
      omega
    refine ⟨⟨w.elements.size⟩ :: es, v, ?_, by simp [hlength], hnodup.cons hfresh, ?_, ?_⟩
    · rw [List.mapM_cons, runIn_bind_some hrun, runIn_bind_some hrun']
      rfl
    · rintro e (_ | ⟨_, hmem⟩)
      · exact Nat.le_refl _
      · have hle := hrows e hmem
        omega
    · rintro e (he | _ | ⟨_, hmem⟩)
      · exact hes e (.inl (hold e he))
      · exact hes _ (.inl hnew)
      · exact hes e (.inr hmem)

/-! ### Removing a child -/

/-- A child that is shown is removed everywhere. -/
theorem Alters.removeChild {w : World σ} {e child : ElementId} {x : Element} {h : Headless}
    (hx : w.elements.get? e.row = some x) (hbusy : x.busy = false) (hc : x.component = .headless h)
    (hchild : child ∈ h.mounted) :
    Alters enter w e (Act.removeChild e child) (.ok ()) { x with
      component := .headless { h with mounted := h.mounted.filter (· ≠ child) }
      children := x.children.filter (· ≠ child) } := by
  have hown : h.unmount child = .ok { h with mounted := h.mounted.filter (· ≠ child) } :=
    if_pos hchild
  refine (change hx hbusy hc hown _).bind fun w' _ hx' => ?_
  exact (updateElement hx' (fun y => { y with children := y.children.filter (· ≠ child) })
    fun _ => rfl).bind fun w'' _ hx'' => .pure hx'' _

/-- A change that a component refuses is not made. -/
theorem Act.runIn_change_refused {w : World σ} {e : ElementId} {x : Element} {h : Headless}
    (hx : w.elements.get? e.row = some x) (hbusy : x.busy = false) (hc : x.component = .headless h)
    {own : Headless → Except ComponentError Headless} {error : ComponentError}
    (hown : own h = .error error) (foreign : Nat → Act σ (Except ComponentError Unit)) :
    (change e own foreign).runIn enter w = (some (.error error), w) := by
  unfold change
  rw [runIn_bind_some (runIn_component hx hbusy), hc]
  simp only [hown]
  rfl

/-- A child that is not shown is not removed: the component refuses first. -/
theorem Act.runIn_removeChild_refused {w : World σ} {e child : ElementId} {x : Element} {h : Headless}
    (hx : w.elements.get? e.row = some x) (hbusy : x.busy = false) (hc : x.component = .headless h)
    (hchild : child ∉ h.mounted) :
    (removeChild e child).runIn enter w =
      (some (.error (.renderer (child.text ++ " is not mounted on <" ++ h.tag ++ ">"))), w) := by
  have hown : h.unmount child =
      .error (.renderer (child.text ++ " is not mounted on <" ++ h.tag ++ ">")) := if_neg hchild
  unfold removeChild
  rw [runIn_bind_some (runIn_change_refused hx hbusy hc hown fun c => enterHost (.removeChild c child))]
  rfl

/-! ### Operations -/

/-- An operation on the children of an element. -/
inductive Mounting where
  /-- A child is added at the end. -/
  | append (e child : ElementId)
  /-- A child is removed, wherever it stands. -/
  | remove (e child : ElementId)
  /-- All children are removed. -/
  | clear (e : ElementId)
  deriving DecidableEq

namespace Mounting

/-- The element whose children are changed. -/
def element : Mounting → ElementId
  | append e _ | remove e _ | clear e => e

/-- Doing it. -/
def act : Mounting → Act σ (Except ComponentError Unit)
  | append e child => Act.appendChild e child
  | remove e child => Act.removeChild e child
  | clear e => Act.clearChildren e

/-- What it does to a list. -/
def apply : Mounting → List ElementId → List ElementId
  | append _ child, children => children ++ [child]
  | remove _ child, children => children.filter (· ≠ child)
  | clear _, _ => []

/-- What it comes to for an element whose component draws nothing: the answer, and the world after. -/
structure Outcome (op : Mounting) (w : World σ) (answer : Except ComponentError Unit)
    (w' : World σ) : Prop where
  /-- Only removing can fail, and it does so exactly if the child is not shown there. -/
  fails_iff : answer ≠ .ok () ↔ ∃ e child, op = .remove e child ∧ child ∉ w.mounted e
  /-- The failure names the child and the component. -/
  message : ∀ error, answer = .error error → ∃ e child x h, op = .remove e child ∧
    w.elements.get? e.row = some x ∧ x.component = .headless h ∧
    error = .renderer (child.text ++ " is not mounted on <" ++ h.tag ++ ">")
  /-- Failing changes nothing. -/
  unchanged : answer ≠ .ok () → w' = w
  /-- Otherwise both lists change in the same way, and nothing else of the element does. -/
  changed : answer = .ok () → ∃ x h, w.elements.get? op.element.row = some x ∧
    x.component = .headless h ∧
    w'.elements.get? op.element.row = some { x with
      component := .headless { h with mounted := op.apply h.mounted }
      children := op.apply x.children }
  /-- No other element changes. -/
  others : ∀ e, e ≠ op.element → w'.elements.get? e.row = w.elements.get? e.row

/-- An operation that succeeds. -/
theorem outcome_of_alters {op : Mounting} {w : World σ} {x : Element} {h : Headless}
    (hx : w.elements.get? op.element.row = some x) (hc : x.component = .headless h)
    (hshown : ∀ e child, op = .remove e child → child ∈ h.mounted)
    (hop : Alters enter w op.element op.act (.ok ()) { x with
      component := .headless { h with mounted := op.apply h.mounted }
      children := op.apply x.children }) :
    ∃ answer w', op.act.runIn enter w = (some answer, w') ∧ op.Outcome w answer w' := by
  obtain ⟨w', hrun, hw', hx'⟩ := hop
  refine ⟨.ok (), w', hrun, ?_, nofun, fun hne => (hne rfl).elim, fun _ => ⟨x, h, hx, hc, hx'⟩, ?_⟩
  · refine ⟨fun hne => (hne rfl).elim, ?_⟩
    rintro ⟨e, child, rfl, hnot⟩
    rw [World.mounted_eq (e := e) hx hc] at hnot
    exact (hnot (hshown e child rfl)).elim
  · intro e he
    refine hw'.others e.row fun hrow => he ?_
    cases e
    cases hrow
    rfl

/-- An operation on an element whose component draws nothing always comes to an answer. -/
theorem exists_outcome (enter : Enter σ) {w : World σ} (op : Mounting) (hw : w.Plain op.element) :
    ∃ answer w', op.act.runIn enter w = (some answer, w') ∧ op.Outcome w answer w' := by
  obtain ⟨x, h, hx, hbusy, hc⟩ := hw
  cases op with
  | append e child => exact outcome_of_alters hx hc nofun (.appendChild hx hbusy hc child)
  | clear e => exact outcome_of_alters hx hc nofun (.clearChildren hx hbusy hc)
  | remove e child =>
    by_cases hchild : child ∈ h.mounted
    · refine outcome_of_alters hx hc ?_ (.removeChild hx hbusy hc hchild)
      rintro _ _ ⟨⟩
      exact hchild
    · have hnot : child ∉ w.mounted e := World.mounted_eq hx hc ▸ hchild
      refine ⟨_, w, Act.runIn_removeChild_refused hx hbusy hc hchild,
        ?_, ?_, fun _ => rfl, nofun, fun _ _ => rfl⟩
      · exact ⟨fun _ => ⟨e, child, rfl, hnot⟩, fun _ => nofun⟩
      · rintro _ ⟨⟩
        exact ⟨e, child, x, h, rfl, hx, hc, rfl⟩

/-- An operation leaves every element in step that was. -/
theorem Outcome.inStep {op : Mounting} {w w' : World σ} {answer : Except ComponentError Unit}
    (hop : op.Outcome w answer w') {e : ElementId} (he : w.InStep e) : w'.InStep e := by
  by_cases hanswer : answer = .ok ()
  · by_cases heq : e = op.element
    · obtain ⟨x, h, hx, hc, hx'⟩ := hop.changed hanswer
      obtain ⟨⟨y, -, hy, hbusy, -⟩, hsame⟩ := he
      obtain rfl := heq
      obtain rfl : y = x := Option.some_inj.mp (hy.symm.trans hx)
      rw [World.mounted_eq hx hc, World.children_eq hx] at hsame
      -- the same has been done to two lists that were the same
      exact World.inStep_of_element hx' hbusy rfl (congrArg op.apply hsame)
    · exact he.congr (hop.others e heq)
  · exact hop.unchanged hanswer ▸ he

/-- Operations on elements that are in step, one after the other, come to answers, and leave every
element in step that was. -/
theorem mapM_inStep (enter : Enter σ) {w : World σ} (ops : List Mounting)
    (hops : ∀ op ∈ ops, w.InStep op.element) :
    ∃ answers w', (ops.mapM act).runIn enter w = (some answers, w') ∧
      ∀ e, w.InStep e → w'.InStep e := by
  induction ops generalizing w with
  | nil => exact ⟨[], w, rfl, fun _ he => he⟩
  | cons op rest ih =>
    obtain ⟨answer, v, hrun, hop⟩ := op.exists_outcome enter (hops op List.mem_cons_self).plain
    obtain ⟨answers, w', hrun', hrest⟩ :=
      ih fun op' hmem => hop.inStep (hops op' (List.mem_cons_of_mem _ hmem))
    refine ⟨answer :: answers, w', ?_, fun e he => hrest e (hop.inStep he)⟩
    rw [List.mapM_cons, Act.runIn_bind_some hrun, Act.runIn_bind_some hrun']
    rfl

/-- **Mounts.** Take elements that are in step, and any number of new ones. After any operations on
them, every further operation on one of them comes to an outcome, and before and after it each of them
is in step. -/
theorem lists_agree (enter : Enter σ) {w : World σ} {S : ElementId → Prop}
    (hS : ∀ e, S e → w.InStep e) (made : List (Tag × Context)) :
    ∃ es v, (made.mapM fun new => Act.newPlain new.1 new.2).runIn enter w = (some es, v) ∧
      es.length = made.length ∧ es.Nodup ∧
      ∀ (before : List Mounting) (op : Mounting),
        (∀ op' ∈ before ++ [op], S op'.element ∨ op'.element ∈ es) →
        ∃ answers u answer u', (before.mapM act).runIn enter v = (some answers, u) ∧
          op.act.runIn enter u = (some answer, u') ∧ op.Outcome u answer u' ∧
          ∀ e, S e ∨ e ∈ es → u.InStep e ∧ u'.InStep e := by
  obtain ⟨es, v, hmade, hlength, hnodup, -, hes⟩ := Act.mapM_newPlain_inStep enter w made
  have hv : ∀ e, S e ∨ e ∈ es → v.InStep e := fun e he => hes e (he.imp_left (hS e))
  refine ⟨es, v, hmade, hlength, hnodup, fun before op hops => ?_⟩
  obtain ⟨answers, u, hbefore, hu⟩ :=
    mapM_inStep enter before fun op' hmem => hv _ (hops op' (List.mem_append_left _ hmem))
  have hop : u.InStep op.element := hu _ (hv _ (hops op (by simp)))
  obtain ⟨answer, u', hrun, houtcome⟩ := op.exists_outcome enter hop.plain
  exact ⟨answers, u, answer, u', hbefore, hrun, houtcome,
    fun e he => ⟨hu e (hv e he), houtcome.inStep (hu e (hv e he))⟩⟩

/-- A list that shows one item, which is its child. -/
def menu : World Unit :=
  { World.empty .off () with
    elements := (Table.empty.add
      ⟨⟨"ul", none, [], none⟩, .headless ⟨"ul", [], [], [⟨1⟩]⟩, false, [], [⟨1⟩], none, []⟩).add
      ⟨⟨"li", none, [], none⟩, .headless (.new "li"), false, [], [], none, []⟩ }

/-- The item is appended once more, and to a new element too. Once it is removed, which removes it
everywhere in the list, removing it again is refused. -/
theorem lists_agree_menu :
    (∀ e : ElementId, e = ⟨0⟩ → menu.InStep e) ∧
    ∃ v answers u answer u',
      (Act.newPlain ⟨"ol", none, [], none⟩ []).runIn (fun _ w => (none, w)) menu = (some ⟨2⟩, v) ∧
      ([append ⟨0⟩ ⟨1⟩, append ⟨2⟩ ⟨1⟩, remove ⟨0⟩ ⟨1⟩].mapM act).runIn (fun _ w => (none, w)) v =
        (some answers, u) ∧
      (remove ⟨0⟩ ⟨1⟩).act.runIn (fun _ w => (none, w)) u = (some answer, u') ∧
      answer ≠ .ok () ∧ u' = u ∧ u'.InStep ⟨0⟩ ∧ u'.InStep ⟨2⟩ ∧
      u'.children ⟨0⟩ = [] ∧ u'.children ⟨2⟩ = [⟨1⟩] := by
  have hmenu : ∀ e : ElementId, e = ⟨0⟩ → menu.InStep e := by
    rintro _ rfl
    exact World.inStep_of_element rfl rfl rfl rfl
  obtain ⟨es, v, hmade, -, -, hrun⟩ :=
    lists_agree (fun _ w => (none, w)) hmenu [(⟨"ol", none, [], none⟩, [])]
  cases hmade
  obtain ⟨answers, u, answer, u', hbefore, hop, houtcome, hstep⟩ :=
    hrun [append ⟨0⟩ ⟨1⟩, append ⟨2⟩ ⟨1⟩, remove ⟨0⟩ ⟨1⟩] (remove ⟨0⟩ ⟨1⟩) (by decide)
  have hstep₀ := (hstep ⟨0⟩ (.inl rfl)).2
  have hstep₂ := (hstep ⟨2⟩ (.inr (by decide))).2
  cases hbefore
  have hfails : answer ≠ .ok () := houtcome.fails_iff.mpr ⟨⟨0⟩, ⟨1⟩, rfl, by decide⟩
  have hsame := houtcome.unchanged hfails
  refine ⟨hmenu, _, _, _, answer, u', rfl, rfl, hop, hfails, hsame, hstep₀, hstep₂, ?_, ?_⟩
  · rw [hsame]
    rfl
  · rw [hsame]
    rfl

end Mounting

end ReactiveViews
