import ReactiveViews.Proofs.Live.Sheltering

/-!
# One slot over the updates of its element

A slot is evaluated in the middle of the updates of its element, after the slots before it, while the
element is without its updater. So an evaluation finds in its slot what the evaluation before has left
there, however many updates have failed in between, and wherever.

## The model

`Evaluation` is one evaluation of a slot, with the world that it begins in, and `Act.evaluations` are
those in what an update does to the element itself, of which there is one or none. A `Passage` is a run
of the library as the slot sees it: updates of the element, with the evaluations in them, and in
between anything that leaves the updater of the element and that slot alone, or takes the updater away
for good.

## What is proved

What an update does to the element itself is to get to the slot, to evaluate it, and to go on from there
(`Act.runIn_updateSelf`). Every run of a script is a passage (`Host.passage`), whatever the host program
does in it, and in every passage each evaluation finds what the one before has left
(`Passage.succession`).
-/

namespace ReactiveViews

variable {σ α : Type}

/-! ### Evaluations in updates -/

/-- An evaluation of a slot of an element. -/
structure Evaluation (σ : Type) (e : ElementId) (i : Nat) where
  /-- How calls are entered meanwhile. -/
  enter : Enter σ
  /-- The world that it begins in. -/
  world : World σ
  /-- The slot, with what it remembers. -/
  slot : Slot
  /-- The scopes for expressions. -/
  scope : Context
  /-- Where components come from. -/
  factory : Factory

namespace Evaluation

variable {e : ElementId} {i : Nat}

/-- What comes of it. -/
def run (v : Evaluation σ e i) : Option (Except ViewError (List ElementId)) × World σ :=
  (Build.evaluate e i v.slot v.scope v.factory).run.runIn v.enter v.world

/-- The elements that it contributes, if it succeeds. -/
def answer (v : Evaluation σ e i) : Option (List ElementId) := v.run.1.bind Except.toOption

/-- The world that it ends in. -/
def finish (v : Evaluation σ e i) : World σ := v.run.2

/-- The condition of the node of a single child, if it comes to a truth value. -/
def condition (v : Evaluation σ e i) : Option Bool :=
  ((Build.eval (Eval.shows v.scope v.slot.node)).run.runIn v.enter v.world).1.bind Except.toOption

/-- The evaluation of a slot that an update has got to, if it has. -/
def reached (enter : Enter σ) (slot : Slot) (factory : Factory) :
    Option (Except ViewError Context) × World σ → List (Evaluation σ e i)
  | (some (.ok scope), v) => [⟨enter, v, slot, scope, factory⟩]
  | _ => []

end Evaluation

namespace Build

/-- What the updater of a node does before it comes to a slot, given the slots before that one. -/
def approach (e : ElementId) (factory : Factory) (earlier : List Slot) : Build σ Context := do
  let scope ← act (Act.contextOf e)
  component (Act.clearChildren e)
  fill e scope factory 0 earlier
  return scope

/-- What it does from a slot on, given the slots after that one. -/
def proceed (e : ElementId) (i : Nat) (node : Node Resolver) (factory : Factory) (slot : Slot)
    (later : List Slot) (scope : Context) : Build σ Unit := do
  append e (← evaluate e i slot scope factory)
  fill e scope factory (i + 1) later
  assign e scope node.bind

theorem fill_append (e : ElementId) (context : Context) (factory : Factory) (earlier later : List Slot) :
    ∀ i, (fill e context factory i (earlier ++ later) : Build σ Unit) =
      fill e context factory i earlier >>= fun _ =>
        fill e context factory (i + earlier.length) later := by
  induction earlier with
  | nil => exact fun i => (pure_bind _ _).symm
  | cons slot rest ih =>
    intro i
    simp only [List.cons_append, fill, ih, bind_assoc, List.length_cons,
      Nat.add_comm rest.length 1, Nat.add_assoc]

/-- The updater of a node comes to each of the slots, and goes on from there. -/
theorem runIn_refresh (enter : Enter σ) {w : World σ} {e : ElementId} {x : Element}
    (hx : w.elements.get? e.row = some x) {earlier later : List Slot} {slot : Slot}
    (hslots : x.slots = earlier ++ slot :: later) (node : Node Resolver) (factory : Factory) :
    (refresh e node factory).run.runIn enter w =
      (approach e factory earlier >>=
        proceed e earlier.length node factory slot later).run.runIn enter w := by
  have hscope : (act (Act.contextOf e)).run.runIn enter w =
      (some (.ok (.object (.scope w.marks e) :: x.context)), { w with marks := w.marks + 1 }) := by
    show (Except.ok <$> Act.contextOf e).runIn enter w = _
    rw [Act.runIn_map, Act.contextOf, Act.runIn_bind_some (Act.runIn_element hx)]
    rfl
  have hlook : (act (Act.element e)).run.runIn enter { w with marks := w.marks + 1 } =
      (some (.ok x), { w with marks := w.marks + 1 }) := by
    show (Except.ok <$> Act.element e).runIn enter _ = _
    rw [Act.runIn_map, Act.runIn_element (w := { w with marks := w.marks + 1 }) hx]
    rfl
  have hsome : (!x.slots.isEmpty) = true := by simp [hslots]
  rw [refresh, runIn_bindE_ok hscope, runIn_bindE_ok hlook, if_pos hsome, hslots, fill_append]
  simp only [approach, bind_assoc, pure_bind]
  rw [runIn_bindE_ok hscope]
  simp only [fill, proceed, bind_assoc, Nat.zero_add]

end Build

namespace World

/-- The world after the updater of a node has been taken out to be run. -/
def begun (w : World σ) (e : ElementId) : World σ :=
  (w.updateElement e ({ · with updater := none })).record (.updating e none)

end World

namespace Act

/-- The evaluations of a slot in what an update does to the element itself. -/
def evaluations (enter : Enter σ) (e : ElementId) (i : Nat) (w : World σ) : List (Evaluation σ e i) :=
  match w.elements.get? e.row with
  | some x =>
    match x.updater, x.slots[i]? with
    | some (.view _ factory), some slot =>
      Evaluation.reached enter slot factory
        ((Build.approach e factory (x.slots.take i)).run.runIn enter (w.begun e))
    | _, _ => []
  | none => []

/-- An update comes to each of the slots of the element, evaluates it, and goes on from there; then it
puts the updater back. -/
theorem runIn_updateSelf (enter : Enter σ) {w : World σ} {e : ElementId} {x : Element}
    (hx : w.elements.get? e.row = some x) {node : Node Resolver} {factory : Factory}
    (hupdater : x.updater = some (.view node factory)) {earlier later : List Slot} {slot : Slot}
    (hslots : x.slots = earlier ++ slot :: later) :
    (updateSelf e).runIn enter w =
      ((Build.approach e factory earlier >>=
          Build.proceed e earlier.length node factory slot later).run >>= fun answer => do
        putBack e (.view node factory)
        record (.updated e none answer.isOk)
        return answer).runIn enter (w.begun e) := by
  have hbegun : (w.begun e).elements.get? e.row = some { x with updater := none } :=
    World.get?_updateElement_self hx _
  rw [updateSelf, runIn_bind_some (runIn_takeUpdater hx), hupdater]
  dsimp only [runUpdater, Updater.number?]
  rw [runIn_bind_some (runIn_record _ _ _)]
  exact runIn_bind_congr (Build.runIn_refresh enter hbegun hslots node factory) _

end Act

/-! ### Passages -/

/-- Elements last, and the element keeps its updater and a slot, or is without the updater of a node. -/
structure Bypasses (e : ElementId) (i : Nat) (w w' : World σ) : Prop extends Lasts w w' where
  /-- What becomes of the element. -/
  left : ∀ {x : Element}, w.elements.get? e.row = some x →
    ∃ x', w'.elements.get? e.row = some x' ∧
      (x'.Bare ∨ (x'.updater = x.updater ∧ x'.slots[i]? = x.slots[i]?))

/-- A run of the library as a slot of an element sees it: from the first world it leads to the second
one, and these are the evaluations of the slot in it. -/
inductive Passage (host : Host σ) (e : ElementId) (i : Nat) :
    World σ → World σ → List (Evaluation σ e i) → Prop where
  /-- Nothing happens. -/
  | rest (w : World σ) : Passage host e i w w []
  /-- The element is left alone, or gets another updater. -/
  | pause {u v w : World σ} {evaluations : List (Evaluation σ e i)} :
    Bypasses e i u v → Passage host e i v w evaluations → Passage host e i u w evaluations
  /-- An update of the element, up to that of its children. -/
  | update (depth : Nat) {u w : World σ} {evaluations : List (Evaluation σ e i)} :
    Passage host e i ((Act.updateSelf e).runIn (host.enter depth) u).2 w evaluations →
      Passage host e i u w (Act.evaluations (host.enter depth) e i u ++ evaluations)

section

variable {host : Host σ} {e : ElementId} {i : Nat} {u v w : World σ}

theorem Host.lasts_admits (host : Host σ) (depth : Nat) :
    Admits (fun _ => Lasts) (host.enter depth) :=
  .of_quiet .of_change Lasts.trans (host.lasts depth).calls

theorem Bypasses.of_untouched (h : Untouched e (·[i]?) v w) : Bypasses e i v w where
  toLasts := h.toLasts
  left hx := by
    obtain ⟨x', hx', hsame⟩ := h.same hx
    exact ⟨x', hx', .inr hsame⟩

namespace Passage

theorem append {evaluations later : List (Evaluation σ e i)} (h : Passage host e i u v evaluations)
    (h' : Passage host e i v w later) : Passage host e i u w (evaluations ++ later) := by
  induction h with
  | rest => exact h'
  | pause hbypasses _ ih => exact .pause hbypasses (ih h')
  | update depth _ ih =>
    rw [List.append_assoc]
    exact .update depth (ih h')

theorem lasts {evaluations : List (Evaluation σ e i)} (h : Passage host e i u w evaluations) :
    Lasts u w := by
  induction h with
  | rest w => exact .refl w
  | pause hbypasses _ ih => exact hbypasses.toLasts.trans ih
  | update depth _ ih => exact ((host.lasts_admits depth).updateSelf e _).trans ih

end Passage

/-- The effect of being a passage, if there is the element. -/
def Passing (host : Host σ) (e : ElementId) (i : Nat) : Effect σ := fun _ u w =>
  (∃ x, u.elements.get? e.row = some x) → ∃ evaluations, Passage host e i u w evaluations

theorem Passing.trans {b : Bool} (h : Passing host e i true u v) (h' : Passing host e i b v w) :
    Passing host e i b u w := by
  rintro ⟨x, hx⟩
  obtain ⟨evaluations, hpassage⟩ := h ⟨x, hx⟩
  obtain ⟨y, hy, -⟩ := hpassage.lasts.element hx
  obtain ⟨later, hlater⟩ := h' ⟨y, hy⟩
  exact ⟨_, hpassage.append hlater⟩

theorem Bypasses.passing {b : Bool} (h : Bypasses e i v w) : Passing host e i b v w :=
  fun _ => ⟨[], .pause h (.rest w)⟩

theorem passing_setUpdater {enter : Enter σ} (h : Shelters e (·[i]?) (Passing host e i) enter) (n : Nat) :
    Keeps (Passing host e i) enter (Act.setUpdater e n) := by
  refine h.bind (fun w => Bypasses.passing ?_) fun _ => h.record _
  refine ⟨.updateElement w e fun _ => ⟨rfl, rfl⟩, fun hx => ?_⟩
  exact ⟨_, World.get?_updateElement_self hx _, .inl rfl⟩

theorem Host.passing (host : Host σ) (e : ElementId) (i depth : Nat) :
    Shelters e (·[i]?) (Passing host e i) (host.enter depth) :=
  .of_host (fun h => (Bypasses.of_untouched h).passing)
    (fun habsent ⟨x, hx⟩ => by rw [habsent] at hx; cases hx) Passing.trans
    (fun depth _ _ _ => ⟨_, .update depth (.rest _)⟩) passing_setUpdater depth

/-- Whatever a host program does, it is a passage. -/
theorem Host.passage (host : Host σ) (depth : Nat) (script : Script σ α) {x : Element}
    (hx : w.elements.get? e.row = some x) :
    ∃ evaluations, Passage host e i w (host.run depth script w).2 evaluations := by
  have h := host.passing e i depth
  have hself : Keeps (Passing host e i) (host.enter depth) (Act.updateSelf e) :=
    fun _ _ => ⟨_, .update depth (.rest _)⟩
  have hrun := h.overlooks.runUntil (fun _ => false)
    (fun r _ => h.perform hself (passing_setUpdater h) r) (.all script)
  rw [Act.runUntil_never] at hrun
  exact hrun w ⟨x, hx⟩

/-- An element is held, updated itself, and then something is done that makes a passage. -/
theorem Passage.of_holding (host : Host σ) (depth : Nat) {x : Element}
    (hx : w.elements.get? e.row = some x) {f : Except ViewError Unit → Act σ α}
    (hf : ∀ answer, Keeps (Passing host e i) (host.enter depth) (f answer)) :
    ∃ later, Passage host e i w
      ((Act.holding [e] (Act.updateSelf e >>= f)).runIn (host.enter depth) w).2
      (Act.evaluations (host.enter depth) e i { w with held := e :: w.held } ++ later) := by
  let u : World σ := { w with held := e :: w.held }
  have h := host.passing e i depth
  have hhold : (Act.hold [e]).runIn (host.enter depth) w = (some (), u) := rfl
  have hheld : Bypasses e i w u := .of_untouched (.of_elements_eq rfl)
  have hlasts := (host.lasts_admits depth).updateSelf e u
  obtain ⟨x', hx', -⟩ := hlasts.element (e := e) (x := x) hx
  rw [Act.holding, Act.runIn_bind_some hhold, bind_assoc]
  suffices hafter : ∃ later, Passage host e i ((Act.updateSelf e).runIn (host.enter depth) u).2
      ((Act.updateSelf e >>= fun answer => f answer >>= fun a => do
        Act.release [e]
        return a).runIn (host.enter depth) u).2 later by
    obtain ⟨later, hlater⟩ := hafter
    exact ⟨later, .pause hheld (.update depth hlater)⟩
  rcases hself : (Act.updateSelf e).runIn (host.enter depth) u with ⟨_ | answer, w'⟩
  · rw [Act.runIn_bind_none hself]
    exact ⟨[], .rest w'⟩
  · rw [Act.runIn_bind_some hself]
    rw [hself] at hx'
    exact h.bind (hf answer) (fun _ => h.bind (h.release _) fun _ => h.pure _) w' ⟨x', hx'⟩

/-- An update begins with what it does to the element itself; what it does to the children is a passage
as well. -/
theorem Passage.of_update (host : Host σ) (depth : Nat) {x : Element}
    (hx : w.elements.get? e.row = some x) :
    ∃ later, Passage host e i w ((Act.update e).runIn (host.enter depth) w).2
      (Act.evaluations (host.enter depth) e i { w with held := e :: w.held } ++ later) := by
  have h := host.passing e i depth
  refine Passage.of_holding host depth hx fun answer => ?_
  cases answer with
  | error error => exact h.pure _
  | ok => exact h.bind (h.element e) fun _ => h.bind (h.hold _) fun _ => h.updateAll _

end

/-! ### Successions -/

namespace World

/-- The element is in the middle of an update, or done with for good, and has the slot. -/
def Opens (w : World σ) (e : ElementId) (i : Nat) (slot : Slot) : Prop :=
  ∃ x, w.elements.get? e.row = some x ∧ x.Bare ∧ x.slots[i]? = some slot

/-- The element has the slot, unless it is without the updater of a node. -/
def Stocks (w : World σ) (e : ElementId) (i : Nat) (slot : Slot) : Prop :=
  ∃ x, w.elements.get? e.row = some x ∧ (x.Bare ∨ x.slots[i]? = some slot)

end World

/-- An evaluation of the slot of a node, with what it remembers, some time after a world. -/
structure Evaluation.Begins {e : ElementId} {i : Nat} (v : Evaluation σ e i) (node : Node Resolver)
    (m : Memory) (w : World σ) : Prop where
  /-- Calls are entered as a host program answers them. -/
  entered : ∃ (host : Host σ) (depth : Nat), v.enter = host.enter depth
  /-- The slot. -/
  slot : v.slot = ⟨node, m⟩
  /-- Elements have lasted. -/
  lasts : Lasts w v.world
  /-- The slot is there. -/
  opens : v.world.Opens e i ⟨node, m⟩

/-- Evaluations one after the other, each of which finds in the slot of a node what the one before has
left there; what is left at the end, in the second world, follows. -/
inductive Succession {e : ElementId} {i : Nat} (node : Node Resolver) :
    Memory → World σ → List (Evaluation σ e i) → Memory → World σ → Prop where
  /-- No evaluation. -/
  | rest {m : Memory} {w w' : World σ} : Lasts w w' → Succession node m w [] m w'
  /-- An evaluation, and those after it. -/
  | next {m m' m'' : Memory} {w w' : World σ} {v : Evaluation σ e i} {later : List (Evaluation σ e i)} :
    v.Begins node m w → v.finish.Opens e i ⟨node, m'⟩ → Succession node m' v.finish later m'' w' →
      Succession node m w (v :: later) m'' w'

section

variable {host : Host σ} {depth : Nat} {e : ElementId} {i : Nat} {u v w : World σ} {node : Node Resolver}
  {m m' m'' : Memory}

namespace Succession

theorem since {evaluations : List (Evaluation σ e i)} (hlasts : Lasts u v)
    (h : Succession node m v evaluations m' w) : Succession node m u evaluations m' w := by
  cases h with
  | rest h => exact .rest (hlasts.trans h)
  | next hbegins hopens h => exact .next { hbegins with lasts := hlasts.trans hbegins.lasts } hopens h

theorem lasting {evaluations : List (Evaluation σ e i)} (h : Succession node m u evaluations m' v)
    (hlasts : Lasts v w) : Succession node m u evaluations m' w := by
  induction h with
  | rest h => exact .rest (h.trans hlasts)
  | next hbegins hopens _ ih => exact .next hbegins hopens (ih hlasts)

theorem append {evaluations later : List (Evaluation σ e i)} (h : Succession node m u evaluations m' v)
    (h' : Succession node m' v later m'' w) : Succession node m u (evaluations ++ later) m'' w := by
  induction h with
  | rest hlasts => exact h'.since hlasts
  | next hbegins hopens _ ih => exact .next hbegins hopens (ih h')

end Succession

/-- While an element is without its updater, nothing gets at a slot. -/
theorem World.Opens.keeps {slot : Slot} {b : Bool} (h : w.Opens e i slot)
    (hw : Sheltering e (·[i]?) b w v) : Lasts w v ∧ v.Opens e i slot := by
  obtain ⟨x, hx, hbare, hslot⟩ := h
  obtain ⟨hlasts, x', hx', hbare', hslots⟩ := hw x hx hbare
  exact ⟨hlasts, x', hx', hbare', hslots.trans hslot⟩

/-- Parts of an update that write other slots keep a slot. -/
theorem Host.keeps_slot (host : Host σ) (e : ElementId) (i depth : Nat) :
    Builds (fun _ _ => True) (fun e' j => e' ≠ e ∨ j ≠ i) (Sheltering e (·[i]?)) (host.enter depth) :=
  (host.sheltering e (·[i]?) depth).builds fun j hj slots memory => by
    simp [hj]

/-- An evaluation leaves something in its slot. -/
theorem World.Opens.evaluate (h : w.Opens e i ⟨node, m⟩) (host : Host σ) (depth : Nat) (slot : Slot)
    (scope : Context) (factory : Factory) {w' : World σ}
    (hw' : w' = ((Build.evaluate e i slot scope factory).run.runIn (host.enter depth) w).2) :
    Lasts w w' ∧ ∃ m', w'.Opens e i ⟨node, m'⟩ := by
  subst hw'
  let g : List Slot → Option (Node Resolver) := fun slots => slots[i]?.map Slot.node
  have hbuilds := (host.sheltering e g depth).builds (p := (· = i)) fun j hj slots memory => by
    simp [g, hj, Function.comp_def]
  obtain ⟨x, hx, hbare, hslot⟩ := h
  obtain ⟨hlasts, x', hx', hbare', hnode⟩ :=
    hbuilds.evaluate (e := e) (.inr rfl) slot scope factory w x hx hbare
  have hnode : x'.slots[i]?.map Slot.node = x.slots[i]?.map Slot.node := hnode
  rw [hslot] at hnode
  obtain ⟨slot', hslot', rfl⟩ := Option.map_eq_some_iff.mp hnode
  exact ⟨hlasts, slot'.memory, x', hx', hbare', hslot'⟩

/-- What the updater of a node does leaves in a slot what the evaluation of the slot does, if it comes
to that. -/
theorem World.Opens.refresh (hopens : w.Opens e i ⟨node, m⟩) (host : Host σ) (depth : Nat)
    (parent : Node Resolver) (factory : Factory) {earlier : List Slot} (hi : earlier.length = i)
    (later : List Slot) {w' : World σ}
    (hw' : w' = ((Build.approach e factory earlier >>=
      Build.proceed e i parent factory ⟨node, m⟩ later).run.runIn (host.enter depth) w).2) :
    ∃ m', Succession node m w (Evaluation.reached (e := e) (i := i) (host.enter depth) ⟨node, m⟩ factory
        ((Build.approach e factory earlier).run.runIn (host.enter depth) w)) m' w' ∧
      w'.Opens e i ⟨node, m'⟩ := by
  subst hw'
  have h := host.keeps_slot e i depth
  have happroach : Keeps (Sheltering e (·[i]?)) (host.enter depth) (Build.approach e factory earlier).run :=
    h.bindE (h.liftE (h.contextOf e)) fun scope =>
      h.bindE (h.component (h.clearChildren e)) fun _ =>
      h.bindE (h.fill scope factory earlier 0 fun j _ hj => .inr (by omega)) fun _ => h.pureE _
  have hafter (scope : Context) (es : List ElementId) : Keeps (Sheltering e (·[i]?)) (host.enter depth)
      (Build.append e es >>= fun _ => Build.fill e scope factory (i + 1) later >>= fun _ =>
        Build.assign e scope parent.bind : Build σ Unit).run :=
    h.bindE (h.append e es) fun _ =>
      h.bindE (h.fill scope factory later (i + 1) fun j hj _ => .inr (by omega)) fun _ =>
      h.assign scope fun _ _ => trivial
  have hgot := hopens.keeps (happroach w)
  rw [ExceptT.run_bind, Act.runIn_bind]
  revert hgot
  rcases (Build.approach e factory earlier).run.runIn (host.enter depth) w with ⟨_ | error | scope, v⟩
  · exact fun ⟨hlasts, hv⟩ => ⟨m, .rest hlasts, hv⟩
  · exact fun ⟨hlasts, hv⟩ => ⟨m, .rest hlasts, hv⟩
  · intro hgot
    obtain ⟨hlasts, hv⟩ := hgot
    let evaluation : Evaluation σ e i := ⟨host.enter depth, v, ⟨node, m⟩, scope, factory⟩
    obtain ⟨-, m', hfinish⟩ := hv.evaluate host depth ⟨node, m⟩ scope factory
      (show evaluation.finish = _ from rfl)
    have hbegins : evaluation.Begins node m w := ⟨⟨host, depth, rfl⟩, rfl, hlasts, hv⟩
    suffices hend : Lasts evaluation.finish
        ((Build.proceed e i parent factory ⟨node, m⟩ later scope).run.runIn (host.enter depth) v).2 ∧
        ((Build.proceed e i parent factory ⟨node, m⟩ later scope).run.runIn (host.enter depth) v).2.Opens
          e i ⟨node, m'⟩ from
      ⟨m', .next hbegins hfinish (.rest hend.1), hend.2⟩
    have hopens' : ((Build.evaluate e i ⟨node, m⟩ scope factory).run.runIn (host.enter depth) v).2.Opens
      e i ⟨node, m'⟩ := hfinish
    show Lasts ((Build.evaluate e i ⟨node, m⟩ scope factory).run.runIn (host.enter depth) v).2 _ ∧ _
    rw [Build.proceed, ExceptT.run_bind, Act.runIn_bind]
    revert hopens'
    rcases (Build.evaluate e i ⟨node, m⟩ scope factory).run.runIn (host.enter depth) v with
      ⟨_ | error | es, v'⟩
    · exact fun hv' => ⟨.refl _, hv'⟩
    · exact fun hv' => ⟨.refl _, hv'⟩
    · exact fun hv' => hv'.keeps (hafter scope es v')

/-- The updater of a node is put back, if there is no other by now; otherwise the slots are gone. -/
theorem World.Opens.putBack {slot : Slot} (h : w.Opens e i slot) (host : Host σ) (depth : Nat)
    (parent : Node Resolver) (factory : Factory) :
    Lasts w ((Act.putBack e (.view parent factory)).runIn (host.enter depth) w).2 ∧
      ((Act.putBack e (.view parent factory)).runIn (host.enter depth) w).2.Stocks e i slot := by
  obtain ⟨x, hx, hbare, hslot⟩ := h
  refine ⟨(host.lasts_admits depth).putBack e _ w, _, World.get?_updateElement_self hx _, ?_⟩
  cases hupdater : x.updater with
  | none => exact .inr hslot
  | some other =>
    rw [Element.Bare, hupdater] at hbare
    exact .inl hbare

/-- What an update does to the element itself leaves in a slot what the evaluation of the slot does, if
it comes to that. -/
theorem World.Stocks.updateSelf (h : u.Stocks e i ⟨node, m⟩) (host : Host σ) (depth : Nat) {w : World σ}
    (hw : w = ((Act.updateSelf e).runIn (host.enter depth) u).2) :
    ∃ m', Succession node m u (Act.evaluations (host.enter depth) e i u) m' w ∧
      w.Stocks e i ⟨node, m'⟩ := by
  subst hw
  obtain ⟨x, hx, hslot⟩ := h
  have hlasts := (host.lasts_admits depth).updateSelf e u
  by_cases hbare : x.Bare
  · -- there is no updater of a node, and none comes
    have hnone : Act.evaluations (host.enter depth) e i u = [] := by
      rw [Act.evaluations, hx]
      dsimp only
      split
      case h_1 hupdater _ =>
        rw [Element.Bare, hupdater] at hbare
        cases hbare
      case h_2 => rfl
    obtain ⟨-, x', hx', hbare', -⟩ :=
      sheltering_updateSelf (host.sheltering e (·[i]?) depth) u x hx hbare
    rw [hnone]
    exact ⟨m, .rest hlasts, x', hx', .inl hbare'⟩
  · have hslot := hslot.resolve_left hbare
    obtain ⟨parent, factory, hupdater⟩ : ∃ parent factory, x.updater = some (.view parent factory) := by
      rw [Element.Bare] at hbare
      cases hupdater : x.updater with
      | none => simp [hupdater] at hbare
      | some updater =>
        cases updater with
        | view parent factory => exact ⟨parent, factory, rfl⟩
        | foreign number => simp [hupdater, Updater.isView] at hbare
    obtain ⟨hi, hget⟩ := List.getElem?_eq_some_iff.mp hslot
    have hlength : (x.slots.take i).length = i := List.length_take_of_le (Nat.le_of_lt hi)
    have hslots : x.slots = x.slots.take i ++ ⟨node, m⟩ :: x.slots.drop (i + 1) := by
      rw [← hget, List.getElem_cons_drop, List.take_append_drop]
    have hevaluations : Act.evaluations (host.enter depth) e i u =
        Evaluation.reached (host.enter depth) ⟨node, m⟩ factory
          ((Build.approach e factory (x.slots.take i)).run.runIn (host.enter depth) (u.begun e)) := by
      rw [Act.evaluations, hx]
      simp only [hupdater, hslot]
    have hbegun : (u.begun e).elements.get? e.row = some { x with updater := none } :=
      World.get?_updateElement_self hx _
    have hstarted : Lasts u (u.begun e) :=
      (Lasts.updateElement u e (f := ({ · with updater := none })) fun _ => ⟨rfl, rfl⟩).trans
        (.of_elements_eq rfl)
    have hopens : (u.begun e).Opens e i ⟨node, m⟩ := ⟨_, hbegun, rfl, hslot⟩
    obtain ⟨m', hsuccession, hend⟩ := hopens.refresh host depth parent factory hlength
      (x.slots.drop (i + 1)) rfl
    rw [Act.runIn_updateSelf (host.enter depth) hx hupdater hslots, hlength, hevaluations, Act.runIn_bind]
    revert hend hsuccession
    rcases (Build.approach e factory (x.slots.take i) >>=
      Build.proceed e i parent factory ⟨node, m⟩ (x.slots.drop (i + 1))).run.runIn (host.enter depth)
        (u.begun e) with ⟨_ | answer, w⟩
    · intro hsuccession hend
      obtain ⟨y, hy, hbare', -⟩ := hend
      exact ⟨m', hsuccession.since hstarted, y, hy, .inl hbare'⟩
    · intro hsuccession hend
      obtain ⟨hput, hstocks⟩ := hend.putBack host depth parent factory
      exact ⟨m', (hsuccession.since hstarted).lasting (hput.trans (.of_elements_eq rfl)), hstocks⟩

theorem World.Opens.unique (h : w.Opens e i ⟨node, m⟩) (h' : w.Opens e i ⟨node, m'⟩) : m = m' := by
  obtain ⟨x, hx, -, hslot⟩ := h
  obtain ⟨x', hx', -, hslot'⟩ := h'
  obtain rfl := Option.some.inj (hx.symm.trans hx')
  have heq := Option.some.inj (hslot.symm.trans hslot')
  exact congrArg Slot.memory heq

/-- The memory of the slot is written. -/
theorem World.Opens.remember (h : w.Opens e i ⟨node, m⟩) (m' : Memory) (enter : Enter σ) :
    ∃ w', (Build.act (Build.remember e i m')).run.runIn enter w = (some (.ok ()), w') ∧ Lasts w w' ∧
      w'.Opens e i ⟨node, m'⟩ := by
  obtain ⟨x, hx, hbare, hslot⟩ := h
  refine ⟨_, rfl, .updateElement w e fun _ => ⟨rfl, rfl⟩, _, World.get?_updateElement_self hx _,
    hbare, ?_⟩
  simp [hslot]

/-- How an evaluation ends that ends with a memory of the slot. -/
theorem Evaluation.ends {evaluation : Evaluation σ e i} (hend : evaluation.finish.Opens e i ⟨node, m'⟩)
    {answer : Option (Except ViewError (List ElementId))} {w' : World σ} (hrun : evaluation.run = (answer, w'))
    (hw' : w'.Opens e i ⟨node, m''⟩) :
    evaluation.answer = answer.bind Except.toOption ∧ evaluation.finish = w' ∧ m' = m'' := by
  have hfinish : evaluation.finish = w' := congrArg Prod.snd hrun
  exact ⟨congrArg (·.1.bind Except.toOption) hrun, hfinish, (hfinish ▸ hend).unique hw'⟩

/-- An evaluation comes to an end in its next part, with the slot as it is, or goes on after it. -/
theorem Evaluation.advance {evaluation : Evaluation σ e i} {act : Build σ α}
    {f : α → Build σ (List ElementId)} (hkeeps : Keeps (Sheltering e (·[i]?)) evaluation.enter act.run)
    (hu : u.Opens e i ⟨node, m⟩) (hend : evaluation.finish.Opens e i ⟨node, m'⟩)
    (hrun : evaluation.run = (act >>= f).run.runIn evaluation.enter u) :
    (evaluation.answer = none ∧ m' = m) ∨
      ∃ a u', act.run.runIn evaluation.enter u = (some (.ok a), u') ∧ Lasts u u' ∧
        u'.Opens e i ⟨node, m⟩ ∧ evaluation.run = (f a).run.runIn evaluation.enter u' := by
  rcases hact : act.run.runIn evaluation.enter u with ⟨_ | error | a, u'⟩
  all_goals obtain ⟨hlasts, hu'⟩ := hu.keeps (hkeeps.of_run hact)
  · rw [ExceptT.run_bind, Act.runIn_bind_none hact] at hrun
    obtain ⟨hanswer, -, hm'⟩ := Evaluation.ends hend hrun hu'
    exact .inl ⟨hanswer, hm'⟩
  · rw [ExceptT.run_bind, Act.runIn_bind_some hact] at hrun
    obtain ⟨hanswer, -, hm'⟩ := Evaluation.ends hend hrun hu'
    exact .inl ⟨hanswer, hm'⟩
  · rw [Build.runIn_bindE_ok hact] at hrun
    exact .inr ⟨a, u', rfl, hlasts, hu', hrun⟩

/-- Elements last through an evaluation. -/
theorem Evaluation.Begins.lasts_finish {evaluation : Evaluation σ e i} (h : evaluation.Begins node m w) :
    Lasts evaluation.world evaluation.finish := by
  obtain ⟨host, depth, henter⟩ := h.entered
  have hbuilds := henter ▸ (host.lasts_admits depth).builds
  exact hbuilds.evaluate trivial evaluation.slot evaluation.scope evaluation.factory evaluation.world

/-- **Each evaluation of a slot finds what the one before has left.** -/
theorem Passage.succession {evaluations : List (Evaluation σ e i)} (h : Passage host e i u w evaluations)
    (hstocks : u.Stocks e i ⟨node, m⟩) : ∃ m', Succession node m u evaluations m' w := by
  induction h generalizing m with
  | rest w => exact ⟨m, .rest (.refl w)⟩
  | pause hbypasses _ ih =>
    obtain ⟨x, hx, hslot⟩ := hstocks
    obtain ⟨x', hx', hleft⟩ := hbypasses.left hx
    have hstocks' : x'.Bare ∨ x'.slots[i]? = some ⟨node, m⟩ := by
      rcases hleft with hbare | ⟨hupdater, hslots⟩
      · exact .inl hbare
      · rw [Element.Bare, hupdater, hslots]
        exact hslot
    obtain ⟨m', hsuccession⟩ := ih ⟨x', hx', hstocks'⟩
    exact ⟨m', hsuccession.since hbypasses.toLasts⟩
  | update depth _ ih =>
    obtain ⟨m', hsuccession, hstocks'⟩ := hstocks.updateSelf host depth rfl
    obtain ⟨m'', hsuccession'⟩ := ih hstocks'
    exact ⟨m'', hsuccession.append hsuccession'⟩

end

end ReactiveViews
