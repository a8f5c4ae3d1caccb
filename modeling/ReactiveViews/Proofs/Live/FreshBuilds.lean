import Mathlib.Data.Prod.Basic
import ReactiveViews.Proofs.Live.Filling

/-!
# Fresh builds

A view is built by making the elements of its roots and updating the one that there is to be. An update
of an element that has just been made runs its updater, puts it back, and updates the children that it
has got by then; so a tree grows level by level. Side by side with a rendering of the view it is
followed what each element gets, and that nobody touches it again.

## What is proved

**Updates** (`Host.update_finishes`). The first update of an element answers like finishing its bud, and
the tree of the element embodies the shape.

**Builds** (`Host.build_renders`). A view whose rendering is one shape is built, and the tree embodies
the shape; nothing is touched that was there before. If the rendering is no shape or several ones, the
view has not got one root. What can be built can be rendered.
-/

namespace ReactiveViews

variable {σ : Type} {n lo : Nat} {names : List String} {enter : Enter σ}

/-! ### Updates -/

/-- Updates of elements that are ready answer like finishing their buds, and the trees embody the
shapes. -/
def Finishes (n : Nat) (enter : Enter σ) (update : ElementId → Act σ (Except ViewError Unit))
    (finish : Bud → Build σ Shape) : Prop :=
  ∀ {lo : Nat} {names : List String} {w s : World σ} {e : ElementId} {bud : Bud}, n ≤ lo →
    Overlays n w s → Ready n lo names w e bud →
    Answers (Tally fun _ shape w' s' => Touches (· = e) w w' ∧ Overlays n w' s' ∧
        Embodies w' w.elements.size e shape)
      ((update e).runIn enter w) ((finish bud).run.runIn enter s)

/-- Updating elements one after the other answers like finishing their buds one after the other. -/
theorem Finishes.all {finish : Bud → Build σ Shape}
    (hfinish : Finishes n enter Act.enterUpdate finish) (hlo : n ≤ lo) {v w s : World σ}
    (hworlds : Overlays n w s) {es : List ElementId} {buds : List Bud}
    (hbrood : Brood n lo names v w es buds) :
    Answers (Tally fun _ shapes w' s' => Touches (· ∈ es) w w' ∧ Overlays n w' s' ∧
        EmbodiesAll w' w.elements.size es shapes)
      ((Act.updateAll es).runIn enter w) ((Build.finishAll finish buds).run.runIn enter s) := by
  induction es generalizing buds w s with
  | nil =>
    obtain ⟨hready, -, -⟩ := hbrood
    cases hready
    exact .both (.ok ⟨.refl w, hworlds, trivial⟩)
  | cons e rest ih =>
    have hexist := fun c (hc : c ∈ e :: rest) => hbrood.lt_size hc
    obtain ⟨hready, hnodup, hrows⟩ := hbrood
    obtain ⟨he, hnodup⟩ := List.nodup_cons.mp hnodup
    cases hready with
    | @cons _ bud _ buds hready hrest =>
      unfold Act.updateAll Build.finishAll
      rw [ExceptT.run_bind]
      refine Answers.bind (hfinish hlo hworlds hready) ?_
      rintro answer finished w₁ s₁ - htally
      cases htally with
      | error fault fault' => exact .both (.error fault fault')
      | @ok _ shape hfinished =>
        obtain ⟨hw₁, hworlds₁, hembodies⟩ := hfinished
        have hrow : n ≤ e.row := Nat.le_trans hlo hready.row
        let w₂ : World σ := { w₁ with held := [e].foldl List.erase w₁.held }
        have hworlds₂ : Overlays n w₂ s₁ := hworlds₁.release (List.forall_mem_singleton.mpr hrow)
        have hw₂ : Touches (· = e) w w₂ := hw₁.trans (.of_held w₁ _)
        have hbrood₂ : Brood n lo names v w₂ rest buds :=
          Brood.touched ⟨hrest, hnodup, (List.forall_mem_cons.mp hrows).2⟩ hw₂
            (fun c hc hce => he (hce ▸ hc)) fun c hc hce =>
              absurd (hce ▸ hready.row) (Nat.not_le.mpr hc)
        show Answers _ ((Act.updateAll rest).runIn enter w₂) _
        refine Answers.thenRight (g := fun shapes => return shape :: shapes) (ih hworlds₂ hbrood₂) ?_
        rintro _ shapes w₃ s₃ ⟨hw₃, hworlds₃, hall⟩
        refine ⟨_, s₃, rfl, ?_, hworlds₃, ?_, ?_⟩
        · exact (hw₂.mono fun c _ hc => hc ▸ List.mem_cons_self).trans
            (hw₃.mono fun c _ hc => List.mem_cons_of_mem _ hc)
        · exact Embodies.touched ((Touches.of_held w₁ _).trans hw₃) (Nat.le_refl _) he
            (fun c hc => hexist c (List.mem_cons_of_mem _ hc)) shape hembodies
        · exact EmbodiesAll.touched (.refl w₃) hw₂.size_le (fun _ _ => id) (fun _ => False.elim) shapes
            hall

/-- Once its updater has answered, it is put back, and the children are held and updated. -/
theorem Shooting.conclude (enter : Enter σ) {node : Node Resolver} {C C' : Context}
    {fields : Fields Value} {es : List ElementId} {e : ElementId} {w s : World σ}
    (h : Shooting n node C C' none fields es e w s) (hes : ∀ c ∈ es, n ≤ c.row) :
    ∃ w', Touches (· = e) w w' ∧
      Shooting n node C C' (some (.view node .headless)) fields es e w' s ∧
      (Act.conclude e node (.ok ())).runIn enter w =
        (do
          let answer ← Act.updateAll es
          Act.release [e]
          return answer : Act σ (Except ViewError Unit)).runIn enter w' := by
  obtain ⟨w₁, hrun₁, hw₁, h₁⟩ : ∃ w₁, (Act.putBack e (.view node .headless)).runIn enter w =
      (some (), w₁) ∧ Touches (· = e) w w₁ ∧
        Shooting n node C C' (some (.view node .headless)) fields es e w₁ s :=
    h.alters fun x d hraised => ⟨_, d, .putBack hraised.get hraised.updater _, fun c hc => .inl hc,
      fun w' hy => { hraised with get := hy, updater := rfl }⟩
  let w₂ : World σ := w₁.record (.updated e none true)
  let w₃ : World σ := { w₂ with held := es ++ w₂.held }
  obtain ⟨x, d, hraised⟩ := h₁.raised
  have hrecord : (Act.record (.updated e none (Except.ok () : Except ViewError Unit).isOk)).runIn enter
      w₁ = (some (), w₂) := rfl
  have helement : (Act.element e).runIn enter w₂ = (some x, w₂) := Act.runIn_element hraised.get
  have hhold : (Act.hold es).runIn enter w₂ = (some (), w₃) := rfl
  have hworlds₂ : Overlays n w₂ s := h₁.worlds.message_left rfl fun e => .record e w₁ _
  have hw₃ : Touches (· = e) w₁ w₃ := (Touches.record w₁ _).trans (.of_held w₂ _)
  refine ⟨w₃, hw₁.trans hw₃, h₁.next hw₃ (hworlds₂.hold hes) { hraised with }, ?_⟩
  unfold Act.conclude
  rw [Act.runIn_bind_some hrun₁, Act.runIn_bind_some hrecord]
  dsimp only
  rw [Act.runIn_bind_some helement, hraised.children, Act.runIn_bind_some hhold]

/-- Finishing a bud begins with what an updater does. -/
theorem Build.finish_eq (inside : Bud → Build σ Shape) (bud : Bud) :
    Build.finish inside bud =
      (do
        let buds ← budsAll bud.context bud.node.children
        let attributes ← dress bud.context bud.node.bind bud.attributes
        return (buds, attributes)) >>=
      fun (buds, attributes) => do
        return ⟨bud.node.tag, attributes, ← finishAll inside buds⟩ := by
  simp only [Build.finish, bind_assoc, pure_bind]

/-- What an update of an element that is ready begins with. -/
theorem Ready.begins (enter : Enter σ) {w s : World σ} {e : ElementId} {bud : Bud} (hlo : n ≤ lo)
    (hworlds : Overlays n w s) (h : Ready n lo names w e bud) :
    ∃ w₁ x C, w₁.elements.get? e.row = some x ∧ x.slots = bud.node.children.map .fresh ∧
      Touches (· = e) w w₁ ∧ Shooting n bud.node C bud.context none bud.attributes [] e w₁ s ∧
      (∀ c ∈ Context.elements C, c.row < lo) ∧
      (Act.update e).runIn enter w =
        ((Build.refresh e bud.node .headless).run >>= Act.conclude e bud.node).runIn enter w₁ := by
  have hnew : n ≤ e.row := Nat.le_trans hlo h.row
  obtain ⟨C, x, d, hraised, hslots, hscreens, hC⟩ := h.element
  obtain ⟨w₁, hedits₁, -, hx₁, hrun⟩ := Act.runIn_update enter hraised.get hraised.updater
  have hw₁ : Touches (· = e) w w₁ := (Touches.of_held w _).trans hedits₁.touches
  have houtside : e ∉ Context.elements C := fun hmem => absurd (hC e hmem) (Nat.not_lt.mpr h.row)
  refine ⟨w₁, _, C, hx₁, hslots, hw₁, ⟨?_, hnew, ?_, houtside, { x with updater := none }, d, ?_⟩, hC,
    hrun⟩
  · refine (hworlds.hold (List.forall_mem_singleton.mpr hnew)).edits hedits₁ hnew fun y hy c hc => ?_
    obtain rfl := Option.some.inj (hy.symm.trans hx₁)
    exact hworlds.new e x hnew hraised.get c hc
  · exact (hscreens.mono h.asks).touched hw₁ fun c hc hce => absurd (hce ▸ hc) houtside
  · exact { hraised with get := hx₁, updater := rfl }

/-- What has got its children and its attributes embodies a shape if the children do. -/
theorem World.Raised.embodies {w : World σ} {node : Node Resolver} {C : Context} {u : Option Updater}
    {fields : Fields Value} {es : List ElementId} {e : ElementId} {x : Element} {d : Headless}
    (h : w.Raised node C u fields es e x d) {m : Nat} (hnodup : es.Nodup) (hrows : ∀ c ∈ es, m ≤ c.row)
    {shapes : List Shape} (hshapes : EmbodiesAll w m es shapes) :
    Embodies w m e ⟨node.tag, fields, shapes⟩ := by
  obtain ⟨hx, hcomponent, hidle, htag, -, -, rfl, hmounted, hattributes, -⟩ := h
  exact ⟨x, d, hx, hcomponent, hidle, htag, hattributes, hmounted, hnodup, hrows, hshapes⟩

/-- The first update of an element answers like finishing its bud, if that is so for what is inside. -/
theorem Finishes.update (hobl : Oblivious n enter) {inside : Bud → Build σ Shape}
    (hinside : Finishes n enter Act.enterUpdate inside) :
    Finishes n enter Act.update (Build.finish inside) := by
  intro lo names w s e bud hlo hworlds hready
  have hnew : n ≤ e.row := Nat.le_trans hlo hready.row
  obtain ⟨w₁, x, C, hx₁, hslots, hw₁, h₁, hC, hrun⟩ := hready.begins enter hlo hworlds
  have he : e.row < w₁.elements.size := Table.lt_size_of_get? hx₁
  have hsize : lo ≤ w₁.elements.size := Nat.le_trans hready.row (Nat.le_of_lt he)
  have hrefresh := h₁.refresh hobl hready.tame hx₁ hslots fun c hc => Nat.lt_of_lt_of_le (hC c hc) hsize
  rw [hrun, Build.finish_eq, ExceptT.run_bind]
  refine Answers.bind hrefresh ?_
  rintro answer content w₂ s₂ - htally
  cases htally with
  | error fault fault' => exact .both (.error fault fault')
  | @ok _ content hcontent =>
    obtain ⟨buds, attributes⟩ := content
    obtain ⟨hw₂, es, h₂, hbrood⟩ := hcontent
    have hnew₁ : ∀ c ∈ es, n ≤ c.row := fun c hc =>
      Nat.le_trans hworlds.size_le (Nat.le_trans hw₁.size_le (hbrood.row hc))
    obtain ⟨w₃, hw₃, h₃, hconclude⟩ := h₂.conclude enter hnew₁
    have hbrood₃ := h₃.brood hready.tame hw₃ he hbrood
    have hall := hinside.all (Nat.le_trans hworlds.size_le hw₁.size_le) h₃.worlds hbrood₃
    dsimp only
    rw [hconclude, ExceptT.run_bind]
    refine Answers.bind hall ?_
    rintro answer shapes w₄ s₄ - htally
    cases htally with
    | error fault fault' => exact .both (.error fault fault')
    | @ok _ shapes hfinished =>
      obtain ⟨hw₄, hworlds₄, hembodies⟩ := hfinished
      let w₅ : World σ := { w₄ with held := [e].foldl List.erase w₄.held }
      have hworlds₅ : Overlays n w₅ s₄ := hworlds₄.release (List.forall_mem_singleton.mpr hnew)
      have hw₃' : Touches (· = e) w w₃ := hw₁.trans (hw₂.trans hw₃)
      have hrows : ∀ c ∈ es, w.elements.size ≤ c.row := fun c hc =>
        Nat.le_trans hw₁.size_le (hbrood.row hc)
      have hnotin : e ∉ es := fun hmem => absurd (hbrood.row hmem) (Nat.not_le.mpr he)
      obtain ⟨y, d, hraised⟩ := h₃.raised
      refine .both (.ok ⟨?_, hworlds₅, ?_⟩)
      · exact hw₃'.trans_of_new (hw₄.trans (.of_held w₄ _)) hrows
      · have hraised₅ : w₅.Raised bud.node C (some (.view bud.node .headless)) attributes es e y d :=
          { hraised with get := hw₄.get? hraised.get hnotin }
        exact hraised₅.embodies hbrood.nodup hrows <|
          EmbodiesAll.touched (.of_held w₄ _) hw₃'.size_le (fun _ _ => id) (fun _ => False.elim) shapes
            hembodies

/-- **Updates.** The first update of an element answers like finishing its bud, and the tree of the
element embodies the shape. -/
theorem Host.update_finishes (host : Host σ) (hobl : ∀ depth, Oblivious n (host.enter depth))
    (depth : Nat) :
    Finishes n (host.enter depth) Act.update (host.finish depth) := by
  induction depth with
  | zero =>
    refine Finishes.update (hobl 0) ?_
    exact fun _ _ _ => .neither _ _
  | succ depth ih =>
    refine Finishes.update (hobl (depth + 1)) ?_
    exact fun hlo hworlds hready => ih hlo hworlds hready

/-! ### Builds -/

/-- What several nodes come to is made on the one side and sprouts on the other. -/
theorem Faces.instantiateAll (hobl : Oblivious n enter) {C C' : Context} {w s : World σ}
    {nodes : List (Node Resolver)} (htame : ∀ node ∈ nodes, node.Tame n)
    (hnames : ∀ node ∈ nodes, node.names ⊆ names) (h : Faces n names C C' w s)
    (hlo : lo ≤ w.elements.size) (hC : ∀ c ∈ Context.elements C, c.row < lo) :
    Answers (Tally fun es buds w' s' => Touches (fun _ => False) w w' ∧ Overlays n w' s' ∧
        Brood n lo names w w' es buds)
      ((Build.instantiateAll C .headless nodes).run.runIn enter w)
      ((Build.budsAll C' nodes).run.runIn enter s) := by
  induction nodes generalizing w s with
  | nil => exact .both (.ok ⟨.refl w, h.worlds, .nil⟩)
  | cons node rest ih =>
    obtain ⟨hnode, htame⟩ := List.forall_mem_cons.mp htame
    obtain ⟨hasks, hnames⟩ := List.forall_mem_cons.mp hnames
    unfold Build.instantiateAll Build.budsAll
    refine Answers.bindE (h.instantiate hobl hnode hasks hlo hC) ?_
    rintro made buds₁ w₁ s₁ ⟨hw₁, hworlds₁, hbrood₁, -⟩
    have h₁ : Faces n names C C' w₁ s₁ := h.goes (i := ()) (j := ()) ⟨hworlds₁, hw₁⟩
    refine Answers.bindE (.releasing _ (ih htame hnames h₁ (Nat.le_trans hlo hw₁.size_le))) ?_
    rintro more buds₂ w₂ s₂ ⟨hw₂, hworlds₂, hbrood₂⟩
    refine .both (.ok ⟨hw₁.trans hw₂, hworlds₂, ?_⟩)
    exact (hbrood₁.touched hw₂ (fun _ _ => id) fun _ _ => False.elim).append hbrood₂ hw₁.size_le
      fun e he => hbrood₁.lt_size he

/-- A view that comes to no element or to several ones is not built. -/
theorem Build.runIn_build_rootCount {view : View Resolver} {C : Context} {w w₁ : World σ}
    {made : List ElementId} (hmade : (Build.instantiateAll C .headless view.roots).run.runIn enter w =
      (some (.ok made), w₁)) (hlength : made.length ≠ 1) :
    (Build.build view C .headless).run.runIn enter w =
      (some (.error (.rootCount made.length)), { w₁ with held := made.foldl List.erase w₁.held }) := by
  unfold Build.build
  rw [runIn_bindE_ok hmade]
  match made with
  | [] => rfl
  | [_] => exact absurd rfl hlength
  | _ :: _ :: _ => rfl

/-- A view that comes to one element is built like the bud of that element is finished. -/
theorem Host.build_root (host : Host σ) (hobl : ∀ depth, Oblivious n (host.enter depth)) (depth : Nat)
    {view : View Resolver} {C : Context} {w w₁ s₁ : World σ} {e : ElementId} {bud : Bud}
    (hmade : (Build.instantiateAll C .headless view.roots).run.runIn (host.enter (depth + 1)) w =
      (some (.ok [e]), w₁)) (hlo : n ≤ lo) (hworlds : Overlays n w₁ s₁)
    (hready : Ready n lo names w₁ e bud) :
    Answers (Tally fun e' shapes w' s' => e' = e ∧ Touches (· = e) w₁ w' ∧ Overlays n w' s' ∧
        ∃ shape, shapes = [shape] ∧ Embodies w' w₁.elements.size e shape)
      ((Build.build view C .headless).run.runIn (host.enter (depth + 1)) w)
      ((Build.finishAll (fun bud => ExceptT.mk fun _ w =>
        (host.finish depth bud).run.runIn (host.enter depth) w) [bud]).run.runIn
          (host.enter (depth + 1)) s₁) := by
  have hupdate : Answers _ _ ((ExceptT.mk (fun _ w =>
      (host.finish depth bud).run.runIn (host.enter depth) w) : Build σ Shape).run.runIn
        (host.enter (depth + 1)) s₁) := host.update_finishes hobl depth hlo hworlds hready
  have hanswers := Host.build_answers hmade hupdate fun _ w₂ _ h => by
    obtain ⟨_, x, _, hraised, -⟩ := hready.element
    obtain ⟨y, hy, -⟩ := h.1.element e x hraised.get
    exact ⟨y, hy⟩
  unfold Build.finishAll
  refine hanswers.thenRight ?_
  rintro _ shape w₃ s₂ ⟨rfl, w₂, ⟨hw₂, hworlds₂, hembodies⟩, helements, hw₃⟩
  have htouches : Touches (fun _ => False) w₂ w₃ := (hw₃ ⟨0⟩).untouched helements
  refine ⟨_, s₂, rfl, rfl, hw₂.trans (.of_none htouches), hworlds₂.message_left helements hw₃, shape, rfl,
    ?_⟩
  exact Embodies.touched htouches (Nat.le_refl _) id (fun _ => False.elim) shape hembodies

/-- What the building of a view comes to, if this is its rendering. -/
def Rendered (w w' : World σ) (store : Store) (answer : Except ViewError ElementId) :
    List Shape → Prop
  | [shape] => ∃ e, answer = .ok e ∧ w.elements.size ≤ e.row ∧ w'.store = store ∧
    Embodies w' w.elements.size e shape
  | shapes => answer = .error (.rootCount shapes.length)

theorem Rendered.of_length {w w' : World σ} {store : Store} {shapes : List Shape}
    (h : shapes.length ≠ 1) : Rendered w w' store (.error (.rootCount shapes.length)) shapes := by
  match shapes with
  | [] => rfl
  | [_] => exact absurd rfl h
  | _ :: _ :: _ => rfl

/-- There are as many shapes as buds. -/
theorem Build.length_finishAll {finish : Bud → Build σ Shape} {buds : List Bud} {shapes : List Shape}
    {w w' : World σ} (h : (finishAll finish buds).run.runIn enter w = (some (.ok shapes), w')) :
    shapes.length = buds.length := by
  induction buds generalizing shapes w with
  | nil =>
    cases h
    rfl
  | cons bud rest ih =>
    obtain ⟨shape, w₁, -, hrest⟩ := runIn_bindE_eq_ok h
    obtain ⟨more, w₂, hmore, hpure⟩ := runIn_bindE_eq_ok hrest
    cases hpure
    rw [List.length_cons, List.length_cons, ih hmore]

/-- **Builds.** Nobody refers to elements that do not exist, and what is asked of the host program
touches nothing. Then a view whose rendering is one shape is built, and the tree embodies that shape;
if the rendering is not one shape, there is not one root. What can be built can be rendered. -/
theorem Host.build_renders (host : Host σ) (depth : Nat) {view : View Resolver} {C : Context}
    {w : World σ} (hobl : ∀ depth, Oblivious w.elements.size (host.enter depth))
    (hwithin : w.Within w.elements.size) (hC : ∀ v ∈ C, v.Within w.elements.size)
    (hroots : ∀ root ∈ view.roots, root.Tame w.elements.size) :
    (∀ shapes s,
      (host.render depth C view.roots).run.runIn (host.enter (depth + 1)) w = (some (.ok shapes), s) →
      ∃ answer w', (Build.build view C .headless).run.runIn (host.enter (depth + 1)) w =
          (some answer, w') ∧
        Touches (fun _ => False) w w' ∧ Rendered w w' s.store answer shapes) ∧
    ∀ e w', (Build.build view C .headless).run.runIn (host.enter (depth + 1)) w = (some (.ok e), w') →
      ∃ shape s, (host.render depth C view.roots).run.runIn (host.enter (depth + 1)) w =
        (some (.ok [shape]), s) := by
  have hfaces : Faces w.elements.size (view.roots.flatMap Node.names) C C w w :=
    ⟨.refl hwithin, .refl hC⟩
  have hmade := hfaces.instantiateAll (hobl (depth + 1)) hroots
    (fun node hnode _ hname => List.mem_flatMap.mpr ⟨node, hnode, hname⟩) (Nat.le_refl _)
    fun c hc => hfaces.contexts.lt_size (Nat.le_refl _) hc
  constructor
  · intro shapes s hrender
    obtain ⟨buds, s₁, hbuds, hfinish⟩ := Build.runIn_bindE_eq_ok hrender
    rw [hbuds] at hmade
    obtain ⟨es, w₁, hleft, hw₁, hworlds₁, hbrood⟩ := hmade.of_right
    have hlength : es.length = shapes.length :=
      hbrood.ready.length_eq.trans (Build.length_finishAll hfinish).symm
    by_cases hone : es.length = 1
    · obtain ⟨e, bud, rfl, rfl, hready⟩ := hbrood.one hone
      have hroot := host.build_root hobl depth hleft (Nat.le_refl _) hworlds₁ hready
      rw [hfinish] at hroot
      obtain ⟨_, w₂, hbuild, rfl, hw₂, hworlds₂, shape, rfl, hembodies⟩ := hroot.of_right
      refine ⟨_, w₂, hbuild, hw₁.trans_of_new hw₂ fun _ he => he ▸ hready.row, ?_⟩
      refine ⟨_, rfl, hready.row, hworlds₂.store, ?_⟩
      exact Embodies.touched (.refl w₂) hw₁.size_le id (fun _ => False.elim) shape hembodies
    · refine ⟨_, _, Build.runIn_build_rootCount hleft hone, hw₁.trans (.of_held w₁ _), ?_⟩
      rw [hlength]
      exact .of_length (hlength ▸ hone)
  · intro e w' hbuild
    have hbegin := hbuild
    unfold Build.build at hbegin
    obtain ⟨es, w₁, hleft, -⟩ := Build.runIn_bindE_eq_ok hbegin
    rw [hleft] at hmade
    obtain ⟨buds, s₁, hbuds, -, hworlds₁, hbrood⟩ := hmade.of_left
    by_cases hone : es.length = 1
    · obtain ⟨e', bud, rfl, rfl, hready⟩ := hbrood.one hone
      have hroot := host.build_root hobl depth hleft (Nat.le_refl _) hworlds₁ hready
      rw [hbuild] at hroot
      obtain ⟨_, s₂, hfinish, -, -, -, shape, rfl, -⟩ := hroot.of_left
      refine ⟨shape, s₂, ?_⟩
      unfold Host.render
      rw [Build.runIn_bindE_ok hbuds, hfinish]
    · rw [Build.runIn_build_rootCount hleft hone] at hbuild
      cases hbuild

/-! ### A glossary -/

/-- A list of words, with what a function makes of each, and the word itself inside of that. -/
def glossary : Node Resolver :=
  ⟨⟨"dl", none, ["words"], none⟩, "dl", [("lang", .text [.chain ⟨[.lookup "language"], "language"⟩])], [],
    [], none, none,
    [⟨⟨"dt", none, [], none⟩, "dl/dt", [], [("gloss", .text [.chain ⟨[.lookup "explain",
        .call [[.lookup "word"]]], "explain(word)"⟩])], [],
      some ("word", .text [.chain ⟨[.lookup "words"], "words"⟩]),
      some (.text [.chain ⟨[.lookup "word"], "word"⟩]),
      [⟨⟨"b", none, [], none⟩, "dl/dt/b", [], [("text", .text [.chain ⟨[.lookup "word"], "word"⟩])], [],
        none, none, []⟩]⟩]⟩

/-- A host program whose functions answer what they are applied to. -/
def repeater : Host Unit where
  answer
    | .apply _ _ args => .done (.ok (args.headD .undefined))
    | .getOwn _ _ => .done none
    | .getAttribute _ _ => .done (.ok .undefined)
    | _ => .hang

theorem repeater_calculates (n : Nat) : repeater.Calculates n where
  apply f v args _ hargs := by
    refine ⟨fun _ => .ok (args.headD .undefined), fun _ _ => rfl, ?_⟩
    rintro _ v ⟨⟩
    cases args with
    | nil =>
      intro _ _ heq
      cases heq
    | cons a rest => exact hargs a List.mem_cons_self
  getOwn _ _ := ⟨fun _ => none, fun _ _ => rfl, fun _ _ heq => by cases heq⟩
  getAttribute _ _ := by
    refine ⟨fun _ => .ok .undefined, fun _ _ => rfl, ?_⟩
    rintro _ _ ⟨⟩ _ _ heq
    cases heq

/-- A page that knows its language, and some words of which one is empty. -/
def page : World Unit :=
  { World.empty .off () with
    store := ⟨⟨#[[.str "a", .str "", .str "b"]]⟩,
      ⟨#[[("words", .array ⟨0⟩), ("explain", .function ⟨"explain", 0⟩)]]⟩⟩
    elements := ⟨#[⟨⟨"p", none, [], none⟩, .headless ⟨"p", [("language", .str "en")], [], []⟩, false, [],
      [], none, []⟩]⟩
    held := [⟨0⟩] }

/-- The words, in front of the page. -/
def words : Context := [.object (.record ⟨0⟩), .object (.scope 0 ⟨0⟩)]

/-- The rendering has an element for each word that is not empty. -/
def glossed : Shape :=
  let word (text : String) : Shape := ⟨⟨"dt", none, [], none⟩, [("gloss", .str text)],
    [⟨⟨"b", none, [], none⟩, [("text", .str text)], []⟩]⟩
  ⟨⟨"dl", none, ["words"], none⟩, [("class", .str "words"), ("lang", .str "en")], [word "a", word "b"]⟩

theorem page_within : page.Within page.elements.size where
  items := by
    rintro ⟨_ | row⟩ v hv
    · revert v
      exact List.forall_mem_cons.mpr ⟨nofun, List.forall_mem_cons.mpr ⟨nofun,
        List.forall_mem_singleton.mpr nofun⟩⟩
    · cases hv
  fields := by
    rintro ⟨_ | row⟩ field hfield
    · revert field
      exact List.forall_mem_cons.mpr ⟨nofun, List.forall_mem_singleton.mpr nofun⟩
    · cases hfield
  attributes := by
    rintro ⟨_ | row⟩ x h - hx hcomponent field hfield
    · cases hx
      cases hcomponent
      obtain rfl := List.mem_singleton.mp hfield
      exact nofun
    · cases hx

theorem glossary_tame : glossary.Tame page.elements.size := ⟨by decide +kernel, nofun⟩

theorem words_within : ∀ v ∈ words, v.Within page.elements.size := by
  refine List.forall_mem_cons.mpr ⟨nofun, List.forall_mem_singleton.mpr ?_⟩
  rintro m e ⟨⟩
  decide

/-- The glossary is built as it is rendered. -/
theorem Host.build_renders_glossary :
    ∃ e w', (Build.build ⟨[glossary]⟩ words .headless).run.runIn (repeater.enter 3) page =
        (some (.ok e), w') ∧
      Touches (fun _ => False) page w' ∧ 1 ≤ e.row ∧ Embodies w' 1 e glossed := by
  have hrender : ((repeater.render 2 words [glossary]).run.runIn (repeater.enter 3) page).1 =
      some (.ok [glossed]) := rfl
  have hroots : ∀ root ∈ (View.mk [glossary]).roots, root.Tame page.elements.size :=
    List.forall_mem_singleton.mpr glossary_tame
  obtain ⟨answer, w', hbuilt, hw', hrendered⟩ := (repeater.build_renders 2
    (repeater_calculates _).oblivious page_within words_within hroots).1 [glossed] _ (Prod.fst_eq_iff.mp hrender)
  obtain ⟨e, rfl, hrow, -, hembodies⟩ := hrendered
  exact ⟨e, w', hbuilt, hw', hrow, hembodies⟩

end ReactiveViews
