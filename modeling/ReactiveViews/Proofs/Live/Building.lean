import ReactiveViews.Proofs.Live.Outlines
import ReactiveViews.Proofs.Live.Updating

/-!
# Building a view

A view with one root that stands for one element is built by making that element and updating it.
What is new remembers nothing, so nothing is required of what is remembered: the building answers
like the drawing of the root, whatever the lists hold.

## What is proved

**Building** (`Host.build_draws`). In linked worlds a view is built exactly if its root can be
drawn, and the tree looks like the picture.
-/

namespace ReactiveViews

variable {σ : Type}

/-- A view with one root, which stands for one element in every context. -/
structure View.Single (view : View Resolver) (node : Node Resolver) : Prop where
  /-- The root. -/
  roots : view.roots = [node]
  /-- It is not repeated. -/
  repetition : node.repetition = none
  /-- It is always shown. -/
  condition : node.condition = none

/-- Making the root succeeds and touches nothing. -/
theorem Build.instantiateAll_sprouts (enter : Enter σ) (w : World σ) {view : View Resolver}
    {node : Node Resolver} (hview : view.Single node) (honce : node.once = []) (C : Context) :
    ∃ w', (Build.instantiateAll C .headless view.roots).run.runIn enter w =
        (some (.ok [⟨w.elements.size⟩]), w') ∧
      Touches (fun _ => False) w w' ∧ Sprouts w' node C ⟨w.elements.size⟩ := by
  obtain ⟨w', hrun, hw, hsprouts⟩ := Build.create_sprouts enter w honce C
  have hshows : (Build.eval (Eval.shows C node)).run.runIn enter w = (some (.ok true), w) := by
    rw [Eval.shows, hview.condition]
    rfl
  have hmade : (Build.instantiate node C .headless).run.runIn enter w =
      (some (.ok [⟨w.elements.size⟩]), w') := by
    rw [Build.instantiate, hview.repetition, runIn_bindE_ok hshows, if_pos rfl, runIn_bindE_ok hrun]
    rfl
  refine ⟨w', ?_, hw, hsprouts⟩
  rw [hview.roots, Build.instantiateAll, runIn_bindE_ok hmade]
  rfl

theorem Build.runIn_releasing_none {α : Type} {enter : Enter σ} {es : List ElementId}
    {act : Build σ α} {w w' : World σ} (h : act.run.runIn enter w = (none, w')) :
    (Build.releasing es act).run.runIn enter w = (none, w') := by
  show (act.run >>= fun answer => _).runIn enter w = _
  exact Act.runIn_bind_none h

theorem Build.runIn_releasing_error {α : Type} {enter : Enter σ} {es : List ElementId}
    {act : Build σ α} {w w' : World σ} {fault : ViewError}
    (h : act.run.runIn enter w = (some (.error fault), w')) :
    ∃ w'', (Build.releasing es act).run.runIn enter w = (some (.error fault), w'') := by
  refine ⟨{ w' with held := es.foldl List.erase w'.held }, ?_⟩
  show (act.run >>= fun answer => _).runIn enter w = _
  rw [Act.runIn_bind_some h]
  rfl

section

variable {host : Host σ} {depth : Nat} {view : View Resolver} {C : Context} {root : ElementId}
  {w w₁ w₂ : World σ}

/-- When the root has been made and updated, the building succeeds. -/
theorem Host.build_of_update
    (hmade : (Build.instantiateAll C .headless view.roots).run.runIn (host.enter (depth + 1)) w =
      (some (.ok [root]), w₁))
    (hupdate : (Act.update root).runIn (host.enter depth) w₁ = (some (.ok ()), w₂)) {x : Element}
    (hx : w₂.elements.get? root.row = some x) :
    ∃ w₃, (Build.build view C .headless).run.runIn (host.enter (depth + 1)) w =
      (some (.ok root), w₃) ∧ w₃.elements = w₂.elements ∧ ∀ e, Edits e w₂ w₃ := by
  have hentered : (ExceptT.mk (Act.enterUpdate root) : Build σ Unit).run.runIn
      (host.enter (depth + 1)) w₁ = (some (.ok ()), w₂) := hupdate
  obtain ⟨w₃, hrun₃, hw₃⟩ := Act.runIn_message_edits (host.enter (depth + 1)) .debug fun _ =>
    Act.runIn_pure ("built view rooted at `" ++ x.tag.text ++ "` (" ++ root.text ++ ")")
      (host.enter (depth + 1)) w₂
  refine ⟨w₃, ?_, hw₃.1, fun e => (hw₃.2 e).toEdits⟩
  unfold Build.build
  rw [Build.runIn_bindE_ok hmade]
  dsimp only
  rw [Build.runIn_bindE_ok (Build.runIn_releasing_ok hentered),
    Build.runIn_bindE_ok (Act.runIn_lift (Act.runIn_element hx)),
    Build.runIn_bindE_ok (Act.runIn_lift hrun₃)]
  rfl

/-- When the root has been made, the building answers like the first update. -/
theorem Host.build_answers {β ε : Type} {Q : Unit → β → World σ → World σ → Prop}
    {y : Option (Except ε β) × World σ}
    (hmade : (Build.instantiateAll C .headless view.roots).run.runIn (host.enter (depth + 1)) w =
      (some (.ok [root]), w₁))
    (hupdate : Answers (Tally Q) ((Act.update root).runIn (host.enter depth) w₁) y)
    (hroot : ∀ b w₂ s, Q () b w₂ s → ∃ x, w₂.elements.get? root.row = some x) :
    Answers (Tally fun e b w₃ s => e = root ∧ ∃ w₂, Q () b w₂ s ∧ w₃.elements = w₂.elements ∧
        ∀ e, Edits e w₂ w₃)
      ((Build.build view C .headless).run.runIn (host.enter (depth + 1)) w) y := by
  generalize hleft : (Act.update root).runIn (host.enter depth) w₁ = left at hupdate
  have hentered : (ExceptT.mk (Act.enterUpdate root) : Build σ Unit).run.runIn
      (host.enter (depth + 1)) w₁ = left := hleft
  cases hupdate with
  | neither w₂ s =>
    unfold Build.build
    rw [Build.runIn_bindE_ok hmade]
    dsimp only
    rw [ExceptT.run_bind, Act.runIn_bind_none (Build.runIn_releasing_none hentered)]
    exact .neither _ _
  | both htally =>
    cases htally with
    | error fault fault' =>
      obtain ⟨w₃, hreleased⟩ : ∃ w₃, (Build.releasing [root] (ExceptT.mk (Act.enterUpdate root))).run.runIn
          (host.enter (depth + 1)) w₁ = (some (.error fault), w₃) := Build.runIn_releasing_error hentered
      unfold Build.build
      rw [Build.runIn_bindE_ok hmade]
      dsimp only
      rw [ExceptT.run_bind, Act.runIn_bind_some hreleased]
      exact .both (.error _ _)
    | ok hQ =>
      obtain ⟨x, hx⟩ := hroot _ _ _ hQ
      obtain ⟨w₃, hbuild, hw₃⟩ := Host.build_of_update hmade hleft hx
      rw [hbuild]
      exact .both (.ok ⟨rfl, _, hQ, hw₃⟩)

end

/-- A building and a drawing have come to the same. -/
structure Built (D : Scene σ) (node : Node Resolver) (C : Context) (e : ElementId) (picture : Picture)
    (w _s : World σ) : Prop where
  /-- The tree. -/
  grown : Grown w D w.store node e
  /-- The scopes around it. -/
  context : ∃ x, w.elements.get? e.row = some x ∧ x.context = C
  /-- The tree looks like the picture. -/
  shows : Shows w e picture

/-- **Building.** In linked worlds and contexts the building of a view answers like the drawing of its
root, and the tree looks like the picture. -/
theorem Host.build_draws (host : Host σ) {D : Scene σ}
    (hinnocent : ∀ depth, Innocent D (host.enter depth)) (depth : Nat) {view : View Resolver}
    {node : Node Resolver} (hview : view.Single node) (hlucid : node.Lucid D) {C C' : Context}
    {ρ : Link} {w s : World σ} (htied : ρ.Tied D node.names C C' w s) :
    Answers
      (fun answer drawn w' s' =>
        Outcomes (fun e picture => Built D node C e picture w' s') answer drawn)
      ((Build.build view C .headless).run.runIn (host.enter (depth + 1)) w)
      ((host.draw depth node C').run.runIn (host.enter depth) s) := by
  have honce := hlucid.onceFree node node.mem_family_self
  obtain ⟨w₁, hmade, hw₁, hsprouts⟩ :=
    Build.instantiateAll_sprouts (host.enter (depth + 1)) w hview honce C
  obtain ⟨x, hx, hcontext, -⟩ := id hsprouts
  have hstep : ρ.Step ρ w w₁ s s := .of_touches htied.worlds.stores hw₁ (.refl s)
  -- nothing is remembered, so the tree may count as one that was there when the store was empty
  have hρ : ρ.Follows D .empty 0 node.names x.context C' w₁ s :=
    ⟨hcontext ▸ htied.step hstep, fun _ _ _ => .inr (.inl (Nat.zero_le _)), Store.empty_grows _,
      Nat.zero_le _⟩
  have hfaithful : ∀ w' : World σ, Faithful .empty 0 w' := fun w' a _ _ ha =>
    absurd ha (Nat.not_lt_zero _)
  have hupdate := host.update_draws hinnocent depth hlucid (hsprouts.grown D .empty) hx hρ (hfaithful _)
  have hanswers := Host.build_answers hmade (Answers.imp hupdate fun _ _ _ _ h => h.1) fun _ w₂ _ h => by
    obtain ⟨y, hy, -⟩ := h.updated.touches.element _ x hx
    exact ⟨y, hy⟩
  refine Answers.imp hanswers fun _ _ w₃ _ htally => htally.imp ?_
  rintro _ picture ⟨rfl, w₂, ⟨hupdated, -, hshows⟩, helements, hw₃⟩
  obtain ⟨y, hy, hcontext', -⟩ := hupdated.touches.element _ x hx
  have htouches : Touches (fun _ => False) w₂ w₃ := (hw₃ ⟨0⟩).untouched helements
  exact ⟨hupdated.grown.untouched htouches,
    ⟨y, htouches.get? hy id, hcontext'.trans hcontext⟩, hshows.untouched htouches⟩

end ReactiveViews
