import ReactiveViews.Proofs.Live.Tending

/-!
# Refreshing an element

What the updater of a node does, followed side by side with the plan of a drawing: each slot
contributes planted children for the contexts in which the drawing shows its node, from memory or
made anew, and the bound attributes are set to linked values in the same order.

## What is proved

**Slots** (`Abreast.evaluate`). A slot contributes children for just the contexts in which the node
is shown, whatever it remembers, if the records that it remembers are those of the items.

**Refreshing** (`Abreast.refresh`). Afterwards the children and the attributes of the element are
those of the plan, or both have failed and the element is still one of its node.
-/

namespace ReactiveViews

variable {σ α β ε : Type}

/-! ### Outcomes -/

theorem Result.imp {Q Q' : α → β → World σ → World σ → Prop} {E E' : World σ → Prop} {ε' : Type}
    (hQ : ∀ a b w s, Q a b w s → Q' a b w s) (hE : ∀ w, E w → E' w) (x : Except ε α)
    (y : Except ε' β) (w s : World σ) (h : Result Q E x y w s) : Result Q' E' x y w s :=
  ⟨h.1.imp fun a b => hQ a b w s, fun herror => hE w (h.2 herror)⟩

theorem Act.runIn_lift {enter : Enter σ} {act : Act σ α} {w w' : World σ} {a : α}
    (h : act.runIn enter w = (some a, w')) :
    (Build.act act).run.runIn enter w = (some (.ok a), w') := by
  show (Except.ok <$> act).runIn enter w = _
  rw [map_eq_pure_bind, Act.runIn_bind_some h]
  rfl

theorem Act.runIn_hold (enter : Enter σ) (es : List ElementId) (w : World σ) :
    ∃ w', (Act.hold es).runIn enter w = (some (), w') ∧ ∀ S, Touches S w w' :=
  ⟨_, rfl, fun _ => .of_held w _⟩

theorem Act.runIn_release (enter : Enter σ) (es : List ElementId) (w : World σ) :
    ∃ w', (Act.release es).runIn enter w = (some (), w') ∧ ∀ S, Touches S w w' :=
  ⟨_, rfl, fun _ => .of_held w _⟩

/-! ### Children for contexts -/

theorem forall₂_comp {γ : Type} {R : α → β → Prop} {S : β → γ → Prop} {l : List α} {l' : List β}
    {l'' : List γ} (h : List.Forall₂ R l l') (h' : List.Forall₂ S l' l'') :
    List.Forall₂ (fun a c => ∃ b, R a b ∧ S b c) l l'' := by
  induction h generalizing l'' with
  | nil =>
    cases h'
    exact .nil
  | cons hab _ ih =>
    cases h' with
    | cons hbc hrest => exact .cons ⟨_, hab, hbc⟩ (ih hrest)

theorem shown_cons (context : Context) (contexts : List Context) (condition : Bool)
    (conditions : List Bool) :
    Build.shown (context :: contexts) (condition :: conditions) =
      if condition then context :: Build.shown contexts conditions
      else Build.shown contexts conditions := by
  cases condition <;> rfl

theorem forall₂_shown {R : Context → Context → Prop} {contexts contexts' : List Context}
    (h : List.Forall₂ R contexts contexts') (conditions : List Bool) :
    List.Forall₂ R (Build.shown contexts conditions) (Build.shown contexts' conditions) := by
  induction h generalizing conditions with
  | nil => exact .nil
  | cons hR _ ih =>
    cases conditions with
    | nil => exact .nil
    | cons condition conditions =>
      rw [shown_cons, shown_cons]
      split
      · exact .cons hR (ih conditions)
      · exact ih conditions

/-- Trees in contexts that are paired with those of a drawing are planted. -/
theorem planted_of_pairs {ρ : Link} {D : Scene σ} {o : Store} {w s : World σ} {e : ElementId}
    {name : String} {C C' : Context} {node : Node Resolver} {contexts contexts' : List Context}
    (hpairs : List.Forall₂ (Pairs ρ D w s name e C C') contexts contexts') {es : List ElementId}
    {conditions : List Bool}
    (hes : List.Forall₂ (fun c context => Grown w D o node c ∧
      ∃ x, w.elements.get? c.row = some x ∧ x.context = context) es
      (Build.shown contexts conditions)) :
    List.Forall₂ (Planted ρ D o w s e C C' node) es (Build.shown contexts' conditions) := by
  refine (forall₂_comp hes (forall₂_shown hpairs conditions)).imp ?_
  rintro c context ⟨inside, ⟨hgrown, x, hx, rfl⟩, hpair⟩
  exact ⟨hgrown, x, hx, .item hpair⟩

/-- What there is after a slot of an element has been evaluated: it has been written, and its
children are planted for the contexts of the drawing. -/
def Evaluated (ρ : Link) (D : Scene σ) (o : Store) (node : Node Resolver) (e : ElementId)
    (x : Element) (C' : Context) (done rest : List Slot) (child : Node Resolver) (w s : World σ)
    (es : List ElementId) (contexts : List Context) (w' s' : World σ) : Prop :=
  ∃ ρ' memory, ρ.Course (· = e) ρ' w w' s s' ∧
    Tended w' D node e { x with slots := done ++ ⟨child, memory⟩ :: rest } ∧
    (Slot.mk child memory).elements = es ∧
    List.Forall₂ (Planted ρ' D o w' s' e x.context C' child) es contexts

section

variable {D : Scene σ} {o : Store} {n m : Nat} {enter : Enter σ} {ρ ρ₁ : Link} {w w₁ s s₁ : World σ}
  {node : Node Resolver} {e : ElementId} {x : Element} {C' : Context} {done rest : List Slot}
  {slot : Slot}

theorem Evaluated.after {child : Node Resolver} (hcourse : ρ.Course (· = e) ρ₁ w w₁ s s₁)
    {es : List ElementId} {contexts : List Context} {w' s' : World σ}
    (h : Evaluated ρ₁ D o node e x C' done rest child w₁ s₁ es contexts w' s') :
    Evaluated ρ D o node e x C' done rest child w s es contexts w' s' := by
  obtain ⟨ρ', memory, hcourse', hrest⟩ := h
  exact ⟨ρ', memory, hcourse.trans hcourse', hrest⟩

/-- What has been begun with a step goes on after it. -/
theorem Agree.evaluated {H : World σ → Prop} {act : Build σ (List ElementId)}
    {act' : Build σ (List Context)} {child : Node Resolver}
    (hcourse : ρ.Course (· = e) ρ₁ w w₁ s s₁)
    (h : Agree H enter (Result (Evaluated ρ₁ D o node e x C' done rest child w₁ s₁)
      (Tends D node e w₁)) w₁ s₁ act.run act'.run) :
    Agree H enter (Result (Evaluated ρ D o node e x C' done rest child w s) (Tends D node e w))
      w₁ s₁ act.run act'.run :=
  h.imp (Result.imp (fun _ _ _ _ => .after hcourse) fun _ => .after hcourse.left)

theorem Abreast.child (h : Abreast ρ D o n w s node e x C') (hslots : x.slots = done ++ slot :: rest) :
    slot.node ∈ node.children :=
  h.tended.stem.child (by rw [hslots]; exact List.mem_append_right _ List.mem_cons_self)

/-- Both ask for something and go on with the same answer. -/
theorem Abreast.ask {H : World σ → Prop} (h : Abreast ρ D o n w s node e x C')
    {child : Node Resolver} {act act' : Build σ β}
    (hact : Mimics enter (fun _ => Outcomes Eq) ρ w s act.run act'.run)
    {f : β → Build σ (List ElementId)} {g : β → Build σ (List Context)}
    (hfg : ∀ b ρ₁ w₁ s₁, ρ.Step ρ₁ w w₁ s s₁ →
      Agree H enter (Result (Evaluated ρ₁ D o node e x C' done rest child w₁ s₁)
        (Tends D node e w₁)) w₁ s₁ (f b).run (g b).run) :
    Agree H enter (Result (Evaluated ρ D o node e x C' done rest child w s) (Tends D node e w)) w s
      (act >>= f).run (act' >>= g).run := by
  refine Agree.afterE (Mimics.answers hact
    (Q := fun b b' w₁ s₁ => b = b' ∧ ∃ ρ₁, ρ.Step ρ₁ w w₁ s s₁)
    (fun ρ₁ w₁ s₁ b b' hstep hb => ⟨hb, ρ₁, hstep⟩) fun w₁ hw₁ => ?_) ?_
  · exact ⟨.of_none hw₁, x, h.tended.touched hw₁⟩
  · rintro b _ w₁ s₁ ⟨rfl, ρ₁, hstep⟩
    exact Agree.evaluated (.of_step hstep) (hfg b ρ₁ w₁ s₁ hstep)

/-- A slot that goes on with what it remembers. -/
theorem Abreast.keep (h : Abreast ρ D o n w s node e x C') (hslots : x.slots = done ++ slot :: rest)
    {contexts : List Context}
    (hplanted : List.Forall₂ (Planted ρ D o w s e x.context C' slot.node) slot.elements contexts) :
    Evaluated ρ D o node e x C' done rest slot.node w s slot.elements contexts w s := by
  refine ⟨ρ, slot.memory, .refl h.follows.tied.worlds.stores, ?_, rfl, hplanted⟩
  have heq : { x with slots := done ++ slot :: rest } = x := by rw [← hslots]
  rw [heq]
  exact h.tended

/-- A slot is written, and lets go of what it keeps. -/
theorem Abreast.write (enter : Enter σ) (h : Abreast ρ D o n w s node e x C')
    (hslots : x.slots = done ++ slot :: rest) {memory : Memory} {es : List ElementId}
    (hbranch : Branch w D w.store e x.context ⟨slot.node, memory⟩)
    (hes : (Slot.mk slot.node memory).elements = es) (hnodup : es.Nodup)
    (hfresh : ∀ c ∈ es, c ∉ x.slots.flatMap Slot.elements) {contexts : List Context}
    (hplanted : List.Forall₂ (Planted ρ D o w s e x.context C' slot.node) es contexts) :
    ∃ w₁ w₂, (Build.remember e done.length memory).runIn enter w = (some (), w₁) ∧
      (Act.release es).runIn enter w₁ = (some (), w₂) ∧
      Evaluated ρ D o node e x C' done rest slot.node w s es contexts w₁ s ∧
      Evaluated ρ D o node e x C' done rest slot.node w s es contexts w₂ s := by
  subst hes
  obtain ⟨w₁, hrun, hw₁, htended⟩ :=
    h.tended.remember enter hslots hbranch hnodup fun c hc => .inr (hfresh c hc)
  obtain ⟨w₂, hrun', hw₂⟩ := Act.runIn_release enter (Slot.mk slot.node memory).elements w₁
  have hstores := h.follows.tied.worlds.stores
  have hevaluated : ∀ w', Touches (· = e) w w' →
      Tended w' D node e { x with slots := done ++ ⟨slot.node, memory⟩ :: rest } →
      Evaluated ρ D o node e x C' done rest slot.node w s (Slot.mk slot.node memory).elements
        contexts w' s := by
    intro w' hw' htended'
    have hcourse : ρ.Course (· = e) ρ w w' s s := .of_touches hstores hw' (.refl s)
    refine ⟨ρ, memory, hcourse, htended', rfl, hplanted.imp fun c context hc => ?_⟩
    refine hc.course hcourse (fun y hy => ?_) h.follows.since.store
    rintro rfl
    refine World.not_below_of_lineage ?_ hy
    rw [hc.lineage, h.tended.lineage]
  exact ⟨w₁, w₂, hrun, hrun', hevaluated w₁ hw₁ htended,
    hevaluated w₂ (hw₁.trans (hw₂ _)) (htended.touched (hw₂ _))⟩

/-! ### Single children -/

/-- The names and constants of the condition of a child node. -/
theorem Node.Lucid.condition {node child : Node Resolver} (h : node.Lucid D)
    (hchild : child ∈ node.children) :
    (∀ condition ∈ child.condition, condition.names ⊆ node.names) ∧
      ∀ condition ∈ child.condition, ∀ v ∈ condition.constants, D.Holds v :=
  ⟨fun _ hcondition => List.Subset.trans
      (Node.names_of_directive (Node.mem_directives_condition hcondition)) (Node.names_subset hchild),
    fun _ hcondition => (h.child hchild).directive (Node.mem_directives_condition hcondition)⟩

/-- A single child that is made is planted and written into the slot. -/
theorem Abreast.sprout {H : World σ → Prop} (h : Abreast ρ D o n w s node e x C')
    (hslots : x.slots = done ++ slot :: rest) (hrepetition : slot.node.repetition = none) :
    Agree H enter
      (Result (Evaluated ρ D o node e x C' done rest slot.node w s) (Tends D node e w)) w s
      (do
        let child ← Build.create slot.node (.object (.scope m e) :: x.context) .headless
        Build.act (Build.remember e done.length (.single (some child)))
        Build.act (Act.release [child])
        return [child] : Build σ (List ElementId)).run
      (pure [C'] : Build σ (List Context)).run := by
  have honce := h.lucid.onceFree _ (Node.family_subset (h.child hslots) slot.node.mem_family_self)
  obtain ⟨w₁, hrun, hw₁, hsprouts⟩ :=
    Build.create_sprouts enter w honce (.object (.scope m e) :: x.context)
  obtain ⟨z, hz, hcontext, -⟩ := id hsprouts
  have hstep : ρ.Step ρ w w₁ s s := .of_touches h.follows.tied.worlds.stores hw₁ (.refl s)
  have hplanted : Planted ρ D o w₁ s e x.context C' slot.node ⟨w.elements.size⟩ C' :=
    ⟨hsprouts.grown D o, z, hz, by rw [hcontext]; exact .single m⟩
  have hbranch : Branch w₁ D w₁.store e x.context
      ⟨slot.node, .single (some ⟨w.elements.size⟩)⟩ := by
    refine ⟨.child m hrepetition hz hcontext, fun c hc => ?_⟩
    obtain rfl : c = ⟨w.elements.size⟩ := by simpa [Slot.elements] using hc
    exact hsprouts.grown D w₁.store
  have hnew : ∀ c ∈ [(⟨w.elements.size⟩ : ElementId)], c ∉ x.slots.flatMap Slot.elements := by
    intro c hc hmem
    obtain rfl := List.mem_singleton.mp hc
    exact Nat.lt_irrefl _ (h.tended.lt_size hmem)
  obtain ⟨w₂, w₃, hrun₂, hrun₃, -, hevaluated⟩ := (h.step hstep).write enter hslots hbranch rfl
    (List.nodup_singleton _) hnew (.cons hplanted .nil)
  exact Agree.leftE hrun (Agree.leftE (Act.runIn_lift hrun₂)
    (Agree.leftE (Act.runIn_lift hrun₃) (.pureE (hevaluated.after (.of_step hstep)))))

theorem Abreast.evaluateSingle (henter : Innocent D enter) (h : Abreast ρ D o n w s node e x C')
    (hslots : x.slots = done ++ slot :: rest) (hbranch : Branch w D o e x.context slot)
    (hrepetition : slot.node.repetition = none) {cached : Option ElementId}
    (hmemory : slot.memory = .single cached) :
    Agree (Faithful o n) enter
      (Result (Evaluated ρ D o node e x C' done rest slot.node w s) (Tends D node e w)) w s
      (Build.evaluateSingle e done.length slot.node cached (.object (.scope m e) :: x.context)
        .headless).run
      (Build.seeds slot.node C').run := by
  simp only [Build.evaluateSingle, Build.seeds, hrepetition]
  obtain ⟨hnames, hconstants⟩ := h.lucid.condition (h.child hslots)
  refine h.ask (.eval (henter.shows (h.inside m).tied slot.node hnames hconstants)) ?_
  intro b ρ₁ w₁ s₁ hstep
  have h₁ := h.step hstep
  cases b with
  | false =>
    have hbranch₁ : Branch w₁ D w₁.store e x.context ⟨slot.node, .single none⟩ :=
      ⟨.none hrepetition, fun _ hc => by cases hc⟩
    obtain ⟨w₂, -, hrun, -, hevaluated, -⟩ := h₁.write enter hslots hbranch₁ rfl List.nodup_nil
      (fun _ hc => by cases hc) .nil
    exact Agree.leftE (Act.runIn_lift hrun) (.pureE hevaluated)
  | true =>
    cases cached with
    | none => exact h₁.sprout hslots hrepetition
    | some child =>
      have hbranch₁ := hbranch.beside h.tended.get (.of_none hstep.left) h.follows.since.store
        (.refl o)
      have helements : slot.elements = [child] := by rw [Slot.elements, hmemory]; rfl
      refine Agree.pureE ?_
      rw [← helements]
      refine h₁.keep hslots ?_
      rw [helements]
      refine .cons ⟨hbranch₁.grown child (by rw [helements]; exact List.mem_cons_self), ?_⟩ .nil
      have hremembers := hbranch₁.remembers
      rw [hmemory] at hremembers
      cases hremembers with
      | child m' _ hz hcontext => exact ⟨_, hz, hcontext ▸ .single m'⟩

/-! ### Lists -/

/-- New elements for the items whose conditions are true are planted and written into the slot. -/
theorem Abreast.renew (h : Abreast ρ D o n w s node e x C') (hslots : x.slots = done ++ slot :: rest)
    {name : String} {resolver : Resolver} (hrepetition : slot.node.repetition = some (name, resolver))
    {list : Value} {contexts contexts' : List Context}
    (harray : ∀ a, list = .array a → a.row < w.store.arrays.size)
    (htext : ∀ text, list = .str text →
      List.Forall₂ (FrontHolds w.store) contexts (characters text))
    (hpairs : List.Forall₂ (Pairs ρ D w s name e x.context C') contexts contexts')
    (conditions : List Bool) :
    Agree (Faithful o n) enter
      (Result (Evaluated ρ D o node e x C' done rest slot.node w s) (Tends D node e w)) w s
      (Build.createAll slot.node .headless (Build.shown contexts conditions) >>= fun elements =>
        Build.settle e done.length ⟨list, contexts, conditions, elements⟩).run
      (pure (Build.shown contexts' conditions) : Build σ (List Context)).run := by
  have hchild := h.child hslots
  obtain ⟨es, w₁, hrun, hw₁, hsprouts, hnodup, hrows⟩ :=
    Build.createAll_sprouts enter w (h.lucid.onceFree _ (Node.family_subset hchild
      slot.node.mem_family_self)) (Build.shown contexts conditions)
  have hstep : ρ.Step ρ w w₁ s s := .of_touches h.follows.tied.worlds.stores hw₁ (.refl s)
  have h₁ := h.step hstep
  have hpairs₁ := hpairs.imp fun _ _ hpair => hpair.step hstep
  have hplanted : List.Forall₂ (Planted ρ D o w₁ s e x.context C' slot.node) es
      (Build.shown contexts' conditions) := by
    refine planted_of_pairs hpairs₁ (hsprouts.imp fun c context hc => ⟨hc.grown D o, ?_⟩)
    obtain ⟨y, hy, hcontext, -⟩ := hc
    exact ⟨y, hy, hcontext⟩
  have hbranch : Branch w₁ D w₁.store e x.context
      ⟨slot.node, .repeated (some ⟨list, contexts, conditions, es⟩)⟩ := by
    refine ⟨.list hrepetition (fun context hmem => ?_) (hsprouts.imp fun c context hc => ?_)
      (fun a ha => Nat.lt_of_lt_of_le (harray a ha) hw₁.store.arrays_le)
      (fun text ht => (htext text ht).imp fun _ _ hfront => hfront.grow hw₁.store), fun c hc => ?_⟩
    · obtain ⟨context', -, r, q, v, u, ⟨m', heq⟩, -, hframed, -⟩ := exists_of_forall₂ hpairs₁ hmem
      exact ⟨r, m', v, heq, hframed⟩
    · obtain ⟨y, hy, hcontext, -⟩ := hc
      exact ⟨y, hy, hcontext⟩
    · obtain ⟨context, -, hsprout⟩ := exists_of_forall₂ hsprouts hc
      exact hsprout.grown D w₁.store
  have hnew : ∀ c ∈ es, c ∉ x.slots.flatMap Slot.elements := fun c hc hmem =>
    Nat.lt_irrefl _ (Nat.lt_of_lt_of_le (h.tended.lt_size hmem) (hrows c hc))
  obtain ⟨w₂, w₃, hrun₂, hrun₃, -, hevaluated⟩ := h₁.write enter hslots hbranch rfl
    hnodup hnew hplanted
  refine Agree.leftE hrun (Agree.leftE (Act.runIn_lift hrun₂) (Agree.leftE (Act.runIn_lift hrun₃) ?_))
  exact .pureE (hevaluated.after (.of_step hstep))

/-- A list that is shown from nothing. -/
theorem Abreast.anew (henter : Innocent D enter) (h : Abreast ρ D o n w s node e x C')
    (hslots : x.slots = done ++ slot :: rest) {name : String} {resolver : Resolver}
    (hrepetition : slot.node.repetition = some (name, resolver)) {list list' : Value}
    {items items' : List Value} (hlist : ρ.Values list list')
    (hitems : List.Forall₂ ρ.Values items items') (hwalk : w.store.walk? list = some items) :
    Agree (Faithful o n) enter
      (Result (Evaluated ρ D o node e x C' done rest slot.node w s) (Tends D node e w)) w s
      (Build.spread slot.node .headless name (.object (.scope m e) :: x.context) list items >>=
        Build.settle e done.length).run
      (do
        let contexts ← Build.act (Build.frames name C' items')
        let conditions ← Build.conditions slot.node contexts
        return Build.shown contexts conditions : Build σ (List Context)).run := by
  simp only [Build.spread, bind_assoc, pure_bind]
  obtain ⟨w₁, hrun₁, hw₁⟩ := Act.runIn_message_some enter (w := w) .trace fun _ =>
    Act.runIn_pure ("`" ++ slot.node.path ++ "`: new list of " ++ toString items.length ++
      " item(s), rebuilding") enter w
  obtain ⟨contexts, w₂, hrun₂, hw₂, hframes⟩ :=
    runIn_frames enter name (.object (.scope m e) :: x.context) items w₁
  obtain ⟨contexts', s₂, hrun₂', hs₂, hframes'⟩ := runIn_frames enter name C' items' s
  refine Agree.leftE (Act.runIn_lift hrun₁) (Agree.leftE (Act.runIn_lift hrun₂)
    (Agree.rightE (Act.runIn_lift hrun₂') ?_))
  have hstores := h.follows.tied.worlds.stores
  have hstep₁ : ρ.Step ρ w w₁ s s := .of_touches hstores (hw₁ _) (.refl s)
  have hstep₂ : ρ.Step ρ w w₂ s s₂ := .of_touches hstores ((hw₁ _).trans hw₂) hs₂
  have h₂ := h.step hstep₂
  have hpairs := pairs_of_items hitems (stands_of_frames ((h.step hstep₁).inside m) hframes)
    (mirrors_of_frames hstores hframes')
  obtain ⟨hnames, hconstants⟩ := h.lucid.condition (h.child hslots)
  refine Agree.evaluated (.of_step hstep₂)
    (h₂.ask (henter.conditions (h₂.inside m) hnames hconstants hpairs) ?_)
  intro conditions ρ₃ w₃ s₃ hstep₃
  refine (h₂.step hstep₃).renew hslots hrepetition ?_ ?_
    (hpairs.imp fun _ _ hpair => hpair.step hstep₃) conditions
  · rintro a rfl
    cases hlist with
    | array hab =>
      exact Nat.lt_of_lt_of_le (hstores.arrays hab).1 (hstep₂.trans hstep₃).left.store.arrays_le
    | plain hplain => cases hplain
  · rintro text rfl
    obtain rfl := Option.some.inj hwalk
    refine hframes.imp fun context v ⟨r, heq, _, hrange, hfields⟩ => ?_
    exact FrontHolds.grow ⟨r, _, name, heq, hrange, hfields⟩ hstep₃.left.store

/-! ### Lists from memory -/

theorem Value.eq_of_same_array {v : Value} {a : ArrayId} (h : v.same (.array a) = true) :
    v = .array a := by
  cases v <;> simp_all [Value.same]

theorem Value.eq_of_same_str {v : Value} {text : String} (h : v.same (.str text) = true) :
    v = .str text := by
  cases v <;> simp_all [Value.same]

/-- It is noted for which array something is shown from memory. -/
theorem runIn_noteKept (enter : Enter σ) (last : Repetition) (w : World σ) :
    ∃ w', (Build.noteKept last).runIn enter w = (some (), w') ∧ (∀ S, Touches S w w') ∧
      ∀ a n, last.list = .array a → n ≤ w.history.length →
        .kept a last.frames ∈ w'.history.drop n := by
  obtain ⟨list, contexts, conditions, elements⟩ := last
  cases list with
  | array a =>
    refine ⟨w.record (.kept a (Repetition.frames ⟨.array a, contexts, conditions, elements⟩)), rfl,
      fun S => .record w _, ?_⟩
    rintro a' n ⟨⟩ hn
    rw [World.history_record, List.drop_append_of_le_length hn]
    exact List.mem_append_right _ (List.mem_singleton_self _)
  | _ => exact ⟨w, rfl, fun S => .refl w, fun a n ha => by cases ha⟩

/-- The contexts that are remembered begin with records of the items, if the list is the same and as
long as it was, and what is remembered of an array is right. -/
theorem frontHolds_of_same (hsince : Since o n w) {last : Repetition} {list : Value}
    {items : List Value} (hsame : last.list.same list = true)
    (hlength : last.contexts.length = items.length) (hwalk : w.store.walk? list = some items)
    (hcontexts : ∀ context ∈ last.contexts, ∃ r rest,
      context = .object (.record r) :: rest ∧ r.row < o.records.size)
    (harray : ∀ a, last.list = .array a → a.row < o.arrays.size)
    (htext : ∀ text, last.list = .str text →
      List.Forall₂ (FrontHolds w.store) last.contexts (characters text))
    (hkept : ∀ a, last.list = .array a →
      List.Forall₂ (fun r v => ∃ name, o.fields r = [(name, v)]) last.frames (o.items a)) :
    List.Forall₂ (FrontHolds w.store) last.contexts items := by
  have hnone : items = [] → List.Forall₂ (FrontHolds w.store) last.contexts items := by
    rintro rfl
    rw [List.length_eq_zero_iff.mp hlength]
    exact .nil
  cases list with
  | array a =>
    obtain rfl := Option.some.inj hwalk
    have hlist := Value.eq_of_same_array hsame
    exact frontHolds_of_faithful hsince (harray a hlist) hcontexts (hkept a hlist)
  | str text =>
    obtain rfl := Option.some.inj hwalk
    exact htext text (Value.eq_of_same_str hsame)
  | undefined => exact hnone (Option.some.inj hwalk).symm
  | null => exact hnone (Option.some.inj hwalk).symm
  | _ => cases hwalk

/-- The elements that are remembered are planted, if the conditions are what they were. -/
theorem Branch.planted (h : Branch w D o e x.context slot) {last : Repetition}
    (hmemory : slot.memory = .repeated (some last)) {name : String} {contexts' : List Context}
    (hpairs : List.Forall₂ (Pairs ρ D w s name e x.context C') last.contexts contexts') :
    List.Forall₂ (Planted ρ D o w s e x.context C' slot.node) slot.elements
      (Build.shown contexts' last.conditions) := by
  obtain ⟨hremembers, hgrown⟩ := h
  unfold Slot.elements at hgrown ⊢
  rw [hmemory] at hremembers hgrown ⊢
  cases hremembers with
  | list _ _ helements _ _ =>
    exact planted_of_pairs hpairs ((List.forall₂_and_left _ _).mpr ⟨hgrown, helements⟩)

/-- A list that is shown from memory. -/
theorem Abreast.reuse (henter : Innocent D enter) (h : Abreast ρ D o n w s node e x C')
    (hslots : x.slots = done ++ slot :: rest) (hbranch : Branch w D o e x.context slot)
    {name : String} {resolver : Resolver}
    (hrepetition : slot.node.repetition = some (name, resolver)) {last : Repetition}
    (hmemory : slot.memory = .repeated (some last)) {items items' : List Value}
    (hitems : List.Forall₂ ρ.Values items items')
    (hfront : List.Forall₂ (FrontHolds w.store) last.contexts items) :
    Agree (Faithful o n) enter
      (Result (Evaluated ρ D o node e x C' done rest slot.node w s) (Tends D node e w)) w s
      (Build.reuse e done.length slot.node last .headless).run
      (do
        let contexts ← Build.act (Build.frames name C' items')
        let conditions ← Build.conditions slot.node contexts
        return Build.shown contexts conditions : Build σ (List Context)).run := by
  have hremembers := hbranch.remembers
  rw [hmemory] at hremembers
  cases hremembers with
  | @list name' resolver' _ hrepetition' hcontexts _ harray htext =>
    obtain ⟨rfl, rfl⟩ : name = name' ∧ resolver = resolver' := by
      simpa using hrepetition.symm.trans hrepetition'
    obtain ⟨contexts', s₁, hrun', hs₁, hframes'⟩ := runIn_frames enter name C' items' s
    unfold Build.reuse
    refine Agree.rightE (Act.runIn_lift hrun') ?_
    have hstores := h.follows.tied.worlds.stores
    have hstep₁ : ρ.Step ρ w w s s₁ := .of_touches hstores (.refl w) hs₁
    have h₁ := h.step hstep₁
    have hpairs := pairs_of_items hitems (stands_of_remembered (h.inside 0) hcontexts hfront)
      (mirrors_of_frames hstores hframes')
    obtain ⟨hnames, hconstants⟩ := h.lucid.condition (h.child hslots)
    refine Agree.evaluated (.of_step hstep₁)
      (h₁.ask (henter.conditions (h₁.inside 0) hnames hconstants hpairs) ?_)
    intro conditions ρ₂ w₂ s₂ hstep₂
    have h₂ := h₁.step hstep₂
    have hpairs₂ := hpairs.imp fun _ _ hpair => hpair.step hstep₂
    have hstore := hstep₂.left.store
    split
    · next heq =>
      obtain rfl : conditions = last.conditions := by simpa using heq
      have hbranch₂ := hbranch.beside h.tended.get (.of_none hstep₂.left) h.follows.since.store
        (.refl o)
      have hslot : slot.elements = last.elements := by
        rw [Slot.elements, hmemory]
        rfl
      refine Agree.pureE ?_
      rw [← hslot]
      exact h₂.keep hslots (hbranch₂.planted hmemory hpairs₂)
    · obtain ⟨w₃, hrun₃, hw₃⟩ := Act.runIn_message_some enter (w := w₂) .trace fun _ =>
        Act.runIn_pure ("`" ++ slot.node.path ++ "`: item conditions changed, rebuilding") enter w₂
      refine Agree.leftE (Act.runIn_lift hrun₃) ?_
      have hstep₃ : ρ₂.Step ρ₂ w₂ w₃ s₂ s₂ :=
        .of_touches h₂.follows.tied.worlds.stores (hw₃ _) (.refl s₂)
      refine Agree.evaluated (.of_step hstep₃) ((h₂.step hstep₃).renew hslots hrepetition ?_ ?_
        (hpairs₂.imp fun _ _ hpair => hpair.step hstep₃) conditions)
      · intro a ha
        exact Nat.lt_of_lt_of_le (harray a ha)
          (h₂.step hstep₃).follows.since.store.arrays_le
      · intro text ht
        exact (htext text ht).imp fun _ _ hfront =>
          hfront.grow (hstore.trans hstep₃.left.store)

theorem Abreast.evaluateRepeated (henter : Innocent D enter) (hadmits : Admits Lengthens enter)
    (h : Abreast ρ D o n w s node e x C') (hslots : x.slots = done ++ slot :: rest)
    (hbranch : Branch w D o e x.context slot) {name : String} {resolver : Resolver}
    (hrepetition : slot.node.repetition = some (name, resolver)) {last : Option Repetition}
    (hmemory : slot.memory = .repeated last) :
    Agree (Faithful o n) enter
      (Result (Evaluated ρ D o node e x C' done rest slot.node w s) (Tends D node e w)) w s
      (Build.evaluateRepeated e done.length slot.node name resolver last
        (.object (.scope m e) :: x.context) .headless).run
      (Build.seeds slot.node C').run := by
  have hchild := h.child hslots
  have hdirective := Node.mem_directives_repetition hrepetition
  simp only [Build.evaluateRepeated, Build.seeds, hrepetition]
  have hnames : resolver.names ⊆ node.names :=
    List.Subset.trans (Node.names_of_directive hdirective) (Node.names_subset hchild)
  have hlist := henter.listOf (h.inside m).tied hnames ((h.lucid.child hchild).directive hdirective)
  refine Agree.afterE (hlist.imp (Result.imp (fun _ _ _ _ => id) fun w₁ hw₁ =>
    ⟨.of_none hw₁, x, h.tended.touched hw₁⟩)) ?_
  rintro ⟨list, items⟩ ⟨list', items'⟩ w₁ s₁ ⟨ρ₁, hstep, hlist, hitems, hwalk⟩
  have h₁ := h.step hstep
  have hbranch₁ := hbranch.beside h.tended.get (.of_none hstep.left) h.follows.since.store (.refl o)
  refine Agree.evaluated (.of_step hstep) ?_
  have hanew := h₁.anew (m := m) henter hslots hrepetition hlist hitems hwalk
  cases last with
  | none => exact hanew
  | some last =>
    dsimp only
    split
    · next hcondition =>
      obtain ⟨hsame, hlength⟩ : last.list.same list = true ∧
          last.contexts.length = items.length := by simpa using hcondition
      obtain ⟨w₂, hrun, hw₂, hkept⟩ := runIn_noteKept enter last w₁
      refine Agree.leftE (Act.runIn_lift hrun) ?_
      refine Agree.assume ((hadmits.builds.reuse trivial _ last .headless).faithful o n) fun hfaithful => ?_
      have hstep₂ : ρ₁.Step ρ₁ w₁ w₂ s₁ s₁ :=
        .of_touches h₁.follows.tied.worlds.stores (hw₂ _) (.refl s₁)
      have h₂ := h₁.step hstep₂
      have hbranch₂ := hbranch₁.beside h₁.tended.get (.of_none hstep₂.left)
        h₁.follows.since.store (.refl o)
      have hremembers := hbranch₁.remembers
      rw [hmemory] at hremembers
      cases hremembers with
      | list _ hcontexts _ harray htext =>
        have hfront := frontHolds_of_same h₁.follows.since hsame hlength hwalk
          (fun context hmem => by
            obtain ⟨r, m', v, heq, hframed⟩ := hcontexts context hmem
            exact ⟨r, _, heq, hframed.old⟩)
          harray htext fun a ha => hfaithful a last.frames
            (hkept a n ha h₁.follows.since.journal) (harray a ha)
        exact Agree.evaluated (.of_step hstep₂) (h₂.reuse henter hslots hbranch₂ hrepetition hmemory
          hitems (hfront.imp fun _ _ hfront => hfront.grow hstep₂.left.store))
    · exact hanew

/-- **Slots.** A slot contributes planted children for the contexts in which a drawing shows its
node. -/
theorem Abreast.evaluate (henter : Innocent D enter) (hadmits : Admits Lengthens enter)
    (h : Abreast ρ D o n w s node e x C') (hslots : x.slots = done ++ slot :: rest)
    (hbranch : Branch w D o e x.context slot) :
    Agree (Faithful o n) enter
      (Result (Evaluated ρ D o node e x C' done rest slot.node w s) (Tends D node e w)) w s
      (Build.evaluate e done.length slot (.object (.scope m e) :: x.context) .headless).run
      (Build.seeds slot.node C').run := by
  unfold Build.evaluate
  have hremembers := hbranch.remembers
  cases hmemory : slot.memory with
  | single cached =>
    have hrepetition : slot.node.repetition = none := by
      rw [hmemory] at hremembers
      cases hremembers <;> assumption
    exact h.evaluateSingle henter hslots hbranch hrepetition hmemory
  | repeated last =>
    obtain ⟨name, resolver, hrepetition⟩ :
        ∃ name resolver, slot.node.repetition = some (name, resolver) := by
      rw [hmemory] at hremembers
      cases hremembers <;> exact ⟨_, _, ‹_›⟩
    rw [hrepetition]
    exact h.evaluateRepeated henter hadmits hslots hbranch hrepetition hmemory

/-! ### Filling the slots -/

/-- Children are shown one after the other. -/
theorem Tended.append (enter : Enter σ) (h : Tended w D node e x) (hnode : node.children ≠ [])
    (es : List ElementId) :
    ∃ w' y, (Build.append e es).run.runIn enter w = (some (.ok ()), w') ∧ Touches (· = e) w w' ∧
      Tended w' D node e y ∧ y.slots = x.slots ∧ y.children = x.children ++ es := by
  induction es generalizing w x with
  | nil => exact ⟨w, x, rfl, .refl w, h, rfl, (List.append_nil _).symm⟩
  | cons child rest ih =>
    obtain ⟨htag, hidle, hslots, hbare, c, hc, hmounted, hdressed⟩ := h.stem
    obtain ⟨w₁, hrun₁, hedits₁, hx₁⟩ : Alters enter w e (Build.component (Act.appendChild e child)).run
        (.ok ()) _ := .component (.appendChild h.get hidle hc child)
    have hw₁ := hedits₁.touches
    have hstem : Stem node
        { x with component := .headless (c.mount child), children := x.children ++ [child] } :=
      ⟨htag, hidle, hslots, fun hnil => (hnode hnil).elim, c.mount child, rfl, by
        rw [Headless.mount, hmounted], hdressed⟩
    obtain ⟨w₂, y, hrun₂, hw₂, htended, hslots', hchildren⟩ :=
      ih (h.alter hw₁ hx₁ hstem h.updater rfl)
    refine ⟨w₂, y, ?_, hw₁.trans hw₂, htended, hslots', ?_⟩
    · unfold Build.append
      rw [Build.runIn_bindE_ok hrun₁, hrun₂]
    · rw [hchildren, List.append_assoc, List.singleton_append]

/-- A child in one of these slots is planted for a node and a context of a drawing. -/
def Sown (ρ : Link) (D : Scene σ) (o : Store) (w s : World σ) (e : ElementId) (C C' : Context)
    (slots : List Slot) (c : ElementId) (seed : Node Resolver × Context) : Prop :=
  (∃ slot ∈ slots, slot.node = seed.1 ∧ c ∈ slot.elements) ∧
    Planted ρ D o w s e C C' seed.1 c seed.2

/-- What there is after the slots from some place on have been filled. -/
def Filled (ρ : Link) (D : Scene σ) (o : Store) (node : Node Resolver) (e : ElementId)
    (x : Element) (C' : Context) (done : List Slot) (w s : World σ) (_ : Unit)
    (seeds : List (Node Resolver × Context)) (w' s' : World σ) : Prop :=
  ∃ ρ' y filled, ρ.Course (· = e) ρ' w w' s s' ∧ Tended w' D node e y ∧
    y.slots = done ++ filled ∧ y.children = x.children ++ filled.flatMap Slot.elements ∧
    List.Forall₂ (Sown ρ' D o w' s' e x.context C' filled) (filled.flatMap Slot.elements) seeds

theorem Planted.beside {c : ElementId} {C C' context : Context} {child : Node Resolver}
    (h : Planted ρ D o w s e C C' child c context) (hcourse : ρ.Course (· = e) ρ₁ w w₁ s s₁)
    (hlineage : w.lineage e = e :: Context.elements C) (ho : o.Grows w.store) :
    Planted ρ₁ D o w₁ s₁ e C C' child c context := by
  refine h.course hcourse (fun y hy => ?_) ho
  rintro rfl
  refine World.not_below_of_lineage ?_ hy
  rw [h.lineage, hlineage]

theorem Abreast.fill (henter : Innocent D enter) (hadmits : Admits Lengthens enter)
    (hnode : node.children ≠ []) (h : Abreast ρ D o n w s node e x C')
    (hslots : x.slots = done ++ rest) (hbranches : ∀ slot ∈ rest, Branch w D o e x.context slot) :
    Agree (Faithful o n) enter (Result (Filled ρ D o node e x C' done w s) (Tends D node e w)) w s
      (Build.fill e (.object (.scope m e) :: x.context) .headless done.length rest).run
      (Build.sow C' (rest.map Slot.node)).run := by
  induction rest generalizing done x ρ w s with
  | nil =>
    refine Agree.pureE ⟨ρ, x, [], .refl h.follows.tied.worlds.stores, h.tended, hslots, ?_, .nil⟩
    exact (List.append_nil _).symm
  | cons slot rest ih =>
    unfold Build.fill
    rw [List.map_cons, Build.sow]
    refine Agree.bindE (h.evaluate henter hadmits hslots (hbranches slot List.mem_cons_self))
      (fun es => (hadmits.bindE (hadmits.builds.append e es) fun _ =>
        hadmits.builds.fill _ _ _ _ fun _ _ _ => trivial).faithful o n) ?_
    rintro es contexts w₁ s₁ ⟨ρ₁, memory, hcourse₁, htended₁, hes, hplanted⟩
    obtain ⟨w₂, y, hrun, hw₂, htended₂, hslots₂, hchildren₂⟩ := htended₁.append enter hnode es
    refine Agree.leftE hrun (.mapRightE ?_)
    have hcourse₂ : ρ₁.Course (· = e) ρ₁ w₁ w₂ s₁ s₁ := .of_touches hcourse₁.stores hw₂ (.refl s₁)
    have hcourse := hcourse₁.trans hcourse₂
    have h₂ := h.course hcourse htended₂
    obtain ⟨y', hy', hcontext, -⟩ := hcourse.left.element e x h.tended.get
    obtain rfl : y = y' := Option.some.inj (htended₂.get.symm.trans hy')
    have hslots₂' : y.slots = (done ++ [⟨slot.node, memory⟩]) ++ rest := by
      rw [hslots₂, List.append_assoc, List.singleton_append]
    have hmore := ih h₂ hslots₂' fun other hother => by
        rw [hcontext]
        exact (hbranches other (List.mem_cons_of_mem _ hother)).beside h.tended.get hcourse.left
          h.follows.since.store (.refl o)
    rw [List.length_append, List.length_singleton, hcontext] at hmore
    refine hmore.imp (Result.imp ?_ fun _ => .after hcourse.left)
    rintro ⟨⟩ seeds w₃ s₃ ⟨ρ₃, z, filled, hcourse₃, htended₃, hslots₃, hchildren₃, hsown⟩
    refine ⟨ρ₃, z, ⟨slot.node, memory⟩ :: filled, hcourse.trans hcourse₃, htended₃, ?_, ?_, ?_⟩
    · rw [hslots₃, List.append_assoc, List.singleton_append]
    · rw [hchildren₃, hchildren₂, List.flatMap_cons, hes, List.append_assoc]
    · rw [List.flatMap_cons, hes]
      rw [hcontext] at hsown
      have hplanted' := (List.forall₂_and_left (p := (· ∈ es)) _ _).mpr ⟨fun _ => id, hplanted⟩
      refine List.rel_append (List.forall₂_map_right_iff.mpr (hplanted'.imp ?_)) (hsown.imp ?_)
      · rintro c context ⟨hmem, hc⟩
        refine ⟨⟨⟨slot.node, memory⟩, List.mem_cons_self, rfl, hes ▸ hmem⟩, ?_⟩
        exact hc.beside (hcourse₂.trans hcourse₃) htended₁.lineage
          (h.follows.since.touched hcourse₁.left).store
      · rintro c seed ⟨⟨other, hother, heq, hmem⟩, hc⟩
        exact ⟨⟨other, List.mem_cons_of_mem _ hother, heq, hmem⟩, hc⟩

/-! ### Setting the attributes -/

/-- What there is after bound attributes have been set, where a drawing writes over these. -/
def Assigned (ρ : Link) (D : Scene σ) (node : Node Resolver) (e : ElementId) (x : Element)
    (attributes base : Fields Value) (binds : List (String × Resolver)) (w s : World σ) (_ : Unit)
    (drawn : Fields (Option String)) (w' s' : World σ) : Prop :=
  ∃ ρ' c entries, ρ.Course (· = e) ρ' w w' s s' ∧
    Tended w' D node e { x with component := .headless c } ∧
    entries.map (·.1) = binds.map (·.1) ∧ c.attributes = attributes.putAll entries ∧
    Fields.Related (Reads w'.store) (base.putAll entries) drawn

/-- One attribute is set and its text is read, or neither of it ends. -/
theorem Abreast.setAttribute (h : Abreast ρ D o n w s node e x C') {c : Headless}
    (hc : x.component = .headless c) {v v' : Value} (hv : ρ.Values v v') (name : String)
    (hdressed : node.Dressed (c.attributes.put name v)) :
    Answers (Result (fun _ _ w' s' => Touches (· = e) w w' ∧ Touches (fun _ => False) s s' ∧
        Tended w' D node e { x with component := .headless (c.setAttribute name v) })
        (Tends D node e w))
      ((Build.component (Act.setAttribute e name v)).run.runIn enter w)
      ((Build.act (Act.message .trace (Act.text v'))).run.runIn enter s) := by
  have htext := h.follows.tied.worlds.stores.text_eq hv
  have hwants : s.wants .trace = w.wants .trace := by
    rw [World.wants, World.wants, h.follows.tied.worlds.level]
  by_cases hend : w.wants .trace = true ∧ w.store.text v = none
  · obtain ⟨hwanted, hnone⟩ := hend
    have hright : (Act.message .trace (Act.text v')).runIn enter s = (none, s) :=
      Act.runIn_message_none (hwants.trans hwanted) (by rw [Act.runIn_text, ← htext, hnone])
    have hact : (Build.act (Act.message .trace (Act.text v'))).run.runIn enter s = (none, s) := by
      show (Except.ok <$> Act.message .trace (Act.text v')).runIn enter s = _
      rw [map_eq_pure_bind, Act.runIn_bind_none hright]
    rw [Build.runIn_setAttribute_none h.tended.get h.tended.stem.idle hc name hwanted hnone, hact]
    exact .neither w s
  · obtain ⟨t, ht⟩ := World.exists_text hend
    obtain ⟨w₁, hrun, hedits₁, hx₁⟩ : Alters enter w e (Build.component (Act.setAttribute e name v)).run
        (.ok ()) _ := .component (.setAttribute h.tended.get h.tended.stem.idle hc name ht)
    have hw₁ := hedits₁.touches
    have hright : s.wants .trace = true → (Act.text v').runIn enter s = (some t, s) :=
      fun hwanted => by rw [Act.runIn_text, ← htext, ht (hwants ▸ hwanted)]
    obtain ⟨s₁, hrun', hs₁⟩ := Act.runIn_message_some enter .trace hright
    rw [hrun, Act.runIn_lift hrun']
    obtain ⟨htag, hidle, hslots, hbare, c', hc', hmounted, -⟩ := h.tended.stem
    obtain rfl : c = c' := by simpa using hc.symm.trans hc'
    have hstem : Stem node { x with component := .headless (c.setAttribute name v) } :=
      ⟨htag, hidle, hslots, hbare, c.setAttribute name v, rfl, hmounted, hdressed⟩
    exact .both ⟨.ok ⟨hw₁, hs₁ _, h.tended.alter hw₁ hx₁ hstem h.tended.updater rfl⟩,
      fun hfalse => by cases hfalse⟩

theorem Abreast.assign (henter : Innocent D enter) (h : Abreast ρ D o n w s node e x C')
    {c : Headless} (hc : x.component = .headless c) {base : Fields Value}
    {drawn : Fields (Option String)} (hbase : Fields.Related (Reads w.store) base drawn)
    {binds : List (String × Resolver)} (hbinds : binds ⊆ node.bind)
    (hdressed : ∀ entries : List (String × Value),
      entries.map (·.1) <+: binds.map (·.1) → node.Dressed (c.attributes.putAll entries)) :
    Agree (Faithful o n) enter
      (Result (Assigned ρ D node e x c.attributes base binds w s) (Tends D node e w)) w s
      (Build.assign e (.object (.scope m e) :: x.context) binds).run
      (Build.read C' binds drawn).run := by
  induction binds generalizing x c base drawn ρ w s with
  | nil =>
    refine Agree.pureE ⟨ρ, c, [], .refl h.follows.tied.worlds.stores, ?_, rfl, rfl, hbase⟩
    have heq : { x with component := .headless c } = x := by rw [← hc]
    rw [heq]
    exact h.tended
  | cons bind rest ih =>
    obtain ⟨name, resolver⟩ := bind
    rw [List.cons_subset] at hbinds
    have hdirective := Node.mem_directives_bind hbinds.1
    unfold Build.assign Build.read
    refine Agree.afterE (Mimics.answers (Mimics.eval (henter.resolve (h.inside m).tied resolver
        (Node.names_of_directive hdirective) (h.lucid.directive hdirective)))
      (Q := fun v v' w₁ s₁ => ∃ ρ₁, ρ.Step ρ₁ w w₁ s s₁ ∧ ρ₁.Values v v')
      (fun ρ₁ w₁ s₁ v v' hstep hv => ⟨ρ₁, hstep, hv⟩) fun w₁ hw₁ => ?_) ?_
    · exact ⟨.of_none hw₁, x, h.tended.touched hw₁⟩
    rintro v v' w₁ s₁ ⟨ρ₁, hstep, hv⟩
    have h₁ := h.step hstep
    have hput : node.Dressed (c.attributes.put name v) :=
      hdressed [(name, v)] ⟨rest.map (·.1), rfl⟩
    refine Agree.afterE ((h₁.setAttribute hc hv name hput).imp (Result.imp (fun _ _ _ _ => id)
      fun w₂ hw₂ => hw₂.after (.of_none hstep.left))) ?_
    rintro ⟨⟩ ⟨⟩ w₂ s₂ ⟨hw₂, hs₂, htended⟩
    refine Agree.rightE (Act.runIn_lift (Act.runIn_get enter s₂)) ?_
    have hcourse₂ : ρ₁.Course (· = e) ρ₁ w₁ w₂ s₁ s₂ := .of_touches hstep.stores hw₂ hs₂
    have hcourse := (Link.Course.of_step hstep).trans hcourse₂
    have h₂ := h.course hcourse htended
    have hreads : Reads w₂.store v (s₂.store.text v') :=
      ⟨ρ₁, s₂.store, v', hcourse₂.stores, hv, rfl⟩
    have hrest := ih h₂ (c := c.setAttribute name v) rfl
      (Fields.Related.put (hbase.imp fun _ _ hab => ⟨hab.1, hab.2.grow hcourse.left.store⟩) name
        hreads) hbinds.2 fun entries hentries => by
          refine hdressed ((name, v) :: entries) ?_
          rw [List.map_cons, List.map_cons]
          exact (List.prefix_cons_inj _).mpr hentries
    refine hrest.imp (Result.imp ?_ fun _ => .after hcourse.left)
    rintro ⟨⟩ drawn' w₃ s₃ ⟨ρ₃, d, entries, hcourse₃, htended₃, hkeys, hattributes, hrelated⟩
    exact ⟨ρ₃, d, (name, v) :: entries, hcourse.trans hcourse₃, htended₃, by simp [hkeys],
      hattributes, hrelated⟩

/-! ### Refreshing -/

theorem Sown.beside {C C' : Context} {slots : List Slot} {c : ElementId}
    {seed : Node Resolver × Context} (h : Sown ρ D o w s e C C' slots c seed)
    (hcourse : ρ.Course (· = e) ρ₁ w w₁ s s₁) (hlineage : w.lineage e = e :: Context.elements C)
    (ho : o.Grows w.store) : Sown ρ₁ D o w₁ s₁ e C C' slots c seed :=
  ⟨h.1, h.2.beside hcourse hlineage ho⟩

/-- What there is after an element has been refreshed: its attributes and children are as in a
plan. -/
def Refreshed (ρ : Link) (D : Scene σ) (o : Store) (node : Node Resolver) (e : ElementId)
    (x : Element) (C' : Context) (w s : World σ) (_ : Unit)
    (plan : List (Node Resolver × Context) × Fields (Option String)) (w' s' : World σ) : Prop :=
  ∃ ρ' y c, ρ.Course (· = e) ρ' w w' s s' ∧ Tended w' D node e y ∧
    y.children = y.slots.flatMap Slot.elements ∧ y.component = .headless c ∧
    Fields.Related (Reads w'.store) c.attributes plan.2 ∧
    List.Forall₂ (Sown ρ' D o w' s' e x.context C' y.slots) y.children plan.1

/-- The attributes that the tag tells. -/
theorem Link.Stores.reads_told (h : ρ.Stores w.store s.store) (node : Node Resolver) :
    Fields.Related (Reads w.store) node.told
      (node.tag.attributes.map fun (name, text) => (name, some text)) := by
  unfold Node.told Fields.Related
  rw [List.forall₂_map_left_iff, List.forall₂_map_right_iff]
  refine List.forall₂_same.mpr fun entry _ => ⟨rfl, ρ, s.store, .str entry.2, h, .plain rfl, ?_⟩
  rw [Store.text, Store.textWithin]

/-- The bound attributes are set when the children are there. -/
theorem Abreast.dress (henter : Innocent D enter) (h : Abreast ρ D o n w s node e x C')
    (hchildren : x.children = x.slots.flatMap Slot.elements)
    {seeds : List (Node Resolver × Context)}
    (hsown : List.Forall₂ (Sown ρ D o w s e x.context C' x.slots) x.children seeds) :
    Agree (Faithful o n) enter (Result (Refreshed ρ D o node e x C' w s) (Tends D node e w)) w s
      (Build.assign e (.object (.scope m e) :: x.context) node.bind).run
      (do
        let attributes ← Build.read C' node.bind
          (node.tag.attributes.map fun (name, text) => (name, some text))
        return (seeds, attributes) : Build σ _).run := by
  have hstores := h.follows.tied.worlds.stores
  obtain ⟨c, hc, hmounted, hdressed⟩ := h.tended.stem.component
  refine Agree.mapRightE ?_
  refine (h.assign henter hc (hstores.reads_told node) (List.Subset.refl _) fun _ hentries =>
    hdressed.putAll hentries).imp (Result.imp ?_ fun _ => id)
  rintro ⟨⟩ attributes w₁ s₁ ⟨ρ₁, d, entries, hcourse, htended, hkeys, hattributes, hrelated⟩
  refine ⟨ρ₁, _, d, hcourse, htended, hchildren, rfl, ?_, ?_⟩
  · rw [hattributes, hdressed.round entries hkeys]
    exact hrelated
  · exact hsown.imp fun _ _ hc => hc.beside hcourse h.tended.lineage h.follows.since.store

/-- What is refreshed in the end is refreshed from the beginning. -/
theorem Refreshed.after {ρ₂ : Link} {w₂ s₂ : World σ} {y : Element} {act : Build σ Unit}
    {act' : Build σ (List (Node Resolver × Context) × Fields (Option String))}
    (hcourse : ρ.Course (· = e) ρ₂ w w₂ s s₂) (hcontext : y.context = x.context)
    (h : Agree (Faithful o n) enter (Result (Refreshed ρ₂ D o node e y C' w₂ s₂) (Tends D node e w₂)) w₂ s₂
      act.run act'.run) :
    Agree (Faithful o n) enter (Result (Refreshed ρ D o node e x C' w s) (Tends D node e w)) w₂ s₂ act.run
      act'.run := by
  refine h.imp (Result.imp ?_ fun _ => .after hcourse.left)
  rintro ⟨⟩ plan w₃ s₃ ⟨ρ₃, z, c, hcourse₃, htended, hchildren, hc, hattributes, hsown⟩
  exact ⟨ρ₃, z, c, hcourse.trans hcourse₃, htended, hchildren, hc, hattributes, hcontext ▸ hsown⟩

/-- The children of an element are put away before its slots are filled. -/
theorem Abreast.clearChildren (enter : Enter σ) (h : Abreast ρ D o n w s node e x C') :
    ∃ w₁ c, (Build.component (Act.clearChildren e)).run.runIn enter w = (some (.ok ()), w₁) ∧
      ρ.Course (· = e) ρ w w₁ s s ∧
      Abreast ρ D o n w₁ s node e { x with component := .headless c, children := [] } C' := by
  obtain ⟨htag, hidle, hslots, -, c, hc, hmounted, hdressed⟩ := h.tended.stem
  obtain ⟨w₁, hrun, hedits, hx₁⟩ : Alters enter w e (Build.component (Act.clearChildren e)).run
      (.ok ()) _ := .component (.clearChildren h.tended.get hidle hc)
  have hstem : Stem node { x with component := .headless c.clear, children := [] } :=
    ⟨htag, hidle, hslots, fun _ => rfl, c.clear, rfl, rfl, hdressed⟩
  have hcourse : ρ.Course (· = e) ρ w w₁ s s :=
    .of_touches h.follows.tied.worlds.stores hedits.touches (.refl s)
  exact ⟨w₁, c.clear, hrun, hcourse,
    h.course hcourse (h.tended.alter hedits.touches hx₁ hstem h.tended.updater rfl)⟩

/-- **Refreshing.** Refreshing an element answers like planning its node, and gives it the children
and the attributes of the plan. -/
theorem Abreast.refresh (henter : Innocent D enter) (hadmits : Admits Lengthens enter)
    (h : Abreast ρ D o n w s node e x C')
    (hbranches : ∀ slot ∈ x.slots, Branch w D o e x.context slot) :
    Agree (Faithful o n) enter (Result (Refreshed ρ D o node e x C' w s) (Tends D node e w)) w s
      (Build.refresh e node .headless).run (Build.plan node C').run := by
  unfold Build.refresh Build.plan
  obtain ⟨w₁, hrun₁, hedits₁, hx₁⟩ : Alters enter w e (Act.contextOf e) _ x := .contextOf h.tended.get
  have hw₁ := hedits₁.touches
  refine Agree.leftE (Act.runIn_lift hrun₁) (Agree.leftE (Act.runIn_lift (Act.runIn_element hx₁)) ?_)
  have hcourse₁ : ρ.Course (· = e) ρ w w₁ s s :=
    .of_touches h.follows.tied.worlds.stores hw₁ (.refl s)
  have h₁ := h.course hcourse₁ (h.tended.alter hw₁ hx₁ h.tended.stem h.tended.updater rfl)
  have hslots := h.tended.stem.slots
  cases hempty : x.slots with
  | nil =>
    have hnode : node.children = [] := by rw [← hslots, hempty, List.map_nil]
    have hchildren : x.children = x.slots.flatMap Slot.elements := by
      rw [h.tended.stem.bare hnode, hempty]
      rfl
    have hsown : List.Forall₂ (Sown ρ D o w₁ s e x.context C' x.slots) x.children [] := by
      rw [h.tended.stem.bare hnode]
      exact .nil
    have hdress := h₁.dress (m := w.marks) henter hchildren hsown
    rw [hnode]
    exact Refreshed.after hcourse₁ rfl hdress
  | cons slot rest =>
    have hnode : node.children ≠ [] := by
      rw [← hslots, hempty]
      exact List.cons_ne_nil _ _
    obtain ⟨w₂, c, hrun₂, hcleared, h₂⟩ := h₁.clearChildren enter
    have hcourse₂ := hcourse₁.trans hcleared
    have hfill := h₂.fill (m := w.marks) henter hadmits hnode (List.nil_append x.slots).symm
      fun other hother =>
        (hbranches other hother).beside h.tended.get hcourse₂.left h.follows.since.store (.refl o)
    rw [← hslots]
    refine Agree.leftE hrun₂ ?_
    rw [← hempty]
    refine Agree.bindE
      (hfill.imp (Result.imp (fun _ _ _ _ => id) fun _ => Tends.after hcourse₂.left))
      (fun _ => (hadmits.builds.assign _ fun _ _ => trivial).faithful o n) ?_
    rintro ⟨⟩ seeds w₃ s₃ ⟨ρ₃, y, filled, hcourse₃, htended₃, hslots₃, hchildren₃, hsown⟩
    have hcourse := hcourse₂.trans hcourse₃
    obtain ⟨y', hy', hcontext, -⟩ := hcourse.left.element e x h.tended.get
    obtain rfl : y = y' := Option.some.inj (htended₃.get.symm.trans hy')
    rw [List.nil_append] at hslots₃ hchildren₃
    rw [← hslots₃] at hchildren₃ hsown
    rw [← hchildren₃] at hsown
    have hdress := (h.course hcourse htended₃).dress (m := w.marks) henter hchildren₃
      (hcontext ▸ hsown)
    rw [hcontext] at hdress
    exact Refreshed.after hcourse hcontext hdress

end

end ReactiveViews
