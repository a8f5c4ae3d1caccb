import ReactiveViews.Proofs.Live.Outlines
import ReactiveViews.Proofs.Live.Settling

/-!
# Trees in two updates

A tree of one node is updated in two runs, and what comes of it looks the same. The runs come to the tree in
one of three ways (`Link.Start`): it is new in both of them, the second run finds what the first one has left,
or both find what was there before. A link says which arrays and records of the two worlds stand for each
other, and grows as the runs go on.

An update is followed in its own order. What the runs have when the elements are held is `Entered`, from which
each of the three ways gives what the updaters begin with (`Link.Begun`); when the updaters have run, the
children are about to be updated in pairs (`Link.Descends`), and one child at a time leaves the others as they
were (`Descends.step`). `Link.update_recurs` puts this together for one node, and `Host.update_recurs` goes
down the tree by induction on the depth. Spots, where the worlds may differ, are left to an assumption
(`Link.Settles`).
-/

namespace ReactiveViews

variable {σ : Type}

namespace World.Alike

variable {w w' s s' : World σ} {e y : ElementId} {x : Element}

theorem lineage_eq (h : w.Alike s e) (hy : w.Below e y) (hx : w.elements.get? y.row = some x) :
    s.lineage y = w.lineage y := by
  rw [World.lineage_eq hx, World.lineage_eq (h y x hy hx)]

/-- The elements of the tree are in the tree in the other world as well. -/
theorem below_right (h : w.Alike s e) (he : ∃ x, w.elements.get? e.row = some x) (hy : w.Below e y)
    (hx : w.elements.get? y.row = some x) : s.Below e y := by
  obtain ⟨z, hz⟩ := he
  rw [World.Below, h.lineage_eq (.refl w e) hz, h.lineage_eq hy hx]
  exact hy

end World.Alike

/-- What the second world has been through after the first one has been left. -/
theorem World.Alike.later {S : ElementId → Prop} {w s s' : World σ} {e : ElementId} (h : w.Alike s e)
    (hs : Touches S s s') (hS : ∀ y x, w.Below e y → w.elements.get? y.row = some x → ¬ S y) :
    w.Alike s' e := fun y x hy hx => hs.get? (h y x hy hx) (hS y x hy hx)

/-! ### Going down to a child -/

theorem Act.runIn_updateAll_cons {enter : Enter σ} {w w₁ : World σ} {c : ElementId}
    (hupdate : (Act.enterUpdate c).runIn enter w = (some (.ok ()), w₁)) (es : List ElementId) :
    (Act.updateAll (c :: es)).runIn enter w =
      (Act.updateAll es).runIn enter { w₁ with held := w₁.held.erase c } := by
  have hrelease : (Act.release [c]).runIn enter w₁ = (some (), { w₁ with held := w₁.held.erase c }) := rfl
  rw [Act.updateAll, Act.runIn_bind_some hupdate, Act.runIn_bind_some hrelease]

theorem Act.runIn_updateAll_cons_eq_ok {enter : Enter σ} {w w' : World σ} {c : ElementId}
    {es : List ElementId} (hrun : (Act.updateAll (c :: es)).runIn enter w = (some (.ok ()), w')) :
    ∃ w₁, (Act.enterUpdate c).runIn enter w = (some (.ok ()), w₁) ∧
      (Act.updateAll es).runIn enter { w₁ with held := w₁.held.erase c } = (some (.ok ()), w') := by
  obtain ⟨answer, w₁, hupdate, hrest⟩ := Act.runIn_bind_eq_some hrun
  cases answer with
  | error error => cases hrest
  | ok => exact ⟨w₁, hupdate, (Act.runIn_updateAll_cons hupdate es).symm.trans hrun⟩

theorem Standing.inside {w : World σ} {node : Node Resolver} {e c : ElementId} {x : Element}
    (h : Standing w node e) (hx : w.elements.get? e.row = some x)
    (hc : c ∈ x.slots.flatMap Slot.elements) : w.Inside e c := by
  obtain ⟨x', hnursed, -⟩ := h.inspect
  obtain rfl : x = x' := Option.some.inj (hx.symm.trans hnursed.get)
  exact hnursed.inside hc

/-- The trees of two children have nothing in common. -/
theorem Standing.apart {w : World σ} {node : Node Resolver} {e c c' : ElementId} {x : Element}
    (h : Standing w node e) (hx : w.elements.get? e.row = some x)
    (hc : c ∈ x.slots.flatMap Slot.elements) (hc' : c' ∈ x.slots.flatMap Slot.elements) (hne : c ≠ c')
    {z : ElementId} (hz : w.Below c z) : ¬ w.Below c' z := fun hz' =>
  hne ((h.inside hx hc).eq_of_below (h.inside hx hc') hz hz')

/-- What there is after a child has been updated, and before it is let go of. -/
structure Descended (w : World σ) (node : Node Resolver) (e : ElementId) (x : Element) (c : ElementId)
    (held : List ElementId) (w₁ : World σ) : Prop where
  /-- Only the tree of the child is touched. -/
  touches : Touches (w.Below c) w w₁
  /-- The child is held still. -/
  holds : w₁.held = c :: held
  /-- The tree is standing. -/
  standing : Standing { w₁ with held := held } node e
  /-- The element is what it was. -/
  get : w₁.elements.get? e.row = some x
  /-- The scopes of the child are left alone. -/
  leaves : Leaves (e :: Context.elements x.context).length w { w₁ with held := held }

theorem Standing.descend {enter : Enter σ} {w w₁ : World σ} {node : Node Resolver} {e c : ElementId}
    {x : Element} {held : List ElementId} (hstays : ∀ child ∈ node.children, Stays enter child)
    (h : Standing w node e) (hx : w.elements.get? e.row = some x)
    (hc : c ∈ x.slots.flatMap Slot.elements) (hheld : w.held = c :: held)
    {answer : Except ViewError Unit} (hrun : (Act.enterUpdate c).runIn enter w = (some answer, w₁)) :
    Descended w node e x c held w₁ := by
  obtain ⟨x', hnursed, -⟩ := h.inspect
  obtain rfl : x = x' := Option.some.inj (hx.symm.trans hnursed.get)
  obtain ⟨slot, hslot, hcslot⟩ := List.mem_flatMap.mp hc
  have hinside := hnursed.inside hc
  obtain ⟨hw₁, hstanding⟩ := hstays _ (hnursed.trunk.child hslot) w c answer w₁
    ((hnursed.limbs slot hslot).standing c hcslot) hrun
  have hlineage : w.lineage c = c :: e :: Context.elements x.context := by
    obtain ⟨-, -, hlineage⟩ := hinside
    rw [hlineage, World.lineage_eq hx]
  refine ⟨hw₁.touches, hw₁.held.trans hheld,
    (h.replace hx hslot hcslot hw₁.touches.retains hstanding).untouched (.of_held w₁ held),
    hw₁.touches.get? hx hinside.not_below, ?_, fun z y _ hle hz => ?_⟩
  · refine (hw₁.touches.trans (.of_held w₁ held)).mono fun z _ hz => ?_
    have hlength := hz.length_le
    rw [hlineage] at hlength
    exact hlength
  · rw [hheld] at hz
    refine (List.mem_cons.mp hz).resolve_left ?_
    rintro rfl
    rw [hlineage] at hle
    exact Nat.not_succ_le_self _ hle

/-- Holding an element and changing it leaves the scopes around it alone. -/
theorem Leaves.of_edits {w w₁ : World σ} {e : ElementId} {x : Element} (hx : w.elements.get? e.row = some x)
    (hw : Edits e { w with held := e :: w.held } w₁) :
    Leaves (Context.elements x.context).length w w₁ := by
  have hheld : Leaves (Context.elements x.context).length w { w with held := e :: w.held } :=
    ⟨.of_held w _, fun _ _ _ _ hz => List.mem_cons_of_mem _ hz⟩
  exact hheld.trans (.of_self (World.lineage_eq hx) (.of_edits hw))

/-- An element of a node looks like a picture if its attributes and its children do. -/
theorem Trunk.shows {w : World σ} {node : Node Resolver} {e : ElementId} {x : Element} {h : Headless}
    (htrunk : Trunk node x) (hx : w.elements.get? e.row = some x) (hc : x.component = .headless h)
    (hinside : ∀ c ∈ x.children, w.Inside e c) {attributes : Fields (Option String)}
    (hattributes : Fields.Related (Reads w.store) h.attributes attributes)
    {pictures : List Picture} (hpictures : ShowsAll w x.children pictures) :
    Shows w e ⟨node.tag, attributes, pictures⟩ := by
  obtain ⟨htag, hidle, -, h', hc', hmounted, -⟩ := htrunk
  obtain rfl := Component.headless.inj (hc.symm.trans hc')
  rw [Shows]
  exact ⟨x, h, hx, hc, hidle, htag, hmounted, hattributes, hinside, hpictures⟩

/-- An element of a standing tree looks like a picture if its attributes and its children do. -/
theorem Standing.shows {w : World σ} {node : Node Resolver} {e : ElementId} {x : Element} {h : Headless}
    (hstanding : Standing w node e) (hx : w.elements.get? e.row = some x) (hc : x.component = .headless h)
    {attributes : Fields (Option String)}
    (hattributes : Fields.Related (Reads w.store) h.attributes attributes)
    {pictures : List Picture} (hpictures : ShowsAll w x.children pictures) :
    Shows w e ⟨node.tag, attributes, pictures⟩ := by
  obtain ⟨y, hnursed, -, hchildren⟩ := hstanding.inspect
  obtain rfl := Option.some.inj (hx.symm.trans hnursed.get)
  exact hnursed.trunk.shows hx hc (fun c hc => hnursed.inside (hchildren.subset hc)) hattributes hpictures

theorem Standing.component {w : World σ} {node : Node Resolver} {e : ElementId} {x : Element}
    (hstanding : Standing w node e) (hx : w.elements.get? e.row = some x) :
    ∃ h, x.component = .headless h := by
  obtain ⟨y, hnursed, -⟩ := hstanding.inspect
  obtain rfl := Option.some.inj (hx.symm.trans hnursed.get)
  obtain ⟨h, hc, -⟩ := hnursed.trunk.component
  exact ⟨h, hc⟩

/-- What the directives of a node and of those below it may ask for, take for granted and call: those of
a child node nothing that the node has still to set when the children are made, and attributes that are
set once nothing at all that is bound around them. -/
inductive Node.Composed (D : Scene σ) : (bound loose : List String) → Node Resolver → Prop where
  /-- A node with its child nodes. -/
  | intro {bound loose : List String} {node : Node Resolver} : Node.LooksBack node.bind →
    (∀ entry ∈ node.bind, entry.2.Apt D (fun _ => True) (loose ++ node.dresses)) →
    (∀ child ∈ node.children, Link.Suits D node.evaluated bound (loose ++ node.dresses) child) →
    (∀ child ∈ node.children, Composed D (bound ++ node.evaluated) (loose ++ node.dresses) child) →
    Composed D bound loose node

/-- What the directives of a node and of those below it ask for, take for granted and call, where two runs
are compared in some way: less and less further down, and nothing that the elements hide if that matters. -/
inductive Node.Fitted (K : Trial σ) (D : Scene σ) : (bound loose : List String) → Node Resolver → Prop where
  /-- A node with its child nodes. -/
  | intro {bound loose : List String} {node : Node Resolver} : Node.LooksBack node.bind →
    (∀ entry ∈ node.bind, entry.2.Apt D (K.asked node) (loose ++ node.dresses)) →
    (K.veiled → ∀ name, K.asked node name → name ∉ node.reserved) →
    (∀ child ∈ node.children, ∀ name, K.asked child name → K.asked node name) →
    (∀ child ∈ node.children, Link.Fits D (K.asked node) (K.known node bound) node.evaluated
      (loose ++ node.dresses) child) →
    (∀ child ∈ node.children, Fitted K D (bound ++ node.evaluated) (loose ++ node.dresses) child) →
    Fitted K D bound loose node

/-- The comparison of two updates, the second of which goes on where the first one ends, with everything
that may be asked for. -/
def Trial.again (w : World σ) : Trial σ where
  asked _ _ := True
  veiled := False
  rerun := True
  spots := []
  left := w
  right := w
  depth := 0

theorem Node.Composed.fitted {D : Scene σ} {bound loose : List String} {node : Node Resolver}
    (h : node.Composed D bound loose) (w : World σ) : node.Fitted (.again w) D bound loose := by
  induction h with
  | intro hlooks hbind hsuits _ ih =>
    exact .intro hlooks hbind False.elim (fun _ _ _ => id) (fun child hchild => (hsuits child hchild).fits) ih

namespace Link

/-! ### How two updates begin -/

/-- A tree that two runs find, and update where it does not matter what the elements around it own. -/
structure Found (ρ : Link) (K : Trial σ) (n : Nat) (w s : World σ) (node : Node Resolver) (C C' : Context)
    (e : ElementId) : Prop where
  /-- What is asked for is hidden. -/
  veiled : K.veiled
  /-- The scopes around it are the same. -/
  context : C = C'
  /-- The trees. -/
  twin : ρ.Twin K n w s node e C
  /-- The scopes in the one world. -/
  veils : w.Veils ρ (K.asked node) C
  /-- The scopes in the other world. -/
  veils' : s.Veils ρ (K.asked node) C

/-- Trees of a node that are updated in two runs: new ones, a tree that the second run finds as the first
one leaves it, in the world `wEnd`, or one that both runs find. -/
inductive Start (ρ : Link) (K : Trial σ) (n : Nat) (D : Scene σ) (bound loose : List String)
    (w s wEnd : World σ) (node : Node Resolver) (C C' : Context) : ElementId → ElementId → Prop where
  /-- New elements. -/
  | sprout {e e' : ElementId} : ρ.Cognate w s node C C' e e' →
    Start ρ K n D bound loose w s wEnd node C C' e e'
  /-- The same tree. -/
  | again {e : ElementId} {x : Element} : K.rerun → C = C' → w.elements.get? e.row = some x →
    x.context = C → Standing w node e → ρ.diag.link.Near D (K.known node bound) loose C C w w →
    Kept ρ w node e → wEnd.Alike s e → Start ρ K n D bound loose w s wEnd node C C' e e
  /-- A tree that both runs find. -/
  | found {e : ElementId} : ρ.Found K n w s node C C' e → Start ρ K n D bound loose w s wEnd node C C' e e

section

variable {ρ ρ' : Link} {K : Trial σ} {n : Nat} {D : Scene σ} {o : Store} {bound loose : List String}
  {w w' s s' wEnd : World σ} {node : Node Resolver} {C C' : Context} {e e' c c' : ElementId}

theorem Start.get (h : Start ρ K n D bound loose w s wEnd node C C' e e') :
    ∃ x, w.elements.get? e.row = some x ∧ x.context = C := by
  cases h with
  | sprout hcognate =>
    obtain ⟨x, -, -, -, hx, -⟩ := hcognate
    exact ⟨x, hx.get, hx.context⟩
  | again _ _ hx hcontext => exact ⟨_, hx, hcontext⟩
  | found hfound => exact hfound.twin.get

theorem Start.standing (h : Start ρ K n D bound loose w s wEnd node C C' e e') : Standing w node e := by
  cases h with
  | sprout hcognate =>
    obtain ⟨x, -, -, -, hx, -⟩ := hcognate
    exact hx.standing
  | again _ _ _ _ hstanding => exact hstanding
  | found hfound => exact hfound.twin.standing

/-- The other tree, if the first run leaves its own standing. -/
theorem Start.standing_right (h : Start ρ K n D bound loose w s wEnd node C C' e e') {S : ElementId → Prop}
    (hw : Touches S w wEnd) (hend : Standing wEnd node e) :
    Standing s node e' ∧ ∃ x, s.elements.get? e'.row = some x ∧ x.context = C' := by
  cases h with
  | sprout hcognate =>
    obtain ⟨-, x', -, -, -, hx', -⟩ := hcognate
    exact ⟨hx'.standing, x', hx'.get, hx'.context⟩
  | again _ hC hx hcontext _ _ _ halike =>
    obtain ⟨y, hy, hkeep, -⟩ := hw.element e _ hx
    exact ⟨halike.standing hend, y, halike e y (.refl wEnd e) hy, hkeep.trans (hcontext.trans hC)⟩
  | found hfound => exact ⟨hfound.twin.standing', hfound.context ▸ hfound.twin.get'⟩

/-- Two trees are as they were when others have been updated. -/
theorem Start.beyond {S T : ElementId → Prop} {k : Nat} (h : Start ρ K n D bound loose w s wEnd node C C' e e')
    (hpace : Pace k ρ ρ' w w' s s') (hk : (Context.elements C).length ≤ k)
    (hgrows : K.rerun → w'.store.Grows s'.store)
    (hw : Touches S w w') (hS : ∀ z, w.Below e z → ¬ S z) (hs : Touches T s s')
    (hT : ∀ z, s.Below e' z → ¬ T z) (hend : ∃ x, wEnd.elements.get? e.row = some x) :
    Start ρ' K n D bound loose w' s' wEnd node C C' e e' := by
  cases h with
  | sprout hcognate =>
    obtain ⟨x, x', h, h', hx, hx', hc, hc', hfields⟩ :=
      hcognate.touched hw hs (hS e (.refl w e)) (hT e' (.refl s e'))
    exact .sprout ⟨x, x', h, h', hx, hx', hc, hc', hfields.mono hpace.le⟩
  | again hrerun hC hx hcontext hstanding hself hkept halike =>
    refine .again hrerun hC (hw.get? hx (hS e (.refl w e))) hcontext (hstanding.touched hw hS) ?_
      ((hkept.mono hpace.le).touched hstanding hw hS)
      (halike.later hs fun y x hy hx => hT y (halike.below_right hend hy hx))
    exact hself.diag_pace hpace.le hpace.stores (hgrows hrerun) (hpace.left.mono hk)
  | found hfound =>
    exact .found ⟨hfound.veiled, hfound.context, hfound.twin.touched hpace.le hw hS hs hT,
      (hfound.veils.leaves hpace.left hk).mono hpace.le fun _ => id,
      (hfound.veils'.leaves hpace.right hk).mono hpace.le fun _ => id⟩

/-- What there is after trees have been updated in two runs: they look alike. -/
def Concurs (ρ : Link) (o : Store) (e e' : ElementId) (w' s' : World σ) : Prop :=
  ∃ ρ' picture, ρ ≤ ρ' ∧ ρ'.Stores w'.store s'.store ∧ ρ'.Straddles o ∧ Shows w' e picture ∧
    Shows s' e' picture

/-- Trees of a node that are updated in one run are updated in another one, and look alike then. -/
def Recurs (enter : Enter σ) (K : Trial σ) (n : Nat) (D : Scene σ) (bound loose : List String)
    (node : Node Resolver) : Prop :=
  ∀ ⦃ρ : Link⦄ ⦃o : Store⦄ ⦃w w' s : World σ⦄ ⦃C C' : Context⦄ ⦃e e' : ElementId⦄,
    ρ.Near D (K.asked node) loose C C' w s → ρ.Straddles o → o.Grows s.store →
    ρ.Start K n D bound loose w s w' node C C' e e' →
    (Act.enterUpdate e).runIn enter w = (some (.ok ()), w') → (K.rerun → w'.store.Grows o) →
    ∃ s', (Act.enterUpdate e').runIn enter s = (some (.ok ()), s') ∧ ρ.Concurs o e e' w' s'

/-- A tree that is updated looks no different to the second run if others are updated after it. -/
theorem Start.until {S : ElementId → Prop} {w₁ : World σ}
    (h : Start ρ K n D bound loose w s wEnd node C C' e e')
    (he : ∃ x, w₁.elements.get? e.row = some x) (hw : Touches S w₁ wEnd) (hS : ∀ z, w₁.Below e z → ¬ S z) :
    Start ρ K n D bound loose w s w₁ node C C' e e' := by
  cases h with
  | sprout hcognate => exact .sprout hcognate
  | again hrerun hC hx hcontext hstanding hself hkept halike =>
    exact .again hrerun hC hx hcontext hstanding hself hkept (halike.before he hw hS)
  | found hfound => exact .found hfound

/-- Children of two elements that are about to be updated. -/
def Begins (ρ : Link) (K : Trial σ) (n : Nat) (D : Scene σ) (bound loose : List String) (w s wEnd : World σ)
    (node : Node Resolver) (e e' : ElementId) (C C' : Context) (c c' : ElementId) : Prop :=
  ∃ child ∈ node.children, ∃ context context', ρ.Fronts e e' C C' context context' ∧
    ρ.Start K n D bound loose w s wEnd child context context' c c'

end

section

variable {ρ : Link} {K : Trial σ} {n : Nat} {D : Scene σ} {o : Store} {bound loose : List String}
  {w w₁ s s₁ wEnd : World σ} {node : Node Resolver} {e e' c : ElementId} {x x' : Element}
  {enter : Enter σ} {es es' held held' : List ElementId} {m m' : Nat}

/-- Two elements whose children are updated one after the other: some of them are still to come. -/
structure Descends (ρ : Link) (K : Trial σ) (n : Nat) (D : Scene σ) (o : Store) (bound loose : List String)
    (w s wEnd : World σ) (node : Node Resolver) (e e' : ElementId) (x x' : Element)
    (es es' held held' : List ElementId) : Prop where
  /-- The one tree. -/
  standing : Standing w node e
  /-- The other tree. -/
  standing' : Standing s node e'
  /-- The one element. -/
  get : w.elements.get? e.row = some x
  /-- The other element. -/
  get' : s.elements.get? e'.row = some x'
  /-- The children of the one. -/
  subset : es ⊆ x.slots.flatMap Slot.elements
  /-- The children of the other. -/
  subset' : es' ⊆ x'.slots.flatMap Slot.elements
  /-- None of them is there twice. -/
  nodup : es.Nodup
  /-- None of them is there twice. -/
  nodup' : es'.Nodup
  /-- They are held. -/
  holds : w.held = es ++ held
  /-- They are held. -/
  holds' : s.held = es' ++ held'
  /-- The elements as scopes. -/
  near : ∀ m m', ρ.Near D (K.asked node) loose (.object (.scope m e) :: x.context)
    (.object (.scope m' e') :: x'.context) w s
  /-- Where the second run begins. -/
  straddles : ρ.Straddles o
  /-- The second run goes on. -/
  later : o.Grows s.store
  /-- The children are about to be updated. -/
  begins : List.Forall₂ (ρ.Begins K n D bound loose w s wEnd node e e' x.context x'.context) es es'

/-- A child is updated in either run. -/
theorem Descends.step {c' : ElementId} (hstays : ∀ child ∈ node.children, Stays enter child)
    (hless : ∀ child ∈ node.children, ∀ name, K.asked child name → K.asked node name)
    (hrecurs : ∀ child ∈ node.children, Recurs enter K n D bound loose child)
    (h : Descends ρ K n D o bound loose w s wEnd node e e' x x' (c :: es) (c' :: es') held held')
    (hupdate : (Act.enterUpdate c).runIn enter w = (some (.ok ()), w₁))
    (hrun : (Act.updateAll es).runIn enter { w₁ with held := es ++ held } = (some (.ok ()), wEnd))
    (ho : K.rerun → wEnd.store.Grows o) :
    ∃ s₁, (Act.enterUpdate c').runIn enter s = (some (.ok ()), s₁) ∧ s₁.held = c' :: (es' ++ held') ∧
      ∃ ρ' picture, ρ ≤ ρ' ∧ Shows wEnd c picture ∧ Shows s₁ c' picture ∧
        Descends ρ' K n D o bound loose { w₁ with held := es ++ held } { s₁ with held := es' ++ held' } wEnd
          node e e' x x' es es' held held' := by
  obtain ⟨hc, hes⟩ := List.cons_subset.mp h.subset
  obtain ⟨hc', hes'⟩ := List.cons_subset.mp h.subset'
  obtain ⟨hnot, hnodup⟩ := List.nodup_cons.mp h.nodup
  obtain ⟨hnot', hnodup'⟩ := List.nodup_cons.mp h.nodup'
  obtain ⟨hbegin, hbegins⟩ := List.forall₂_cons.mp h.begins
  obtain ⟨child, hchild, context, context', hfronts, hstart⟩ := hbegin
  have hdown := h.standing.descend hstays h.get hc h.holds hupdate
  have hends := (hdown.standing.updateAll hstays hdown.get hes rfl hrun).1.touches.swap_held w₁.held
  have hlater : ∀ z, w₁.Below c z → ¬ w₁.BelowAny es z := fun z hz ⟨c₂, hc₂, hz₂⟩ =>
    (hdown.standing.apart hdown.get hc (hes hc₂) (fun heq => hnot (heq ▸ hc₂)) hz) hz₂
  obtain ⟨z, hz, -⟩ := hstart.get
  obtain ⟨z₁, hz₁, -⟩ := hdown.touches.element c z hz
  obtain ⟨s₁, hupdate', ρ', picture, hle, hstores, hstraddles, hshows, hshows'⟩ :=
    hrecurs child hchild (((h.near 0 0).fronts hfronts).mono (hless child hchild) (List.Subset.refl _))
      h.straddles h.later (hstart.until ⟨z₁, hz₁⟩ hends hlater) hupdate
      fun hrerun => hends.store.trans (ho hrerun)
  have hdown' := h.standing'.descend hstays h.get' hc' h.holds' hupdate'
  have hpace : Pace (e :: Context.elements x.context).length ρ ρ' w { w₁ with held := es ++ held } s
      { s₁ with held := es' ++ held' } :=
    ⟨hle, hstores, hdown.leaves, by
      have hlength : (e :: Context.elements x.context).length = (e' :: Context.elements x'.context).length :=
        (h.near 0 0).contexts.length_eq
      rw [hlength]
      exact hdown'.leaves⟩
  refine ⟨s₁, hupdate', hdown'.holds, ρ', picture, hle, hshows.touched hends hlater picture, hshows',
    hdown.standing, hdown'.standing, hdown.get, hdown'.get, hes, hes', hnodup, hnodup', rfl, rfl,
    fun m m' => (h.near m m').pace hpace, hstraddles, h.later.trans hdown'.touches.store, ?_⟩
  have hmem := (List.forall₂_and_left (p := (· ∈ es)) _ _).mpr ⟨fun _ => id, forall₂_mem_right hbegins⟩
  refine hmem.imp ?_
  rintro c₂ c₂' ⟨hc₂, ⟨other, hother, C, C', hfronts₂, hstart₂⟩, hc₂'⟩
  refine ⟨other, hother, C, C', hfronts₂.mono hle, ?_⟩
  obtain ⟨y, hy, -⟩ := hstart₂.get
  obtain ⟨y₁, hy₁, -⟩ := hdown.touches.element c₂ y hy
  obtain ⟨y₂, hy₂, -⟩ := hends.element c₂ y₁ hy₁
  refine hstart₂.beyond hpace (congrArg List.length hfronts₂.elements_eq.1).le ?_
    (hdown.touches.trans (.of_held w₁ _)) (fun z hz => ?_) (hdown'.touches.trans (.of_held s₁ _))
    (fun z hz => ?_) ⟨y₂, hy₂⟩
  · exact fun hrerun => (hends.store.trans (ho hrerun)).trans (h.later.trans hdown'.touches.store)
  · exact h.standing.apart h.get (hes hc₂) hc (fun heq => hnot (heq ▸ hc₂)) hz
  · exact h.standing'.apart h.get' (hes' hc₂') hc' (fun heq => hnot' (heq ▸ hc₂')) hz

/-- Children that are updated one after the other in the first run are updated in the second one. -/
theorem Descends.updateAll (hstays : ∀ child ∈ node.children, Stays enter child)
    (hless : ∀ child ∈ node.children, ∀ name, K.asked child name → K.asked node name)
    (hrecurs : ∀ child ∈ node.children, Recurs enter K n D bound loose child)
    (h : Descends ρ K n D o bound loose w s wEnd node e e' x x' es es' held held')
    (hrun : (Act.updateAll es).runIn enter w = (some (.ok ()), wEnd)) (ho : K.rerun → wEnd.store.Grows o) :
    ∃ s', (Act.updateAll es').runIn enter s = (some (.ok ()), s') ∧
      ∃ ρ' pictures, ρ ≤ ρ' ∧ ρ'.Stores wEnd.store s'.store ∧ ρ'.Straddles o ∧ ShowsAll wEnd es pictures ∧
        ShowsAll s' es' pictures := by
  induction es generalizing ρ w s es' with
  | nil =>
    obtain rfl := List.forall₂_nil_left_iff.mp h.begins
    cases hrun
    exact ⟨s, rfl, ρ, [], ρ.le_refl, (h.near 0 0).worlds.stores, h.straddles, trivial, trivial⟩
  | cons c es ih =>
    obtain ⟨c', es', -, -, rfl⟩ := List.forall₂_cons_left_iff.mp h.begins
    obtain ⟨w₁, hupdate, hrun⟩ := Act.runIn_updateAll_cons_eq_ok hrun
    have hdown := h.standing.descend hstays h.get (h.subset List.mem_cons_self) h.holds hupdate
    rw [hdown.holds, List.erase_cons_head] at hrun
    obtain ⟨s₁, hupdate', hheld', ρ₁, picture, hle, hshows, hshows', hnext⟩ :=
      h.step hstays hless hrecurs hupdate hrun ho
    obtain ⟨s', hrun', ρ', pictures, hle', hstores, hstraddles, hall, hall'⟩ := ih hnext hrun
    have hends := (hnext.standing'.updateAll hstays hnext.get' hnext.subset' hnext.holds' hrun').1
    have hlater : ∀ z, s₁.Below c' z → ¬ s₁.BelowAny es' z := fun z hz ⟨c₂, hc₂, hz₂⟩ =>
      hnext.standing'.apart hnext.get' (h.subset' List.mem_cons_self) (hnext.subset' hc₂)
        (fun heq => (List.nodup_cons.mp h.nodup').1 (heq ▸ hc₂)) hz hz₂
    refine ⟨s', ?_, ρ', picture :: pictures, Link.le_trans hle hle', hstores, hstraddles, ⟨hshows, hall⟩,
      hshows'.touched (hends.touches.swap_held s₁.held) hlater picture, hall'⟩
    rw [Act.runIn_updateAll_cons hupdate', hheld', List.erase_cons_head]
    exact hrun'

end

/-! ### Two elements that begin an update -/

section

variable {ρ : Link} {K : Trial σ} {n : Nat} {D : Scene σ} {o : Store} {bound loose : List String}
  {w w₁ w' s s₁ : World σ} {node : Node Resolver} {e e' : ElementId} {x x' : Element} {h h' : Headless}
  {slots : List Slot} {written : List (String × Value)}

/-- How two updates begin decides how the runs come to the elements. -/
structure Begun (ρ : Link) (K : Trial σ) (n : Nat) (D : Scene σ) (o : Store) (bound loose : List String)
    (w s wEnd : World σ) (node : Node Resolver) (e e' : ElementId) (x x' : Element) (h h' : Headless)
    (filled : List Slot) (written : List (String × Value)) (meeting : Meeting) : Prop where
  /-- The elements. -/
  attends : Attends ρ K n meeting D o loose w s node e e' (x.opened h) (x'.opened h') h.clear h'.clear
  /-- Their slots. -/
  opening : Opening ρ K n meeting D bound loose w s node e e' (x.opened h) (x'.opened h') h.clear x.slots
    filled x'.slots
  /-- The names of their attributes. -/
  keys : h'.attributes.keys = h.attributes.keys ∨ h'.attributes = h.attributes.putAll written
  /-- The second run goes on. -/
  resumed : meeting = .resumed → K.rerun ∧
    Again ρ K D bound loose w node e e' (x.opened h) (x'.opened h') h.clear ∧
      ∀ c, wEnd.Inside e c → wEnd.Alike s c
  /-- Both runs find the element. -/
  found : meeting = .found → K.veiled ∧ e' = e ∧ x'.context = x.context ∧
    w.Veils ρ (K.asked node) x.context ∧ s.Veils ρ (K.asked node) x.context

/-- Two updates that have come to their elements: these are held, and what they show is put away. -/
structure Entered (ρ : Link) (K : Trial σ) (D : Scene σ) (o : Store) (loose : List String)
    (w w₁ s s₁ : World σ) (node : Node Resolver) (e e' : ElementId) (x x' : Element) (h h' : Headless) :
    Prop where
  /-- The scopes around them. -/
  near : ρ.Near D (K.asked node) loose x.context x'.context w s
  /-- Where the second run begins. -/
  straddles : ρ.Straddles o
  /-- The second run goes on. -/
  later : o.Grows s.store
  /-- The one element. -/
  get : w.elements.get? e.row = some x
  /-- The other element. -/
  get' : s.elements.get? e'.row = some x'
  /-- The component of the one element. -/
  component : x.component = .headless h
  /-- The component of the other element. -/
  component' : x'.component = .headless h'
  /-- The one element is held. -/
  edits : Edits e { w with held := e :: w.held } w₁
  /-- The other element is held. -/
  edits' : Edits e' { s with held := e' :: s.held } s₁
  /-- What is left of the one element. -/
  opened : Nursed w₁ node e (x.opened h)
  /-- What is left of the other element. -/
  opened' : Nursed s₁ node e' (x'.opened h')

/-- What is looked up among attributes that stand for themselves stands for itself. -/
theorem rel_self {attributes : ReactiveViews.Fields Value} {names : List String}
    (hown : ∀ name v, name ∉ names → attributes.get? name = some v → ρ.Values v v) {name : String}
    (hname : name ∉ names) : Option.Rel ρ.Values (attributes.get? name) (attributes.get? name) := by
  have hvalue := hown name
  revert hvalue
  cases attributes.get? name with
  | none => exact fun _ => .none
  | some v => exact fun hvalue => .some (hvalue v hname rfl)

section Entered

variable (hentered : Entered ρ K D o loose w w₁ s s₁ node e e' x x' h h')
include hentered

theorem Entered.pace : Pace (Context.elements x.context).length ρ ρ w w₁ s s₁ :=
  .of_leaves hentered.near.worlds.stores (.of_edits hentered.get hentered.edits)
    (hentered.near.contexts.length_eq ▸ .of_edits hentered.get' hentered.edits')

theorem Entered.touches : Touches (· = e) w w₁ := (Touches.of_held w _).trans hentered.edits.touches

theorem Entered.touches' : Touches (· = e') s s₁ := (Touches.of_held s _).trans hentered.edits'.touches

/-- The updaters can run, whichever way the runs come to the elements. -/
theorem Entered.attends (n : Nat) (meeting : Meeting) (hsame : ∀ name, name ∉ node.bind.map (·.1) →
    Option.Rel ρ.Values (h.attributes.get? name) (h'.attributes.get? name)) :
    Attends ρ K n meeting D o (loose ++ node.dresses) w₁ s₁ node e e' (x.opened h) (x'.opened h') h.clear
      h'.clear :=
  ⟨hentered.opened, hentered.opened', rfl, rfl, hentered.edits.held ▸ List.mem_cons_self,
    hentered.edits'.held ▸ List.mem_cons_self, List.subset_append_right _ _,
    (hentered.near.pace hentered.pace).mono (fun _ => id) (List.subset_append_left _ _), hsame,
    hentered.straddles, hentered.later.trans hentered.pace.right.store, List.nil_prefix, List.nil_prefix, .nil⟩

/-- Two new elements own and remember the same. -/
theorem Entered.made (n : Nat) (bound : List String) (w' : World σ) (slots : List Slot)
    (written : List (String × Value)) (hcognate : ρ.Cognate w s node x.context x'.context e e') :
    Begun ρ K n D o bound (loose ++ node.dresses) w₁ s₁ w' node e e' x x' h h' slots written .made := by
  obtain ⟨y, y', k, k', hy, hy', hk, hk', hfields⟩ := hcognate
  obtain rfl := Option.some.inj (hentered.get.symm.trans hy.get)
  obtain rfl := Option.some.inj (hentered.get'.symm.trans hy'.get)
  obtain rfl := Component.headless.inj (hentered.component.symm.trans hk)
  obtain rfl := Component.headless.inj (hentered.component'.symm.trans hk')
  refine ⟨hentered.attends n .made fun name _ => hfields.get? name, ?_, .inl ?_, fun heq => by (cases heq),
    fun heq => by (cases heq)⟩
  · rw [hy'.slots, hy.slots]
    refine .same (fun slot hslot => ?_) fun slot hslot c hc => ?_
    · obtain ⟨child, -, rfl⟩ := List.mem_map.mp hslot
      exact recalls_fresh ρ e e' _ _ child
    · obtain ⟨child, -, rfl⟩ := List.mem_map.mp hslot
      rw [Slot.elements_fresh] at hc
      cases hc
  · exact (ReactiveViews.Fields.Related.keys_eq hfields).symm

/-- Both runs find an element that owns and remembers the same in either. -/
theorem Entered.found (bound : List String) (w' : World σ) (slots : List Slot) (written : List (String × Value))
    (hspot : e ∉ K.spots) (hfound : ρ.Found K n w s node x.context x'.context e) (hsame : e' = e) :
    Begun ρ K (n - 1) D o bound (loose ++ node.dresses) w₁ s₁ w' node e e' x x' h h' slots written .found := by
  subst hsame
  obtain ⟨hveiled, -, htwin, hveils, hveils'⟩ := hfound
  have hout : ¬ w.BelowAny K.spots e' := fun ⟨b, hb, hbelow⟩ => hspot (htwin.outer b hb hbelow ▸ hb)
  obtain ⟨hx'', howns⟩ := htwin.alike e' x (.refl e') hout hentered.get
  obtain rfl := Option.some.inj (hentered.get'.symm.trans hx'')
  obtain rfl := Component.headless.inj (hentered.component.symm.trans hentered.component')
  obtain ⟨y, hnursed, hupdater, -⟩ := htwin.standing.inspect
  obtain rfl := Option.some.inj (hentered.get.symm.trans hnursed.get)
  obtain ⟨y, hnursed', -⟩ := htwin.standing'.inspect
  obtain rfl := Option.some.inj (hentered.get'.symm.trans hnursed'.get)
  have hown := howns.attributes h node .headless hentered.component hupdater
  refine ⟨hentered.attends (n - 1) .found fun _ => rel_self hown,
    .same (fun slot hslot last hlast => ?_) fun slot hslot c hc => ?_, .inl rfl, fun heq => by (cases heq),
    fun _ => ⟨hveiled, rfl, rfl, hveils.leaves hentered.pace.left (Nat.le_refl _),
      hveils'.leaves hentered.pace.right (Nat.le_refl _)⟩⟩
  · have hretains := howns.lists slot hslot last hlast
    exact ⟨last, hlast, hretains.list, List.forall₂_same.mpr hretains.contexts⟩
  · obtain ⟨y, hy, hfronts, hchild⟩ := htwin.child hspot hentered.get hslot hc
    have hmem := List.mem_flatMap.mpr ⟨slot, hslot, hc⟩
    refine ⟨rfl, y, hentered.touches.get? hy ?_, hfronts,
      hchild.touched ρ.le_refl hentered.touches ?_ hentered.touches' ?_⟩
    · rintro rfl
      exact (hnursed.inside hmem).not_below (.refl w c)
    · rintro z hz rfl
      exact (hnursed.inside hmem).not_below hz
    · rintro z hz rfl
      exact (hnursed'.inside hmem).not_below hz

end Entered

/-- The second run finds the element as the first one leaves it. -/
theorem Entered.resumed (hentered : Entered ρ K D o loose w w₁ s s₁ node e e x x' h h') (n : Nat)
    (hrerun : K.rerun) (hstanding : Standing w node e)
    (hdiag : ρ.diag.link.Near D (K.known node bound) loose x.context x.context w w) (hkept : Kept ρ w node e)
    (halike : w'.Alike s e) (hend : w'.elements.get? e.row = some (x.refreshed node h slots written))
    (hnames : written.map (·.1) = node.bind.map (·.1)) (ho : w₁.store.Grows o) :
    Begun ρ K n D o bound (loose ++ node.dresses) w₁ s₁ w' node e e x x' h h' slots written .resumed := by
  have hpace := hentered.pace
  obtain rfl := Option.some.inj (hentered.get'.symm.trans (halike e _ (.refl w' e) hend))
  obtain rfl := Component.headless.inj hentered.component'
  obtain ⟨y, k, hy, hk, hown, hhoards⟩ := hkept.inspect
  obtain rfl := Option.some.inj (hentered.get.symm.trans hy)
  obtain rfl := Component.headless.inj (hentered.component.symm.trans hk)
  obtain ⟨y, hnursed, -⟩ := hstanding.inspect
  obtain rfl := Option.some.inj (hentered.get.symm.trans hnursed.get)
  have hdiag₁ : ρ.diag.link.Near D (K.known node bound) (loose ++ node.dresses) x.context x.context w₁ w₁ :=
    (hdiag.mono (fun _ => id) (List.subset_append_left _ _)).diag_pace ρ.le_refl hpace.stores
      (ho.trans (hentered.later.trans hpace.right.store)) hpace.left
  have hagain : Again ρ K D bound (loose ++ node.dresses) w₁ node e e (x.opened h)
      ((x.refreshed node h slots written).opened (h.filled slots written)) h.clear :=
    ⟨rfl, rfl, hdiag₁, hown⟩
  refine ⟨hentered.attends n .resumed fun name hname => ?_,
    .resumed rfl hrerun hagain fun slot hslot => ?_, .inr rfl, fun _ => ⟨hrerun, hagain, fun c hc => ?_⟩,
    fun heq => by (cases heq)⟩
  · rw [h.get?_filled slots (hnames ▸ hname)]
    exact rel_self hown hname
  · refine (hhoards slot hslot).touched (hnursed.limbs slot hslot) ρ.le_refl hentered.touches
      fun c hc z hz => ?_
    rintro rfl
    exact (hnursed.inside (List.mem_flatMap.mpr ⟨slot, hslot, hc⟩)).not_below hz
  · refine (halike.below hc.below).later hentered.touches' ?_
    rintro y z hbelow - rfl
    exact hc.not_below hbelow

/-- Trees that are updated in two runs are met in one of the three ways. -/
theorem Start.begun (hentered : Entered ρ K D o loose w w₁ s s₁ node e e' x x' h h')
    (hstart : ρ.Start K n D bound loose w s w' node x.context x'.context e e')
    (hspot : e ∈ K.spots → e' = e → ¬ ρ.Found K n w s node x.context x'.context e)
    (hend : w'.elements.get? e.row = some (x.refreshed node h slots written))
    (hnames : written.map (·.1) = node.bind.map (·.1)) (ho : K.rerun → w₁.store.Grows o) :
    ∃ meeting, Begun ρ K (n - 1) D o bound (loose ++ node.dresses) w₁ s₁ w' node e e' x x' h h' slots written
      meeting := by
  cases hstart with
  | sprout hcognate => exact ⟨.made, hentered.made _ bound w' slots written hcognate⟩
  | again hrerun _ hy hcontext hstanding hdiag hkept halike =>
    exact ⟨.resumed, hentered.resumed _ hrerun hstanding hdiag hkept halike hend hnames (ho hrerun)⟩
  | found hfound =>
    exact ⟨.found, hentered.found bound w' slots written (fun hmem => hspot hmem rfl hfound) hfound rfl⟩

/-- New children are about to be updated. -/
theorem Offspring.begins {child : Node Resolver} {c c' : ElementId} {C C' : Context}
    (hoffspring : ρ.Offspring w s child e e' C C' c c') (hchild : child ∈ node.children)
    (hadvances : Advances ρ ρ w w₁ s s₁) :
    ρ.Begins K n D bound loose w₁ s₁ w' node e e' C C' c c' := by
  obtain ⟨context, context', hfronts, hcognate⟩ := hoffspring
  exact ⟨child, hchild, context, context', hfronts, .sprout (hcognate.advance hadvances)⟩

section Children

variable {meeting : Meeting} {child : Node Resolver} {c : ElementId}

/-- The children of two elements are held. -/
theorem Attends.holds (hattends : Attends ρ K n meeting D o loose w s node e e' x x' h h') :
    Advances ρ ρ w { w with held := x.children ++ w.held } s { s with held := x'.children ++ s.held } :=
  ⟨.of_touches hattends.near.worlds.stores (.of_held w _) (.of_held s _), List.subset_append_right _ _,
    List.subset_append_right _ _⟩

/-- A child is about to be updated that the second run goes on with. -/
theorem Attends.begins_resumed (hattends : Attends ρ K n meeting D o loose w s node e e' x x' h h')
    (hchild : child ∈ node.children) (hless : ∀ name, K.asked child name → K.asked node name)
    (hrerun : K.rerun) (hself : Again ρ K D bound loose w node e e' x x' h) (hstanding : Standing w child c)
    (hkept : Kept ρ w child c) {z : Element} (hz : w.elements.get? c.row = some z)
    (hfronts : ρ.Fronts e e' x.context x'.context z.context z.context) (halike : w'.Alike s c) :
    ρ.Begins K n D (bound ++ node.evaluated) loose { w with held := x.children ++ w.held }
      { s with held := x'.children ++ s.held } w' node e e' x.context x'.context c c := by
  have hdiag : ρ.diag.link.Fronts e e x.context x.context z.context z.context := by
    rw [hself.same, hself.context] at hfronts
    exact hfronts.transfer fun v hv => hv.diag
  have hasked : ∀ name, K.known child (bound ++ node.evaluated) name →
      Uncovered (K.known node bound) node.evaluated name := fun name hname =>
    ⟨⟨hless name hname.1, fun hbound => hname.2 (List.mem_append_left _ hbound)⟩,
      fun _ hmem => hname.2 (List.mem_append_right _ hmem)⟩
  have hnear := ((hself.self.front (hself.kin hattends) 0 0 hattends.left.lineage
    hattends.left.lineage).mono hasked (List.Subset.refl _)).fronts hdiag
  have hw : Touches (fun _ => False) w { w with held := x.children ++ w.held } := .of_held w _
  have hheld : Advances ρ.diag.link ρ.diag.link w { w with held := x.children ++ w.held } w
      { w with held := x.children ++ w.held } :=
    ⟨.of_touches hself.self.worlds.stores hw hw, List.subset_append_right _ _, List.subset_append_right _ _⟩
  exact ⟨child, hchild, z.context, z.context, hfronts, .again hrerun rfl hz rfl (hstanding.untouched hw)
    (hnear.advance hheld) (hkept.touched hstanding hw fun _ _ => id)
    (halike.later (Touches.of_held s _) fun _ _ _ _ => id)⟩

/-- A child is about to be updated that both runs find. -/
theorem Attends.begins_found (hattends : Attends ρ K n meeting D o loose w s node e e' x x' h h')
    (hchild : child ∈ node.children) (hless : ∀ name, K.asked child name → K.asked node name)
    (hreserved : ∀ name, K.asked node name → name ∉ node.reserved) (hveiled : K.veiled)
    (hsame : e' = e) (hC : x'.context = x.context) (hveils : w.Veils ρ (K.asked node) x.context)
    (hveils' : s.Veils ρ (K.asked node) x.context)
    (hshared : ρ.Shared K n w s child e e' x.context x'.context c) :
    ρ.Begins K n D bound loose { w with held := x.children ++ w.held }
      { s with held := x'.children ++ s.held } w' node e e' x.context x'.context c c := by
  subst hsame
  obtain ⟨y, hy, hfronts, htwin⟩ := hshared
  have hfronts' : ρ.Fronts e' e' x.context x.context y.context y.context := hC ▸ hfronts
  have hhides := fun name (hname : K.asked child name) =>
    hattends.left.trunk.hides hattends.left.get (hreserved name (hless name hname))
  have hhides' := fun name (hname : K.asked child name) =>
    hattends.right.trunk.hides hattends.right.get (hreserved name (hless name hname))
  have hpace := hattends.holds.pace
  refine ⟨child, hchild, y.context, y.context, hfronts, .found ⟨hveiled, rfl,
    htwin.touched ρ.le_refl (Touches.of_held w _) (fun _ _ => id) (Touches.of_held s _) fun _ _ => id,
    ?_, ?_⟩⟩
  · exact ((hveils.mono ρ.le_refl hless).front hattends.left.get hhides hfronts').leaves (hpace _).left
      (Nat.le_refl _)
  · refine World.Veils.leaves ?_ (hpace _).right (Nat.le_refl _)
    rw [← hC] at hveils' hfronts'
    exact (hveils'.mono ρ.le_refl hless).front hattends.right.get hhides' hfronts'

/-- When the updaters of two elements have run, their children are about to be updated. -/
theorem Meets.descends (hmeets : Meets ρ K n meeting D o loose w s node e e' x x' h h')
    (w' : World σ) (hstanding : Standing w node e) (hstanding' : Standing s node e')
    (hless : ∀ child ∈ node.children, ∀ name, K.asked child name → K.asked node name)
    (hveil : K.veiled → ∀ name, K.asked node name → name ∉ node.reserved)
    (hresumed : meeting = .resumed → K.rerun ∧
      Again ρ K D bound loose w node e e' x x' h ∧ ∀ c, w.Inside e c → w'.Alike s c)
    (hfound : meeting = .found → K.veiled ∧ e' = e ∧ x'.context = x.context ∧
      w.Veils ρ (K.asked node) x.context ∧ s.Veils ρ (K.asked node) x.context) :
    Descends ρ K n D o (bound ++ node.evaluated) loose { w with held := x.children ++ w.held }
      { s with held := x'.children ++ s.held } w' node e e' x x' x.children x'.children w.held s.held := by
  have hattends := hmeets.toAttends
  have hnodup := hattends.left.nodup.sublist hattends.shown.sublist
  have hnodup' := hattends.right.nodup.sublist hattends.shown'.sublist
  have hkin : ρ.Kin w s (Uncovered (K.asked node) []) loose e e' x x' h h' :=
    { hattends.kin with same := fun name _ _ => hmeets.all name }
  refine ⟨hstanding.untouched (.of_held w _), hstanding'.untouched (.of_held s _), hattends.left.get,
    hattends.right.get, hattends.shown.subset, hattends.shown'.subset, hnodup, hnodup', rfl, rfl,
    fun m m' => ?_, hattends.straddles, hattends.later, ?_⟩
  · refine ((hattends.near.front hkin m m' hattends.left.lineage hattends.right.lineage).mono
      (fun name hname => ⟨hname, fun _ => List.not_mem_nil⟩) (List.Subset.refl _)).advance hattends.holds
  · refine hattends.pairs.imp ?_
    rintro c c' ⟨child, hchild, hmade | ⟨hyes, hbonded⟩ | ⟨hyes, rfl, hshared⟩⟩
    · exact hmade.begins hchild hattends.holds
    · obtain ⟨hrerun, hself, halike⟩ := hresumed hyes
      have hinside := hbonded.inside hattends.left.lineage
      cases hbonded with
      | made hmade => exact hmade.begins hchild hattends.holds
      | kept _ _ hstanding hkept hz hfronts =>
        exact hattends.begins_resumed hchild (hless child hchild) hrerun hself hstanding hkept hz hfronts
          (halike c hinside)
    · obtain ⟨hveiled, hsame, hC, hveils, hveils'⟩ := hfound hyes
      exact hattends.begins_found hchild (hless child hchild) (hveil hveiled) hveiled hsame hC hveils hveils'
        hshared

end Children

end

/-! ### What there is to see in both worlds -/

/-- The link the other way round. -/
def symm (ρ : Link) : Link where
  arrays a b := ρ.arrays b a
  records r q := ρ.records q r
  arrays_iff hab hab' := (ρ.arrays_iff hab hab').symm
  records_iff hrq hrq' := (ρ.records_iff hrq hrq').symm

section

variable {ρ : Link} {s s' : Store} {v v' : Value}

theorem Values.symm (h : ρ.Values v v') : ρ.symm.Values v' v := by
  cases h with
  | plain hplain => exact .plain hplain
  | array hab => exact .array hab
  | record hrq => exact .record hrq

theorem Stores.symm (h : ρ.Stores s s') : ρ.symm.Stores s' s where
  arrays hab := by
    obtain ⟨ha, hb, hitems⟩ := h.arrays hab
    exact ⟨hb, ha, hitems.flip.imp fun _ _ hv => hv.symm⟩
  records hrq := by
    obtain ⟨hr, hq, hfields⟩ := h.records hrq
    exact ⟨hq, hr, hfields.flip.imp fun _ _ hv => ⟨hv.1.symm, hv.2.symm⟩⟩

/-- Linked attributes have the same texts. -/
theorem Fields.exists_reads (hstores : ρ.Stores s s') {fields fields' : ReactiveViews.Fields Value}
    (h : ρ.Fields fields fields') :
    ∃ drawn, ReactiveViews.Fields.Related (Reads s) fields drawn ∧
      ReactiveViews.Fields.Related (Reads s') fields' drawn := by
  induction h with
  | nil => exact ⟨[], .nil, .nil⟩
  | @cons x y _ _ hxy _ ih =>
    obtain ⟨drawn, hdrawn, hdrawn'⟩ := ih
    refine ⟨(x.1, s.text x.2) :: drawn, .cons ⟨rfl, ?_⟩ hdrawn, .cons ⟨hxy.1.symm, ?_⟩ hdrawn'⟩
    · exact ⟨ρ, s', y.2, hstores, hxy.2, (hstores.text_eq hxy.2).symm⟩
    · exact ⟨ρ.symm, s, x.2, hstores.symm, hxy.2.symm, rfl⟩

end

section

variable {ρ : Link} {K : Trial σ} {n : Nat} {D : Scene σ} {o : Store} {bound loose : List String}
  {w w₁ w' s s₁ s' : World σ} {node : Node Resolver} {e e' : ElementId} {x x' : Element} {h h' : Headless}
  {slots : List Slot} {written : List (String × Value)} {enter : Enter σ}

/-- **Updates.** If a tree is updated in one run, it is updated in another one that begins with a new
element as well, goes on where the first run ends, or finds the tree as the first one does; and the trees
look alike. -/
theorem update_recurs {C C' : Context} (hinnocent : Innocent D enter) (hharmless : Harmless enter)
    (hfitted : node.Fitted K D bound loose) (hstays : ∀ child ∈ node.children, Stays enter child)
    (hrecurs : ∀ child ∈ node.children,
      Recurs enter K (n - 1) D (bound ++ node.evaluated) (loose ++ node.dresses) child)
    (hnear : ρ.Near D (K.asked node) loose C C' w s) (hstraddles : ρ.Straddles o)
    (hlater : o.Grows s.store) (hstart : ρ.Start K n D bound loose w s w' node C C' e e')
    (hspot : e ∈ K.spots → e' = e → ¬ ρ.Found K n w s node C C' e)
    (hrun : (Act.update e).runIn enter w = (some (.ok ()), w')) (ho : K.rerun → w'.store.Grows o) :
    ∃ s', (Act.update e').runIn enter s = (some (.ok ()), s') ∧ ρ.Concurs o e e' w' s' := by
  have hstanding := hstart.standing
  obtain ⟨x, hx, rfl⟩ := hstart.get
  obtain ⟨hproceeds, hend⟩ := hstanding.update hharmless hstays hrun
  obtain ⟨hstanding', x', hx', rfl⟩ := hstart.standing_right hproceeds.touches hend
  obtain ⟨h, hc⟩ := hstanding.component hx
  obtain ⟨h', hc'⟩ := hstanding'.component hx'
  obtain ⟨m, slots, written, w₁, w₂, w₃, w₄, w₅, hw₁, h₁, hlap, hchildren, rfl⟩ :=
    hstanding.lap hharmless hx hc hrun
  obtain ⟨m', s₁, hs₁, h₁', heq'⟩ := hstanding'.runIn_update enter hx' hc'
  obtain ⟨hw₅, hstanding₅, hx₅⟩ := hlap.after hstays hchildren
  have ho₄ : K.rerun → w₄.store.Grows o := fun hrerun => hw₅.store.trans (ho hrerun)
  have ho₁ : K.rerun → w₁.store.Grows o := fun hrerun =>
    ((hlap.fills.touches.store.trans hlap.assigns.touches.store).trans hlap.edits.touches.store).trans
      (ho₄ hrerun)
  have hentered : Entered ρ K D o loose w w₁ s s₁ node e e' x x' h h' :=
    ⟨hnear, hstraddles, hlater, hx, hx', hc, hc', hw₁, hs₁, h₁, h₁'⟩
  obtain ⟨meeting, hbegun⟩ := hstart.begun hentered hspot hx₅ hlap.names ho₁
  obtain ⟨hlooks, hbind, hveil, hless, hfits, -⟩ := hfitted
  obtain ⟨slots', written', s₂, s₃, s₄, hlap', ρ₄, hfed, hmeets⟩ :=
    hbegun.attends.lap hinnocent hharmless hfits hbind hlooks hbegun.opening hlap ho₄ m'
  have hleaves := Leaves.of_self h₁.lineage
    ((hlap.fills.trans hlap.assigns).trans (.of_edits hlap.edits))
  have hleaves' := Leaves.of_self h₁'.lineage
    ((hlap'.fills.trans hlap'.assigns).trans (.of_edits hlap'.edits))
  have hdescends := hmeets.descends w₅ hlap.standing hlap'.standing hless hveil (fun hyes => by
    obtain ⟨hrerun, hself, halike⟩ := hbegun.resumed hyes
    refine ⟨hrerun, hself.step hbegun.attends hfed (ho₄ hrerun) hmeets.left hmeets.right, fun c hc => ?_⟩
    have hc₅ := hc.touched ⟨_, hlap.get⟩ hw₅
    refine (halike c hc₅).later hfed.right.touches ?_
    rintro y z hy - rfl
    exact hc₅.not_below (hself.same ▸ hy)) fun hyes => by
    obtain ⟨hveiled, hsame, hcontext, hveils, hveils'⟩ := hbegun.found hyes
    refine ⟨hveiled, hsame, hcontext, (hveils.leaves hleaves (Nat.le_refl _)).mono hfed.le fun _ => id,
      (hveils'.leaves hleaves' ?_).mono hfed.le fun _ => id⟩
    exact (congrArg (fun C => (Context.elements C).length) hcontext).ge
  obtain ⟨s₅, hchildren', ρ₅, pictures, hle, hstores, hstraddles₅, hall, hall'⟩ :=
    hdescends.updateAll hstays hless hrecurs hchildren ho
  obtain ⟨hs₅, hstanding₅', hx₅'⟩ := hlap'.after hstays hchildren'
  have hfields : ρ₄.Fields (h.filled slots written).attributes (h'.filled slots' written').attributes :=
    ReactiveViews.Fields.Related.of_get? (Headless.keys_filled_eq (hlap.names.trans hlap'.names.symm)
      hbegun.keys) (hmeets.left.trunk.nodup hmeets.component) hmeets.all
  obtain ⟨attributes, hdrawn, hdrawn'⟩ := (hfields.mono hle).exists_reads hstores
  refine ⟨{ s₅ with held := s₅.held.erase e' }, ?_, ρ₅, ⟨node.tag, attributes, pictures⟩, ?_, hstores,
    hstraddles₅, ?_, ?_⟩
  · rw [heq', hlap'.complete hchildren']
  · exact Link.le_trans hfed.le hle
  · exact (hstanding₅.shows hx₅ rfl hdrawn hall).untouched (.of_held w₅ _)
  · exact (hstanding₅'.shows hx₅' rfl hdrawn' hall').untouched (.of_held s₅ _)

end

end Link

/-- Spots are updated in the second run if they are in the first one, and look alike then. -/
def Link.Settles (host : Host σ) (K : Trial σ) (D : Scene σ) : Prop :=
  ∀ ⦃depth : Nat⦄ ⦃node : Node Resolver⦄ ⦃bound loose : List String⦄ ⦃ρ : Link⦄ ⦃o : Store⦄
    ⦃w w' s : World σ⦄ ⦃C : Context⦄ ⦃e : ElementId⦄, e ∈ K.spots → node.Fitted K D bound loose →
    ρ.Near D (K.asked node) loose C C w s → ρ.Straddles o → o.Grows s.store →
    ρ.Found K depth w s node C C e →
    (Act.update e).runIn (host.enter depth) w = (some (.ok ()), w') →
    ∃ s', (Act.update e).runIn (host.enter depth) s = (some (.ok ()), s') ∧ ρ.Concurs o e e w' s'

theorem Link.settles_nil (host : Host σ) {K : Trial σ} (D : Scene σ) (hspots : K.spots = []) :
    Link.Settles host K D := by
  intro depth node bound loose ρ o w w' s C e hmem
  rw [hspots] at hmem
  cases hmem

/-- **Updates in two runs.** -/
theorem Host.update_recurs {host : Host σ} {K : Trial σ} {D : Scene σ}
    (hinnocent : ∀ depth, Innocent D (host.enter depth)) (hharmless : ∀ depth, Harmless (host.enter depth))
    (hsettles : Link.Settles host K D) (depth : Nat) {node : Node Resolver} {bound loose : List String}
    (hfitted : node.Fitted K D bound loose) {ρ : Link} {o : Store} {w w' s : World σ} {C C' : Context}
    {e e' : ElementId} (hnear : ρ.Near D (K.asked node) loose C C' w s) (hstraddles : ρ.Straddles o)
    (hlater : o.Grows s.store) (hstart : ρ.Start K depth D bound loose w s w' node C C' e e')
    (hrun : (Act.update e).runIn (host.enter depth) w = (some (.ok ()), w')) (ho : K.rerun → w'.store.Grows o) :
    ∃ s', (Act.update e').runIn (host.enter depth) s = (some (.ok ()), s') ∧ ρ.Concurs o e e' w' s' := by
  induction depth generalizing node bound loose ρ o w w' s C C' e e' with
  | zero =>
    by_cases hspot : e ∈ K.spots ∧ e' = e ∧ ρ.Found K 0 w s node C C' e
    · obtain ⟨hmem, rfl, hfound⟩ := hspot
      obtain rfl := hfound.context
      exact hsettles hmem hfitted hnear hstraddles hlater hfound hrun
    refine Link.update_recurs (hinnocent 0) (hharmless 0) hfitted ?_ ?_ hnear hstraddles hlater hstart
      (fun hmem hsame hfound => hspot ⟨hmem, hsame, hfound⟩) hrun ho
    · exact fun _ _ _ _ _ _ _ hnever => by cases hnever
    · exact fun _ _ _ _ _ _ _ _ _ _ _ _ _ _ _ hnever => by cases hnever
  | succ depth ih =>
    by_cases hspot : e ∈ K.spots ∧ e' = e ∧ ρ.Found K (depth + 1) w s node C C' e
    · obtain ⟨hmem, rfl, hfound⟩ := hspot
      obtain rfl := hfound.context
      exact hsettles hmem hfitted hnear hstraddles hlater hfound hrun
    refine Link.update_recurs (hinnocent _) (hharmless _) hfitted ?_ ?_ hnear hstraddles hlater hstart
      (fun hmem hsame hfound => hspot ⟨hmem, hsame, hfound⟩) hrun ho
    · exact fun child _ v c answer v' h hrun => host.update_stands hharmless depth h hrun
    · intro child hchild ρ o w w' s C C' c c' hnear hstraddles hlater hstart hrun ho
      cases hfitted with
      | intro _ _ _ _ _ hchildren =>
        exact ih (hchildren child hchild) hnear hstraddles hlater hstart hrun ho

end ReactiveViews
