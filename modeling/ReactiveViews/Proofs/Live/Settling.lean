import ReactiveViews.Proofs.Live.Laps
import ReactiveViews.Proofs.Live.Twins

/-!
# Elements in two updates

The updater of a node runs at an element in each of two runs: at new elements in both of them, or at one
element that the second run finds as the first one leaves it. What the slots contribute comes in pairs,
and so do the bound attributes.

## What is proved

If the slots are filled in the first run, they are filled in the second one (`Link.Attends.fill`), and so
it is with the bound attributes (`Link.Attends.assign`).
-/

namespace ReactiveViews

variable {σ : Type}

/-- A function that an element of a node owns is an attribute that a directive sets. -/
theorem Trunk.calls {node : Node Resolver} {x : Element} {h : Headless} (htrunk : Trunk node x)
    (hc : x.component = .headless h) {name : String} {f : Function}
    (hf : h.attributes.get? name = some (.function f)) : name ∈ node.dresses := by
  obtain ⟨-, -, -, h', hc', -, hwears⟩ := htrunk
  obtain rfl : h' = h := Component.headless.inj (hc'.symm.trans hc)
  by_contra hname
  rw [hwears.told name hname] at hf
  obtain hnone | ⟨text, htext⟩ := node.get?_told name
  · cases hnone.symm.trans hf
  · cases htext.symm.trans hf

theorem Trunk.nodup {node : Node Resolver} {x : Element} {h : Headless} (htrunk : Trunk node x)
    (hc : x.component = .headless h) : h.attributes.keys.Nodup := by
  obtain ⟨-, -, -, h', hc', -, hwears⟩ := htrunk
  obtain rfl : h' = h := Component.headless.inj (hc'.symm.trans hc)
  exact hwears.nodup

theorem Node.mem_evaluated {node : Node Resolver} {name : String} (hname : name ∈ node.bind.map (·.1))
    (htag : name ≠ "tag") : name ∈ node.evaluated :=
  List.mem_filter.mpr ⟨hname, by simpa using htag⟩

theorem forall₂_mem_right {α β : Type} {R : α → β → Prop} {l : List α} {l' : List β}
    (h : List.Forall₂ R l l') : List.Forall₂ (fun a b => R a b ∧ b ∈ l') l l' :=
  (((List.forall₂_and_left (p := (· ∈ l')) l' l).mpr ⟨fun _ => id, h.flip⟩).flip).imp fun _ _ hab => hab.symm

namespace Link

/-! ### Two elements in the middle of an update -/

/-- How the two runs come to two elements. -/
inductive Meeting where
  /-- Either run has made its element. -/
  | made
  /-- The second run goes on with the element where the first one ends. -/
  | resumed
  /-- Either run finds the element. -/
  | found

/-- Children of two elements of a node that come in pairs: both runs have made them, or, if the second run
goes on where the first one ends, it is a child that both of them show, or both runs have found it. -/
def Paired (ρ : Link) (K : Trial σ) (n : Nat) (meeting : Meeting) (w s : World σ) (node : Node Resolver)
    (e e' : ElementId) (C C' : Context) (c c' : ElementId) : Prop :=
  ∃ child ∈ node.children, ρ.Offspring w s child e e' C C' c c' ∨
    (meeting = .resumed ∧ ρ.Bonded w s child e e' C C' c c') ∨
    meeting = .found ∧ c = c' ∧ ρ.Shared K n w s child e e' C C' c

/-- Two elements whose slots are filled: what they own is linked apart from the bound attributes, and the
children that they show so far come in pairs. -/
structure Attends (ρ : Link) (K : Trial σ) (n : Nat) (meeting : Meeting) (D : Scene σ) (o : Store)
    (loose : List String) (w s : World σ) (node : Node Resolver) (e e' : ElementId) (x x' : Element)
    (h h' : Headless) : Prop where
  /-- The one element. -/
  left : Nursed w node e x
  /-- The other element. -/
  right : Nursed s node e' x'
  /-- The component of the one element. -/
  component : x.component = .headless h
  /-- The component of the other element. -/
  component' : x'.component = .headless h'
  /-- The one element is held. -/
  held : e ∈ w.held
  /-- The other element is held. -/
  held' : e' ∈ s.held
  /-- What the directives set may be a function. -/
  dresses : node.dresses ⊆ loose
  /-- The scopes around them. -/
  near : ρ.Near D (K.asked node) loose x.context x'.context w s
  /-- Their attributes. -/
  same : ∀ name, name ∉ node.bind.map (·.1) →
    Option.Rel ρ.Values (h.attributes.get? name) (h'.attributes.get? name)
  /-- Where the second run begins. -/
  straddles : ρ.Straddles o
  /-- The second run goes on. -/
  later : o.Grows s.store
  /-- What the one element shows is in its slots. -/
  shown : x.children <+: x.slots.flatMap Slot.elements
  /-- What the other element shows is in its slots. -/
  shown' : x'.children <+: x'.slots.flatMap Slot.elements
  /-- The children. -/
  pairs : List.Forall₂ (ρ.Paired K n meeting w s node e e' x.context x'.context) x.children x'.children

/-- The second run finds the element as the first one leaves it; and the first run can be compared with
itself, as far as nothing is asked for that is bound around. -/
structure Again (ρ : Link) (K : Trial σ) (D : Scene σ) (bound loose : List String) (w : World σ)
    (node : Node Resolver) (e e' : ElementId) (x x' : Element) (h : Headless) : Prop where
  /-- It is one element. -/
  same : e' = e
  /-- It has the same scopes around it. -/
  context : x'.context = x.context
  /-- The scopes around it. -/
  self : ρ.diag.link.Near D (K.known node bound) loose x.context x.context w w
  /-- What it owns. -/
  own : ∀ name v, name ∉ node.bind.map (·.1) → h.attributes.get? name = some v → ρ.Values v v

/-- What goes on at two elements of a node until the bound attributes are set. -/
structure Fed (ρ ρ' : Link) (node : Node Resolver) (w w' s s' : World σ) (e e' : ElementId)
    (h k h' k' : Headless) : Prop where
  /-- No less is linked. -/
  le : ρ ≤ ρ'
  /-- The stores. -/
  stores : ρ'.Stores w'.store s'.store
  /-- The one element is changed. -/
  left : Proceeds (· = e) [] w w'
  /-- The other element is changed. -/
  right : Proceeds (· = e') [] s s'
  /-- The attributes of the one that are not bound are left alone. -/
  attributes : ∀ name, name ∉ node.bind.map (·.1) → k.attributes.get? name = h.attributes.get? name
  /-- The attributes of the other that are not bound are left alone. -/
  attributes' : ∀ name, name ∉ node.bind.map (·.1) → k'.attributes.get? name = h'.attributes.get? name

section

variable {ρ ρ' ρ₁ : Link} {K : Trial σ} {n : Nat} {meeting : Meeting} {D : Scene σ} {o : Store}
  {bound loose : List String} {w w' w₁ s s' s₁ : World σ} {node : Node Resolver} {e e' : ElementId}
  {x x' x₁ x₁' y y' : Element} {h h' h₁ h₁' k k' : Headless} {enter : Enter σ} {child : Node Resolver}
  {es es' : List ElementId}
  {m m' : Nat} {memory : Memory} {done done' rest rest' filled : List Slot} {slot slot' : Slot}

theorem Attends.kin (hattends : Attends ρ K n meeting D o loose w s node e e' x x' h h') :
    ρ.Kin w s (Uncovered (K.asked node) node.evaluated) loose e e' x x' h h' where
  left := ⟨hattends.left.get, hattends.component, hattends.left.trunk.idle⟩
  right := ⟨hattends.right.get, hattends.component', hattends.right.trunk.idle⟩
  held := hattends.held
  held' := hattends.held'
  tag := by rw [hattends.left.trunk.tag, hattends.right.trunk.tag]
  same name hname htag := hattends.same name fun hmem => hname.2 htag (Node.mem_evaluated hmem htag)
  calls _ _ hf := hattends.dresses (hattends.left.trunk.calls hattends.component hf)

/-- What the element owns stands for itself. -/
theorem Again.kin (hagain : Again ρ K D bound loose w node e e' x x' h)
    (hattends : Attends ρ K n meeting D o loose w s node e e' x x' h h') :
    ρ.diag.link.Kin w w (Uncovered (K.known node bound) node.evaluated) loose e e x x h h where
  left := hattends.kin.left
  right := hattends.kin.left
  held := hattends.held
  held' := hattends.held
  tag := rfl
  same name hname htag := by
    have hown := hagain.own name
    revert hown
    cases h.attributes.get? name with
    | none => exact fun _ => .none
    | some v =>
      exact fun hown => .some (hown v (fun hmem => hname.2 htag (Node.mem_evaluated hmem htag)) rfl).diag
  calls := hattends.kin.calls

theorem Paired.touched {C C' : Context} {c c' : ElementId} {S T : ElementId → Prop}
    (hpaired : ρ.Paired K n meeting w s node e e' C C' c c') (hle : ρ ≤ ρ') (hw : Touches S w w')
    (hS : ∀ z, w.Below c z → ¬ S z) (hs : Touches T s s') (hT : ∀ z, s.Below c' z → ¬ T z) :
    ρ'.Paired K n meeting w' s' node e e' C C' c c' := by
  obtain ⟨child, hchild, hmade | ⟨hresumed, hbonded⟩ | ⟨hfound, rfl, hshared⟩⟩ := hpaired
  · exact ⟨child, hchild, .inl ((hmade.touched hw hs (hS c (.refl w c)) (hT c' (.refl s c'))).mono hle)⟩
  · exact ⟨child, hchild, .inr (.inl ⟨hresumed, hbonded.touched hle hw hS hs (hT c' (.refl s c'))⟩)⟩
  · exact ⟨child, hchild, .inr (.inr ⟨hfound, rfl, hshared.touched hle hw hS hs hT⟩)⟩

theorem Paired.inside {C C' : Context} {c c' : ElementId}
    (hpaired : ρ.Paired K n meeting w s node e e' C C' c c') (hlineage : w.lineage e = e :: Context.elements C) :
    w.Inside e c := by
  obtain ⟨child, -, hmade | ⟨-, hbonded⟩ | ⟨-, rfl, hshared⟩⟩ := hpaired
  · exact (Bonded.made hmade).inside hlineage
  · exact hbonded.inside hlineage
  · exact hshared.inside hlineage

/-- Children in the slots of two elements stay pairs while something else of the elements changes. -/
theorem paired_touched (hx : Nursed w node e x) (hx' : Nursed s node e' x')
    (hpairs : List.Forall₂ (ρ.Paired K n meeting w s node e e' x.context x'.context) es es')
    (hmem : es' ⊆ x'.slots.flatMap Slot.elements) (hle : ρ ≤ ρ') (hw : Touches (· = e) w w')
    (hs : Touches (· = e') s s') :
    List.Forall₂ (ρ'.Paired K n meeting w' s' node e e' x.context x'.context) es es' := by
  refine (forall₂_mem_right hpairs).imp ?_
  rintro c c' ⟨hpaired, hc'⟩
  refine hpaired.touched hle hw (fun z hz => ?_) hs fun z hz => ?_
  · rintro rfl
    exact (hpaired.inside hx.lineage).not_below hz
  · rintro rfl
    exact (hx'.inside (hmem hc')).not_below hz

theorem Fed.trans (hfed : Fed ρ ρ₁ node w w₁ s s₁ e e' h h₁ h' h₁')
    (hfed' : Fed ρ₁ ρ' node w₁ w' s₁ s' e e' h₁ k h₁' k') :
    Fed ρ ρ' node w w' s s' e e' h k h' k' where
  le := Link.le_trans hfed.le hfed'.le
  stores := hfed'.stores
  left := hfed.left.trans hfed'.left
  right := hfed.right.trans hfed'.right
  attributes name hname := (hfed'.attributes name hname).trans (hfed.attributes name hname)
  attributes' name hname := (hfed'.attributes' name hname).trans (hfed.attributes' name hname)

theorem Attends.step (hattends : Attends ρ K n meeting D o loose w s node e e' x x' h h')
    (hfed : Fed ρ ρ' node w w' s s' e e' h k h' k') (hstraddles : ρ'.Straddles o)
    (hy : Nursed w' node e y) (hy' : Nursed s' node e' y') (hk : y.component = .headless k)
    (hk' : y'.component = .headless k') (hshown : y.children <+: y.slots.flatMap Slot.elements)
    (hshown' : y'.children <+: y'.slots.flatMap Slot.elements)
    (hpairs : List.Forall₂ (ρ'.Paired K n meeting w' s' node e e' x.context x'.context) y.children y'.children) :
    Attends ρ' K n meeting D o loose w' s' node e e' y y' k k' := by
  have hcontext := hfed.left.touches.context_eq hattends.left.get hy.get
  have hcontext' := hfed.right.touches.context_eq hattends.right.get hy'.get
  have hpace : Pace (Context.elements x.context).length ρ ρ' w w' s s' :=
    ⟨hfed.le, hfed.stores, .of_self hattends.left.lineage hfed.left,
      hattends.near.contexts.length_eq ▸ .of_self hattends.right.lineage hfed.right⟩
  refine ⟨hy, hy', hk, hk', hfed.left.held ▸ hattends.held, hfed.right.held ▸ hattends.held',
    hattends.dresses, ?_, fun name hname => ?_, hstraddles, hattends.later.trans hfed.right.touches.store,
    hshown, hshown', ?_⟩
  · rw [hcontext, hcontext']
    exact hattends.near.pace hpace
  · rw [hfed.attributes name hname, hfed.attributes' name hname]
    exact optionRel_imp (hattends.same name hname) fun _ _ hv => hv.mono hfed.le
  · rw [hcontext, hcontext']
    exact hpairs

theorem Again.step (hagain : Again ρ K D bound loose w node e e' x x' h)
    (hattends : Attends ρ K n meeting D o loose w s node e e' x x' h h')
    (hfed : Fed ρ ρ' node w w' s s' e e' h k h' k') (ho : w'.store.Grows o) (hy : Nursed w' node e y)
    (hy' : Nursed s' node e' y') : Again ρ' K D bound loose w' node e e' y y' k := by
  have hcontext := hfed.left.touches.context_eq hattends.left.get hy.get
  have hcontext' := hfed.right.touches.context_eq hattends.right.get hy'.get
  refine ⟨hagain.same, ?_, ?_, fun name v hname hv => ?_⟩
  · rw [hcontext, hcontext', hagain.context]
  · rw [hcontext]
    exact hagain.self.diag_pace hfed.le hfed.stores (ho.trans (hattends.later.trans hfed.right.touches.store))
      (.of_self hattends.left.lineage hfed.left)
  · rw [hfed.attributes name hname] at hv
    exact (hagain.own name v hname hv).mono hfed.le

/-- Where the second run finds the element as the first one leaves it, its slots are evaluated again. -/
theorem Again.rerun (hagain : Again ρ K D bound loose w node e e' x x' h)
    (hattends : Attends ρ K n meeting D o loose w s node e e' x x' h h') :
    Rerun ρ D o (K.asked node) (K.known node bound) node.evaluated loose e x.context w s := by
  have hnear := hattends.near
  have hkin := hattends.kin
  have hlineage' := hattends.right.lineage
  rw [hagain.context] at hnear hlineage'
  rw [hagain.same] at hkin hlineage'
  exact ⟨fun m m' => hnear.front hkin m m' hattends.left.lineage hlineage',
    fun m => hagain.self.front (hagain.kin hattends) m m hattends.left.lineage hattends.left.lineage,
    hattends.straddles, hattends.later⟩

/-- How the slots of two elements begin: they remember the same, or the second run finds what the first one
leaves there. -/
inductive Opening (ρ : Link) (K : Trial σ) (n : Nat) (meeting : Meeting) (D : Scene σ) (bound loose : List String)
    (w s : World σ) (node : Node Resolver) (e e' : ElementId) (x x' : Element) (h : Headless) :
    (rest filled rest' : List Slot) → Prop where
  /-- The same is remembered. -/
  | same {rest filled : List Slot} :
    (∀ slot ∈ rest, ρ.Recalls e e' x.context x'.context slot.memory slot.memory) →
    (∀ slot ∈ rest, ∀ c ∈ slot.elements,
      meeting = .found ∧ ρ.Shared K n w s slot.node e e' x.context x'.context c) →
    Opening ρ K n meeting D bound loose w s node e e' x x' h rest filled rest
  /-- The second run goes on where the first one has ended. -/
  | resumed {rest filled : List Slot} : meeting = .resumed → K.rerun → Again ρ K D bound loose w node e e' x x' h →
    (∀ slot ∈ rest, Hoard ρ w e x.context slot) →
    Opening ρ K n meeting D bound loose w s node e e' x x' h rest filled filled

theorem Opening.eq_nil (hopening : Opening ρ K n meeting D bound loose w s node e e' x x' h [] [] rest') :
    rest' = [] := by
  cases hopening <;> rfl

theorem Opening.eq_cons
    (hopening : Opening ρ K n meeting D bound loose w s node e e' x x' h (slot :: rest) (slot' :: filled) rest') :
    ∃ first more, rest' = first :: more := by
  cases hopening <;> exact ⟨_, _, rfl⟩

/-- The first of the slots is evaluated in either run. -/
theorem Attends.evaluate (hinnocent : Innocent D enter) (hharmless : Harmless enter)
    (hattends : Attends ρ K n meeting D o loose w s node e e' x x' h h')
    (hfits : Fits D (K.asked node) (K.known node bound) node.evaluated loose slot.node)
    (hslots : x.slots = done ++ slot :: rest) (hslots' : x'.slots = done' ++ slot' :: rest')
    (hopening : Opening ρ K n meeting D bound loose w s node e e' x x' h (slot :: rest)
      (⟨slot.node, memory⟩ :: filled) (slot' :: rest'))
    (hrun : (Build.evaluate e done.length slot (.object (.scope m e) :: x.context)
      .headless).run.runIn enter w = (some (.ok es), w'))
    (hmemory : w'.elements.get? e.row = some { x with slots := done ++ ⟨slot.node, memory⟩ :: rest })
    (hw : Touches (· = e) w w') (ho : K.rerun → w'.store.Grows o) (m' : Nat) :
    ∃ es' s', (Build.evaluate e' done'.length slot' (.object (.scope m' e') :: x'.context)
        .headless).run.runIn enter s = (some (.ok es'), s') ∧
      ∃ ρ', ρ ≤ ρ' ∧ ρ'.Stores w'.store s'.store ∧ ρ'.Straddles o ∧
        (Touches (· = e') s s' →
          List.Forall₂ (ρ'.Paired K n meeting w' s' node e e' x.context x'.context) es es') := by
  have hslot : slot ∈ x.slots := hslots ▸ List.mem_append_right _ List.mem_cons_self
  have hchild : slot.node ∈ node.children := hattends.left.trunk.child hslot
  cases hopening with
  | same hrecalls hshared =>
    have hnear := hattends.near.front hattends.kin m m' hattends.left.lineage hattends.right.lineage
    obtain ⟨es', s', hrun', ρ', _, _, hextends, hfiled⟩ := hnear.evaluate hinnocent hharmless hfits
      hattends.left.get hattends.right.get hslots hslots' (hattends.left.limb hslots).lodges
      (hrecalls slot List.mem_cons_self) es w' hrun
    refine ⟨es', s', hrun', ρ', hextends.le, hfiled.stores,
      hattends.straddles.extended hextends hattends.later, fun hs => hfiled.children.imp ?_⟩
    rintro c c' (hmade | ⟨rfl, hc⟩)
    · exact ⟨_, hchild, .inl hmade⟩
    · have hslot' : slot ∈ x'.slots := hslots' ▸ List.mem_append_right _ List.mem_cons_self
      obtain ⟨hfound, hshared⟩ := hshared slot List.mem_cons_self c hc
      refine ⟨_, hchild, .inr (.inr ⟨hfound, rfl, hshared.touched hextends.le hw ?_ hs ?_⟩)⟩
      · rintro z hz rfl
        exact (hattends.left.inside (List.mem_flatMap.mpr ⟨slot, hslot, hc⟩)).not_below hz
      · rintro z hz rfl
        exact (hattends.right.inside (List.mem_flatMap.mpr ⟨slot, hslot', hc⟩)).not_below hz
  | resumed hresumed hrerun hself hhoards =>
    have hx' : s.elements.get? e.row = some x' := hself.same ▸ hattends.right.get
    obtain ⟨es', s', hrun', ρ', hle, hstores, hstraddles, hall⟩ := (hself.rerun hattends).evaluate
      hinnocent hharmless hfits hattends.left hx' hself.context (hhoards slot List.mem_cons_self) hslots
      hrun hmemory (ho hrerun) done'.length m'
    obtain ⟨rfl, hcontext, -, -⟩ := hself
    rw [hcontext]
    exact ⟨es', s', hrun', ρ', hle, hstores, hstraddles,
      fun _ => hall.imp fun _ _ h => ⟨_, hchild, .inr (.inl ⟨hresumed, h⟩)⟩⟩

theorem Opening.step (hopening : Opening ρ K n meeting D bound loose w s node e e' x x' h (slot :: rest)
      (⟨slot.node, memory⟩ :: filled) (slot' :: rest'))
    (hattends : Attends ρ K n meeting D o loose w s node e e' x x' h h')
    (hslots : x.slots = done ++ slot :: rest) (hslots' : x'.slots = done' ++ slot' :: rest')
    (hfed : Fed ρ ρ' node w w' s s' e e' h k h' k') (ho : K.rerun → w'.store.Grows o)
    (hy : Nursed w' node e y) (hy' : Nursed s' node e' y') :
    Opening ρ' K n meeting D bound loose w' s' node e e' y y' k rest filled rest' := by
  have hmem : ∀ other ∈ rest, other ∈ x.slots := fun other hother => by
    rw [hslots]
    exact List.mem_append_right _ (List.mem_cons_of_mem _ hother)
  have hcontext := hfed.left.touches.context_eq hattends.left.get hy.get
  have hcontext' := hfed.right.touches.context_eq hattends.right.get hy'.get
  cases hopening with
  | same hrecalls hshared =>
    refine .same (fun other hother => ?_) fun other hother c hc => ?_
    · rw [hcontext, hcontext']
      exact (hrecalls other (List.mem_cons_of_mem _ hother)).mono hfed.le
    · have hmem' : other ∈ x'.slots := by
        rw [hslots']
        exact List.mem_append_right _ (List.mem_cons_of_mem _ hother)
      obtain ⟨hfound, hshared⟩ := hshared other (List.mem_cons_of_mem _ hother) c hc
      rw [hcontext, hcontext']
      refine ⟨hfound, hshared.touched hfed.le hfed.left.touches ?_ hfed.right.touches ?_⟩
      · rintro z hz rfl
        exact (hattends.left.inside (List.mem_flatMap.mpr ⟨other, hmem other hother, hc⟩)).not_below hz
      · rintro z hz rfl
        exact (hattends.right.inside (List.mem_flatMap.mpr ⟨other, hmem', hc⟩)).not_below hz
  | resumed hresumed hrerun hself hhoards =>
    refine .resumed hresumed hrerun (hself.step hattends hfed (ho hrerun) hy hy') fun other hother => ?_
    rw [hcontext]
    refine (hhoards other (List.mem_cons_of_mem _ hother)).touched (hattends.left.limbs other
      (hmem other hother)) hfed.le hfed.left.touches fun c hc z hz => ?_
    rintro rfl
    exact (hattends.left.inside (List.mem_flatMap.mpr ⟨other, hmem other hother, hc⟩)).not_below hz

/-- A slot is evaluated in either run, and what it contributes is shown. -/
theorem Attends.serve (hinnocent : Innocent D enter) (hharmless : Harmless enter)
    (hattends : Attends ρ K n meeting D o loose w s node e e' x x' h h')
    (hfits : Fits D (K.asked node) (K.known node bound) node.evaluated loose slot.node)
    (hslots : x.slots = done ++ slot :: rest) (hslots' : x'.slots = done' ++ slot' :: rest')
    (hchildren : x.children = done.flatMap Slot.elements)
    (hchildren' : x'.children = done'.flatMap Slot.elements)
    (hopening : Opening ρ K n meeting D bound loose w s node e e' x x' h (slot :: rest)
      (⟨slot.node, memory⟩ :: filled) (slot' :: rest'))
    (hserved : Served enter node e x h m done rest slot memory es w w₁ w') (ho : K.rerun → w'.store.Grows o)
    (m' : Nat) :
    ∃ memory' es' s₁ s', Served enter node e' x' h' m' done' rest' slot' memory' es' s s₁ s' ∧
      ∃ ρ' k k', Fed ρ ρ' node w w' s s' e e' h k h' k' ∧
        Attends ρ' K n meeting D o loose w' s' node e e'
          (Element.showing { x with slots := done ++ ⟨slot.node, memory⟩ :: rest } h es)
          (Element.showing { x' with slots := done' ++ ⟨slot'.node, memory'⟩ :: rest' } h' es') k k' := by
  obtain ⟨es', s₁, hevaluate', ρ', hle, hstores, hstraddles, hall⟩ := hattends.evaluate hinnocent hharmless
    hfits hslots hslots' hopening hserved.evaluate hserved.written.get hserved.evaluates.touches
    (fun hrerun => hserved.edits.touches.store.trans (ho hrerun)) m'
  obtain ⟨memory', s', hserved'⟩ :=
    hattends.right.served hharmless hattends.component' hslots' hevaluate'
  have hw := hserved.edits.touches
  have hs := hserved'.edits.touches
  have hfed : Fed ρ ρ' node w w' s s' e e' h { h with mounted := h.mounted ++ es } h'
      { h' with mounted := h'.mounted ++ es' } :=
    ⟨hle, hstores.grow hw.store hs.store, hserved.proceeds, hserved'.proceeds, fun _ _ => rfl, fun _ _ => rfl⟩
  have hold := paired_touched hattends.left hattends.right hattends.pairs hattends.shown'.subset hle
    hfed.left.touches hfed.right.touches
  have hnew := paired_touched hserved.written hserved'.written (hall hserved'.evaluates.touches)
    hserved'.subset ρ'.le_refl hw hs
  exact ⟨memory', es', s₁, s', hserved', ρ', _, _, hfed, hattends.step hfed hstraddles hserved.shown
    hserved'.shown rfl rfl (hserved.children_prefix hchildren) (hserved'.children_prefix hchildren')
    (List.rel_append hold hnew)⟩

/-- What the slots contribute is shown by either element. -/
theorem Attends.fill (hinnocent : Innocent D enter) (hharmless : Harmless enter)
    (hattends : Attends ρ K n meeting D o loose w s node e e' x x' h h')
    (hfits : ∀ slot ∈ rest, Fits D (K.asked node) (K.known node bound) node.evaluated loose slot.node)
    (hslots : x.slots = done ++ rest) (hslots' : x'.slots = done' ++ rest')
    (hchildren : x.children = done.flatMap Slot.elements)
    (hchildren' : x'.children = done'.flatMap Slot.elements) (hupdater : x.updater = none)
    (hopening : Opening ρ K n meeting D bound loose w s node e e' x x' h rest filled rest')
    (hrun : (Build.fill e (.object (.scope m e) :: x.context) .headless done.length rest).run.runIn enter w =
      (some (.ok ()), w'))
    (hfilled : ∃ z, w'.elements.get? e.row = some z ∧ z.slots = done ++ filled)
    (ho : K.rerun → w'.store.Grows o) (m' : Nat) :
    ∃ s', (Build.fill e' (.object (.scope m' e') :: x'.context) .headless done'.length
        rest').run.runIn enter s = (some (.ok ()), s') ∧
      ∃ ρ' y y' k k', Fed ρ ρ' node w w' s s' e e' h k h' k' ∧
        Attends ρ' K n meeting D o loose w' s' node e e' y y' k k' := by
  induction rest generalizing ρ done done' rest' filled w s x x' h h' with
  | nil =>
    cases hrun
    have hnone : filled = [] := by
      obtain ⟨z, hz, hzslots⟩ := hfilled
      obtain rfl : x = z := Option.some.inj (hattends.left.get.symm.trans hz)
      exact (List.append_cancel_left (hslots.symm.trans hzslots)).symm
    subst hnone
    obtain rfl := hopening.eq_nil
    exact ⟨s, rfl, ρ, x, x', h, h', ⟨ρ.le_refl, hattends.near.worlds.stores, .refl w', .refl s,
      fun _ _ => rfl, fun _ _ => rfl⟩, hattends⟩
  | cons slot rest ih =>
    obtain ⟨es, w₁, hevaluate, hrun⟩ := Build.runIn_bindE_eq_ok hrun
    obtain ⟨memory, w₂, hserved⟩ := hattends.left.served hharmless hattends.component hslots hevaluate
    rw [Build.runIn_bindE_ok hserved.append] at hrun
    have hrun₂ : (Build.fill e (.object (.scope m e) :: x.context) .headless
        (done ++ [Slot.mk slot.node memory]).length rest).run.runIn enter w₂ = (some (.ok ()), w') := by
      rw [List.length_append]
      exact hrun
    obtain ⟨more, hw₃, hx₃, -⟩ := (hserved.shown.fill_ends hharmless.rules rfl (List.append_cons done _ rest)
      hupdater (hserved.children hchildren)).ok hrun₂
    have hw₃ : Proceeds (· = e) [] w₂ w' := hw₃
    have hmore : filled = ⟨slot.node, memory⟩ :: more := by
      obtain ⟨z, hz, hzslots⟩ := hfilled
      obtain rfl := Option.some.inj (hx₃.get.symm.trans hz)
      have heq : (done ++ [⟨slot.node, memory⟩]) ++ more = done ++ filled := hzslots
      rw [List.append_assoc] at heq
      exact (List.append_cancel_left heq).symm
    subst hmore
    obtain ⟨slot', rest', rfl⟩ := hopening.eq_cons
    have ho₂ := fun hrerun => hw₃.touches.store.trans (ho hrerun)
    obtain ⟨memory', es', s₁, s₂, hserved', ρ₁, k, k', hfed, hattends₁⟩ := hattends.serve hinnocent hharmless
      (hfits slot List.mem_cons_self) hslots hslots' hchildren hchildren' hopening hserved ho₂ m'
    obtain ⟨s', hfill, ρ', y, y', l, l', hfed', hend⟩ := ih hattends₁
      (fun other hother => hfits other (List.mem_cons_of_mem _ hother)) (List.append_cons done _ rest)
      (List.append_cons done' _ rest') (hserved.children hchildren) (hserved'.children hchildren') hupdater
      (hopening.step hattends hslots hslots' hfed ho₂ hattends₁.left hattends₁.right) hrun₂
      (by rwa [List.append_assoc])
    refine ⟨s', ?_, ρ', y, y', l, l', hfed.trans hfed', hend⟩
    unfold Build.fill
    rw [Build.runIn_bindE_ok hserved'.evaluate, Build.runIn_bindE_ok hserved'.append]
    rw [List.length_append] at hfill
    exact hfill

/-- The bound attributes are set in either element. -/
theorem Attends.assign (hinnocent : Innocent D enter) (hharmless : Harmless enter)
    (hattends : Attends ρ K n meeting D o loose w s node e e' x x' h h')
    (hbind : ∀ entry ∈ node.bind, entry.2.Apt D (K.asked node) loose) (hlooks : Node.LooksBack node.bind)
    (hrun : (Build.assign e (.object (.scope m e) :: x.context) node.bind).run.runIn enter w =
      (some (.ok ()), w')) (m' : Nat) :
    ∃ s', (Build.assign e' (.object (.scope m' e') :: x'.context) node.bind).run.runIn enter s =
        (some (.ok ()), s') ∧
      ∃ ρ' y y' k k', ρ ≤ ρ' ∧ ρ'.Stores w'.store s'.store ∧ ρ'.Straddles o ∧
        w'.elements.get? e.row = some y ∧ s'.elements.get? e'.row = some y' ∧
        y.component = .headless k ∧ y'.component = .headless k' ∧
        ∀ name, Option.Rel ρ'.Values (k.attributes.get? name) (k'.attributes.get? name) := by
  obtain ⟨⟨⟩, s', hrun', ρ', written, written', hextends, hstores, ⟨hw, hy⟩, ⟨hs, hy'⟩, hwritten, hnames⟩ :=
    Kin.assign hinnocent hharmless hbind (List.Subset.trans node.bind_subset_dresses hattends.dresses)
      (hlooks.uncovers List.filter_sublist.subset) hattends.kin hattends.near m m' hattends.left.lineage
      hattends.right.lineage () w' hrun
  refine ⟨s', hrun', ρ', _, _, _, _, hextends.le, hstores,
    hattends.straddles.extended hextends hattends.later, hy, hy', rfl, rfl, fun name => ?_⟩
  refine ReactiveViews.Fields.Related.get?_putAll hwritten fun hname => ?_
  rw [ReactiveViews.Fields.keys, hnames] at hname
  exact optionRel_imp (hattends.same name hname) fun _ _ hv => hv.mono hextends.le

/-! ### Laps in both runs -/

/-- What there is after the updater of a node has run at two elements. -/
structure Meets (ρ : Link) (K : Trial σ) (n : Nat) (meeting : Meeting) (D : Scene σ) (o : Store)
    (loose : List String) (w s : World σ) (node : Node Resolver) (e e' : ElementId) (x x' : Element)
    (h h' : Headless) : Prop
    extends Attends ρ K n meeting D o loose w s node e e' x x' h h' where
  /-- All their attributes. -/
  all : ∀ name, Option.Rel ρ.Values (h.attributes.get? name) (h'.attributes.get? name)

/-- The updater of a node runs at two elements. -/
theorem Attends.lap {w₂ w₃ s₁ : World σ} {slots : List Slot} {written : List (String × Value)}
    (hinnocent : Innocent D enter) (hharmless : Harmless enter)
    (hattends : Attends ρ K n meeting D o loose w₁ s₁ node e e' (x.opened h) (x'.opened h') h.clear h'.clear)
    (hfits : ∀ child ∈ node.children, Fits D (K.asked node) (K.known node bound) node.evaluated loose child)
    (hbind : ∀ entry ∈ node.bind, entry.2.Apt D (K.asked node) loose) (hlooks : Node.LooksBack node.bind)
    (hopening : Opening ρ K n meeting D bound loose w₁ s₁ node e e' (x.opened h) (x'.opened h') h.clear x.slots slots
      x'.slots)
    (hlap : Lap enter node e x h m slots written w₁ w₂ w₃ w') (ho : K.rerun → w'.store.Grows o) (m' : Nat) :
    ∃ slots' written' s₂ s₃ s', Lap enter node e' x' h' m' slots' written' s₁ s₂ s₃ s' ∧
      ∃ ρ', Fed ρ ρ' node w₁ w' s₁ s' e e' h.clear (h.filled slots written) h'.clear
          (h'.filled slots' written') ∧
        Meets ρ' K n meeting D o loose w' s' node e e' (x.refreshed node h slots written)
          (x'.refreshed node h' slots' written') (h.filled slots written) (h'.filled slots' written') := by
  have ho₂ : K.rerun → w₂.store.Grows o := fun hrerun =>
    (hlap.assigns.touches.store.trans hlap.edits.touches.store).trans (ho hrerun)
  obtain ⟨s₂, hfill', ρ₂, y, y', k, k', hfed, hattends₂⟩ := hattends.fill
    hinnocent hharmless (fun slot hslot => hfits _ (hattends.left.trunk.child hslot))
    (List.nil_append _).symm (List.nil_append _).symm rfl rfl rfl hopening hlap.fill ⟨_, hlap.fed.get, rfl⟩
    ho₂ m'
  obtain rfl := Option.some.inj (hattends₂.left.get.symm.trans hlap.fed.get)
  obtain ⟨s₃, hassign', ρ₃, z, z', l, l', hle, hstores, hstraddles, hz, hz', hl, hl', hall⟩ :=
    hattends₂.assign hinnocent hharmless hbind hlooks hlap.assign m'
  have hcontext' := hfed.right.touches.context_eq hattends.right.get hattends₂.right.get
  rw [hcontext'] at hassign'
  obtain ⟨slots', written', s', hlap'⟩ := hattends.right.lap hharmless hfill' hassign'
  obtain rfl := Option.some.inj (hlap.dressed.get.symm.trans hz)
  obtain rfl := Option.some.inj (hlap'.dressed.get.symm.trans hz')
  obtain rfl := Option.some.inj (hattends₂.right.get.symm.trans hlap'.fed.get)
  cases hl
  cases hl'
  cases hattends₂.component
  cases hattends₂.component'
  have hfed' : Fed ρ₂ ρ₃ node w₂ w' s₂ s' e e' (h.filled slots []) (h.filled slots written)
      (h'.filled slots' []) (h'.filled slots' written') :=
    ⟨hle, hstores.grow hlap.edits.touches.store hlap'.edits.touches.store,
      hlap.assigns.trans (.of_edits hlap.edits), hlap'.assigns.trans (.of_edits hlap'.edits),
      fun _ hname => h.get?_filled slots (hlap.names ▸ hname),
      fun _ hname => h'.get?_filled slots' (hlap'.names ▸ hname)⟩
  refine ⟨slots', written', s₂, s₃, s', hlap', ρ₃, hfed.trans hfed', hattends₂.step hfed' hstraddles
    hlap.nursed hlap'.nursed rfl rfl List.prefix_rfl List.prefix_rfl ?_, hall⟩
  exact paired_touched hattends₂.left hattends₂.right hattends₂.pairs hattends₂.shown'.subset hle
    hfed'.left.touches hfed'.right.touches

end

end Link

end ReactiveViews
