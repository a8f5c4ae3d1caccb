import ReactiveViews.Proofs.Live.Recurrence

/-!
# Trees that keep no elements

Elements may be data: a record may hold one, and so may an attribute or a list that a slot remembers.
What leads to no element is *inert*; it stands for itself in every run. A tree is inert if all that it
keeps is.

If an inert tree asks the elements around it for nothing that they own, it is *poised*: whatever else goes
on, an update of it comes out as it would have come out before.

## What is proved

While the updater of a node runs at an element of an inert tree, the tree stays inert
(`World.Feeding.lap`).
-/

namespace ReactiveViews

variable {σ : Type}

/-! ### What leads to no element -/

/-- The part of a store from which no element can be reached. -/
def Store.inert (s : Store) : Region where
  arrays a := ∃ D : Region, D.Closed s ∧ D.arrays a
  records r := ∃ D : Region, D.Closed s ∧ D.records r

theorem Region.Closed.le_inert {D : Region} {s : Store} (h : D.Closed s) : D.link ≤ s.inert.link :=
  ⟨fun _ _ hab => ⟨hab.1, D, h, hab.2⟩, fun _ _ hrq => ⟨hrq.1, D, h, hrq.2⟩⟩

theorem Region.Closed.grow {D : Region} {s t : Store} (h : D.Closed s) (hs : s.Grows t) : D.Closed t :=
  Link.Stores.grow h hs hs

namespace Store

theorem inert_closed (s : Store) : s.inert.Closed s where
  arrays := by
    rintro a _ ⟨rfl, D, hclosed, ha⟩
    obtain ⟨hrange, hrange', hitems⟩ := hclosed.arrays (⟨rfl, ha⟩ : D.link.arrays a a)
    exact ⟨hrange, hrange', hitems.imp fun _ _ hv => hv.mono hclosed.le_inert⟩
  records := by
    rintro r _ ⟨rfl, D, hclosed, hr⟩
    obtain ⟨hrange, hrange', hfields⟩ := hclosed.records (⟨rfl, hr⟩ : D.link.records r r)
    exact ⟨hrange, hrange', hfields.mono hclosed.le_inert⟩

theorem Grows.inert_le {s t : Store} (h : s.Grows t) : s.inert.link ≤ t.inert.link :=
  (s.inert_closed.grow h).le_inert

end Store

namespace Link

variable {ρ : Link} {s : Store}

theorem Stores.diag_le_inert (h : ρ.Stores s s) : ρ.diag.link ≤ s.inert.link :=
  (h.closed_diag (.refl s)).le_inert

/-- What stands for itself leads to no element. -/
theorem Values.inert {v : Value} (hv : ρ.Values v v) (h : ρ.Stores s s) : s.inert.Holds v :=
  hv.diag.mono h.diag_le_inert

theorem Fronts.inert {e : ElementId} {C context : Context} (hfronts : ρ.Fronts e e C C context context)
    (h : ρ.Stores s s) : s.inert.link.Fronts e e C C context context := by
  obtain ⟨m, m', front, front', rfl, heq, hall⟩ := hfronts
  obtain ⟨rfl, hscope⟩ := List.append_inj' heq rfl
  cases hscope
  exact ⟨m, m, front, front, rfl, rfl, List.forall₂_same.mpr fun v hv =>
    (List.forall₂_same.mp hall v hv).inert h⟩

end Link

/-! ### Inert trees -/

/-- Nothing that an element keeps leads to an element. -/
structure Element.Inert (s : Store) (y : ElementId) (x : Element) : Prop where
  /-- The attributes. -/
  attributes : ∀ h, x.component = .headless h → ∀ name v, h.attributes.get? name = some v →
    s.inert.Holds v
  /-- The lists. -/
  lists : ∀ slot ∈ x.slots, ∀ last, slot.memory = .repeated (some last) →
    s.inert.link.Retains y x.context last

namespace Element.Inert

variable {s t : Store} {y : ElementId} {x : Element}

theorem grow (h : x.Inert s y) (hs : s.Grows t) : x.Inert t y where
  attributes c hc name v hv := (h.attributes c hc name v hv).mono hs.inert_le
  lists slot hslot last hlast := (h.lists slot hslot last hlast).mono hs.inert_le

theorem owns (h : x.Inert s y) : x.Owns s.inert.link y where
  attributes c _ _ hc _ name v _ hv := h.attributes c hc name v hv
  lists := h.lists

end Element.Inert

/-- Nothing that a tree keeps leads to an element. -/
def World.Inert (w : World σ) (e : ElementId) : Prop :=
  ∀ y x, w.Encloses e y → w.elements.get? y.row = some x → x.Inert w.store y

namespace World.Inert

variable {w w' : World σ} {node : Node Resolver} {e c : ElementId} {x : Element}

theorem touched {S : ElementId → Prop} (h : w.Inert e) (hstanding : Standing w node e) (hw : Touches S w w')
    (hS : ∀ z, w.Below e z → ¬ S z) : w'.Inert e := fun y x hy hx => by
  have hyw := Link.encloses_touched hstanding hw hS hy
  obtain ⟨child, hchild⟩ := hstanding.encloses hyw
  obtain ⟨z, hz⟩ := hchild.get
  obtain rfl := Option.some.inj ((hw.get? hz (hS y (hstanding.below_of_encloses hyw))).symm.trans hx)
  exact (h y z hyw hz).grow hw.store

theorem untouched (h : w.Inert e) (hstanding : Standing w node e) (hw : Touches (fun _ => False) w w') :
    w'.Inert e := h.touched hstanding hw fun _ _ => id

theorem child {slot : Slot} (h : w.Inert e) (hx : w.elements.get? e.row = some x) (hslot : slot ∈ x.slots)
    (hc : c ∈ slot.elements) : w.Inert c := fun y z hy hz => h y z (.inner hx hslot hc hy) hz

theorem intro (hx : w.elements.get? e.row = some x) (hinert : x.Inert w.store e)
    (htrees : ∀ slot ∈ x.slots, ∀ c ∈ slot.elements, w.Inert c) : w.Inert e := fun y z hy hz => by
  cases hy with
  | refl =>
    obtain rfl := Option.some.inj (hx.symm.trans hz)
    exact hinert
  | inner hx' hslot hc hy =>
    obtain rfl := Option.some.inj (hx.symm.trans hx')
    exact htrees _ hslot _ hc y z hy hz

/-- A new element whose attributes stand for themselves is inert. -/
theorem of_cognate {ρ : Link} {C C' : Context} (h : ρ.Cognate w w node C C' c c)
    (hstores : ρ.Stores w.store w.store) : w.Inert c := by
  obtain ⟨x, x', k, k', hx, hx', hk, hk', hfields⟩ := h
  obtain rfl := Option.some.inj (hx.get.symm.trans hx'.get)
  obtain rfl := Component.headless.inj (hk.symm.trans hk')
  refine .intro hx.get ⟨fun k₁ hk₁ name v hv => ?_, fun slot hslot last hlast => ?_⟩ fun slot hslot a ha => ?_
  · obtain rfl := Component.headless.inj (hk.symm.trans hk₁)
    have hrel := hfields.get? name
    rw [hv] at hrel
    cases hrel with
    | some hv => exact hv.inert hstores
  · rw [hx.slots] at hslot
    obtain ⟨child, -, rfl⟩ := List.mem_map.mp hslot
    unfold Slot.fresh at hlast
    split at hlast <;> cases hlast
  · have hnone := hx.elements_eq
    rw [List.flatMap_eq_nil_iff] at hnone
    rw [hnone slot hslot] at ha
    cases ha

/-- The trees of inert elements are kept. -/
theorem kept (h : w.Inert e) (hstanding : Standing w node e) : Kept w.store.inert.link w node e := by
  induction hstanding with
  | @intro node e x hx htrunk hupdater hchildren hnodup hlodges _ ih =>
    obtain ⟨k, hk, -⟩ := htrunk.component
    have hself := h e x (.refl e) hx
    exact .intro hx hk (fun name v _ hv => hself.attributes k hk name v hv) hself.lists
      fun slot hslot c hc => ih slot hslot c hc (h.child hx hslot hc)

end World.Inert

/-! ### Nodes that ask for nothing around -/

/-- A node, like those below it, asks for nothing that its elements own, and its constants are in a
scene. -/
structure Node.Discreet (D : Scene σ) (node : Node Resolver) : Prop where
  /-- What is asked for. -/
  captureFree : node.CaptureFree
  /-- The constants. -/
  constants : ∀ v ∈ node.constants, D.Holds v

namespace Node.Discreet

variable {D : Scene σ} {node other : Node Resolver} {asked : String → Prop} {loose bound : List String}

theorem child (h : node.Discreet D) (hother : other ∈ node.children) : other.Discreet D where
  captureFree n hn := h.captureFree n (family_subset hother hn)
  constants v hv := by
    obtain ⟨n, hn, hvn⟩ := List.mem_flatMap.mp hv
    exact h.constants v (List.mem_flatMap.mpr ⟨n, family_subset hother hn, hvn⟩)

theorem not_reserved (h : node.Discreet D) {name : String} (hname : name ∈ node.names) :
    name ∉ node.reserved :=
  h.captureFree node node.mem_family_self name hname

theorem not_dresses (h : node.Discreet D) {name : String} (hname : name ∈ node.names) :
    name ∉ node.dresses := fun hmem =>
  h.not_reserved hname (List.mem_cons_of_mem _ (List.mem_cons_of_mem _ (List.mem_cons_of_mem _ hmem)))

theorem apt (h : node.Discreet D) {r : Resolver} (hr : r ∈ node.directives)
    (hasked : ∀ name ∈ node.names, asked name) (hloose : ∀ name ∈ node.names, name ∉ loose) :
    r.Apt D asked loose where
  names name hname := hasked name (names_of_directive hr hname)
  calls name hname := hloose name (names_of_directive hr (r.callees_subset hname))
  constants v hv := h.constants v (List.mem_flatMap.mpr
    ⟨node, node.mem_family_self, List.mem_flatMap.mpr ⟨r, hr, hv⟩⟩)

theorem not_mem_append (h : node.Discreet D) (hloose : ∀ name ∈ node.names, name ∉ loose) :
    ∀ name ∈ node.names, name ∉ loose ++ node.dresses := fun name hname hmem =>
  (List.mem_append.mp hmem).elim (hloose name hname) (h.not_dresses hname)

theorem looksBack (h : node.Discreet D) : LooksBack node.bind := by
  have hnot : ∀ entry ∈ node.bind, ∀ name ∈ entry.2.names, name ∉ node.bind.map (·.1) :=
    fun entry hentry name hname hmem => h.not_dresses
      (names_of_directive (mem_directives_bind hentry) hname) (node.bind_subset_dresses hmem)
  revert hnot
  generalize node.bind = entries
  intro hnot
  induction entries with
  | nil => trivial
  | cons entry rest ih =>
    refine ⟨fun name hname _ => hnot entry List.mem_cons_self name hname, ih fun other hother name hname => ?_⟩
    exact fun hmem => hnot other (List.mem_cons_of_mem _ hother) name hname (List.mem_cons_of_mem _ hmem)

/-- A child node asks for nothing that is bound or called around it. -/
theorem fits (h : node.Discreet D) (hother : other ∈ node.children) {known : String → Prop}
    {hidden : List String} (hless : ∀ name, known name → asked name)
    (hknown : ∀ name ∈ other.names, Uncovered known hidden name)
    (hloose : ∀ name ∈ other.names, name ∉ loose) : Link.Fits D asked known hidden loose other := by
  have hc := h.child hother
  have hasked : ∀ name ∈ other.names, Uncovered asked hidden name := fun name hname =>
    ⟨hless name (hknown name hname).1, (hknown name hname).2⟩
  exact ⟨hless, fun r hr => hc.apt (mem_directives_condition hr) hasked hloose,
    fun name r hr => hc.apt (mem_directives_repetition hr) hasked hloose,
    fun entry hentry => hc.apt (mem_directives_once hentry) hknown (hc.not_mem_append hloose)⟩

end Node.Discreet

/-- The comparison of two updates that ask the elements around for nothing that they own. -/
def Trial.blind (rerun : Prop) (spots : List ElementId) (left right : World σ) (depth : Nat) : Trial σ where
  asked node name := name ∈ node.names
  veiled := True
  rerun
  spots
  left
  right
  depth

theorem Node.Discreet.fitted {D : Scene σ} (rerun : Prop) (spots : List ElementId) (left right : World σ)
    (depth : Nat) {node : Node Resolver} (h : node.Discreet D) {bound loose : List String}
    (hbound : ∀ name ∈ node.names, name ∉ bound) (hloose : ∀ name ∈ node.names, name ∉ loose) :
    node.Fitted (.blind rerun spots left right depth) D bound loose := by
  induction hn : node.height using Nat.strong_induction_on generalizing node bound loose with
  | _ n ih =>
    have hevaluated : ∀ name ∈ node.names, name ∉ node.evaluated := fun name hname hmem =>
      h.not_dresses hname (node.bind_subset_dresses (List.mem_of_mem_filter hmem))
    have hloose' := h.not_mem_append hloose
    refine .intro h.looksBack (fun entry hentry => h.apt (mem_directives_bind hentry) (fun _ => id) hloose')
      (fun _ name hname => h.not_reserved hname) (fun child hchild name hname => names_subset hchild hname)
      (fun child hchild => h.fits hchild (fun _ => And.left) (fun name hname => ?_) fun name hname => ?_)
      fun child hchild => ?_
    · have hmem := names_subset hchild hname
      exact ⟨⟨hmem, hbound name hmem⟩, fun _ => hevaluated name hmem⟩
    · exact hloose' name (names_subset hchild hname)
    · refine ih child.height (hn ▸ Node.height_child hchild) (h.child hchild) (fun name hname hmem => ?_)
        (fun name hname => hloose' name (names_subset hchild hname)) rfl
      have hmem' := names_subset hchild hname
      exact (List.mem_append.mp hmem).elim (hbound name hmem') (hevaluated name hmem')

/-! ### Poised trees -/

/-- A scene in a world. -/
structure Scene.Pervades (D : Scene σ) (w : World σ) : Prop where
  /-- Nothing in it leads out of it. -/
  closed : D.Closed w.store
  /-- What the host program remembers. -/
  memory : w.host = D.memory

theorem Scene.Pervades.touched {D : Scene σ} {w w' : World σ} {S : ElementId → Prop} (h : D.Pervades w)
    (hw : Touches S w w') : D.Pervades w' :=
  ⟨Region.Closed.grow h.closed hw.store, hw.host.trans h.memory⟩

theorem Scene.Pervades.worlds {D : Scene σ} {w s : World σ} {ρ : Link} (h : D.Pervades w) (h' : D.Pervades s)
    (hlevel : w.level = s.level) (hle : D.link ≤ ρ) (hstores : ρ.Stores w.store s.store) : ρ.Worlds D w s :=
  ⟨hle, hstores, hlevel, h.memory, h'.memory⟩

/-- A standing tree that keeps nothing that leads to elements, and asks the elements around for nothing
that they own. -/
structure Poised (D : Scene σ) (w : World σ) (node : Node Resolver) (e : ElementId) : Prop where
  /-- The tree. -/
  standing : Standing w node e
  /-- What it keeps. -/
  inert : w.Inert e
  /-- The scopes around it. -/
  veils : ∀ x, w.elements.get? e.row = some x → w.Veils w.store.inert.link (· ∈ node.names) x.context
  /-- What it asks for. -/
  discreet : node.Discreet D
  /-- What there is besides elements. -/
  pervades : D.Pervades w

/-- An element of a poised tree in the middle of an update. -/
structure Feeding (D : Scene σ) (w : World σ) (node : Node Resolver) (e : ElementId) (x : Element) : Prop where
  /-- The element. -/
  nursed : Nursed w node e x
  /-- What it keeps. -/
  inert : x.Inert w.store e
  /-- The trees in its slots. -/
  trees : ∀ slot ∈ x.slots, ∀ c ∈ slot.elements, w.Inert c
  /-- The scopes around it. -/
  veils : w.Veils w.store.inert.link (· ∈ node.names) x.context
  /-- What is asked for. -/
  discreet : node.Discreet D
  /-- What there is besides elements. -/
  pervades : D.Pervades w

section

variable {D : Scene σ} {w w' w₁ w₂ : World σ} {node : Node Resolver} {e c : ElementId} {x y : Element}
  {h : Headless} {enter : Enter σ} {slot : Slot} {done rest : List Slot} {memory : Memory}
  {es : List ElementId} {m : Nat}

theorem Poised.feeding (hp : Poised D w node e) : ∃ x, Feeding D w node e x ∧
    x.updater = some (.view node .headless) ∧ x.children <+: x.slots.flatMap Slot.elements := by
  obtain ⟨x, hnursed, hupdater, hchildren⟩ := hp.standing.inspect
  exact ⟨x, ⟨hnursed, hp.inert e x (.refl e) hnursed.get, fun slot hslot c hc =>
    hp.inert.child hnursed.get hslot hc, hp.veils x hnursed.get, hp.discreet, hp.pervades⟩, hupdater, hchildren⟩

namespace Feeding

theorem poised (hf : Feeding D w node e x) (hstanding : Standing w node e) : Poised D w node e := by
  refine ⟨hstanding, .intro hf.nursed.get hf.inert hf.trees, fun y hy => ?_, hf.discreet, hf.pervades⟩
  obtain rfl := Option.some.inj (hf.nursed.get.symm.trans hy)
  exact hf.veils

/-- The trees in the slots are poised. -/
theorem child (hf : Feeding D w node e x) (hslot : slot ∈ x.slots) (hc : c ∈ slot.elements) :
    Poised D w slot.node c := by
  have hlimb := hf.nursed.limbs slot hslot
  have hchild := hf.nursed.trunk.child hslot
  refine ⟨hlimb.standing c hc, hf.trees slot hslot c hc, fun y hy => ?_, hf.discreet.child hchild, hf.pervades⟩
  obtain ⟨z, hz, hfronts⟩ := Link.fronts_of_lodges hlimb.lodges (hf.inert.lists slot hslot) hc
  obtain rfl := Option.some.inj (hz.symm.trans hy)
  exact (hf.veils.mono (Link.le_refl _) fun name hname => Node.names_subset hchild hname).front
    hf.nursed.get (fun name hname => hf.nursed.trunk.hides hf.nursed.get
      (hf.discreet.not_reserved (Node.names_subset hchild hname))) hfronts

/-- The element as a scope, and the scopes around it. -/
theorem front (hf : Feeding D w node e x) (m : Nat) :
    w.Veils w.store.inert.link (· ∈ node.names) (.object (.scope m e) :: x.context) :=
  .scope m hf.nursed.get (fun _ hname => hf.nursed.trunk.hides hf.nursed.get (hf.discreet.not_reserved hname))
    hf.nursed.lineage hf.veils

theorem not_mem_context (hf : Feeding D w node e x) : ∀ a ∈ Context.elements x.context, a ≠ e := by
  rintro a ha rfl
  have hlength := (hf.veils.lineage_suffix ha).length_le
  rw [hf.nursed.lineage, List.length_cons] at hlength
  exact Nat.not_succ_le_self _ hlength

theorem worlds (hf : Feeding D w node e x) : w.store.inert.link.Worlds D w w :=
  hf.pervades.worlds hf.pervades rfl hf.pervades.closed.le_inert w.store.inert_closed

theorem near (hf : Feeding D w node e x) (loose : List String) (m : Nat) :
    w.store.inert.link.Near D (· ∈ node.names) loose (.object (.scope m e) :: x.context)
      (.object (.scope m e) :: x.context) w w :=
  ⟨hf.worlds, (hf.front m).kindred (hf.front m) loose⟩

/-- The element is changed, but not what is in its slots, and keeps what leads to no element. -/
theorem alter (hf : Feeding D w node e x) (hw : Touches (· = e) w w') (hy : Nursed w' node e y)
    (hslots : y.slots = x.slots) (hinert : y.Inert w'.store e) : Feeding D w' node e y := by
  have hcontext := hw.context_eq hf.nursed.get hy.get
  refine ⟨hy, hinert, fun slot hslot c hc => ?_, ?_, hf.discreet, hf.pervades.touched hw⟩
  · rw [hslots] at hslot
    refine (hf.trees slot hslot c hc).touched ((hf.nursed.limbs slot hslot).standing c hc) hw fun z hz => ?_
    rintro rfl
    exact (hf.nursed.inside (List.mem_flatMap.mpr ⟨slot, hslot, hc⟩)).not_below hz
  · rw [hcontext]
    exact (hf.veils.touched hw hf.not_mem_context).mono hw.store.inert_le fun _ => id

/-- A slot is evaluated. -/
theorem evaluated (hf : Feeding D w node e x) (hinnocent : Innocent D enter) (hharmless : Harmless enter)
    (hslots : x.slots = done ++ slot :: rest)
    (hserved : Served enter node e x h m done rest slot memory es w w₁ w₂) :
    Feeding D w₁ node e { x with slots := done ++ ⟨slot.node, memory⟩ :: rest } := by
  have hslot : slot ∈ x.slots := hslots ▸ List.mem_append_right _ List.mem_cons_self
  have hchild := hf.nursed.trunk.child hslot
  have hw := hserved.evaluates.touches
  have htree : ∀ other ∈ x.slots, ∀ c ∈ other.elements, w₁.Inert c := fun other hother c hc => by
    refine (hf.trees other hother c hc).touched ((hf.nursed.limbs other hother).standing c hc) hw fun z hz => ?_
    rintro rfl
    exact (hf.nursed.inside (List.mem_flatMap.mpr ⟨other, hother, hc⟩)).not_below hz
  have hfits : Link.Fits D (· ∈ node.names) (· ∈ node.names) [] [] slot.node :=
    hf.discreet.fits hchild (fun _ => id)
      (fun name hname => ⟨Node.names_subset hchild hname, fun _ => List.not_mem_nil⟩)
      fun _ _ => List.not_mem_nil
  have hrecalls : w.store.inert.link.Recalls e e x.context x.context slot.memory slot.memory :=
    fun last hlast => by
      have hretains := hf.inert.lists slot hslot last hlast
      exact ⟨last, hlast, hretains.list, List.forall₂_same.mpr hretains.contexts⟩
  obtain ⟨ρ, memory₁, memory₂, -, hfiled⟩ := ((hf.near [] m).mono (fun name hname => hname.1)
    (List.Subset.refl _) |>.evaluate hinnocent hharmless hfits hf.nursed.get hf.nursed.get hslots hslots
      (hf.nursed.limb hslots).lodges hrecalls).self hserved.evaluate
  have hmemory : ∀ memory', w₁.elements.get? e.row =
      some { x with slots := done ++ ⟨slot.node, memory'⟩ :: rest } → memory' = memory := fun memory' hx => by
    have heq := congrArg Element.slots (Option.some.inj (hx.symm.trans hserved.written.get))
    cases List.append_cancel_left heq
    rfl
  have h₁ := hmemory memory₁ hfiled.left
  have h₂ := hmemory memory₂ hfiled.right
  subst memory₁ memory₂
  have hstores := hfiled.stores
  have hmem : ∀ {other : Slot}, other ∈ done ++ ⟨slot.node, memory⟩ :: rest →
      other ∈ x.slots ∨ other = ⟨slot.node, memory⟩ := fun {other} hother => by
    rw [hslots]
    rcases List.mem_append.mp hother with hdone | hrest
    · exact .inl (List.mem_append_left _ hdone)
    · rcases List.mem_cons.mp hrest with rfl | hrest
      · exact .inr rfl
      · exact .inl (List.mem_append_right _ (List.mem_cons_of_mem _ hrest))
  refine ⟨hserved.written, ⟨fun c hc name v hv => (hf.inert.attributes c hc name v hv).mono hw.store.inert_le,
    fun other hother last hlast => ?_⟩, fun other hother c hc => ?_, ?_, hf.discreet, hf.pervades.touched hw⟩
  · rcases hmem hother with hold | rfl
    · exact (hf.inert.lists other hold last hlast).mono hw.store.inert_le
    · obtain ⟨_, hlast', hlist, hcontexts⟩ := hfiled.recalls last hlast
      cases hlast.symm.trans hlast'
      exact ⟨hlist.inert hstores, fun context hcontext =>
        (List.forall₂_same.mp hcontexts context hcontext).inert hstores⟩
  · rcases hmem hother with hold | rfl
    · exact htree other hold c hc
    · rw [hserved.elements] at hc
      rcases List.forall₂_same.mp hfiled.children c hc with ⟨_, _, -, hcognate⟩ | ⟨-, hold⟩
      · exact .of_cognate hcognate hstores
      · exact htree slot hslot c hold
  · exact (hf.veils.touched hw hf.not_mem_context).mono hw.store.inert_le fun _ => id

/-- The slots are filled. -/
theorem fill (hf : Feeding D w node e x) (hinnocent : Innocent D enter) (hharmless : Harmless enter)
    (hc : x.component = .headless h) (hslots : x.slots = done ++ rest)
    (hrun : (Build.fill e (.object (.scope m e) :: x.context) .headless done.length rest).run.runIn enter w =
      (some (.ok ()), w')) : ∃ y, Feeding D w' node e y := by
  induction rest generalizing done w x h with
  | nil =>
    cases hrun
    exact ⟨x, hf⟩
  | cons slot rest ih =>
    obtain ⟨es, w₁, hevaluate, hrun⟩ := Build.runIn_bindE_eq_ok hrun
    obtain ⟨memory, w₂, hserved⟩ := hf.nursed.served hharmless hc hslots hevaluate
    rw [Build.runIn_bindE_ok hserved.append] at hrun
    have hrun₂ : (Build.fill e (.object (.scope m e) :: x.context) .headless
        (done ++ [Slot.mk slot.node memory]).length rest).run.runIn enter w₂ = (some (.ok ()), w') := by
      rw [List.length_append]
      exact hrun
    have hevaluated := hf.evaluated hinnocent hharmless hslots hserved
    refine ih (hevaluated.alter hserved.edits.touches hserved.shown rfl ⟨fun k hk name v hv => ?_, ?_⟩) rfl
      (List.append_cons done _ rest) hrun₂
    · obtain rfl := Component.headless.inj hk
      exact (hevaluated.inert.grow hserved.edits.touches.store).attributes h hc name v hv
    · exact (hevaluated.inert.grow hserved.edits.touches.store).lists

/-- The bound attributes are set. -/
theorem assign (hf : Feeding D w node e x) (hinnocent : Innocent D enter) (hharmless : Harmless enter)
    (hheld : e ∈ w.held) (hc : x.component = .headless h)
    (hrun : (Build.assign e (.object (.scope m e) :: x.context) node.bind).run.runIn enter w =
      (some (.ok ()), w')) : ∃ y, Feeding D w' node e y := by
  have hself : ∀ name, Option.Rel w.store.inert.link.Values (h.attributes.get? name) (h.attributes.get? name) :=
    fun name => by
      cases hv : h.attributes.get? name with
      | none => exact .none
      | some v => exact .some (hf.inert.attributes h hc name v hv)
  have hkin : w.store.inert.link.Kin w w (Uncovered (· ∈ node.names) []) node.dresses e e x x h h :=
    ⟨⟨hf.nursed.get, hc, hf.nursed.trunk.idle⟩, ⟨hf.nursed.get, hc, hf.nursed.trunk.idle⟩, hheld, hheld, rfl,
      fun name _ _ => hself name, fun _ _ => hf.nursed.trunk.calls hc⟩
  have hnear : w.store.inert.link.Near D (· ∈ node.names) node.dresses x.context x.context w w :=
    ⟨hf.worlds, hf.veils.kindred hf.veils _⟩
  obtain ⟨ρ, written, written', hextends, hstores, hfirst, ⟨-, hy'⟩, hwritten, hnames⟩ :=
    (Link.Kin.assign hinnocent hharmless (fun entry hentry => hf.discreet.apt (Node.mem_directives_bind hentry)
      (fun _ => id) fun _ hname => hf.discreet.not_dresses hname) node.bind_subset_dresses (uncovers_nil _) hkin
      hnear m m hf.nursed.lineage hf.nursed.lineage).self hrun
  have hw : Touches (· = e) w w' := hfirst.1.touches
  have heq : h.attributes.putAll written' = h.attributes.putAll written := by
    have hcomponents := congrArg Element.component (Option.some.inj (hy'.symm.trans hfirst.2))
    exact congrArg Headless.attributes (Component.headless.inj hcomponents)
  refine ⟨_, hf.alter hw (hf.nursed.written hc (hnames ▸ node.bind_subset_dresses) hfirst) rfl
    ⟨fun k hk name v hv => ?_, (hf.inert.grow hw.store).lists⟩⟩
  obtain rfl := Component.headless.inj hk
  have hrel : Option.Rel ρ.Values ((h.attributes.putAll written).get? name)
      ((h.attributes.putAll written').get? name) :=
    ReactiveViews.Fields.Related.get?_putAll hwritten fun _ =>
      optionRel_imp (hself name) fun _ _ hv => hv.mono hextends.le
  rw [heq, hv] at hrel
  cases hrel with
  | some hv => exact hv.inert hstores

/-- The updater of the node runs. -/
theorem lap {w₃ w₄ : World σ} {slots : List Slot} {written : List (String × Value)}
    (hf : Feeding D w₁ node e (x.opened h)) (hinnocent : Innocent D enter) (hharmless : Harmless enter)
    (hheld : e ∈ w₁.held) (hlap : Lap enter node e x h m slots written w₁ w₂ w₃ w₄) :
    Feeding D w₄ node e (x.refreshed node h slots written) := by
  obtain ⟨y, hfed⟩ := hf.fill hinnocent hharmless rfl (List.nil_append _).symm hlap.fill
  obtain rfl := Option.some.inj (hfed.nursed.get.symm.trans hlap.fed.get)
  obtain ⟨y, hdressed⟩ := hfed.assign hinnocent hharmless (hlap.fills.held ▸ hheld) rfl hlap.assign
  obtain rfl := Option.some.inj (hdressed.nursed.get.symm.trans hlap.dressed.get)
  have hkeeps := hdressed.inert.grow hlap.edits.touches.store
  exact hdressed.alter hlap.edits.touches hlap.nursed rfl ⟨hkeeps.attributes, hkeeps.lists⟩

end Feeding

/-- The updater of the node begins. -/
theorem Poised.opened (hp : Poised D w node e) (hx : w.elements.get? e.row = some x)
    (hc : x.component = .headless h) (hw : Edits e { w with held := e :: w.held } w₁)
    (hopened : Nursed w₁ node e (x.opened h)) : Feeding D w₁ node e (x.opened h) := by
  obtain ⟨y, hf, -⟩ := hp.feeding
  obtain rfl := Option.some.inj (hx.symm.trans hf.nursed.get)
  have hw₁ : Touches (· = e) w w₁ := (Touches.of_held w _).trans hw.touches
  have hkeeps := hf.inert.grow hw₁.store
  refine hf.alter hw₁ hopened rfl ⟨fun k hk => ?_, hkeeps.lists⟩
  obtain rfl := Component.headless.inj hk
  exact hkeeps.attributes h hc

end

end ReactiveViews
