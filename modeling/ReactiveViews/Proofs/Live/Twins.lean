import ReactiveViews.Proofs.Live.Drawing
import ReactiveViews.Proofs.Live.Matching

/-!
# Trees that two runs find

Two runs of one update may begin in worlds that have gone different ways for a while, in which some of the
elements of the tree, the *spots*, have been updated or not. What is not below a spot is the same in both
worlds, and what is found there and not evaluated anew is linked: such trees are *twins*.

Where no expression asks for an attribute of the elements around it, contexts are *veiled*: it does not
matter which attributes these elements have.
-/

namespace ReactiveViews

variable {σ : Type}

/-! ### Worlds that spare a tree -/

/-- A world that has come from another one in which the tree of an element was what it still is. -/
structure World.Spares (v w : World σ) (b : ElementId) : Prop where
  /-- The element is there. -/
  get : ∃ x, v.elements.get? b.row = some x
  /-- Nothing in its tree has been touched. -/
  touches : Touches (fun z => ¬ v.Below b z) v w

namespace World.Spares

variable {v w w' : World σ} {b : ElementId}

theorem refl (hb : ∃ x, v.elements.get? b.row = some x) : v.Spares v b := ⟨hb, .refl v⟩

theorem get_right (h : v.Spares w b) : ∃ x, w.elements.get? b.row = some x := by
  obtain ⟨x, hx⟩ := h.get
  exact ⟨x, h.touches.get? hx (not_not_intro (.refl v b))⟩

theorem later {T : ElementId → Prop} (h : v.Spares w b) (hw : Touches T w w')
    (hT : ∀ z, w.Below b z → ¬ T z) : v.Spares w' b :=
  ⟨h.get, h.touches.transport hw fun z hz hTz hbelow => hT z ((h.touches.below h.get hz).mpr hbelow) hTz⟩

theorem alike (h : v.Spares w b) : v.Alike w b := fun _ _ hbelow hy =>
  h.touches.get? hy (not_not_intro hbelow)

end World.Spares

/-! ### Veiled contexts -/

/-- Scopes that are linked values, or elements that own none of the names that may be asked for. -/
inductive World.Veils (w : World σ) (ρ : Link) (asked : String → Prop) : Context → Prop where
  /-- No scopes. -/
  | nil : Veils w ρ asked []
  /-- A value. -/
  | value {v : Value} {C : Context} : ρ.Values v v → Veils w ρ asked C → Veils w ρ asked (v :: C)
  /-- An element. -/
  | scope (m : Nat) {e : ElementId} {x : Element} {C : Context} : w.elements.get? e.row = some x →
    (∀ name, asked name → w.Hides [name] e) → w.lineage e = e :: Context.elements C → Veils w ρ asked C →
    Veils w ρ asked (.object (.scope m e) :: C)

namespace World.Veils

variable {w w' s : World σ} {ρ ρ' : Link} {asked asked' : String → Prop} {C : Context}

theorem of_values (h : ∀ v ∈ C, ρ.Values v v) : w.Veils ρ asked C := by
  induction C with
  | nil => exact .nil
  | cons v C ih =>
    obtain ⟨hv, hC⟩ := List.forall_mem_cons.mp h
    exact .value hv (ih hC)

theorem mono (h : w.Veils ρ asked C) (hle : ρ ≤ ρ') (hasked : ∀ name, asked' name → asked name) :
    w.Veils ρ' asked' C := by
  induction h with
  | nil => exact .nil
  | value hv _ ih => exact .value (hv.mono hle) ih
  | scope m hx hhides hlineage _ ih =>
    exact .scope m hx (fun name hname => hhides name (hasked name hname)) hlineage ih

/-- Contexts that are veiled in both worlds are read in the same way. -/
theorem kindred (h : w.Veils ρ asked C) (h' : s.Veils ρ' asked C) (loose : List String) :
    ρ.Kindred w s asked loose C C := by
  induction h with
  | nil => exact .nil
  | value hv _ ih =>
    cases h' with
    | value _ hC => exact .value hv (ih hC)
    | scope => cases hv with | plain h => cases h
  | scope m hx hhides hlineage _ ih =>
    cases h' with
    | value hv => cases hv with | plain h => cases h
    | scope _ hx' hhides' hlineage' hC => exact .blind m m hx hx' hhides hhides' hlineage hlineage' (ih hC)

/-- Contexts stay veiled while something goes on inside of their elements. -/
theorem leaves {n : Nat} (h : w.Veils ρ asked C) (hw : Leaves n w w')
    (hn : (Context.elements C).length ≤ n) : w'.Veils ρ asked C := by
  induction h with
  | nil => exact .nil
  | value hv _ ih =>
    rw [(hv.elements_cons _ []).1] at hn
    exact .value hv (ih hn)
  | @scope m e x C hx hhides hlineage _ ih =>
    have hlength : (Context.elements (.object (.scope m e) :: C)).length =
      (Context.elements C).length + 1 := rfl
    have hle : (w.lineage e).length ≤ n := by
      rw [hlineage]
      exact hlength ▸ hn
    refine .scope m (hw.touches.get? hx (Nat.not_lt.mpr hle))
      (fun name hname => Link.hides_of_leaves (hhides name hname) hw hle) ?_ (ih (by omega))
    rw [hw.touches.lineage hx, hlineage]

/-- The elements around an element of the context are in the context. -/
theorem lineage_suffix (h : w.Veils ρ asked C) {a : ElementId} (ha : a ∈ Context.elements C) :
    w.lineage a <:+ Context.elements C := by
  induction h with
  | nil => cases ha
  | @value v C hv _ ih =>
    rw [(hv.elements_cons C []).1] at ha ⊢
    exact ih ha
  | @scope m e x C hx hhides hlineage _ ih =>
    rcases List.mem_cons.mp ha with rfl | ha
    · exact hlineage ▸ List.suffix_rfl
    · exact (ih ha).trans (List.suffix_cons _ _)

/-- Contexts stay veiled while none of their elements is touched. -/
theorem touched {S : ElementId → Prop} (h : w.Veils ρ asked C) (hw : Touches S w w')
    (hS : ∀ a ∈ Context.elements C, ¬ S a) : w'.Veils ρ asked C := by
  induction h with
  | nil => exact .nil
  | @value v C hv _ ih =>
    rw [(hv.elements_cons C []).1] at hS
    exact .value hv (ih hS)
  | @scope m e x C hx hhides hlineage _ ih =>
    have he : ¬ S e := hS e List.mem_cons_self
    refine .scope m (hw.get? hx he) (fun name hname => ?_) ?_ (ih fun a ha => hS a (List.mem_cons_of_mem _ ha))
    · obtain ⟨y, c, hy, hrest⟩ := hhides name hname
      exact ⟨y, c, hw.get? hy he, hrest⟩
    · rw [hw.lineage hx, hlineage]

/-- What is linked in one world, and the elements in another one. -/
theorem replace (h : w.Veils ρ asked C) (h' : s.Veils ρ' asked' C) : s.Veils ρ asked' C := by
  induction h with
  | nil => exact .nil
  | value hv _ ih =>
    cases h' with
    | value _ hC => exact .value hv (ih hC)
    | scope => cases hv with | plain h => cases h
  | scope _ _ _ _ _ ih =>
    cases h' with
    | value hv => cases hv with | plain h => cases h
    | scope _ hx hhides hlineage hC => exact .scope _ hx hhides hlineage (ih hC)

/-- Inside of an element that owns none of the names. -/
theorem front {e : ElementId} {x : Element} {context : Context} (h : w.Veils ρ asked x.context)
    (hx : w.elements.get? e.row = some x) (hhides : ∀ name, asked name → w.Hides [name] e)
    (hfronts : ρ.Fronts e e x.context x.context context context) : w.Veils ρ asked context := by
  obtain ⟨m, m', front, front', rfl, heq, hall⟩ := hfronts
  obtain ⟨rfl, -⟩ := List.append_inj' heq rfl
  clear heq
  induction front with
  | nil => exact .scope m hx hhides (World.lineage_eq hx) h
  | cons v front ih =>
    obtain ⟨hv, hall⟩ := List.forall₂_cons.mp hall
    exact .value hv (ih hall)

end World.Veils

/-- An element of a node owns nothing but what the tag tells and the directives set. -/
theorem Trunk.hides {w : World σ} {node : Node Resolver} {e : ElementId} {x : Element} (h : Trunk node x)
    (hx : w.elements.get? e.row = some x) {name : String} (hname : name ∉ node.reserved) :
    w.Hides [name] e := by
  obtain ⟨-, hidle, -, c, hc, -, hwears⟩ := h
  refine ⟨x, c, hx, hc, hidle, List.forall_mem_singleton.mpr ⟨fun htag => hname ?_, ?_⟩⟩
  · exact htag ▸ List.mem_cons_self
  · have hdresses : name ∉ node.dresses := fun hmem => hname (by simp_all [Node.reserved, Node.dresses])
    have htold : name ∉ node.told.keys := fun hmem => hname (node.dressed_told.keys hmem)
    rw [← Fields.get?_eq_none_iff, hwears.told name hdresses, Fields.get?_eq_none_iff]
    exact htold

/-! ### Twins -/

/-- What an element owns that is not bound, and what its slots remember of lists, stands for itself. -/
structure Element.Owns (ρ : Link) (y : ElementId) (x : Element) : Prop where
  /-- The attributes. -/
  attributes : ∀ h node factory, x.component = .headless h → x.updater = some (.view node factory) →
    ∀ name v, name ∉ node.bind.map (·.1) → h.attributes.get? name = some v → ρ.Values v v
  /-- The lists. -/
  lists : ∀ slot ∈ x.slots, ∀ last, slot.memory = .repeated (some last) → ρ.Retains y x.context last

theorem Element.Owns.mono {ρ ρ' : Link} {y : ElementId} {x : Element} (h : x.Owns ρ y) (hle : ρ ≤ ρ') :
    x.Owns ρ' y where
  attributes c node factory hc hu name v hname hv := (h.attributes c node factory hc hu name v hname hv).mono hle
  lists slot hslot last hlast := (h.lists slot hslot last hlast).mono hle

/-- How two runs are compared: what may be asked for at the elements of a node, whether the elements around
it hide this, whether the second run goes on where the first one ends, and which elements have been updated
in one of the runs only. -/
structure Trial (σ : Type) where
  /-- What may be asked for. -/
  asked : Node Resolver → String → Prop
  /-- Whether it is hidden. -/
  veiled : Prop
  /-- Whether the second run goes on where the first one ends. -/
  rerun : Prop
  /-- The elements. -/
  spots : List ElementId
  /-- The world of the first run in which they were left. -/
  left : World σ
  /-- The world of the second run in which they were left. -/
  right : World σ
  /-- How deep calls are nested when they are updated. -/
  depth : Nat

/-- What may be asked for at an element of a node and is not bound around it. -/
def Trial.known (K : Trial σ) (node : Node Resolver) (bound : List String) (name : String) : Prop :=
  K.asked node name ∧ name ∉ bound

namespace Link

variable {ρ ρ' : Link} {K : Trial σ} {n : Nat} {w w' s s' : World σ} {node : Node Resolver}
  {e b c : ElementId} {x : Element} {C : Context}

/-- A spot in a tree that two runs find, which may go so many calls down. -/
structure Spot (K : Trial σ) (n : Nat) (w s : World σ) (b : ElementId) : Prop where
  /-- What it is in the first run. -/
  left : K.left.Spares w b
  /-- What it is in the second run. -/
  right : K.right.Spares s b
  /-- The scopes around it are the same. -/
  context : ∀ x x', w.elements.get? b.row = some x → s.elements.get? b.row = some x' → x'.context = x.context
  /-- There are enough calls left for it. -/
  room : K.depth ≤ n

theorem Spot.lineage_eq (h : Spot K n w s b) : s.lineage b = w.lineage b := by
  obtain ⟨x, hx⟩ := h.left.get_right
  obtain ⟨x', hx'⟩ := h.right.get_right
  rw [World.lineage_eq hx, World.lineage_eq hx', h.context x x' hx hx']

theorem Spot.touched {S T : ElementId → Prop} (h : Spot K n w s b) (hw : Touches S w w')
    (hS : ∀ z, w.Below b z → ¬ S z) (hs : Touches T s s') (hT : ∀ z, s.Below b z → ¬ T z) :
    Spot K n w' s' b where
  left := h.left.later hw hS
  right := h.right.later hs hT
  context x x' hx hx' := by
    obtain ⟨y, hy⟩ := h.left.get_right
    obtain ⟨y', hy'⟩ := h.right.get_right
    obtain rfl := Option.some.inj ((hw.get? hy (hS b (.refl w b))).symm.trans hx)
    obtain rfl := Option.some.inj ((hs.get? hy' (hT b (.refl s b))).symm.trans hx')
    exact h.context _ _ hy hy'
  room := h.room

/-- A tree that two runs find, which may go so many calls down: what is not below a spot is the same in both
worlds. -/
structure Twin (ρ : Link) (K : Trial σ) (n : Nat) (w s : World σ) (node : Node Resolver) (e : ElementId)
    (C : Context) : Prop where
  /-- The one tree. -/
  standing : Standing w node e
  /-- The other tree. -/
  standing' : Standing s node e
  /-- The one element. -/
  get : ∃ x, w.elements.get? e.row = some x ∧ x.context = C
  /-- The other element. -/
  get' : ∃ x, s.elements.get? e.row = some x ∧ x.context = C
  /-- What is the same. -/
  alike : ∀ y x, w.Encloses e y → ¬ w.BelowAny K.spots y → w.elements.get? y.row = some x →
    s.elements.get? y.row = some x ∧ x.Owns ρ y
  /-- The spots are there. -/
  exist : ∀ b ∈ K.spots, ∃ x, w.elements.get? b.row = some x
  /-- The spots in the tree. -/
  spots : ∀ b ∈ K.spots, w.Encloses e b → Spot K (n - node.height) w s b ∧ node.height ≤ n
  /-- It is in no tree of a spot. -/
  outer : ∀ b ∈ K.spots, w.Below b e → e = b

/-- Elements of a tree that is not touched enclose the same elements. -/
theorem encloses_touched {S : ElementId → Prop} (h : Standing w node e) (hw : Touches S w w')
    (hS : ∀ z, w.Below e z → ¬ S z) {y : ElementId} (hy : w'.Encloses e y) : w.Encloses e y := by
  induction hy generalizing node with
  | refl e => exact .refl e
  | @inner e c z x slot hx hslot hc _ ih =>
    obtain ⟨x', hnursed, -⟩ := h.inspect
    obtain rfl := Option.some.inj ((hw.get? hnursed.get (hS e (.refl w e))).symm.trans hx)
    have hinside := hnursed.inside (List.mem_flatMap.mpr ⟨slot, hslot, hc⟩)
    exact .inner hnursed.get hslot hc (ih ((hnursed.limbs slot hslot).standing c hc)
      fun z hz => hS z (hinside.below.trans hz))

namespace Twin

theorem lineage_eq (h : ρ.Twin K n w s node e C) : s.lineage e = w.lineage e := by
  obtain ⟨x, hx, hcontext⟩ := h.get
  obtain ⟨x', hx', hcontext'⟩ := h.get'
  rw [World.lineage_eq hx, World.lineage_eq hx', hcontext, hcontext']

/-- Twins stay twins as long as nothing in their trees is touched. -/
theorem touched {S T : ElementId → Prop} (h : ρ.Twin K n w s node e C) (hle : ρ ≤ ρ') (hw : Touches S w w')
    (hS : ∀ z, w.Below e z → ¬ S z) (hs : Touches T s s') (hT : ∀ z, s.Below e z → ¬ T z) :
    ρ'.Twin K n w' s' node e C where
  standing := h.standing.touched hw hS
  standing' := h.standing'.touched hs hT
  get := by
    obtain ⟨x, hx, hcontext⟩ := h.get
    exact ⟨x, hw.get? hx (hS e (.refl w e)), hcontext⟩
  get' := by
    obtain ⟨x, hx, hcontext⟩ := h.get'
    exact ⟨x, hs.get? hx (hT e (.refl s e)), hcontext⟩
  alike y x hy hout hx := by
    have hyw := encloses_touched h.standing hw hS hy
    have hbelow := h.standing.below_of_encloses hyw
    obtain ⟨child, hchild⟩ := h.standing.encloses hyw
    obtain ⟨z, hz⟩ := hchild.get
    obtain rfl := Option.some.inj ((hw.get? hz (hS y hbelow)).symm.trans hx)
    have houtw : ¬ w.BelowAny K.spots y := fun ⟨b, hb, hby⟩ =>
      hout ⟨b, hb, (hw.below (h.exist b hb) ⟨z, hz⟩).mpr hby⟩
    obtain ⟨hs', howns⟩ := h.alike y z hyw houtw hz
    refine ⟨hs.get? hs' (hT y ?_), howns.mono hle⟩
    rw [World.Below, h.lineage_eq, World.lineage_eq hs', ← World.lineage_eq hz]
    exact hbelow
  exist b hb := by
    obtain ⟨x, hx⟩ := h.exist b hb
    obtain ⟨x', hx', -⟩ := hw.element b x hx
    exact ⟨x', hx'⟩
  spots b hb hyb := by
    have hyw := encloses_touched h.standing hw hS hyb
    have hbelow := h.standing.below_of_encloses hyw
    obtain ⟨hspot, hroom⟩ := h.spots b hb hyw
    refine ⟨hspot.touched hw (fun z hz => hS z (hbelow.trans hz)) hs fun z hz => hT z (.trans ?_ hz), hroom⟩
    rw [World.Below, h.lineage_eq, hspot.lineage_eq]
    exact hbelow
  outer b hb hbelow := by
    obtain ⟨x, hx, -⟩ := h.get
    exact h.outer b hb ((hw.below (h.exist b hb) ⟨x, hx⟩).mp hbelow)

/-- A child of a twin. -/
theorem child {slot : Slot} (h : ρ.Twin K n w s node e C) (hnot : e ∉ K.spots)
    (hx : w.elements.get? e.row = some x) (hslot : slot ∈ x.slots) (hc : c ∈ slot.elements) :
    ∃ y, w.elements.get? c.row = some y ∧ ρ.Fronts e e x.context x.context y.context y.context ∧
      ρ.Twin K (n - 1) w s slot.node c y.context := by
  have hout : ¬ w.BelowAny K.spots e := fun ⟨b, hb, hbelow⟩ => hnot (h.outer b hb hbelow ▸ hb)
  obtain ⟨hx', howns⟩ := h.alike e x (.refl e) hout hx
  obtain ⟨z, hnursed, -⟩ := h.standing.inspect
  obtain rfl := Option.some.inj (hx.symm.trans hnursed.get)
  obtain ⟨z', hnursed', -⟩ := h.standing'.inspect
  obtain rfl := Option.some.inj (hx'.symm.trans hnursed'.get)
  have hmem : c ∈ x.slots.flatMap Slot.elements := List.mem_flatMap.mpr ⟨slot, hslot, hc⟩
  have hinside := hnursed.inside hmem
  have hheight := Node.height_child (hnursed.trunk.child hslot)
  have houter : ∀ b ∈ K.spots, w.Below b c → c = b := fun b hb hbelow => by
    obtain ⟨-, -, hlineage⟩ := hinside
    rw [World.Below, hlineage] at hbelow
    rcases List.suffix_cons_iff.mp hbelow with heq | hsuffix
    · exact (List.cons.inj heq).1.symm
    · exact (hout ⟨b, hb, hsuffix⟩).elim
  obtain ⟨y, hy, hfronts⟩ := fronts_of_lodges (hnursed.limbs slot hslot).lodges (howns.lists slot hslot) hc
  have hspots : ∀ b ∈ K.spots, w.Encloses c b → Spot K (n - 1 - slot.node.height) w s b ∧
      slot.node.height ≤ n - 1 := fun b hb hcb => by
    obtain ⟨hspot, hroom⟩ := h.spots b hb (.inner hx hslot hc hcb)
    exact ⟨{ hspot with room := hspot.room.trans (by omega) }, by omega⟩
  refine ⟨y, hy, hfronts, (hnursed.limbs slot hslot).standing c hc, (hnursed'.limbs slot hslot).standing c hc,
    ⟨y, hy, rfl⟩, ?_, fun z v hz => h.alike z v (.inner hx hslot hc hz), h.exist, hspots, houter⟩
  by_cases hspot : c ∈ K.spots
  · obtain ⟨hspot, -⟩ := hspots c hspot (.refl c)
    obtain ⟨y', hy'⟩ := hspot.right.get_right
    exact ⟨y', hy', hspot.context y y' hy hy'⟩
  · obtain ⟨hy', -⟩ := h.alike c y (.inner hx hslot hc (.refl c))
      (fun ⟨b, hb, hbelow⟩ => hspot (houter b hb hbelow ▸ hb)) hy
    exact ⟨y, hy', rfl⟩

end Twin

/-- A tree in a slot of an element in either world, which two runs find. -/
def Shared (ρ : Link) (K : Trial σ) (n : Nat) (w s : World σ) (child : Node Resolver) (e e' : ElementId)
    (C C' : Context) (c : ElementId) : Prop :=
  ∃ y, w.elements.get? c.row = some y ∧ ρ.Fronts e e' C C' y.context y.context ∧
    ρ.Twin K n w s child c y.context

namespace Shared

variable {child : Node Resolver} {e' : ElementId} {C' : Context}

theorem inside (h : ρ.Shared K n w s child e e' C C' c) (hlineage : w.lineage e = e :: Context.elements C) :
    w.Inside e c := by
  obtain ⟨y, hy, hfronts, -⟩ := h
  exact ⟨y, hy, by rw [World.lineage_eq hy, hfronts.elements_eq.1, hlineage]⟩

theorem touched {S T : ElementId → Prop} (h : ρ.Shared K n w s child e e' C C' c) (hle : ρ ≤ ρ')
    (hw : Touches S w w') (hS : ∀ z, w.Below c z → ¬ S z) (hs : Touches T s s')
    (hT : ∀ z, s.Below c z → ¬ T z) : ρ'.Shared K n w' s' child e e' C C' c := by
  obtain ⟨y, hy, hfronts, htwin⟩ := h
  exact ⟨y, hw.get? hy (hS c (.refl w c)), hfronts.mono hle, htwin.touched hle hw hS hs hT⟩

end Shared

end Link

end ReactiveViews
