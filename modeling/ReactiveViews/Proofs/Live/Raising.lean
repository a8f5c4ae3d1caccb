import ReactiveViews.Proofs.Live.Building
import ReactiveViews.Proofs.Live.Overlays
import ReactiveViews.Proofs.Live.Rendering

/-!
# Raising elements

How the elements of a node are made and get what is in them, followed side by side with a rendering of
the node. On the one side there are new elements; on the other side there are none, and the worlds
overlay each other at every step.

An element that has been made is *ready* for a bud of the rendering: it has its attributes, its updater
and empty slots. During its first update it gets its children, which are ready for the buds of its
child nodes, and its bound attributes.

## What is proved

Making elements answers like sprouting (`Faces.create`, `Faces.instantiate`), and the first update of
an element that is ready answers like the first half of finishing it (`Shooting.refresh`).
-/

namespace ReactiveViews

variable {σ α β γ ε ε' : Type}

/-! ### One side alone -/

/-- The second result is there, and so the first one is. -/
theorem Answers.of_right {Q : α → β → World σ → World σ → Prop} {x : Option (Except ε α) × World σ}
    {b : β} {s : World σ} (h : Answers (Tally Q) x ((some (.ok b), s) : Option (Except ε' β) × World σ)) :
    ∃ a w, x = (some (.ok a), w) ∧ Q a b w s := by
  cases h with
  | both htally =>
    cases htally with
    | ok hQ => exact ⟨_, _, rfl, hQ⟩

/-- The first result is there, and so the second one is. -/
theorem Answers.of_left {Q : α → β → World σ → World σ → Prop} {y : Option (Except ε' β) × World σ}
    {a : α} {w : World σ} (h : Answers (Tally Q) ((some (.ok a), w) : Option (Except ε α) × World σ) y) :
    ∃ b s, y = (some (.ok b), s) ∧ Q a b w s := by
  cases h with
  | both htally =>
    cases htally with
    | ok hQ => exact ⟨_, _, rfl, hQ⟩

/-- The first act goes on alone, and succeeds. -/
theorem Answers.thenLeft {Q : α → β → World σ → World σ → Prop} {R : γ → β → World σ → World σ → Prop}
    {enter : Enter σ} {w : World σ} {act : ExceptT ε (Act σ) α} {f : α → ExceptT ε (Act σ) γ}
    {y : Option (Except ε' β) × World σ} (h : Answers (Tally Q) (act.run.runIn enter w) y)
    (hf : ∀ a b w' s', Q a b w' s' →
      ∃ c w'', (f a).run.runIn enter w' = (some (.ok c), w'') ∧ R c b w'' s') :
    Answers (Tally R) ((act >>= f).run.runIn enter w) y := by
  rw [ExceptT.run_bind, Act.runIn_bind]
  generalize act.run.runIn enter w = x at h
  cases h with
  | neither w s => exact .neither w s
  | both htally =>
    cases htally with
    | error e e' => exact .both (.error e e')
    | ok hQ =>
      obtain ⟨c, w'', hrun, hR⟩ := hf _ _ _ _ hQ
      dsimp only
      rw [hrun]
      exact .both (.ok hR)

/-- The second act goes on alone, and succeeds. -/
theorem Answers.thenRight {Q : α → β → World σ → World σ → Prop} {R : α → γ → World σ → World σ → Prop}
    {x : Option (Except ε α) × World σ} {enter : Enter σ} {s : World σ} {act : ExceptT ε' (Act σ) β}
    {g : β → ExceptT ε' (Act σ) γ} (h : Answers (Tally Q) x (act.run.runIn enter s))
    (hg : ∀ a b w' s', Q a b w' s' →
      ∃ c s'', (g b).run.runIn enter s' = (some (.ok c), s'') ∧ R a c w' s'') :
    Answers (Tally R) x ((act >>= g).run.runIn enter s) := by
  rw [ExceptT.run_bind, Act.runIn_bind]
  generalize act.run.runIn enter s = y at h
  cases h with
  | neither w s => exact .neither w s
  | both htally =>
    cases htally with
    | error e e' => exact .both (.error e e')
    | ok hQ =>
      obtain ⟨c, s'', hrun, hR⟩ := hg _ _ _ _ hQ
      dsimp only
      rw [hrun]
      exact .both (.ok hR)

/-- The first act lets go of elements if it fails. -/
theorem Answers.releasing {Q : α → β → World σ → World σ → Prop} {enter : Enter σ} {w : World σ}
    {act : Build σ α} {y : Option (Except ε' β) × World σ} (es : List ElementId)
    (h : Answers (Tally Q) (act.run.runIn enter w) y) :
    Answers (Tally Q) ((Build.releasing es act).run.runIn enter w) y := by
  generalize hrun : act.run.runIn enter w = x at h
  cases h with
  | neither w s =>
    rw [Build.runIn_releasing_none hrun]
    exact .neither w s
  | both htally =>
    cases htally with
    | error e e' =>
      obtain ⟨w'', hreleased⟩ : ∃ w'', (Build.releasing es act).run.runIn enter w =
        (some (.error e), w'') := Build.runIn_releasing_error hrun
      rw [hreleased]
      exact .both (.error e e')
    | ok hQ =>
      rw [Build.runIn_releasing_ok hrun]
      exact .both (.ok hQ)

theorem Element.keeps_iff {x : Element} {c : ElementId} :
    x.keeps c = true ↔ c ∈ x.children ∨ ∃ slot ∈ x.slots, c ∈ slot.elements := by
  simp [keeps]

namespace Overlays

variable {n : Nat} {enter : Enter σ} {w s s' : World σ} {e : ElementId} {x y : Element}

/-- A message in the world without new elements. -/
theorem message_right (h : Overlays n w s) (helements : s'.elements = s.elements)
    (hs : Edits e s s') : Overlays n w s' where
  store := h.store.trans hs.store.symm
  level := h.level.trans hs.level.symm
  host := h.host.trans hs.host.symm
  schedulers := h.schedulers.trans hs.schedulers.symm
  receivers := h.receivers.trans hs.receivers.symm
  size := helements ▸ h.size
  size_le := h.size_le
  old row hrow := helements ▸ h.old row hrow
  new := h.new
  held c hc := hs.held ▸ h.held c hc
  within := ⟨hs.store ▸ h.within.items, hs.store ▸ h.within.fields, helements ▸ h.within.attributes⟩

/-- A message in the world with new elements. -/
theorem message_left {w' : World σ} (h : Overlays n w s) (helements : w'.elements = w.elements)
    (hw : ∀ e, Edits e w w') : Overlays n w' s :=
  -- whichever new element may be edited, it is not
  h.edits (hw ⟨n⟩) (Nat.le_refl _) fun x hx => h.new ⟨n⟩ x (Nat.le_refl _) (helements ▸ hx)

/-- A new element is altered, and what it keeps is new. -/
theorem alters (h : Overlays n w s) (hx : w.elements.get? e.row = some x) (he : n ≤ e.row)
    {act : Act σ α} {a : α} (hact : Alters enter w e act a y)
    (hkeeps : ∀ c, y.keeps c = true → x.keeps c = true ∨ n ≤ c.row) :
    ∃ w', act.runIn enter w = (some a, w') ∧ Edits e w w' ∧ w'.elements.get? e.row = some y ∧
      Overlays n w' s := by
  obtain ⟨w', hrun, hw, hy⟩ := hact
  refine ⟨w', hrun, hw.toEdits, hy, h.edits hw.toEdits he fun z hz c hc => ?_⟩
  obtain rfl : z = y := Option.some.inj (hz.symm.trans hy)
  exact (hkeeps c hc).elim (h.new e x he hx c) id

/-- A new element that keeps nothing is made, and held. -/
theorem newElement (h : Overlays n w s) {x : Element} (hx : ∀ c, x.keeps c = false) :
    Overlays n
      { w with elements := w.elements.add x, held := ⟨w.elements.size⟩ :: w.held } s where
  store := h.store
  level := h.level
  host := h.host
  schedulers := h.schedulers
  receivers := h.receivers
  size := h.size
  size_le := by
    rw [Table.size_add]
    exact Nat.le_succ_of_le h.size_le
  old row hrow :=
    (Table.get?_add_old _ _ (Nat.lt_of_lt_of_le hrow h.size_le)).trans (h.old row hrow)
  new c y hc hy d hd := by
    by_cases hrow : c.row < w.elements.size
    · exact h.new c y hc ((Table.get?_add_old _ _ hrow).symm.trans hy) d hd
    · have hlt := Table.lt_size_of_get? hy
      rw [Table.size_add] at hlt
      have hrow : c.row = w.elements.size := by omega
      rw [hrow, Table.get?_add_new] at hy
      cases hy
      rw [hx d] at hd
      cases hd
  held c hc := by
    have hne : (⟨w.elements.size⟩ : ElementId) ≠ c := by
      rintro rfl
      exact absurd hc (Nat.not_lt.mpr h.size_le)
    rw [List.count_cons_of_ne hne, h.held c hc]
  within := h.within

end Overlays

/-- No element is lost. -/
theorem Touches.size_le {S : ElementId → Prop} {w w' : World σ}
    (h : Touches S w w') :
    w.elements.size ≤ w'.elements.size := by
  refine Nat.le_of_not_lt fun hlt => ?_
  obtain ⟨x, hx⟩ : ∃ x, w.elements.get? w'.elements.size = some x :=
    ⟨_, Array.getElem?_eq_getElem hlt⟩
  obtain ⟨y, hy, -⟩ := h.element ⟨w'.elements.size⟩ x hx
  exact Nat.lt_irrefl _ (Table.lt_size_of_get? hy)

/-- What did not exist at the beginning does not count as touched. -/
theorem Touches.trans_of_new {S T : ElementId → Prop} {u v w : World σ} (h : Touches S u v)
    (h' : Touches T v w) (hT : ∀ e, T e → u.elements.size ≤ e.row) : Touches S u w := by
  have hboth : Touches (fun e => S e ∨ T e) u w :=
    (h.mono fun _ _ => .inl).trans (h'.mono fun _ _ => .inr)
  refine hboth.mono ?_
  rintro e ⟨x, hx⟩ (hS | he)
  · exact hS
  · exact absurd (hT e he) (Nat.not_le.mpr (Table.lt_size_of_get? hx))

/-! ### Elements in the making -/

/-- A node whose elements show nothing but the data, if nobody refers to other elements than the first
so many. -/
structure Node.Tame (n : Nat) (node : Node Resolver) : Prop where
  /-- Elements own nothing that is looked up. -/
  captureFree : node.CaptureFree
  /-- The constants. -/
  constants : ∀ v ∈ node.constants, v.Within n

theorem Node.Tame.child {n : Nat} {node child : Node Resolver} (h : node.Tame n)
    (hchild : child ∈ node.children) : child.Tame n where
  captureFree m hm := h.captureFree m (Node.family_subset hchild hm)
  constants v hv := by
    obtain ⟨m, hm, hv⟩ := List.mem_flatMap.mp hv
    exact h.constants v (List.mem_flatMap.mpr ⟨m, Node.family_subset hchild hm, hv⟩)

theorem Node.Tame.directive {n : Nat} {node : Node Resolver} (h : node.Tame n) {resolver : Resolver}
    (hresolver : resolver ∈ node.directives) : ∀ v ∈ resolver.constants, v.Within n := fun v hv =>
  h.constants v <|
    List.mem_flatMap.mpr ⟨node, node.mem_family_self, List.mem_flatMap.mpr ⟨resolver, hresolver, hv⟩⟩

/-- The names and constants of the condition of a node. -/
theorem Node.Tame.condition {n : Nat} {node : Node Resolver} (h : node.Tame n) {names : List String}
    (hnames : node.names ⊆ names) :
    (∀ condition ∈ node.condition, condition.names ⊆ names) ∧
      ∀ condition ∈ node.condition, ∀ v ∈ condition.constants, v.Within n :=
  ⟨fun _ hcondition => List.Subset.trans
      (Node.names_of_directive (Node.mem_directives_condition hcondition)) hnames,
    fun _ hcondition => h.directive (Node.mem_directives_condition hcondition)⟩

/-- An element of a node whose component draws nothing, with its scopes, its updater, its attributes
and its children. -/
structure World.Raised (w : World σ) (node : Node Resolver) (C : Context) (u : Option Updater)
    (fields : Fields Value) (below : List ElementId) (e : ElementId) (x : Element)
    (h : Headless) : Prop where
  /-- The element. -/
  get : w.elements.get? e.row = some x
  /-- Its component. -/
  component : x.component = .headless h
  /-- Its component is not in the middle of a change. -/
  idle : x.busy = false
  /-- Its tag. -/
  tag : x.tag = node.tag
  /-- The scopes around it. -/
  context : x.context = C
  /-- Its updater. -/
  updater : x.updater = u
  /-- Its children. -/
  children : x.children = below
  /-- The children that are shown. -/
  mounted : h.mounted = below
  /-- Its attributes. -/
  attributes : h.attributes = fields
  /-- The names of its attributes. -/
  keys : fields.keys ⊆ node.reserved

/-- An element owns nothing that is looked up in its node. -/
theorem World.Raised.hides {w : World σ} {node : Node Resolver} {C : Context}
    {u : Option Updater} {fields : Fields Value} {below : List ElementId}
    {e : ElementId} {x : Element} {h : Headless}
    (hraised : w.Raised node C u fields below e x h) (hfree : node.CaptureFree) :
    w.Hides node.names e := by
  refine ⟨x, h, hraised.get, hraised.component, hraised.idle, fun name hname => ?_⟩
  have hreserved := hfree node node.mem_family_self name hname
  refine ⟨fun htag => hreserved ?_, fun hkey => hreserved (hraised.keys (hraised.attributes ▸ hkey))⟩
  rw [htag]
  exact List.mem_cons_self

/-- A new element in the middle of getting what it has, in a world that overlays another one. -/
structure Shooting (n : Nat) (node : Node Resolver) (C C' : Context) (u : Option Updater)
    (fields : Fields Value) (below : List ElementId) (e : ElementId) (w s : World σ) :
    Prop where
  /-- The worlds. -/
  worlds : Overlays n w s
  /-- The element is new. -/
  new : n ≤ e.row
  /-- The scopes around it. -/
  around : Screens n w node.names C C'
  /-- It is none of them. -/
  outside : e ∉ Context.elements C
  /-- The element. -/
  raised : ∃ x h, w.Raised node C u fields below e x h

namespace Shooting

variable {n : Nat} {node : Node Resolver} {C C' : Context} {u : Option Updater}
  {fields : Fields Value} {below : List ElementId} {e : ElementId} {w w' s s' : World σ}
  {enter : Enter σ}

/-- The scopes inside of the element. -/
theorem inside (h : Shooting n node C C' u fields below e w s) (hfree : node.CaptureFree)
    (m : Nat) : Faces n node.names (.object (.scope m e) :: C) C' w s := by
  obtain ⟨x, d, hraised⟩ := h.raised
  exact ⟨h.worlds, .scope m h.new (hraised.hides hfree) h.around⟩

/-- The element has been touched, and nothing else. -/
theorem next (h : Shooting n node C C' u fields below e w s) (hw : Touches (· = e) w w')
    (hworlds : Overlays n w' s') {u' : Option Updater} {fields' : Fields Value}
    {below' : List ElementId} {x : Element} {d : Headless}
    (hraised : w'.Raised node C u' fields' below' e x d) :
    Shooting n node C C' u' fields' below' e w' s' where
  worlds := hworlds
  new := h.new
  around := h.around.touched hw fun _ hc he => absurd (he ▸ hc) h.outside
  outside := h.outside
  raised := ⟨x, d, hraised⟩

theorem goes (h : Shooting n node C C' u fields below e w s) {i j : Unit}
    (hgoes : (overlay n).Goes i j w w' s s') :
    Shooting n node C C' u fields below e w' s' := by
  obtain ⟨x, d, hraised⟩ := h.raised
  exact h.next (.of_none hgoes.2) hgoes.1 { hraised with get := hgoes.2.get? hraised.get id }

/-- An attribute is set; on the other side it is noted. -/
theorem setAttribute (h : Shooting n node C C' u fields below e w s) {name : String}
    (hname : name ∈ node.reserved) (v : Value) :
    Answers (Tally fun _ _ w' s' => Touches (· = e) w w' ∧
        Shooting n node C C' u (fields.put name v) below e w' s')
      ((Build.component (Act.setAttribute e name v)).run.runIn enter w)
      ((Build.act (Act.message .trace (Act.text v))).run.runIn enter s) := by
  obtain ⟨x, d, hraised⟩ := h.raised
  have hwants : s.wants .trace = w.wants .trace := by
    rw [World.wants, World.wants, h.worlds.level]
  have htext : s.store.text v = w.store.text v := by rw [h.worlds.store]
  by_cases hend : w.wants .trace = true ∧ w.store.text v = none
  · obtain ⟨hwanted, hnone⟩ := hend
    have hright : (Act.message .trace (Act.text v)).runIn enter s = (none, s) :=
      Act.runIn_message_none (hwants.trans hwanted) (by rw [Act.runIn_text, htext, hnone])
    rw [Build.runIn_setAttribute_none hraised.get hraised.idle hraised.component name hwanted hnone]
    show Answers _ _ ((Except.ok <$> Act.message .trace (Act.text v)).runIn enter s)
    rw [map_eq_pure_bind, Act.runIn_bind_none hright]
    exact .neither w s
  · obtain ⟨t, ht⟩ := World.exists_text hend
    obtain ⟨s', hright, helements, hs⟩ := Act.runIn_message_edits enter (w := s) .trace fun hwanted => by
      rw [Act.runIn_text, htext, ht (hwants ▸ hwanted)]
    obtain ⟨w', hleft, hw, hx, hworlds⟩ := (h.worlds.message_right helements (hs e).toEdits).alters
      hraised.get h.new (.component (.setAttribute hraised.get hraised.idle
        hraised.component name ht)) fun c hc => .inl hc
    rw [hleft, Act.runIn_lift hright]
    have hraised' : w'.Raised node C u (fields.put name v) below e _
        (d.setAttribute name v) :=
      { hraised with
        get := hx, component := rfl, attributes := by rw [← hraised.attributes]; rfl
        keys := fun key hkey => (Fields.mem_keys_put.mp hkey).elim (fun h => hraised.keys h)
          fun h => h ▸ hname }
    exact .both (.ok ⟨hw.touches, h.next hw.touches hworlds hraised'⟩)

/-- Attributes are set in an element as they are written in a rendering. -/
theorem assign (hobl : Oblivious n enter) (htame : node.Tame n) (m : Nat)
    {entries : List (String × Resolver)} (hentries : entries ⊆ node.once ++ node.bind)
    (h : Shooting n node C C' u fields below e w s) :
    Answers (Tally fun _ fields' w' s' => Touches (· = e) w w' ∧
        Shooting n node C C' u fields' below e w' s')
      ((Build.assign e (.object (.scope m e) :: C) entries).run.runIn enter w)
      ((Build.dress C' entries fields).run.runIn enter s) := by
  induction entries generalizing fields w s with
  | nil => exact .both (.ok ⟨.refl w, h⟩)
  | cons entry rest ih =>
    obtain ⟨name, resolver⟩ := entry
    obtain ⟨hentry, hrest⟩ := List.cons_subset.mp hentries
    have hname : name ∈ node.reserved :=
      List.mem_cons_of_mem _ (List.mem_cons_of_mem _ (List.mem_cons_of_mem _
        (List.mem_map.mpr ⟨_, hentry, rfl⟩)))
    have hdirective : resolver ∈ node.directives := by
      refine List.mem_append_left _ (List.mem_map.mpr ⟨(name, resolver), ?_, rfl⟩)
      exact List.mem_append_left _ (List.mem_append_left _ hentry)
    have hresolve := hobl.resolve (h.inside htame.captureFree m) resolver
      (Node.names_of_directive hdirective) (htame.directive hdirective)
    unfold Build.assign Build.dress
    refine Answers.bindE hresolve.eval.tally ?_
    rintro v _ w₁ s₁ ⟨_, hgoes, rfl, -⟩
    refine Answers.bindE ((h.goes hgoes).setAttribute hname v) ?_
    rintro _ _ w₂ s₂ ⟨hw₂, h₂⟩
    refine (ih hrest h₂).imp fun _ _ _ _ htally => htally.imp fun _ _ hrest => ⟨?_, hrest.2⟩
    exact (Touches.of_none hgoes.2).trans (hw₂.trans hrest.1)

end Shooting

/-! ### Elements that are ready -/

/-- A new element that has been made for a bud, in a row from `lo` on. Its scopes are those of the bud
with new elements among them that own none of the names and have been made before. -/
structure Ready (n lo : Nat) (names : List String) (w : World σ) (e : ElementId) (bud : Bud) :
    Prop where
  /-- The node. -/
  tame : bud.node.Tame n
  /-- What is looked up in the node. -/
  asks : bud.node.names ⊆ names
  /-- Its row. -/
  row : lo ≤ e.row
  /-- The element. -/
  element : ∃ C x h,
    w.Raised bud.node C (some (.view bud.node .headless)) bud.attributes [] e x h ∧
      x.slots = bud.node.children.map .fresh ∧ Screens n w names C bud.context ∧
      ∀ c ∈ Context.elements C, c.row < lo

section

variable {n lo : Nat} {names : List String} {node : Node Resolver} {C C' : Context} {e : ElementId}
  {bud : Bud} {w w' s s' : World σ} {enter : Enter σ}

/-- What is ready stays ready while other elements are touched, as long as those around it own none of
the names. -/
theorem Ready.touched (h : Ready n lo names w e bud) {S : ElementId → Prop} (hw : Touches S w w')
    (he : ¬ S e) (hS : ∀ c, c.row < lo → S c → w'.Hides names c) : Ready n lo names w' e bud := by
  obtain ⟨C, x, d, hraised, hslots, hscreens, hC⟩ := h.element
  exact ⟨h.tame, h.asks, h.row, C, x, d, { hraised with get := hw.get? hraised.get he }, hslots,
    hscreens.touched hw fun c hc => hS c (hC c hc), hC⟩

/-- Furnishing a new element answers like writing the attributes that are set once. -/
theorem Faces.furnish (hobl : Oblivious n enter) (htame : node.Tame n) (hnames : node.names ⊆ names)
    (h : Faces n names C C' w s)
    (hx : w.elements.get? e.row =
      some ⟨node.tag, .headless (.new node.tag.tag), false, C, [], none, []⟩)
    (he : n ≤ e.row) (houtside : e ∉ Context.elements C) :
    Answers (Tally fun _ fields w' s' => Touches (· = e) w w' ∧ Overlays n w' s' ∧
        ∃ x d, w'.Raised node C (some (.view node .headless)) fields [] e x d ∧
          x.slots = node.children.map .fresh ∧ Screens n w' names C C')
      ((Build.furnish e node .headless).run.runIn enter w)
      ((Build.dress C' node.once node.told).run.runIn enter s) := by
  obtain ⟨d, m, w₁, hattributes, hmounted, hedits₁, hx₁, hfurnish⟩ :=
    Build.runIn_furnish enter node hx rfl rfl
  have hw₁ : Touches (· = e) w w₁ := hedits₁.touches
  have hworlds₁ : Overlays n w₁ s := h.worlds.edits hedits₁.toEdits he fun y hy c hc => by
    obtain rfl := Option.some.inj (hy.symm.trans hx₁)
    cases hc
  have hscreens : ∀ {w' : World σ}, Touches (· = e) w w' → Screens n w' names C C' := fun hw =>
    h.contexts.touched hw fun c hc hce => absurd (hce ▸ hc) houtside
  have hshooting : Shooting n node C C' none node.told [] e w₁ s :=
    ⟨hworlds₁, he, (hscreens hw₁).mono hnames, houtside, _, d,
      hx₁, rfl, rfl, rfl, rfl, rfl, rfl, hmounted, hattributes, node.dressed_told.keys⟩
  rw [hfurnish]
  refine (hshooting.assign hobl htame m (List.subset_append_left _ _)).thenLeft ?_
  rintro _ fields w₂ s₂ ⟨hw₂, h₂⟩
  obtain ⟨y, d₂, hraised⟩ := h₂.raised
  have hinstall := Build.install_alters enter hraised.get (.view node .headless)
    (node.children.map .fresh)
  obtain ⟨w₃, hrun₃, hedits₃, hy, hworlds₃⟩ := h₂.worlds.alters hraised.get h₂.new
    (hinstall.liftE (ε := ViewError)) fun c hc => by
      rcases Element.keeps_iff.mp hc with hchild | ⟨slot, hslot, hmem⟩
      · exact .inl (Element.keeps_iff.mpr (.inl hchild))
      · obtain ⟨child, -, rfl⟩ := List.mem_map.mp hslot
        rw [Slot.elements_fresh] at hmem
        cases hmem
  have hw₃ : Touches (· = e) w w₃ := hw₁.trans (hw₂.trans hedits₃.touches)
  exact ⟨(), w₃, hrun₃, hw₃, hworlds₃, _, d₂, { hraised with get := hy, updater := rfl }, rfl,
    hscreens hw₃⟩

/-- Making an element answers like sprouting. -/
theorem Faces.create (hobl : Oblivious n enter) (htame : node.Tame n) (hnames : node.names ⊆ names)
    (h : Faces n names C C' w s) (hlo : lo ≤ w.elements.size)
    (hC : ∀ c ∈ Context.elements C, c.row < lo) :
    Answers (Tally fun e bud w' s' => e = ⟨w.elements.size⟩ ∧ bud.node = node ∧
        Touches (fun _ => False) w w' ∧ Overlays n w' s' ∧ Ready n lo names w' e bud)
      ((Build.create node C .headless).run.runIn enter w)
      ((Build.sprout node C').run.runIn enter s) := by
  let x : Element := ⟨node.tag, .headless (.new node.tag.tag), false, C, [], none, []⟩
  let e : ElementId := ⟨w.elements.size⟩
  let v : World σ := { w with elements := w.elements.add x, held := e :: w.held }
  have hmake : (Build.component (Act.make .headless node.tag.tag)).run.runIn enter w =
      (some (.ok (.headless (.new node.tag.tag))), w) := rfl
  have hnew : (Build.act (Act.newElement node.tag (.headless (.new node.tag.tag)) C)).run.runIn enter w =
      (some (.ok e), v) := rfl
  have hv : Touches (fun _ => False) w v := .of_add w x _
  have hfaces : Faces n names C C' v s :=
    ⟨h.worlds.newElement fun _ => rfl, h.contexts.touched hv fun _ _ => False.elim⟩
  have houtside : e ∉ Context.elements C := fun hmem =>
    Nat.lt_irrefl _ (Nat.lt_of_lt_of_le (hC e hmem) hlo)
  have hfurnish := hfaces.furnish hobl htame hnames (Table.get?_add_new _ x) h.worlds.size_le houtside
  unfold Build.create Build.sprout
  rw [Build.runIn_bindE_ok hmake, Build.runIn_bindE_ok hnew]
  refine Answers.bindE (.releasing [e] hfurnish) ?_
  rintro _ fields w₁ s₁ ⟨hw₁, hworlds₁, y, d, hraised, hslots, hscreens⟩
  have hunseen : Touches (fun _ => False) w w₁ := hv.trans_of_new hw₁ fun _ he => he ▸ Nat.le_refl _
  exact .both (.ok ⟨rfl, rfl, hunseen, hworlds₁, htame, hnames, hlo, C, y, d, hraised, hslots, hscreens,
    hC⟩)

/-- New elements for several buds. -/
structure Brood (n lo : Nat) (names : List String) (w w' : World σ) (es : List ElementId)
    (buds : List Bud) : Prop where
  /-- They are ready. -/
  ready : List.Forall₂ (Ready n lo names w') es buds
  /-- No two are the same. -/
  nodup : es.Nodup
  /-- They have been made since. -/
  rows : ∀ e ∈ es, w.elements.size ≤ e.row

namespace Brood

variable {u v : World σ} {es es' : List ElementId} {buds buds' : List Bud}

theorem nil : Brood n lo names u w [] [] := ⟨.nil, .nil, fun _ h => absurd h List.not_mem_nil⟩

/-- One element is made. -/
theorem singleton (h : Ready n lo names w ⟨u.elements.size⟩ bud) :
    Brood n lo names u w [⟨u.elements.size⟩] [bud] :=
  ⟨.cons h .nil, List.nodup_singleton _, List.forall_mem_singleton.mpr (Nat.le_refl _)⟩

/-- Elements that are ready exist. -/
theorem lt_size (h : Brood n lo names u w es buds) {e : ElementId} (he : e ∈ es) :
    e.row < w.elements.size := by
  obtain ⟨bud, -, hready⟩ := exists_of_forall₂ h.ready he
  obtain ⟨_, _, _, hraised, -⟩ := hready.element
  exact Table.lt_size_of_get? hraised.get

/-- Elements that are ready are in rows from `lo` on. -/
theorem row (h : Brood n lo names u w es buds) {e : ElementId} (he : e ∈ es) : lo ≤ e.row := by
  obtain ⟨bud, -, hready⟩ := exists_of_forall₂ h.ready he
  exact hready.row

/-- The only element that has been made. -/
theorem one (h : Brood n lo names u w es buds) (hes : es.length = 1) :
    ∃ e bud, es = [e] ∧ buds = [bud] ∧ Ready n lo names w e bud := by
  obtain ⟨e, rfl⟩ := List.length_eq_one_iff.mp hes
  obtain ⟨bud, rest, hready, hnil, rfl⟩ := List.forall₂_cons_left_iff.mp h.ready
  obtain rfl := List.forall₂_nil_left_iff.mp hnil
  exact ⟨e, bud, rfl, rfl, hready⟩

/-- They have been made since an earlier world as well. -/
theorem since (h : Brood n lo names v w es buds) (hsize : u.elements.size ≤ v.elements.size) :
    Brood n lo names u w es buds :=
  ⟨h.ready, h.nodup, fun e he => Nat.le_trans hsize (h.rows e he)⟩

/-- Other elements are touched. -/
theorem touched (h : Brood n lo names u w es buds) {S : ElementId → Prop} (hw : Touches S w w')
    (hes : ∀ e ∈ es, ¬ S e) (hS : ∀ c, c.row < lo → S c → w'.Hides names c) :
    Brood n lo names u w' es buds where
  ready := ((List.forall₂_and_left es buds).mpr ⟨hes, h.ready⟩).imp fun _ _ ⟨he, hready⟩ =>
    hready.touched hw he hS
  nodup := h.nodup
  rows := h.rows

/-- More elements are made later. -/
theorem append (h : Brood n lo names u w es buds) (h' : Brood n lo names v w es' buds')
    (hsize : u.elements.size ≤ v.elements.size) (hes : ∀ e ∈ es, e.row < v.elements.size) :
    Brood n lo names u w (es ++ es') (buds ++ buds') where
  ready := List.rel_append h.ready h'.ready
  nodup := by
    refine List.nodup_append'.mpr ⟨h.nodup, h'.nodup, fun e he he' => ?_⟩
    exact absurd (hes e he) (Nat.not_lt.mpr (h'.rows e he'))
  rows e he := (List.mem_append.mp he).elim (h.rows e) ((h'.since hsize).rows e)

end Brood

/-- What has been made without touching anything. -/
def Bred (n lo : Nat) (names : List String) (node : Node Resolver) (w : World σ)
    (es : List ElementId) (buds : List Bud) (w' s' : World σ) : Prop :=
  Touches (fun _ => False) w w' ∧ Overlays n w' s' ∧ Brood n lo names w w' es buds ∧
    ∀ bud ∈ buds, bud.node = node

theorem Bred.after {w₁ : World σ} {es : List ElementId} {buds : List Bud}
    (hw : Touches (fun _ => False) w w₁) (h : Bred n lo names node w₁ es buds w' s') :
    Bred n lo names node w es buds w' s' := by
  obtain ⟨hw', hworlds, hbrood, hnodes⟩ := h
  exact ⟨hw.trans hw', hworlds, hbrood.since hw.size_le, hnodes⟩

/-- Making elements in several contexts answers like sprouting in them. -/
theorem createAll_sprouts (hobl : Oblivious n enter) (htame : node.Tame n)
    (hnames : node.names ⊆ names) (hworlds : Overlays n w s) (hlo : lo ≤ w.elements.size)
    {contexts contexts' : List Context}
    (hcontexts : List.Forall₂ (Screens n w names) contexts contexts')
    (hC : ∀ C ∈ contexts, ∀ c ∈ Context.elements C, c.row < lo) :
    Answers (Tally (Bred n lo names node w))
      ((Build.createAll node .headless contexts).run.runIn enter w)
      ((Build.sproutAll node contexts').run.runIn enter s) := by
  induction contexts generalizing contexts' w s with
  | nil =>
    cases hcontexts
    exact .both (.ok ⟨.refl w, hworlds, .nil, fun _ h => absurd h List.not_mem_nil⟩)
  | cons C rest ih =>
    obtain ⟨hC, hCs⟩ := List.forall_mem_cons.mp hC
    cases hcontexts with
    | cons hscreens hrest =>
      unfold Build.createAll Build.sproutAll
      refine Answers.bindE (Faces.create hobl htame hnames ⟨hworlds, hscreens⟩ hlo hC) ?_
      rintro e bud w₁ s₁ ⟨rfl, hnode, hw₁, hworlds₁, hready⟩
      have hsize : w.elements.size < w₁.elements.size := by
        obtain ⟨_, _, _, hraised, -⟩ := hready.element
        exact Table.lt_size_of_get? hraised.get
      refine Answers.bindE (.releasing _ (ih hworlds₁ (Nat.le_trans hlo (Nat.le_of_lt hsize))
        (hrest.imp fun _ _ h => h.touched hw₁ fun _ _ => False.elim) hCs)) ?_
      rintro es buds w₂ s₂ ⟨hw₂, hworlds₂, hbrood, hnodes⟩
      refine .both (.ok ⟨hw₁.trans hw₂, hworlds₂, ?_, List.forall_mem_cons.mpr ⟨hnode, hnodes⟩⟩)
      exact ((Brood.singleton hready).touched hw₂ (fun _ _ => id) fun _ _ => False.elim).append hbrood
        (Nat.le_of_lt hsize) (List.forall_mem_singleton.mpr hsize)

/-! ### Lists -/

/-- Both sides put the same records in front of the scopes. -/
theorem Overlays.mimics_frames (h : Overlays n w s) (name : String) (C C' : Context)
    {items : List Value} (hitems : ∀ v ∈ items, v.Within n) :
    (overlay n).Mimics enter (fun _ => List.Forall₂ fun context context' => ∃ r : RecordId,
        context = .object (.record r) :: C ∧ context' = .object (.record r) :: C') () w s
      (Build.frames name C items) (Build.frames name C' items) := by
  induction items generalizing w s with
  | nil => exact .pure h .nil
  | cons item rest ih =>
    obtain ⟨hitem, hrest⟩ := List.forall_mem_cons.mp hitems
    unfold Build.frames
    refine (h.mimics_newRecord (List.forall_mem_singleton.mpr hitem)).bind ?_
    rintro _ w₁ s₁ _ _ hgoes ⟨r, rfl, rfl⟩
    refine (ih hgoes.1 hrest).bind fun _ w₂ s₂ contexts contexts' hgoes hall => .pure hgoes.1 ?_
    exact .cons ⟨r, rfl, rfl⟩ hall

/-- Conditions have the same values on both sides. -/
theorem Oblivious.conditions (hobl : Oblivious n enter) (hworlds : Overlays n w s)
    (hnames : ∀ condition ∈ node.condition, condition.names ⊆ names)
    (hv : ∀ condition ∈ node.condition, ∀ v ∈ condition.constants, v.Within n)
    {contexts contexts' : List Context}
    (hcontexts : List.Forall₂ (Screens n w names) contexts contexts') :
    (overlay n).Mimics enter (fun _ => Outcomes Eq) () w s (Build.conditions node contexts).run
      (Build.conditions node contexts').run := by
  induction contexts generalizing contexts' w s with
  | nil =>
    cases hcontexts
    exact .pureE (V := fun _ => Eq) hworlds rfl
  | cons C rest ih =>
    cases hcontexts with
    | cons hscreens hrest =>
      unfold Build.conditions
      have hshows := hobl.shows ⟨hworlds, hscreens⟩ node hnames hv
      refine Bond.Mimics.bindE hshows.eval fun _ w₁ s₁ b b' hgoes hb => ?_
      have hmore := ih hgoes.1 (hrest.imp fun _ _ h => h.touched hgoes.2 fun _ _ => False.elim)
      refine hmore.bindE fun _ w₂ s₂ bs bs' hgoes hbs => ?_
      exact .pureE (V := fun _ => Eq) hgoes.1 (by rw [hb, hbs])

/-- A list and its items are the same on both sides. -/
theorem Oblivious.listOf (hobl : Oblivious n enter) (hC : Faces n names C C' w s) {resolver : Resolver}
    (hnames : resolver.names ⊆ names) (hv : ∀ v ∈ resolver.constants, v.Within n) :
    (overlay n).Mimics enter (fun _ => Outcomes fun x y => x = y ∧ ∀ v ∈ x.2, v.Within n) () w s
      (Build.listOf C resolver).run (Build.listOf C' resolver).run := by
  unfold Build.listOf
  refine (hobl.resolve hC resolver hnames hv).eval.bindE ?_
  rintro _ w₁ s₁ list _ hgoes ⟨rfl, hlist⟩
  have hitems : (overlay n).Mimics enter (fun _ => Outcomes fun items items' =>
      items = items' ∧ ∀ v ∈ items, v.Within n) () w₁ s₁ (Act.items list) (Act.items list) := by
    unfold Bond.Mimics
    rw [Act.runIn_items, Act.runIn_items, hgoes.1.store]
    refine .both ⟨(), (overlay n).refl (i := ()) hgoes.1, ?_⟩
    cases hwalk : s₁.store.walk? list with
    | none => exact .error _ _
    | some items =>
      exact .ok ⟨rfl, hgoes.1.within.walk? hwalk⟩
  refine hitems.eval.bindE ?_
  rintro _ w₂ s₂ items _ hgoes ⟨rfl, hwithin⟩
  exact .pure hgoes.1 (.ok ⟨rfl, hwithin⟩)

/-- Making the elements of a list answers like sprouting for its items. -/
theorem Faces.spread (hobl : Oblivious n enter) (htame : node.Tame n) (hnames : node.names ⊆ names)
    (h : Faces n names C C' w s) (hlo : lo ≤ w.elements.size)
    (hC : ∀ c ∈ Context.elements C, c.row < lo) (name : String) (list : Value) {items : List Value}
    (hitems : ∀ v ∈ items, v.Within n) :
    Answers (Tally fun last => Bred n lo names node w last.elements)
      ((Build.spread node .headless name C list items).run.runIn enter w)
      ((do
        let contexts ← Build.act (Build.frames name C' items)
        let conditions ← Build.conditions node contexts
        Build.sproutAll node (Build.shown contexts conditions) : Build σ (List Bud)).run.runIn
          enter s) := by
  obtain ⟨w₁, hrun₁, helements, hw₁⟩ := Act.runIn_message_edits enter (w := w) .trace fun _ =>
    Act.runIn_pure ("`" ++ node.path ++ "`: new list of " ++ toString items.length ++
      " item(s), rebuilding") enter w
  have hworlds₁ := h.worlds.message_left helements fun e => (hw₁ e).toEdits
  have htouches₁ : Touches (fun _ => False) w w₁ := (hw₁ ⟨n⟩).untouched helements
  unfold Build.spread
  rw [Build.runIn_bindE_ok (Act.runIn_lift hrun₁)]
  refine Answers.bindE (hworlds₁.mimics_frames name C C' hitems).liftE.tally ?_
  rintro contexts contexts' w₂ s₂ ⟨_, ⟨hworlds₂, hw₂⟩, hcontexts⟩
  have hscreens : Screens n w₂ names C C' :=
    h.contexts.touched (htouches₁.trans hw₂) fun _ _ => False.elim
  have hall : List.Forall₂ (Screens n w₂ names) contexts contexts' := hcontexts.imp <| by
    rintro _ _ ⟨r, rfl, rfl⟩
    exact .value nofun hscreens
  have hrows : ∀ context ∈ contexts, ∀ c ∈ Context.elements context, c.row < lo := by
    intro context hcontext
    obtain ⟨_, -, r, rfl, -⟩ := exists_of_forall₂ hcontexts hcontext
    exact hC
  obtain ⟨hasks, hconstants⟩ := htame.condition hnames
  refine Answers.bindE (hobl.conditions hworlds₂ hasks hconstants hall).tally ?_
  rintro conditions _ w₃ s₃ ⟨_, ⟨hworlds₃, hw₃⟩, rfl⟩
  have hw : Touches (fun _ => False) w w₃ := htouches₁.trans (hw₂.trans hw₃)
  refine (createAll_sprouts hobl htame hnames hworlds₃ (Nat.le_trans hlo hw.size_le)
    (forall₂_shown (hall.imp fun _ _ h => h.touched hw₃ fun _ _ => False.elim) conditions)
    fun context hmem => hrows context (mem_of_mem_shown hmem)).thenLeft ?_
  rintro es buds w₄ s₄ hbred
  exact ⟨_, w₄, rfl, hbred.after hw⟩

theorem sproutAll_singleton (node : Node Resolver) (C : Context) :
    (Build.sproutAll node [C] : Build σ (List Bud)) = do return [← Build.sprout node C] := by
  simp [Build.sproutAll]

/-- Making the element of a node without a list, if it is shown, answers like sprouting. -/
theorem Faces.single (hobl : Oblivious n enter) (htame : node.Tame n) (hnames : node.names ⊆ names)
    (hrepetition : node.repetition = none) (h : Faces n names C C' w s) (hlo : lo ≤ w.elements.size)
    (hC : ∀ c ∈ Context.elements C, c.row < lo) :
    Answers (Tally fun es buds w' s' => es.head?.toList = es ∧ Bred n lo names node w es buds w' s')
      ((do
        if ← Build.eval (Eval.shows C node) then return [← Build.create node C .headless]
        else return [] : Build σ (List ElementId)).run.runIn enter w)
      ((Build.buds node C').run.runIn enter s) := by
  unfold Build.buds Build.seeds
  rw [hrepetition]
  dsimp only
  rw [bind_assoc]
  obtain ⟨hasks, hconstants⟩ := htame.condition hnames
  refine Answers.bindE (hobl.shows h node hasks hconstants).eval.tally ?_
  rintro b _ w₁ s₁ ⟨_, hgoes, rfl⟩
  cases b with
  | false => exact .both (.ok ⟨rfl, hgoes.2, hgoes.1, .nil, fun _ h => absurd h List.not_mem_nil⟩)
  | true =>
    rw [if_pos rfl, if_pos rfl, pure_bind, sproutAll_singleton]
    refine Answers.bindE (Faces.create hobl htame hnames (h.goes hgoes)
      (Nat.le_trans hlo hgoes.2.size_le) hC) ?_
    rintro e bud w₂ s₂ ⟨rfl, hnode, hw₂, hworlds₂, hready⟩
    exact .both (.ok ⟨rfl, Bred.after hgoes.2
      ⟨hw₂, hworlds₂, .singleton hready, List.forall_mem_singleton.mpr hnode⟩⟩)

/-- Making the elements of a node with a list answers like sprouting. -/
theorem Faces.repeated (hobl : Oblivious n enter) (htame : node.Tame n) (hnames : node.names ⊆ names)
    {name : String} {resolver : Resolver} (hrepetition : node.repetition = some (name, resolver))
    (h : Faces n names C C' w s) (hlo : lo ≤ w.elements.size)
    (hC : ∀ c ∈ Context.elements C, c.row < lo) :
    Answers (Tally fun last => Bred n lo names node w last.elements)
      ((do
        let (list, items) ← Build.listOf C resolver
        Build.spread node .headless name C list items : Build σ Repetition).run.runIn enter w)
      ((Build.buds node C').run.runIn enter s) := by
  unfold Build.buds Build.seeds
  rw [hrepetition]
  dsimp only
  rw [bind_assoc]
  have hdirective := Node.mem_directives_repetition hrepetition
  refine Answers.bindE (hobl.listOf h (List.Subset.trans (Node.names_of_directive hdirective) hnames)
    (htame.directive hdirective)).tally ?_
  rintro ⟨list, items⟩ _ w₁ s₁ ⟨_, hgoes, rfl, hitems⟩
  simp only [bind_assoc, pure_bind]
  refine Answers.imp (Faces.spread hobl htame hnames (h.goes hgoes)
    (Nat.le_trans hlo hgoes.2.size_le) hC name list hitems) fun _ _ _ _ htally => ?_
  exact htally.imp fun _ _ hbred => hbred.after hgoes.2

/-- What a node comes to is made on the one side and sprouts on the other. -/
theorem Faces.instantiate (hobl : Oblivious n enter) (htame : node.Tame n) (hnames : node.names ⊆ names)
    (h : Faces n names C C' w s) (hlo : lo ≤ w.elements.size)
    (hC : ∀ c ∈ Context.elements C, c.row < lo) :
    Answers (Tally (Bred n lo names node w))
      ((Build.instantiate node C .headless).run.runIn enter w)
      ((Build.buds node C').run.runIn enter s) := by
  unfold Build.instantiate
  cases hrepetition : node.repetition with
  | none =>
    refine Answers.imp (Faces.single hobl htame hnames hrepetition h hlo hC) fun _ _ _ _ htally => ?_
    exact htally.imp fun _ _ hbred => hbred.2
  | some repetition =>
    obtain ⟨name, resolver⟩ := repetition
    have hrepeated := (Faces.repeated hobl htame hnames hrepetition h hlo hC).thenLeft
      (f := fun last => return last.elements) fun last buds w' s' hbred => ⟨_, w', rfl, hbred⟩
    rw [bind_assoc] at hrepeated
    exact hrepeated

end

end ReactiveViews
