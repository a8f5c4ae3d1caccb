import ReactiveViews.Proofs.Live.Kinship

/-!
# Making elements in two runs

Attributes are set and elements are made in two runs side by side, in kindred contexts. Two new elements
for one node are a *pair* if all their attributes are linked.

An attribute whose value is still to come is *hidden*: what the two elements have under its name so far
need not be linked. When attributes are set in their order, no expression may ask for one that is still
hidden.

## What is proved

Setting attributes keeps elements kin and uncovers what was hidden (`Link.Kin.assign`). In kindred
contexts elements are made in pairs (`Link.Near.create`, `Link.createAll`).
-/

namespace ReactiveViews

variable {σ : Type}

/-! ### Hidden attributes -/

/-- No expression asks for a hidden attribute before that has been set. -/
def Uncovers : List String → List (String × Resolver) → Prop
  | _, [] => True
  | hidden, entry :: rest => (∀ name ∈ entry.2.names, name ≠ "tag" → name ∉ hidden) ∧
    Uncovers (hidden.filter (· ≠ entry.1)) rest

theorem uncovers_nil (entries : List (String × Resolver)) : Uncovers [] entries := by
  induction entries with
  | nil => trivial
  | cons entry rest ih => exact ⟨fun _ _ _ => List.not_mem_nil, ih⟩

theorem Node.LooksBack.uncovers {entries : List (String × Resolver)} (h : Node.LooksBack entries)
    {hidden : List String} (hhidden : hidden ⊆ entries.map (·.1)) : Uncovers hidden entries := by
  induction entries generalizing hidden with
  | nil => trivial
  | cons entry rest ih =>
    refine ⟨fun name hname htag hmem => h.1 name hname htag (hhidden hmem), ih h.2 fun name hname => ?_⟩
    obtain ⟨hmem, hne⟩ := List.mem_filter.mp hname
    exact (List.mem_cons.mp (hhidden hmem)).resolve_left (by simpa using hne)

/-- A name that may be asked for while some attributes are hidden. -/
def Uncovered (asked : String → Prop) (hidden : List String) (name : String) : Prop :=
  asked name ∧ (name ≠ "tag" → name ∉ hidden)

/-- An element with nothing but a component and the scopes around it. -/
def Element.newborn (node : Node Resolver) (h : Headless) (C : Context) : Element :=
  ⟨node.tag, .headless h, false, C, [], none, []⟩

/-- The rest of what a new element has from the beginning: the attributes that are set once, and its
updater. -/
def Build.appoint (e : ElementId) (node : Node Resolver) (C : Context) : Build σ Unit := do
  assign e C node.once
  act (install e (.view node .headless) (node.children.map .fresh))

/-- Making an element begins with an element that has what the tag tells. -/
theorem Build.runIn_create (enter : Enter σ) (w : World σ) (node : Node Resolver) (C : Context) :
    ∃ (h : Headless) (m : Nat) (w₁ : World σ), h.attributes = node.told ∧
      Proceeds (fun _ => False) [⟨w.elements.size⟩] w w₁ ∧
      w₁.elements.get? w.elements.size = some (.newborn node h C) ∧
      (create node C .headless).run.runIn enter w =
        (releasing [⟨w.elements.size⟩] (appoint ⟨w.elements.size⟩ node
          (.object (.scope m ⟨w.elements.size⟩) :: C)) >>= fun _ =>
          return ⟨w.elements.size⟩).run.runIn enter w₁ := by
  let v : World σ := { w with
    elements := w.elements.add (.newborn node (.new node.tag.tag) C)
    held := ⟨w.elements.size⟩ :: w.held }
  have hx : v.elements.get? w.elements.size = some (.newborn node (.new node.tag.tag) C) :=
    Table.get?_add_new _ _
  have hv : Proceeds (fun _ => False) [⟨w.elements.size⟩] w v := ⟨.of_add w _ _, rfl, rfl, rfl⟩
  obtain ⟨h, m, w₁, hattributes, -, hw₁, hx₁, hrun⟩ :=
    runIn_furnish (e := ⟨w.elements.size⟩) enter node hx rfl rfl
  refine ⟨h, m, w₁, hattributes, ((Proceeds.of_looked hv).trans (.of_edits hw₁.toEdits)).mono ?_, hx₁, ?_⟩
  · rintro e ⟨y, hy⟩ rfl
    exact Nat.lt_irrefl _ (Table.lt_size_of_get? hy)
  · have hmake : (component (Act.make .headless node.tag.tag)).run.runIn enter w =
      (some (.ok (.headless (.new node.tag.tag))), w) := rfl
    have hadd : (act (Act.newElement node.tag (.headless (.new node.tag.tag)) C)).run.runIn enter w =
      (some (.ok ⟨w.elements.size⟩), v) := rfl
    unfold create
    rw [runIn_bindE_ok hmake, runIn_bindE_ok hadd, ExceptT.run_bind, ExceptT.run_bind]
    refine Act.runIn_bind_congr ?_ _
    exact Act.runIn_bind_congr hrun _

namespace Link

variable {ρ : Link} {D : Scene σ} {w s : World σ} {asked : String → Prop} {hidden loose : List String}
  {e e' : ElementId} {x x' : Element} {h h' : Headless} {C C' : Context} {enter : Enter σ}

/-- A context with an element that has hidden attributes in front of the others. -/
theorem Near.front (hnear : ρ.Near D asked loose C C' w s)
    (hkin : ρ.Kin w s (Uncovered asked hidden) loose e e' x x' h h') (m m' : Nat)
    (hlineage : w.lineage e = e :: Context.elements C)
    (hlineage' : s.lineage e' = e' :: Context.elements C') :
    ρ.Near D (Uncovered asked hidden) loose (.object (.scope m e) :: C) (.object (.scope m' e') :: C') w s :=
  ⟨hnear.worlds, .scope m m' hkin hlineage hlineage'
    (hnear.contexts.mono ρ.le_refl (fun _ => And.left) (List.Subset.refl _))⟩

/-! ### Setting attributes -/

/-- Where a text is there for the one value it is there for the other. -/
theorem Worlds.text_of_wants (hworlds : ρ.Worlds D w s) {v v' : Value} (hv : ρ.Values v v') {t : String}
    (ht : w.wants .trace = true → w.store.text v = some t) (hwants : s.wants .trace = true) :
    s.store.text v' = some t := by
  rw [← hworlds.stores.text_eq hv]
  refine ht ?_
  rwa [World.wants, hworlds.level]

/-- A linked value is set in both elements. -/
theorem Kin.setAttribute (hworlds : ρ.Worlds D w s)
    (hkin : ρ.Kin w s (Uncovered asked hidden) loose e e' x x' h h') {name : String}
    (hname : name ∈ loose) {v v' : Value} (hv : ρ.Values v v') :
    Tracks enter w s (Build.component (Act.setAttribute e name v))
      (Build.component (Act.setAttribute e' name v')) fun _ _ w' s' => Edits e w w' ∧ Edits e' s s' ∧
        ρ.Kin w' s' (Uncovered asked (hidden.filter (· ≠ name))) loose e e'
          { x with component := .headless (h.setAttribute name v) }
          { x' with component := .headless (h'.setAttribute name v') } (h.setAttribute name v)
          (h'.setAttribute name v') := by
  rintro ⟨⟩ w' hrun
  obtain ⟨hw, hx⟩ := (Build.setAttribute_ends .quiet enter hkin.left.get hkin.left.idle
    hkin.left.component name v (fun _ => True)).ok hrun
  have hend : ¬ (w.wants .trace = true ∧ w.store.text v = none) := fun ⟨hwanted, hnone⟩ => by
    cases (Build.runIn_setAttribute_none hkin.left.get hkin.left.idle hkin.left.component name hwanted
      hnone).symm.trans hrun
  obtain ⟨t, ht⟩ := World.exists_text hend
  obtain ⟨s', hrun', hs, hx'⟩ : Alters enter s e' (Build.component (Act.setAttribute e' name v')).run
    (.ok ()) _ := .component (.setAttribute hkin.right.get hkin.right.idle hkin.right.component name
      (hworlds.text_of_wants hv ht))
  refine ⟨(), s', hrun', hw.toEdits, hs.toEdits, ⟨hx, rfl, hkin.left.idle⟩, ⟨hx', rfl, hkin.right.idle⟩,
    hw.held ▸ hkin.held, hs.held ▸ hkin.held', hkin.tag, fun other hother htag => ?_, fun other f hf => ?_⟩
  · by_cases heq : name = other
    · subst heq
      simp only [Headless.setAttribute, Fields.get?_put_self]
      exact Option.Rel.some hv
    · simp only [Headless.setAttribute, Fields.get?_put_of_ne _ _ heq]
      refine hkin.same other ⟨hother.1, fun _ hmem => hother.2 htag ?_⟩ htag
      exact List.mem_filter.mpr ⟨hmem, by simpa using Ne.symm heq⟩
  · by_cases heq : name = other
    · exact heq ▸ hname
    · rw [Headless.setAttribute, Fields.get?_put_of_ne _ _ heq] at hf
      exact hkin.calls other f hf

/-- What there is after attributes have been set in two elements: linked values have been written under
the same names. -/
def Inscribed (ρ : Link) (e e' : ElementId) (x x' : Element) (h h' : Headless) (names : List String)
    (w s w' s' : World σ) : Prop :=
  ∃ (ρ' : Link) (written written' : List (String × Value)), ρ.Extends ρ' w.store s.store ∧
    ρ'.Stores w'.store s'.store ∧ Build.Written .quiet w e x h written w' ∧
    Build.Written .quiet s e' x' h' written' s' ∧ ρ'.Fields written written' ∧
    written.map (·.1) = names

/-- Attributes are set in both elements, one after the other. -/
theorem Kin.assign (hinnocent : Innocent D enter) (hharmless : Harmless enter)
    {entries : List (String × Resolver)} (hapt : ∀ entry ∈ entries, entry.2.Apt D asked loose)
    (hnames : entries.map (·.1) ⊆ loose) (huncovers : Uncovers hidden entries)
    (hkin : ρ.Kin w s (Uncovered asked hidden) loose e e' x x' h h')
    (hnear : ρ.Near D asked loose C C' w s) (m m' : Nat)
    (hlineage : w.lineage e = e :: Context.elements C)
    (hlineage' : s.lineage e' = e' :: Context.elements C') :
    Tracks enter w s (Build.assign e (.object (.scope m e) :: C) entries)
      (Build.assign e' (.object (.scope m' e') :: C') entries)
      fun _ _ => Inscribed ρ e e' x x' h h' (entries.map (·.1)) w s := by
  induction entries generalizing hidden ρ x x' h h' w s with
  | nil =>
    refine .pure ⟨ρ, [], [], .refl _ _ _, hnear.worlds.stores, ?_, ?_, .nil, rfl⟩
    · exact .nil hkin.left.get hkin.left.component (.refl w)
    · exact .nil hkin.right.get hkin.right.component (.refl s)
  | cons entry rest ih =>
    obtain ⟨name, resolver⟩ := entry
    obtain ⟨hfirst, hrest⟩ := List.forall_mem_cons.mp hapt
    obtain ⟨hname, hnames⟩ := List.cons_subset.mp hnames
    have hresolver : resolver.Apt D (Uncovered asked hidden) loose :=
      ⟨fun other hother => ⟨hfirst.names other hother, huncovers.1 other hother⟩, hfirst.calls,
        hfirst.constants⟩
    have hfront := hnear.front hkin m m' hlineage hlineage'
    unfold Build.assign
    refine (hfront.resolve hinnocent hharmless hresolver).eval.tracks.bind ?_
    rintro v v' w₁ s₁ hrun hrun' ⟨ρ₁, hgoes, hv⟩
    have hlooked : Looked w w₁ := (hharmless.resolve _ resolver).eval w _ w₁ hrun
    have hlooked' : Looked s s₁ := (hharmless.resolve _ resolver).eval s _ s₁ hrun'
    have hpace₁ : ∀ n, Pace n ρ ρ₁ w w₁ s s₁ := .of_goes hgoes
    have hkin₁ := hkin.pace (hpace₁ _) (Nat.le_max_left _ _) (Nat.le_max_right _ _)
    refine (Kin.setAttribute (hnear.worlds.pace (hpace₁ 0)) hkin₁ hname hv).bind ?_
    rintro ⟨⟩ ⟨⟩ w₂ s₂ - - ⟨hw₂, hs₂, hkin₂⟩
    have hleft := (Proceeds.of_looked hlooked).trans (.of_edits hw₂)
    have hright := (Proceeds.of_looked hlooked').trans (.of_edits hs₂)
    have hpace : Pace (Context.elements C).length ρ ρ₁ w w₂ s s₂ :=
      ⟨hgoes.1.le, hgoes.1.stores.grow hw₂.touches.store hs₂.touches.store, .of_self hlineage hleft,
        hnear.contexts.length_eq ▸ .of_self hlineage' hright⟩
    refine (ih hrest hnames huncovers.2 hkin₂ (hnear.pace hpace)
      ((hleft.touches.lineage hkin.left.get).trans hlineage)
      ((hright.touches.lineage hkin.right.get).trans hlineage')).imp ?_
    rintro ⟨⟩ ⟨⟩ w₃ s₃ ⟨ρ₃, written, written', hextends, hstores, ⟨hw₃, hx₃⟩, ⟨hs₃, hx₃'⟩, hfields, hkeys⟩
    refine ⟨ρ₃, (name, v) :: written, (name, v') :: written', ?_, hstores, ⟨hleft.trans hw₃, hx₃⟩,
      ⟨hright.trans hs₃, hx₃'⟩, .cons ⟨rfl, hv.mono hextends.le⟩ hfields, ?_⟩
    · exact hgoes.1.extends_.trans hextends hleft.touches.store hright.touches.store
    · rw [List.map_cons, List.map_cons, hkeys]

/-! ### New elements -/

/-- Two new elements of a node, whose attributes are linked. -/
def Cognate (ρ : Link) (w s : World σ) (node : Node Resolver) (C C' : Context) (e e' : ElementId) :
    Prop :=
  ∃ x x' h h', Sprung w node C e x ∧ Sprung s node C' e' x' ∧ x.component = .headless h ∧
    x'.component = .headless h' ∧ ρ.Fields h.attributes h'.attributes

theorem Cognate.advance {ρ' : Link} {w' s' : World σ} {node : Node Resolver}
    (h : ρ.Cognate w s node C C' e e') (hadvances : Advances ρ ρ' w w' s s') :
    ρ'.Cognate w' s' node C C' e e' := by
  obtain ⟨x, x', h, h', hx, hx', hc, hc', hfields⟩ := h
  exact ⟨x, x', h, h', hx.retained hadvances.step.left.retains,
    hx'.retained hadvances.step.right.retains, hc, hc',
    hfields.mono hadvances.step.le⟩

/-- The attributes that the tag tells stand for themselves. -/
theorem fields_told (ρ : Link) (node : Node Resolver) : ρ.Fields node.told node.told := by
  refine List.forall₂_same.mpr fun entry hentry => ⟨rfl, ?_⟩
  obtain ⟨field, -, rfl⟩ := List.mem_map.mp hentry
  exact .plain rfl

theorem Fields.putAll {fields fields' : ReactiveViews.Fields Value} (hfields : ρ.Fields fields fields')
    {written written' : List (String × Value)} (hwritten : ρ.Fields written written') :
    ρ.Fields (fields.putAll written) (fields'.putAll written') := by
  induction hwritten generalizing fields fields' with
  | nil => exact hfields
  | cons hentry _ ih =>
    rw [ReactiveViews.Fields.putAll_cons, ReactiveViews.Fields.putAll_cons, hentry.1]
    exact ih (ReactiveViews.Fields.Related.put hfields _ hentry.2)

/-- An element is made in either world. -/
theorem Near.create (hinnocent : Innocent D enter) (hharmless : Harmless enter)
    (hnear : ρ.Near D asked loose C C' w s) {node : Node Resolver}
    (hapt : ∀ entry ∈ node.once, entry.2.Apt D asked loose) (hnames : node.once.map (·.1) ⊆ loose) :
    Tracks enter w s (Build.create node C .headless) (Build.create node C' .headless)
      fun e e' w' s' => ∃ ρ', Advances ρ ρ' w w' s s' ∧ ρ'.Cognate w' s' node C C' e e' := by
  obtain ⟨h, m, w₁, hattributes, hw₁, hx₁, heq⟩ := Build.runIn_create enter w node C
  obtain ⟨h', m', s₁, hattributes', hs₁, hx₁', heq'⟩ := Build.runIn_create enter s node C'
  have hadvances : Advances ρ ρ w w₁ s s₁ :=
    .of_proceeds (.refl _ _ _) (hnear.worlds.stores.grow hw₁.touches.store hs₁.touches.store) hw₁ hs₁
  have hkin : ρ.Kin w₁ s₁ (Uncovered asked []) loose ⟨w.elements.size⟩ ⟨s.elements.size⟩
      (.newborn node h C) (.newborn node h' C') h h' := by
    refine ⟨⟨hx₁, rfl, rfl⟩, ⟨hx₁', rfl, rfl⟩, hw₁.held ▸ List.mem_cons_self, hs₁.held ▸ List.mem_cons_self,
      rfl, fun name _ _ => ?_, fun name f hf => ?_⟩
    · rw [hattributes, hattributes']
      exact (ρ.fields_told node).get? name
    · rw [hattributes] at hf
      obtain hnone | ⟨text, htext⟩ := node.get?_told name
      · cases hnone.symm.trans hf
      · cases htext.symm.trans hf
  have happoint : Tracks enter w₁ s₁
      (Build.appoint ⟨w.elements.size⟩ node (.object (.scope m ⟨w.elements.size⟩) :: C))
      (Build.appoint ⟨s.elements.size⟩ node (.object (.scope m' ⟨s.elements.size⟩) :: C')) fun _ _ w' s' =>
      ∃ ρ' x x' k k', ρ.Extends ρ' w.store s.store ∧ ρ'.Stores w'.store s'.store ∧
        w'.elements.get? w.elements.size = some x ∧ s'.elements.get? s.elements.size = some x' ∧
        x.component = .headless k ∧ x'.component = .headless k' ∧ ρ'.Fields k.attributes k'.attributes := by
    refine (Kin.assign hinnocent hharmless hapt hnames (uncovers_nil _) hkin
      (hnear.pace (hadvances.pace _)) m m' (World.lineage_eq hx₁) (World.lineage_eq hx₁')).bind ?_
    rintro ⟨⟩ ⟨⟩ w₂ s₂ - - ⟨ρ₂, written, written', hextends, hstores, ⟨-, hx₂⟩, ⟨-, hx₂'⟩, hfields, -⟩
    obtain ⟨w₃, hrun₃, hw₃, hx₃⟩ := (Build.install_alters enter hx₂ (.view node .headless)
      (node.children.map .fresh)).liftE (ε := ViewError)
    obtain ⟨s₃, hrun₃', hs₃, hx₃'⟩ := (Build.install_alters enter hx₂' (.view node .headless)
      (node.children.map .fresh)).liftE (ε := ViewError)
    rintro ⟨⟩ w₃' hrun
    cases hrun₃.symm.trans hrun
    refine ⟨(), s₃, hrun₃', ρ₂, _, _, _, _, ?_, hstores.grow hw₃.touches.store hs₃.touches.store, hx₃, hx₃',
      rfl, rfl, ?_⟩
    · exact (Extends.refl ρ _ _).trans hextends hw₁.touches.store hs₁.touches.store
    · rw [hattributes, hattributes']
      exact (ρ₂.fields_told node).putAll hfields
  intro e w' hrun
  obtain ⟨rfl, hproceeds, x, hx⟩ := (Build.create_ends hharmless.rules w node C).ok hrun
  rw [heq] at hrun
  obtain ⟨⟨⟩, w₂, hrun₂, hrun⟩ := Build.runIn_bindE_eq_ok hrun
  obtain ⟨⟨⟩, s', hrun', ρ', y, y', k, k', hextends, hstores, hy, hy', hk, hk', hfields⟩ :=
    happoint () w₂ (Build.runIn_releasing_eq_ok hrun₂)
  cases hrun
  have hright : (Build.create node C' .headless).run.runIn enter s =
      (some (.ok ⟨s.elements.size⟩), s') := by
    rw [heq', Build.runIn_bindE_ok (Build.runIn_releasing_ok hrun')]
    rfl
  obtain ⟨-, hproceeds', x', hx'⟩ := (Build.create_ends hharmless.rules s node C').ok hright
  obtain rfl : x = y := Option.some.inj (hx.get.symm.trans hy)
  obtain rfl : x' = y' := Option.some.inj (hx'.get.symm.trans hy')
  exact ⟨_, s', hright, ρ', .of_proceeds hextends hstores hproceeds hproceeds', x, x', k, k', hx, hx', hk,
    hk', hfields⟩

/-- Two new elements of a node whose attributes are linked, made inside of two others. -/
def Offspring (ρ : Link) (w s : World σ) (node : Node Resolver) (e e' : ElementId) (C C' : Context)
    (c c' : ElementId) : Prop :=
  ∃ context context', ρ.Fronts e e' C C' context context' ∧ ρ.Cognate w s node context context' c c'

section

variable {ρ' : Link} {w' s' : World σ} {node : Node Resolver} {c c' : ElementId} {m m' : Nat}

/-- Elements are made in several contexts in either world. -/
theorem Near.createAll (hinnocent : Innocent D enter) (hharmless : Harmless enter)
    (hnear : ρ.Near D asked loose (.object (.scope m e) :: C) (.object (.scope m' e') :: C') w s)
    (hapt : ∀ entry ∈ node.once, entry.2.Apt D asked loose) (hnames : node.once.map (·.1) ⊆ loose)
    {contexts contexts' : List Context}
    (hcontexts : List.Forall₂ (ρ.Fronts e e' C C') contexts contexts') :
    Tracks enter w s (Build.createAll node .headless contexts)
      (Build.createAll node .headless contexts') fun es es' w' s' =>
        ∃ ρ', Advances ρ ρ' w w' s s' ∧ List.Forall₂ (ρ'.Offspring w' s' node e e' C C') es es' := by
  induction contexts generalizing contexts' ρ w s with
  | nil =>
    cases hcontexts
    exact .pure ⟨ρ, .refl hnear.worlds.stores, .nil⟩
  | cons context rest ih =>
    cases hcontexts with
    | @cons _ context' _ rest' hfirst hrest =>
      refine (Near.create hinnocent hharmless (hnear.fronts hfirst) hapt hnames).bind ?_
      rintro c c' w₁ s₁ - - ⟨ρ₁, hadvances, hcognate⟩
      refine (Tracks.releasing (ih (hnear.advance hadvances)
        (hrest.imp fun _ _ h => h.mono hadvances.step.le)) _ _).bind ?_
      rintro es es' w₂ s₂ - - ⟨ρ₂, hadvances', hall⟩
      exact .pure ⟨ρ₂, hadvances.trans hadvances',
        .cons ⟨context, context', hfirst.mono (Link.le_trans hadvances.step.le hadvances'.step.le),
          hcognate.advance hadvances'⟩ hall⟩

/-- A list is shown from nothing in either world. -/
theorem Near.spread (hinnocent : Innocent D enter) (hharmless : Harmless enter)
    (hnear : ρ.Near D asked loose (.object (.scope m e) :: C) (.object (.scope m' e') :: C') w s)
    (hcondition : ∀ r ∈ node.condition, r.Apt D asked loose) {loose' : List String}
    (hloose : loose ⊆ loose') (hapt : ∀ entry ∈ node.once, entry.2.Apt D asked loose')
    (hnames : node.once.map (·.1) ⊆ loose') (name : String) (list list' : Value)
    {items items' : List Value} (hitems : List.Forall₂ ρ.Values items items') :
    Tracks enter w s (Build.spread node .headless name (.object (.scope m e) :: C) list items)
      (Build.spread node .headless name (.object (.scope m' e') :: C') list' items') fun last last' w' s' =>
        ∃ ρ', Advances ρ ρ' w w' s s' ∧ last.list = list ∧ last'.list = list' ∧
          List.Forall₂ (ρ'.Fronts e e' C C') last.contexts last'.contexts ∧
          List.Forall₂ (ρ'.Offspring w' s' node e e' C C') last.elements last'.elements := by
  unfold Build.spread
  refine (Tracks.message .trace _ _).bind ?_
  rintro ⟨⟩ ⟨⟩ w₁ s₁ - - ⟨hw₁, hs₁⟩
  have h₁ : Advances ρ ρ w w₁ s s₁ := .of_looked hnear.worlds.stores hw₁ hs₁
  refine ((hnear.advance h₁).worlds.frames name m m' e e' C C' hitems).liftE.tracks.bind ?_
  rintro contexts contexts' w₂ s₂ - - ⟨ρ₂, hgoes₂, hcontexts⟩
  have h₂ := h₁.trans (.of_goes hgoes₂)
  have hnear₂ := hnear.advance h₂
  refine ((Near.conditions hinnocent hharmless hnear₂.worlds hcondition (hcontexts.imp fun _ _ hfronts =>
    (hnear₂.fronts hfronts).contexts)).tracks).bind ?_
  rintro conditions _ w₃ s₃ - - ⟨ρ₃, hgoes₃, rfl⟩
  have h₃ := h₂.trans (.of_goes hgoes₃)
  have hnear₃ := (hnear.advance h₃).mono (fun _ => id) hloose
  refine (Near.createAll hinnocent hharmless hnear₃ hapt hnames
    (forall₂_shown (hcontexts.imp fun _ _ hfronts => hfronts.mono hgoes₃.1.le) conditions)).bind ?_
  rintro es es' w₄ s₄ - - ⟨ρ₄, h₄, hall⟩
  refine .pure ⟨ρ₄, h₃.trans h₄, rfl, rfl, hcontexts.imp fun _ _ hfronts => ?_, hall⟩
  exact hfronts.mono (Link.le_trans hgoes₃.1.le h₄.step.le)

end

end Link

end ReactiveViews
