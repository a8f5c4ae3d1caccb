import ReactiveViews.Live.Requests
import ReactiveViews.Proofs.Live.Building

/-!
# Trees that are up to date

A view is built once, and then the data change and the tree is updated, again and again; some of the
updates may fail in the middle. After an update that succeeds the tree looks as if the view were
built anew.

The two are compared by drawing: in the world before the update the root can be drawn, the update
answers like that drawing, and so does a building afterwards, since nothing that is drawn has changed.

## What is required

Everything that can be seen from the scopes around the view, from its constants and by the functions of
the host program is in a *scene*. There are no elements in it, and none of the records that stand for
the items of lists; functions only look. Between updates anything may change but the elements of the
tree and those records. An array that is shown from memory has the items it had then.

## What is proved

**Up to date** (`Runs.update_builds`). Whenever an update succeeds, a building of the same view
afterwards succeeds as well, and both trees look like one picture and have the same outline.
-/

namespace ReactiveViews

variable {σ : Type}

/-! ### Changes between updates -/

/-- A record that stands for an item in a slot somewhere in the tree of an element. -/
def World.Frame (w : World σ) (e : ElementId) (r : RecordId) : Prop :=
  ∃ y x slot last, w.Below e y ∧ w.elements.get? y.row = some x ∧ slot ∈ x.slots ∧
    slot.memory = .repeated (some last) ∧ r ∈ last.frames

/-- From a world to another one in which a tree and the records for its items are the same. -/
structure Changes (e : ElementId) (w w' : World σ) : Prop where
  /-- The elements of the tree are as they were. -/
  elements : ∀ y, w.Below e y → w'.elements.get? y.row = w.elements.get? y.row
  /-- No array is lost. -/
  arrays_le : w.store.arrays.size ≤ w'.store.arrays.size
  /-- No record is lost. -/
  records_le : w.store.records.size ≤ w'.store.records.size
  /-- The records for items are as they were. -/
  frames : ∀ r, w.Frame e r → w'.store.fields r = w.store.fields r

theorem Changes.refl (e : ElementId) (w : World σ) : Changes e w w :=
  ⟨fun _ _ => rfl, Nat.le_refl _, Nat.le_refl _, fun _ _ => rfl⟩

/-- The host program may remember something else. -/
theorem Changes.host (e : ElementId) (w : World σ) (memory : σ) :
    Changes e w { w with host := memory } :=
  ⟨fun _ _ => rfl, Nat.le_refl _, Nat.le_refl _, fun _ _ => rfl⟩

theorem Changes.lineage {e : ElementId} {w w' : World σ} (h : Changes e w w') {y : ElementId}
    (hy : w.Below e y) : w'.lineage y = w.lineage y := by
  rw [World.lineage, World.lineage, h.elements y hy]

/-- The tree of a child of a tree. -/
theorem Changes.below {e c : ElementId} {w w' : World σ} (h : Changes e w w') (hc : w.Below e c) :
    Changes c w w' where
  elements y hy := h.elements y (hc.trans hy)
  arrays_le := h.arrays_le
  records_le := h.records_le
  frames r := by
    rintro ⟨y, x, slot, last, hy, hrest⟩
    exact h.frames r ⟨y, x, slot, last, hc.trans hy, hrest⟩

/-- Records at the front of the contexts that a slot remembers stand for items. -/
theorem World.Frame.of_slot {w : World σ} {e : ElementId} {x : Element}
    (hx : w.elements.get? e.row = some x) {slot : Slot} (hslot : slot ∈ x.slots) {last : Repetition}
    (hmemory : slot.memory = .repeated (some last)) {r : RecordId} {rest : Context}
    (hcontext : .object (.record r) :: rest ∈ last.contexts) : w.Frame e r :=
  ⟨e, x, slot, last, .refl w e, hx, hslot, hmemory, List.mem_filterMap.mpr ⟨_, hcontext, rfl⟩⟩

/-- What a slot remembers stays right while the data change, in every scene without the records for
items. -/
theorem Remembers.changed {w w' : World σ} {D D' : Scene σ} {e : ElementId} {x : Element}
    (hx : w.elements.get? e.row = some x) {slot : Slot} (hslot : slot ∈ x.slots)
    (h : Remembers w D w.store e x.context slot.node slot.memory) (hchanges : Changes e w w')
    (hbelow : ∀ c ∈ slot.elements, w.Below e c) (hapart : ∀ r, w.Frame e r → ¬ D'.records r) :
    Remembers w' D' w'.store e x.context slot.node slot.memory := by
  have helements : ∀ c ∈ slot.elements, w'.elements.get? c.row = w.elements.get? c.row :=
    fun c hc => hchanges.elements c (hbelow c hc)
  unfold Slot.elements at helements
  have hframe : ∀ {last r rest}, slot.memory = .repeated (some last) →
      .object (.record r) :: rest ∈ last.contexts → w.Frame e r :=
    fun hmemory hcontext => World.Frame.of_slot hx hslot hmemory hcontext
  generalize slot.memory = memory at h helements hframe ⊢
  cases h with
  | none hrepetition => exact .none hrepetition
  | blank hrepetition => exact .blank hrepetition
  | child m hrepetition hc hcontext =>
    exact .child m hrepetition ((helements _ (by simp)).trans hc) hcontext
  | list hrepetition hcontexts hchildren harray htext =>
    refine .list hrepetition (fun context hmem => ?_) ?_
      (fun a ha => Nat.lt_of_lt_of_le (harray a ha) hchanges.arrays_le) fun text ht => ?_
    · obtain ⟨r, m, v, rfl, hframed⟩ := hcontexts context hmem
      exact ⟨r, m, v, rfl, Nat.lt_of_lt_of_le hframed.old hchanges.records_le, hapart r (hframe rfl hmem),
        hframed.other, (hchanges.frames r (hframe rfl hmem)).trans hframed.fields⟩
    · have hmem := (List.forall₂_and_left (p := (· ∈ _)) _ _).mpr ⟨fun _ => id, hchildren⟩
      exact hmem.imp fun c context ⟨hc, y, hy, hcontext⟩ =>
        ⟨y, (helements c (by simpa using hc)).trans hy, hcontext⟩
    · have hmem := (List.forall₂_and_left (p := (· ∈ _)) _ _).mpr ⟨fun _ => id, htext text ht⟩
      refine hmem.imp ?_
      rintro _ v ⟨hcontext, r, rest, name, rfl, hrange, hfields⟩
      exact ⟨r, rest, name, rfl, Nat.lt_of_lt_of_le hrange hchanges.records_le,
        (hchanges.frames r (hframe rfl hcontext)).trans hfields⟩

theorem Changes.frame {e : ElementId} {w w' : World σ} (h : Changes e w w') {r : RecordId}
    (hr : w.Frame e r) : w'.Frame e r := by
  obtain ⟨y, x, slot, last, hy, hx, hrest⟩ := hr
  refine ⟨y, x, slot, last, ?_, (h.elements y hy).trans hx, hrest⟩
  rw [World.Below, h.lineage (.refl w e), h.lineage hy]
  exact hy

/-- A tree stays a tree while the data change, in every scene without the records for its items. -/
theorem Grown.changed {w w' : World σ} {D D' : Scene σ} {node : Node Resolver} {e : ElementId}
    (h : Grown w D w.store node e) (hchanges : Changes e w w')
    (hapart : ∀ r, w.Frame e r → ¬ D'.records r) : Grown w' D' w'.store node e := by
  induction h with
  | @intro node e x hx hstem hupdater hnodup hremembers _ ih =>
    have hchild : ∀ slot ∈ x.slots, ∀ c ∈ slot.elements, w.Below e c := by
      intro slot hslot c hc
      obtain ⟨-, -, hlineage⟩ := (hremembers slot hslot).lineage hc
      rw [World.Below, hlineage, World.lineage_eq hx]
      exact List.suffix_cons _ _
    refine .intro ((hchanges.elements e (.refl w e)).trans hx) hstem hupdater hnodup
      (fun slot hslot => ?_) fun slot hslot c hmem => ?_
    · exact (hremembers slot hslot).changed hx hslot hchanges (hchild slot hslot) hapart
    · have hc := hchild slot hslot c hmem
      refine ih slot hslot c hmem (hchanges.below hc) ?_
      rintro r ⟨y, z, slot', last, hy, hrest⟩
      exact hapart r ⟨y, z, slot', last, hc.trans hy, hrest⟩

/-! ### Runs -/

/-- A scene with everything that is to be seen by a view in a context, and by functions that only
look. -/
structure Scene.Covers (D : Scene σ) (host : Host σ) (node : Node Resolver) (C : Context)
    (w : World σ) : Prop where
  /-- Functions only look. -/
  innocent : ∀ depth, Innocent D (host.enter depth)
  /-- What the host program remembers. -/
  memory : w.host = D.memory
  /-- Nothing in the scene leads out of it. -/
  closed : D.Closed w.store
  /-- The scopes are in the scene. -/
  scopes : ∀ v ∈ C, D.Holds v
  /-- The constants are in the scene. -/
  constants : ∀ v ∈ node.constants, D.Holds v

/-- The worlds of a run: a view is built, and then, in any order, the data change and the tree is
updated, with success or not. -/
inductive Runs (host : Host σ) (view : View Resolver) (node : Node Resolver) (C : Context) :
    ElementId → World σ → Prop where
  /-- The view is built; the update of its root is a call that is entered. -/
  | build {D : Scene σ} {depth : Nat} {e : ElementId} {w w' : World σ} : D.Covers host node C w →
    (Build.build view C .headless).run.runIn (host.enter (depth + 1)) w = (some (.ok e), w') →
    Runs host view node C e w'
  /-- The data change. -/
  | change {e : ElementId} {w w' : World σ} : Runs host view node C e w → Changes e w w' →
    Runs host view node C e w'
  /-- The tree is updated. -/
  | update {D : Scene σ} {depth : Nat} {e : ElementId} {w w' : World σ}
    {answer : Except ViewError Unit} : Runs host view node C e w → D.Covers host node C w →
    (∀ r, w.Frame e r → ¬ D.records r) →
    (Act.update e).runIn (host.enter depth) w = (some answer, w') →
    Faithful w.store w.history.length w' → Runs host view node C e w'

section

variable {host : Host σ} {view : View Resolver} {node : Node Resolver} {C : Context} {D : Scene σ}
  {e : ElementId} {w w' : World σ}

theorem Scene.Covers.lucid (h : D.Covers host node C w) (hfree : node.CaptureFree)
    (honce : node.OnceFree) : node.Lucid D := ⟨hfree, honce, h.constants⟩

theorem Link.Contexts.of_values {ρ : Link} {names : List String} {C : Context}
    (h : ∀ v ∈ C, ρ.Values v v) : ρ.Contexts w names C C := by
  induction C with
  | nil => exact .nil
  | cons v C ih =>
    obtain ⟨hv, hC⟩ := List.forall_mem_cons.mp h
    exact .value hv (ih hC)

/-- A world and one that has come from it cannot be told apart by anyone who knows the scene. -/
theorem Scene.Covers.tied (h : D.Covers host node C w) {S : ElementId → Prop}
    (hw : Touches S w w') : D.link.Tied D node.names C C w' w where
  worlds := (Link.Worlds.mk (Link.le_refl _) h.closed rfl h.memory h.memory).grow hw
    (.refl (S := fun _ => False) w)
  contexts := .of_values h.scopes

/-- An update answers like the drawing of the root in the same world. -/
theorem Scene.Covers.update_draws (h : D.Covers host node C w) (hfree : node.CaptureFree)
    (honce : node.OnceFree) (depth : Nat) (hgrown : Grown w D w.store node e)
    (hcontext : ∃ x, w.elements.get? e.row = some x ∧ x.context = C) :
    Agree (Faithful w.store w.history.length) (host.enter depth)
      (Result (Redrawn D node e w w) (Updated D node e w)) w w (Act.update e)
      (host.draw depth node C).run := by
  obtain ⟨x, hx, rfl⟩ := hcontext
  exact host.update_draws h.innocent depth (h.lucid hfree honce) hgrown hx
    ⟨h.tied (.refl (S := fun _ => False) w), fun r q hrq => .inl hrq.2, .refl _, Nat.le_refl _⟩

/-! ### Trees in runs -/

/-- The tree of a run is a tree of the node at every moment, in every scene without the records for
its items. -/
theorem Runs.grown (hview : view.Single node) (hfree : node.CaptureFree) (honce : node.OnceFree)
    (h : Runs host view node C e w) :
    (∃ x, w.elements.get? e.row = some x ∧ x.context = C) ∧
      ∀ D : Scene σ, (∀ r, w.Frame e r → ¬ D.records r) → Grown w D w.store node e := by
  induction h with
  | @build D depth e w w' hcovers hrun =>
    have hdraws := host.build_draws hcovers.innocent depth hview (hcovers.lucid hfree honce)
      (hcovers.tied (.refl (S := fun _ => False) w))
    rw [hrun] at hdraws
    generalize (host.draw depth node C).run.runIn (host.enter depth) w = drawn at hdraws
    cases hdraws with
    | both houtcome =>
      cases houtcome with
      | ok hbuilt => exact ⟨hbuilt.context, fun D' => hbuilt.grown.changed (.refl e w')⟩
  | @change e w w' _ hchanges ih =>
    obtain ⟨⟨x, hx, hcontext⟩, hgrown⟩ := ih
    refine ⟨⟨x, (hchanges.elements e (.refl w e)).trans hx, hcontext⟩, fun D hapart => ?_⟩
    have hbare := hgrown ⟨⟨fun _ => False, fun _ => False⟩, w.host⟩ fun _ _ => id
    exact hbare.changed hchanges fun r hr => hapart r (hchanges.frame hr)
  | @update D depth e w w' answer _ hcovers hapart hrun hfaithful ih =>
    obtain ⟨hcontext, hgrown⟩ := ih
    have hdraws := hcovers.update_draws hfree honce depth (hgrown D hapart) hcontext
    unfold Agree at hdraws
    rw [hrun] at hdraws
    have hupdated : Updated D node e w w' := by
      have hanswers := hdraws hfaithful
      generalize (host.draw depth node C).run.runIn (host.enter depth) w = drawn at hanswers
      cases hanswers with
      | both hresult =>
        obtain ⟨houtcome, herror⟩ := hresult
        cases houtcome with
        | ok hredrawn => exact hredrawn.updated
        | error => exact herror rfl
    obtain ⟨x, hx, hcontext⟩ := hcontext
    obtain ⟨y, hy, hcontext', -⟩ := hupdated.touches.element e x hx
    exact ⟨⟨y, hy, hcontext'.trans hcontext⟩, fun D' => hupdated.grown.changed (.refl e w')⟩

/-- **Up to date.** Right after an update that succeeds, a building of the same view succeeds, and the
tree and the new one look like one picture. -/
theorem Runs.update_builds (hview : view.Single node) (hfree : node.CaptureFree)
    (honce : node.OnceFree) (hrun : Runs host view node C e w) (hcovers : D.Covers host node C w)
    (hapart : ∀ r, w.Frame e r → ¬ D.records r) {depth : Nat}
    (hupdate : (Act.update e).runIn (host.enter depth) w = (some (.ok ()), w'))
    (hfaithful : Faithful w.store w.history.length w') :
    ∃ picture e' w'', Shows w' e picture ∧
      (Build.build view C .headless).run.runIn (host.enter (depth + 1)) w' = (some (.ok e'), w'') ∧
      Shows w'' e' picture ∧ ∀ enter enter' : Enter σ,
        ((Act.outline e).runIn enter w').1 = ((Act.outline e').runIn enter' w'').1 := by
  obtain ⟨hcontext, hgrown⟩ := hrun.grown hview hfree honce
  have hdraws := hcovers.update_draws hfree honce depth (hgrown D hapart) hcontext
  unfold Agree at hdraws
  rw [hupdate] at hdraws
  have hanswers := hdraws hfaithful
  -- both the update and the building answer like this drawing, which is made before the update
  generalize hdrawn : (host.draw depth node C).run.runIn (host.enter depth) w = drawn at hanswers
  cases hanswers with
  | @both _ answer _ s' hresult =>
    obtain ⟨houtcome, -⟩ := hresult
    cases houtcome with
    | @ok _ picture hredrawn =>
      have hbuilds := host.build_draws hcovers.innocent depth hview (hcovers.lucid hfree honce)
        (hcovers.tied hredrawn.updated.touches)
      rw [hdrawn] at hbuilds
      generalize (Build.build view C .headless).run.runIn (host.enter (depth + 1)) w' = built at hbuilds
      cases hbuilds with
      | @both made _ w'' _ houtcome =>
        cases houtcome with
        | @ok e' _ hbuilt =>
          exact ⟨picture, e', w'', hredrawn.shows, rfl, hbuilt.shows, fun enter enter' =>
            (hredrawn.shows.outline_eq enter).trans (hbuilt.shows.outline_eq enter').symm⟩

end

/-! ### A text that is spelled -/

/-- A host program with objects that own, under every name, the text that it remembers. -/
def storyteller : Host String where
  answer
    | .getOwn _ _ => .memory fun text => .done (some (.str text))
    | _ => .hang

theorem storyteller_innocent (D : Scene String) (depth : Nat) :
    Innocent D (storyteller.enter depth) where
  apply {ρ w s} _ f v v' args args' _ _ := by
    cases depth with
    | zero => exact .neither w s
    | succ depth => exact .neither w s
  getOwn {ρ w s} h object key := by
    cases depth with
    | zero => exact .neither w s
    | succ depth =>
      have hsame : (some (.str w.host) : Option Value) = some (.str s.host) := by rw [h.left, h.right]
      refine .both ⟨ρ, .refl h.stores, ?_⟩
      show Option.Rel ρ.Values (some (.str w.host)) (some (.str s.host))
      rw [hsame]
      exact .some (.plain rfl)

/-- A list with an entry for each character of a text. -/
def spelling : Node Resolver :=
  ⟨⟨"ul", none, [], none⟩, "ul", [], [], [], none, none,
    [⟨⟨"li", none, [], none⟩, "ul/li", [], [("v", .text [.chain ⟨[.lookup "c"], "c"⟩])], [],
      some ("c", .text [.chain ⟨[.lookup "text"], "text"⟩]), none, []⟩]⟩

/-- The scopes for it: an object of the host program. -/
def story : Context := [.object (.foreign 0 "Story")]

/-- The text `ab` is spelled. -/
def spelled : World String :=
  ((Build.build ⟨[spelling]⟩ story .headless).run.runIn (storyteller.enter 2) (.empty .off "ab")).2

/-- The text is `abc` by now. -/
def toldMore : World String := { spelled with host := "abc" }

/-- The list has been updated. -/
def respelled : World String := ((Act.update ⟨0⟩).runIn (storyteller.enter 1) toldMore).2

theorem eq_ok_of_toOption {α β ε : Type} {x : Option (Except ε α) × β} {a : α}
    (h : x.1.bind Except.toOption = some a) : x = (some (.ok a), x.2) := by
  obtain ⟨_ | _ | b, y⟩ := x
  · cases h
  · cases h
  · cases h
    rfl

/-- After the update the list is what it would be if it were built anew. -/
theorem Runs.update_builds_spelling :
    ∃ picture e' w'', Shows respelled ⟨0⟩ picture ∧
      (Build.build ⟨[spelling]⟩ story .headless).run.runIn (storyteller.enter 2) respelled =
        (some (.ok e'), w'') ∧
      Shows w'' e' picture ∧ ∀ enter enter' : Enter String,
        ((Act.outline ⟨0⟩).runIn enter respelled).1 = ((Act.outline e').runIn enter' w'').1 := by
  have hcovers : ∀ w : World String,
      Scene.Covers ⟨⟨fun _ => False, fun _ => False⟩, w.host⟩ storyteller spelling story w := by
    intro w
    refine ⟨storyteller_innocent _, rfl, ⟨fun h => h.2.elim, fun h => h.2.elim⟩, ?_, ?_⟩
    · exact List.forall_mem_singleton.mpr (.plain rfl)
    · intro v hv
      cases hv
  have hbuild : (Build.build ⟨[spelling]⟩ story .headless).run.runIn (storyteller.enter 2)
      (.empty .off "ab") = (some (.ok ⟨0⟩), spelled) :=
    eq_ok_of_toOption (by decide +kernel)
  have hupdate : (Act.update ⟨0⟩).runIn (storyteller.enter 1) toldMore = (some (.ok ()), respelled) :=
    eq_ok_of_toOption (by decide +kernel)
  have hchanges : Changes ⟨0⟩ spelled toldMore := .host ⟨0⟩ spelled "abc"
  have hview : View.Single ⟨[spelling]⟩ spelling := ⟨rfl, rfl, rfl⟩
  have hrun : Runs storyteller ⟨[spelling]⟩ spelling story ⟨0⟩ toldMore :=
    .change (.build (hcovers _) hbuild) hchanges
  have harrays : toldMore.store.arrays.size = 0 := by decide +kernel
  have hfaithful : Faithful toldMore.store toldMore.history.length respelled := by
    intro a _ _ ha
    rw [harrays] at ha
    exact absurd ha (Nat.not_lt_zero _)
  exact Runs.update_builds hview (by decide +kernel) (by decide +kernel) hrun (hcovers toldMore)
    (fun _ _ => id) hupdate hfaithful

/-! ### An element among the data -/

/-- A paragraph whose first attribute tells the second attribute of `s`, and whose second tells `x`. -/
def lagging : Node Resolver :=
  ⟨⟨"p", none, [], none⟩, "p", [], [("a", .text [.chain ⟨[.lookup "s", .property (.str "b")], "s.b"⟩]),
    ("b", .text [.chain ⟨[.lookup "x"], "x"⟩])], [], none, none, []⟩

/-- The paragraph is built; then the paragraph itself, as a scope, is put under `s`, and there is another
`x`. Afterwards it is updated, and built anew. The answer is the outline of either. -/
def lag : Script Unit (Option (String × String)) := do
  let data ← Script.newRecord [("x", .str "1")]
  match data, ← Script.request (.build ⟨[lagging]⟩ [data] .headless) with
  | .object (.record r), .ok root =>
    let scopes ← Script.request (.contextOf root)
    Script.request (.setFields r [("x", .str "2"), ("s", scopes.headD .undefined)])
    match ← Script.request (.update root) with
    | .ok () =>
      let updated ← Script.request (.outline root)
      match ← Script.request (.build ⟨[lagging]⟩ [data] .headless) with
      | .ok fresh => return some (updated, ← Script.request (.outline fresh))
      | .error _ => return none
    | .error _ => return none
  | _, _ => return none

/-- With an element among the data, what an update shows depends on what the element was like before. -/
theorem Runs.lag_not_up_to_date :
    View.Single ⟨[lagging]⟩ lagging ∧ lagging.CaptureFree ∧ lagging.OnceFree ∧
      (Host.run ⟨fun _ => .hang⟩ 2 lag (.empty .off ())).1 =
        some (some ("p [a=1, b=2]\n", "p [a=2, b=2]\n")) :=
  ⟨⟨rfl, rfl, rfl⟩, by decide +kernel, by decide +kernel, by decide +kernel⟩

end ReactiveViews
