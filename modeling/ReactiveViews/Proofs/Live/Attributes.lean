import ReactiveViews.Live.Requests
import ReactiveViews.Proofs.Live.UpToDate

/-!
# Bound attributes

The attributes of an element are among the scopes of its own expressions, in front of all others. So
what one update writes another one may read: an expression that asks for an attribute which is set
with it or after it is told what the update before has written, and in a new element that there is
none.

An expression *looks back* if it asks for no attribute that is set with it or after it; `tag` may be
asked for in any case, since it always means the tag. When the attributes are set one after the
other, each expression then finds the earlier ones as this update has written them, and the later
ones are out of sight.

A function that is called as soon as its name has been looked up is called for the scope that owns
it. If this is the element, the function can read the later attributes there.

## The model

`Rounds` builds a view, then lets the data change and updates the element with success, any number of
times. What can be seen from the scopes around the element is in a scene that contains no elements,
as for trees (`Scene.Covers`); functions only look, and they hold nothing and let go of nothing.

## What is proved

**Bound attributes are up to date** (`Rounds.bind_refreshed`): if the expressions look back and call no
bound attribute at once, then after each round a building of the same view succeeds, and every bound
attribute has the same text in both elements.
-/

namespace ReactiveViews

variable {σ α β : Type}

/-! ### Nodes and directives -/

namespace Node

/-- A node without children and without other directives than bound attributes. -/
structure BindsOnly (node : Node Resolver) : Prop where
  /-- No attributes are set once. -/
  once : node.once = []
  /-- There are no handlers. -/
  on : node.on = []
  /-- There is no list. -/
  repetition : node.repetition = none
  /-- There is no condition. -/
  condition : node.condition = none
  /-- There are no children. -/
  children : node.children = []

/-- No expression asks for an attribute that is set with it or after it. -/
def LooksBack : List (String × Resolver) → Prop
  | [] => True
  | entry :: rest =>
    (∀ name ∈ entry.2.names, name ≠ "tag" → name ∉ (entry :: rest).map (·.1)) ∧ LooksBack rest

instance decidableLooksBack : (entries : List (String × Resolver)) → Decidable (LooksBack entries)
  | [] => .isTrue trivial
  | entry :: rest =>
    have := decidableLooksBack rest
    inferInstanceAs (Decidable
      ((∀ name ∈ entry.2.names, name ≠ "tag" → name ∉ (entry :: rest).map (·.1)) ∧ LooksBack rest))

/-- The names under which an element of a node owns what its expressions have evaluated to. -/
def evaluated (node : Node Resolver) : List String := (node.bind.map (·.1)).filter (· ≠ "tag")

/-- No expression asks for an attribute that is set with it or after it, or calls a bound attribute as
soon as it has looked it up. -/
structure Settles (node : Node Resolver) : Prop where
  /-- What is asked for. -/
  looksBack : LooksBack node.bind
  /-- What is called. -/
  calls : ∀ entry ∈ node.bind, ∀ name ∈ entry.2.callees, name ∉ node.evaluated

end Node

/-! ### Functions that hold nothing -/

/-- The act holds nothing and lets go of nothing. -/
def LeavesHeld (enter : Enter σ) (act : Act σ α) : Prop :=
  ∀ w, (act.runIn enter w).2.held = w.held

/-- Functions and objects of the host program hold nothing and let go of nothing. -/
structure Steady (enter : Enter σ) : Prop where
  /-- Functions are applied. -/
  apply : ∀ (f : Function) (receiver : Value) (args : List Value),
    LeavesHeld enter (Act.enterHost (.apply f receiver args))
  /-- Properties of objects are read. -/
  getOwn : ∀ (object : Nat) (key : String), LeavesHeld enter (Act.enterHost (.getOwn object key))

/-- A value that is no element. -/
def Value.IsData (v : Value) : Prop := ∀ m e, v ≠ .object (.scope m e)

namespace LeavesHeld

variable {enter : Enter σ}

theorem bind {act : Act σ α} {f : α → Act σ β} (h : LeavesHeld enter act)
    (hf : ∀ a, LeavesHeld enter (f a)) : LeavesHeld enter (act >>= f) := by
  intro w
  have hw := h w
  rw [Act.runIn_bind]
  revert hw
  rcases act.runIn enter w with ⟨_ | a, w'⟩
  · exact id
  · exact fun hw => (hf a w').trans hw

theorem pure (a : α) : LeavesHeld enter (Pure.pure a : Act σ α) := fun _ => rfl

theorem text (v : Value) : LeavesHeld enter (Act.text v) := fun w => by rw [Act.runIn_text]

theorem getOwn (h : Steady enter) {v : Value} (hv : v.IsData) (key : String) :
    LeavesHeld enter (Act.getOwn v key) := by
  intro w
  cases v with
  | object o =>
    cases o with
    | record => rfl
    | scope m e => exact (hv m e rfl).elim
    | foreign n type => exact h.getOwn n key w
  | _ => rfl

theorem getKeyed (h : Steady enter) {v : Value} (hv : v.IsData) (key : Value) :
    LeavesHeld enter (Act.getKeyed v key) :=
  (text key).bind fun _ => (getOwn h hv _).bind fun _ => pure _

theorem lookup (h : Steady enter) (name : String) {C : Context} (hC : ∀ v ∈ C, v.IsData) :
    LeavesHeld enter (Act.lookup name C) := by
  induction C with
  | nil => exact pure _
  | cons scope rest ih =>
    obtain ⟨hscope, hrest⟩ := List.forall_mem_cons.mp hC
    refine (getOwn h hscope name).bind fun owned => ?_
    split
    · exact ih hrest
    · exact ih hrest
    · exact pure _

end LeavesHeld

namespace Link

/-- Linked values, and steps that touch nothing and after which the same elements are held. -/
def steadyBond : Bond σ where
  Index := Link
  Meets ρ w s := ρ.Stores w.store s.store
  Values ρ := ρ.Values
  Goes ρ ρ' w w' s s' := ρ.Step ρ' w w' s s' ∧ w'.held = w.held ∧ s'.held = s.held
  refl h := ⟨.refl h, rfl, rfl⟩
  trans h h' := ⟨h.1.trans h'.1, h'.2.1.trans h.2.1, h'.2.2.trans h.2.2⟩
  meets h := h.1.stores
  values h hv := hv.mono h.1.le
  undefined := bond (σ := σ).undefined
  str := bond (σ := σ).str
  truthy := bond (σ := σ).truthy
  function := bond (σ := σ).function

variable {ρ : Link} {v v' : Value}

theorem Values.isData (h : ρ.Values v v') : v.IsData := by
  rintro m e rfl
  cases h with
  | plain hplain => cases hplain

theorem Values.isData' (h : ρ.Values v v') : v'.IsData := by
  rintro m e rfl
  cases h with
  | plain hplain => cases hplain

end Link

theorem Mimics.steady {V : Link → α → β → Prop} {enter : Enter σ} {ρ : Link} {w s : World σ}
    {act : Act σ α} {act' : Act σ β} (h : Mimics enter V ρ w s act act')
    (hact : LeavesHeld enter act) (hact' : LeavesHeld enter act') :
    Link.steadyBond.Mimics enter V ρ w s act act' := by
  have hw := hact w
  have hs := hact' s
  unfold Mimics at h
  unfold Bond.Mimics
  generalize act.runIn enter w = x at h hw ⊢
  generalize act'.runIn enter s = y at h hs ⊢
  cases h with
  | both hV =>
    obtain ⟨ρ', hstep, hV⟩ := hV
    exact .both ⟨ρ', ⟨hstep, hw, hs⟩, hV⟩
  | neither => exact .neither _ _

/-! ### An element and what it owns -/

/-- An element of a node with some scopes around it; the attributes that its node does not bind are
those that the tag tells. -/
structure World.Clad (w : World σ) (node : Node Resolver) (C : Context) (e : ElementId) (x : Element)
    (h : Headless) : Prop where
  /-- The element. -/
  get : w.elements.get? e.row = some x
  /-- Its component draws nothing. -/
  component : x.component = .headless h
  /-- Its component is not in the middle of a change. -/
  idle : x.busy = false
  /-- Its tag. -/
  tag : x.tag = node.tag
  /-- The scopes around it. -/
  context : x.context = C
  /-- The attributes that are not bound. -/
  told : ∀ name, name ∉ node.bind.map (·.1) → h.attributes.get? name = node.told.get? name

/-- What the tag tells is texts. -/
theorem Node.get?_told (node : Node Resolver) (name : String) :
    node.told.get? name = none ∨ ∃ text, node.told.get? name = some (.str text) := by
  unfold Node.told
  induction node.tag.attributes with
  | nil => exact .inl rfl
  | cons field rest ih =>
    rw [List.map_cons, Fields.get?]
    split
    · exact .inr ⟨field.2, rfl⟩
    · exact ih

/-- What an element of a node owns under a name, undefined if it is nothing. -/
def Headless.owned (h : Headless) (node : Node Resolver) (name : String) : Value :=
  if name = "tag" then .str node.tag.tag else h.attributeValue name

theorem World.Clad.getOwn {w : World σ} {node : Node Resolver} {C : Context} {e : ElementId}
    {x : Element} {h : Headless} (hclad : w.Clad node C e x h) (hheld : e ∈ w.held) (enter : Enter σ)
    (m : Nat) (name : String) :
    (Act.getOwn (.object (.scope m e)) name).runIn enter w = (some (some (h.owned node name)), w) := by
  have halive : (Act.alive e).runIn enter w = (some true, w) := by
    show (some (w.alive e), w) = _
    rw [World.alive_of_held (Table.lt_size_of_get? hclad.get) hheld]
  show (Act.scopeGetOwn e name).runIn enter w = _
  rw [Act.scopeGetOwn, Act.runIn_bind_some halive, if_pos rfl,
    Act.runIn_bind_some (Act.runIn_element hclad.get), hclad.idle, hclad.component, hclad.tag,
    Headless.owned]
  split
  · rfl
  · show (some (some (h.attributeValue name)), { w with held := (e :: w.held).erase e }) = _
    rw [List.erase_cons_head]

/-- A name that a scope owns with a defined value has been found. -/
theorem Act.runIn_lookup_found {enter : Enter σ} {w : World σ} {scope v : Value} {name : String}
    (hown : (getOwn scope name).runIn enter w = (some (some v), w)) (hv : v ≠ .undefined)
    (rest : Context) : (lookup name (scope :: rest)).runIn enter w = (some (some (scope, v)), w) := by
  rw [lookup, runIn_bind_some hown]
  cases v with
  | undefined => exact (hv rfl).elim
  | _ => rfl

/-- A name that a scope owns without a defined value is looked up in the others. -/
theorem Act.runIn_lookup_passed {enter : Enter σ} {w : World σ} {scope : Value} {name : String}
    (hown : (getOwn scope name).runIn enter w = (some (some .undefined), w)) (rest : Context) :
    (lookup name (scope :: rest)).runIn enter w = (lookup name rest).runIn enter w := by
  rw [lookup, runIn_bind_some hown]

/-! ### Two elements side by side -/

/-- Two elements of a node in linked worlds, which have the same attributes but for those that are
still to be set. -/
structure Link.Twins (ρ : Link) (D : Scene σ) (node : Node Resolver) (C : Context)
    (later : List String) (e e' : ElementId) (x x' : Element) (h h' : Headless) (w s : World σ) :
    Prop where
  /-- The worlds. -/
  worlds : ρ.Worlds D w s
  /-- The one element. -/
  left : w.Clad node C e x h
  /-- The other element. -/
  right : s.Clad node C e' x' h'
  /-- The one element is held. -/
  held : e ∈ w.held
  /-- The other element is held. -/
  held' : e' ∈ s.held
  /-- The attributes. -/
  same : ∀ name, name ∉ later → Option.Rel ρ.Values (h.attributes.get? name) (h'.attributes.get? name)

section

variable {ρ : Link} {D : Scene σ} {node : Node Resolver} {C : Context} {later : List String}
  {e e' : ElementId} {x x' : Element} {h h' : Headless} {enter : Enter σ} {w s : World σ}

theorem World.Clad.touched {w' : World σ} (hclad : w.Clad node C e x h)
    (hw : Touches (fun _ => False) w w') : w'.Clad node C e x h :=
  { hclad with get := hw.get? hclad.get id }

theorem optionRel_imp {R R' : α → β → Prop} {a : Option α} {b : Option β} (hab : Option.Rel R a b)
    (himp : ∀ a b, R a b → R' a b) : Option.Rel R' a b := by
  cases hab with
  | none => exact .none
  | some hR => exact .some (himp _ _ hR)

namespace Link.Twins

theorem goes {ρ' : Link} {w' s' : World σ}
    (htwins : ρ.Twins D node C later e e' x x' h h' w s)
    (hgoes : Link.steadyBond.Goes ρ ρ' w w' s s') :
    ρ'.Twins D node C later e e' x x' h h' w' s' where
  worlds := htwins.worlds.step hgoes.1
  left := htwins.left.touched hgoes.1.left
  right := htwins.right.touched hgoes.1.right
  held := hgoes.2.1 ▸ htwins.held
  held' := hgoes.2.2 ▸ htwins.held'
  same name hname := optionRel_imp (htwins.same name hname) fun _ _ hv => hv.mono hgoes.1.le

/-- The elements own linked values, and no functions but under bound names. -/
theorem owned (htwins : ρ.Twins D node C later e e' x x' h h' w s) {name : String}
    (hname : name ≠ "tag" → name ∉ later) :
    ρ.Values (h.owned node name) (h'.owned node name) ∧
      (name ∈ node.evaluated ∨ ∀ f, h.owned node name ≠ .function f) := by
  unfold Headless.owned
  split
  · exact ⟨.plain rfl, .inr nofun⟩
  · next htag =>
    have hsame := htwins.same name (hname htag)
    refine ⟨?_, ?_⟩
    · unfold Headless.attributeValue
      revert hsame
      generalize h.attributes.get? name = a
      generalize h'.attributes.get? name = b
      rintro (hv | _)
      · exact hv
      · exact .plain rfl
    · by_cases hbound : name ∈ node.bind.map (·.1)
      · exact .inl (List.mem_filter.mpr ⟨hbound, by simpa using htag⟩)
      · refine .inr fun f hf => ?_
        rw [Headless.attributeValue, htwins.left.told name hbound] at hf
        rcases node.get?_told name with hnone | ⟨text, hsome⟩
        · rw [hnone] at hf
          cases hf
        · rw [hsome] at hf
          cases hf

/-- A name that is asked for in both elements is found in both, or looked up around both. -/
theorem lookup (hinnocent : Innocent D enter) (hsteady : Steady enter) (hC : ∀ v ∈ C, D.Holds v)
    (htwins : ρ.Twins D node C later e e' x x' h h' w s) (m m' : Nat) {name : String}
    (hname : name ≠ "tag" → name ∉ later) :
    Link.steadyBond.Mimics enter (fun ρ => Option.Rel fun a b => ρ.Values a.2 b.2 ∧
        (name ∈ node.evaluated ∨ ρ.Values a.1 b.1 ∨ ∀ f, a.2 ≠ .function f)) ρ w s
      (Act.lookup name (.object (.scope m e) :: C)) (Act.lookup name (.object (.scope m' e') :: C)) := by
  obtain ⟨hvalues, hloose⟩ := htwins.owned hname
  have hown := htwins.left.getOwn htwins.held enter m name
  have hown' := htwins.right.getOwn htwins.held' enter m' name
  have hplain : ∀ v, h.owned node name = v → v ≠ .undefined → h'.owned node name ≠ .undefined := by
    rintro v rfl hv hv'
    generalize h.owned node name = v at hvalues hv
    rw [hv'] at hvalues
    cases hvalues
    exact hv rfl
  unfold Bond.Mimics
  by_cases hundefined : h.owned node name = .undefined
  · have hundefined' : h'.owned node name = .undefined := by
      rw [hundefined] at hvalues
      generalize h'.owned node name = v' at hvalues
      cases hvalues
      rfl
    rw [hundefined] at hown
    rw [hundefined'] at hown'
    rw [Act.runIn_lookup_passed hown, Act.runIn_lookup_passed hown']
    have hscopes : ∀ v ∈ C, v.IsData := fun v hv => (hC v hv).isData
    have htied : ρ.Tied D [name] C C w s :=
      ⟨htwins.worlds, .of_values fun v hv => htwins.worlds.held (hC v hv)⟩
    have hfound := (hinnocent.lookup htied (List.mem_singleton_self name)).steady
      (.lookup hsteady name hscopes) (.lookup hsteady name hscopes)
    exact Answers.imp hfound fun a b w' s' ⟨ρ', hgoes, hab⟩ =>
      ⟨ρ', hgoes, optionRel_imp hab fun _ _ hxy => ⟨hxy.2, .inr (.inl hxy.1)⟩⟩
  · rw [Act.runIn_lookup_found hown hundefined,
      Act.runIn_lookup_found hown' (hplain _ rfl hundefined)]
    exact .both ⟨ρ, ⟨.refl htwins.worlds.stores, rfl, rfl⟩, .some ⟨hvalues, hloose.imp_right .inr⟩⟩

/-- Expressions that look back are read in both elements in the same way. -/
theorem reads (hinnocent : Innocent D enter) (hsteady : Steady enter) (hC : ∀ v ∈ C, D.Holds v)
    (node : Node Resolver) (e e' : ElementId) (x x' : Element) (h h' : Headless) (m m' : Nat)
    {names : List String} (hnames : ∀ name ∈ names, name ≠ "tag" → name ∉ later) :
    Bond.Reads Link.steadyBond enter (fun ρ => ρ.Twins D node C later e e' x x' h h')
      (.object (.scope m e) :: C) (.object (.scope m' e') :: C) names node.evaluated D.Holds where
  meets htwins := htwins.worlds.stores
  goes hgoes htwins := htwins.goes hgoes
  known htwins hv := htwins.worlds.held hv
  lookup htwins hname := htwins.lookup hinnocent hsteady hC m m' (hnames _ hname)
  keyed htwins hv hkey := (hinnocent.keyed htwins.worlds hv hkey).steady
    (.getKeyed hsteady hv.isData _) (.getKeyed hsteady hv.isData' _)
  newArray htwins hitems := (Innocent.newArray htwins.worlds hitems).steady (fun _ => rfl) fun _ => rfl
  apply f _ _ _ _ htwins hv hargs := (hinnocent.apply htwins.worlds f hv hargs).steady
    (hsteady.apply _ _ _) (hsteady.apply _ _ _)
  text htwins hv := (Mimics.text htwins.worlds.stores hv).steady (.text _) (.text _)

end Link.Twins

/-! ### Setting the attributes -/

/-- A bound attribute is set. -/
theorem World.Clad.setAttribute (hclad : w.Clad node C e x h) (enter : Enter σ) {name : String}
    (hname : name ∈ node.bind.map (·.1)) {v : Value} {t : String}
    (ht : w.wants .trace = true → w.store.text v = some t) :
    ∃ w', (Build.component (Act.setAttribute e name v)).run.runIn enter w = (some (.ok ()), w') ∧
      Edits e w w' ∧ w'.Clad node C e { x with component := .headless (h.setAttribute name v) }
        (h.setAttribute name v) := by
  obtain ⟨w', hrun, hw, hx⟩ : Alters enter w e (Build.component (Act.setAttribute e name v)).run
      (.ok ()) _ := .component (.setAttribute hclad.get hclad.idle hclad.component name ht)
  refine ⟨w', hrun, hw.toEdits, hx, rfl, hclad.idle, hclad.tag, hclad.context, fun other hother => ?_⟩
  rw [← hclad.told other hother]
  exact Fields.get?_put_of_ne _ _ fun heq => hother (heq ▸ hname)

namespace Link.Twins

/-- The first of the attributes that are still to be set is set in both elements. -/
theorem setAttribute {name : String} (htwins : ρ.Twins D node C (name :: later) e e' x x' h h' w s)
    (hname : name ∈ node.bind.map (·.1)) {v v' : Value} (hv : ρ.Values v v') :
    Answers (Tally fun _ _ w' s' => Edits e w w' ∧ Edits e' s s' ∧
        ρ.Twins D node C later e e' { x with component := .headless (h.setAttribute name v) }
          { x' with component := .headless (h'.setAttribute name v') } (h.setAttribute name v)
          (h'.setAttribute name v') w' s')
      ((Build.component (Act.setAttribute e name v)).run.runIn enter w)
      ((Build.component (Act.setAttribute e' name v')).run.runIn enter s) := by
  have htext := htwins.worlds.stores.text_eq hv
  have hwants : s.wants .trace = w.wants .trace := by
    rw [World.wants, World.wants, htwins.worlds.level]
  by_cases hend : w.wants .trace = true ∧ w.store.text v = none
  · obtain ⟨hwanted, hnone⟩ := hend
    rw [Build.runIn_setAttribute_none htwins.left.get htwins.left.idle htwins.left.component name
        hwanted hnone,
      Build.runIn_setAttribute_none htwins.right.get htwins.right.idle htwins.right.component name
        (hwants.trans hwanted) (htext ▸ hnone)]
    exact .neither w s
  · obtain ⟨t, ht⟩ := World.exists_text hend
    obtain ⟨w', hrun, hw, hleft⟩ := htwins.left.setAttribute enter hname ht
    obtain ⟨s', hrun', hs, hright⟩ := htwins.right.setAttribute enter hname fun hwanted =>
      htext ▸ ht (hwants ▸ hwanted)
    rw [hrun, hrun']
    refine .both (.ok ⟨hw, hs, htwins.worlds.grow hw.touches hs.touches, hleft, hright,
      hw.held ▸ htwins.held, hs.held ▸ htwins.held', fun other hother => ?_⟩)
    by_cases heq : other = name
    · subst heq
      simp only [Headless.setAttribute, Fields.get?_put_self]
      exact .some hv
    · simp only [Headless.setAttribute, Fields.get?_put_of_ne _ _ (Ne.symm heq)]
      exact htwins.same other fun hmem => hother ((List.mem_cons.mp hmem).resolve_left heq)

/-- What there is after the last of the attributes have been set: both elements have the same
attributes, the last ones and those that the first element had before. -/
def Matched (D : Scene σ) (node : Node Resolver) (C : Context) (last : List String)
    (e e' : ElementId) (x x' : Element) (h : Headless) (w s : World σ) (_ _ : Unit)
    (w' s' : World σ) : Prop :=
  ∃ ρ' : Link, ∃ g g' : Headless, Touches (· = e) w w' ∧ Touches (· = e') s s' ∧
    ρ'.Twins D node C [] e e' { x with component := .headless g }
      { x' with component := .headless g' } g g' w' s' ∧
    ∀ name, name ∈ last ∨ (h.attributes.get? name).isSome → (g.attributes.get? name).isSome

/-- Attributes whose expressions look back are set in both elements in the same way. -/
theorem assign (hinnocent : Innocent D enter) (hsteady : Steady enter) (hC : ∀ v ∈ C, D.Holds v)
    (m m' : Nat) {entries : List (String × Resolver)} (hentries : entries ⊆ node.bind)
    (hback : Node.LooksBack entries)
    (hcalls : ∀ entry ∈ node.bind, ∀ name ∈ entry.2.callees, name ∉ node.evaluated)
    (hconstants : ∀ entry ∈ node.bind, ∀ v ∈ entry.2.constants, D.Holds v)
    (htwins : ρ.Twins D node C (entries.map (·.1)) e e' x x' h h' w s) :
    Answers (Tally (Matched D node C (entries.map (·.1)) e e' x x' h w s))
      ((Build.assign e (.object (.scope m e) :: C) entries).run.runIn enter w)
      ((Build.assign e' (.object (.scope m' e') :: C) entries).run.runIn enter s) := by
  induction entries generalizing ρ x x' h h' w s with
  | nil =>
    have hx : { x with component := .headless h } = x := by rw [← htwins.left.component]
    have hx' : { x' with component := .headless h' } = x' := by rw [← htwins.right.component]
    exact .both (.ok ⟨ρ, h, h', .refl w, .refl s, hx.symm ▸ hx'.symm ▸ htwins, fun name hname =>
      hname.resolve_left List.not_mem_nil⟩)
  | cons entry rest ih =>
    obtain ⟨name, resolver⟩ := entry
    obtain ⟨hentry, hrest⟩ := List.cons_subset.mp hentries
    unfold Build.assign
    have hreads := reads hinnocent hsteady hC node e e' x x' h h' m m' hback.1
    refine Answers.bindE (hreads.resolve htwins resolver (List.Subset.refl _) (hcalls _ hentry)
      (hconstants _ hentry)).eval.tally ?_
    rintro v v' w₁ s₁ ⟨ρ₁, hgoes, hv⟩
    have hname : name ∈ node.bind.map (·.1) := List.mem_map.mpr ⟨_, hentry, rfl⟩
    refine Answers.bindE ((htwins.goes hgoes).setAttribute hname hv) ?_
    rintro ⟨⟩ ⟨⟩ w₂ s₂ ⟨hw, hs, htwins₂⟩
    refine (ih hrest hback.2 htwins₂).imp fun x y w₃ s₃ hxy => hxy.imp ?_
    rintro ⟨⟩ ⟨⟩ ⟨ρ₃, g, g', hw₃, hs₃, htwins₃, hthere⟩
    refine ⟨ρ₃, g, g', (Touches.of_none hgoes.1.left).trans (hw.touches.trans hw₃),
      (Touches.of_none hgoes.1.right).trans (hs.touches.trans hs₃), htwins₃, fun other hother => ?_⟩
    by_cases heq : name = other
    · exact hthere other (.inr (by rw [← heq, Headless.setAttribute, Fields.get?_put_self]; rfl))
    · refine hthere other (hother.imp (fun hmem => ?_) fun hsome => ?_)
      · exact (List.mem_cons.mp hmem).resolve_left (Ne.symm heq)
      · rwa [Headless.setAttribute, Fields.get?_put_of_ne _ _ heq]

end Link.Twins

/-! ### Updates -/

/-- An element of a node that binds attributes and does nothing else, between two updates. -/
structure World.Rests (w : World σ) (node : Node Resolver) (C : Context) (e : ElementId) (x : Element)
    (h : Headless) : Prop extends w.Clad node C e x h where
  /-- It is updated as its node says. -/
  updater : x.updater = some (.view node .headless)
  /-- It has no slots. -/
  slots : x.slots = []
  /-- It has no children. -/
  children : x.children = []

/-- Without slots, refreshing an element is setting its attributes. -/
theorem Build.runIn_refresh_bare (enter : Enter σ) (hx : w.elements.get? e.row = some x)
    (hslots : x.slots = []) (node : Node Resolver) (factory : Factory) :
    ∃ w', Edits e w w' ∧ w'.elements.get? e.row = some x ∧
      (Build.refresh e node factory).run.runIn enter w =
        (Build.assign e (.object (.scope w.marks e) :: x.context) node.bind).run.runIn enter w' := by
  obtain ⟨w', hrun, hw, hx'⟩ : Alters enter w e (Act.contextOf e) _ x := .contextOf hx
  refine ⟨w', hw.toEdits, hx', ?_⟩
  unfold Build.refresh
  rw [Build.runIn_bindE_ok (Act.runIn_lift hrun),
    Build.runIn_bindE_ok (Act.runIn_lift (Act.runIn_element hx')), hslots]
  rfl

/-- Without children, an update ends once the updater is put back. -/
theorem Act.runIn_conclude_bare (enter : Enter σ) (hx : w.elements.get? e.row = some x)
    (hupdater : x.updater = none) (hchildren : x.children = []) (node : Node Resolver)
    (answer : Except ViewError Unit) :
    ∃ w', (Act.conclude e node answer).runIn enter w = (some answer, w') ∧ Touches (· = e) w w' ∧
      w'.elements.get? e.row = some { x with updater := some (.view node .headless) } := by
  obtain ⟨w₁, hput, hw₁, hx₁⟩ : Alters enter w e (Act.putBack e (.view node .headless)) () _ :=
    .putBack hx hupdater _
  obtain ⟨w₂, hrecord, hw₂, hx₂⟩ := Act.runIn_record_edits enter hx₁ (.updated e none answer.isOk)
  have hreleased : Touches (· = e) w { w₂ with held := w₂.held.erase e } :=
    (hw₁.toEdits.trans hw₂).touches.trans (.of_held w₂ _)
  refine ⟨_, ?_, hreleased, hx₂⟩
  unfold Act.conclude
  rw [Act.runIn_bind_some hput, Act.runIn_bind_some hrecord]
  cases answer with
  | error error => rfl
  | ok =>
    dsimp only
    rw [Act.runIn_bind_some (Act.runIn_element hx₂)]
    dsimp only
    rw [hchildren]
    rfl

/-- What there is after two elements have been updated: they have the same attributes, among them
all that are bound. -/
def Link.Evened (node : Node Resolver) (C : Context) (e e' : ElementId) (w s : World σ) (_ _ : Unit)
    (w' s' : World σ) : Prop :=
  ∃ ρ' : Link, ∃ (y y' : Element) (g g' : Headless), Touches (· = e) w w' ∧ Touches (· = e') s s' ∧
    w'.Rests node C e y g ∧ s'.Rests node C e' y' g' ∧ ρ'.Stores w'.store s'.store ∧
    (∀ name, Option.Rel ρ'.Values (g.attributes.get? name) (g'.attributes.get? name)) ∧
    ∀ name ∈ node.bind.map (·.1), (g.attributes.get? name).isSome

/-- Two elements of a node in linked worlds are updated in the same way. -/
theorem World.Rests.update (hinnocent : Innocent D enter) (hsteady : Steady enter)
    (hC : ∀ v ∈ C, D.Holds v) (hsettles : node.Settles)
    (hconstants : ∀ v ∈ node.constants, D.Holds v) (hworlds : ρ.Worlds D w s)
    (hleft : w.Rests node C e x h) (hright : s.Rests node C e' x' h') :
    Answers (Tally (Link.Evened node C e e' w s)) ((Act.update e).runIn enter w)
      ((Act.update e').runIn enter s) := by
  obtain ⟨w₁, hw₁, -, hx₁, hrun⟩ := Act.runIn_update enter hleft.get hleft.updater
  obtain ⟨s₁, hs₁, -, hx₁', hrun'⟩ := Act.runIn_update enter hright.get hright.updater
  obtain ⟨w₂, hw₂, hx₂, hrefresh⟩ :=
    Build.runIn_refresh_bare enter hx₁ hleft.slots node .headless
  obtain ⟨s₂, hs₂, hx₂', hrefresh'⟩ :=
    Build.runIn_refresh_bare enter hx₁' hright.slots node .headless
  have hw : Touches (· = e) w w₂ := (Touches.of_held w _).trans (hw₁.trans hw₂).touches
  have hs : Touches (· = e') s s₂ := (Touches.of_held s _).trans (hs₁.trans hs₂).touches
  have htwins : ρ.Twins D node C (node.bind.map (·.1)) e e' { x with updater := none }
      { x' with updater := none } h h' w₂ s₂ := by
    refine ⟨hworlds.grow hw hs, { hleft.toClad with get := hx₂ }, { hright.toClad with get := hx₂' },
      ?_, ?_, fun name hname => ?_⟩
    · rw [hw₂.held, hw₁.held]
      exact List.mem_cons_self
    · rw [hs₂.held, hs₁.held]
      exact List.mem_cons_self
    · rw [hleft.told name hname, hright.told name hname]
      rcases node.get?_told name with hnone | ⟨text, hsome⟩
      · rw [hnone]
        exact .none
      · rw [hsome]
        exact .some (.plain rfl)
  rw [hrun, hrun', Act.runIn_bind_congr hrefresh, Act.runIn_bind_congr hrefresh']
  dsimp only
  rw [hleft.context, hright.context]
  have hdirective : ∀ entry ∈ node.bind, ∀ v ∈ entry.2.constants, D.Holds v := fun entry hentry v hv =>
    hconstants v (List.mem_flatMap.mpr ⟨node, node.mem_family_self,
      List.mem_flatMap.mpr ⟨entry.2, Node.mem_directives_bind hentry, hv⟩⟩)
  refine Answers.bind (htwins.assign hinnocent hsteady hC w₁.marks s₁.marks (List.Subset.refl _)
    hsettles.looksBack hsettles.calls hdirective) ?_
  rintro answer answer' w₃ s₃ - htally
  cases htally with
  | error error error' => exact .both (.error error error')
  | ok hmatched =>
    obtain ⟨ρ₃, g, g', hw₃, hs₃, htwins₃, hthere⟩ := hmatched
    obtain ⟨w₄, hconclude, hw₄, hx₄⟩ := Act.runIn_conclude_bare enter htwins₃.left.get rfl
      hleft.children node (.ok ())
    obtain ⟨s₄, hconclude', hs₄, hx₄'⟩ := Act.runIn_conclude_bare enter htwins₃.right.get rfl
      hright.children node (.ok ())
    rw [hconclude, hconclude']
    have hrests : w₄.Rests node C e _ g :=
      ⟨{ htwins₃.left with get := hx₄ }, rfl, hleft.slots, hleft.children⟩
    have hrests' : s₄.Rests node C e' _ g' :=
      ⟨{ htwins₃.right with get := hx₄' }, rfl, hright.slots, hright.children⟩
    exact .both (.ok ⟨ρ₃, _, _, g, g', hw.trans (hw₃.trans hw₄), hs.trans (hs₃.trans hs₄), hrests,
      hrests', htwins₃.worlds.stores.grow hw₄.store hs₄.store,
      fun name => htwins₃.same name List.not_mem_nil, fun name hname => hthere name (.inl hname)⟩)

/-! ### Buildings -/

/-- Attributes that an element of a node may have are those that the tag tells, but for the bound
ones. -/
theorem Node.Dressed.get?_told {attributes : Fields Value} (hdressed : node.Dressed attributes)
    {name : String} (hname : name ∉ node.bind.map (·.1)) :
    attributes.get? name = node.told.get? name := by
  -- where all bound attributes are set to something, the others can be compared
  let entries : List (String × Value) := node.bind.map fun bind => (bind.1, .undefined)
  have hentries : entries.map (·.1) = node.bind.map (·.1) := by
    simp [entries, List.map_map, Function.comp_def]
  have hnot : name ∉ entries.map (·.1) := hentries ▸ hname
  rw [← Fields.get?_putAll_of_not_mem hnot, hdressed.round entries hentries,
    Fields.get?_putAll_of_not_mem hnot]

/-- A new element of a node that only binds attributes. -/
theorem Sprouts.rests (hsprouts : Sprouts w node C e) (hbinds : node.BindsOnly) :
    ∃ x h, w.Rests node C e x h := by
  obtain ⟨x, hx, hcontext, ⟨htag, hidle, -, hbare, h, hc, -, hdressed⟩, hupdater, hslots⟩ := hsprouts
  refine ⟨x, h, ⟨hx, hc, hidle, htag, hcontext, fun name => hdressed.get?_told⟩, hupdater, ?_,
    hbare hbinds.children⟩
  rw [hslots, hbinds.children]
  rfl

section

variable {host : Host σ} {depth : Nat} {view : View Resolver} {root : ElementId} {w₁ w₂ w₃ : World σ}

/-- A building that succeeds has updated its root. -/
theorem Host.update_of_build
    (hmade : (Build.instantiateAll C .headless view.roots).run.runIn (host.enter (depth + 1)) w =
      (some (.ok [root]), w₁))
    (hbuild : (Build.build view C .headless).run.runIn (host.enter (depth + 1)) w =
      (some (.ok e), w₃)) :
    e = root ∧ ∃ w₂, (Act.update root).runIn (host.enter depth) w₁ = (some (.ok ()), w₂) ∧
      Touches (fun _ => False) w₂ w₃ := by
  unfold Build.build at hbuild
  rw [Build.runIn_bindE_ok hmade] at hbuild
  dsimp only at hbuild
  obtain ⟨⟨⟩, w₂, hreleasing, hbuild⟩ := Build.runIn_bindE_eq_ok hbuild
  obtain ⟨y, v, hy, hbuild⟩ := Build.runIn_bindE_eq_ok hbuild
  obtain ⟨⟨⟩, u, hmessage, hbuild⟩ := Build.runIn_bindE_eq_ok hbuild
  cases hx : w₂.elements.get? root.row with
  | none =>
    have hnone : (Act.element root).runIn (host.enter (depth + 1)) w₂ = (none, w₂) := by
      show (Act.ofOption (w₂.elements.get? root.row)).runIn _ w₂ = _
      rw [hx]
      rfl
    cases hnone.symm.trans (Build.runIn_lift_eq_ok hy)
  | some x =>
    cases (Act.runIn_element hx).symm.trans (Build.runIn_lift_eq_ok hy)
    obtain ⟨u', hmessage', hu⟩ := Act.runIn_message_some (host.enter (depth + 1)) .debug fun _ =>
      Act.runIn_pure ("built view rooted at `" ++ y.tag.text ++ "` (" ++ root.text ++ ")")
        (host.enter (depth + 1)) w₂
    obtain ⟨-, rfl⟩ := Prod.mk.inj (hmessage'.symm.trans (Build.runIn_lift_eq_ok hmessage))
    obtain ⟨hroot, rfl⟩ := Prod.mk.inj hbuild
    cases hroot
    have hentered := Build.runIn_releasing_eq_ok hreleasing
    exact ⟨rfl, w₂, hentered, hu _⟩

end

/-! ### Rounds -/

/-- The attribute of an element has a text, or a value whose text would not end. -/
def World.Tells (w : World σ) (e : ElementId) (name : String) (text : Option String) : Prop :=
  ∃ x h v, w.elements.get? e.row = some x ∧ x.component = .headless h ∧
    h.attributes.get? name = some v ∧ w.store.text v = text

/-- A view is built, and then, any number of times, the data change and the element is updated with
success. The last building or update is done in calls at most `depth` deep. -/
inductive Rounds (host : Host σ) (view : View Resolver) (node : Node Resolver) (C : Context) :
    (depth : Nat) → ElementId → World σ → Prop where
  /-- The view is built; the update of its root is a call that is entered. -/
  | build {D : Scene σ} {depth : Nat} {e : ElementId} {w w' : World σ} : D.Covers host node C w →
    (Build.build view C .headless).run.runIn (host.enter (depth + 1)) w = (some (.ok e), w') →
    Rounds host view node C depth e w'
  /-- The data change, and the element is updated. -/
  | round {D : Scene σ} {depth depth' : Nat} {e : ElementId} {w w' w'' : World σ} :
    Rounds host view node C depth e w → w'.elements.get? e.row = w.elements.get? e.row →
    D.Covers host node C w' →
    (Act.update e).runIn (host.enter depth') w' = (some (.ok ()), w'') →
    Rounds host view node C depth' e w''

section

variable {host : Host σ} {view : View Resolver} {depth : Nat} {w₁ w₂ : World σ}

theorem Scene.Covers.worlds (hcovers : D.Covers host node C w) {S T : ElementId → Prop}
    {u v : World σ} (hu : Touches S w u) (hv : Touches T w v) : D.link.Worlds D u v :=
  (Link.Worlds.mk (Link.le_refl _) hcovers.closed rfl hcovers.memory hcovers.memory).grow hu hv

/-- An element is at rest again after an update, and nothing else has been touched. -/
theorem World.Rests.updated (hsteady : ∀ depth, Steady (host.enter depth)) (hsettles : node.Settles)
    (hcovers : D.Covers host node C w) {S : ElementId → Prop} (hw : Touches S w w₁)
    (hrests : w₁.Rests node C e x h)
    (hupdate : (Act.update e).runIn (host.enter depth) w₁ = (some (.ok ()), w₂)) :
    Touches (· = e) w₁ w₂ ∧ ∃ y g, w₂.Rests node C e y g := by
  -- the update is compared with itself
  have hupdates := hrests.update (hcovers.innocent depth) (hsteady depth) hcovers.scopes hsettles
    hcovers.constants (hcovers.worlds hw hw) hrests
  rw [hupdate] at hupdates
  cases hupdates with
  | both htally =>
    cases htally with
    | ok hevened =>
      obtain ⟨-, y, -, g, -, htouches, -, hrests, -⟩ := hevened
      exact ⟨htouches, y, g, hrests⟩

/-- After an update that succeeds a building succeeds as well, with the same texts. -/
theorem World.Rests.rebuilt (hview : view.Single node) (hbinds : node.BindsOnly)
    (hsteady : ∀ depth, Steady (host.enter depth)) (hsettles : node.Settles)
    (hcovers : D.Covers host node C w) {S : ElementId → Prop} (hw : Touches S w w₁)
    (hrests : w₁.Rests node C e x h)
    (hupdate : (Act.update e).runIn (host.enter depth) w₁ = (some (.ok ()), w₂)) {w₃ : World σ}
    (hw₃ : Touches (fun _ => False) w₂ w₃) :
    ∃ e' w', (Build.build view C .headless).run.runIn (host.enter (depth + 1)) w₃ =
        (some (.ok e'), w') ∧
      ∀ name ∈ node.bind.map (·.1), ∃ text, w₃.Tells e name text ∧ w'.Tells e' name text := by
  obtain ⟨hw₂, -⟩ := hrests.updated hsteady hsettles hcovers hw hupdate
  obtain ⟨s₁, hmade, hs₁, hsprouts⟩ :=
    Build.instantiateAll_sprouts (host.enter (depth + 1)) w₃ hview hbinds.once C
  obtain ⟨x', h', hrests'⟩ := hsprouts.rests hbinds
  have hs : Touches (fun _ => True) w s₁ := (hw.mono fun _ _ _ => trivial).trans <|
    (hw₂.mono fun _ _ _ => trivial).trans ((Touches.of_none hw₃).trans (.of_none hs₁))
  have hupdates := hrests.update (hcovers.innocent depth) (hsteady depth) hcovers.scopes hsettles
    hcovers.constants (hcovers.worlds hw hs) hrests'
  rw [hupdate] at hupdates
  generalize hright : (Act.update ⟨w₃.elements.size⟩).runIn (host.enter depth) s₁ = right at hupdates
  cases hupdates with
  | both htally =>
    cases htally with
    | ok hevened =>
      obtain ⟨ρ', y, y', g, g', -, -, hleft, hright', hstores, hsame, hthere⟩ := hevened
      obtain ⟨w', hbuild, helements, hedits⟩ := Host.build_of_update hmade hright hright'.get
      have hw' := (hedits e).untouched helements (S := fun _ => False)
      refine ⟨_, w', hbuild, fun name hname => ?_⟩
      have hvalues := hsame name
      obtain ⟨v, hv⟩ := Option.isSome_iff_exists.mp (hthere name hname)
      rw [hv] at hvalues
      generalize hv' : g'.attributes.get? name = found at hvalues
      cases hvalues with
      | @some _ v' hvalues =>
        exact ⟨w₃.store.text v, ⟨y, g, v, hw₃.get? hleft.get id, hleft.component, hv, rfl⟩,
          y', g', v', hw'.get? hright'.get id, hright'.component, hv',
          ((hstores.grow hw₃.store hw'.store).text_eq hvalues).symm⟩

/-- Between two rounds the element is at rest. -/
theorem Rounds.rests (hview : view.Single node) (hbinds : node.BindsOnly)
    (hsteady : ∀ depth, Steady (host.enter depth)) (hsettles : node.Settles)
    (hrounds : Rounds host view node C depth e w) : ∃ x h, w.Rests node C e x h := by
  induction hrounds with
  | @build D depth e w w' hcovers hbuild =>
    obtain ⟨w₁, hmade, hw₁, hsprouts⟩ :=
      Build.instantiateAll_sprouts (host.enter (depth + 1)) w hview hbinds.once C
    obtain ⟨x, h, hrests⟩ := hsprouts.rests hbinds
    obtain ⟨rfl, w₂, hupdate, hw'⟩ := Host.update_of_build hmade hbuild
    obtain ⟨-, y, g, hrests₂⟩ := hrests.updated hsteady hsettles hcovers hw₁ hupdate
    exact ⟨y, g, { hrests₂ with get := hw'.get? hrests₂.get id }⟩
  | @round D depth depth' e w w' w'' _ hsame hcovers hupdate ih =>
    obtain ⟨x, h, hrests⟩ := ih
    have hrests' : w'.Rests node C e x h := { hrests with get := hsame.trans hrests.get }
    exact (hrests'.updated hsteady hsettles hcovers (.refl (S := fun _ => False) w') hupdate).2

/-- **Bound attributes are up to date.** After a building, and after each update that succeeds, a
building of the same view succeeds, and every bound attribute has the same text in both elements. -/
theorem Rounds.bind_refreshed (hview : view.Single node) (hbinds : node.BindsOnly)
    (hsettles : node.Settles) (hsteady : ∀ depth, Steady (host.enter depth))
    (hrounds : Rounds host view node C depth e w) :
    ∃ e' w', (Build.build view C .headless).run.runIn (host.enter (depth + 1)) w =
        (some (.ok e'), w') ∧
      ∀ name ∈ node.bind.map (·.1), ∃ text, w.Tells e name text ∧ w'.Tells e' name text := by
  cases hrounds with
  | @build D depth e w w' hcovers hbuild =>
    obtain ⟨w₁, hmade, hw₁, hsprouts⟩ :=
      Build.instantiateAll_sprouts (host.enter (depth + 1)) w hview hbinds.once C
    obtain ⟨x, h, hrests⟩ := hsprouts.rests hbinds
    obtain ⟨rfl, w₂, hupdate, hw'⟩ := Host.update_of_build hmade hbuild
    exact hrests.rebuilt hview hbinds hsteady hsettles hcovers hw₁ hupdate hw'
  | @round D depth depth' e w w' w'' hrounds hsame hcovers hupdate =>
    obtain ⟨x, h, hrests⟩ := hrounds.rests hview hbinds hsteady hsettles
    have hrests' : w'.Rests node C e x h := { hrests with get := hsame.trans hrests.get }
    exact hrests'.rebuilt hview hbinds hsteady hsettles hcovers (.refl (S := fun _ => False) w')
      hupdate (.refl _)

end

end

/-! ### An echo -/

/-- A paragraph whose first attribute tells the text, and whose second tells the first. -/
def echoing : Node Resolver :=
  ⟨⟨"p", none, [], none⟩, "p", [], [("a", .text [.chain ⟨[.lookup "text"], "text"⟩]),
    ("b", .text [.chain ⟨[.lookup "a"], "a"⟩])], [], none, none, []⟩

/-- The paragraph has been built while the text was `ab`. -/
def echo : World String :=
  ((Build.build ⟨[echoing]⟩ story .headless).run.runIn (storyteller.enter 2) (.empty .off "ab")).2

/-- The text is `abc` by now. -/
def echoLater : World String := { echo with host := "abc" }

/-- The paragraph has been updated. -/
def reechoed : World String := ((Act.update ⟨0⟩).runIn (storyteller.enter 1) echoLater).2

theorem storyteller_steady (depth : Nat) : Steady (storyteller.enter depth) where
  apply _ _ _ w := by
    cases depth with
    | zero => rfl
    | succ depth => rfl
  getOwn _ _ w := by
    cases depth with
    | zero => rfl
    | succ depth => rfl

/-- After the update the paragraph has the attributes that it would have if it were built anew. -/
theorem Rounds.bind_refreshed_echo :
    ∃ e' w', (Build.build ⟨[echoing]⟩ story .headless).run.runIn (storyteller.enter 2) reechoed =
        (some (.ok e'), w') ∧
      ∀ name ∈ ["a", "b"], ∃ text, reechoed.Tells ⟨0⟩ name text ∧ w'.Tells e' name text := by
  have hcovers : ∀ w : World String,
      Scene.Covers ⟨⟨fun _ => False, fun _ => False⟩, w.host⟩ storyteller echoing story w := by
    intro w
    refine ⟨storyteller_innocent _, rfl, ⟨fun h => h.2.elim, fun h => h.2.elim⟩, ?_, ?_⟩
    · exact List.forall_mem_singleton.mpr (.plain rfl)
    · intro v hv
      cases hv
  have hbuild : (Build.build ⟨[echoing]⟩ story .headless).run.runIn (storyteller.enter 2)
      (.empty .off "ab") = (some (.ok ⟨0⟩), echo) :=
    eq_ok_of_toOption (by decide +kernel)
  have hupdate : (Act.update ⟨0⟩).runIn (storyteller.enter 1) echoLater = (some (.ok ()), reechoed) :=
    eq_ok_of_toOption (by decide +kernel)
  have hview : View.Single ⟨[echoing]⟩ echoing := ⟨rfl, rfl, rfl⟩
  have hsame : echoLater.elements.get? 0 = echo.elements.get? 0 := rfl
  have hrounds : Rounds storyteller ⟨[echoing]⟩ echoing story 1 ⟨0⟩ reechoed :=
    .round (.build (hcovers _) hbuild) hsame (hcovers echoLater) hupdate
  exact Rounds.bind_refreshed hview ⟨rfl, rfl, rfl, rfl, rfl⟩
    ⟨by decide +kernel, by decide +kernel⟩ storyteller_steady hrounds

/-! ### What an element had before -/

/-- A paragraph is built; then the data change, for which the scope of the paragraph is at hand, and
it is updated; and it is built anew. The answer is the outline of either. -/
def restate (node : Node Resolver) (before : Fields Value) (after : Value → Fields Value) :
    Script Unit (Option (String × String)) := do
  let data ← Script.newRecord before
  match data, ← Script.build ⟨[node]⟩ [data] .headless with
  | .object (.record r), .ok root =>
    let scopes ← Script.contextOf root
    Script.setFields r (after (scopes.headD .undefined))
    match ← Script.update root, ← Script.build ⟨[node]⟩ [data] .headless with
    | .ok (), .ok fresh => return some (← Script.outline root, ← Script.outline fresh)
    | _, _ => return none
  | _, _ => return none

/-- An attribute that is called what it tells. -/
def counting : Node Resolver :=
  ⟨⟨"p", none, [], none⟩, "p", [], [("count", .text [.chain ⟨[.lookup "count"], "count"⟩])], [], none,
    none, []⟩

/-- The second attribute is what the first one, a function, answers, and the third one tells `x`. -/
def calling : Node Resolver :=
  ⟨⟨"p", none, [], none⟩, "p", [], [("a", .text [.chain ⟨[.lookup "f"], "f"⟩]),
    ("b", .text [.chain ⟨[.lookup "a", .call []], "a()"⟩]),
    ("c", .text [.chain ⟨[.lookup "x"], "x"⟩])], [], none, none, []⟩

/-- Every function answers the property `c` of its receiver. -/
def reader : Host Unit where
  answer
    | .apply _ receiver _ => return .ok (← Script.getNamed receiver "c")
    | _ => .hang

/-- An attribute that asks for itself stays as it is; and so an attribute lags behind that finds the
element among the data, or calls another one that reads a later one. -/
theorem Rounds.bind_not_refreshed :
    (View.Single ⟨[counting]⟩ counting ∧ counting.BindsOnly ∧
      (reader.run 2 (restate counting [("count", .str "1")] fun _ => [("count", .str "2")])
        (.empty .off ())).1 = some (some ("p [count=1]\n", "p [count=2]\n"))) ∧
    (View.Single ⟨[lagging]⟩ lagging ∧ lagging.BindsOnly ∧ lagging.Settles ∧
      (reader.run 2 (restate lagging [("x", .str "1")] fun p => [("x", .str "2"), ("s", p)])
        (.empty .off ())).1 = some (some ("p [a=1, b=2]\n", "p [a=2, b=2]\n"))) ∧
    (View.Single ⟨[calling]⟩ calling ∧ calling.BindsOnly ∧ Node.LooksBack calling.bind ∧
      (reader.run 3 (restate calling [("x", .str "1"), ("f", .function ⟨"f", 0⟩)]
          fun _ => [("x", .str "2"), ("f", .function ⟨"f", 0⟩)]) (.empty .off ())).1 =
        some (some ("p [a=function f, b=1, c=2]\n", "p [a=function f, b=undefined, c=2]\n"))) :=
  ⟨⟨⟨rfl, rfl, rfl⟩, ⟨rfl, rfl, rfl, rfl, rfl⟩, by decide +kernel⟩,
    ⟨⟨rfl, rfl, rfl⟩, ⟨rfl, rfl, rfl, rfl, rfl⟩, ⟨by decide +kernel, by decide +kernel⟩,
      by decide +kernel⟩,
    ⟨rfl, rfl, rfl⟩, ⟨rfl, rfl, rfl, rfl, rfl⟩, by decide +kernel, by decide +kernel⟩

end ReactiveViews
