import ReactiveViews.Proofs.Live.Recurrence
import ReactiveViews.Proofs.Live.UpToDate

/-!
# Trees that are settled

A tree lives from the time when its view is built: the data change, and its elements are updated, with
success or not (`Lives`). At every moment of its life it is standing (`Lives.standing`), whatever the
functions of the host program are like, as long as they do nothing but look.

An update of the root that succeeds settles the tree: the next one succeeds as well, and the tree looks
the same after it (`Lives.update_settles`). This takes views whose directives are put together so that
none asks for an attribute before it has been set (`Node.Composed`), and data without elements
(`Scene.Surveys`). Whoever goes without one of these may find a tree that is never settled, or only
later (`Lives.restless`).
-/

namespace ReactiveViews

variable {σ : Type}

/-! ### The life of a tree -/

/-- A tree and the worlds it lives in: a view is built, and then, in any order, whatever there is besides
the elements of the tree changes, and some element of the tree is updated, with success or not. -/
inductive Lives (host : Host σ) (view : View Resolver) : ElementId → World σ → Prop where
  /-- The view is built in some scopes; the update of its root is a call that is entered. -/
  | build {depth : Nat} {C : Context} {e : ElementId} {w w' : World σ} :
    (Build.build view C .headless).run.runIn (host.enter (depth + 1)) w = (some (.ok e), w') →
    Lives host view e w'
  /-- The data change. -/
  | change {e : ElementId} {w w' : World σ} : Lives host view e w →
    (∀ y x, w.Encloses e y → w.elements.get? y.row = some x → w'.elements.get? y.row = some x) →
    Lives host view e w'
  /-- An element of the tree is updated. -/
  | update {depth : Nat} {e c : ElementId} {w w' : World σ} {answer : Except ViewError Unit} :
    Lives host view e w → w.Encloses e c →
    (Act.update c).runIn (host.enter depth) w = (some answer, w') → Lives host view e w'

section

variable {host : Host σ} {view : View Resolver} {D : Scene σ} {w w' : World σ} {node : Node Resolver}
  {e c : ElementId}

/-- A tree is standing for as long as it lives. -/
theorem Lives.standing (hharmless : ∀ depth, Harmless (host.enter depth)) (h : Lives host view e w) :
    ∃ node ∈ view.roots, Standing w node e := by
  induction h with
  | @build depth C e w w' hrun =>
    obtain ⟨node, hnode, hstanding, -⟩ := host.build_stands hharmless depth hrun
    exact ⟨node, hnode, hstanding⟩
  | change _ hchange ih =>
    obtain ⟨node, hnode, hstanding⟩ := ih
    exact ⟨node, hnode, hstanding.unchanged hchange⟩
  | @update depth e c w w' answer _ hc hrun ih =>
    obtain ⟨node, hnode, hstanding⟩ := ih
    obtain ⟨child, hchild⟩ := hstanding.encloses hc
    obtain ⟨hw, -⟩ := host.update_stands hharmless depth hchild hrun
    exact ⟨node, hnode, hstanding.regrow hc hw.touches.retains fun child hchild =>
      (host.update_stands hharmless depth hchild hrun).2⟩

/-- The host program may remember something else. -/
theorem Lives.remember (h : Lives host view e w) (memory : σ) : Lives host view e { w with host := memory } :=
  .change h fun _ _ _ hx => hx

/-- There may be other schedulers. -/
theorem Lives.schedule (h : Lives host view e w) (schedulers : Table Scheduler) :
    Lives host view e { w with schedulers } :=
  .change h fun _ _ _ hx => hx

/-! ### What a tree keeps -/

/-- What an update of a tree finds, and does not evaluate anew, is in a scene: what there is besides
elements, and those who look at it. -/
structure Scene.Surveys (D : Scene σ) (host : Host σ) (w : World σ) (e : ElementId) : Prop where
  /-- Functions only look. -/
  innocent : ∀ depth, Innocent D (host.enter depth)
  /-- What the host program remembers. -/
  memory : w.host = D.memory
  /-- Nothing in the scene leads out of it. -/
  closed : D.Closed w.store
  /-- The scopes around the tree. -/
  scopes : ∀ x, w.elements.get? e.row = some x → ∀ v ∈ x.context, D.Holds v
  /-- The attributes that are not bound. -/
  attributes : ∀ y x h node factory, w.Encloses e y → w.elements.get? y.row = some x →
    x.component = .headless h → x.updater = some (.view node factory) →
    ∀ name v, name ∉ node.bind.map (·.1) → h.attributes.get? name = some v → D.Holds v
  /-- The lists that slots remember, and the records for their items. -/
  lists : ∀ y x slot last, w.Encloses e y → w.elements.get? y.row = some x → slot ∈ x.slots →
    slot.memory = .repeated (some last) → D.Holds last.list ∧ ∀ r ∈ last.frames, D.records r

/-- What a slot remembers of a list stands for itself if the list and the records for its items do. -/
theorem Lodges.retains {D : Region} {C : Context} {last : Repetition}
    (h : Lodges w e C node (.repeated (some last))) (hlist : D.Holds last.list)
    (hframes : ∀ r ∈ last.frames, D.records r) : D.link.Retains e C last := by
  cases h with
  | list _ hcontexts _ =>
    refine ⟨hlist, fun context hmem => ?_⟩
    obtain ⟨r, m, rfl⟩ := hcontexts context hmem
    have hr := hframes r (List.mem_filterMap.mpr ⟨_, hmem, rfl⟩)
    exact ⟨m, m, [_], [_], rfl, rfl, .cons (.record ⟨rfl, hr⟩) .nil⟩

theorem Scene.Surveys.kept (hsurveys : D.Surveys host w e) (hstanding : Standing w node c)
    (hc : ∀ y, w.Encloses c y → w.Encloses e y) : Kept D.link w node c := by
  induction hstanding with
  | @intro node c x hx htrunk hupdater hchildren hnodup hlodges _ ih =>
    obtain ⟨h, hcomponent, -⟩ := htrunk.component
    have hinner : ∀ slot ∈ x.slots, ∀ a ∈ slot.elements, ∀ y, w.Encloses a y → w.Encloses e y :=
      fun slot hslot a ha y hy => hc y (.inner hx hslot ha hy)
    refine .intro hx hcomponent
      (hsurveys.attributes c x h node .headless (hc c (.refl c)) hx hcomponent hupdater)
      (fun slot hslot last hlast => ?_) fun slot hslot a ha => ih slot hslot a ha (hinner slot hslot a ha)
    obtain ⟨hlist, hframes⟩ := hsurveys.lists c x slot last (hc c (.refl c)) hx hslot hlast
    have hlodged := hlodges slot hslot
    rw [hlast] at hlodged
    exact hlodged.retains hlist hframes

/-! ### Settled trees -/

theorem Link.Kindred.of_values {ρ : Link} {w s : World σ} {asked : String → Prop} {loose : List String}
    {C : Context} (h : ∀ v ∈ C, ρ.Values v v) : ρ.Kindred w s asked loose C C := by
  induction C with
  | nil => exact .nil
  | cons v C ih =>
    obtain ⟨hv, hC⟩ := List.forall_mem_cons.mp h
    exact .value hv (ih hC)

/-- **One update settles a tree.** After an update that succeeds another one does, and nothing looks
different after it. -/
theorem Lives.update_settles (hharmless : ∀ depth, Harmless (host.enter depth))
    (hlives : Lives host view e w) (hsurveys : D.Surveys host w e)
    (hcomposed : ∀ node ∈ view.roots, node.Composed D [] []) {depth : Nat}
    (hupdate : (Act.update e).runIn (host.enter depth) w = (some (.ok ()), w')) :
    ∃ picture w'', (Act.update e).runIn (host.enter depth) w' = (some (.ok ()), w'') ∧
      Shows w' e picture ∧ Shows w'' e picture ∧ ∀ enter enter' : Enter σ,
        ((Act.outline e).runIn enter w').1 = ((Act.outline e).runIn enter' w'').1 := by
  obtain ⟨node, hnode, hstanding⟩ := hlives.standing hharmless
  obtain ⟨x, hx⟩ := hstanding.get
  obtain ⟨hw, -⟩ := host.update_stands hharmless depth hstanding hupdate
  have hself : D.link.Worlds D w w :=
    ⟨Link.le_refl _, hsurveys.closed, rfl, hsurveys.memory, hsurveys.memory⟩
  have hscopes : ∀ v ∈ x.context, D.link.Values v v := hsurveys.scopes x hx
  have hdiag : D.link ≤ D.link.diag.link := Link.le_diag (Link.le_refl _)
  have hstart : D.link.Start (.again w) depth D [] [] w w' w' node x.context x.context e e := by
    refine .again trivial rfl hx rfl hstanding ⟨?_, .of_values fun v hv => (hscopes v hv).diag⟩
      (hsurveys.kept hstanding fun _ => id) fun y z _ hz => hz
    exact ⟨hdiag, hsurveys.closed.closed_diag (.refl _), rfl, hsurveys.memory, hsurveys.memory⟩
  obtain ⟨w'', hagain, ρ, picture, -, -, -, hshows, hshows'⟩ := host.update_recurs hsurveys.innocent hharmless
    (Link.settles_nil host D rfl) depth ((hcomposed node hnode).fitted w)
    ⟨hself.grow (.refl (S := fun _ => False) w) hw.touches, .of_values hscopes⟩
    (.link D.toRegion w'.store) (.refl w'.store) hstart hupdate fun _ => .refl w'.store
  exact ⟨picture, w'', hagain, hshows, hshows', fun enter enter' =>
    (hshows.outline_eq enter).trans (hshows'.outline_eq enter').symm⟩

end

/-! ### Trees that keep nothing but plain values -/

/-- The records of a world, and what the host program remembers in it. -/
def World.records (w : World σ) : Scene σ :=
  ⟨⟨fun _ => False, fun r => r.row < w.store.records.size⟩, w.host⟩

/-- Whether an element keeps nothing but plain values, and records that there are. -/
def Element.keepsPlain (records : Nat) (x : Element) : Bool :=
  (match x.component with
    | .headless h => h.attributes.all (·.2.isPlain)
    | .foreign _ => false) &&
  x.slots.all fun slot => match slot.memory with
    | .repeated (some last) => last.list.isPlain && last.frames.all (·.row < records)
    | _ => true

/-- Whether the records and the elements of a world and the scopes around an element hold nothing but
plain values. -/
def World.keepsPlain (w : World σ) (e : ElementId) : Bool :=
  w.store.records.rows.all (·.all (·.2.isPlain)) &&
  w.elements.rows.all (Element.keepsPlain w.store.records.size) &&
  (w.elements.get? e.row).all (·.context.all Value.isPlain)

theorem Fields.mem_of_get? {α : Type} {fields : Fields α} {name : String} {value : α}
    (h : fields.get? name = some value) : (name, value) ∈ fields := by
  induction fields with
  | nil => cases h
  | cons entry rest ih =>
    rw [Fields.get?] at h
    split at h
    · next hname =>
      obtain rfl := Option.some.inj h
      exact hname ▸ .head _
    · exact .tail _ (ih h)

theorem Table.get?_of_all {α : Type} {t : Table α} {p : α → Bool} (h : t.rows.all p) {row : Nat} {a : α}
    (ha : t.get? row = some a) : p a := by
  obtain ⟨hrow, rfl⟩ := Array.getElem?_eq_some_iff.mp ha
  exact Array.all_eq_true.mp h row hrow

theorem World.records_closed {w : World σ} (h : w.store.records.rows.all (·.all (·.2.isPlain))) :
    w.records.Closed w.store where
  arrays h := h.2.elim
  records := by
    rintro r _ ⟨rfl, hr⟩
    have hget : w.store.records.get? r.row = some w.store.records.rows[r.row] :=
      Array.getElem?_eq_getElem hr
    refine ⟨hr, hr, List.forall₂_same.mpr fun entry hentry => ⟨rfl, .plain ?_⟩⟩
    rw [Store.fields, hget, Option.getD_some] at hentry
    exact List.all_eq_true.mp (Table.get?_of_all h hget) entry hentry

theorem Element.plain_of_get? {n : Nat} {x : Element} {h : Headless} (hplain : x.keepsPlain n)
    (hcomponent : x.component = .headless h) {name : String} {v : Value}
    (hv : h.attributes.get? name = some v) : v.isPlain := by
  simp only [Element.keepsPlain, hcomponent, Bool.and_eq_true] at hplain
  exact List.all_eq_true.mp hplain.1 (name, v) (Fields.mem_of_get? hv)

theorem Element.plain_of_memory {n : Nat} {x : Element} (hplain : x.keepsPlain n) {slot : Slot}
    (hslot : slot ∈ x.slots) {last : Repetition} (hlast : slot.memory = .repeated (some last)) :
    last.list.isPlain ∧ ∀ r ∈ last.frames, r.row < n := by
  simp only [Element.keepsPlain, Bool.and_eq_true] at hplain
  have hkept := List.all_eq_true.mp hplain.2 slot hslot
  simp only [hlast, Bool.and_eq_true] at hkept
  exact ⟨hkept.1, fun r hr => of_decide_eq_true (List.all_eq_true.mp hkept.2 r hr)⟩

theorem World.plain_of_scope {w : World σ} {e : ElementId} {x : Element}
    (hscopes : (w.elements.get? e.row).all (·.context.all Value.isPlain)) (hx : w.elements.get? e.row = some x)
    {v : Value} (hv : v ∈ x.context) : v.isPlain := by
  rw [hx] at hscopes
  exact List.all_eq_true.mp hscopes v hv

theorem Scene.Surveys.of_keepsPlain {host : Host σ} {w : World σ} {e : ElementId}
    (hinnocent : ∀ depth, Innocent w.records (host.enter depth)) (h : w.keepsPlain e) :
    w.records.Surveys host w e := by
  simp only [World.keepsPlain, Bool.and_eq_true] at h
  obtain ⟨⟨hrecords, helements⟩, hscopes⟩ := h
  refine ⟨hinnocent, rfl, World.records_closed hrecords, ?_, ?_, ?_⟩
  · exact fun x hx v hv => .plain (World.plain_of_scope hscopes hx hv)
  · intro y x h node factory _ hx hcomponent _ name v _ hv
    exact .plain (Element.plain_of_get? (Table.get?_of_all helements hx) hcomponent hv)
  · intro y x slot last _ hx hslot hlast
    obtain ⟨hlist, hframes⟩ := Element.plain_of_memory (Table.get?_of_all helements hx) hslot hlast
    exact ⟨.plain hlist, hframes⟩

theorem storyteller_harmless (depth : Nat) : Harmless (storyteller.enter depth) where
  apply _ _ _ w _ w' hrun := by
    cases depth <;> cases hrun
  getOwn object key w answer w' hrun := by
    cases depth with
    | zero => cases hrun
    | succ depth =>
      cases hrun
      exact .refl w
  getAttribute _ _ w _ w' hrun := by
    cases depth <;> cases hrun

theorem spelling_composed (D : Scene String) : spelling.Composed D [] [] := by
  have hentry : ∀ (asked : String → Prop) (loose : List String) (name : String) , asked name →
      Resolver.Apt D asked loose (.text [.chain ⟨[.lookup name], name⟩]) := by
    intro asked loose name hasked
    refine ⟨List.forall_mem_singleton.mpr hasked, fun _ => List.not_mem_nil.elim,
      fun _ => List.not_mem_nil.elim⟩
  refine .intro trivial (fun _ => List.not_mem_nil.elim) (List.forall_mem_singleton.mpr ⟨?_, ?_, ?_⟩)
    (List.forall_mem_singleton.mpr (.intro ?_ (List.forall_mem_singleton.mpr ?_) ?_ ?_))
  · rintro _ ⟨⟩
  · rintro _ _ ⟨⟩
    exact hentry _ _ _ ⟨trivial, fun _ => List.not_mem_nil⟩
  · exact fun _ => List.not_mem_nil.elim
  · exact ⟨by decide, trivial⟩
  · exact hentry _ _ _ trivial
  · exact fun _ => List.not_mem_nil.elim
  · exact fun _ => List.not_mem_nil.elim

/-- Once the list has been updated, another update changes nothing. -/
theorem Lives.update_settles_spelling :
    ∃ picture w'', (Act.update ⟨0⟩).runIn (storyteller.enter 1) respelled = (some (.ok ()), w'') ∧
      Shows respelled ⟨0⟩ picture ∧ Shows w'' ⟨0⟩ picture ∧ ∀ enter enter' : Enter String,
        ((Act.outline ⟨0⟩).runIn enter respelled).1 = ((Act.outline ⟨0⟩).runIn enter' w'').1 := by
  have hbuild : (Build.build ⟨[spelling]⟩ story .headless).run.runIn (storyteller.enter 2)
      (.empty .off "ab") = (some (.ok ⟨0⟩), spelled) :=
    eq_ok_of_toOption (by decide +kernel)
  have hupdate : (Act.update ⟨0⟩).runIn (storyteller.enter 1) toldMore = (some (.ok ()), respelled) :=
    eq_ok_of_toOption (by decide +kernel)
  have hlives : Lives storyteller ⟨[spelling]⟩ ⟨0⟩ toldMore := (Lives.build hbuild).remember "abc"
  exact hlives.update_settles storyteller_harmless
    (.of_keepsPlain (storyteller_innocent _) (by decide +kernel))
    (List.forall_mem_singleton.mpr (spelling_composed _)) hupdate

/-! ### Trees that are not settled -/

/-- A host program with two functions: whether two values are the same, and what the receiver calls `val`. -/
def comparer : Host Unit where
  answer
    | .apply ⟨"same", _⟩ _ [v, v'] => .done (.ok (.bool (v.same v')))
    | .apply ⟨"val", _⟩ v _ => do
      match ← Script.getOwn v "val" with
      | some found => return .ok found
      | none => return .ok .undefined
    | _ => .hang

/-- A view is compiled and built, the data change, depending on the root as a scope, and the root is
updated twice. The answers are the outlines after either update. -/
def twice (entries : List (String × Json)) (before : Fields Value) (after : Value → Fields Value) :
    Script Unit (Option (String × String)) := do
  match ← Script.compileView ⟨entries⟩, ← Script.newRecord before with
  | .ok view, .object (.record r) =>
    match ← Script.build view [.object (.record r)] .headless with
    | .ok root =>
      let scopes ← Script.contextOf root
      Script.setFields r (after (scopes.headD .undefined))
      match ← Script.update root with
      | .ok () =>
        let once ← Script.outline root
        match ← Script.update root with
        | .ok () => return some (once, ← Script.outline root)
        | .error _ => return none
      | .error _ => return none
    | .error _ => return none
  | _, _ => return none

/-- Views and data for which a second update changes what the first has left. -/
def restlessViews : List (List (String × Json) × Fields Value × (Value → Fields Value)) :=
  [ -- a bound attribute asks for itself
    ([("p", .object [("bind:n", .string "\x7b\x7b n \x7d\x7dx")])], [("n", .str "")], fun _ => []),
    -- a condition asks for a bound attribute of the parent
    ([("p", .object [("bind:n", .string "\x7b\x7b x \x7d\x7d"),
      ("span", .object [("if", .string "\x7b\x7b n \x7d\x7d")])])],
      [("x", .str "")], fun _ => [("x", .str "1")]),
    -- an attribute that is set once does
    ([("p", .object [("bind:n", .string "\x7b\x7b x \x7d\x7d"),
      ("span", .object [("forEach:i", .string "\x7b\x7b [x] \x7d\x7d"),
        ("once:t", .string "\x7b\x7b n \x7d\x7d")])])],
      [("x", .str "1")], fun _ => [("x", .str "2")]),
    -- an attribute that is set once keeps what another has been before
    ([("div", .object [("bind:n", .string "\x7b\x7b [x] \x7d\x7d"),
      ("p", .object [("li", .object [("if", .string "\x7b\x7b x \x7d\x7d"),
        ("once:t", .string "\x7b\x7b n \x7d\x7d"),
        ("bind:s", .string "\x7b\x7b same(t, n) \x7d\x7d")])])])],
      [("x", .str ""), ("same", .function ⟨"same", 0⟩)],
      fun _ => [("x", .str "1"), ("same", .function ⟨"same", 0⟩)]),
    -- an attribute is called, and the element it is called for has not got its bound attribute yet
    ([("p", .object [("once:f", .string "\x7b\x7b g \x7d\x7d"),
      ("bind:val", .string "\x7b\x7b x \x7d\x7d"),
      ("span", .object [("if", .string "\x7b\x7b f() \x7d\x7d")])])],
      [("x", .str ""), ("g", .function ⟨"val", 1⟩)],
      fun _ => [("x", .str "1"), ("g", .function ⟨"val", 1⟩)]),
    -- an element is found among the data
    ([("p", .object [("bind:a", .string "\x7b\x7b s.b \x7d\x7d"),
      ("bind:b", .string "\x7b\x7b x \x7d\x7d")])],
      [("x", .str "1")], fun scope => [("x", .str "2"), ("s", scope)])]

/-- Trees of these views are not settled by one update. -/
theorem Lives.restless :
    restlessViews.map (fun (entries, before, after) =>
      (Host.run comparer 3 (twice entries before after) (.empty .off ())).1) =
      [some (some ("p [n=xx]\n", "p [n=xxx]\n")),
        some (some ("p [n=1]\n", "p [n=1]\n  span\n")),
        some (some ("p [n=2]\n  span [t=1]\n", "p [n=2]\n  span [t=2]\n")),
        some (some ("div [n=1]\n  p\n    li [t=1, s=true]\n", "div [n=1]\n  p\n    li [t=1, s=false]\n")),
        some (some ("p [f=function val, val=1]\n", "p [f=function val, val=1]\n  span\n")),
        some (some ("p [a=1, b=2]\n", "p [a=2, b=2]\n"))] := by
  decide +kernel

end ReactiveViews
