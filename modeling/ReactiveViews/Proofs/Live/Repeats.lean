import ReactiveViews.Proofs.Live.Selfsame

/-!
# Evaluating slots in two runs

A slot is evaluated in two runs: anew in both of them, or the second run finds what the first one has
left in the slot. Children come in pairs then. Either both runs have made them, or they are the same
child, which the first run has kept or made and the second one keeps.

## What is proved

Slots that are evaluated anew give pairs of new elements (`Link.Near.evaluate_fresh`). If a slot is
evaluated again, whatever there was to decide is decided in the same way: a child that the first run has
shown is shown again, and a list is kept if it is still the same one, and made anew if it is a new one
each time (`Link.Near.evaluate_again`).
-/

namespace ReactiveViews

variable {σ : Type}

/-! ### Writing into a slot -/

namespace Build

/-- Writes the memory of a slot, lets go of its elements, and answers with them. -/
def lodge (e : ElementId) (i : Nat) (memory : Memory) (es : List ElementId) : Build σ (List ElementId) := do
  act (remember e i memory)
  act (Act.release es)
  return es

theorem settle_eq (e : ElementId) (i : Nat) (last : Repetition) :
    settle (σ := σ) e i last = lodge e i (.repeated (some last)) last.elements := rfl

theorem runIn_lodge (enter : Enter σ) {w : World σ} {e : ElementId} {x : Element}
    (hx : w.elements.get? e.row = some x) (i : Nat) (memory : Memory) (es : List ElementId) :
    ∃ w', (lodge e i memory es).run.runIn enter w = (some (.ok es), w') ∧ Touches (· = e) w w' ∧
      w'.elements.get? e.row = some { x with slots := x.slots.modify i fun slot => { slot with memory } } := by
  obtain ⟨w₁, hrun, hw, hx₁⟩ : Alters enter w e (remember e i memory) () _ :=
    .updateElement hx _ fun _ => rfl
  refine ⟨{ w₁ with held := es.foldl List.erase w₁.held }, ?_, hw.touches.trans (.of_held w₁ _), hx₁⟩
  have hrelease : (Act.release es).runIn enter w₁ =
    (some (), { w₁ with held := es.foldl List.erase w₁.held }) := rfl
  unfold lodge
  rw [runIn_bindE_ok (Act.runIn_lift hrun), runIn_bindE_ok (Act.runIn_lift hrelease)]
  rfl

theorem runIn_lodge_eq_ok {enter : Enter σ} {w w' : World σ} {e : ElementId} {x : Element}
    (hx : w.elements.get? e.row = some x) {i : Nat} {memory : Memory} {es es' : List ElementId}
    (hrun : (lodge e i memory es).run.runIn enter w = (some (.ok es'), w')) :
    es' = es ∧ Touches (· = e) w w' ∧ w'.elements.get? e.row =
      some { x with slots := x.slots.modify i fun slot => { slot with memory } } := by
  obtain ⟨w₁, hlodge, hw, hx'⟩ := runIn_lodge enter hx i memory es
  obtain ⟨heq, rfl⟩ := Prod.mk.inj (hlodge.symm.trans hrun)
  exact ⟨(Except.ok.inj (Option.some.inj heq)).symm, hw, hx'⟩

/-- A slot whose condition is false remembers that there is no child. -/
theorem runIn_evaluate_hidden {enter : Enter σ} {w w₁ : World σ} {child : Node Resolver} {C : Context}
    (hshows : (eval (Eval.shows C child)).run.runIn enter w = (some (.ok false), w₁)) {e : ElementId}
    {x : Element} (hx : w₁.elements.get? e.row = some x) (i : Nat) (cached : Option ElementId) :
    ∃ w', (evaluate e i ⟨child, .single cached⟩ C .headless).run.runIn enter w = (some (.ok []), w') ∧
      Touches (· = e) w₁ w' ∧ w'.elements.get? e.row =
        some { x with slots := x.slots.modify i fun slot => { slot with memory := .single none } } := by
  obtain ⟨w', hrun, hw, hx'⟩ : Alters enter w₁ e (remember e i (.single none)) () _ :=
    .updateElement hx _ fun _ => rfl
  refine ⟨w', ?_, hw.touches, hx'⟩
  show (evaluateSingle e i child cached C .headless).run.runIn enter w = _
  unfold evaluateSingle
  rw [runIn_bindE_ok hshows, if_neg Bool.false_ne_true, runIn_bindE_ok (Act.runIn_lift hrun)]
  rfl

/-- A slot whose condition is true shows the child that it remembers. -/
theorem runIn_evaluate_shown {enter : Enter σ} {w w₁ : World σ} {child : Node Resolver} {C : Context}
    (hshows : (eval (Eval.shows C child)).run.runIn enter w = (some (.ok true), w₁)) (e c : ElementId)
    (i : Nat) : (evaluate e i ⟨child, .single (some c)⟩ C .headless).run.runIn enter w =
      (some (.ok [c]), w₁) := by
  show (evaluateSingle e i child (some c) C .headless).run.runIn enter w = _
  unfold evaluateSingle
  rw [runIn_bindE_ok hshows]
  rfl

/-- A list has the items that are answered with it. -/
theorem walk?_of_listOf {enter : Enter σ} {w w' : World σ} {C : Context} {resolver : Resolver} {list : Value}
    {items : List Value}
    (hrun : (listOf C resolver).run.runIn enter w = (some (.ok (list, items)), w')) :
    w'.store.walk? list = some items := by
  obtain ⟨v, w₁, -, hrun⟩ := runIn_bindE_eq_ok hrun
  obtain ⟨vs, w₂, hitems, hrun⟩ := runIn_bindE_eq_ok hrun
  cases hrun
  have hanswer : (Except.mapError ViewError.eval <$> Act.items list).runIn enter w₁ =
    (some (.ok items), w') := hitems
  rw [map_eq_pure_bind, Act.runIn_bind_some (Act.runIn_items enter w₁ list)] at hanswer
  obtain ⟨hanswer, rfl⟩ := Prod.mk.inj hanswer
  cases hwalk : w₁.store.walk? list with
  | none =>
    rw [hwalk] at hanswer
    cases hanswer
  | some vs' =>
    rw [hwalk] at hanswer
    cases hanswer
    rfl

/-- A list that is another one is shown from nothing. -/
theorem runIn_evaluate_anew {enter : Enter σ} {w w₁ : World σ} {child : Node Resolver} {C : Context}
    {name : String} {resolver : Resolver} (hrepetition : child.repetition = some (name, resolver))
    {list : Value} {items : List Value}
    (hlist : (listOf C resolver).run.runIn enter w = (some (.ok (list, items)), w₁)) (last : Repetition)
    (hsame : ¬ last.list.same list = true) (e : ElementId) (i : Nat) :
    (evaluate e i ⟨child, .repeated (some last)⟩ C .headless).run.runIn enter w =
      (spread child .headless name C list items >>= settle e i).run.runIn enter w₁ := by
  have hother : ¬ (last.list.same list && last.contexts.length == items.length) = true :=
    fun h => hsame (Bool.and_eq_true_iff.mp h).1
  unfold evaluate
  simp only [hrepetition]
  unfold evaluateRepeated
  rw [runIn_bindE_ok hlist]
  dsimp only
  rw [if_neg hother]

/-- The steps of a list that is shown from nothing and gets its elements: frames are made for the items, the
conditions are looked at in them, elements are made where they hold, and the slot remembers it all. -/
structure Unrolls (enter : Enter σ) (child : Node Resolver) (name : String) (C : Context) (e : ElementId) (i : Nat)
    (items : List Value) (last : Repetition) (w w₁ w₂ w₃ w₄ w' : World σ) : Prop where
  /-- There is a message about it. -/
  noticed : Looked w w₁
  /-- The frames. -/
  frames : (act (Build.frames name C items)).run.runIn enter w₁ = (some (.ok last.contexts), w₂)
  /-- The conditions. -/
  conditions : (Build.conditions child last.contexts).run.runIn enter w₂ = (some (.ok last.conditions), w₃)
  /-- The elements. -/
  created : (createAll child .headless (shown last.contexts last.conditions)).run.runIn enter w₃ =
    (some (.ok last.elements), w₄)
  /-- The slot. -/
  lodged : (lodge e i (.repeated (some last)) last.elements).run.runIn enter w₄ =
    (some (.ok last.elements), w')

theorem unrolls_of_spread {enter : Enter σ} {w w' : World σ} {child : Node Resolver} {name : String}
    {C : Context} {list : Value} {items : List Value} {e : ElementId} {i : Nat} {es : List ElementId}
    (hrun : (spread child .headless name C list items >>= settle e i).run.runIn enter w =
      (some (.ok es), w')) :
    ∃ contexts bs w₁ w₂ w₃ w₄,
      Unrolls enter child name C e i items ⟨list, contexts, bs, es⟩ w w₁ w₂ w₃ w₄ w' := by
  obtain ⟨last, w₄, hspread, hsettle⟩ := runIn_bindE_eq_ok hrun
  unfold spread at hspread
  obtain ⟨⟨⟩, w₁, hmessage, hspread⟩ := runIn_bindE_eq_ok hspread
  obtain ⟨contexts, w₂, hframes, hspread⟩ := runIn_bindE_eq_ok hspread
  obtain ⟨bs, w₃, hconditions, hspread⟩ := runIn_bindE_eq_ok hspread
  obtain ⟨made, v, hcreate, hspread⟩ := runIn_bindE_eq_ok hspread
  cases hspread
  rw [settle_eq] at hsettle
  have hw₁ : Looked w w₁ := Looks.message .trace (.pure _) _ _ _ (runIn_lift_eq_ok hmessage)
  obtain ⟨⟨⟩, w₅, hremember, hrest⟩ := runIn_bindE_eq_ok hsettle
  obtain ⟨⟨⟩, w₆, hrelease, hrest⟩ := runIn_bindE_eq_ok hrest
  cases hrest
  exact ⟨contexts, bs, w₁, w₂, w₃, w₄, hw₁, hframes, hconditions, hcreate, hsettle⟩

/-- A list that is still the same is shown from memory, if the conditions are what they were. -/
theorem runIn_evaluate_kept {enter : Enter σ} {w w₁ w₂ w₃ : World σ} {child : Node Resolver} {C : Context}
    {name : String} {resolver : Resolver} (hrepetition : child.repetition = some (name, resolver))
    {list : Value} {items : List Value}
    (hlist : (listOf C resolver).run.runIn enter w = (some (.ok (list, items)), w₁)) {last : Repetition}
    (hsame : last.list.same list = true) (hlength : last.contexts.length = items.length)
    (hnote : (noteKept last).runIn enter w₁ = (some (), w₂))
    (hconditions : (conditions child last.contexts).run.runIn enter w₂ = (some (.ok last.conditions), w₃))
    (e : ElementId) (i : Nat) :
    (evaluate e i ⟨child, .repeated (some last)⟩ C .headless).run.runIn enter w =
      (some (.ok last.elements), w₃) := by
  have hkept : (last.list.same list && last.contexts.length == items.length) = true := by
    rw [hsame, hlength, beq_self_eq_true]
    rfl
  unfold evaluate
  simp only [hrepetition]
  unfold evaluateRepeated
  rw [runIn_bindE_ok hlist]
  dsimp only
  rw [if_pos hkept, runIn_bindE_ok (Act.runIn_lift hnote)]
  unfold reuse
  rw [runIn_bindE_ok hconditions, if_pos (beq_self_eq_true _)]
  rfl

end Build

namespace Link

/-! ### Children that are made anew -/

section

variable {ρ ρ' ρ₁ : Link} {D : Scene σ} {w w₁ w' s s₁ s' : World σ} {asked : String → Prop}
  {loose : List String} {e e' c c' : ElementId} {x x' : Element} {C C' : Context} {enter : Enter σ}
  {child : Node Resolver} {es es' : List ElementId} {i i' m m' : Nat}

theorem Cognate.touched {S T : ElementId → Prop} (h : ρ.Cognate w s child C C' c c')
    (hw : Touches S w w') (hs : Touches T s s') (hc : ¬ S c) (hc' : ¬ T c') :
    ρ.Cognate w' s' child C C' c c' := by
  obtain ⟨x, x', h, h', hx, hx', hrest⟩ := h
  exact ⟨x, x', h, h', { hx with get := hw.get? hx.get hc }, { hx' with get := hs.get? hx'.get hc' }, hrest⟩

/-- New elements are inside of the elements that they have been made for. -/
theorem Offspring.inside (h : ρ.Offspring w s child e e' C C' c c')
    (hlineage : w.lineage e = e :: Context.elements C)
    (hlineage' : s.lineage e' = e' :: Context.elements C') : w.Inside e c ∧ s.Inside e' c' := by
  obtain ⟨context, context', hfronts, x, x', -, -, hx, hx', -⟩ := h
  refine ⟨⟨x, hx.get, ?_⟩, ⟨x', hx'.get, ?_⟩⟩
  · rw [World.lineage_eq hx.get, hx.context, hfronts.elements_eq.1, hlineage]
  · rw [World.lineage_eq hx'.get, hx'.context, hfronts.elements_eq.2, hlineage']

theorem Offspring.touched {S T : ElementId → Prop} (h : ρ.Offspring w s child e e' C C' c c')
    (hw : Touches S w w') (hs : Touches T s s') (hc : ¬ S c) (hc' : ¬ T c') :
    ρ.Offspring w' s' child e e' C C' c c' := by
  obtain ⟨context, context', hfronts, hcognate⟩ := h
  exact ⟨context, context', hfronts, hcognate.touched hw hs hc hc'⟩

theorem Offspring.mono (h : ρ.Offspring w s child e e' C C' c c') (hle : ρ ≤ ρ') :
    ρ'.Offspring w s child e e' C C' c c' := by
  obtain ⟨context, context', hfronts, x, x', h, h', hx, hx', hc, hc', hfields⟩ := h
  exact ⟨context, context', hfronts.mono hle, x, x', h, h', hx, hx', hc, hc', hfields.mono hle⟩

/-- New children come in pairs. -/
def Made (ρ : Link) (w s : World σ) (child : Node Resolver) (e e' : ElementId) (C C' : Context)
    (es es' : List ElementId) (w' s' : World σ) : Prop :=
  ∃ ρ', ρ.Extends ρ' w.store s.store ∧ ρ'.Stores w'.store s'.store ∧
    List.Forall₂ (ρ'.Offspring w' s' child e e' C C') es es'

theorem Made.after (h : ρ₁.Made w₁ s₁ child e e' C C' es es' w' s') (hadvances : Advances ρ ρ₁ w w₁ s s₁) :
    ρ.Made w s child e e' C C' es es' w' s' := by
  obtain ⟨ρ', hextends, hrest⟩ := h
  exact ⟨ρ', hadvances.step.extends_.trans hextends hadvances.step.left.store hadvances.step.right.store,
    hrest⟩

/-- New children are written into slots. -/
theorem Made.lodge (enter : Enter σ) (hx : w.elements.get? e.row = some x)
    (hx' : s.elements.get? e'.row = some x') (hstores : ρ.Stores w.store s.store)
    (hall : List.Forall₂ (ρ.Offspring w s child e e' x.context x'.context) es es') (memory memory' : Memory) :
    Tracks enter w s (Build.lodge e i memory es) (Build.lodge e' i' memory' es')
      (ρ.Made w s child e e' x.context x'.context) := by
  obtain ⟨s₁, hrun', hs, -⟩ := Build.runIn_lodge enter hx' i' memory' es'
  intro es₁ w₁ hrun
  obtain ⟨rfl, hw, -⟩ := Build.runIn_lodge_eq_ok hx hrun
  refine ⟨es', s₁, hrun', ρ, .refl _ _ _, hstores.grow hw.store hs.store, hall.imp fun c c' h => ?_⟩
  obtain ⟨hinside, hinside'⟩ := h.inside (World.lineage_eq hx) (World.lineage_eq hx')
  refine h.touched hw hs ?_ ?_
  · rintro rfl
    exact hinside.not_below (.refl w c)
  · rintro rfl
    exact hinside'.not_below (.refl s c')

/-- What the directives of a child node may ask for where its elements are made: nothing that is hidden,
and attributes that are set once nothing else that is bound around them either. -/
structure Suits (D : Scene σ) (hidden bound loose : List String) (child : Node Resolver) : Prop where
  /-- The condition. -/
  condition : ∀ r ∈ child.condition, r.Apt D (Uncovered (fun _ => True) hidden) loose
  /-- The list. -/
  repetition : ∀ name r, child.repetition = some (name, r) →
    r.Apt D (Uncovered (fun _ => True) hidden) loose
  /-- The attributes that are set once. -/
  once : ∀ entry ∈ child.once, entry.2.Apt D (Uncovered (· ∉ bound) hidden) (loose ++ child.dresses)

/-- What the directives of a child node ask for where its elements are made, if the scopes around answer
when they are asked for some names, and stay the same as far as they are asked for fewer names. -/
structure Fits (D : Scene σ) (asked known : String → Prop) (hidden loose : List String)
    (child : Node Resolver) : Prop where
  /-- What stays the same is answered. -/
  less : ∀ name, known name → asked name
  /-- The condition. -/
  condition : ∀ r ∈ child.condition, r.Apt D (Uncovered asked hidden) loose
  /-- The list. -/
  repetition : ∀ name r, child.repetition = some (name, r) → r.Apt D (Uncovered asked hidden) loose
  /-- The attributes that are set once. -/
  once : ∀ entry ∈ child.once, entry.2.Apt D (Uncovered known hidden) (loose ++ child.dresses)

variable {hidden bound : List String} {known : String → Prop}

theorem Suits.fits (h : Suits D hidden bound loose child) :
    Fits D (fun _ => True) (fun name => True ∧ name ∉ bound) hidden loose child where
  less _ _ := trivial
  condition := h.condition
  repetition := h.repetition
  once entry hentry :=
    { h.once entry hentry with
      names := fun name hname => ⟨⟨trivial, ((h.once entry hentry).names name hname).1⟩,
        ((h.once entry hentry).names name hname).2⟩ }

theorem Fits.anew (h : Fits D asked known hidden loose child) : ∀ entry ∈ child.once,
    entry.2.Apt D (Uncovered asked hidden) (loose ++ child.dresses) := fun entry hentry =>
  { h.once entry hentry with
    names := fun name hname =>
      ⟨h.less name ((h.once entry hentry).names name hname).1, ((h.once entry hentry).names name hname).2⟩ }

theorem Near.settling (hnear : ρ.Near D asked loose C C' w s) (child : Node Resolver) :
    ρ.Near D asked (loose ++ child.dresses) C C' w s :=
  hnear.mono (fun _ => id) (List.subset_append_left _ _)

theorem once_subset (child : Node Resolver) (loose : List String) :
    child.once.map (·.1) ⊆ loose ++ child.dresses :=
  List.subset_append_of_subset_right _ child.once_subset_dresses

/-- A list is shown where none was, or another one. -/
theorem Near.spread_settle (hinnocent : Innocent D enter) (hharmless : Harmless enter)
    (hfits : Fits D asked known hidden loose child) (hx : w.elements.get? e.row = some x)
    (hx' : s.elements.get? e'.row = some x')
    (hnear : ρ.Near D (Uncovered asked hidden) loose (.object (.scope m e) :: x.context)
      (.object (.scope m' e') :: x'.context) w s) (name : String) (list list' : Value)
    {items items' : List Value} (hitems : List.Forall₂ ρ.Values items items') :
    Tracks enter w s
      (Build.spread child .headless name (.object (.scope m e) :: x.context) list items >>=
        Build.settle e i)
      (Build.spread child .headless name (.object (.scope m' e') :: x'.context) list' items' >>=
        Build.settle e' i')
      (ρ.Made w s child e e' x.context x'.context) := by
  refine (hnear.spread hinnocent hharmless hfits.condition (List.subset_append_left loose child.dresses)
    hfits.anew (once_subset child loose) name list list' hitems).bind ?_
  rintro last last' w₁ s₁ - - ⟨ρ₁, h₁, -, -, -, hspreads⟩
  refine (Made.lodge enter (h₁.step.left.get? hx id) (h₁.step.right.get? hx' id) h₁.step.stores
    hspreads (.repeated (some last)) (.repeated (some last'))).imp ?_
  intro es es' w₂ s₂ hmade
  exact hmade.after h₁

end

/-! ### The end of one run and the beginning of another -/

/-- What goes on where the scopes of an element are the same in both runs: the second run goes on in what
the first one leaves, whose store is `o` in the end; and the first run can be compared with itself, as far
as nothing is asked for that is bound around. -/
structure Rerun (ρ : Link) (D : Scene σ) (o : Store) (asked known : String → Prop)
    (hidden loose : List String) (e : ElementId) (C : Context) (w s : World σ) : Prop where
  /-- The two runs. -/
  near : ∀ m m', ρ.Near D (Uncovered asked hidden) loose (.object (.scope m e) :: C)
    (.object (.scope m' e) :: C) w s
  /-- The first run and itself. -/
  self : ∀ m, ρ.diag.link.Near D (Uncovered known hidden) loose (.object (.scope m e) :: C)
    (.object (.scope m e) :: C) w w
  /-- Where the second run begins. -/
  straddles : ρ.Straddles o
  /-- The second run goes on. -/
  later : o.Grows s.store

section

variable {ρ ρ' ρ₁ : Link} {D : Scene σ} {o : Store} {asked known : String → Prop}
  {hidden loose : List String} {w w₁ w₂ w₃ w₄ w' s s₁ s' : World σ} {e c : ElementId} {x x' : Element}
  {C : Context} {enter : Enter σ} {child : Node Resolver} {es es' : List ElementId} {i i' m m' : Nat}
  {memory : Memory} {done rest : List Slot} {slot : Slot}

theorem Rerun.advance (h : Rerun ρ D o asked known hidden loose e C w s)
    (hadvances : Advances ρ ρ' w w' s s') (ho : w'.store.Grows o) :
    Rerun ρ' D o asked known hidden loose e C w' s' where
  near m m' := (h.near m m').advance hadvances
  self m := (h.self m).diag_pace hadvances.step.le hadvances.step.stores
    (ho.trans (h.later.trans hadvances.step.right.store)) (hadvances.pace _).left
  straddles := h.straddles.extended hadvances.step.extends_ h.later
  later := h.later.trans hadvances.step.right.store

/-- Someone looks at the world of the first run. -/
theorem Rerun.left (h : Rerun ρ D o asked known hidden loose e C w s) (hw : Looked w w')
    (ho : w'.store.Grows o) : Rerun ρ D o asked known hidden loose e C w' s :=
  h.advance (.of_looked (h.near 0 0).worlds.stores hw (.refl s)) ho

/-- What the first run makes, the second one finds. -/
theorem Rerun.widen (h : Rerun ρ D o asked known hidden loose e C w s)
    (hadvances : Advances ρ.diag.link ρ₁ w w' w w') (ho : w'.store.Grows o) :
    ∃ ρ', ρ ≤ ρ' ∧ Rerun ρ' D o asked known hidden loose e C w' s ∧ ∀ v, ρ₁.Values v v → ρ'.Values v v := by
  obtain ⟨ρ', hle, hstraddles, hstores, hvalues⟩ := h.straddles.widen (h.near 0 0).worlds.stores
    hadvances.step.extends_ hadvances.step.stores hadvances.step.left.store ho h.later
  have hleaves : ∀ n, Leaves n w w' := fun n => (hadvances.pace n).left
  refine ⟨ρ', hle, ⟨fun m m' => ?_, fun m => ?_, hstraddles, h.later⟩, hvalues⟩
  · exact (h.near m m').pace ⟨hle, hstores, hleaves _, .refl _ s⟩
  · exact (h.self m).diag_pace hle hstores (ho.trans h.later) (hleaves _)

/-- Children that come in pairs: both runs have made them, or it is one child, which the second run
keeps. -/
inductive Bonded (ρ : Link) (w s : World σ) (child : Node Resolver) (e e' : ElementId) (C C' : Context) :
    ElementId → ElementId → Prop where
  /-- Two new children. -/
  | made {c c' : ElementId} : ρ.Offspring w s child e e' C C' c c' → Bonded ρ w s child e e' C C' c c'
  /-- A child that both runs show. -/
  | kept {c : ElementId} {x : Element} : e = e' → C = C' → Standing w child c →
    Kept ρ w child c → w.elements.get? c.row = some x →
    ρ.Fronts e e' C C' x.context x.context → Bonded ρ w s child e e' C C' c c

theorem Bonded.inside {e' c' : ElementId} {C' : Context} (h : Bonded ρ w s child e e' C C' c c')
    (hlineage : w.lineage e = e :: Context.elements C) : w.Inside e c := by
  cases h with
  | made hoffspring =>
    obtain ⟨context, context', hfronts, x, -, -, -, hx, -⟩ := hoffspring
    exact ⟨x, hx.get, by rw [World.lineage_eq hx.get, hx.context, hfronts.elements_eq.1, hlineage]⟩
  | kept _ _ _ _ hx hfronts =>
    exact ⟨_, hx, by rw [World.lineage_eq hx, hfronts.elements_eq.1, hlineage]⟩

/-- Children stay a pair as long as nothing in their trees is touched. -/
theorem Bonded.touched {e' c' : ElementId} {C' : Context} {S T : ElementId → Prop}
    (h : Bonded ρ w s child e e' C C' c c') (hle : ρ ≤ ρ') (hw : Touches S w w')
    (hS : ∀ z, w.Below c z → ¬ S z) (hs : Touches T s s') (hT : ¬ T c') :
    Bonded ρ' w' s' child e e' C C' c c' := by
  cases h with
  | made hoffspring =>
    exact .made ((hoffspring.touched hw hs (hS c (.refl w c)) hT).mono hle)
  | kept he hC hstanding hkept hx hfronts =>
    exact .kept he hC (hstanding.touched hw hS) ((hkept.mono hle).touched hstanding hw hS)
      (hw.get? hx (hS c (.refl w c))) (hfronts.mono hle)

/-- The children of a slot come in pairs, when it has been evaluated in both runs. -/
def Resumed (ρ : Link) (o : Store) (child : Node Resolver) (e e' : ElementId) (C C' : Context)
    (es es' : List ElementId) (w' s' : World σ) : Prop :=
  ∃ ρ', ρ ≤ ρ' ∧ ρ'.Stores w'.store s'.store ∧ ρ'.Straddles o ∧
    List.Forall₂ (Bonded ρ' w' s' child e e' C C') es es'

theorem Resumed.mono {e' : ElementId} {C' : Context} (h : ρ₁.Resumed o child e e' C C' es es' w' s')
    (hle : ρ ≤ ρ₁) : ρ.Resumed o child e e' C C' es es' w' s' := by
  obtain ⟨ρ', hle', hrest⟩ := h
  exact ⟨ρ', Link.le_trans hle hle', hrest⟩

/-- What has been written into a slot last is there in the end. -/
theorem memory_eq (hslots : x.slots = done ++ slot :: rest)
    (hmemory : w'.elements.get? e.row = some { x with slots := done ++ ⟨slot.node, memory⟩ :: rest })
    {memory' : Memory} (hx : w'.elements.get? e.row =
      some { x with slots := x.slots.modify done.length fun slot => { slot with memory := memory' } }) :
    memory = memory' := by
  have heq := congrArg Element.slots (Option.some.inj (hmemory.symm.trans hx))
  rw [hslots, modify_append_cons] at heq
  have hslot := (List.cons.inj (List.append_cancel_left heq)).1
  exact congrArg Slot.memory hslot

/-- A slot that has not been written is what it was. -/
theorem memory_eq_self (hslots : x.slots = done ++ slot :: rest)
    (hmemory : w'.elements.get? e.row = some { x with slots := done ++ ⟨slot.node, memory⟩ :: rest })
    (hx : w'.elements.get? e.row = some x) : memory = slot.memory := by
  have heq := congrArg Element.slots (Option.some.inj (hmemory.symm.trans hx))
  rw [hslots] at heq
  have hslot := (List.cons.inj (List.append_cancel_left heq)).1
  exact congrArg Slot.memory hslot

/-- A child in a slot has what the slot remembers in front of the element. -/
theorem fronts_of_lodges {C : Context} (hlodges : Lodges w e C slot.node slot.memory)
    (hretains : ∀ last, slot.memory = .repeated (some last) → ρ.Retains e C last) (hc : c ∈ slot.elements) :
    ∃ y, w.elements.get? c.row = some y ∧ ρ.Fronts e e C C y.context y.context := by
  unfold Slot.elements at hc
  generalize slot.memory = memory at hlodges hretains hc
  cases hlodges with
  | none => simp at hc
  | @child c' y m _ hy hcontext =>
    obtain rfl : c = c' := by simpa using hc
    exact ⟨y, hy, hcontext ▸ .scopes ρ m m e e C C⟩
  | blank => simp at hc
  | list _ _ helements =>
    obtain ⟨context, hshown, y, hy, rfl⟩ := exists_of_forall₂ helements hc
    exact ⟨y, hy, (hretains _ rfl).contexts _ (mem_of_mem_shown hshown)⟩

/-- A child that the first run shows the second one shows as well. -/
theorem Bonded.of_limb (hlimb : Limb w e x.context slot) (hhoard : Hoard ρ w e x.context slot)
    (hc : c ∈ slot.elements) : Bonded ρ w s slot.node e e x.context x.context c c := by
  obtain ⟨y, hy, hfronts⟩ := fronts_of_lodges hlimb.lodges hhoard.retains hc
  exact .kept rfl rfl (hlimb.standing c hc) (hhoard.kept c hc) hy hfronts

/-- A child that the first run has made the second one finds. -/
theorem Bonded.of_offspring (h : ρ.Offspring w w child e e C C c c) : Bonded ρ w s child e e C C c c := by
  obtain ⟨context, context', hfronts, hcognate⟩ := h
  obtain ⟨x, x', -, -, hx, hx', -⟩ := id hcognate
  obtain rfl : x = x' := Option.some.inj (hx.get.symm.trans hx'.get)
  obtain rfl : context = context' := hx.context.symm.trans hx'.context
  exact .kept rfl rfl hx.standing (.of_cognate hcognate) hx.get (hx.context.symm ▸ hfronts)

theorem Offspring.transfer (h : ρ₁.Offspring w w child e e C C c c)
    (hvalues : ∀ v, ρ₁.Values v v → ρ.Values v v) : ρ.Offspring w w child e e C C c c := by
  obtain ⟨context, context', hfronts, y, y', k, k', hy, hy', hk, hk', hfields⟩ := h
  obtain rfl : y = y' := Option.some.inj (hy.get.symm.trans hy'.get)
  obtain rfl : context = context' := hy.context.symm.trans hy'.context
  obtain rfl : k = k' := Component.headless.inj (hk.symm.trans hk')
  refine ⟨context, context, hfronts.transfer hvalues, y, y, k, k, hy, hy, hk, hk, ?_⟩
  exact List.forall₂_same.mpr fun entry hentry =>
    ⟨rfl, hvalues _ (List.forall₂_same.mp hfields entry hentry).2⟩

/-- The children that the first run has made and written into the slot the second one finds there. -/
theorem Rerun.lodge (h : Rerun ρ D o asked known hidden loose e x.context w s)
    (hx : w.elements.get? e.row = some x) (hadvances : Advances ρ.diag.link ρ₁ w w₁ w w₁)
    (hall : List.Forall₂ (ρ₁.Offspring w₁ w₁ child e e x.context x.context) es es) {memory : Memory}
    (hrun : (Build.lodge e i memory es).run.runIn enter w₁ = (some (.ok es'), w'))
    (ho : w'.store.Grows o) :
    es' = es ∧ w'.elements.get? e.row =
        some { x with slots := x.slots.modify i fun slot => { slot with memory } } ∧
      ρ.Resumed o child e e x.context x.context es es w' s := by
  have hx₁ := hadvances.step.left.get? hx id
  obtain ⟨rfl, hw₂, hx₂⟩ := Build.runIn_lodge_eq_ok hx₁ hrun
  obtain ⟨ρ₂, hle, hrerun, hvalues⟩ := h.widen hadvances (hw₂.store.trans ho)
  refine ⟨rfl, hx₂, ρ₂, hle, (hrerun.near 0 0).worlds.stores.grow hw₂.store (.refl _), hrerun.straddles, ?_⟩
  refine List.forall₂_same.mpr fun c hc => .of_offspring ?_
  have hoffspring := List.forall₂_same.mp hall c hc
  have hne : c ≠ e := by
    rintro rfl
    exact (hoffspring.inside (World.lineage_eq hx₁) (World.lineage_eq hx₁)).1.not_below (.refl w₁ c)
  exact (hoffspring.touched hw₂ hw₂ hne hne).transfer hvalues

/-- A single child in the first run and in the second one. -/
theorem Rerun.evaluateSingle (hinnocent : Innocent D enter) (hharmless : Harmless enter)
    (h : Rerun ρ D o asked known hidden loose e x.context w s)
    (hfits : Fits D asked known hidden loose slot.node)
    (hx : w.elements.get? e.row = some x) (hx' : s.elements.get? e.row = some x')
    (hlimb : Limb w e x.context slot) (hhoard : Hoard ρ w e x.context slot)
    (hslots : x.slots = done ++ slot :: rest) {cached : Option ElementId}
    (hcached : slot.memory = .single cached)
    (hrun : (Build.evaluateSingle e done.length slot.node cached (.object (.scope m e) :: x.context)
      .headless).run.runIn enter w = (some (.ok es), w'))
    (hmemory : w'.elements.get? e.row = some { x with slots := done ++ ⟨slot.node, memory⟩ :: rest })
    (ho : w'.store.Grows o) (i m' : Nat) :
    ∃ es' s', (Build.evaluate e i ⟨slot.node, memory⟩ (.object (.scope m' e) :: x.context)
        .headless).run.runIn enter s = (some (.ok es'), s') ∧
      ρ.Resumed o slot.node e e x.context x.context es es' w' s' := by
  have hrun₀ : (Build.evaluate e done.length ⟨slot.node, .single cached⟩ _ .headless).run.runIn enter w =
    (some (.ok es), w') := hrun
  unfold Build.evaluateSingle at hrun
  obtain ⟨b, w₁, hshows, hrun⟩ := Build.runIn_bindE_eq_ok hrun
  obtain ⟨_, s₁, hshows', ρ₁, hgoes, rfl⟩ :=
    ((h.near m m').shows hinnocent hharmless hfits.condition).eval.tracks b w₁ hshows
  have h₁ := Advances.of_goes hgoes
  have hx₁ := h₁.step.left.get? hx id
  have hx₁' := h₁.step.right.get? hx' id
  cases b with
  | false =>
    obtain ⟨w₂, hleft, hw₂, hx₂⟩ :=
      Build.runIn_evaluate_hidden (e := e) hshows hx₁ done.length cached
    obtain ⟨heq, rfl⟩ := Prod.mk.inj (hleft.symm.trans hrun₀)
    cases heq
    obtain rfl := memory_eq hslots hmemory hx₂
    obtain ⟨s₂, hright, hs₂, -⟩ := Build.runIn_evaluate_hidden (e := e) hshows' hx₁' i none
    exact ⟨[], s₂, hright, ρ₁, h₁.step.le, h₁.step.stores.grow hw₂.store hs₂.store,
      h.straddles.extended h₁.step.extends_ h.later, .nil⟩
  | true =>
    cases cached with
    | some c =>
      obtain ⟨heq, rfl⟩ := Prod.mk.inj hrun
      cases heq
      obtain rfl := memory_eq_self hslots hmemory hx₁
      have hstraddles := h.straddles.extended h₁.step.extends_ h.later
      rw [hcached]
      refine ⟨[c], s₁, Build.runIn_evaluate_shown hshows' e c i, ρ₁, h₁.step.le, h₁.step.stores, hstraddles,
        .cons (.of_limb (hlimb.retained h₁.step.left.retains fun _ _ _ _ => id)
          (hhoard.touched hlimb h₁.step.le h₁.step.left fun _ _ _ _ => id) ?_) .nil⟩
      · rw [Slot.elements, hcached]
        exact List.mem_singleton_self c
    | none =>
      obtain ⟨c, w₂, hcreate, hlodge⟩ := Build.runIn_bindE_eq_ok hrun
      obtain ⟨rfl, hcreated, -⟩ := (Build.create_ends hharmless.rules w₁ slot.node _).ok hcreate
      obtain ⟨-, hlodged, -⟩ := Build.runIn_lodge_eq_ok (hcreated.touches.get? hx₁ id) hlodge
      have hstore := (hcreated.touches.store.trans hlodged.store).trans ho
      have hrerun := h.advance h₁ hstore
      obtain ⟨ρ₂, h₂, hcognate⟩ := (((hrerun.self m).settling slot.node).create hinnocent hharmless
        hfits.once (once_subset slot.node loose)).self hcreate
      obtain ⟨rfl, hx₃, hresumed⟩ := hrerun.lodge hx₁ h₂
        (.cons ⟨_, _, .scopes ρ₂ _ _ _ _ _ _, hcognate⟩ .nil) hlodge ho
      obtain rfl := memory_eq hslots hmemory hx₃
      exact ⟨_, s₁, Build.runIn_evaluate_shown hshows' e _ i, hresumed.mono h₁.step.le⟩

/-- Conditions in contexts that stand for themselves are the same in both runs. -/
theorem Rerun.conditions (hinnocent : Innocent D enter) (hharmless : Harmless enter)
    (h : Rerun ρ D o asked known hidden loose e C w s)
    (hfits : Fits D asked known hidden loose child)
    {contexts : List Context} (hcontexts : ∀ context ∈ contexts, ρ.Fronts e e C C context context)
    {bs : List Bool}
    (hrun : (Build.conditions child contexts).run.runIn enter w = (some (.ok bs), w')) :
    ∃ s' ρ', (Build.conditions child contexts).run.runIn enter s = (some (.ok bs), s') ∧
      Advances ρ ρ' w w' s s' := by
  have hnear := h.near 0 0
  obtain ⟨_, s', hrun', ρ', hgoes, rfl⟩ := (Near.conditions hinnocent hharmless hnear.worlds hfits.condition
    (List.forall₂_same.mpr fun context hmem => (hnear.fronts (hcontexts context hmem)).contexts)).tracks
    bs w' hrun
  exact ⟨s', ρ', hrun', .of_goes hgoes⟩

/-- The elements that the first run has made in some contexts and written into a slot. -/
theorem Rerun.renew (hinnocent : Innocent D enter) (hharmless : Harmless enter)
    (h : Rerun ρ D o asked known hidden loose e x.context w s)
    (hfits : Fits D asked known hidden loose child)
    (hx : w.elements.get? e.row = some x) {contexts : List Context}
    (hcontexts : ∀ context ∈ contexts, ρ.Fronts e e x.context x.context context context)
    (hcreate : (Build.createAll child .headless contexts).run.runIn enter w = (some (.ok es), w₁))
    (hlodge : (Build.lodge e i memory es).run.runIn enter w₁ = (some (.ok es'), w'))
    (ho : w'.store.Grows o) :
    es' = es ∧ w'.elements.get? e.row =
        some { x with slots := x.slots.modify i fun slot => { slot with memory } } ∧
      ρ.Resumed o child e e x.context x.context es es w' s := by
  obtain ⟨ρ₁, h₁, hall⟩ := (Near.createAll hinnocent hharmless ((h.self 0).settling child)
    hfits.once (once_subset child loose) (List.forall₂_same.mpr fun context hmem =>
      (hcontexts context hmem).transfer (ρ := ρ.diag.link) fun v hv => hv.diag)).self hcreate
  exact h.lodge hx h₁ hall hlodge ho

/-- A list that the first run has shown the second one shows from memory, if it is still the same: when
the conditions have been looked at, they are what they were. -/
theorem Rerun.recall (hinnocent : Innocent D enter) (hharmless : Harmless enter)
    (h : Rerun ρ D o asked known hidden loose e C w s)
    (hfits : Fits D asked known hidden loose child)
    {s₀ : World σ} {name : String} {resolver : Resolver} (hrepetition : child.repetition = some (name, resolver))
    {list : Value} {items : List Value} (hlist : (Build.listOf (.object (.scope m' e) :: C) resolver).run.runIn
      enter s₀ = (some (.ok (list, items)), s)) (last : Repetition) (hsame : last.list.same list = true)
    (hlength : last.contexts.length = items.length)
    (hcontexts : ∀ context ∈ last.contexts, ρ.Fronts e e C C context context)
    (hconditions : (Build.conditions child last.contexts).run.runIn enter w =
      (some (.ok last.conditions), w')) :
    ∃ s' ρ', (Build.evaluate e i ⟨child, .repeated (some last)⟩ (.object (.scope m' e) :: C)
      .headless).run.runIn enter s₀ = (some (.ok last.elements), s') ∧ Advances ρ ρ' w w' s s' := by
  obtain ⟨s₁, hnote, -⟩ := runIn_noteKept enter last s
  have hs₁ : Advances ρ ρ w w s s₁ :=
    .of_looked (h.near 0 0).worlds.stores (.refl w) (Looks.noteKept last s _ s₁ hnote)
  have h₁ : Rerun ρ D o asked known hidden loose e C w s₁ :=
    ⟨fun m m' => (h.near m m').advance hs₁, h.self, h.straddles, h.later.trans hs₁.step.right.store⟩
  obtain ⟨s', ρ', hright, hadvances⟩ :=
    h₁.conditions hinnocent hharmless hfits hcontexts hconditions
  exact ⟨s', ρ', Build.runIn_evaluate_kept hrepetition hlist hsame hlength hnote hright e i,
    hs₁.trans hadvances⟩

/-- A list that the first run shows from memory. -/
theorem Rerun.reuse (hinnocent : Innocent D enter) (hharmless : Harmless enter)
    (h : Rerun ρ D o asked known hidden loose e x.context w s)
    (hfits : Fits D asked known hidden loose slot.node)
    (hx : w.elements.get? e.row = some x) (hlimb : Limb w e x.context slot)
    (hhoard : Hoard ρ w e x.context slot) (hslots : x.slots = done ++ slot :: rest) {last : Repetition}
    (hlast : slot.memory = .repeated (some last))
    (hrun : (Build.reuse e done.length slot.node last .headless).run.runIn enter w = (some (.ok es), w'))
    (hmemory : w'.elements.get? e.row = some { x with slots := done ++ ⟨slot.node, memory⟩ :: rest })
    (ho : w'.store.Grows o) {s₀ : World σ} {name : String} {resolver : Resolver}
    (hrepetition : slot.node.repetition = some (name, resolver)) {list : Value} {items : List Value}
    (hlist : (Build.listOf (.object (.scope m' e) :: x.context) resolver).run.runIn enter s₀ =
      (some (.ok (list, items)), s)) (hsame : last.list.same list = true)
    (hlength : last.contexts.length = items.length) (i : Nat) :
    ∃ s', (Build.evaluate e i ⟨slot.node, memory⟩ (.object (.scope m' e) :: x.context)
        .headless).run.runIn enter s₀ = (some (.ok es), s') ∧
      ρ.Resumed o slot.node e e x.context x.context es es w' s' := by
  have hretains := hhoard.retains last hlast
  unfold Build.reuse at hrun
  obtain ⟨bs, w₁, hconditions, hrun⟩ := Build.runIn_bindE_eq_ok hrun
  have hlooked : Looked w w₁ := hharmless.conditions slot.node last.contexts w _ w₁ hconditions
  have hx₁ := hlooked.touches.get? hx id
  by_cases heq : bs = last.conditions
  · subst heq
    rw [if_pos (beq_self_eq_true _)] at hrun
    cases hrun
    obtain rfl := memory_eq_self hslots hmemory hx₁
    obtain ⟨s', ρ', hright, hadvances⟩ := h.recall hinnocent hharmless hfits hrepetition hlist last hsame hlength
      hretains.contexts hconditions
    rw [hlast]
    refine ⟨s', hright, ρ', hadvances.step.le, hadvances.step.stores,
      h.straddles.extended hadvances.step.extends_ h.later, List.forall₂_same.mpr fun c hc => ?_⟩
    refine .of_limb (hlimb.retained hlooked.touches.retains fun _ _ _ _ => id)
      (hhoard.touched hlimb hadvances.step.le hlooked.touches fun _ _ _ _ => id) ?_
    rw [Slot.elements, hlast]
    exact hc
  · rw [if_neg (by simpa using heq)] at hrun
    obtain ⟨⟨⟩, w₂, hmessage, hrun⟩ := Build.runIn_bindE_eq_ok hrun
    obtain ⟨made, w₃, hcreate, hlodge⟩ := Build.runIn_bindE_eq_ok hrun
    rw [Build.settle_eq] at hlodge
    have hlooked₂ : Looked w₁ w₂ := Looks.message .trace (.pure _) _ _ _ (Build.runIn_lift_eq_ok hmessage)
    have hx₂ := hlooked₂.touches.get? hx₁ id
    obtain ⟨hcreated, -⟩ := (Build.createAll_ends hharmless.rules w₂ slot.node _).ok hcreate
    obtain ⟨rfl, hlodged, hx₄⟩ := Build.runIn_lodge_eq_ok (hcreated.touches.get? hx₂ id) hlodge
    obtain rfl := memory_eq hslots hmemory hx₄
    have ho₂ := (hcreated.touches.store.trans hlodged.store).trans ho
    obtain ⟨s', ρ', hright, hadvances⟩ := h.recall hinnocent hharmless hfits hrepetition hlist
      { last with conditions := bs, elements := es } hsame hlength hretains.contexts hconditions
    have h₂ := (h.advance hadvances (hlooked₂.touches.store.trans ho₂)).left hlooked₂ ho₂
    obtain ⟨-, -, hresumed⟩ := h₂.renew hinnocent hharmless hfits hx₂ (fun context hmem =>
      (hretains.contexts context (mem_of_mem_shown hmem)).mono hadvances.step.le) hcreate hlodge ho
    exact ⟨s', hright, hresumed.mono hadvances.step.le⟩

/-- A value that is the same as one with items is equal to it. -/
theorem eq_of_same {list list' : Value} (hsame : list.same list' = true) {t : Store} {items : List Value}
    (hwalk : t.walk? list' = some items) : list = list' := by
  cases list' with
  | undefined => cases list <;> simp_all [Value.same]
  | null => cases list <;> simp_all [Value.same]
  | str => exact Value.eq_of_same_str hsame
  | array => exact Value.eq_of_same_array hsame
  | _ => cases hwalk

/-- A list that the first run shows from nothing, and that is the same in the second run: there the records are
found that the first run has made for the items. -/
theorem Rerun.revisit (hinnocent : Innocent D enter) (hharmless : Harmless enter)
    (h : Rerun ρ D o asked known hidden loose e x.context w s)
    (hfits : Fits D asked known hidden loose child) (hx : w.elements.get? e.row = some x) {name : String}
    {resolver : Resolver} (hrepetition : child.repetition = some (name, resolver)) {last : Repetition}
    {items items' : List Value} (hvalues : ρ.Values last.list last.list)
    (hitems : List.Forall₂ ρ.Values items items') (hwalk : w.store.walk? last.list = some items) {s₀ : World σ}
    (hlist : (Build.listOf (.object (.scope m' e) :: x.context) resolver).run.runIn enter s₀ =
      (some (.ok (last.list, items')), s)) (hsame : last.list.same last.list = true)
    (hunrolls : Build.Unrolls enter child name (.object (.scope m e) :: x.context) e i' items last w w₁ w₂ w₃ w₄
      w') (hw₂ : Looked w₁ w₂) (ho₃ : w₃.store.Grows o) (ho : w'.store.Grows o) (i : Nat) :
    ∃ s', (Build.evaluate e i ⟨child, .repeated (some last)⟩ (.object (.scope m' e) :: x.context)
        .headless).run.runIn enter s₀ = (some (.ok last.elements), s') ∧
      ρ.Resumed o child e e x.context x.context last.elements last.elements w' s' := by
  obtain ⟨hw₁, hframes, hconditions, hcreate, hlodge⟩ := hunrolls
  have hw₃ : Looked w₂ w₃ := hharmless.conditions child last.contexts w₂ _ w₃ hconditions
  have ho₂ := hw₃.touches.store.trans ho₃
  have hx₃ := ((hw₁.trans hw₂).trans hw₃).touches.get? hx id
  have hlength : last.contexts.length = items.length := by
    obtain ⟨contexts', w₂', hframes', -, hall⟩ :=
      runIn_frames enter name (.object (.scope m e) :: x.context) items w₁
    cases (Build.runIn_lift_eq_ok hframes).symm.trans hframes'
    exact hall.length_eq
  have hself : List.Forall₂ ρ.diag.link.Values items items := by
    have hrel := (h.self 0).worlds.stores.walk? hvalues.diag
    rw [hwalk] at hrel
    cases hrel with
    | some hall => exact hall
  have h₁ := h.left hw₁ (hw₂.touches.store.trans ho₂)
  obtain ⟨ρ₂, hgoes, hcontexts⟩ :=
    ((h₁.self m).worlds.frames name m m e e x.context x.context hself).liftE.tracks.self hframes
  obtain ⟨ρ₃, hle, h₂, hfound⟩ := h₁.widen (.of_goes hgoes) ho₂
  have hfronts : ∀ context ∈ last.contexts, ρ₃.Fronts e e x.context x.context context context :=
    fun context hmem => (List.forall₂_same.mp hcontexts context hmem).transfer hfound
  obtain ⟨s', ρ₄, hright, hadvances⟩ := h₂.recall hinnocent hharmless hfits hrepetition hlist last hsame
    (hlength.trans hitems.length_eq) hfronts hconditions
  obtain ⟨-, -, hresumed⟩ := (h₂.advance hadvances ho₃).renew hinnocent hharmless hfits hx₃
    (fun context hmem => (hfronts context (mem_of_mem_shown hmem)).mono hadvances.step.le) hcreate hlodge ho
  exact ⟨s', hright, hresumed.mono (Link.le_trans hle hadvances.step.le)⟩

/-- A list that the first run shows from nothing. -/
theorem Rerun.rebuild (hinnocent : Innocent D enter) (hharmless : Harmless enter)
    (h : Rerun ρ D o asked known hidden loose e x.context w s)
    (hfits : Fits D asked known hidden loose slot.node)
    (hx : w.elements.get? e.row = some x) (hx' : s.elements.get? e.row = some x')
    (hcontext : x'.context = x.context) (hslots : x.slots = done ++ slot :: rest) {name : String}
    {resolver : Resolver} (hrepetition : slot.node.repetition = some (name, resolver))
    {list list' : Value} {items items' : List Value} (hvalues : ρ.Values list list')
    (hitems : List.Forall₂ ρ.Values items items') (hwalk : w.store.walk? list = some items)
    (hwalk' : s.store.walk? list' = some items') {s₀ : World σ}
    (hlist : (Build.listOf (.object (.scope m' e) :: x.context) resolver).run.runIn enter s₀ =
      (some (.ok (list', items')), s))
    (hrun : (Build.spread slot.node .headless name (.object (.scope m e) :: x.context) list items >>=
      Build.settle e done.length).run.runIn enter w = (some (.ok es), w'))
    (hmemory : w'.elements.get? e.row = some { x with slots := done ++ ⟨slot.node, memory⟩ :: rest })
    (ho : w'.store.Grows o) (i : Nat) :
    ∃ es' s', (Build.evaluate e i ⟨slot.node, memory⟩ (.object (.scope m' e) :: x.context)
        .headless).run.runIn enter s₀ = (some (.ok es'), s') ∧
      ρ.Resumed o slot.node e e x.context x.context es es' w' s' := by
  obtain ⟨contexts, bs, w₁, w₂, w₃, w₄, hunrolls⟩ := Build.unrolls_of_spread hrun
  have hw₂ : Looked w₁ w₂ := Looks.frames _ _ _ _ _ _ (Build.runIn_lift_eq_ok hunrolls.frames)
  have hw₃ : Looked w₂ w₃ := hharmless.conditions slot.node contexts w₂ _ w₃ hunrolls.conditions
  obtain ⟨hw₄, -⟩ := (Build.createAll_ends hharmless.rules w₃ slot.node _).ok hunrolls.created
  have hx₃ := ((hunrolls.noticed.trans hw₂).trans hw₃).touches.get? hx id
  obtain ⟨-, hw₅, hx₅⟩ := Build.runIn_lodge_eq_ok (hw₄.touches.get? hx₃ id) hunrolls.lodged
  obtain rfl := memory_eq hslots hmemory hx₅
  by_cases hsame : list.same list' = true
  · obtain rfl := eq_of_same hsame hwalk'
    exact ⟨es, h.revisit hinnocent hharmless hfits hx hrepetition hvalues hitems hwalk hlist hsame hunrolls hw₂
      ((hw₄.touches.store.trans hw₅.store).trans ho) ho i⟩
  · rw [Build.runIn_evaluate_anew hrepetition hlist ⟨list, contexts, bs, es⟩ hsame]
    have hnear : ρ.Near D (Uncovered asked hidden) loose (.object (.scope m e) :: x.context)
        (.object (.scope m' e) :: x'.context) w s := by
      rw [hcontext]
      exact h.near m m'
    obtain ⟨es', s', hright, ρ', hextends, hstores, hall⟩ := hnear.spread_settle hinnocent hharmless hfits
      hx hx' name list list' hitems es w' hrun
    rw [hcontext] at hright hall
    exact ⟨es', s', hright, ρ', hextends.le, hstores, h.straddles.extended hextends h.later,
      hall.imp fun _ _ => .made⟩

/-- The slot of a list in the first run and in the second one. -/
theorem Rerun.evaluateRepeated {node : Node Resolver} (hinnocent : Innocent D enter)
    (hharmless : Harmless enter) (h : Rerun ρ D o asked known hidden loose e x.context w s)
    (hfits : Fits D asked known hidden loose slot.node) (hnursed : Nursed w node e x)
    (hx' : s.elements.get? e.row = some x') (hcontext : x'.context = x.context)
    (hhoard : Hoard ρ w e x.context slot) (hslots : x.slots = done ++ slot :: rest)
    {last : Option Repetition} (hlast : slot.memory = .repeated last) {name : String} {resolver : Resolver}
    (hrepetition : slot.node.repetition = some (name, resolver))
    (hrun : (Build.evaluateRepeated e done.length slot.node name resolver last
      (.object (.scope m e) :: x.context) .headless).run.runIn enter w = (some (.ok es), w'))
    (hmemory : w'.elements.get? e.row = some { x with slots := done ++ ⟨slot.node, memory⟩ :: rest })
    (ho : w'.store.Grows o) (i m' : Nat) :
    ∃ es' s', (Build.evaluate e i ⟨slot.node, memory⟩ (.object (.scope m' e) :: x.context)
        .headless).run.runIn enter s = (some (.ok es'), s') ∧
      ρ.Resumed o slot.node e e x.context x.context es es' w' s' := by
  unfold Build.evaluateRepeated at hrun
  obtain ⟨⟨list, items⟩, w₁, hlist, hrun⟩ := Build.runIn_bindE_eq_ok hrun
  obtain ⟨⟨list', items'⟩, s₁, hlist', ρ₁, hgoes, hvalues, hitems⟩ := ((h.near m m').listOf hinnocent hharmless
    (hfits.repetition name resolver hrepetition)).tracks _ w₁ hlist
  have h₁ := Advances.of_goes hgoes
  have hlooked : Looked w w₁ := hharmless.listOf _ _ w _ w₁ hlist
  have hnursed₁ := hnursed.looked hlooked
  have hx₁' := h₁.step.right.get? hx' id
  have hwalk := Build.walk?_of_listOf hlist
  have hwalk' := Build.walk?_of_listOf hlist'
  have hanew : (Build.spread slot.node .headless name (.object (.scope m e) :: x.context) list items >>=
      Build.settle e done.length).run.runIn enter w₁ = (some (.ok es), w') →
      ∃ es' s', (Build.evaluate e i ⟨slot.node, memory⟩ (.object (.scope m' e) :: x.context)
          .headless).run.runIn enter s = (some (.ok es'), s') ∧
        ρ.Resumed o slot.node e e x.context x.context es es' w' s' := fun hrun => by
    obtain ⟨-, hw', -⟩ := (hnursed₁.anew_ends hharmless.rules hslots hrepetition list items).ok hrun
    obtain ⟨es', s', hright, hresumed⟩ := (h.advance h₁ (hw'.touches.store.trans ho)).rebuild hinnocent
      hharmless hfits hnursed₁.get hx₁' hcontext hslots hrepetition hvalues hitems hwalk hwalk' hlist' hrun
      hmemory ho i
    exact ⟨es', s', hright, hresumed.mono h₁.step.le⟩
  cases last with
  | none => exact hanew hrun
  | some last =>
    dsimp only at hrun
    split at hrun
    · next hkept =>
      obtain ⟨hsame, hlength⟩ := Bool.and_eq_true_iff.mp hkept
      obtain rfl := eq_of_same hsame hwalk
      obtain ⟨⟨⟩, w₂, hnote, hreuse⟩ := Build.runIn_bindE_eq_ok hrun
      have hnoted : Looked w₁ w₂ := Looks.noteKept last _ _ _ (Build.runIn_lift_eq_ok hnote)
      have hnursed₂ := hnursed₁.looked hnoted
      obtain ⟨-, hw', -⟩ := (hnursed₂.reuse_ends hharmless.rules hslots hrepetition hlast).ok hreuse
      have ho₂ := hw'.touches.store.trans ho
      obtain rfl : last.list = list' :=
        (((hhoard.retains last hlast).list).mono h₁.step.le).unique hvalues
      obtain ⟨s', hright, hresumed⟩ := ((h.advance h₁ (hnoted.touches.store.trans ho₂)).left hnoted ho₂).reuse
        hinnocent hharmless hfits hnursed₂.get (hnursed₂.limb hslots) (hhoard.touched (hnursed.limb hslots)
          h₁.step.le (hlooked.trans hnoted).touches fun _ _ _ _ => id) hslots hlast hreuse hmemory ho
        hrepetition hlist' hsame ((beq_iff_eq.mp hlength).trans hitems.length_eq) i
      exact ⟨es, s', hright, hresumed.mono h₁.step.le⟩
    · exact hanew hrun

/-- **Slots.** What the first run leaves in a slot the second one evaluates again: it answers with children
that are the same, or come in pairs. -/
theorem Rerun.evaluate {node : Node Resolver} (hinnocent : Innocent D enter) (hharmless : Harmless enter)
    (h : Rerun ρ D o asked known hidden loose e x.context w s)
    (hfits : Fits D asked known hidden loose slot.node)
    (hnursed : Nursed w node e x) (hx' : s.elements.get? e.row = some x') (hcontext : x'.context = x.context)
    (hhoard : Hoard ρ w e x.context slot) (hslots : x.slots = done ++ slot :: rest)
    (hrun : (Build.evaluate e done.length slot (.object (.scope m e) :: x.context)
      .headless).run.runIn enter w = (some (.ok es), w'))
    (hmemory : w'.elements.get? e.row = some { x with slots := done ++ ⟨slot.node, memory⟩ :: rest })
    (ho : w'.store.Grows o) (i m' : Nat) :
    ∃ es' s', (Build.evaluate e i ⟨slot.node, memory⟩ (.object (.scope m' e) :: x.context)
        .headless).run.runIn enter s = (some (.ok es'), s') ∧
      ρ.Resumed o slot.node e e x.context x.context es es' w' s' := by
  have hlimb := hnursed.limb hslots
  have hlodges := hlimb.lodges
  unfold Build.evaluate at hrun
  cases hlast : slot.memory with
  | single cached =>
    rw [hlast] at hrun
    exact h.evaluateSingle hinnocent hharmless hfits hnursed.get hx' hlimb hhoard hslots hlast hrun hmemory
      ho i m'
  | repeated last =>
    obtain ⟨name, resolver, hrepetition⟩ :
        ∃ name resolver, slot.node.repetition = some (name, resolver) := by
      rw [hlast] at hlodges
      cases hlodges <;> exact ⟨_, _, ‹_›⟩
    rw [hlast, hrepetition] at hrun
    exact h.evaluateRepeated hinnocent hharmless hfits hnursed hx' hcontext hhoard hslots hlast hrepetition
      hrun hmemory ho i m'

end

end Link

end ReactiveViews
