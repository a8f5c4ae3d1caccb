import ReactiveViews.Proofs.Live.Raising

/-!
# Filling elements

What the updater of a node does to an element on its first run. The slots remember nothing, so each
child node makes the elements that it comes to, which the slot keeps and the element shows, and then
the bound attributes are set. On the other side the buds of the child nodes sprout, and the values of
the bound attributes are written.

The elements that are made for a slot are touched no more while the later ones are filled; what is
touched is the element itself, which is in a row before theirs.

## What is proved

A slot that remembers nothing makes elements that are ready for the buds of its node
(`Shooting.evaluate`), and so do all slots together (`Shooting.fill`). The first run of an updater
answers like the first half of finishing a bud (`Shooting.refresh`).
-/

namespace ReactiveViews

variable {σ α : Type}

/-! ### What is held and kept -/

theorem count_foldl_erase {e : ElementId} {es : List ElementId} (he : e ∉ es) (held : List ElementId) :
    (es.foldl List.erase held).count e = held.count e := by
  induction es generalizing held with
  | nil => rfl
  | cons c rest ih =>
    obtain ⟨hne, hrest⟩ := not_or.mp (mt List.mem_cons.mpr he)
    rw [List.foldl_cons, ih hrest, List.count_erase_of_ne hne]

theorem mem_or_of_mem_modify {f : α → α} {i : Nat} {l : List α} {a : α} (h : a ∈ l.modify i f) :
    a ∈ l ∨ ∃ b ∈ l, a = f b := by
  obtain ⟨j, hj⟩ := List.mem_iff_getElem?.mp h
  rw [List.getElem?_modify] at hj
  obtain ⟨b, hb, hba⟩ := Option.map_eq_some_iff.mp hj
  have hmem := List.mem_of_getElem? hb
  split at hba
  · exact .inr ⟨b, hmem, hba.symm⟩
  · exact .inl (hba ▸ hmem)

namespace Overlays

variable {n : Nat} {w s : World σ} {es : List ElementId}

/-- New elements are held. -/
theorem hold (h : Overlays n w s) (hes : ∀ c ∈ es, n ≤ c.row) :
    Overlays n { w with held := es ++ w.held } s := by
  refine h.withHeld fun e he => ?_
  have hmem : e ∉ es := fun hmem => Nat.not_lt.mpr (hes e hmem) he
  rw [List.count_append, List.count_eq_zero_of_not_mem hmem, Nat.zero_add, h.held e he]

/-- New elements are let go. -/
theorem release (h : Overlays n w s) (hes : ∀ c ∈ es, n ≤ c.row) :
    Overlays n { w with held := es.foldl List.erase w.held } s := by
  refine h.withHeld fun e he => ?_
  have hmem : e ∉ es := fun hmem => Nat.not_lt.mpr (hes e hmem) he
  rw [count_foldl_erase hmem, h.held e he]

end Overlays

/-! ### Slots -/

namespace Shooting

variable {n lo : Nat} {node child : Node Resolver} {C C' : Context} {u u' : Option Updater}
  {fields fields' : Fields Value} {below below' : List ElementId} {e : ElementId} {x : Element}
  {v w w' s s' : World σ} {enter : Enter σ} {es : List ElementId} {buds : List Bud}

/-- The element is altered, and what it keeps is new. -/
theorem alters (h : Shooting n node C C' u fields below e w s) {act : Act σ α} {a : α}
    (hact : ∀ x d, w.Raised node C u fields below e x d → ∃ y d', Alters enter w e act a y ∧
      (∀ c, y.keeps c = true → x.keeps c = true ∨ n ≤ c.row) ∧
      ∀ w' : World σ, w'.elements.get? e.row = some y → w'.Raised node C u' fields' below' e y d') :
    ∃ w', act.runIn enter w = (some a, w') ∧ Touches (· = e) w w' ∧
      Shooting n node C C' u' fields' below' e w' s := by
  obtain ⟨x, d, hraised⟩ := h.raised
  obtain ⟨y, d', halters, hkeeps, hraised'⟩ := hact x d hraised
  obtain ⟨w', hrun, hw, hy, hworlds⟩ := h.worlds.alters hraised.get h.new halters hkeeps
  exact ⟨w', hrun, hw.touches, h.next hw.touches hworlds (hraised' w' hy)⟩

/-- A slot is written. -/
theorem remember (enter : Enter σ) (h : Shooting n node C C' u fields below e w s) (i : Nat)
    {memory : Memory} (hmemory : ∀ node, ∀ c ∈ (Slot.mk node memory).elements, n ≤ c.row) :
    ∃ w', (Build.remember e i memory).runIn enter w = (some (), w') ∧ Touches (· = e) w w' ∧
      Shooting n node C C' u fields below e w' s := by
  refine h.alters fun x d hraised => ⟨_, d, .updateElement hraised.get _ fun _ => rfl, ?_, ?_⟩
  · intro c hc
    rcases Element.keeps_iff.mp hc with hchild | ⟨slot, hslot, hmem⟩
    · exact .inl (Element.keeps_iff.mpr (.inl hchild))
    · rcases mem_or_of_mem_modify hslot with hslot | ⟨old, -, rfl⟩
      · exact .inl (Element.keeps_iff.mpr (.inr ⟨slot, hslot, hmem⟩))
      · exact .inr (hmemory old.node c hmem)
  · exact fun w' hy => { hraised with get := hy }

/-- The element has been touched, and those that have been made are still ready. -/
theorem brood (h : Shooting n node C C' u fields below e w' s) (htame : node.Tame n)
    (hw : Touches (· = e) w w') (he : e.row < lo) (hbrood : Brood n lo node.names v w es buds) :
    Brood n lo node.names v w' es buds := by
  refine hbrood.touched hw (fun c hc hce => ?_) fun c _ hce => ?_
  · exact absurd (hce ▸ hbrood.row hc) (Nat.not_le.mpr he)
  · obtain ⟨y, d, hraised⟩ := h.raised
    exact hce ▸ hraised.hides htame.captureFree

/-- Elements that have been made are written into a slot, which keeps them from now on. -/
theorem keep (enter : Enter σ) (h : Shooting n node C C' u fields below e w s) (i : Nat)
    {memory : Memory} (hmemory : ∀ node, (Slot.mk node memory).elements = es) (hlo : n ≤ lo)
    (he : e.row < lo) (htame : node.Tame n) (hbrood : Brood n lo node.names v w es buds) :
    ∃ w', (do
        Build.act (Build.remember e i memory)
        Build.act (Act.release es)
        return es : Build σ (List ElementId)).run.runIn enter w = (some (.ok es), w') ∧
      Touches (· = e) w w' ∧
      Shooting n node C C' u fields below e w' s ∧ Brood n lo node.names v w' es buds := by
  have hnew : ∀ c ∈ es, n ≤ c.row := fun c hc => Nat.le_trans hlo (hbrood.row hc)
  obtain ⟨w₁, hrun, hw₁, h₁⟩ := h.remember enter i fun node => hmemory node ▸ hnew
  have hw : Touches (· = e) w { w₁ with held := es.foldl List.erase w₁.held } :=
    hw₁.trans (.of_held w₁ _)
  obtain ⟨x, d, hraised⟩ := h₁.raised
  have h₂ := h.next hw (h₁.worlds.release hnew) { hraised with }
  refine ⟨_, ?_, hw, h₂, h₂.brood htame hw he hbrood⟩
  rw [Build.runIn_bindE_ok (Act.runIn_lift hrun)]
  rfl

end Shooting

namespace Build

/-- A slot of a single child that remembers nothing makes it if it is shown, and remembers it. -/
theorem evaluate_fresh_single (e : ElementId) (i : Nat) {child : Node Resolver}
    (hrepetition : child.repetition = none) (C : Context) (factory : Factory) :
    (evaluate e i (.fresh child) C factory : Build σ (List ElementId)) =
      (do
        if ← eval (Eval.shows C child) then return [← create child C factory] else return []) >>=
      fun es => do
        act (remember e i (.single es.head?))
        act (Act.release es)
        return es := by
  have hnone : (act (Act.release []) : Build σ Unit) = pure () := rfl
  have hfresh : Slot.fresh child = ⟨child, .single none⟩ := by rw [Slot.fresh, hrepetition]; rfl
  rw [hfresh, bind_assoc]
  show evaluateSingle e i child none C factory = _
  unfold evaluateSingle
  refine congrArg _ (funext fun shows => ?_)
  cases shows <;> simp [hnone]

/-- A slot of a list that remembers nothing makes its elements, and remembers them. -/
theorem evaluate_fresh_repeated (e : ElementId) (i : Nat) {child : Node Resolver} {name : String}
    {resolver : Resolver} (hrepetition : child.repetition = some (name, resolver)) (C : Context)
    (factory : Factory) :
    (evaluate e i (.fresh child) C factory : Build σ (List ElementId)) =
      (do
        let (list, items) ← listOf C resolver
        spread child factory name C list items) >>=
      settle e i := by
  have hfresh : Slot.fresh child = ⟨child, .repeated none⟩ := by rw [Slot.fresh, hrepetition]; rfl
  rw [hfresh, bind_assoc]
  unfold evaluate
  simp only [hrepetition]
  rfl

end Build

namespace Shooting

variable {n lo : Nat} {node child : Node Resolver} {C C' : Context} {u : Option Updater}
  {fields : Fields Value} {below : List ElementId} {e : ElementId} {w w' s s' : World σ}
  {enter : Enter σ} {es : List ElementId} {buds : List Bud}

/-- A slot that remembers nothing makes elements that are ready for the buds of its node. -/
theorem evaluate (hobl : Oblivious n enter) (htame : node.Tame n) (hchild : child ∈ node.children)
    (h : Shooting n node C C' u fields below e w s) (hlo : lo ≤ w.elements.size) (hnlo : n ≤ lo)
    (he : e.row < lo) (hC : ∀ c ∈ Context.elements C, c.row < lo) (m i : Nat) :
    Answers (Tally fun es buds w' s' => Touches (· = e) w w' ∧
        Shooting n node C C' u fields below e w' s' ∧ Brood n lo node.names w w' es buds)
      ((Build.evaluate e i (.fresh child) (.object (.scope m e) :: C) .headless).run.runIn enter w)
      ((Build.buds child C').run.runIn enter s) := by
  have hinside := h.inside htame.captureFree m
  have hnames := Node.names_subset hchild
  have haround : ∀ c ∈ Context.elements (.object (.scope m e) :: C), c.row < lo :=
    List.forall_mem_cons.mpr ⟨he, hC⟩
  -- whatever has been made, it is written into the slot
  have hkeep : ∀ (memory : Memory) {es buds w₁ s₁}, (∀ node, (Slot.mk node memory).elements = es) →
      Bred n lo node.names child w es buds w₁ s₁ →
      ∃ w₂, (do
          Build.act (Build.remember e i memory)
          Build.act (Act.release es)
          return es : Build σ (List ElementId)).run.runIn enter w₁ = (some (.ok es), w₂) ∧
        Touches (· = e) w w₂ ∧ Shooting n node C C' u fields below e w₂ s₁ ∧
          Brood n lo node.names w w₂ es buds := by
    rintro memory es buds w₁ s₁ hmemory ⟨hw₁, hworlds₁, hbrood, -⟩
    have h₁ : Shooting n node C C' u fields below e w₁ s₁ :=
      h.goes (i := ()) (j := ()) ⟨hworlds₁, hw₁⟩
    obtain ⟨w₂, hrun, hw₂, h₂, hbrood₂⟩ := h₁.keep enter i hmemory hnlo he htame hbrood
    exact ⟨w₂, hrun, (Touches.of_none hw₁).trans hw₂, h₂, hbrood₂⟩
  cases hrepetition : child.repetition with
  | none =>
    rw [Build.evaluate_fresh_single e i hrepetition]
    refine (Faces.single hobl (htame.child hchild) hnames hrepetition hinside hlo haround).thenLeft ?_
    rintro es buds w₁ s₁ ⟨hhead, hbred⟩
    obtain ⟨w₂, hrun, hkept⟩ := hkeep (.single es.head?) (fun _ => hhead) hbred
    exact ⟨es, w₂, hrun, hkept⟩
  | some repetition =>
    obtain ⟨name, resolver⟩ := repetition
    rw [Build.evaluate_fresh_repeated e i hrepetition]
    refine (Faces.repeated hobl (htame.child hchild) hnames hrepetition hinside hlo haround).thenLeft ?_
    rintro last buds w₁ s₁ hbred
    obtain ⟨w₂, hrun, hkept⟩ := hkeep (.repeated (some last)) (fun _ => rfl) hbred
    exact ⟨last.elements, w₂, hrun, hkept⟩

/-- New children are shown after those that are shown already. -/
theorem append (enter : Enter σ) (h : Shooting n node C C' u fields below e w s)
    (hes : ∀ c ∈ es, n ≤ c.row) :
    ∃ w', (Build.append e es).run.runIn enter w = (some (.ok ()), w') ∧ Touches (· = e) w w' ∧
      Shooting n node C C' u fields (below ++ es) e w' s := by
  induction es generalizing w below with
  | nil => exact ⟨w, rfl, .refl w, (List.append_nil below).symm ▸ h⟩
  | cons c rest ih =>
    obtain ⟨hc, hrest⟩ := List.forall_mem_cons.mp hes
    obtain ⟨w₁, hrun₁, hw₁, h₁⟩ : ∃ w₁, (Build.component (Act.appendChild e c)).run.runIn enter w =
        (some (.ok ()), w₁) ∧ Touches (· = e) w w₁ ∧
          Shooting n node C C' u fields (below ++ [c]) e w₁ s := by
      refine h.alters fun x d hraised => ⟨_, d.mount c, .component (.appendChild hraised.get hraised.idle
        hraised.component c), fun k hk => ?_, fun w' hy => ?_⟩
      · rcases Element.keeps_iff.mp hk with hchild | hslot
        · rcases List.mem_append.mp hchild with hchild | hmem
          · exact .inl (Element.keeps_iff.mpr (.inl hchild))
          · exact .inr (List.mem_singleton.mp hmem ▸ hc)
        · exact .inl (Element.keeps_iff.mpr (.inr hslot))
      · exact { hraised with
          get := hy, component := rfl
          children := by rw [hraised.children], mounted := by rw [Headless.mount, hraised.mounted]}
    obtain ⟨w₂, hrun₂, hw₂, h₂⟩ := ih h₁ hrest
    refine ⟨w₂, ?_, hw₁.trans hw₂, ?_⟩
    · unfold Build.append
      rw [Build.runIn_bindE_ok hrun₁, hrun₂]
    · rwa [List.append_assoc, List.singleton_append] at h₂

/-- Slots that remember nothing make elements that are ready for the buds of their nodes, and the
element shows them. -/
theorem fill (hobl : Oblivious n enter) (htame : node.Tame n) {children : List (Node Resolver)}
    (hchildren : children ⊆ node.children) (h : Shooting n node C C' u fields below e w s)
    (hlo : lo ≤ w.elements.size) (hnlo : n ≤ lo) (he : e.row < lo)
    (hC : ∀ c ∈ Context.elements C, c.row < lo) (m i : Nat) :
    Answers (Tally fun _ buds w' s' => Touches (· = e) w w' ∧ ∃ es,
        Shooting n node C C' u fields (below ++ es) e w' s' ∧ Brood n lo node.names w w' es buds)
      ((Build.fill e (.object (.scope m e) :: C) .headless i (children.map .fresh)).run.runIn enter w)
      ((Build.budsAll C' children).run.runIn enter s) := by
  induction children generalizing below w s i with
  | nil => exact .both (.ok ⟨.refl w, [], (List.append_nil below).symm ▸ h, .nil⟩)
  | cons child rest ih =>
    obtain ⟨hchild, hrest⟩ := List.cons_subset.mp hchildren
    unfold Build.budsAll
    rw [List.map_cons, Build.fill]
    refine Answers.bindE (h.evaluate hobl htame hchild hlo hnlo he hC m i) ?_
    rintro es₁ buds₁ w₁ s₁ ⟨hw₁, h₁, hbrood₁⟩
    obtain ⟨w₂, hrun, hw₂, h₂⟩ := h₁.append enter fun c hc =>
      Nat.le_trans hnlo (hbrood₁.row hc)
    have hbrood₂ := h₂.brood htame hw₂ he hbrood₁
    have hw : Touches (· = e) w w₂ := hw₁.trans hw₂
    rw [Build.runIn_bindE_ok hrun]
    refine Answers.thenRight (ih hrest h₂ (Nat.le_trans hlo hw.size_le) (i + 1)) ?_
    rintro _ buds w₃ s₃ ⟨hw₃, es, h₃, hbrood⟩
    refine ⟨_, s₃, rfl, hw.trans hw₃, es₁ ++ es, (List.append_assoc below es₁ es) ▸ h₃, ?_⟩
    exact (h₃.brood htame hw₃ he hbrood₂).append hbrood hw.size_le fun c hc => hbrood₂.lt_size hc

/-- The bound attributes are set when the children are there. -/
theorem dress (hobl : Oblivious n enter) (htame : node.Tame n) {v : World σ}
    (h : Shooting n node C C' u fields es e w s) (he : e.row < lo)
    (hbrood : Brood n lo node.names v w es buds) (m : Nat) :
    Answers (Tally fun _ (r : List Bud × Fields Value) w' s' => Touches (· = e) w w' ∧ ∃ es,
        Shooting n node C C' u r.2 es e w' s' ∧ Brood n lo node.names v w' es r.1)
      ((Build.assign e (.object (.scope m e) :: C) node.bind).run.runIn enter w)
      ((do
        let attributes ← Build.dress C' node.bind fields
        return (buds, attributes) : Build σ (List Bud × Fields Value)).run.runIn enter s) := by
  refine (h.assign hobl htame m (List.subset_append_right _ _)).thenRight ?_
  rintro _ fields' w₁ s₁ ⟨hw₁, h₁⟩
  exact ⟨_, s₁, rfl, hw₁, es, h₁, h₁.brood htame hw₁ he hbrood⟩

/-- The first run of the updater answers like the first half of finishing a bud. -/
theorem refresh (hobl : Oblivious n enter) (htame : node.Tame n) {x : Element}
    (hx : w.elements.get? e.row = some x) (hslots : x.slots = node.children.map .fresh)
    (h : Shooting n node C C' u fields [] e w s)
    (hC : ∀ c ∈ Context.elements C, c.row < w.elements.size) :
    Answers (Tally fun _ (r : List Bud × Fields Value) w' s' => Touches (· = e) w w' ∧ ∃ es,
        Shooting n node C C' u r.2 es e w' s' ∧
          Brood n w.elements.size node.names w w' es r.1)
      ((Build.refresh e node .headless).run.runIn enter w)
      ((do
        let buds ← Build.budsAll C' node.children
        let attributes ← Build.dress C' node.bind fields
        return (buds, attributes) : Build σ (List Bud × Fields Value)).run.runIn enter s) := by
  have he : e.row < w.elements.size := Table.lt_size_of_get? hx
  have hsize := h.worlds.size_le
  obtain ⟨y, d, hraised⟩ := h.raised
  obtain rfl : y = x := Option.some.inj (hraised.get.symm.trans hx)
  obtain ⟨w₁, hrun₁, hedits₁, hy₁⟩ : Alters enter w e (Act.contextOf e) _ y := .contextOf hx
  rw [hraised.context] at hrun₁
  have hw₁ : Touches (· = e) w w₁ := hedits₁.touches
  have hworlds₁ : Overlays n w₁ s := h.worlds.edits hedits₁.toEdits h.new fun z hz c hc => by
    obtain rfl := Option.some.inj (hz.symm.trans hy₁)
    exact h.worlds.new e z h.new hx c hc
  have h₁ := h.next hw₁ hworlds₁ { hraised with get := hy₁ }
  unfold Build.refresh
  rw [Build.runIn_bindE_ok (Act.runIn_lift hrun₁),
    Build.runIn_bindE_ok (Act.runIn_lift (Act.runIn_element hy₁)), hslots]
  cases hchildren : node.children with
  | nil =>
    refine Answers.imp (h₁.dress hobl htame he (Brood.nil (u := w)) w.marks) fun _ _ _ _ htally => ?_
    exact htally.imp fun _ _ ⟨hw₂, hrest⟩ => ⟨hw₁.trans hw₂, hrest⟩
  | cons child rest =>
    obtain ⟨w₂, hrun₂, hw₂, h₂⟩ : ∃ w₂, (Build.component (Act.clearChildren e)).run.runIn enter w₁ =
        (some (.ok ()), w₂) ∧ Touches (· = e) w₁ w₂ ∧ Shooting n node C C' u fields [] e w₂ s := by
      refine h₁.alters fun y d hraised => ⟨_, d.clear, .component (.clearChildren hraised.get
        hraised.idle hraised.component), fun k hk => ?_, fun w' hy => ?_⟩
      · rcases Element.keeps_iff.mp hk with hchild | hslot
        · exact absurd hchild List.not_mem_nil
        · exact .inl (Element.keeps_iff.mpr (.inr hslot))
      · exact { hraised with get := hy, component := rfl, children := rfl, mounted := rfl }
    have hw : Touches (· = e) w w₂ := hw₁.trans hw₂
    have hfill := h₂.fill hobl htame (List.Subset.refl _) hw.size_le hsize he hC w.marks 0
    rw [hchildren] at hfill
    have hsome : (!((child :: rest).map Slot.fresh).isEmpty) = true := rfl
    dsimp only
    rw [if_pos hsome, Build.runIn_bindE_ok hrun₂]
    refine Answers.bindE hfill ?_
    rintro _ buds w₃ s₃ ⟨hw₃, es, h₃, hbrood⟩
    refine Answers.imp (h₃.dress hobl htame he (hbrood.since hw.size_le) w.marks)
      fun _ _ _ _ htally => ?_
    exact htally.imp fun _ _ ⟨hw₄, hrest⟩ => ⟨(hw.trans hw₃).trans hw₄, hrest⟩

end Shooting

end ReactiveViews
