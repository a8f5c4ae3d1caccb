import ReactiveViews.Proofs.Live.Standing
import ReactiveViews.Proofs.Live.Updating

/-!
# Updates leave trees standing

An element is *nursed* while its updater runs: slot after slot is evaluated, what the slots contribute is
shown, and the bound attributes are set. Wherever a failure ends this, the element is still one of its
node, it shows the first of what is in its slots, and the same elements are held as before.

## What is proved

**Updates** (`Host.update_stands`). An update of a standing tree touches nothing outside of it and leaves
it standing, whether it succeeds or fails. After a success every element shows what is in its slots.

**Building** (`Host.build_stands`). A building that succeeds gives a standing tree.
-/

namespace ReactiveViews

variable {σ α β ε : Type}

section

variable {K : Conduct σ} {enter : Enter σ} {w w' : World σ} {node : Node Resolver} {e : ElementId} {x y : Element}
  {done rest : List Slot} {slot : Slot} {m : Nat}

/-! ### Slots -/

/-- A slot is written. -/
theorem Nursed.remember (enter : Enter σ) (h : Nursed w node e x) (hslots : x.slots = done ++ slot :: rest)
    (memory : Memory) (hlimb : Limb w e x.context ⟨slot.node, memory⟩)
    (hnodup : (Slot.mk slot.node memory).elements.Nodup)
    (hfresh : ∀ c ∈ (Slot.mk slot.node memory).elements,
      c ∈ slot.elements ∨ c ∉ x.slots.flatMap Slot.elements) :
    ∃ w', (Build.remember e done.length memory).runIn enter w = (some (), w') ∧ Retouches e w w' ∧
      Nursed w' node e { x with slots := done ++ ⟨slot.node, memory⟩ :: rest } := by
  obtain ⟨w', hrun, hw, hx'⟩ : Alters enter w e (Build.remember e done.length memory) () _ :=
    .updateElement h.get _ fun _ => rfl
  rw [hslots, modify_append_cons] at hx'
  refine ⟨w', hrun, hw, hx', ?_, ?_, fun other hother => ?_⟩
  · obtain ⟨htag, hidle, hnodes, hcomponent⟩ := h.trunk
    refine ⟨htag, hidle, ?_, hcomponent⟩
    rw [← hnodes, hslots]
    simp
  · have hall := h.nodup
    rw [hslots] at hall hfresh
    simp only [List.flatMap_append, List.flatMap_cons] at hall hfresh ⊢
    exact nodup_replace hall hnodup hfresh
  · have hother' : Limb w e x.context other := by
      rcases List.mem_append.mp hother with hmem | hmem
      · exact h.limbs other (by rw [hslots]; exact List.mem_append_left _ hmem)
      · rcases List.mem_cons.mp hmem with rfl | hmem
        · exact hlimb
        · exact h.limbs other
            (by rw [hslots]; exact List.mem_append_right _ (List.mem_cons_of_mem _ hmem))
    refine hother'.retained hw.touches.retains fun c hc z hz => ?_
    rintro rfl
    exact (hother'.lodges.inside h.lineage hc).not_below hz

/-- Whether a slot has been evaluated, which cannot be told if it remembers a single child. -/
def Slot.IsFilled (slot : Slot) : Prop := slot.memory ≠ .repeated none

/-- What there is after a slot of an element has been evaluated: it has been written, and the same
elements are held as before. -/
def Contributes (K : Conduct σ) (w : World σ) (node : Node Resolver) (e : ElementId) (x : Element)
    (done rest : List Slot) (child : Node Resolver) (es : List ElementId) (w' : World σ) : Prop :=
  ∃ memory, K.Goes (· = e) [] w w' ∧
    Nursed w' node e { x with slots := done ++ ⟨child, memory⟩ :: rest } ∧
    (Slot.mk child memory).elements = es ∧ (Slot.mk child memory).IsFilled

theorem Contributes.after {w₁ : World σ} {child : Node Resolver} {es : List ElementId}
    (h : Contributes K w₁ node e x done rest child es w') (hw : K.Goes (· = e) [] w w₁) :
    Contributes K w node e x done rest child es w' := by
  obtain ⟨memory, hw', hrest⟩ := h
  exact ⟨memory, hw.trans hw', hrest⟩

/-- A slot that goes on with what it remembers. -/
theorem Nursed.keep (h : Nursed w node e x) (hslots : x.slots = done ++ slot :: rest)
    (hfilled : slot.IsFilled) : Contributes K w node e x done rest slot.node slot.elements w := by
  refine ⟨slot.memory, .refl w, ?_, rfl, hfilled⟩
  have heq : { x with slots := done ++ slot :: rest } = x := by rw [← hslots]
  rw [heq]
  exact h

theorem Nursed.limb (h : Nursed w node e x) (hslots : x.slots = done ++ slot :: rest) :
    Limb w e x.context slot :=
  h.limbs slot (by rw [hslots]; exact List.mem_append_right _ List.mem_cons_self)

/-- New children are written into a slot, which lets go of them. -/
theorem Nursed.settle (enter : Enter σ) (h : Nursed w node e x) (hslots : x.slots = done ++ slot :: rest)
    (memory : Memory) {w₁ : World σ} {es : List ElementId} (hes : (Slot.mk slot.node memory).elements = es)
    (hw : K.Goes (fun _ => False) es.reverse w w₁) (hnew : ∀ c ∈ es, w.elements.size ≤ c.row)
    (hnodup : es.Nodup) (hlimb : Limb w₁ e x.context ⟨slot.node, memory⟩)
    (hfilled : (Slot.mk slot.node memory).IsFilled) :
    ∃ w₂, (Build.remember e done.length memory).runIn enter w₁ = (some (), w₂) ∧
      Contributes K w node e x done rest slot.node es
        { w₂ with held := es.foldl List.erase w₂.held } := by
  have hfresh : ∀ c ∈ es, c ∉ x.slots.flatMap Slot.elements := fun c hc hmem => by
    obtain ⟨z, hz, -⟩ := h.inside hmem
    exact Nat.lt_irrefl _ (Nat.lt_of_lt_of_le (Table.lt_size_of_get? hz) (hnew c hc))
  obtain ⟨w₂, hrun, hw₂, hnursed⟩ := (h.retained (K.retains hw)).remember enter hslots memory hlimb
    (hes ▸ hnodup) fun c hc => .inr (hfresh c (hes ▸ hc))
  have hall : K.Goes (· = e) es.reverse w w₂ := (Conduct.Goes.of_none hw).trans (.of_retouches hw₂)
  exact ⟨w₂, hrun, memory, K.release hall (List.reverse_perm es),
    hnursed.untouched (.of_held w₂ _), hes, hfilled⟩

/-- What is true of an element if the evaluation of a slot fails. -/
def Nurses (K : Conduct σ) (w : World σ) (node : Node Resolver) (e : ElementId) (x : Element) (w' : World σ) : Prop :=
  K.Goes (· = e) [] w w' ∧ Nursed w' node e x

theorem Nursed.nurses (h : Nursed w node e x) (hw : K.Saw w w') : Nurses K w node e x w' :=
  ⟨.of_none hw, h.saw hw⟩

theorem Nurses.after {w₁ : World σ} (h : Nurses K w₁ node e x w') (hw : K.Goes (· = e) [] w w₁) :
    Nurses K w node e x w' := ⟨hw.trans h.1, h.2⟩

theorem Limb.of_sprung {child : Node Resolver} (hrepetition : child.repetition = none)
    {c : ElementId} {z : Element} {C : Context} (hz : Sprung w child (.object (.scope m e) :: C) c z) :
    Limb w e C ⟨child, .single (some c)⟩ := by
  refine ⟨.child m hrepetition hz.get hz.context, fun c' hc' => ?_⟩
  obtain rfl : c' = c := by simpa [Slot.elements] using hc'
  exact hz.standing

theorem Nursed.evaluateSingle_ends (hrules : K.Rules enter) (h : Nursed w node e x)
    (hslots : x.slots = done ++ slot :: rest) (hrepetition : slot.node.repetition = none)
    {cached : Option ElementId} (hmemory : slot.memory = .single cached) :
    K.Ends enter w (Build.evaluateSingle e done.length slot.node cached (.object (.scope m e) :: x.context)
      .headless) (Contributes K w node e x done rest slot.node) (Nurses K w node e x) := by
  refine Conduct.Ends.look (hrules.shows _ slot.node).eval (fun w₁ hw₁ => h.nurses hw₁) fun b w₁ hw₁ => ?_
  have h₁ := h.saw hw₁
  cases b with
  | false =>
    obtain ⟨w₂, hrun, hw₂, hnursed⟩ := h₁.remember enter hslots (.single none)
      ⟨.none hrepetition, fun _ hc => by cases hc⟩ List.nodup_nil fun _ hc => by cases hc
    refine Conduct.Ends.step (Act.runIn_lift hrun) (.pure ?_)
    exact ⟨_, (Conduct.Goes.of_none hw₁).trans (.of_retouches hw₂), hnursed, rfl, Memory.noConfusion⟩
  | true =>
    cases cached with
    | some child =>
      have helements : slot.elements = [child] := by rw [Slot.elements, hmemory]; rfl
      have hfilled : slot.IsFilled := fun hnone => by cases hmemory.symm.trans hnone
      exact .pure (helements ▸ (h₁.keep hslots hfilled).after (.of_none hw₁))
    | none =>
      refine (Build.create_ends hrules w₁ slot.node _).bind ?_ |>.imp (fun _ _ => id)
        fun w₂ hw₂ => h.nurses (hw₁.trans hw₂)
      rintro c w₂ ⟨rfl, hw₂, z, hz⟩
      obtain ⟨w₃, hrun, hcontributes⟩ := h₁.settle enter hslots (.single (some _)) rfl hw₂
        (List.forall_mem_singleton.mpr (Nat.le_refl _)) (List.nodup_singleton _) (.of_sprung hrepetition hz)
        Memory.noConfusion
      have hrelease : (Act.release [⟨w₁.elements.size⟩]).runIn enter w₃ = (some (), _) := rfl
      exact Conduct.Ends.step (Act.runIn_lift hrun) (Conduct.Ends.step (Act.runIn_lift hrelease)
        (.pure (hcontributes.after (.of_none hw₁))))

/-! ### Lists -/

theorem Limb.of_sprungs {child : Node Resolver} {name : String} {resolver : Resolver}
    (hrepetition : child.repetition = some (name, resolver)) {last : Repetition} {C : Context}
    (hcontexts : ∀ context ∈ last.contexts, ∃ r m,
      context = .object (.record r) :: .object (.scope m e) :: C)
    (hall : List.Forall₂ (fun c context => ∃ z, Sprung w child context c z) last.elements
      (Build.shown last.contexts last.conditions)) :
    Limb w e C ⟨child, .repeated (some last)⟩ := by
  refine ⟨.list hrepetition hcontexts (hall.imp ?_), fun c hc => ?_⟩
  · rintro c context ⟨z, hz⟩
    exact ⟨z, hz.get, hz.context⟩
  · obtain ⟨context, -, z, hz⟩ := exists_of_forall₂ hall hc
    exact hz.standing

/-- New elements for the items whose conditions are true are written into the slot. -/
theorem Nursed.renew_ends (hrules : K.Rules enter) (h : Nursed w node e x)
    (hslots : x.slots = done ++ slot :: rest) {name : String} {resolver : Resolver}
    (hrepetition : slot.node.repetition = some (name, resolver)) (list : Value)
    {contexts : List Context} (hcontexts : ∀ context ∈ contexts, ∃ r m,
      context = .object (.record r) :: .object (.scope m e) :: x.context) (conditions : List Bool) :
    K.Ends enter w
      (Build.createAll slot.node .headless (Build.shown contexts conditions) >>= fun elements =>
        Build.settle e done.length ⟨list, contexts, conditions, elements⟩)
      (Contributes K w node e x done rest slot.node) (Nurses K w node e x) := by
  refine (Build.createAll_ends hrules w slot.node _).bind ?_ |>.imp (fun _ _ => id)
    fun w₁ hw₁ => h.nurses hw₁
  rintro es w₁ ⟨hw₁, hnodup, hnew, hall⟩
  obtain ⟨w₂, hrun, hcontributes⟩ := h.settle enter hslots
    (.repeated (some ⟨list, contexts, conditions, es⟩)) rfl hw₁ hnew hnodup
    (.of_sprungs hrepetition hcontexts hall) (fun hnone => by cases hnone)
  have hrelease : (Act.release es).runIn enter w₂ = (some (), _) := rfl
  exact Conduct.Ends.step (Act.runIn_lift hrun) (Conduct.Ends.step (Act.runIn_lift hrelease) (.pure hcontributes))

/-- A list that is shown from nothing. -/
theorem Nursed.anew_ends (hrules : K.Rules enter) (h : Nursed w node e x)
    (hslots : x.slots = done ++ slot :: rest) {name : String} {resolver : Resolver}
    (hrepetition : slot.node.repetition = some (name, resolver)) (list : Value) (items : List Value) :
    K.Ends enter w
      (Build.spread slot.node .headless name (.object (.scope m e) :: x.context) list items >>=
        Build.settle e done.length)
      (Contributes K w node e x done rest slot.node) (Nurses K w node e x) := by
  simp only [Build.spread, bind_assoc, pure_bind]
  refine Conduct.Ends.look (Conduct.Looks.message .trace (.pure _) |>.map _) (fun w₁ hw₁ => h.nurses hw₁)
    fun _ w₁ hw₁ => ?_
  obtain ⟨contexts, w₂, hrun₂, -, hframes⟩ :=
    runIn_frames enter name (.object (.scope m e) :: x.context) items w₁
  have hlooked₂ := (Conduct.Looks.frames (K := K) name (.object (.scope m e) :: x.context) items).saw hrun₂
  refine Conduct.Ends.step (Act.runIn_lift hrun₂) ?_
  have hw := hw₁.trans hlooked₂
  refine Conduct.Ends.look (hrules.conditions slot.node contexts) (fun w₃ hw₃ => h.nurses (hw.trans hw₃))
    fun conditions w₃ hw₃ => ?_
  have hlooked := hw.trans hw₃
  refine ((h.saw hlooked).renew_ends hrules hslots hrepetition list (fun context hmem => ?_)
    conditions).imp (fun _ _ hw' => hw'.after (.of_none hlooked)) fun _ hw' => hw'.after (.of_none hlooked)
  obtain ⟨v, -, r, heq, -⟩ := exists_of_forall₂ hframes hmem
  exact ⟨r, m, heq⟩

/-- A list that is shown from memory. -/
theorem Nursed.reuse_ends (hrules : K.Rules enter) (h : Nursed w node e x)
    (hslots : x.slots = done ++ slot :: rest) {name : String} {resolver : Resolver}
    (hrepetition : slot.node.repetition = some (name, resolver)) {last : Repetition}
    (hmemory : slot.memory = .repeated (some last)) :
    K.Ends enter w (Build.reuse e done.length slot.node last .headless)
      (Contributes K w node e x done rest slot.node) (Nurses K w node e x) := by
  refine Conduct.Ends.look (hrules.conditions slot.node last.contexts) (fun w₁ hw₁ => h.nurses hw₁)
    fun conditions w₁ hw₁ => ?_
  have h₁ := h.saw hw₁
  split
  · have helements : slot.elements = last.elements := by rw [Slot.elements, hmemory]; rfl
    have hfilled : slot.IsFilled := fun hnone => by cases hmemory.symm.trans hnone
    exact .pure (helements ▸ (h₁.keep hslots hfilled).after (.of_none hw₁))
  · have hlodges := (h.limb hslots).lodges
    rw [hmemory] at hlodges
    cases hlodges with
    | list _ hcontexts _ =>
      refine Conduct.Ends.look (Conduct.Looks.message .trace (.pure _) |>.map _)
        (fun w₂ hw₂ => h.nurses (hw₁.trans hw₂)) fun _ w₂ hw₂ => ?_
      have hlooked := hw₁.trans hw₂
      exact ((h.saw hlooked).renew_ends hrules hslots hrepetition last.list hcontexts
        conditions).imp (fun _ _ hw' => hw'.after (.of_none hlooked))
        fun _ hw' => hw'.after (.of_none hlooked)

theorem Nursed.evaluateRepeated_ends (hrules : K.Rules enter) (h : Nursed w node e x)
    (hslots : x.slots = done ++ slot :: rest) {name : String} {resolver : Resolver}
    (hrepetition : slot.node.repetition = some (name, resolver)) {last : Option Repetition}
    (hmemory : slot.memory = .repeated last) :
    K.Ends enter w (Build.evaluateRepeated e done.length slot.node name resolver last
        (.object (.scope m e) :: x.context) .headless)
      (Contributes K w node e x done rest slot.node) (Nurses K w node e x) := by
  refine Conduct.Ends.look (hrules.listOf _ resolver) (fun w₁ hw₁ => h.nurses hw₁) ?_
  rintro ⟨list, items⟩ w₁ hw₁
  have h₁ := h.saw hw₁
  have hanew := (h₁.anew_ends (m := m) hrules hslots hrepetition list items).imp
    (fun _ _ hw' => hw'.after (.of_none hw₁)) fun _ hw' => hw'.after (.of_none hw₁)
  cases last with
  | none => exact hanew
  | some last =>
    dsimp only
    split
    · refine Conduct.Ends.look ((Conduct.Looks.noteKept last).map _) (fun w₂ hw₂ => h.nurses (hw₁.trans hw₂))
        fun _ w₂ hw₂ => ?_
      have hlooked := hw₁.trans hw₂
      exact ((h.saw hlooked).reuse_ends hrules hslots hrepetition hmemory).imp
        (fun _ _ hw' => hw'.after (.of_none hlooked)) fun _ hw' => hw'.after (.of_none hlooked)
    · exact hanew

/-- A slot contributes children, and nothing else changes. -/
theorem Nursed.evaluate_ends (hrules : K.Rules enter) (h : Nursed w node e x)
    (hslots : x.slots = done ++ slot :: rest) :
    K.Ends enter w (Build.evaluate e done.length slot (.object (.scope m e) :: x.context) .headless)
      (Contributes K w node e x done rest slot.node) (Nurses K w node e x) := by
  unfold Build.evaluate
  have hlodges := (h.limb hslots).lodges
  cases hmemory : slot.memory with
  | single cached =>
    have hrepetition : slot.node.repetition = none := by
      rw [hmemory] at hlodges
      cases hlodges <;> assumption
    exact h.evaluateSingle_ends hrules hslots hrepetition hmemory
  | repeated last =>
    obtain ⟨name, resolver, hrepetition⟩ :
        ∃ name resolver, slot.node.repetition = some (name, resolver) := by
      rw [hmemory] at hlodges
      cases hlodges <;> exact ⟨_, _, ‹_›⟩
    rw [hrepetition]
    exact h.evaluateRepeated_ends hrules hslots hrepetition hmemory

/-! ### Filling the slots -/

/-- An element that shows more children. -/
def Element.showing (x : Element) (h : Headless) (es : List ElementId) : Element :=
  { x with
    component := .headless { h with mounted := h.mounted ++ es }
    children := x.children ++ es }

theorem Element.showing_nil {h : Headless} (hc : x.component = .headless h) : x.showing h [] = x := by
  rw [showing, List.append_nil, List.append_nil, ← hc]

theorem Trunk.showing {h : Headless} (htrunk : Trunk node x) (hc : x.component = .headless h)
    (es : List ElementId) : Trunk node (x.showing h es) := by
  obtain ⟨htag, hidle, hslots, h', hc', hmounted, hwears⟩ := htrunk
  obtain rfl : h' = h := Component.headless.inj (hc'.symm.trans hc)
  exact ⟨htag, hidle, hslots, _, rfl, congrArg (· ++ es) hmounted, hwears⟩

/-- Children are shown one after the other. -/
theorem Nursed.append (enter : Enter σ) (h : Nursed w node e x) {c : Headless}
    (hc : x.component = .headless c) (es : List ElementId) :
    ∃ w', (Build.append e es).run.runIn enter w = (some (.ok ()), w') ∧ Retouches e w w' ∧
      Nursed w' node e (x.showing c es) := by
  induction es generalizing w x c with
  | nil => exact ⟨w, rfl, .refl e w, (Element.showing_nil hc).symm ▸ h⟩
  | cons child rest ih =>
    obtain ⟨w₁, hrun₁, hw₁, hx₁⟩ : Alters enter w e (Build.component (Act.appendChild e child)).run
        (.ok ()) (x.showing c [child]) := .component (.appendChild h.get h.trunk.idle hc child)
    obtain ⟨w₂, hrun₂, hw₂, h₂⟩ := ih (h.alter hw₁.touches hx₁ (h.trunk.showing hc [child]) rfl) rfl
    refine ⟨w₂, ?_, hw₁.trans hw₂, ?_⟩
    · unfold Build.append
      rw [Build.runIn_bindE_ok hrun₁, hrun₂]
    · simpa [Element.showing] using h₂

/-- What there is after the slots from some place on have been filled. -/
def Fills (K : Conduct σ) (w : World σ) (node : Node Resolver) (e : ElementId) (x : Element) (c : Headless)
    (done : List Slot) (w' : World σ) : Prop :=
  ∃ filled : List Slot, K.Goes (· = e) [] w w' ∧
    Nursed w' node e { x.showing c (filled.flatMap Slot.elements) with slots := done ++ filled } ∧
    ∀ slot ∈ filled, slot.IsFilled

/-- What there is after an update has failed at an element: the first of what is in its slots is shown,
and its updater is still taken out. -/
def Halts (K : Conduct σ) (w : World σ) (node : Node Resolver) (e : ElementId) (w' : World σ) : Prop :=
  ∃ y, K.Goes (· = e) [] w w' ∧ Nursed w' node e y ∧ y.updater = none ∧
    y.children <+: y.slots.flatMap Slot.elements

theorem Halts.after {w₁ : World σ} (h : Halts K w₁ node e w') (hw : K.Goes (· = e) [] w w₁) :
    Halts K w node e w' := by
  obtain ⟨y, hw', hrest⟩ := h
  exact ⟨y, hw.trans hw', hrest⟩

theorem Nursed.fill_ends (hrules : K.Rules enter) (h : Nursed w node e x) {c : Headless}
    (hc : x.component = .headless c) (hslots : x.slots = done ++ rest) (hupdater : x.updater = none)
    (hchildren : x.children = done.flatMap Slot.elements) :
    K.Ends enter w (Build.fill e (.object (.scope m e) :: x.context) .headless done.length rest)
      (fun _ => Fills K w node e x c done) (Halts K w node e) := by
  induction rest generalizing done x w c with
  | nil =>
    refine .pure ⟨[], .refl w, ?_, by simp⟩
    have heq : { x.showing c [] with slots := done ++ [] } = x := by
      rw [Element.showing_nil hc, ← hslots]
    exact heq.symm ▸ h
  | cons slot rest ih =>
    refine ((h.evaluate_ends (m := m) hrules hslots).imp (fun _ _ => id) ?_).bind ?_
    · rintro w₁ ⟨hw₁, hnursed⟩
      refine ⟨x, hw₁, hnursed, hupdater, ?_⟩
      rw [hchildren, hslots, List.flatMap_append]
      exact List.prefix_append _ _
    rintro es w₁ ⟨memory, hw₁, h₁, hes, hfirst⟩
    obtain ⟨w₂, hrun₂, hw₂, h₂⟩ := h₁.append enter hc es
    refine Conduct.Ends.step hrun₂ ?_
    have hw := hw₁.trans (.of_retouches hw₂)
    have hslots₂ : done ++ ⟨slot.node, memory⟩ :: rest = (done ++ [⟨slot.node, memory⟩]) ++ rest := by
      simp
    have hmore := ih h₂ rfl hslots₂ hupdater (by simp [Element.showing, hchildren, hes])
    rw [List.length_append, List.length_singleton] at hmore
    refine hmore.imp ?_ fun _ h' => h'.after hw
    rintro ⟨⟩ w₃ ⟨filled, hw₃, h₃, hall⟩
    refine ⟨⟨slot.node, memory⟩ :: filled, hw.trans hw₃, ?_, List.forall_mem_cons.mpr ⟨hfirst, hall⟩⟩
    simpa [Element.showing, hes] using h₃

/-! ### The element itself -/

/-- Attributes that its node can give are written into an element. -/
theorem Nursed.written (h : Nursed w node e x) {c : Headless} (hc : x.component = .headless c)
    {written : List (String × Value)} (hnames : written.map (·.1) ⊆ node.dresses)
    (hwritten : Build.Written K w e x c written w') :
    Nursed w' node e
      { x with component := .headless { c with attributes := c.attributes.putAll written } } := by
  refine h.amend (K.retains hwritten.1) hwritten.2 ?_ rfl
  obtain ⟨htag, hidle, hslots, c', hc', hmounted, hwears⟩ := h.trunk
  obtain rfl : c' = c := Component.headless.inj (hc'.symm.trans hc)
  exact ⟨htag, hidle, hslots, _, rfl, hmounted, hwears.putAll hnames⟩

/-- The bound attributes of an element are set. -/
theorem Nursed.bind_ends (hrules : K.Rules enter) (h : Nursed w node e x) {c : Headless}
    (hc : x.component = .headless c) (C : Context) :
    K.Ends enter w (Build.assign e C node.bind)
      (fun _ w' => ∃ written, written.map (·.1) = node.bind.map (·.1) ∧ K.Goes (· = e) [] w w' ∧
        Nursed w' node e
          { x with component := .headless { c with attributes := c.attributes.putAll written } })
      (fun w' => ∃ attributes, K.Goes (· = e) [] w w' ∧
        Nursed w' node e { x with component := .headless { c with attributes } }) := by
  refine (Build.assign_ends hrules h.get h.trunk.idle hc C node.bind).imp ?_ ?_
  · rintro ⟨⟩ w' ⟨written, hnames, hwritten⟩
    exact ⟨written, hnames, hwritten.1, h.written hc (hnames ▸ node.bind_subset_dresses) hwritten⟩
  · rintro w' ⟨written, hnames, hwritten⟩
    exact ⟨_, hwritten.1,
      h.written hc (List.Subset.trans hnames.subset node.bind_subset_dresses) hwritten⟩

/-- An element of a node whose updater has run: it shows what is in its slots, which have been evaluated,
and it has its bound attributes. -/
structure Element.Populated (node : Node Resolver) (x : Element) : Prop where
  /-- The children that it shows. -/
  children : x.children = x.slots.flatMap Slot.elements
  /-- The slots. -/
  filled : ∀ slot ∈ x.slots, slot.IsFilled
  /-- The bound attributes. -/
  bound : ∃ h, x.component = .headless h ∧ node.bind.map (·.1) ⊆ h.attributes.keys

/-- What there is after the updater of an element has run. -/
def Refreshes (K : Conduct σ) (w : World σ) (node : Node Resolver) (e : ElementId) (w' : World σ) : Prop :=
  ∃ y, K.Goes (· = e) [] w w' ∧ Nursed w' node e y ∧ y.updater = none ∧ y.Populated node

theorem Refreshes.halts (h : Refreshes K w node e w') : Halts K w node e w' := by
  obtain ⟨y, hw, hnursed, hupdater, hpopulated⟩ := h
  exact ⟨y, hw, hnursed, hupdater, hpopulated.children ▸ List.prefix_rfl⟩

/-- An element shows no children before its slots are filled, whether there are any or not. -/
theorem Nursed.runIn_refresh (enter : Enter σ) (h : Nursed w node e x) {c : Headless}
    (hc : x.component = .headless c) (hchildren : x.children <+: x.slots.flatMap Slot.elements) :
    ∃ m w₁, Retouches e w w₁ ∧
      Nursed w₁ node e { x with component := .headless c.clear, children := [] } ∧
      (Build.refresh e node .headless).run.runIn enter w =
        (Build.fill e (.object (.scope m e) :: x.context) .headless 0 x.slots >>= fun _ =>
          Build.assign e (.object (.scope m e) :: x.context) node.bind).run.runIn enter w₁ := by
  obtain ⟨htag, hidle, hslots, c', hc', hmounted, hwears⟩ := h.trunk
  obtain rfl : c' = c := Component.headless.inj (hc'.symm.trans hc)
  obtain ⟨w₁, hrun₁, hw₁, hx₁⟩ : Alters enter w e (Act.contextOf e) _ _ := .contextOf h.get
  have hbegin : (Build.refresh e node .headless).run.runIn enter w = (do
      if !x.slots.isEmpty then
        Build.component (Act.clearChildren e)
        Build.fill e (.object (.scope w.marks e) :: x.context) .headless 0 x.slots
      Build.assign e (.object (.scope w.marks e) :: x.context) node.bind : Build σ Unit).run.runIn
        enter w₁ := by
    unfold Build.refresh
    rw [Build.runIn_bindE_ok (Act.runIn_lift hrun₁),
      Build.runIn_bindE_ok (Act.runIn_lift (Act.runIn_element hx₁))]
  cases hempty : x.slots with
  | nil =>
    rw [hempty] at hchildren hbegin
    have hnone : x.children = [] := List.prefix_nil.mp hchildren
    have hclear : c'.clear = c' := by rw [Headless.clear, ← hnone, ← hmounted]
    have heq : { x with component := .headless c'.clear, children := [] } = x := by
      rw [hclear, ← hc, ← hnone]
    exact ⟨w.marks, w₁, hw₁, hempty ▸ heq.symm ▸ h.alter hw₁.touches hx₁ h.trunk rfl, hbegin⟩
  | cons slot rest =>
    obtain ⟨w₂, hrun₂, hw₂, hx₂⟩ : Alters enter w₁ e (Build.component (Act.clearChildren e)).run (.ok ())
      _ := .component (.clearChildren hx₁ hidle hc)
    refine ⟨w.marks, w₂, hw₁.trans hw₂, ?_, ?_⟩
    · have hw := hw₁.trans hw₂
      exact hempty ▸ h.alter hw.touches hx₂ ⟨htag, hidle, hslots, _, rfl, rfl, hwears⟩ rfl
    · rw [hbegin, hempty]
      exact Build.runIn_bindE_ok hrun₂

theorem Nursed.refresh_ends (hrules : K.Rules enter) (h : Nursed w node e x)
    (hupdater : x.updater = none) (hchildren : x.children <+: x.slots.flatMap Slot.elements) :
    K.Ends enter w (Build.refresh e node .headless) (fun _ => Refreshes K w node e) (Halts K w node e) := by
  obtain ⟨c, hc, -⟩ := h.trunk.component
  obtain ⟨m, w₁, hw₁, h₁, hrun⟩ := h.runIn_refresh enter hc hchildren
  unfold Conduct.Ends
  rw [hrun]
  refine Conduct.Ends.bind (R := fun _ => Refreshes K w node e) ((h₁.fill_ends (m := m) hrules rfl
    (List.nil_append _).symm hupdater rfl).imp (fun _ _ => id) fun _ h' => h'.after (.of_retouches hw₁)) ?_
  rintro ⟨⟩ w₂ ⟨filled, hw₂, h₂, hfilled⟩
  have hw := (Conduct.Goes.of_retouches hw₁).trans hw₂
  have hall : (Element.showing { x with component := .headless c.clear, children := [] } c.clear
      (filled.flatMap Slot.elements)).children = filled.flatMap Slot.elements := rfl
  refine (h₂.bind_ends hrules rfl _).imp ?_ ?_
  · rintro ⟨⟩ w₃ ⟨written, hnames, hw₃, h₃⟩
    refine ⟨_, hw.trans hw₃, h₃, hupdater, hall, hfilled, _, rfl, fun name hname => ?_⟩
    exact Fields.mem_keys_putAll.mpr (.inr (hnames ▸ hname))
  · rintro w₃ ⟨attributes, hw₃, h₃⟩
    exact ⟨_, hw.trans hw₃, h₃, hupdater, hall ▸ List.prefix_rfl⟩

/-! ### The children -/

/-- The tree of a child is another one. -/
theorem Standing.replace (h : Standing w node e) (hx : w.elements.get? e.row = some x) {slot : Slot}
    (hslot : slot ∈ x.slots) {c : ElementId} (hc : c ∈ slot.elements) (hw : Retains (w.Below c) w w')
    (hstanding : Standing w' slot.node c) : Standing w' node e := by
  obtain ⟨x', hnursed, hupdater, hchildren⟩ := h.inspect
  obtain rfl : x = x' := Option.some.inj (hx.symm.trans hnursed.get)
  have hinside : ∀ other ∈ x.slots, ∀ c' ∈ other.elements, w.Inside e c' := fun other hother c' hc' =>
    hnursed.inside (List.mem_flatMap.mpr ⟨other, hother, hc'⟩)
  have hget := hw.get? hx (hinside slot hslot c hc).not_below
  refine .intro hget hnursed.trunk hupdater hchildren hnursed.nodup
    (fun other hother => (hnursed.limbs other hother).lodges.retained hw) fun other hother c' hc' => ?_
  by_cases heq : c = c'
  · obtain rfl := heq
    obtain rfl := eq_of_nodup_flatMap hnursed.nodup hslot hother hc hc'
    exact hstanding
  · refine ((hnursed.limbs other hother).standing c' hc').retained hw fun z hz hcz => heq ?_
    exact (hinside slot hslot c hc).eq_of_below (hinside other hother c' hc') hcz hz

/-- When the tree of an element in a tree has become another one, so has the whole tree. -/
theorem Standing.regrow {c : ElementId} (h : Standing w node e) (hc : w.Encloses e c)
    (hw : Retains (w.Below c) w w')
    (hstanding : ∀ child, Standing w child c → Standing w' child c) : Standing w' node e := by
  induction hc generalizing node with
  | refl e => exact hstanding node h
  | @inner e a c x slot hx hslot ha hc ih =>
    obtain ⟨y, hnursed, -⟩ := h.inspect
    obtain rfl := Option.some.inj (hx.symm.trans hnursed.get)
    have hchild := (hnursed.limbs slot hslot).standing a ha
    exact h.replace hx hslot ha (hw.mono fun z _ hz => (hchild.below_of_encloses hc).trans hz)
      (ih hchild hw hstanding)

theorem Trunk.child (h : Trunk node x) (hslot : slot ∈ x.slots) : slot.node ∈ node.children :=
  h.slots ▸ List.mem_map_of_mem hslot

/-- What is held does not matter. -/
theorem Touches.swap_held {S : ElementId → Prop} (h : Touches S w w') (held : List ElementId) :
    Touches S { w with held := held } w' := ⟨h.store, h.level, h.host, h.history, h.element⟩

/-- Updates of the trees of a node leave them standing. -/
def Stays (enter : Enter σ) (node : Node Resolver) : Prop :=
  ∀ w e answer w', Standing w node e → (Act.enterUpdate e).runIn enter w = (some answer, w') →
    Proceeds (w.Below e) [] w w' ∧ Standing w' node e

/-- The trees of some children, which are held and let go of one after the other, are updated. -/
theorem Standing.updateAll {held : List ElementId} {answer : Except ViewError Unit}
    (hchild : ∀ child ∈ node.children, Stays enter child) (h : Standing w node e)
    (hx : w.elements.get? e.row = some x) {es : List ElementId}
    (hes : es ⊆ x.slots.flatMap Slot.elements) (hheld : w.held = es ++ held)
    (hrun : (Act.updateAll es).runIn enter w = (some answer, w')) :
    Proceeds (w.BelowAny es) [] { w with held := held } w' ∧ Standing w' node e := by
  induction es generalizing w with
  | nil =>
    obtain ⟨-, rfl⟩ := Prod.mk.inj hrun
    have heq : { w with held := held } = w := by rw [← show w.held = held from hheld]
    exact ⟨heq.symm ▸ .refl w, h⟩
  | cons c rest ih =>
    obtain ⟨x', hnursed, -⟩ := h.inspect
    obtain rfl : x = x' := Option.some.inj (hx.symm.trans hnursed.get)
    obtain ⟨hmem, hrest⟩ := List.cons_subset.mp hes
    have hc := hnursed.inside hmem
    obtain ⟨slot, hslot, hcslot⟩ := List.mem_flatMap.mp hmem
    obtain ⟨first, w₁, hupdate, hmore⟩ := Act.runIn_bind_eq_some hrun
    obtain ⟨hw₁, hstanding⟩ := hchild _ (hnursed.trunk.child hslot) w c first w₁
      ((hnursed.limbs slot hslot).standing c hcslot) hupdate
    have hrelease : (Act.release [c]).runIn enter w₁ = (some (), { w₁ with held := w₁.held.erase c }) :=
      rfl
    rw [Act.runIn_bind_some hrelease] at hmore
    have hheld₁ : w₁.held.erase c = rest ++ held := by simp [hw₁.held, hheld]
    have h₁ : Standing { w₁ with held := w₁.held.erase c } node e :=
      (h.replace hx hslot hcslot hw₁.touches.retains hstanding).untouched (.of_held w₁ _)
    have hfirst : Touches (w.BelowAny (c :: rest)) w w₁ :=
      hw₁.touches.mono fun z _ hz => ⟨c, List.mem_cons_self, hz⟩
    cases first with
    | error error =>
      cases hmore
      refine ⟨⟨(hfirst.trans (.of_held w₁ _)).swap_held held, ?_, hw₁.schedulers, hw₁.receivers⟩,
        h₁.untouched (.of_held _ _)⟩
      show rest.foldl List.erase (w₁.held.erase c) = [] ++ held
      rw [hheld₁, foldl_erase_of_perm (.refl rest)]
      rfl
    | ok =>
      obtain ⟨hw₂, h₂⟩ := ih h₁ (hw₁.touches.get? hx hc.not_below) hrest hheld₁ hmore
      refine ⟨⟨Touches.swap_held ?_ held, hw₂.held, hw₂.schedulers.trans hw₁.schedulers,
        hw₂.receivers.trans hw₁.receivers⟩, h₂⟩
      refine hw₁.touches.belowAny_cons (hw₂.touches.swap_held w₁.held) fun c' hc' => ?_
      obtain ⟨z, hz, -⟩ := hnursed.inside (hrest hc')
      exact ⟨z, hz⟩

/-! ### The whole tree -/

/-- The updater is put back. -/
theorem Nursed.putBack (enter : Enter σ) (h : Nursed w node e x) (hupdater : x.updater = none)
    (hchildren : x.children <+: x.slots.flatMap Slot.elements) (answer : Except ViewError Unit) :
    ∃ w', (do
        Act.putBack e (.view node .headless)
        Act.record (.updated e none answer.isOk)).runIn enter w = (some (), w') ∧ Edits e w w' ∧
      w'.runs = w.runs ++ [.updated e none answer.isOk] ∧
      w'.elements.get? e.row = some { x with updater := some (.view node .headless) } ∧
      Standing w' node e := by
  obtain ⟨w₁, hput, hw₁, hx₁⟩ : Alters enter w e (Act.putBack e (.view node .headless)) () _ :=
    .putBack h.get hupdater _
  obtain ⟨htag, hidle, hslots, hcomponent⟩ := h.trunk
  have hw : Edits e w (w₁.record (.updated e none answer.isOk)) := hw₁.toEdits.trans (.record e w₁ _)
  have h₂ := h.alter hw.touches hx₁ ⟨htag, hidle, hslots, hcomponent⟩ rfl
  refine ⟨_, Act.runIn_bind_some hput, hw, ?_, hx₁, h₂.standing rfl hchildren⟩
  rw [World.runs_record, hw₁.runs]
  rfl

theorem Act.conclude_eq (e : ElementId) (node : Node Resolver) (answer : Except ViewError Unit) :
    Act.conclude (σ := σ) e node answer = ((do
        Act.putBack e (.view node .headless)
        Act.record (.updated e none answer.isOk)) >>= fun _ =>
      match answer with
      | .error error => do
        Act.release [e]
        return .error error
      | .ok () => do
        let children := (← Act.element e).children
        Act.hold children
        let answer ← Act.updateAll children
        Act.release [e]
        return answer) := by
  unfold Act.conclude
  cases answer <;> simp only [bind_assoc]

/-- Once the updater of an element has run, the rest of the update leaves the tree standing. -/
theorem Nursed.conclude {held : List ElementId} {answer answer' : Except ViewError Unit}
    (hchild : ∀ child ∈ node.children, Stays enter child) (h : Nursed w node e x)
    (hupdater : x.updater = none) (hchildren : x.children <+: x.slots.flatMap Slot.elements)
    (hheld : w.held = e :: held)
    (hrun : (Act.conclude e node answer).runIn enter w = (some answer', w')) :
    Proceeds (w.Below e) [] { w with held := held } w' ∧ Standing w' node e := by
  obtain ⟨w₁, hput, hw₁, -, hx₁, hstanding₁⟩ := h.putBack enter hupdater hchildren answer
  rw [Act.conclude_eq, Act.runIn_bind_some hput] at hrun
  have hbelow : Touches (w.Below e) w w₁ := hw₁.touches.mono fun z _ hz => hz ▸ .refl w e
  have hheld₁ : w₁.held = e :: held := hw₁.held.trans hheld
  cases answer with
  | error error =>
    obtain ⟨-, rfl⟩ := Prod.mk.inj hrun
    refine ⟨⟨(hbelow.trans (.of_held w₁ _)).swap_held held, ?_, hw₁.schedulers, hw₁.receivers⟩,
      hstanding₁.untouched (.of_held w₁ _)⟩
    show w₁.held.erase e = held
    rw [hheld₁, List.erase_cons_head]
  | ok =>
    rw [Act.runIn_bind_some (Act.runIn_element hx₁)] at hrun
    have hhold : (Act.hold x.children).runIn enter w₁ =
      (some (), { w₁ with held := x.children ++ w₁.held }) := rfl
    rw [Act.runIn_bind_some hhold] at hrun
    obtain ⟨last, w₂, hall, hrun⟩ := Act.runIn_bind_eq_some hrun
    obtain ⟨-, rfl⟩ := Prod.mk.inj hrun
    have hheld₂ : x.children ++ w₁.held = x.children ++ e :: held := by rw [hheld₁]
    obtain ⟨hw₂, hstanding₂⟩ :=
      (hstanding₁.untouched (.of_held w₁ (x.children ++ w₁.held))).updateAll hchild
        hx₁ hchildren.subset hheld₂ hall
    have hinside : ∀ c ∈ x.children, w₁.Inside e c := fun c hc =>
      (h.inside (hchildren.subset hc)).touched ⟨x, h.get⟩ hw₁.touches
    have htouches : Touches (w.Below e) w w₂ :=
      hbelow.belowAny ⟨x, h.get⟩ hinside (hw₂.touches.swap_held w₁.held)
    refine ⟨⟨(htouches.trans (.of_held w₂ _)).swap_held held, ?_, hw₂.schedulers.trans hw₁.schedulers,
      hw₂.receivers.trans hw₁.receivers⟩, hstanding₂.untouched (.of_held w₂ _)⟩
    show w₂.held.erase e = held
    rw [show w₂.held = e :: held from hw₂.held, List.erase_cons_head]

theorem Standing.update {answer : Except ViewError Unit} (hharmless : Harmless enter)
    (hchild : ∀ child ∈ node.children, Stays enter child) (h : Standing w node e)
    (hrun : (Act.update e).runIn enter w = (some answer, w')) :
    Proceeds (w.Below e) [] w w' ∧ Standing w' node e := by
  obtain ⟨x, hnursed, hupdater, hchildren⟩ := h.inspect
  obtain ⟨w₁, hw₁, -, hx₁, heq⟩ := Act.runIn_update enter hnursed.get hupdater
  obtain ⟨htag, hidle, hslots, hcomponent⟩ := hnursed.trunk
  have h₁ := (hnursed.untouched (.of_held w (e :: w.held))).alter hw₁.touches hx₁
    ⟨htag, hidle, hslots, hcomponent⟩ rfl
  rw [heq] at hrun
  obtain ⟨first, w₂, hrefresh, hconclude⟩ := Act.runIn_bind_eq_some hrun
  have hends := h₁.refresh_ends hharmless.rules rfl hchildren
  obtain ⟨y, hw₂, hy, hnone, hprefix⟩ : Halts .quiet w₁ node e w₂ := by
    cases first with
    | ok => exact (hends.ok hrefresh).halts
    | error => exact hends.error hrefresh
  have hw₂ : Proceeds (· = e) [] w₁ w₂ := hw₂
  have hheld : w₂.held = e :: w.held := hw₂.held.trans hw₁.held
  obtain ⟨hw', hstanding⟩ := hy.conclude hchild hnone hprefix hheld hconclude
  refine ⟨⟨?_, hw'.held, ?_, ?_⟩, hstanding⟩
  · have hself : Touches (w.Below e) w w₂ :=
      ((Touches.of_held w _).trans (hw₁.touches.trans hw₂.touches)).mono fun z _ hz => hz ▸ .refl w e
    exact hself.transport (hw'.touches.swap_held w₂.held) fun z hz =>
      (hself.below ⟨x, hnursed.get⟩ hz).mp
  · exact hw'.schedulers.trans (hw₂.schedulers.trans hw₁.schedulers)
  · exact hw'.receivers.trans (hw₂.receivers.trans hw₁.receivers)

end

/-- **Updates.** Whatever an update of a standing tree answers, it has touched nothing outside of the
tree, the same elements are held as before, and the tree is standing. -/
theorem Host.update_stands {host : Host σ} (hharmless : ∀ depth, Harmless (host.enter depth))
    (depth : Nat) {node : Node Resolver} {e : ElementId} {w w' : World σ}
    {answer : Except ViewError Unit} (h : Standing w node e)
    (hrun : (Act.update e).runIn (host.enter depth) w = (some answer, w')) :
    Proceeds (w.Below e) [] w w' ∧ Standing w' node e := by
  induction depth generalizing node e w w' answer with
  | zero => exact h.update (hharmless 0) (fun _ _ _ _ _ _ _ hnever => by cases hnever) hrun
  | succ depth ih =>
    refine h.update (hharmless _) (fun child _ v c answer v' h hrun => ?_) hrun
    exact ih h hrun

/-! ### Building -/

namespace Build

variable {K : Conduct σ} {enter : Enter σ}

/-- What there is after elements have been made: new ones, which are held. -/
def Sprouted (K : Conduct σ) (w : World σ) (nodes : List (Node Resolver)) (es : List ElementId) (w' : World σ) : Prop :=
  K.Goes (fun _ => False) es.reverse w w' ∧
    ∀ e ∈ es, ∃ node ∈ nodes, ∃ context x, Sprung w' node context e x

theorem Sprouted.of_sprungs {w w' : World σ} {node : Node Resolver} (es : List ElementId)
    {contexts : List Context} (hw : K.Goes (fun _ => False) es.reverse w w')
    (hall : List.Forall₂ (fun e C => ∃ x, Sprung w' node C e x) es contexts) :
    Sprouted K w [node] es w' := by
  refine ⟨hw, fun e he => ?_⟩
  obtain ⟨context, -, x, hx⟩ := exists_of_forall₂ hall he
  exact ⟨node, List.mem_singleton_self _, context, x, hx⟩

theorem Sprouted.after {w w₁ w' : World σ} {nodes : List (Node Resolver)} {es : List ElementId}
    (h : Sprouted K w₁ nodes es w') (hw : K.Saw w w₁) : Sprouted K w nodes es w' :=
  ⟨(List.append_nil es.reverse) ▸ K.trans hw h.1, h.2⟩

theorem spread_ends (hrules : K.Rules enter) (w : World σ) (node : Node Resolver) (name : String)
    (context : Context) (list : Value) (items : List Value) :
    K.Ends enter w (spread node .headless name context list items)
      (fun last w' => Sprouted K w [node] last.elements w') (K.Saw w) := by
  refine Conduct.Ends.look (Conduct.Looks.message .trace (.pure _) |>.map _) (fun _ => id) fun _ w₁ hw₁ => ?_
  refine Conduct.Ends.look ((Conduct.Looks.frames name context items).map _) (fun _ hw₂ => hw₁.trans hw₂)
    fun contexts w₂ hw₂ => ?_
  refine Conduct.Ends.look (hrules.conditions node contexts) (fun _ hw₃ => (hw₁.trans hw₂).trans hw₃)
    fun conditions w₃ hw₃ => ?_
  have hw := (hw₁.trans hw₂).trans hw₃
  refine ((createAll_ends hrules w₃ node _).imp (fun _ _ => id) fun _ hw₄ => hw.trans hw₄).bind ?_
  rintro es w₄ ⟨hw₄, -, -, hall⟩
  exact .pure ((Sprouted.of_sprungs es hw₄ hall).after hw)

theorem instantiate_ends (hrules : K.Rules enter) (w : World σ) (node : Node Resolver)
    (context : Context) :
    K.Ends enter w (instantiate node context .headless) (Sprouted K w [node]) (K.Saw w) := by
  unfold instantiate
  split
  · refine Conduct.Ends.look (hrules.shows context node).eval (fun _ => id) fun b w₁ hw₁ => ?_
    cases b with
    | false => exact .pure ⟨hw₁, by simp⟩
    | true =>
      refine ((create_ends hrules w₁ node context).imp (fun _ _ => id) fun _ hw₂ =>
        hw₁.trans hw₂).bind ?_
      rintro c w₂ ⟨-, hw₂, x, hx⟩
      exact .pure ((Sprouted.of_sprungs [c] hw₂ (.cons ⟨x, hx⟩ .nil)).after hw₁)
  · next name resolver _ =>
    refine Conduct.Ends.look (hrules.listOf context resolver) (fun _ => id) ?_
    rintro ⟨list, items⟩ w₁ hw₁
    refine ((spread_ends hrules w₁ node name context list items).imp (fun _ _ => id) fun _ hw₂ =>
      hw₁.trans hw₂).bind ?_
    rintro last w₂ hsprouted
    exact .pure (hsprouted.after hw₁)

theorem instantiateAll_ends (hrules : K.Rules enter) (w : World σ) (context : Context)
    (nodes : List (Node Resolver)) :
    K.Ends enter w (instantiateAll context .headless nodes) (Sprouted K w nodes) (K.Saw w) := by
  induction nodes generalizing w with
  | nil => exact .pure ⟨.refl w, by simp⟩
  | cons node rest ih =>
    refine (instantiate_ends hrules w node context).bind ?_
    rintro made w₁ ⟨hw₁, hmade⟩
    refine ((ih w₁).releasing (F := K.Saw w) fun w₂ hw₂ =>
      K.release (hw₁.trans hw₂) (List.reverse_perm made)).bind ?_
    rintro es w₂ ⟨hw₂, hes⟩
    refine .pure ⟨List.reverse_append ▸ hw₁.trans hw₂, fun e he => ?_⟩
    rcases List.mem_append.mp he with he | he
    · obtain ⟨n, hn, C, x, hx⟩ := hmade e he
      obtain rfl := List.mem_singleton.mp hn
      exact ⟨n, List.mem_cons_self, C, x, hx.retained hw₂.retains⟩
    · obtain ⟨n, hn, hx⟩ := hes e he
      exact ⟨n, List.mem_cons_of_mem _ hn, hx⟩

/-- A building that succeeds has made one root and updated it. -/
theorem runIn_build_eq_ok {view : View Resolver} {C : Context} {e : ElementId} {w w' : World σ}
    (hrun : (build view C .headless).run.runIn enter w = (some (.ok e), w')) :
    ∃ w₁ w₂, (instantiateAll C .headless view.roots).run.runIn enter w = (some (.ok [e]), w₁) ∧
      (Act.enterUpdate e).runIn enter w₁ = (some (.ok ()), w₂) ∧ Looked w₂ w' := by
  obtain ⟨made, w₁, hmade, hrun⟩ := runIn_bindE_eq_ok hrun
  have hthrows : ∀ es : List ElementId, (act (Act.release es) >>= fun _ =>
      throw (.rootCount es.length) : Build σ ElementId).run.runIn enter w₁ ≠ (some (.ok e), w') := by
    intro es hthrow
    obtain ⟨-, v, -, hthrow⟩ := runIn_bindE_eq_ok hthrow
    cases hthrow
  match made, hrun with
  | [root], hrun =>
    obtain ⟨⟨⟩, w₂, hreleasing, hrun⟩ := runIn_bindE_eq_ok hrun
    obtain ⟨x, v, helement, hrun⟩ := runIn_bindE_eq_ok hrun
    obtain rfl : w₂ = v := by
      cases hx : w₂.elements.get? root.row with
      | none => cases (Act.runIn_element_none hx).symm.trans (runIn_lift_eq_ok helement)
      | some y => exact (Prod.mk.inj ((Act.runIn_element hx).symm.trans (runIn_lift_eq_ok helement))).2
    obtain ⟨⟨⟩, w₃, hmessage, hrun⟩ := runIn_bindE_eq_ok hrun
    have hlooked : Looked w₂ w₃ := Looks.message .debug (.pure _) w₂ () w₃ (runIn_lift_eq_ok hmessage)
    cases hrun
    exact ⟨w₁, w₂, hmade, runIn_releasing_eq_ok hreleasing, hlooked⟩
  | [], hrun => exact (hthrows [] hrun).elim
  | a :: b :: rest, hrun => exact (hthrows (a :: b :: rest) hrun).elim

end Build

/-- **Building.** A building that succeeds gives a standing tree of one of the roots, and holds it. -/
theorem Host.build_stands {host : Host σ} (hharmless : ∀ depth, Harmless (host.enter depth))
    (depth : Nat) {view : View Resolver} {C : Context} {e : ElementId} {w w' : World σ}
    (hrun : (Build.build view C .headless).run.runIn (host.enter (depth + 1)) w = (some (.ok e), w')) :
    ∃ node ∈ view.roots, Standing w' node e ∧ e ∈ w'.held := by
  obtain ⟨w₁, w₂, hmade, hentered, hw₃⟩ := Build.runIn_build_eq_ok hrun
  obtain ⟨hw₁, hsprouted⟩ := (Build.instantiateAll_ends (hharmless _).rules w C view.roots).ok hmade
  have hw₁ : Proceeds (fun _ => False) [e] w w₁ := hw₁
  obtain ⟨node, hnode, context, x, hx⟩ := hsprouted e (List.mem_singleton_self _)
  have hupdate : (Act.update e).runIn (host.enter depth) w₁ = (some (.ok ()), w₂) := hentered
  obtain ⟨hw₂, hstanding⟩ := host.update_stands hharmless depth hx.standing hupdate
  have hheld : w'.held = [e] ++ w.held := hw₃.held.trans (hw₂.held.trans hw₁.held)
  exact ⟨node, hnode, hstanding.untouched hw₃.touches, hheld ▸ List.mem_cons_self⟩

end ReactiveViews
