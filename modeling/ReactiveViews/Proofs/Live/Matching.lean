import ReactiveViews.Proofs.Live.Repeats

/-!
# One slot in two worlds

A slot is evaluated in two worlds that are linked, and remembers the same in both of them. It answers with
the same children that it remembers, or with new ones that come in pairs, and what it remembers then of a
list is linked.
-/

namespace ReactiveViews

variable {σ : Type}

namespace Link

variable {ρ ρ' : Link} {u u' v v' : Value}

/-- Linked values are the same together. -/
theorem Values.same_eq (hu : ρ.Values u u') (hv : ρ.Values v v') : u.same v = u'.same v' := by
  cases hu with
  | plain hu =>
    cases hv with
    | plain => rfl
    | array => cases u <;> first | rfl | cases hu
    | record => rcases u with _ | _ | _ | _ | _ | _ | _ | ⟨_ | _ | _⟩ | _ <;> first | rfl | cases hu
  | array ha =>
    cases hv with
    | plain hv => cases v <;> first | rfl | cases hv
    | array hb => exact decide_eq_decide.mpr (ρ.arrays_iff ha hb)
    | record => rfl
  | record hr =>
    cases hv with
    | plain hv => rcases v with _ | _ | _ | _ | _ | _ | _ | ⟨_ | _ | _⟩ | _ <;> first | rfl | cases hv
    | array => rfl
    | record hq => exact decide_eq_decide.mpr (ρ.records_iff hr hq)

variable {D : Scene σ} {w w' s s' : World σ} {asked known : String → Prop} {hidden loose : List String}
  {e e' c c' : ElementId} {x x' : Element} {C C' : Context} {enter : Enter σ} {es es' : List ElementId}
  {m m' : Nat} {slot : Slot} {memory memory' : Memory} {done done' rest rest' : List Slot}

/-- What is remembered of a list in either world is linked. -/
def Recalls (ρ : Link) (e e' : ElementId) (C C' : Context) (memory memory' : Memory) : Prop :=
  ∀ last, memory = .repeated (some last) → ∃ last', memory' = .repeated (some last') ∧
    ρ.Values last.list last'.list ∧ List.Forall₂ (ρ.Fronts e e' C C') last.contexts last'.contexts

theorem Recalls.mono (h : ρ.Recalls e e' C C' memory memory') (hle : ρ ≤ ρ') :
    ρ'.Recalls e e' C C' memory memory' := fun last hlast => by
  obtain ⟨last', hlast', hlist, hcontexts⟩ := h last hlast
  exact ⟨last', hlast', hlist.mono hle, hcontexts.imp fun _ _ h => h.mono hle⟩

theorem recalls_single (ρ : Link) (e e' : ElementId) (C C' : Context) (c : Option ElementId)
    (memory' : Memory) : ρ.Recalls e e' C C' (.single c) memory' := fun _ h => by cases h

theorem recalls_fresh (ρ : Link) (e e' : ElementId) (C C' : Context) (child : Node Resolver) :
    ρ.Recalls e e' C C' (Slot.fresh child).memory (Slot.fresh child).memory := fun last h => by
  unfold Slot.fresh at h
  split at h <;> cases h

/-- A slot of either element has been evaluated: it has been written, and its children are the same as
before, or new ones. -/
structure Filed (ρ : Link) (w s : World σ) (slot : Slot) (e e' : ElementId) (x x' : Element)
    (done done' rest rest' : List Slot) (memory memory' : Memory) (es es' : List ElementId) : Prop where
  /-- The stores. -/
  stores : ρ.Stores w.store s.store
  /-- The one element. -/
  left : w.elements.get? e.row = some { x with slots := done ++ ⟨slot.node, memory⟩ :: rest }
  /-- The other element. -/
  right : s.elements.get? e'.row = some { x' with slots := done' ++ ⟨slot.node, memory'⟩ :: rest' }
  /-- What is remembered. -/
  recalls : ρ.Recalls e e' x.context x'.context memory memory'
  /-- The children. -/
  children : List.Forall₂ (fun c c' => ρ.Offspring w s slot.node e e' x.context x'.context c c' ∨
    c = c' ∧ c ∈ slot.elements) es es'

/-- What there is after a slot has been evaluated in either world. -/
def Files (ρ : Link) (w s : World σ) (slot : Slot) (e e' : ElementId) (x x' : Element)
    (done done' rest rest' : List Slot) (es es' : List ElementId) (w' s' : World σ) : Prop :=
  ∃ ρ' memory memory', ρ.Extends ρ' w.store s.store ∧
    ρ'.Filed w' s' slot e e' x x' done done' rest rest' memory memory' es es'

theorem Files.after {ρ₁ : Link} {w₁ s₁ : World σ}
    (h : ρ₁.Files w₁ s₁ slot e e' x x' done done' rest rest' es es' w' s')
    (hadvances : Advances ρ ρ₁ w w₁ s s₁) :
    ρ.Files w s slot e e' x x' done done' rest rest' es es' w' s' := by
  obtain ⟨ρ', memory, memory', hextends, hfiled⟩ := h
  exact ⟨ρ', memory, memory',
    hadvances.step.extends_.trans hextends hadvances.step.left.store hadvances.step.right.store, hfiled⟩

/-- A slot that is left as it is. -/
theorem Files.keep (hx : w.elements.get? e.row = some x) (hx' : s.elements.get? e'.row = some x')
    (hslots : x.slots = done ++ slot :: rest) (hslots' : x'.slots = done' ++ slot :: rest')
    (hstores : ρ.Stores w.store s.store)
    (hrecalls : ρ.Recalls e e' x.context x'.context slot.memory slot.memory) :
    ρ.Files w s slot e e' x x' done done' rest rest' slot.elements slot.elements w s :=
  ⟨ρ, slot.memory, slot.memory, .refl _ _ _, hstores, by rw [hx, ← hslots], by rw [hx', ← hslots'], hrecalls,
    List.forall₂_same.mpr fun _ hc => .inr ⟨rfl, hc⟩⟩

/-- New children are written into a slot. -/
theorem Files.lodge (enter : Enter σ) (hx : w.elements.get? e.row = some x)
    (hx' : s.elements.get? e'.row = some x') (hslots : x.slots = done ++ slot :: rest)
    (hslots' : x'.slots = done' ++ slot :: rest') (hstores : ρ.Stores w.store s.store)
    (hall : List.Forall₂ (ρ.Offspring w s slot.node e e' x.context x'.context) es es')
    (hrecalls : ρ.Recalls e e' x.context x'.context memory memory') :
    Tracks enter w s (Build.lodge e done.length memory es) (Build.lodge e' done'.length memory' es')
      (ρ.Files w s slot e e' x x' done done' rest rest') := by
  obtain ⟨s₁, hrun', hs, hs₁⟩ := Build.runIn_lodge enter hx' done'.length memory' es'
  intro es₁ w₁ hrun
  obtain ⟨rfl, hw, hw₁⟩ := Build.runIn_lodge_eq_ok hx hrun
  rw [hslots, modify_append_cons] at hw₁
  rw [hslots', modify_append_cons] at hs₁
  refine ⟨es', s₁, hrun', ρ, memory, memory', .refl _ _ _, hstores.grow hw.store hs.store, hw₁, hs₁, hrecalls,
    hall.imp fun c c' h => .inl ?_⟩
  obtain ⟨hinside, hinside'⟩ := h.inside (World.lineage_eq hx) (World.lineage_eq hx')
  refine h.touched hw hs ?_ ?_
  · rintro rfl
    exact hinside.not_below (.refl w c)
  · rintro rfl
    exact hinside'.not_below (.refl s c')

/-- A slot that remembers no child any more. -/
theorem Files.vacate (enter : Enter σ) (hx : w.elements.get? e.row = some x)
    (hx' : s.elements.get? e'.row = some x') (hslots : x.slots = done ++ slot :: rest)
    (hslots' : x'.slots = done' ++ slot :: rest') (hstores : ρ.Stores w.store s.store) :
    Tracks enter w s
      (Build.act (Build.remember e done.length (.single none)) >>= fun _ => pure [])
      (Build.act (Build.remember e' done'.length (.single none)) >>= fun _ => pure [])
      (ρ.Files w s slot e e' x x' done done' rest rest') := by
  obtain ⟨w₁, hrun, hw, hx₁⟩ : Alters enter w e (Build.remember e done.length (.single none)) () _ :=
    .updateElement hx _ fun _ => rfl
  obtain ⟨s₁, hrun', hs, hx₁'⟩ : Alters enter s e' (Build.remember e' done'.length (.single none)) () _ :=
    .updateElement hx' _ fun _ => rfl
  refine .step (Act.runIn_lift hrun) (Act.runIn_lift hrun') (.pure ⟨ρ, .single none, .single none, .refl _ _ _,
    hstores.grow hw.touches.store hs.touches.store, ?_, ?_, recalls_single _ _ _ _ _ _ _, .nil⟩)
  · rw [hx₁, hslots, modify_append_cons]
  · rw [hx₁', hslots', modify_append_cons]

section

variable (hinnocent : Innocent D enter) (hharmless : Harmless enter)
  (hfits : Fits D asked known hidden loose slot.node) (hx : w.elements.get? e.row = some x)
  (hx' : s.elements.get? e'.row = some x') (hslots : x.slots = done ++ slot :: rest)
  (hslots' : x'.slots = done' ++ slot :: rest')
  (hnear : ρ.Near D (Uncovered asked hidden) loose (.object (.scope m e) :: x.context)
    (.object (.scope m' e') :: x'.context) w s)

include hinnocent hharmless hfits hx hx' hslots hslots' hnear

/-- A single child. -/
theorem Near.evaluateSingle {cached : Option ElementId} (hcached : slot.memory = .single cached) :
    Tracks enter w s
      (Build.evaluateSingle e done.length slot.node cached (.object (.scope m e) :: x.context) .headless)
      (Build.evaluateSingle e' done'.length slot.node cached (.object (.scope m' e') :: x'.context) .headless)
      (ρ.Files w s slot e e' x x' done done' rest rest') := by
  unfold Build.evaluateSingle
  refine (hnear.shows hinnocent hharmless hfits.condition).eval.tracks.bind ?_
  rintro b _ w₁ s₁ - - ⟨ρ₁, hgoes, rfl⟩
  have h₁ := Advances.of_goes hgoes
  have hx₁ := h₁.step.left.get? hx id
  have hx₁' := h₁.step.right.get? hx' id
  cases b with
  | false =>
    exact (Files.vacate enter hx₁ hx₁' hslots hslots' h₁.step.stores).imp fun _ _ _ _ h => h.after h₁
  | true =>
    cases cached with
    | some c =>
      have helements : slot.elements = [c] := by
        rw [Slot.elements, hcached]
        rfl
      have hfiles := Files.keep hx₁ hx₁' hslots hslots' h₁.step.stores
        (hcached ▸ recalls_single ρ₁ e e' x.context x'.context (some c) slot.memory)
      rw [helements] at hfiles
      exact .pure (hfiles.after h₁)
    | none =>
      refine (((hnear.advance h₁).settling slot.node).create hinnocent hharmless hfits.anew
        (once_subset slot.node loose)).bind ?_
      rintro c c' w₂ s₂ - - ⟨ρ₂, h₂, hcognate⟩
      refine (Files.lodge enter (h₂.step.left.get? hx₁ id) (h₂.step.right.get? hx₁' id) hslots hslots'
        h₂.step.stores (.cons ⟨_, _, .scopes ρ₂ _ _ _ _ _ _, hcognate⟩ .nil)
        (recalls_single ρ₂ _ _ _ _ (some c) (.single (some c')))).imp ?_
      exact fun _ _ _ _ h => h.after (h₁.trans h₂)

/-- A list that is shown from nothing. -/
theorem Near.evaluateAnew (name : String) {list list' : Value} (hlist : ρ.Values list list')
    {items items' : List Value} (hitems : List.Forall₂ ρ.Values items items') :
    Tracks enter w s
      (Build.spread slot.node .headless name (.object (.scope m e) :: x.context) list items >>=
        Build.settle e done.length)
      (Build.spread slot.node .headless name (.object (.scope m' e') :: x'.context) list' items' >>=
        Build.settle e' done'.length)
      (ρ.Files w s slot e e' x x' done done' rest rest') := by
  refine (hnear.spread hinnocent hharmless hfits.condition
    (List.subset_append_left loose slot.node.dresses) hfits.anew (once_subset slot.node loose) name list list'
    hitems).bind ?_
  rintro last last' w₁ s₁ - - ⟨ρ₁, h₁, hlast, hlast', hcontexts, hspreads⟩
  refine (Files.lodge enter (h₁.step.left.get? hx id) (h₁.step.right.get? hx' id) hslots hslots'
    h₁.step.stores hspreads ?_).imp fun _ _ _ _ h => h.after h₁
  rintro _ ⟨rfl⟩
  exact ⟨last', rfl, hlast ▸ hlast' ▸ hlist.mono h₁.step.le, hcontexts⟩

/-- A list that is shown from memory. -/
theorem Near.reuse {last : Repetition} (hlast : slot.memory = .repeated (some last))
    (hrecalls : ρ.Recalls e e' x.context x'.context slot.memory slot.memory) :
    Tracks enter w s (Build.reuse e done.length slot.node last .headless)
      (Build.reuse e' done'.length slot.node last .headless)
      (ρ.Files w s slot e e' x x' done done' rest rest') := by
  obtain ⟨_, hlast', hlist, hcontexts⟩ := hrecalls last hlast
  cases hlast.symm.trans hlast'
  unfold Build.reuse
  refine (Near.conditions hinnocent hharmless hnear.worlds hfits.condition (hcontexts.imp fun _ _ hfronts =>
    (hnear.fronts hfronts).contexts)).tracks.bind ?_
  rintro conditions _ w₁ s₁ - - ⟨ρ₁, hgoes, rfl⟩
  have h₁ := Advances.of_goes hgoes
  have hx₁ := h₁.step.left.get? hx id
  have hx₁' := h₁.step.right.get? hx' id
  split
  · have helements : slot.elements = last.elements := by
      rw [Slot.elements, hlast]
      rfl
    rw [← helements]
    exact .pure (Files.after (.keep hx₁ hx₁' hslots hslots' h₁.step.stores (hrecalls.mono h₁.step.le)) h₁)
  · refine (Tracks.message .trace _ _).bind ?_
    rintro ⟨⟩ ⟨⟩ w₂ s₂ - - ⟨hw₂, hs₂⟩
    have h₂ := h₁.trans (.of_looked h₁.step.stores hw₂ hs₂)
    refine (Near.createAll hinnocent hharmless ((hnear.advance h₂).settling slot.node) hfits.anew
      (once_subset slot.node loose) (forall₂_shown (hcontexts.imp fun _ _ h => h.mono h₁.step.le)
        conditions)).bind ?_
    rintro es es' w₃ s₃ - - ⟨ρ₃, h₃, hall⟩
    refine (Files.lodge enter (h₃.step.left.get? (hw₂.touches.get? hx₁ id) id)
      (h₃.step.right.get? (hs₂.touches.get? hx₁' id) id) hslots hslots' h₃.step.stores hall ?_).imp
      fun _ _ _ _ h => h.after (h₂.trans h₃)
    rintro _ ⟨rfl⟩
    exact ⟨_, rfl, hlist.mono (h₂.trans h₃).step.le,
      hcontexts.imp fun _ _ h => h.mono (h₂.trans h₃).step.le⟩

/-- **Slots.** What remembers the same in both worlds is evaluated in the same way. -/
theorem Near.evaluate (hlodges : Lodges w e x.context slot.node slot.memory)
    (hrecalls : ρ.Recalls e e' x.context x'.context slot.memory slot.memory) :
    Tracks enter w s (Build.evaluate e done.length slot (.object (.scope m e) :: x.context) .headless)
      (Build.evaluate e' done'.length slot (.object (.scope m' e') :: x'.context) .headless)
      (ρ.Files w s slot e e' x x' done done' rest rest') := by
  unfold Build.evaluate
  cases hmemory : slot.memory with
  | single cached =>
    exact hnear.evaluateSingle hinnocent hharmless hfits hx hx' hslots hslots' hmemory
  | repeated last =>
    obtain ⟨name, resolver, hrepetition⟩ :
        ∃ name resolver, slot.node.repetition = some (name, resolver) := by
      rw [hmemory] at hlodges
      cases hlodges <;> exact ⟨_, _, ‹_›⟩
    rw [hrepetition]
    refine (hnear.listOf hinnocent hharmless (hfits.repetition name resolver hrepetition)).tracks.bind ?_
    rintro ⟨list, items⟩ ⟨list', items'⟩ w₁ s₁ - - ⟨ρ₁, hgoes, hvalues, hitems⟩
    have h₁ := Advances.of_goes hgoes
    have hx₁ := h₁.step.left.get? hx id
    have hx₁' := h₁.step.right.get? hx' id
    have hanew := ((hnear.advance h₁).evaluateAnew hinnocent hharmless hfits hx₁ hx₁' hslots hslots' name
      hvalues hitems).imp fun _ _ _ _ h => h.after h₁
    cases last with
    | none => exact hanew
    | some last =>
      obtain ⟨_, hlast', hlist, -⟩ := hrecalls last hmemory
      cases hmemory.symm.trans hlast'
      have hsame : last.list.same list = last.list.same list' := (hlist.mono h₁.step.le).same_eq hvalues
      dsimp only
      rw [hsame, hitems.length_eq]
      split
      · obtain ⟨w₂, hnote, -⟩ := runIn_noteKept enter last w₁
        obtain ⟨s₂, hnote', -⟩ := runIn_noteKept enter last s₁
        have hw₂ := Looks.noteKept last w₁ _ w₂ hnote
        have hs₂ := Looks.noteKept last s₁ _ s₂ hnote'
        have h₂ := h₁.trans (.of_looked h₁.step.stores hw₂ hs₂)
        refine .step (Act.runIn_lift hnote) (Act.runIn_lift hnote') ?_
        exact ((hnear.advance h₂).reuse hinnocent hharmless hfits (hw₂.touches.get? hx₁ id)
          (hs₂.touches.get? hx₁' id) hslots hslots' hmemory (hrecalls.mono h₁.step.le)).imp
          fun _ _ _ _ h => h.after h₂
      · exact hanew

end

end Link

end ReactiveViews
