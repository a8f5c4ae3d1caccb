import Mathlib.Logic.Relation
import ReactiveViews.Live.Requests
import ReactiveViews.Proofs.Live.Glimpses
import ReactiveViews.Proofs.Live.Tending

/-!
# Mounted elements form a forest

An element gets its children from its slots, and the slots get theirs by making them. So no element
turns up in the slots of two others, and each is younger than the one that it is in a slot of. This does
not depend on how updates go: they may fail anywhere, and whatever runs in the middle of an update may
update any element, also the one that is being updated, as often as it likes.

What keeps two updates of one element apart is that an element in the middle of an update is without its
updater: to update it again does nothing to it. So everything that is entered meanwhile leaves its
children and its slots alone, and finds them as far as the update has got.

## What is proved

What is entered keeps the forest, and leaves the elements without updaters alone (`cultivating_update`,
`Host.cultivating`). **Mounted elements form a forest** (`Host.mounted_forest`): in every world that a
host program sees that does not append, remove or clear children and installs no updaters, each element
is mounted at most once, and on an older one.
-/

namespace ReactiveViews

variable {σ α β : Type}

/-! ### Elements in slots -/

/-- The elements in the slots of an element, in order. -/
def Element.offspring (x : Element) : List ElementId := x.slots.flatMap Slot.elements

namespace World

/-- The element has the other one in a slot. -/
def Owns (w : World σ) (e c : ElementId) : Prop :=
  ∃ x, w.elements.get? e.row = some x ∧ c ∈ x.offspring

/-- Each element is in at most one slot, of an older element, and the children of an element are in its
slots. -/
structure Forest (w : World σ) : Prop where
  /-- No element is in the slots of another one twice. -/
  nodup : ∀ {e : ElementId} {x : Element}, w.elements.get? e.row = some x → x.offspring.Nodup
  /-- An element is younger than the one that it is in a slot of. -/
  younger : ∀ {e c : ElementId}, w.Owns e c → e.row < c.row ∧ c.row < w.elements.size
  /-- No element is in slots of two others. -/
  single : ∀ {e e' c : ElementId}, w.Owns e c → w.Owns e' c → e = e'
  /-- The children are in the slots, in the same order. -/
  mounted : ∀ {e : ElementId} {x : Element}, w.elements.get? e.row = some x →
    x.children.Sublist x.offspring

/-- The element has no updater at the moment, and has these children and slots. -/
def Still (w : World σ) (e : ElementId) (children : List ElementId) (slots : List Slot) : Prop :=
  ∃ x, w.elements.get? e.row = some x ∧ x.updater = none ∧ x.children = children ∧ x.slots = slots

/-- The element has no updater at the moment. -/
def Idle (w : World σ) (e : ElementId) : Prop :=
  ∃ x, w.elements.get? e.row = some x ∧ x.updater = none

/-- The element, if it is there, has an updater. -/
def Open (w : World σ) (e : ElementId) : Prop :=
  ∀ x, w.elements.get? e.row = some x → x.updater ≠ none

/-- The element is there, and in no slot. -/
def Loose (w : World σ) (c : ElementId) : Prop := c.row < w.elements.size ∧ ∀ e, ¬ w.Owns e c

theorem open_of_size_le {w : World σ} {e : ElementId} (h : w.elements.size ≤ e.row) : w.Open e :=
  fun _ hx => absurd (Table.lt_size_of_get? hx) (Nat.not_lt.mpr h)

theorem Still.idle {w : World σ} {e : ElementId} {children : List ElementId} {slots : List Slot}
    (h : w.Still e children slots) : w.Idle e := by
  obtain ⟨x, hx, hnone, -⟩ := h
  exact ⟨x, hx, hnone⟩

theorem Still.lt_size {w : World σ} {e : ElementId} {children : List ElementId} {slots : List Slot}
    (h : w.Still e children slots) : e.row < w.elements.size := by
  obtain ⟨x, hx, -⟩ := h
  exact Table.lt_size_of_get? hx

theorem Idle.update {w : World σ} {e e' : ElementId} {f : Element → Element} (h : w.Idle e')
    (hf : ∀ x, w.elements.get? e.row = some x → x.updater = none → (f x).updater = none) :
    (w.updateElement e f).Idle e' := by
  obtain ⟨x, hx, hnone⟩ := h
  by_cases he : e' = e
  · subst he
    exact ⟨f x, get?_updateElement_self hx f, hf x hx hnone⟩
  · exact ⟨x, (get?_updateElement_of_ne w he f).trans hx, hnone⟩

/-- After a change of an element, what is in slots is in those of that element, or was before. -/
theorem Owns.of_update {w : World σ} {e : ElementId} {x : Element}
    (hx : w.elements.get? e.row = some x) {f : Element → Element} {e' c : ElementId}
    (h : (w.updateElement e f).Owns e' c) :
    (e' = e ∧ c ∈ (f x).offspring) ∨ (e' ≠ e ∧ w.Owns e' c) := by
  obtain ⟨y, hy, hmem⟩ := h
  by_cases he : e' = e
  · obtain rfl := he
    obtain rfl := Option.some.inj ((get?_updateElement_self hx f).symm.trans hy)
    exact .inl ⟨rfl, hmem⟩
  · exact .inr ⟨he, y, (get?_updateElement_of_ne w he f).symm.trans hy, hmem⟩

end World

/-! ### What may become of a forest -/

/-- The world is still a forest. The elements that were there are in no other slots than before, and
those without an updater have been left alone. -/
structure Cultivates (u w : World σ) : Prop where
  /-- It is a forest. -/
  forest : w.Forest
  /-- No element is lost. -/
  size : u.elements.size ≤ w.elements.size
  /-- Only new elements come into slots. -/
  owns : ∀ {e c : ElementId}, w.Owns e c → c.row < u.elements.size → u.Owns e c
  /-- What was without an updater is as it was. -/
  still : ∀ {e : ElementId} {children : List ElementId} {slots : List Slot},
    u.Still e children slots → w.Still e children slots

/-- The effect of everything that does not do anything to children but by updates. -/
def Cultivating : Effect σ := fun _ u w => u.Forest → Cultivates u w

namespace Cultivates

variable {u v w : World σ}

theorem refl (h : w.Forest) : Cultivates w w := ⟨h, Nat.le_refl _, fun h _ => h, id⟩

theorem trans (h : Cultivates u v) (h' : Cultivates v w) : Cultivates u w where
  forest := h'.forest
  size := Nat.le_trans h.size h'.size
  owns hc hrow := h.owns (h'.owns hc (Nat.lt_of_lt_of_le hrow h.size)) hrow
  still hstill := h'.still (h.still hstill)

theorem of_elements_eq (h : w.elements = v.elements) (hv : v.Forest) : Cultivates v w := by
  have howns {e c : ElementId} (hc : w.Owns e c) : v.Owns e c := by
    obtain ⟨x, hx, hmem⟩ := hc
    exact ⟨x, h ▸ hx, hmem⟩
  refine ⟨⟨fun hx => hv.nodup (h ▸ hx), fun hc => ?_, fun hc hc' => hv.single (howns hc) (howns hc'),
    fun hx => hv.mounted (h ▸ hx)⟩, h ▸ Nat.le_refl _, fun hc _ => howns hc, fun hstill => ?_⟩
  · rw [h]
    exact hv.younger (howns hc)
  · obtain ⟨x, hx, hstill⟩ := hstill
    exact ⟨x, h ▸ hx, hstill⟩

theorem idle (h : Cultivates v w) {e : ElementId} (he : v.Idle e) : w.Idle e := by
  obtain ⟨x, hx, hnone⟩ := he
  exact (h.still ⟨x, hx, hnone, rfl, rfl⟩).idle

theorem loose (h : Cultivates v w) {c : ElementId} (hc : v.Loose c) : w.Loose c :=
  ⟨Nat.lt_of_lt_of_le hc.1 h.size, fun e howns => hc.2 e (h.owns howns hc.1)⟩

/-- An element is changed that may be changed: what comes into its slots is new. -/
theorem update (h : Cultivates u w) {e : ElementId} {f : Element → Element} {x : Element}
    (hx : w.elements.get? e.row = some x) (hopen : u.Open e) (hnodup : (f x).offspring.Nodup)
    (hmounted : (f x).children.Sublist (f x).offspring)
    (hnew : ∀ c ∈ (f x).offspring,
      c ∈ x.offspring ∨ (u.elements.size ≤ c.row ∧ e.row < c.row ∧ w.Loose c)) :
    Cultivates u (w.updateElement e f) := by
  have hself := World.get?_updateElement_self hx f
  have hother {e' : ElementId} (he : e' ≠ e) := World.get?_updateElement_of_ne w he f
  have howns {e' c : ElementId} (hc : (w.updateElement e f).Owns e' c) := World.Owns.of_update hx hc
  -- what is in a slot of another element is not among what has come into the slots
  have hapart {e' c : ElementId} (he : e' ≠ e) (hmem : c ∈ (f x).offspring) : ¬ w.Owns e' c := by
    intro hc
    rcases hnew c hmem with hold | ⟨-, -, hloose⟩
    · exact he (h.forest.single hc ⟨x, hx, hold⟩)
    · exact hloose.2 e' hc
  refine ⟨⟨fun {e' y} hy => ?_, fun {e' c} hc => ?_, fun {e₁ e₂ c} h₁ h₂ => ?_, fun {e' y} hy => ?_⟩,
    ?_, fun {e' c} hc hrow => ?_, fun {e' children slots} hstill => ?_⟩
  · by_cases he : e' = e
    · obtain rfl := he
      obtain rfl := Option.some.inj (hself.symm.trans hy)
      exact hnodup
    · exact h.forest.nodup ((hother he).symm.trans hy)
  · rw [World.size_updateElement]
    rcases howns hc with ⟨rfl, hmem⟩ | ⟨-, hc⟩
    · rcases hnew c hmem with hold | ⟨-, hyounger, hloose⟩
      · exact h.forest.younger ⟨x, hx, hold⟩
      · exact ⟨hyounger, hloose.1⟩
    · exact h.forest.younger hc
  · rcases howns h₁ with ⟨rfl, hmem⟩ | ⟨he, hold⟩
    · rcases howns h₂ with ⟨rfl, -⟩ | ⟨he', hold'⟩
      · rfl
      · exact (hapart he' hmem hold').elim
    · rcases howns h₂ with ⟨rfl, hmem'⟩ | ⟨-, hold'⟩
      · exact (hapart he hmem' hold).elim
      · exact h.forest.single hold hold'
  · by_cases he : e' = e
    · obtain rfl := he
      obtain rfl := Option.some.inj (hself.symm.trans hy)
      exact hmounted
    · exact h.forest.mounted ((hother he).symm.trans hy)
  · rw [World.size_updateElement]
    exact h.size
  · rcases howns hc with ⟨rfl, hmem⟩ | ⟨-, hc⟩
    · rcases hnew c hmem with hold | ⟨hle, -, -⟩
      · exact h.owns ⟨x, hx, hold⟩ hrow
      · exact absurd hrow (Nat.not_lt.mpr hle)
    · exact h.owns hc hrow
  · have he : e' ≠ e := by
      rintro rfl
      obtain ⟨y, hy, hnone, -⟩ := hstill
      exact hopen y hy hnone
    obtain ⟨y, hy, hstill⟩ := h.still hstill
    exact ⟨y, (hother he).trans hy, hstill⟩

/-- An element that may be changed gets or loses its updater. -/
theorem lend (h : Cultivates u w) {e : ElementId} (hopen : u.Open e) {f : Element → Element}
    (hf : ∀ x, w.elements.get? e.row = some x →
      (f x).children = x.children ∧ (f x).slots = x.slots) :
    Cultivates u (w.updateElement e f) := by
  cases hx : w.elements.get? e.row with
  | none =>
    rw [show w.updateElement e f = w by rw [World.updateElement, hx]]
    exact h
  | some x =>
    obtain ⟨hchildren, hslots⟩ := hf x hx
    have hoffspring : (f x).offspring = x.offspring := by
      rw [Element.offspring, hslots, Element.offspring]
    refine h.update hx hopen ?_ ?_ fun c hc => .inl (hoffspring ▸ hc)
    · rw [hoffspring]
      exact h.forest.nodup hx
    · rw [hoffspring, hchildren]
      exact h.forest.mounted hx

/-- An element is changed, but its updater, its children and its slots. -/
theorem alter (hv : v.Forest) {e : ElementId} {f : Element → Element}
    (hf : ∀ x, v.elements.get? e.row = some x →
      (f x).updater = x.updater ∧ (f x).children = x.children ∧ (f x).slots = x.slots) :
    Cultivates v (v.updateElement e f) := by
  cases hx : v.elements.get? e.row with
  | none =>
    rw [show v.updateElement e f = v by rw [World.updateElement, hx]]
    exact .refl hv
  | some x =>
    obtain ⟨hupdater, hchildren, hslots⟩ := hf x hx
    have hoffspring : (f x).offspring = x.offspring := by
      rw [Element.offspring, hslots, Element.offspring]
    have hself := World.get?_updateElement_self hx f
    have hback {e' : ElementId} {y : Element} (hy : (v.updateElement e f).elements.get? e'.row = some y) :
        ∃ z, v.elements.get? e'.row = some z ∧ y.offspring = z.offspring ∧ y.children = z.children := by
      by_cases he : e' = e
      · obtain rfl := he
        obtain rfl := Option.some.inj (hself.symm.trans hy)
        exact ⟨x, hx, hoffspring, hchildren⟩
      · exact ⟨y, (World.get?_updateElement_of_ne v he f).symm.trans hy, rfl, rfl⟩
    have howns {e' c : ElementId} (hc : (v.updateElement e f).Owns e' c) : v.Owns e' c := by
      obtain ⟨y, hy, hmem⟩ := hc
      obtain ⟨z, hz, heq, -⟩ := hback hy
      exact ⟨z, hz, heq ▸ hmem⟩
    refine ⟨⟨fun hy => ?_, fun hc => ?_, fun hc hc' => hv.single (howns hc) (howns hc'), fun hy => ?_⟩,
      ?_, fun hc _ => howns hc, fun {e' children slots} hstill => ?_⟩
    · obtain ⟨z, hz, heq, -⟩ := hback hy
      rw [heq]
      exact hv.nodup hz
    · rw [World.size_updateElement]
      exact hv.younger (howns hc)
    · obtain ⟨z, hz, heq, heq'⟩ := hback hy
      rw [heq, heq']
      exact hv.mounted hz
    · rw [World.size_updateElement]
    · obtain ⟨y, hy, hstill⟩ := hstill
      by_cases he : e' = e
      · obtain rfl := he
        obtain rfl := Option.some.inj (hx.symm.trans hy)
        exact ⟨f x, hself, hupdater ▸ hstill.1, hchildren ▸ hstill.2.1, hslots ▸ hstill.2.2⟩
      · exact ⟨y, (World.get?_updateElement_of_ne v he f).trans hy, hstill⟩

/-- An element is made that has no slots and no children. -/
theorem newElement (hv : v.Forest) {x : Element} (hslots : x.slots = []) (hchildren : x.children = [])
    (held : List ElementId) :
    Cultivates v { v with elements := v.elements.add x, held } := by
  have hold {e : ElementId} {y : Element} (hy : v.elements.get? e.row = some y) :
      (v.elements.add x).get? e.row = some y :=
    (Table.get?_add_old _ _ (Table.lt_size_of_get? hy)).trans hy
  have hcases {e : ElementId} {y : Element} (hy : (v.elements.add x).get? e.row = some y) :
      v.elements.get? e.row = some y ∨ y = x := by
    have hlt := Table.lt_size_of_get? hy
    rw [Table.size_add] at hlt
    rcases Nat.lt_succ_iff_lt_or_eq.mp hlt with hlt | heq
    · exact .inl ((Table.get?_add_old _ _ hlt).symm.trans hy)
    · rw [heq, Table.get?_add_new] at hy
      exact .inr (Option.some.inj hy).symm
  have hnone : x.offspring = [] := by rw [Element.offspring, hslots, List.flatMap_nil]
  have howns {e c : ElementId}
      (hc : ({ v with elements := v.elements.add x, held } : World σ).Owns e c) : v.Owns e c := by
    obtain ⟨y, hy, hmem⟩ := hc
    rcases hcases hy with hy | rfl
    · exact ⟨y, hy, hmem⟩
    · rw [hnone] at hmem
      cases hmem
  refine ⟨⟨fun {e y} hy => ?_, fun {e c} hc => ?_, fun hc hc' => hv.single (howns hc) (howns hc'),
    fun {e y} hy => ?_⟩, ?_, fun hc _ => howns hc, fun {e children slots} hstill => ?_⟩
  · rcases hcases hy with hy | rfl
    · exact hv.nodup hy
    · rw [hnone]
      exact List.nodup_nil
  · obtain ⟨hyounger, hlt⟩ := hv.younger (howns hc)
    exact ⟨hyounger, by rw [Table.size_add]; exact Nat.lt_succ_of_lt hlt⟩
  · rcases hcases hy with hy | rfl
    · exact hv.mounted hy
    · rw [hchildren]
      exact List.nil_sublist _
  · rw [Table.size_add]
    exact Nat.le_succ _
  · obtain ⟨y, hy, hstill⟩ := hstill
    exact ⟨y, hold hy, hstill⟩

theorem record {v : World σ} (hv : v.Forest) (event : Event) : Cultivates v (v.record event) :=
  .of_elements_eq rfl hv

end Cultivates

/-! ### Parts of a building -/

/-- The act leads from a world to one that has become of the first as it may, and gives no updater to an
element of the first. If it succeeds, more is known of its answer. -/
def Yields (enter : Enter σ) (u : World σ) (act : Build σ α) (v : World σ)
    (Q : α → World σ → Prop) : Prop :=
  Cultivates u (act.run.runIn enter v).2 ∧
    (∀ e : ElementId, e.row < u.elements.size → v.Idle e → (act.run.runIn enter v).2.Idle e) ∧
    ∀ a, (act.run.runIn enter v).1 = some (.ok a) → Q a (act.run.runIn enter v).2

namespace Yields

variable {enter : Enter σ} {u v : World σ} {Q : α → World σ → Prop}

theorem of_keeps {act : Build σ α} (hv : Cultivates u v) (h : Keeps Cultivating enter act.run) :
    Yields enter u act v fun _ v' => Cultivates v v' :=
  ⟨hv.trans (h v hv.forest), fun _ _ he => (h v hv.forest).idle he, fun _ _ => h v hv.forest⟩

theorem pure (hv : Cultivates u v) {a : α} (h : Q a v) : Yields enter u (pure a) v Q :=
  ⟨hv, fun _ _ he => he, fun a' ha => by cases ha; exact h⟩

theorem imp {Q' : α → World σ → Prop} {act : Build σ α} (h : Yields enter u act v Q)
    (hQ : ∀ a w, Cultivates u w → Q a w → Q' a w) : Yields enter u act v Q' :=
  ⟨h.1, h.2.1, fun a ha => hQ a _ h.1 (h.2.2 a ha)⟩

theorem bind {Q' : β → World σ → Prop} {act : Build σ α} {f : α → Build σ β}
    (h : Yields enter u act v Q)
    (hf : ∀ a w, Cultivates u w → Q a w → Yields enter u (f a) w Q') :
    Yields enter u (act >>= f) v Q' := by
  unfold Yields at h ⊢
  rw [ExceptT.run_bind, Act.runIn_bind]
  revert h
  rcases act.run.runIn enter v with ⟨_ | error | a, w⟩
  · exact fun h => ⟨h.1, h.2.1, nofun⟩
  · exact fun h => ⟨h.1, h.2.1, nofun⟩
  · intro h
    have hrest := hf a w h.1 (h.2.2 a rfl)
    exact ⟨hrest.1, fun e hrow he => hrest.2.1 e hrow (h.2.1 e hrow he), hrest.2.2⟩

/-- What has become of a later world has become of an earlier one. -/
theorem since {act : Build σ α} (hv : Cultivates u v) (h : Yields enter v act v Q) :
    Yields enter u act v fun a w => Cultivates v w ∧ Q a w :=
  ⟨hv.trans h.1, fun _ _ he => h.1.idle he, fun a ha => ⟨h.1, h.2.2 a ha⟩⟩

theorem releasing (h : Overlooks Cultivating enter) {act : Build σ α} (es : List ElementId)
    (hact : Yields enter u act v Q) : Yields enter u (Build.releasing es act) v Q := by
  have hrun : (Build.releasing es act).run.runIn enter v =
      (do
        let answer ← act.run
        if answer.toBool = false then Act.release es
        return answer : Act σ (Except ViewError α)).runIn enter v := rfl
  unfold Yields at hact ⊢
  rw [hrun, Act.runIn_bind]
  revert hact
  rcases act.run.runIn enter v with ⟨_ | error | a, w⟩
  · exact id
  · intro hact
    have hrelease := h.release es w hact.1.forest
    exact ⟨hact.1.trans hrelease, fun e hrow he => hrelease.idle (hact.2.1 e hrow he), nofun⟩
  · exact id

/-- A look at an element. -/
theorem element (hv : Cultivates u v) {e : ElementId} {x : Element}
    (hx : v.elements.get? e.row = some x) :
    Yields enter u (Build.act (Act.element e)) v fun y w => y = x ∧ w = v := by
  have hrun : (Build.act (Act.element e)).run.runIn enter v = (some (.ok x), v) := by
    show (Except.ok <$> Act.element e).runIn enter v = _
    rw [Act.runIn_map, Act.runIn_element hx]
    rfl
  unfold Yields
  rw [hrun]
  exact ⟨hv, fun _ _ he => he, fun y hy => by cases hy; exact ⟨rfl, rfl⟩⟩

/-- An element is changed. -/
theorem updateElement {e : ElementId} {f : Element → Element}
    (h : Cultivates u (v.updateElement e f)) (hf : ∀ x, (f x).updater = x.updater) :
    Yields enter u (Build.act (Act.updateElement e f)) v fun _ w => w = v.updateElement e f :=
  ⟨h, fun _ _ he => he.update fun x _ hnone => (hf x).trans hnone, fun _ _ => rfl⟩

end Yields

/-! ### Attributes and handlers -/

section

variable {enter : Enter σ}

theorem cultivating_draw (e : ElementId) (f : Element → Element)
    (hf : ∀ x, f x = { x with component := (f x).component, busy := (f x).busy }) :
    Keeps Cultivating enter (Act.updateElement e f) := fun _ hv =>
  .alter hv fun x _ => by rw [hf x]; exact ⟨rfl, rfl, rfl⟩

variable (h : Overlooks Cultivating enter)

include h

theorem cultivating_change (e : ElementId) (own : Headless → Except ComponentError Headless)
    {foreign : Nat → Act σ (Except ComponentError Unit)}
    (hforeign : ∀ c, Keeps Cultivating enter (foreign c)) :
    Keeps Cultivating enter (Act.change e own foreign) :=
  h.change (cultivating_draw e) own hforeign

theorem cultivating_setAttribute (e : ElementId) (name : String) (v : Value) :
    Keeps Cultivating enter (Act.setAttribute e name v) :=
  h.setAttribute (cultivating_draw e) name v

theorem cultivating_addListener (e : ElementId) (event : String) (handler : Handler) :
    Keeps Cultivating enter (Act.addListener e event handler) :=
  h.addListener (cultivating_draw e) event handler

theorem cultivating_describe (e : ElementId) (name : String) (text : Option String) :
    Keeps Cultivating enter (Build.describe e name text).run := by
  cases text with
  | some text => exact h.component (cultivating_setAttribute h e name _)
  | none => exact h.pureE _

theorem cultivating_listen (e : ElementId) (handlers : List (String × Resolver)) :
    Keeps Cultivating enter (Build.listen e handlers).run := by
  induction handlers with
  | nil => exact h.pureE _
  | cons handler rest ih =>
    exact h.bindE (h.component (cultivating_addListener h e _ _)) fun _ => ih

theorem cultivating_assign (e : ElementId) (context : Context)
    (attributes : List (String × Resolver)) :
    Keeps Cultivating enter (Build.assign e context attributes).run := by
  induction attributes with
  | nil => exact h.pureE _
  | cons entry rest ih =>
    exact h.bindE (h.eval (h.resolve context _)) fun v =>
      h.bindE (h.component (cultivating_setAttribute h e _ v)) fun _ => ih

/-! ### Making elements -/

/-- A new element gets its updater, with slots that are empty. -/
theorem yields_furnish {u v : World σ} (hv : Cultivates u v) {e : ElementId}
    (hnew : u.elements.size ≤ e.row) (hstill : v.Still e [] []) (node : Node Resolver) (factory : Factory) :
    Yields enter u (Build.furnish e node factory) v fun _ w => ∀ c, v.Loose c → w.Loose c := by
  refine (Yields.of_keeps hv (cultivating_describe h e _ _)).bind fun _ v₁ hv₁ h₁ => ?_
  refine (Yields.of_keeps hv₁ (cultivating_describe h e _ _)).bind fun _ v₂ hv₂ h₂ => ?_
  refine (Yields.of_keeps hv₂ (cultivating_listen h e _)).bind fun _ v₃ hv₃ h₃ => ?_
  refine (Yields.of_keeps hv₃ (h.liftE (h.contextOf e))).bind fun scope v₄ hv₄ h₄ => ?_
  refine (Yields.of_keeps hv₄ (cultivating_assign h e scope _)).bind fun _ v₅ hv₅ h₅ => ?_
  have hfrom : Cultivates v v₅ := h₁.trans (h₂.trans (h₃.trans (h₄.trans h₅)))
  obtain ⟨x, hx, -, hchildren, -⟩ := hfrom.still hstill
  have hfresh : (node.children.map Slot.fresh).flatMap Slot.elements = [] := by
    rw [List.flatMap_eq_nil_iff]
    intro slot hslot
    obtain ⟨child, -, rfl⟩ := List.mem_map.mp hslot
    exact Slot.elements_fresh child
  have hinstalled : Cultivates u (v₅.updateElement e fun y =>
      { y with updater := some (.view node factory), slots := node.children.map Slot.fresh }) := by
    refine hv₅.update hx (World.open_of_size_le hnew) ?_ ?_ fun c hc => ?_
    · rw [Element.offspring, hfresh]
      exact List.nodup_nil
    · rw [hchildren]
      exact List.nil_sublist _
    · rw [Element.offspring, hfresh] at hc
      cases hc
  have hrecorded := Cultivates.record hinstalled.forest (.installed e none)
  refine ⟨hinstalled.trans hrecorded, fun e' hrow he => hrecorded.idle ?_,
    fun _ _ c hc => hrecorded.loose ?_⟩
  · obtain ⟨y, hy, hnone⟩ := he
    have hne : e' ≠ e := by
      rintro rfl
      exact Nat.not_lt.mpr hnew hrow
    exact ⟨y, (World.get?_updateElement_of_ne _ hne _).trans hy, hnone⟩
  have hloose := hfrom.loose hc
  refine ⟨by rw [World.size_updateElement]; exact hloose.1, fun e' howns => ?_⟩
  rcases World.Owns.of_update hx howns with ⟨-, hmem⟩ | ⟨-, hold⟩
  · rw [Element.offspring, hfresh] at hmem
    cases hmem
  · exact hloose.2 e' hold

theorem yields_create {v : World σ} (hv : v.Forest) (node : Node Resolver) (context : Context)
    (factory : Factory) :
    Yields enter v (Build.create node context factory) v fun c w =>
      v.elements.size ≤ c.row ∧ w.Loose c := by
  refine (Yields.of_keeps (.refl hv) (h.component (h.make factory _))).bind fun made v₁ hv₁ _ => ?_
  -- a new element is in no slot, since what is in a slot is there
  let x : Element := ⟨node.tag, made, false, context, [], none, []⟩
  let v₂ : World σ :=
    { v₁ with elements := v₁.elements.add x, held := ⟨v₁.elements.size⟩ :: v₁.held }
  have hmade : Cultivates v₁ v₂ := .newElement hv₁.forest rfl rfl _
  have hnew : Yields enter v (Build.act (Act.newElement node.tag made context)) v₁ fun e w =>
      e = ⟨v₁.elements.size⟩ ∧ w = v₂ :=
    ⟨hv₁.trans hmade, fun _ _ he => hmade.idle he, fun e he => by cases he; exact ⟨rfl, rfl⟩⟩
  refine hnew.bind fun e w hw he => ?_
  obtain ⟨rfl, rfl⟩ := he
  have hstill : v₂.Still ⟨v₁.elements.size⟩ [] [] := ⟨x, Table.get?_add_new _ _, rfl, rfl, rfl⟩
  have hloose : v₂.Loose ⟨v₁.elements.size⟩ := by
    refine ⟨hstill.lt_size, fun e howns => ?_⟩
    obtain ⟨y, hy, hmem⟩ := howns
    have hlt := Table.lt_size_of_get? hy
    rw [Table.size_add] at hlt
    rcases Nat.lt_succ_iff_lt_or_eq.mp hlt with hlt | heq
    · have hold := (Table.get?_add_old _ x hlt).symm.trans hy
      exact Nat.lt_irrefl _ (hv₁.forest.younger ⟨y, hold, hmem⟩).2
    · rw [heq, Table.get?_add_new] at hy
      cases hy
      cases hmem
  have hfurnish := yields_furnish h hw hv₁.size hstill node factory
  refine (hfurnish.releasing h [_]).bind fun _ w hw' hkept => ?_
  exact .pure hw' ⟨hv₁.size, hkept _ hloose⟩

/-- New elements, each in no slot. -/
theorem yields_createAll (node : Node Resolver) (factory : Factory) (contexts : List Context)
    {v : World σ} (hv : v.Forest) :
    Yields enter v (Build.createAll node factory contexts) v fun cs w =>
      cs.Nodup ∧ ∀ c ∈ cs, v.elements.size ≤ c.row ∧ w.Loose c := by
  induction contexts generalizing v with
  | nil => exact .pure (.refl hv) ⟨List.nodup_nil, nofun⟩
  | cons context rest ih =>
    refine (yields_create h hv node context factory).bind fun c v₁ hv₁ hc => ?_
    refine (((ih hv₁.forest).releasing h [c]).since hv₁).bind fun cs w hw hcs => ?_
    obtain ⟨h₁, hnodup, hall⟩ := hcs
    refine .pure hw ⟨List.nodup_cons.mpr ⟨fun hmem => ?_, hnodup⟩, fun d hd => ?_⟩
    · exact Nat.not_lt.mpr (hall c hmem).1 hc.2.1
    · rcases List.mem_cons.mp hd with rfl | hd
      · exact ⟨hc.1, h₁.loose hc.2⟩
      · exact ⟨Nat.le_trans hv₁.size (hall d hd).1, (hall d hd).2⟩

theorem yields_spread {v : World σ} (hv : v.Forest) (node : Node Resolver) (factory : Factory)
    (name : String) (context : Context) (list : Value) (items : List Value) :
    Yields enter v (Build.spread node factory name context list items) v fun last w =>
      last.elements.Nodup ∧ ∀ c ∈ last.elements, v.elements.size ≤ c.row ∧ w.Loose c := by
  refine (Yields.of_keeps (.refl hv) (h.liftE (h.message _ (h.pure _)))).bind fun _ v₁ hv₁ _ => ?_
  refine (Yields.of_keeps hv₁ (h.liftE (h.frames name context items))).bind fun _ v₂ hv₂ _ => ?_
  refine (Yields.of_keeps hv₂ (h.conditions node _)).bind fun _ v₃ hv₃ _ => ?_
  refine ((yields_createAll h node factory _ hv₃.forest).since hv₃).bind fun cs w hw hcs => ?_
  obtain ⟨-, hnodup, hall⟩ := hcs
  exact .pure hw ⟨hnodup, fun c hc => ⟨Nat.le_trans hv₃.size (hall c hc).1, (hall c hc).2⟩⟩

end

/-! ### Slots -/

/-- An element in the middle of an update that has got to one of its slots. -/
structure Stocking (u v : World σ) (e : ElementId) (children : List ElementId) (filled : List Slot)
    (slot : Slot) (rest : List Slot) : Prop where
  /-- What has become of the world in which the update began. -/
  since : Cultivates u v
  /-- There the element had its updater. -/
  opened : u.Open e
  /-- It was there. -/
  there : e.row < u.elements.size
  /-- Its children and its slots. -/
  still : v.Still e children (filled ++ slot :: rest)
  /-- The children come from the slots that are filled. -/
  mounted : children.Sublist (filled.flatMap Slot.elements)

/-- The slot at that place has been evaluated, and the elements of the answer are in it. -/
def Stocked (e : ElementId) (children : List ElementId) (filled rest : List Slot) (es : List ElementId)
    (w : World σ) : Prop :=
  ∃ slot : Slot, es.Sublist slot.elements ∧ w.Still e children (filled ++ slot :: rest)

section

variable {enter : Enter σ} {u v : World σ} {e : ElementId} {children : List ElementId}
  {filled rest : List Slot} {slot : Slot}

theorem Stocking.next (hstocking : Stocking u v e children filled slot rest) {w : World σ}
    (hw : Cultivates v w) : Stocking u w e children filled slot rest :=
  { hstocking with since := hstocking.since.trans hw, still := hw.still hstocking.still }

/-- The memory of the slot is written: its elements are new, and in no slot yet. -/
theorem Stocking.remember (hstocking : Stocking u v e children filled slot rest) (memory : Memory)
    (hnodup : ({ slot with memory } : Slot).elements.Nodup)
    (hnew : ∀ c ∈ ({ slot with memory } : Slot).elements, u.elements.size ≤ c.row ∧ v.Loose c) :
    Yields enter u (Build.act (Build.remember e filled.length memory)) v fun _ w =>
      Stocked e children filled rest ({ slot with memory } : Slot).elements w := by
  obtain ⟨x, hx, hnone, hchildren, hslots⟩ := hstocking.still
  let f : Element → Element := fun y =>
    { y with slots := y.slots.modify filled.length fun s => { s with memory } }
  have hmodified : (f x).slots = filled ++ { slot with memory } :: rest := by
    show x.slots.modify filled.length _ = _
    rw [hslots, modify_append_cons]
  have hoffspring : (f x).offspring = filled.flatMap Slot.elements ++
      (({ slot with memory } : Slot).elements ++ rest.flatMap Slot.elements) := by
    rw [Element.offspring, hmodified, List.flatMap_append, List.flatMap_cons]
  have hbefore : x.offspring = filled.flatMap Slot.elements ++
      (slot.elements ++ rest.flatMap Slot.elements) := by
    rw [Element.offspring, hslots, List.flatMap_append, List.flatMap_cons]
  have hwas := hstocking.since.forest.nodup hx
  have hnot {c : ElementId} (hc : c ∈ ({ slot with memory } : Slot).elements) : c ∉ x.offspring :=
    fun hmem => (hnew c hc).2.2 e ⟨x, hx, hmem⟩
  rw [hbefore] at hwas hnot
  have hupdated : Cultivates u (v.updateElement e f) := by
    refine hstocking.since.update hx hstocking.opened ?_ ?_ fun c hc => ?_
    · rw [hoffspring]
      simp only [List.nodup_append, List.mem_append] at hwas ⊢
      refine ⟨hwas.1, ⟨hnodup, hwas.2.1.2.1, fun c hc d hd heq => ?_⟩, fun c hc d hd heq => ?_⟩
      · exact hnot hc (by simp [heq, hd])
      · rcases hd with hd | hd
        · exact hnot hd (by simp [← heq, hc])
        · exact hwas.2.2 c hc d (.inr hd) heq
    · rw [hoffspring]
      show x.children.Sublist _
      rw [hchildren]
      exact hstocking.mounted.trans (List.sublist_append_left _ _)
    · rw [hoffspring] at hc
      rw [hbefore]
      simp only [List.mem_append] at hc ⊢
      rcases hc with hc | hc | hc
      · exact .inl (.inl hc)
      · exact .inr ⟨(hnew c hc).1, Nat.lt_of_lt_of_le hstocking.there (hnew c hc).1, (hnew c hc).2⟩
      · exact .inl (.inr (.inr hc))
  refine (Yields.updateElement hupdated fun _ => rfl).imp fun _ w _ hw => ?_
  rw [hw]
  exact ⟨{ slot with memory }, .refl _, f x, World.get?_updateElement_self hx f, hnone, hchildren,
    hmodified⟩

/-- The slot is left as it is. -/
theorem Stocking.keep (hstocking : Stocking u v e children filled slot rest) {es : List ElementId}
    (hes : es.Sublist slot.elements) :
    Yields enter u (pure es : Build σ (List ElementId)) v (Stocked e children filled rest) :=
  .pure hstocking.since ⟨slot, hes, hstocking.still⟩

variable (h : Overlooks Cultivating enter)

include h

/-- New elements come into the slot and are let go. -/
theorem Stocking.settle (hstocking : Stocking u v e children filled slot rest) {memory : Memory}
    {es : List ElementId} (hes : ({ slot with memory } : Slot).elements = es) (hnodup : es.Nodup)
    (hnew : ∀ c ∈ es, u.elements.size ≤ c.row ∧ v.Loose c) :
    Yields enter u (do
        Build.act (Build.remember e filled.length memory)
        Build.act (Act.release es)
        return es) v (Stocked e children filled rest) := by
  subst hes
  refine (hstocking.remember memory hnodup hnew).bind fun _ v₁ hv₁ hstocked => ?_
  refine (Yields.of_keeps hv₁ (h.liftE (h.release _))).bind fun _ w hw hreleased => .pure hw ?_
  obtain ⟨slot', hes, hstill⟩ := hstocked
  exact ⟨slot', hes, hreleased.still hstill⟩

theorem Stocking.evaluateSingle (hstocking : Stocking u v e children filled slot rest)
    {cached : Option ElementId} (hmemory : slot.memory = .single cached) (node : Node Resolver)
    (context : Context) (factory : Factory) :
    Yields enter u (Build.evaluateSingle e filled.length node cached context factory) v
      (Stocked e children filled rest) := by
  refine (Yields.of_keeps hstocking.since (h.eval (h.shows context node))).bind
    fun shown v₁ _ h₁ => ?_
  have hstocking₁ := hstocking.next h₁
  split
  · cases cached with
    | some child => exact hstocking₁.keep (by rw [Slot.elements, hmemory]; exact .refl _)
    | none =>
      refine ((yields_create h hstocking₁.since.forest node context factory).since
        hstocking₁.since).bind fun c v₂ _ hc => ?_
      obtain ⟨h₂, hle, hloose⟩ := hc
      refine (hstocking₁.next h₂).settle h rfl (List.nodup_singleton c) fun d hd => ?_
      obtain rfl := List.mem_singleton.mp hd
      exact ⟨Nat.le_trans hstocking₁.since.size hle, hloose⟩
  · exact (hstocking₁.remember (.single none) List.nodup_nil fun _ hc => by cases hc).bind
      fun _ w hw hstocked => .pure hw hstocked

/-- What a list is spread out to comes into the slot. -/
theorem Stocking.spread (hstocking : Stocking u v e children filled slot rest) (node : Node Resolver)
    (name : String) (context : Context) (list : Value) (items : List Value) (factory : Factory) :
    Yields enter u (do
        Build.settle e filled.length (← Build.spread node factory name context list items)) v
      (Stocked e children filled rest) := by
  refine ((yields_spread h hstocking.since.forest node factory name context list items).since
    hstocking.since).bind fun last v₁ _ hlast => ?_
  obtain ⟨h₁, hnodup, hall⟩ := hlast
  exact (hstocking.next h₁).settle h rfl hnodup fun c hc =>
    ⟨Nat.le_trans hstocking.since.size (hall c hc).1, (hall c hc).2⟩

theorem Stocking.reuse (hstocking : Stocking u v e children filled slot rest) {last : Repetition}
    (hmemory : slot.memory = .repeated (some last)) (node : Node Resolver) (factory : Factory) :
    Yields enter u (Build.reuse e filled.length node last factory) v
      (Stocked e children filled rest) := by
  refine (Yields.of_keeps hstocking.since (h.conditions node _)).bind fun conditions v₁ _ h₁ => ?_
  have hstocking₁ := hstocking.next h₁
  split
  · exact hstocking₁.keep (by rw [Slot.elements, hmemory]; exact .refl _)
  · refine (Yields.of_keeps hstocking₁.since (h.liftE (h.message _ (h.pure _)))).bind
      fun _ v₂ _ h₂ => ?_
    have hstocking₂ := hstocking₁.next h₂
    refine ((yields_createAll h node factory _ hstocking₂.since.forest).since hstocking₂.since).bind
      fun cs v₃ _ hcs => ?_
    obtain ⟨h₃, hnodup, hall⟩ := hcs
    exact (hstocking₂.next h₃).settle h rfl hnodup fun c hc =>
      ⟨Nat.le_trans hstocking₂.since.size (hall c hc).1, (hall c hc).2⟩

theorem Stocking.evaluateRepeated (hstocking : Stocking u v e children filled slot rest)
    {last : Option Repetition} (hmemory : slot.memory = .repeated last) (node : Node Resolver)
    (name : String) (resolver : Resolver) (context : Context) (factory : Factory) :
    Yields enter u
      (Build.evaluateRepeated e filled.length node name resolver last context factory) v
      (Stocked e children filled rest) := by
  refine (Yields.of_keeps hstocking.since (h.listOf context resolver)).bind
    fun ⟨list, items⟩ v₁ _ h₁ => ?_
  have hstocking₁ := hstocking.next h₁
  cases last with
  | none => exact hstocking₁.spread h node name context list items factory
  | some last =>
    dsimp only
    split
    · refine (Yields.of_keeps hstocking₁.since (h.liftE (h.noteKept last))).bind fun _ v₂ _ h₂ => ?_
      exact (hstocking₁.next h₂).reuse h hmemory node factory
    · exact hstocking₁.spread h node name context list items factory

theorem Stocking.evaluate (hstocking : Stocking u v e children filled slot rest) (context : Context)
    (factory : Factory) :
    Yields enter u (Build.evaluate e filled.length slot context factory) v
      (Stocked e children filled rest) := by
  unfold Build.evaluate
  split
  case h_1 hmemory => exact hstocking.evaluateSingle h hmemory _ context factory
  case h_2 hmemory _ => exact hstocking.evaluateRepeated h hmemory _ _ _ context factory
  case h_3 => exact hstocking.keep (List.nil_sublist _)

/-! ### Updates -/

/-- The children of an element are changed if its component agrees, and are in the slots afterwards. -/
theorem yields_changeChildren (hv : Cultivates u v) (hopen : u.Open e) {slots : List Slot}
    (hstill : v.Still e children slots) (own : Headless → Except ComponentError Headless)
    {foreign : Nat → Act σ (Except ComponentError Unit)}
    (hforeign : ∀ c, Keeps Cultivating enter (foreign c)) {f : List ElementId → List ElementId}
    (hmounted : (f children).Sublist (slots.flatMap Slot.elements)) :
    Yields enter u (Build.component do
        let answer ← Act.change e own foreign
        Act.changeChildren e answer f) v fun _ w => w.Still e (f children) slots := by
  have hagreed := cultivating_change h e own hforeign v hv.forest
  have hrun : (Build.component (do
        let answer ← Act.change e own foreign
        Act.changeChildren e answer f)).run.runIn enter v =
      ((·.mapError ViewError.component) <$> (do
        let answer ← Act.change e own foreign
        Act.changeChildren e answer f) : Act σ (Except ViewError Unit)).runIn enter v := rfl
  unfold Yields
  rw [hrun, Act.runIn_map, Act.runIn_bind]
  revert hagreed
  rcases (Act.change e own foreign).runIn enter v with ⟨_ | error | ⟨⟨⟩⟩, w⟩
  · exact fun hw => ⟨hv.trans hw, fun _ _ he => hw.idle he, nofun⟩
  · exact fun hw => ⟨hv.trans hw, fun _ _ he => hw.idle he, nofun⟩
  · intro hw
    have hw' := hv.trans hw
    obtain ⟨x, hx, hnone, rfl, rfl⟩ := hw.still hstill
    have hnodup : x.offspring.Nodup := hw'.forest.nodup hx
    exact ⟨hw'.update hx hopen hnodup hmounted fun d hd => .inl hd,
      fun _ _ he => (hw.idle he).update fun _ _ hnone => hnone,
      fun _ _ => ⟨_, World.get?_updateElement_self hx _, hnone, rfl, rfl⟩⟩

/-- Children are appended that are in the slots, after those that are children already. -/
theorem yields_append (hopen : u.Open e) {slots : List Slot} (es : List ElementId) {v : World σ}
    {children : List ElementId} (hv : Cultivates u v) (hstill : v.Still e children slots)
    (hmounted : (children ++ es).Sublist (slots.flatMap Slot.elements)) :
    Yields enter u (Build.append e es) v fun _ w => w.Still e (children ++ es) slots := by
  induction es generalizing v children with
  | nil => exact .pure hv (by rwa [List.append_nil])
  | cons c rest ih =>
    rw [List.append_cons] at hmounted ⊢
    have hone : (children ++ [c]).Sublist (slots.flatMap Slot.elements) :=
      (List.sublist_append_left _ rest).trans hmounted
    refine (yields_changeChildren h hv hopen hstill (.ok <| ·.mount c) (f := (· ++ [c]))
      (fun _ => h.enterHost _) hone).bind fun _ w hw hstill => ?_
    exact ih hw hstill hmounted

/-- The slots from one on are filled; the children come from those before. -/
theorem cultivates_fill (hopen : u.Open e) (hthere : e.row < u.elements.size) (context : Context)
    (factory : Factory) (rest : List Slot) {filled : List Slot} {v : World σ}
    {children : List ElementId} (hv : Cultivates u v) (hstill : v.Still e children (filled ++ rest))
    (hmounted : children.Sublist (filled.flatMap Slot.elements)) :
    Yields enter u (Build.fill e context factory filled.length rest) v fun _ _ => True := by
  induction rest generalizing filled v children with
  | nil => exact .pure hv trivial
  | cons slot rest ih =>
    have hstocking : Stocking u v e children filled slot rest := ⟨hv, hopen, hthere, hstill, hmounted⟩
    refine (hstocking.evaluate h context factory).bind fun es v₁ hv₁ hstocked => ?_
    obtain ⟨slot', hes, hstill₁⟩ := hstocked
    have hmounted₁ : (children ++ es).Sublist ((filled ++ [slot']).flatMap Slot.elements) := by
      rw [List.flatMap_append, List.flatMap_singleton]
      exact hmounted.append hes
    rw [List.append_cons] at hstill₁
    have hall : (children ++ es).Sublist (((filled ++ [slot']) ++ rest).flatMap Slot.elements) := by
      rw [List.flatMap_append]
      exact hmounted₁.trans (List.sublist_append_left _ _)
    refine (yields_append h hopen es hv₁ hstill₁ hall).bind fun _ v₂ hv₂ hstill₂ => ?_
    have hrest := ih hv₂ hstill₂ hmounted₁
    rwa [List.length_append] at hrest

/-- What the updater of a node does to an element that is without it meanwhile. -/
theorem cultivates_refresh (hopen : u.Open e) (hthere : e.row < u.elements.size) (hv : Cultivates u v)
    {slots : List Slot} (hstill : v.Still e children slots) (node : Node Resolver)
    (factory : Factory) : Yields enter u (Build.refresh e node factory) v fun _ _ => True := by
  have hassign {w : World σ} (hw : Cultivates u w) (scope : Context) :
      Yields enter u (Build.assign e scope node.bind) w fun _ _ => True :=
    (Yields.of_keeps hw (cultivating_assign h e scope _)).imp fun _ _ _ _ => trivial
  refine (Yields.of_keeps hv (h.liftE (h.contextOf e))).bind fun scope v₁ hv₁ h₁ => ?_
  obtain ⟨x, hx, hnone, rfl, rfl⟩ := h₁.still hstill
  refine (Yields.element hv₁ hx).bind fun y v₂ hv₂ hy => ?_
  obtain ⟨rfl, rfl⟩ := hy
  dsimp only
  split
  · refine (yields_changeChildren h hv₂ hopen ⟨y, hx, hnone, rfl, rfl⟩ (.ok ·.clear)
      (f := fun _ => []) (fun _ => h.enterHost _) (List.nil_sublist _)).bind fun _ v₃ hv₃ hcleared => ?_
    have hfill := cultivates_fill h hopen hthere scope factory y.slots hv₃
      (show v₃.Still e [] ([] ++ y.slots) from hcleared) (List.nil_sublist _)
    refine hfill.bind fun _ v₄ hv₄ _ => ?_
    exact hassign hv₄ scope
  · exact (Yields.pure hv₂ trivial : Yields enter u (pure ()) v₂ fun _ _ => True).bind
      fun _ v₃ hv₃ _ => hassign hv₃ scope

/-- An updater runs for an element that is without it meanwhile. -/
theorem cultivates_runUpdater (hopen : u.Open e) (hthere : e.row < u.elements.size)
    (hv : Cultivates u v) {slots : List Slot} (hstill : v.Still e children slots) (updater : Updater) :
    Cultivates u ((Act.runUpdater e updater).runIn enter v).2 ∧
      ((Act.runUpdater e updater).runIn enter v).2.Idle e := by
  cases updater with
  | view node factory =>
    have hrefresh := cultivates_refresh h hopen hthere hv hstill node factory
    exact ⟨hrefresh.1, hrefresh.2.1 e hthere hstill.idle⟩
  | foreign number =>
    have hentered := h.enterHost (.refresh number e) v hv.forest
    exact ⟨hv.trans hentered, hentered.idle hstill.idle⟩

omit h in
/-- An updater is put back: none has been installed in the meantime. -/
theorem cultivates_putBack (hv : Cultivates u v) (hopen : u.Open e) (hidle : v.Idle e)
    (updater : Updater) : Cultivates u ((Act.putBack e updater).runIn enter v).2 := by
  refine hv.lend hopen fun x hx => ?_
  obtain ⟨y, hy, hnone⟩ := hidle
  obtain rfl := Option.some.inj (hx.symm.trans hy)
  rw [hnone]
  exact ⟨rfl, rfl⟩

/-- An element is without its updater while this runs, and gets it back. -/
theorem cultivating_updateSelf (e : ElementId) : Keeps Cultivating enter (Act.updateSelf e) := by
  intro u hu
  cases hx : u.elements.get? e.row with
  | none =>
    rw [Act.runIn_updateSelf_none hx]
    exact .refl hu
  | some x =>
    let v := u.updateElement e ({ · with updater := none })
    rw [Act.updateSelf, Act.runIn_bind_some (Act.runIn_takeUpdater hx)]
    have hstill : v.Still e x.children x.slots :=
      ⟨_, World.get?_updateElement_self hx _, rfl, rfl, rfl⟩
    cases hupdater : x.updater with
    | none =>
      refine Cultivates.alter hu fun y hy => ?_
      obtain rfl := Option.some.inj (hx.symm.trans hy)
      exact ⟨hupdater.symm, rfl, rfl⟩
    | some updater =>
      have hopen : u.Open e := by
        intro y hy hnone
        obtain rfl := Option.some.inj (hx.symm.trans hy)
        rw [hupdater] at hnone
        cases hnone
      have hv : Cultivates u v := (Cultivates.refl hu).lend hopen fun _ _ => ⟨rfl, rfl⟩
      dsimp only
      rw [Act.runIn_bind_some (Act.runIn_record _ _ _)]
      have hrecorded : Cultivates v (v.record (.updating e updater.number?)) :=
        .record hv.forest _
      have hran := cultivates_runUpdater h hopen (Table.lt_size_of_get? hx) (hv.trans hrecorded)
        (hrecorded.still hstill) updater
      rw [Act.runIn_bind]
      revert hran
      rcases (Act.runUpdater e updater).runIn enter
        (v.record (.updating e updater.number?)) with ⟨_ | answer, w⟩
      · exact fun hran => hran.1
      · intro hran
        obtain ⟨hw, hidle⟩ := hran
        have hback : Cultivates u ((Act.putBack e updater).runIn enter w).2 :=
          cultivates_putBack hw hopen hidle updater
        exact hback.trans (.record hback.forest _)

theorem cultivating_update (e : ElementId) : Keeps Cultivating enter (Act.update e) := by
  refine h.holding _ (h.bind (cultivating_updateSelf h e) fun answer => ?_)
  cases answer with
  | error error => exact h.pure _
  | ok => exact h.bind (h.element e) fun _ => h.bind (h.hold _) fun _ => h.updateAll _

/-! ### Requests -/

/-- What is made of a node is made of nothing. -/
theorem cultivating_create (node : Node Resolver) (context : Context) (factory : Factory) :
    Keeps Cultivating enter (Build.create node context factory).run :=
  fun _ hv => (yields_create h hv node context factory).1

theorem cultivating_instantiate (node : Node Resolver) (context : Context) (factory : Factory) :
    Keeps Cultivating enter (Build.instantiate node context factory).run := by
  unfold Build.instantiate
  split
  · refine h.bindE (h.eval (h.shows context node)) fun shown => ?_
    split
    · exact h.bindE (cultivating_create h node context factory) fun _ => h.pureE _
    · exact h.pureE _
  · exact h.bindE (h.listOf context _) fun _ =>
      h.bindE (fun _ hv => (yields_spread h hv node factory _ context _ _).1) fun _ => h.pureE _

theorem cultivating_instantiateAll (context : Context) (factory : Factory)
    (nodes : List (Node Resolver)) :
    Keeps Cultivating enter (Build.instantiateAll context factory nodes).run := by
  induction nodes with
  | nil => exact h.pureE _
  | cons node rest ih =>
    exact h.bindE (cultivating_instantiate h node context factory) fun _ =>
      h.bindE (h.releasing _ ih) fun _ => h.pureE _

theorem cultivating_build (view : View Resolver) (context : Context) (factory : Factory) :
    Keeps Cultivating enter (Build.build view context factory).run := by
  refine h.bindE (cultivating_instantiateAll h context factory _) fun made => ?_
  split
  · exact h.bindE (h.releasing _ (h.enterUpdate _)) fun _ => h.bindE (h.liftE (h.element _)) fun _ =>
      h.bindE (h.liftE (h.message _ (h.pure _))) fun _ => h.pureE _
  · exact h.bindE (h.liftE (h.release _)) fun _ => h.throwE _

end

/-- Requests that move children about by themselves, or install updaters. -/
def Request.grafts : Request → Bool
  | appendChild .. | removeChild .. | clearChildren _ | setUpdater .. => true
  | _ => false

theorem Host.cultivating (host : Host σ)
    (hhost : ∀ call, (host.answer call).Only fun r => r.grafts = false) :
    Watches Cultivating host fun r => r.grafts = false where
  only := hhost
  aside h _ hv := .of_elements_eq h hv
  trans huv hvw hu := (huv hu).trans (hvw (huv hu).forest)
  touches h r hr htouches := by
    cases r with
    | build view context factory => exact cultivating_build h view context factory
    | newElement tag component context =>
      exact fun _ hv => Cultivates.newElement hv rfl rfl _
    | setAttribute e name v => exact h.living e (cultivating_setAttribute h e name v)
    | addListener e event handler => exact h.living e (cultivating_addListener h e event handler)
    | update e => exact h.living e (cultivating_update h e)
    | runBatch s => exact h.runBatch s
    | pump s n => exact h.pump s n
    | appendChild | removeChild | clearChildren | setUpdater => cases hr
    | _ => cases htouches
  update h e := cultivating_update h e

/-! ### The forest -/

namespace World

/-- The element has the other one among its children. -/
def Mounts (w : World σ) (e c : ElementId) : Prop :=
  ∃ x, w.elements.get? e.row = some x ∧ c ∈ x.children

theorem forest_empty (level : Level) (memory : σ) : (empty level memory).Forest where
  nodup hx := by cases hx
  younger hc := by
    obtain ⟨x, hx, -⟩ := hc
    cases hx
  single hc := by
    obtain ⟨x, hx, -⟩ := hc
    cases hx
  mounted hx := by cases hx

namespace Forest

variable {w : World σ}

theorem owns (h : w.Forest) {e c : ElementId} (hc : w.Mounts e c) : w.Owns e c := by
  obtain ⟨x, hx, hmem⟩ := hc
  exact ⟨x, hx, (h.mounted hx).subset hmem⟩

/-- In all lists of children together, no element occurs twice. -/
theorem nodup_children (h : w.Forest) :
    (w.elements.rows.toList.flatMap Element.children).Nodup := by
  have hget {i : Nat} (hi : i < w.elements.rows.toList.length) :
      w.elements.get? i = some w.elements.rows.toList[i] := by
    simp only [Table.get?, Array.length_toList] at hi ⊢
    rw [Array.getElem?_eq_getElem hi, Array.getElem_toList]
  rw [List.nodup_flatMap]
  constructor
  · intro x hx
    obtain ⟨i, hi, rfl⟩ := List.mem_iff_getElem.mp hx
    exact (h.mounted (e := ⟨i⟩) (hget hi)).nodup (h.nodup (e := ⟨i⟩) (hget hi))
  · rw [List.pairwise_iff_getElem]
    intro i j hi hj hij c hci hcj
    have hsame := h.single (h.owns (e := ⟨i⟩) ⟨_, hget hi, hci⟩) (h.owns (e := ⟨j⟩) ⟨_, hget hj, hcj⟩)
    exact Nat.ne_of_lt hij (congrArg ElementId.row hsame)

/-- What is below an element is younger. -/
theorem younger_below (h : w.Forest) {e c : ElementId} (hc : Relation.TransGen w.Mounts e c) :
    e.row < c.row := by
  induction hc with
  | single hc => exact (h.younger (h.owns hc)).1
  | tail _ hc ih => exact Nat.lt_trans ih (h.younger (h.owns hc)).1

end Forest

end World

/-- **Mounted elements form a forest.** In every world that a host program sees that does not append,
remove or clear children and installs no updaters, at whatever moment of an update it does, and whether
updates succeed or fail, no element occurs twice in all the lists of children together, so that none has
two parents; a child is younger than its parent; and no element is below itself. -/
theorem Host.mounted_forest (host : Host σ)
    (hhost : ∀ call, (host.answer call).Only fun r => r.grafts = false) (stop : World σ → Bool)
    (depth : Nat) {script : Script σ α} (hscript : script.Only fun r => r.grafts = false)
    (level : Level) (memory : σ) :
    let w := host.stopped stop depth script level memory
    (w.elements.rows.toList.flatMap Element.children).Nodup ∧
      (∀ e e' c, w.Mounts e c → w.Mounts e' c → e = e') ∧
      (∀ e c, w.Mounts e c → e.row < c.row) ∧ ∀ e, ¬ Relation.TransGen w.Mounts e e := by
  intro w
  have hforest : w.Forest := ((host.cultivating hhost).stopped stop depth hscript level memory
    (World.forest_empty level memory)).forest
  exact ⟨hforest.nodup_children, fun e e' c hc hc' => hforest.single (hforest.owns hc) (hforest.owns hc'),
    fun e c hc => (hforest.younger (hforest.owns hc)).1,
    fun e he => Nat.lt_irrefl _ (hforest.younger_below he)⟩

/-- A host program with a function that updates the first two elements, and is true. -/
def meddlesome : Host Unit where
  answer
    | .apply _ _ _ => do
      let _ ← Script.update ⟨0⟩
      let _ ← Script.update ⟨1⟩
      return .ok (.bool true)
    | _ => .hang

/-- A list with two entries; the second is there if that function is true. -/
def meddled : Node Resolver :=
  ⟨⟨"ul", none, [], none⟩, "ul", [], [], [], none, none,
    [⟨⟨"li", none, [], none⟩, "ul/li", [], [], [], none, none, []⟩,
     ⟨⟨"li", none, [], none⟩, "ul/li", [], [], [], none,
       some (.text [.chain ⟨[.lookup "meddle", .call []], "meddle()"⟩]), []⟩]⟩

/-- The list is built and updated. -/
def meddling : Script Unit Unit := do
  let scope ← Script.newRecord [("meddle", .function ⟨"meddle", 0⟩)]
  match ← Script.build ⟨[meddled]⟩ [scope] .headless with
  | .ok root =>
    let _ ← Script.update root
    return ()
  | .error _ => return ()

/-- The list is in the middle of its second update: one entry is there, and the other one is still to
be appended. -/
def halfway (w : World Unit) : Bool :=
  w.elements.size == 3 && (w.elements.get? 0).any fun x => x.updater.isNone && x.children == [⟨1⟩]

/-- The function sees the list in the middle of its second update. -/
theorem Host.mounted_forest_halfway :
    halfway (meddlesome.stopped halfway 6 meddling .off ()) = true ∧
      let w := meddlesome.stopped halfway 6 meddling .off ()
      (w.elements.rows.toList.flatMap Element.children).Nodup ∧
        (∀ e e' c, w.Mounts e c → w.Mounts e' c → e = e') ∧
        (∀ e c, w.Mounts e c → e.row < c.row) ∧ ∀ e, ¬ Relation.TransGen w.Mounts e e := by
  have hhost : ∀ call, (meddlesome.answer call).Only fun r => r.grafts = false := by
    intro call
    cases call with
    | apply => exact .ask rfl fun _ => .ask rfl fun _ => .done _
    | _ => exact .hang
  have hscript : meddling.Only fun r => r.grafts = false := by
    refine .ask rfl fun scope => .ask rfl fun built => ?_
    cases built with
    | ok root => exact .ask rfl fun _ => .done _
    | error error => exact .done _
  exact ⟨by decide +kernel, Host.mounted_forest meddlesome hhost halfway 6 hscript .off ()⟩

end ReactiveViews
