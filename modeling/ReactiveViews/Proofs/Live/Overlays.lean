import Mathlib.Data.List.Nodup
import ReactiveViews.Proofs.Live.Elements

/-!
# New elements

While a view is built there are elements that nobody knows but the building itself. A world with such
elements *overlays* the same world without them: both have the same data, the same old elements, and
the new ones keep none of the old. So an old element is alive in both or in neither, and what an
expression can ask for in the one world it can ask for in the other, as long as the new elements among
its scopes own nothing that it looks up.

An element is dead if the search for something that holds it comes to an end. The search is bounded by
the number of elements, which is not the same in both worlds; but no chain of keepers that ends is
longer than that, since no element comes twice in it.

## What is proved

An old element is alive in both worlds or in neither (`Overlays.alive_eq`). Expressions have the same
values in both (`Oblivious.resolve`, `Oblivious.shows`), if functions, objects and components of the
host program do not notice new elements; those that only calculate do not
(`Host.Calculates.oblivious`).
-/

namespace ReactiveViews

variable {σ α β : Type}

/-! ### Elements that are dead -/

section

variable {P : β → Prop} {Q : α → Prop} {f : β → α → Option β} {as : List α} {b b' : β}

theorem forall_of_foldlM_eq_some (hf : ∀ b a b', P b → f b a = some b' → Q a ∧ P b')
    (hb : P b) (h : as.foldlM f b = some b') : (∀ a ∈ as, Q a) ∧ P b' := by
  induction as generalizing b with
  | nil =>
    obtain rfl := Option.some.inj h
    exact ⟨fun a ha => absurd ha List.not_mem_nil, hb⟩
  | cons a rest ih =>
    rw [List.foldlM_cons] at h
    obtain ⟨c, hc, hrest⟩ := Option.bind_eq_some_iff.mp h
    obtain ⟨hQ, hP⟩ := hf b a c hb hc
    obtain ⟨hall, hP'⟩ := ih hP hrest
    exact ⟨List.forall_mem_cons.mpr ⟨hQ, hall⟩, hP'⟩

theorem foldlM_isSome (hf : ∀ a ∈ as, ∀ b, (f b a).isSome) (b : β) : (as.foldlM f b).isSome := by
  induction as generalizing b with
  | nil => rfl
  | cons a rest ih =>
    obtain ⟨ha, hrest⟩ := List.forall_mem_cons.mp hf
    obtain ⟨c, hc⟩ := Option.isSome_iff_exists.mp (ha b)
    rw [List.foldlM_cons, hc]
    exact ih hrest c

end

namespace World

variable {w : World σ} {e k : ElementId}

theorem mem_keepers : k ∈ w.keepers e ↔ ∃ x, w.elements.get? k.row = some x ∧ x.keeps e = true := by
  unfold keepers
  rw [List.mem_filterMap]
  constructor
  · rintro ⟨row, -, hrow⟩
    cases hx : w.elements.get? row with
    | none => simp [hx] at hrow
    | some x =>
      simp only [hx, Option.ite_none_right_eq_some, Option.some.injEq] at hrow
      obtain ⟨hkeeps, rfl⟩ := hrow
      exact ⟨x, hx, hkeeps⟩
  · rintro ⟨x, hx, hkeeps⟩
    exact ⟨k.row, List.mem_range.mpr (Table.lt_size_of_get? hx), by simp [hx, hkeeps]⟩

/-- An element that is not held and is kept by such elements only. -/
inductive Dying (w : World σ) : ElementId → Prop where
  /-- The elements that keep it are dying. -/
  | intro {e : ElementId} : e ∉ w.held → (∀ k ∈ w.keepers e, Dying w k) → Dying w e

namespace Dying

/-- What is buried is dying, if what is dead already is. -/
theorem of_bury {n : Nat} {dead dead' : List ElementId} (hdead : ∀ d ∈ dead, w.Dying d)
    (h : w.bury n dead e = some dead') : w.Dying e ∧ ∀ d ∈ dead', w.Dying d := by
  induction n generalizing dead dead' e with
  | zero => cases h
  | succ n ih =>
    unfold bury at h
    split at h
    next hmem =>
      obtain rfl := Option.some.inj h
      exact ⟨hdead e (by simpa using hmem), hdead⟩
    split at h
    · cases h
    next hheld =>
      obtain ⟨buried, hfold, rfl⟩ := Option.map_eq_some_iff.mp h
      obtain ⟨hkeepers, hburied⟩ := forall_of_foldlM_eq_some
        (P := fun dead => ∀ d ∈ dead, w.Dying d) (Q := w.Dying) (fun _ _ _ => ih) hdead hfold
      have he : w.Dying e := .intro (by simpa using hheld) hkeepers
      exact ⟨he, List.forall_mem_cons.mpr ⟨he, hburied⟩⟩

/-- A dying element does not keep itself, not even through others. -/
theorem not_keeps_self (h : w.Dying e) :
    ¬ Relation.TransGen (fun k e => k ∈ w.keepers e) e e := by
  have hacc : Acc (Relation.TransGen fun k e => k ∈ w.keepers e) e := by
    refine Acc.transGen ?_
    induction h with
    | intro _ _ ih => exact .intro _ ih
  clear h
  induction hacc with
  | intro e _ ih => exact fun hself => ih e hself hself

/-- A dying element is buried if there is room for all that it may be kept by. The path leads down
from the element to the one that is asked about. -/
theorem bury_isSome {n : Nat} (path dead : List ElementId) (h : w.Dying e)
    (hpath : path.Nodup)
    (hbelow : ∀ p ∈ path, Relation.TransGen (fun k e => k ∈ w.keepers e) e p)
    (hrows : ∀ p ∈ e :: path, p.row < w.elements.size) (hn : w.elements.size < n + path.length) :
    (w.bury n dead e).isSome := by
  induction n generalizing dead e path with
  | zero =>
    have hlength : path.length ≤ w.elements.size := by
      have hrange : path.map ElementId.row ⊆ List.range w.elements.size := by
        intro row hrow
        obtain ⟨p, hp, rfl⟩ := List.mem_map.mp hrow
        exact List.mem_range.mpr (hrows p (List.mem_cons_of_mem _ hp))
      have hinjective : Function.Injective ElementId.row := by
        rintro ⟨row⟩ ⟨row'⟩ rfl
        rfl
      have hnodup : (path.map ElementId.row).Nodup := List.Nodup.map hinjective hpath
      simpa using (List.subperm_of_subset hnodup hrange).length_le
    omega
  | succ n ih =>
    obtain ⟨hheld, hkeepers⟩ := h
    have hself : w.Dying e := .intro hheld hkeepers
    unfold bury
    split
    · rfl
    · rw [if_neg (by simpa using hheld), Option.map_eq_map, Option.isSome_map]
      refine foldlM_isSome (fun k hk dead => ?_) dead
      obtain ⟨x, hx, -⟩ := mem_keepers.mp hk
      refine ih (e :: path) dead (hkeepers k hk) ?_ ?_ ?_ ?_
      · exact List.nodup_cons.mpr ⟨fun he => hself.not_keeps_self (hbelow e he), hpath⟩
      · refine List.forall_mem_cons.mpr ⟨.single hk, fun p hp => ?_⟩
        exact .head hk (hbelow p hp)
      · exact List.forall_mem_cons.mpr ⟨Table.lt_size_of_get? hx, hrows⟩
      · rw [List.length_cons]
        omega

end Dying

/-- The search for something that holds an element tells whether the element is dying. -/
theorem alive_iff (he : e.row < w.elements.size) : w.alive e = true ↔ ¬ w.Dying e := by
  rw [alive, Bool.and_eq_true, decide_eq_true_iff, Option.isNone_iff_eq_none]
  constructor
  · rintro ⟨-, hnone⟩ hdying
    have hsome := hdying.bury_isSome [] [] .nil (fun _ h => absurd h List.not_mem_nil)
      (by simpa using he) (Nat.lt_succ_self _)
    rw [hnone] at hsome
    cases hsome
  · refine fun hliving => ⟨he, ?_⟩
    cases hbury : w.bury (w.elements.size + 1) [] e with
    | none => rfl
    | some dead =>
      exact (hliving (Dying.of_bury (fun _ h => absurd h List.not_mem_nil) hbury).1).elim

end World

/-! ### Worlds with new elements -/

/-- A value that is no element, or one of the first so many. -/
def Value.Within (n : Nat) (v : Value) : Prop := ∀ m e, v = .object (.scope m e) → e.row < n

namespace Value.Within

variable {n : Nat}

theorem characters {text : String} {v : Value} (h : v ∈ characters text) : v.Within n := by
  obtain ⟨c, -, rfl⟩ := List.mem_map.mp h
  exact nofun

theorem sequenceProperty {items : List Value} (hitems : ∀ v ∈ items, v.Within n) (key : String) :
    ∀ v ∈ sequenceProperty items key, v.Within n := by
  intro v hv
  unfold ReactiveViews.sequenceProperty at hv
  split at hv
  · obtain rfl := Option.some.inj hv
    exact nofun
  · obtain ⟨i, -, hi⟩ := Option.bind_eq_some_iff.mp hv
    exact hitems v (List.mem_of_getElem? hi)

theorem get? {fields : Fields Value} (hfields : ∀ field ∈ fields, field.2.Within n) (key : String) :
    ∀ v ∈ fields.get? key, v.Within n := by
  intro v hv
  induction fields with
  | nil => cases hv
  | cons field rest ih =>
    obtain ⟨hfield, hrest⟩ := List.forall_mem_cons.mp hfields
    unfold Fields.get? at hv
    split at hv
    · obtain rfl := Option.some.inj hv
      exact hfield
    · exact ih hrest hv

end Value.Within

/-- The data and the first so many elements refer to no other elements. -/
structure World.Within (n : Nat) (w : World σ) : Prop where
  /-- The items of arrays. -/
  items : ∀ a, ∀ v ∈ w.store.items a, v.Within n
  /-- The fields of records. -/
  fields : ∀ r, ∀ field ∈ w.store.fields r, field.2.Within n
  /-- The attributes of elements. -/
  attributes : ∀ (e : ElementId) (x : Element) (h : Headless), e.row < n →
    w.elements.get? e.row = some x → x.component = .headless h → ∀ field ∈ h.attributes, field.2.Within n

/-- The one world is the other one with elements in addition to the first so many, of which nobody
knows. The journal may tell of them. -/
structure Overlays (n : Nat) (w s : World σ) : Prop where
  /-- Arrays and records. -/
  store : w.store = s.store
  /-- The detail of the messages. -/
  level : w.level = s.level
  /-- What the host program remembers. -/
  host : w.host = s.host
  /-- The schedulers. -/
  schedulers : w.schedulers = s.schedulers
  /-- The receivers. -/
  receivers : w.receivers = s.receivers
  /-- The other world has the old elements only. -/
  size : s.elements.size = n
  /-- No old element is lost. -/
  size_le : n ≤ w.elements.size
  /-- The old elements are the same. -/
  old : ∀ row, row < n → w.elements.get? row = s.elements.get? row
  /-- The new elements keep new ones only. -/
  new : ∀ (e : ElementId) (x : Element), n ≤ e.row → w.elements.get? e.row = some x →
    ∀ c, x.keeps c = true → n ≤ c.row
  /-- The old elements are held as often. -/
  held : ∀ e : ElementId, e.row < n → w.held.count e = s.held.count e
  /-- Nobody refers to the new elements. -/
  within : s.Within n

/-- The items that a value is walked through by. -/
theorem World.Within.walk? {n : Nat} {w : World σ} (h : w.Within n) {list : Value} {items : List Value}
    (hwalk : w.store.walk? list = some items) : ∀ v ∈ items, v.Within n := by
  cases list with
  | array a =>
    obtain rfl := Option.some.inj hwalk
    exact h.items a
  | str text =>
    obtain rfl := Option.some.inj hwalk
    exact fun _ => .characters
  | undefined | null =>
    obtain rfl := Option.some.inj hwalk
    exact fun _ hv => absurd hv List.not_mem_nil
  | _ => cases hwalk

namespace Overlays

variable {n : Nat} {w s : World σ}

/-- There are no new elements at the beginning. -/
theorem refl (h : w.Within w.elements.size) : Overlays w.elements.size w w :=
  { store := rfl, level := rfl, host := rfl, schedulers := rfl, receivers := rfl, size := rfl,
    size_le := Nat.le_refl _, old := fun _ _ => rfl, held := fun _ _ => rfl, within := h
    new := fun _ _ he hx => absurd (Table.lt_size_of_get? hx) (Nat.not_lt.mpr he) }

/-- What keeps an old element is old. -/
theorem mem_keepers_iff (h : Overlays n w s) {e k : ElementId} (he : e.row < n) :
    k ∈ w.keepers e ↔ k ∈ s.keepers e := by
  rw [World.mem_keepers, World.mem_keepers]
  refine exists_congr fun x => ⟨fun hx => ?_, fun hx => ?_⟩
  · have hk : k.row < n := Nat.lt_of_not_le fun hk =>
      absurd (h.new k x hk hx.1 e hx.2) (Nat.not_le.mpr he)
    exact ⟨h.old _ hk ▸ hx.1, hx.2⟩
  · have hk : k.row < n := h.size ▸ Table.lt_size_of_get? hx.1
    exact ⟨(h.old _ hk).trans hx.1, hx.2⟩

theorem lt_of_mem_keepers (h : Overlays n w s) {e k : ElementId} (hk : k ∈ s.keepers e) :
    k.row < n := by
  obtain ⟨x, hx, -⟩ := World.mem_keepers.mp hk
  exact h.size ▸ Table.lt_size_of_get? hx

theorem mem_held_iff (h : Overlays n w s) {e : ElementId} (he : e.row < n) :
    e ∈ w.held ↔ e ∈ s.held := by
  rw [← List.count_pos_iff, ← List.count_pos_iff, h.held e he]

theorem dying_iff (h : Overlays n w s) {e : ElementId} (he : e.row < n) : w.Dying e ↔ s.Dying e := by
  constructor
  · intro hdying
    induction hdying with
    | @intro e hheld _ ih =>
      refine .intro (fun hmem => hheld ((h.mem_held_iff he).mpr hmem)) fun k hk => ?_
      exact ih k ((h.mem_keepers_iff he).mpr hk) (h.lt_of_mem_keepers hk)
  · intro hdying
    induction hdying with
    | @intro e hheld _ ih =>
      refine .intro (fun hmem => hheld ((h.mem_held_iff he).mp hmem)) fun k hk => ?_
      have hk' := (h.mem_keepers_iff he).mp hk
      exact ih k hk' (h.lt_of_mem_keepers hk')

/-- An old element is alive in both worlds or in neither. -/
theorem alive_eq (h : Overlays n w s) {e : ElementId} (he : e.row < n) : w.alive e = s.alive e := by
  have hw : w.alive e = true ↔ ¬ w.Dying e := World.alive_iff (Nat.lt_of_lt_of_le he h.size_le)
  have hs : s.alive e = true ↔ ¬ s.Dying e := World.alive_iff (h.size ▸ he)
  rw [Bool.eq_iff_iff, hw, hs, h.dying_iff he]

/-- Both worlds get another store. -/
theorem withStore (h : Overlays n w s) {store : Store} (hitems : ∀ a, ∀ v ∈ store.items a, v.Within n)
    (hfields : ∀ r, ∀ field ∈ store.fields r, field.2.Within n) :
    Overlays n { w with store } { s with store } :=
  { h with store := rfl, within := ⟨hitems, hfields, h.within.attributes⟩ }

/-- Other elements are held in both worlds. -/
theorem withHeld (h : Overlays n w s) {held held' : List ElementId}
    (hheld : ∀ e : ElementId, e.row < n → held.count e = held'.count e) :
    Overlays n { w with held } { s with held := held' } :=
  { h with held := hheld, within := ⟨h.within.items, h.within.fields, h.within.attributes⟩ }

theorem newArray (h : Overlays n w s) {items : List Value} (hitems : ∀ v ∈ items, v.Within n) :
    Overlays n { w with store := (s.store.newArray items).2 }
      { s with store := (s.store.newArray items).2 } := by
  refine h.withStore (fun a v hv => ?_) h.within.fields
  simp only [Store.newArray, Store.items, Table.get?, Table.add, Array.getElem?_push] at hv
  split at hv
  · exact hitems v hv
  · exact h.within.items a v hv

theorem newRecord (h : Overlays n w s) {fields : Fields Value}
    (hfields : ∀ field ∈ fields, field.2.Within n) :
    Overlays n { w with store := (s.store.newRecord fields).2 }
      { s with store := (s.store.newRecord fields).2 } := by
  refine h.withStore h.within.items fun r field hfield => ?_
  simp only [Store.newRecord, Store.fields, Table.get?, Table.add, Array.getElem?_push] at hfield
  split at hfield
  · exact hfields field hfield
  · exact h.within.fields r field hfield

/-- A new element is edited. -/
theorem edits (h : Overlays n w s) {e : ElementId} {w' : World σ} (hw : Edits e w w') (he : n ≤ e.row)
    (hkeeps : ∀ x, w'.elements.get? e.row = some x → ∀ c, x.keeps c = true → n ≤ c.row) :
    Overlays n w' s where
  store := hw.store.trans h.store
  level := hw.level.trans h.level
  host := hw.host.trans h.host
  schedulers := hw.schedulers.trans h.schedulers
  receivers := hw.receivers.trans h.receivers
  size := h.size
  size_le := hw.size ▸ h.size_le
  old row hrow := (hw.others row (Nat.ne_of_lt (Nat.lt_of_lt_of_le hrow he))).trans (h.old row hrow)
  new c x hc hx := by
    by_cases hrow : c.row = e.row
    · exact hkeeps x (hrow ▸ hx)
    · exact h.new c x hc (hw.others c.row hrow ▸ hx)
  held c hc := hw.held ▸ h.held c hc
  within := h.within

end Overlays

/-- Equal values without new elements, and steps that touch nothing. -/
@[reducible] def overlay (n : Nat) : Bond σ where
  Index := Unit
  Meets _ := Overlays n
  Values _ v v' := v = v' ∧ v.Within n
  Goes _ _ w w' _ s' := Overlays n w' s' ∧ Touches (fun _ => False) w w'
  refl h := ⟨h, .refl _⟩
  trans h h' := ⟨h'.1, h.2.trans h'.2⟩
  meets h := h.1
  values _ hv := hv
  undefined _ := ⟨rfl, nofun⟩
  str _ _ := ⟨rfl, nofun⟩
  truthy hv := hv.1 ▸ rfl
  function hv _ := hv.1 ▸ Iff.rfl

/-- Functions, objects and components of the host program touch nothing, and do not notice whether
there are elements in addition to the first so many. -/
structure Oblivious (n : Nat) (enter : Enter σ) : Prop where
  /-- Functions are applied. -/
  apply : ∀ {w s : World σ}, Overlays n w s → ∀ (f : Function) {v : Value} {args : List Value},
    v.Within n → (∀ a ∈ args, a.Within n) →
    (overlay n).Mimics enter (fun i => Outcomes ((overlay n).Values i)) () w s
      (Act.enterHost (.apply f v args)) (Act.enterHost (.apply f v args))
  /-- Properties of objects are read. -/
  getOwn : ∀ {w s : World σ}, Overlays n w s → ∀ (object : Nat) (key : String),
    (overlay n).Mimics enter (fun i => Option.Rel ((overlay n).Values i)) () w s
      (Act.enterHost (.getOwn object key)) (Act.enterHost (.getOwn object key))
  /-- Attributes of components are read. -/
  getAttribute : ∀ {w s : World σ}, Overlays n w s → ∀ (component : Nat) (name : String),
    (overlay n).Mimics enter (fun i => Outcomes ((overlay n).Values i)) () w s
      (Act.enterHost (.getAttribute component name)) (Act.enterHost (.getAttribute component name))

/-! ### Contexts with new elements -/

/-- The second context is the first one without its new elements, and these own none of the names. -/
inductive Screens (n : Nat) (w : World σ) (names : List String) : Context → Context → Prop where
  /-- No scopes. -/
  | nil : Screens n w names [] []
  /-- A scope that is no new element. -/
  | value {v : Value} {C C' : Context} : v.Within n → Screens n w names C C' →
    Screens n w names (v :: C) (v :: C')
  /-- A new element, which is left out. -/
  | scope (m : Nat) {e : ElementId} {C C' : Context} : n ≤ e.row → w.Hides names e →
    Screens n w names C C' → Screens n w names (.object (.scope m e) :: C) C'

namespace Screens

variable {n : Nat} {w w' : World σ} {names : List String} {C C' : Context}

theorem refl (hC : ∀ v ∈ C, v.Within n) : Screens n w names C C := by
  induction C with
  | nil => exact .nil
  | cons v rest ih =>
    obtain ⟨hv, hrest⟩ := List.forall_mem_cons.mp hC
    exact .value hv (ih hrest)

theorem mono (h : Screens n w names C C') {names' : List String} (hnames : names' ⊆ names) :
    Screens n w names' C C' := by
  induction h with
  | nil => exact .nil
  | value hv _ ih => exact .value hv ih
  | scope m he hhides _ ih =>
    obtain ⟨x, h, hx, hcomponent, hbusy, hnone⟩ := hhides
    exact .scope m he ⟨x, h, hx, hcomponent, hbusy, fun name hname => hnone name (hnames hname)⟩ ih

/-- Elements among the scopes exist. -/
theorem lt_size (h : Screens n w names C C') (hn : n ≤ w.elements.size) {e : ElementId}
    (he : e ∈ Context.elements C) : e.row < w.elements.size := by
  induction h with
  | nil => cases he
  | @value v C C' hv _ ih =>
    rw [Context.elements, List.mem_filterMap] at he
    obtain ⟨v', hmem, hv'⟩ := he
    rcases List.mem_cons.mp hmem with rfl | hmem
    · split at hv'
      · next m e' =>
        obtain rfl := Option.some.inj hv'
        exact Nat.lt_of_lt_of_le (hv m e' rfl) hn
      · cases hv'
    · exact ih (List.mem_filterMap.mpr ⟨v', hmem, hv'⟩)
  | scope m _ hhides _ ih =>
    rcases List.mem_cons.mp he with rfl | he
    · obtain ⟨x, -, hx, -⟩ := hhides
      exact Table.lt_size_of_get? hx
    · exact ih he

/-- What has been touched among the scopes still hides the names. -/
theorem touched (h : Screens n w names C C') {S : ElementId → Prop} (hw : Touches S w w')
    (hS : ∀ e ∈ Context.elements C, S e → w'.Hides names e) : Screens n w' names C C' := by
  induction h with
  | nil => exact .nil
  | @value v C C' hv _ ih =>
    refine .value hv (ih fun e he => hS e ?_)
    rw [Context.elements, List.mem_filterMap] at he ⊢
    obtain ⟨v', hmem, hv'⟩ := he
    exact ⟨v', List.mem_cons_of_mem _ hmem, hv'⟩
  | @scope m e C C' he hhides _ ih =>
    refine .scope m he ?_ (ih fun e' he' => hS e' (List.mem_cons_of_mem _ he'))
    by_cases hSe : S e
    · exact hS e List.mem_cons_self hSe
    · obtain ⟨x, h, hx, hrest⟩ := hhides
      exact ⟨x, h, hw.get? hx hSe, hrest⟩

end Screens

/-- Worlds and contexts with and without new elements. -/
structure Faces (n : Nat) (names : List String) (C C' : Context) (w s : World σ) : Prop where
  /-- The worlds. -/
  worlds : Overlays n w s
  /-- The contexts. -/
  contexts : Screens n w names C C'

namespace Faces

variable {n : Nat} {names : List String} {C C' : Context} {w w' s s' : World σ}

theorem goes (h : Faces n names C C' w s) {i j : Unit}
    (hgoes : (overlay n).Goes i j w w' s s') : Faces n names C C' w' s' :=
  ⟨hgoes.1, h.contexts.touched hgoes.2 fun _ _ => False.elim⟩

end Faces

/-! ### Evaluation -/

/-- A step of the first act alone. -/
theorem Bond.Mimics.left {B : Bond σ} {enter : Enter σ} {γ : Type} {V : B.Index → α → β → Prop}
    {i : B.Index} {w s : World σ} {act : Act σ γ} {f : γ → Act σ α} {act' : Act σ β} {c : γ}
    (hrun : act.runIn enter w = (some c, w)) (h : B.Mimics enter V i w s (f c) act') :
    B.Mimics enter V i w s (act >>= f) act' := by
  unfold Bond.Mimics
  rw [Act.runIn_bind_some hrun]
  exact h

namespace Overlays

variable {n : Nat} {enter : Enter σ} {w s : World σ} (hw : Overlays n w s)

include hw

/-- Both acts look at the world and find the same. -/
theorem mimics_look {V : Unit → α → β → Prop} {a : α} {b : β} (hV : V () a b) {act : Act σ α}
    {act' : Act σ β} (hrun : act.runIn enter w = (some a, w))
    (hrun' : act'.runIn enter s = (some b, s)) : (overlay n).Mimics enter V () w s act act' := by
  unfold Bond.Mimics
  rw [hrun, hrun']
  exact .both ⟨(), (overlay n).refl (i := ()) hw, hV⟩

theorem mimics_text {v v' : Value} (hv : (overlay (σ := σ) n).Values () v v') :
    (overlay n).Mimics enter (fun _ => Eq) () w s (Act.text v) (Act.text v') := by
  obtain ⟨rfl, -⟩ := hv
  unfold Bond.Mimics
  rw [Act.runIn_text, Act.runIn_text, hw.store]
  cases s.store.text v with
  | none => exact .neither w s
  | some t => exact .both ⟨(), (overlay n).refl (i := ()) hw, rfl⟩

end Overlays

/-- Both acts are run while an element is held. -/
theorem Overlays.mimics_holding {n : Nat} {enter : Enter σ} {V : Unit → α → β → Prop} {w s : World σ}
    (hw : Overlays n w s) (e : ElementId) {act : Act σ α} {act' : Act σ β}
    (hact : ∀ {w s : World σ}, Overlays n w s → (overlay n).Mimics enter V () w s act act') :
    (overlay n).Mimics enter V () w s (Act.holding [e] act) (Act.holding [e] act') := by
  have hhold : (overlay n).Mimics enter (fun _ _ _ => True) () w s (Act.hold [e]) (Act.hold [e]) := by
    refine .both ⟨(), ⟨hw.withHeld fun c hc => ?_, .of_held w _⟩, trivial⟩
    rw [List.count_append, List.count_append, hw.held c hc]
  unfold Act.holding
  refine hhold.bind fun _ w₁ s₁ _ _ hgoes _ => (hact hgoes.1).bind fun _ w₂ s₂ a b hgoes hV => ?_
  have hrelease : (overlay n).Mimics enter (fun _ _ _ => True) () w₂ s₂ (Act.release [e])
      (Act.release [e]) := by
    refine .both ⟨(), ⟨hgoes.1.withHeld fun c hc => ?_, .of_held w₂ _⟩, trivial⟩
    rw [List.foldl_cons, List.foldl_nil, List.foldl_cons, List.foldl_nil, List.count_erase,
      List.count_erase, hgoes.1.held c hc]
  exact hrelease.bind fun _ _ _ _ _ hgoes _ => .pure hgoes.1 hV

/-- What is found, or is not there, in both worlds. -/
theorem optionRel_within {n : Nat} {a : Option Value} (h : ∀ v ∈ a, v.Within n) :
    Option.Rel ((overlay (σ := σ) n).Values ()) a a := by
  cases a with
  | none => exact .none
  | some v => exact .some ⟨rfl, h v rfl⟩

namespace Oblivious

variable {n : Nat} {enter : Enter σ} (h : Oblivious n enter) {names : List String} {C C' : Context}
  {w s : World σ}

include h

/-- An attribute of an old element. -/
theorem readAttribute (hw : Overlays n w s) {component : Component}
    (hwithin : ∀ c, component = .headless c → ∀ field ∈ c.attributes, field.2.Within n)
    (name : String) :
    (overlay n).Mimics enter (fun i => Outcomes ((overlay n).Values i)) () w s
      (Act.readAttribute component name) (Act.readAttribute component name) := by
  cases component with
  | foreign c => exact h.getAttribute hw c name
  | headless c =>
    refine hw.mimics_look (a := .ok _) (.ok ⟨rfl, ?_⟩) rfl rfl
    have hget := Value.Within.get? (hwithin c rfl) name
    unfold Headless.attributeValue
    cases hfound : c.attributes.get? name with
    | none => exact nofun
    | some v => exact hget v hfound

/-- What an old element owns. -/
theorem scopeGetOwn (hw : Overlays n w s) {e : ElementId} (he : e.row < n) (key : String) :
    (overlay n).Mimics enter (fun i => Option.Rel ((overlay n).Values i)) () w s
      (Act.scopeGetOwn e key) (Act.scopeGetOwn e key) := by
  obtain ⟨x, hx⟩ : ∃ x, s.elements.get? e.row = some x := by
    have hrow : e.row < s.elements.size := hw.size ▸ he
    exact ⟨_, Array.getElem?_eq_getElem hrow⟩
  have hx' : w.elements.get? e.row = some x := (hw.old _ he).trans hx
  have halive : (Act.alive e).runIn enter w = (some (s.alive e), w) := by
    rw [← hw.alive_eq he]
    rfl
  have halive' : (Act.alive e).runIn enter s = (some (s.alive e), s) := rfl
  unfold Act.scopeGetOwn Bond.Mimics
  rw [Act.runIn_bind_some halive, Act.runIn_bind_some halive']
  cases s.alive e with
  | false => exact hw.mimics_look .none rfl rfl
  | true =>
    rw [if_pos rfl, Act.runIn_bind_some (Act.runIn_element hx'),
      Act.runIn_bind_some (Act.runIn_element hx)]
    split
    · exact hw.mimics_look (.some ⟨rfl, nofun⟩) rfl rfl
    split
    · exact hw.mimics_look .none rfl rfl
    refine hw.mimics_holding e fun hw₁ => ?_
    have hwithin := fun c hc => hw.within.attributes e x c he hx hc
    refine (h.readAttribute hw₁ hwithin key).bind fun _ _ _ _ _ hgoes hab => .pure hgoes.1 ?_
    cases hab with
    | ok hv => exact .some hv
    | error => exact .none

/-- What a value owns. -/
theorem ownProperty (hw : Overlays n w s) {v v' : Value}
    (hv : (overlay (σ := σ) n).Values () v v') (key : String) :
    (overlay n).Mimics enter (fun i => Option.Rel ((overlay n).Values i)) () w s (Act.getOwn v key)
      (Act.getOwn v' key) := by
  obtain ⟨rfl, hv⟩ := hv
  cases v with
  | array a =>
    have hitems := optionRel_within (σ := σ) (Value.Within.sequenceProperty (hw.within.items a) key)
    refine hw.mimics_look ?_ rfl rfl
    rw [hw.store]
    exact hitems
  | str text =>
    refine hw.mimics_look (optionRel_within ?_) rfl rfl
    exact Value.Within.sequenceProperty (fun _ => .characters) key
  | object o =>
    cases o with
    | record r =>
      have hfields := optionRel_within (σ := σ) (Value.Within.get? (hw.within.fields r) key)
      refine hw.mimics_look ?_ rfl rfl
      rw [hw.store]
      exact hfields
    | scope m e => exact h.scopeGetOwn hw (hv m e rfl) key
    | foreign o type => exact h.getOwn hw o key
  | _ => exact hw.mimics_look .none rfl rfl

/-- The property of a value under the text of a key. -/
theorem keyed (hw : Overlays n w s) {v v' key key' : Value}
    (hv : (overlay (σ := σ) n).Values () v v') (hkey : (overlay (σ := σ) n).Values () key key') :
    (overlay n).Mimics enter (overlay n).Values () w s (Act.getKeyed v key)
      (Act.getKeyed v' key') := by
  refine (hw.mimics_text hkey).bind fun _ w₁ s₁ t t' hgoes ht => ?_
  subst ht
  refine (h.ownProperty hgoes.1 hv t).bind fun _ w₂ s₂ a b hgoes hab => .pure hgoes.1 ?_
  cases hab with
  | none => exact ⟨rfl, nofun⟩
  | some hv => exact hv

/-- Looking a name up passes over the new elements. -/
theorem lookup (hC : Faces n names C C' w s) {name : String} (hname : name ∈ names) :
    (overlay n).Mimics enter (fun i => Option.Rel fun x y =>
        (overlay n).Values i x.1 y.1 ∧ (overlay n).Values i x.2 y.2) () w s
      (Act.lookup name C) (Act.lookup name C') := by
  induction C generalizing C' w s with
  | nil =>
    cases hC.contexts with
    | nil => exact .pure hC.worlds .none
  | cons scope rest ih =>
    obtain ⟨hw, hC⟩ := hC
    cases hC with
    | scope m he hhides hrest =>
      obtain ⟨owned, howned, hrun⟩ := Act.runIn_getOwn_scope enter hhides m hname
      refine Bond.Mimics.left hrun ?_
      rcases howned with rfl | rfl
      · exact ih ⟨hw, hrest⟩
      · exact ih ⟨hw, hrest⟩
    | value hv hrest =>
      refine (h.ownProperty hw ⟨rfl, hv⟩ name).bind fun _ w₁ s₁ a b hgoes hab => ?_
      have hfound := ih (Faces.goes ⟨hw, hrest⟩ hgoes)
      cases hab with
      | none => exact hfound
      | @some x y hxy =>
        obtain ⟨rfl, hx⟩ := hxy
        cases x with
        | undefined => exact hfound
        | _ => exact .pure hgoes.1 (.some ⟨⟨rfl, hv⟩, rfl, hx⟩)

end Oblivious

theorem eq_of_forall₂_values {n : Nat} {items items' : List Value}
    (h : List.Forall₂ ((overlay (σ := σ) n).Values ()) items items') :
    items = items' ∧ ∀ v ∈ items, v.Within n := by
  induction h with
  | nil => exact ⟨rfl, fun _ h => absurd h List.not_mem_nil⟩
  | cons hv _ ih => exact ⟨by rw [hv.1, ih.1], List.forall_mem_cons.mpr ⟨hv.2, ih.2⟩⟩

/-- Both worlds get the same array. -/
theorem Overlays.mimics_newArray {n : Nat} {enter : Enter σ} {w s : World σ} (hw : Overlays n w s)
    {items items' : List Value} (hitems : List.Forall₂ ((overlay (σ := σ) n).Values ()) items items') :
    (overlay n).Mimics enter (overlay n).Values () w s (Act.newArray items)
      (Act.newArray items') := by
  obtain ⟨rfl, hwithin⟩ := eq_of_forall₂_values hitems
  have hrun : (Act.newArray items).runIn enter w = (some (.array (s.store.newArray items).1),
      { w with store := (s.store.newArray items).2 }) := by
    rw [← hw.store]
    rfl
  have hgrows : w.store.Grows (s.store.newArray items).2 := hw.store ▸ w.store.newArray_grows items
  unfold Bond.Mimics
  rw [hrun]
  exact .both ⟨(), ⟨hw.newArray hwithin, .of_store hgrows⟩, rfl, nofun⟩

/-- Both worlds get the same record. -/
theorem Overlays.mimics_newRecord {n : Nat} {enter : Enter σ} {w s : World σ} (hw : Overlays n w s)
    {fields : Fields Value} (hfields : ∀ field ∈ fields, field.2.Within n) :
    (overlay n).Mimics enter (fun _ v v' => ∃ r, v = .object (.record r) ∧ v' = .object (.record r)) ()
      w s (Act.newRecord fields) (Act.newRecord fields) := by
  have hrun : (Act.newRecord fields).runIn enter w =
      (some (.object (.record (s.store.newRecord fields).1)),
        { w with store := (s.store.newRecord fields).2 }) := by
    rw [← hw.store]
    rfl
  have hgrows : w.store.Grows (s.store.newRecord fields).2 :=
    hw.store ▸ w.store.newRecord_grows fields
  unfold Bond.Mimics
  rw [hrun]
  exact .both ⟨(), ⟨hw.newRecord hfields, .of_store hgrows⟩, _, rfl, rfl⟩

namespace Oblivious

variable {n : Nat} {enter : Enter σ} (h : Oblivious n enter) {names : List String} {C C' : Context}
  {w s : World σ}

include h

/-- Contexts with and without new elements are read in the same way. -/
theorem reads (C C' : Context) (names : List String) :
    Bond.Reads (overlay n) enter (fun _ => Faces n names C C') C C' names [] (Value.Within n) where
  meets hC := hC.worlds
  goes hgoes hC := hC.goes hgoes
  known _ hv := ⟨rfl, hv⟩
  lookup hC hname := by
    refine Answers.imp (h.lookup hC hname) fun _ _ _ _ ⟨_, hgoes, hfound⟩ => ⟨(), hgoes, ?_⟩
    cases hfound with
    | none => exact .none
    | some hxy => exact .some ⟨hxy.2, .inr (.inl hxy.1)⟩
  keyed hC hv hkey := h.keyed hC.worlds hv hkey
  newArray hC hitems := hC.worlds.mimics_newArray hitems
  apply f _ _ _ _ hC hv hargs := by
    obtain ⟨rfl, hv⟩ := hv
    obtain ⟨rfl, hwithin⟩ := eq_of_forall₂_values hargs
    exact h.apply hC.worlds f hv hwithin
  text hC hv := hC.worlds.mimics_text hv

/-- A directive has the same value with and without new elements. -/
theorem resolve (hC : Faces n names C C' w s) (resolver : Resolver) (hnames : resolver.names ⊆ names)
    (hv : ∀ v ∈ resolver.constants, v.Within n) :
    (overlay n).Mimics enter (fun i => Outcomes ((overlay n).Values i)) () w s
      (Eval.resolve C resolver).run (Eval.resolve C' resolver).run :=
  (h.reads C C' names).resolve hC resolver hnames (fun _ _ => List.not_mem_nil) hv

/-- A node is shown with and without new elements, or in neither case. -/
theorem shows (hC : Faces n names C C' w s) (node : Node Resolver)
    (hnames : ∀ condition ∈ node.condition, condition.names ⊆ names)
    (hv : ∀ condition ∈ node.condition, ∀ v ∈ condition.constants, v.Within n) :
    (overlay n).Mimics enter (fun _ => Outcomes Eq) () w s (Eval.shows C node).run
      (Eval.shows C' node).run :=
  (h.reads C C' names).shows hC node hnames (fun _ _ _ _ => List.not_mem_nil) hv

end Oblivious

/-! ### Hosts that calculate -/

/-- A script answers from what the host program remembers, and does nothing. -/
def Script.Calculates {α : Type} (script : Script σ α) (result : σ → α) : Prop :=
  ∀ (enter : Enter σ) (w : World σ), (Act.run script).runIn enter w = (some (result w.host), w)

/-- Functions, objects and components of the host program calculate, from what they are given and what
it remembers, and never answer an element in a later row than the first so many. -/
structure Host.Calculates (host : Host σ) (n : Nat) : Prop where
  /-- Functions. -/
  apply : ∀ (f : Function) {v : Value} {args : List Value}, v.Within n → (∀ a ∈ args, a.Within n) →
    ∃ result, (host.answer (.apply f v args)).Calculates result ∧
      ∀ s v, result s = .ok v → v.Within n
  /-- Objects. -/
  getOwn : ∀ (object : Nat) (key : String), ∃ result,
    (host.answer (.getOwn object key)).Calculates result ∧ ∀ s v, result s = some v → v.Within n
  /-- Components. -/
  getAttribute : ∀ (component : Nat) (name : String), ∃ result,
    (host.answer (.getAttribute component name)).Calculates result ∧
      ∀ s v, result s = .ok v → v.Within n

/-- What only calculates does not notice new elements. -/
theorem Host.Calculates.oblivious {host : Host σ} {n : Nat} (h : host.Calculates n) (depth : Nat) :
    Oblivious n (host.enter depth) := by
  have hmimics : ∀ (call : HostCall) {result : σ → call.Reply},
      (host.answer call).Calculates result → ∀ {V : Unit → call.Reply → call.Reply → Prop},
      (∀ s, V () (result s) (result s)) → ∀ {w s : World σ}, Overlays n w s →
      (overlay n).Mimics (host.enter depth) V () w s (Act.enterHost call) (Act.enterHost call) := by
    intro call result hcalculates V hV w s hw
    cases depth with
    | zero => exact .neither w s
    | succ depth =>
      have hrun : ∀ w : World σ, (Act.enterHost call).runIn (host.enter (depth + 1)) w =
          (some (result w.host), w) := hcalculates (host.enter depth)
      exact hw.mimics_look (hw.host ▸ hV s.host) (hrun w) (hrun s)
  have houtcomes : ∀ {ε : Type} {a : Except ε Value}, (∀ v, a = .ok v → v.Within n) →
      Outcomes ((overlay (σ := σ) n).Values ()) a a := by
    rintro ε (fault | v) hv
    · exact .error fault fault
    · exact .ok ⟨rfl, hv v rfl⟩
  refine ⟨fun hw f v args hv hargs => ?_, fun hw object key => ?_, fun hw component name => ?_⟩
  · obtain ⟨result, hcalculates, hresult⟩ := h.apply f hv hargs
    exact hmimics _ hcalculates (fun s => houtcomes (hresult s)) hw
  · obtain ⟨result, hcalculates, hresult⟩ := h.getOwn object key
    exact hmimics _ hcalculates (fun s => optionRel_within (hresult s)) hw
  · obtain ⟨result, hcalculates, hresult⟩ := h.getAttribute component name
    exact hmimics _ hcalculates (fun s => houtcomes (hresult s)) hw

end ReactiveViews
