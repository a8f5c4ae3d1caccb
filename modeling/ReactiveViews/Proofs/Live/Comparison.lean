import ReactiveViews.Proofs.Live.Journal
import ReactiveViews.Proofs.Live.Simulation

/-!
# Comparing two runs

Two acts are run in two worlds whose stores are linked. They *mimic* each other if they answer alike
and the stores are linked afterwards as well, by a link that says more of what is new only, and both
worlds have been left alone apart from that. This is a bond between the two runs (`Link.bond`).

The contexts of an element contain the elements around it as scopes. Where no expression asks for
what such a scope owns, it can be left out, and a context can be compared with one that has no
elements in it.

## What is proved

Acts that answer alike can be put together (`Agree.bind`, `Agree.bindE`), whatever is required of
the world in which the first of the two runs ends, as long as it was true before if it is true after.
-/

namespace ReactiveViews

variable {σ α β γ δ ε ε' : Type}

/-! ### What is touched -/

theorem Table.lt_size_of_get? {t : Table α} {row : Nat} {a : α} (h : t.get? row = some a) :
    row < t.size := by
  simp only [get?, size] at *
  exact (Array.getElem?_eq_some_iff.mp h).1

/-- The elements keep the scopes around them, and of those that there were only some have been touched. -/
structure Retains (S : ElementId → Prop) (w w' : World σ) : Prop where
  /-- What becomes of the elements. -/
  element : ∀ (e : ElementId) (x : Element), w.elements.get? e.row = some x →
    ∃ x', w'.elements.get? e.row = some x' ∧ x'.context = x.context ∧ (¬ S e → x' = x)

namespace Retains

variable {S T : ElementId → Prop} {u v w : World σ}

theorem of_elements_eq (h : v.elements = u.elements) : Retains S u v :=
  ⟨fun _ x hx => ⟨x, h ▸ hx, rfl, fun _ => rfl⟩⟩

theorem trans (h : Retains S u v) (h' : Retains S v w) : Retains S u w where
  element e x hx := by
    obtain ⟨y, hy, hcontext, heq⟩ := h.element e x hx
    obtain ⟨z, hz, hcontext', heq'⟩ := h'.element e y hy
    exact ⟨z, hz, hcontext'.trans hcontext, fun hS => (heq' hS).trans (heq hS)⟩

theorem mono (h : Retains S u v) (hST : ∀ e, (∃ x, u.elements.get? e.row = some x) → S e → T e) :
    Retains T u v where
  element e x hx := by
    obtain ⟨y, hy, hcontext, heq⟩ := h.element e x hx
    exact ⟨y, hy, hcontext, fun hT => heq fun hS => hT (hST e ⟨x, hx⟩ hS)⟩

theorem get? (h : Retains S u v) {e : ElementId} {x : Element} (hx : u.elements.get? e.row = some x)
    (he : ¬ S e) : v.elements.get? e.row = some x := by
  obtain ⟨y, hy, -, heq⟩ := h.element e x hx
  rw [hy, heq he]

end Retains

/-- There is more of everything, the log level and the memory of the host program are the same, and
of the elements that there were only some have been touched. -/
structure Touches (S : ElementId → Prop) (w w' : World σ) : Prop where
  /-- The store has only grown. -/
  store : w.store.Grows w'.store
  /-- The detail of the messages. -/
  level : w'.level = w.level
  /-- What the host program remembers. -/
  host : w'.host = w.host
  /-- The journal has only been added to. -/
  history : w.history <+: w'.history
  /-- The elements keep the scopes around them, and most of them all that they are. -/
  element : ∀ (e : ElementId) (x : Element), w.elements.get? e.row = some x →
    ∃ x', w'.elements.get? e.row = some x' ∧ x'.context = x.context ∧ (¬ S e → x' = x)

namespace Touches

variable {S T : ElementId → Prop} {u v w : World σ}

theorem retains (h : Touches S u v) : Retains S u v := ⟨h.element⟩

theorem refl (w : World σ) : Touches S w w :=
  ⟨.refl _, rfl, rfl, List.prefix_refl _, fun _ x hx => ⟨x, hx, rfl, fun _ => rfl⟩⟩

theorem trans (h : Touches S u v) (h' : Touches S v w) : Touches S u w where
  store := h.store.trans h'.store
  level := h'.level.trans h.level
  host := h'.host.trans h.host
  history := h.history.trans h'.history
  element := (h.retains.trans h'.retains).element

theorem mono (h : Touches S u v) (hST : ∀ e, (∃ x, u.elements.get? e.row = some x) → S e → T e) :
    Touches T u v := { h with element := (h.retains.mono hST).element }

/-- Only arrays and records have been added. -/
theorem of_store {w : World σ} {store : Store} (h : w.store.Grows store) :
    Touches S w { w with store } :=
  ⟨h, rfl, rfl, List.prefix_refl _, fun _ x hx => ⟨x, hx, rfl, fun _ => rfl⟩⟩

/-- What is touched by nobody is touched by somebody at most. -/
theorem of_none (h : Touches (fun _ => False) u v) : Touches S u v := h.mono fun _ _ h => h.elim

theorem get? (h : Touches S u v) {e : ElementId} {x : Element} (hx : u.elements.get? e.row = some x)
    (he : ¬ S e) : v.elements.get? e.row = some x := h.retains.get? hx he

end Touches

/-! ### Lineages -/

/-- The elements among the scopes, innermost first. -/
def Context.elements (C : Context) : List ElementId :=
  C.filterMap fun
    | .object (.scope _ e) => some e
    | _ => none

namespace World

/-- An element and the elements around it, innermost first. -/
def lineage (w : World σ) (e : ElementId) : List ElementId :=
  e :: match w.elements.get? e.row with
    | some x => Context.elements x.context
    | none => []

/-- The second element is the first, or has been made for something inside of it. -/
def Below (w : World σ) (e x : ElementId) : Prop := w.lineage e <:+ w.lineage x

theorem lineage_eq {w : World σ} {e : ElementId} {x : Element}
    (hx : w.elements.get? e.row = some x) : w.lineage e = e :: Context.elements x.context := by
  rw [lineage, hx]

theorem Below.refl (w : World σ) (e : ElementId) : w.Below e e := List.suffix_refl _

theorem Below.trans {w : World σ} {e x y : ElementId} (h : w.Below e x) (h' : w.Below x y) :
    w.Below e y := List.IsSuffix.trans h h'

/-- Two elements next to each other have nothing below them in common. -/
theorem Below.eq_of_lineage {w : World σ} {e e' x : ElementId} {l : List ElementId}
    (h : w.Below e x) (h' : w.Below e' x) (he : w.lineage e = e :: l) (he' : w.lineage e' = e' :: l) :
    e = e' := by
  have hsuffix : w.lineage e <:+ w.lineage e' :=
    List.suffix_of_suffix_length_le h h' (by rw [he, he']; simp)
  rw [he, he'] at hsuffix
  have := hsuffix.eq_of_length (by simp)
  exact (List.cons.inj this).1

end World

theorem Retains.lineage {S : ElementId → Prop} {w w' : World σ} (h : Retains S w w') {e : ElementId}
    {x : Element} (hx : w.elements.get? e.row = some x) : w'.lineage e = w.lineage e := by
  obtain ⟨y, hy, hcontext, -⟩ := h.element e x hx
  rw [World.lineage_eq hx, World.lineage_eq hy, hcontext]

theorem Touches.lineage {S : ElementId → Prop} {w w' : World σ} (h : Touches S w w') {e : ElementId}
    {x : Element} (hx : w.elements.get? e.row = some x) : w'.lineage e = w.lineage e :=
  h.retains.lineage hx

/-! ### Linked worlds and contexts -/

/-- What functions of the host program can see beside their arguments: a part of the store, and what
the host program remembers. -/
structure Scene (σ : Type) extends Region where
  /-- What the host program remembers. -/
  memory : σ

/-- An element as a scope owns none of these names. -/
def World.Hides (w : World σ) (names : List String) (e : ElementId) : Prop :=
  ∃ x h, w.elements.get? e.row = some x ∧ x.component = .headless h ∧ x.busy = false ∧
    ∀ name ∈ names, name ≠ "tag" ∧ name ∉ h.attributes.keys

namespace Link

/-- The second context is the first one without its elements, and with linked values; and the
elements own none of these names. -/
inductive Contexts (ρ : Link) (w : World σ) (names : List String) : Context → Context → Prop where
  /-- No scopes. -/
  | nil : Contexts ρ w names [] []
  /-- A linked value. -/
  | value {v v' : Value} {C C' : Context} :
    ρ.Values v v' → Contexts ρ w names C C' → Contexts ρ w names (v :: C) (v' :: C')
  /-- An element, which is left out. -/
  | scope (m : Nat) {e : ElementId} {C C' : Context} :
    w.Hides names e → w.lineage e = e :: Context.elements C → Contexts ρ w names C C' →
      Contexts ρ w names (.object (.scope m e) :: C) C'

/-- Two worlds that cannot be told apart by anyone who knows a scene: their stores are linked, and the
rest that matters is the same. -/
structure Worlds (ρ : Link) (D : Scene σ) (w s : World σ) : Prop where
  /-- What is in the scene stands for itself. -/
  covers : D.link ≤ ρ
  /-- The stores. -/
  stores : ρ.Stores w.store s.store
  /-- The detail of the messages. -/
  level : w.level = s.level
  /-- What the host program remembers in the one world. -/
  left : w.host = D.memory
  /-- What the host program remembers in the other world. -/
  right : s.host = D.memory

/-- From linked worlds to linked worlds: some elements may have been touched in the one world, and
none in the other. -/
structure Course (S : ElementId → Prop) (ρ ρ' : Link) (w w' s s' : World σ) : Prop where
  /-- What is linked in addition is new. -/
  extends_ : ρ.Extends ρ' w.store s.store
  /-- The stores are linked. -/
  stores : ρ'.Stores w'.store s'.store
  /-- What has been touched in the one world. -/
  left : Touches S w w'
  /-- Nothing has been touched in the other world. -/
  right : Touches (fun _ => False) s s'

/-- From linked worlds to linked worlds, in which nothing has been touched. -/
abbrev Step : Link → Link → World σ → World σ → World σ → World σ → Prop := Course fun _ => False

variable {S : ElementId → Prop} {ρ ρ₁ ρ₂ : Link} {D : Scene σ} {w w₁ w₂ s s₁ s₂ : World σ}

theorem Course.le (h : ρ.Course S ρ₁ w w₁ s s₁) : ρ ≤ ρ₁ := h.extends_.le

theorem Course.refl (h : ρ.Stores w.store s.store) : ρ.Course S ρ w w s s :=
  ⟨.refl _ _ _, h, .refl _, .refl _⟩

theorem Course.trans (h : ρ.Course S ρ₁ w w₁ s s₁) (h' : ρ₁.Course S ρ₂ w₁ w₂ s₁ s₂) :
    ρ.Course S ρ₂ w w₂ s s₂ :=
  ⟨h.extends_.trans h'.extends_ h.left.store h.right.store, h'.stores, h.left.trans h'.left,
    h.right.trans h'.right⟩

theorem Course.of_step (h : ρ.Step ρ₁ w w₁ s s₁) : ρ.Course S ρ₁ w w₁ s s₁ :=
  ⟨h.extends_, h.stores, .of_none h.left, h.right⟩

/-- The same link goes on. -/
theorem Course.of_touches (h : ρ.Stores w.store s.store) (hw : Touches S w w₁)
    (hs : Touches (fun _ => False) s s₁) : ρ.Course S ρ w w₁ s s₁ :=
  ⟨.refl _ _ _, h.grow hw.store hs.store, hw, hs⟩

/-- A link stays a link while its worlds go on. -/
theorem Worlds.grow {T : ElementId → Prop} (h : ρ.Worlds D w s) (hw : Touches S w w₁)
    (hs : Touches T s s₁) : ρ.Worlds D w₁ s₁ :=
  ⟨h.covers, h.stores.grow hw.store hs.store, (hw.level.trans h.level).trans hs.level.symm,
    hw.host.trans h.left, hs.host.trans h.right⟩

theorem Worlds.step (h : ρ.Worlds D w s) (hcourse : ρ.Course S ρ₁ w w₁ s s₁) :
    ρ₁.Worlds D w₁ s₁ :=
  ⟨Link.le_trans h.covers hcourse.le, hcourse.stores, (h.grow hcourse.left hcourse.right).level,
    hcourse.left.host.trans h.left, hcourse.right.host.trans h.right⟩

theorem Worlds.held (h : ρ.Worlds D w s) {v : Value} (hv : D.Holds v) : ρ.Values v v :=
  Values.mono h.covers hv

variable {names : List String} {C C' : Context}

theorem Contexts.mono (h : ρ.Contexts w names C C') (hle : ρ ≤ ρ₁) {names' : List String}
    (hnames : names' ⊆ names) : ρ₁.Contexts w names' C C' := by
  induction h with
  | nil => exact .nil
  | value hv _ ih => exact .value (hv.mono hle) ih
  | scope m hhides hlineage _ ih =>
    obtain ⟨x, h, hx, hcomponent, hbusy, hnone⟩ := hhides
    exact .scope m ⟨x, h, hx, hcomponent, hbusy, fun name hname => hnone name (hnames hname)⟩
      hlineage ih

/-- Contexts stay linked if their elements are not touched. -/
theorem Contexts.touched (h : ρ.Contexts w names C C')
    (hw : Touches S w w₁)
    (hS : ∀ e, (w.lineage e).length ≤ (Context.elements C).length → ¬ S e) :
    ρ.Contexts w₁ names C C' := by
  induction h with
  | nil => exact .nil
  | @value v v' C C' hv hrest ih =>
    refine .value hv (ih fun e he => hS e (Nat.le_trans he ?_))
    cases hv with
    | plain hplain =>
      cases v with
      | object o =>
        cases o with
        | scope => cases hplain
        | _ => exact Nat.le_refl _
      | _ => exact Nat.le_refl _
    | _ => exact Nat.le_refl _
  | @scope m e C C' hhides hlineage _ ih =>
    obtain ⟨x, h, hx, hcomponent, hbusy, hnone⟩ := hhides
    have he : ¬ S e := hS e (by rw [hlineage]; exact Nat.le_refl _)
    refine .scope m ⟨x, h, hw.get? hx he, hcomponent, hbusy, hnone⟩ ?_ (ih fun e' he' => hS e' ?_)
    · rw [hw.lineage hx, hlineage]
    · exact Nat.le_succ_of_le he'

theorem Contexts.step (h : ρ.Contexts w names C C') (hstep : ρ.Step ρ₁ w w₁ s s₁) :
    ρ₁.Contexts w₁ names C C' :=
  (h.mono hstep.le (List.Subset.refl _)).touched hstep.left fun _ _ h => h

end Link

/-! ### Acts that mimic each other -/

/-- In linked worlds both acts answer or neither does, with related answers and worlds linked by
more. -/
def Mimics (enter : Enter σ) (V : Link → α → β → Prop) (ρ : Link) (w s : World σ) (act : Act σ α)
    (act' : Act σ β) : Prop :=
  Answers (fun a b w' s' => ∃ ρ', ρ.Step ρ' w w' s s' ∧ V ρ' a b) (act.runIn enter w)
    (act'.runIn enter s)

/-- Linked values, and steps that touch nothing. -/
def Link.bond : Bond σ where
  Index := Link
  Meets ρ w s := ρ.Stores w.store s.store
  Values ρ := ρ.Values
  Goes ρ ρ' w w' s s' := ρ.Step ρ' w w' s s'
  refl h := .refl h
  trans h h' := h.trans h'
  meets h := h.stores
  values h hv := hv.mono h.le
  undefined _ := .plain rfl
  str _ _ := .plain rfl
  truthy hv := hv.truthy_eq
  function hv f := by
    cases hv with
    | plain => exact Iff.rfl
    | _ => exact iff_of_false Value.noConfusion Value.noConfusion

namespace Mimics

variable {enter : Enter σ} {V : Link → α → β → Prop} {U : Link → γ → δ → Prop} {ρ : Link}
  {w s : World σ}

theorem pure (h : ρ.Stores w.store s.store) {a : α} {b : β} (hV : V ρ a b) :
    Mimics enter V ρ w s (Pure.pure a) (Pure.pure b) := Bond.Mimics.pure (B := Link.bond) h hV

theorem bind {act : Act σ α} {act' : Act σ β} {f : α → Act σ γ} {g : β → Act σ δ}
    (h : Mimics enter V ρ w s act act')
    (hfg : ∀ ρ' w' s' a b, ρ.Step ρ' w w' s s' → V ρ' a b →
      Mimics enter U ρ' w' s' (f a) (g b)) :
    Mimics enter U ρ w s (act >>= f) (act' >>= g) := Bond.Mimics.bind (B := Link.bond) h hfg

theorem never : Mimics enter V ρ w s Act.never Act.never := .neither w s

theorem pureE (h : ρ.Stores w.store s.store) {a : α} {b : β} (hV : V ρ a b) :
    Mimics enter (fun ρ => Outcomes (V ρ)) ρ w s (Pure.pure a : ExceptT ε (Act σ) α).run
      (Pure.pure b : ExceptT ε' (Act σ) β).run := .pure h (.ok hV)

theorem bindE {act : ExceptT ε (Act σ) α} {act' : ExceptT ε' (Act σ) β}
    {f : α → ExceptT ε (Act σ) γ} {g : β → ExceptT ε' (Act σ) δ}
    (h : Mimics enter (fun ρ => Outcomes (V ρ)) ρ w s act.run act'.run)
    (hfg : ∀ ρ' w' s' a b, ρ.Step ρ' w w' s s' → V ρ' a b →
      Mimics enter (fun ρ => Outcomes (U ρ)) ρ' w' s' (f a).run (g b).run) :
    Mimics enter (fun ρ => Outcomes (U ρ)) ρ w s (act >>= f).run (act' >>= g).run :=
  Bond.Mimics.bindE (B := Link.bond) h hfg

theorem eval {act : Act σ (Except EvalError α)} {act' : Act σ (Except EvalError β)}
    (h : Mimics enter (fun ρ => Outcomes (V ρ)) ρ w s act act') :
    Mimics enter (fun ρ => Outcomes (V ρ)) ρ w s (Build.eval act).run (Build.eval act').run :=
  Bond.Mimics.eval (B := Link.bond) h

end Mimics

/-! ### Acts that answer alike -/

/-- Both acts answer or neither does, with related answers, unless the first one gets into a world
in which something required is not true. -/
def Agree (H : World σ → Prop) (enter : Enter σ) (Q : α → β → World σ → World σ → Prop)
    (w s : World σ) (act : Act σ α) (act' : Act σ β) : Prop :=
  H (act.runIn enter w).2 → Answers Q (act.runIn enter w) (act'.runIn enter s)

/-- What holds of both results and worlds, and of the first world if both have failed. -/
def Result (Q : α → β → World σ → World σ → Prop) (E : World σ → Prop) (x : Except ε α)
    (y : Except ε' β) (w s : World σ) : Prop :=
  Outcomes (fun a b => Q a b w s) x y ∧ (x.isOk = false → E w)

/-- An act after which what is required is not true unless it was true before. -/
def Reflects (H : World σ → Prop) (enter : Enter σ) (act : Act σ α) : Prop :=
  ∀ w, H (act.runIn enter w).2 → H w

namespace Agree

variable {H : World σ → Prop} {enter : Enter σ} {Q : α → β → World σ → World σ → Prop}
  {R : γ → δ → World σ → World σ → Prop} {E : World σ → Prop} {w s : World σ}

theorem pure {a : α} {b : β} (h : Q a b w s) :
    Agree H enter Q w s (Pure.pure a) (Pure.pure b) := fun _ => .both h

theorem imp {R : α → β → World σ → World σ → Prop} {act : Act σ α} {act' : Act σ β}
    (h : Agree H enter Q w s act act') (hQR : ∀ a b w s, Q a b w s → R a b w s) :
    Agree H enter R w s act act' := fun hH => (h hH).imp hQR

theorem bind {act : Act σ α} {act' : Act σ β} {f : α → Act σ γ} {g : β → Act σ δ}
    (h : Agree H enter Q w s act act') (hf : ∀ a, Reflects H enter (f a))
    (hfg : ∀ a b w' s', Q a b w' s' → Agree H enter R w' s' (f a) (g b)) :
    Agree H enter R w s (act >>= f) (act' >>= g) := by
  intro hH
  have hact : H (act.runIn enter w).2 := by
    rw [Act.runIn_bind] at hH
    revert hH
    rcases act.runIn enter w with ⟨_ | a, w'⟩
    · exact id
    · exact hf a w'
  refine Answers.bind (h hact) fun a b w' s' hrun hQ => hfg a b w' s' hQ ?_
  rwa [Act.runIn_bind_some hrun] at hH

/-- Acts that answer alike in any case come first. -/
theorem after {act : Act σ α} {act' : Act σ β} {f : α → Act σ γ} {g : β → Act σ δ}
    (h : Answers Q (act.runIn enter w) (act'.runIn enter s))
    (hfg : ∀ a b w' s', Q a b w' s' → Agree H enter R w' s' (f a) (g b)) :
    Agree H enter R w s (act >>= f) (act' >>= g) := by
  intro hH
  refine Answers.bind h fun a b w' s' hrun hQ => hfg a b w' s' hQ ?_
  rwa [Act.runIn_bind_some hrun] at hH

/-- What is required is true at the beginning already. -/
theorem assume {act : Act σ α} {act' : Act σ β} (hact : Reflects H enter act)
    (h : H w → Agree H enter Q w s act act') : Agree H enter Q w s act act' :=
  fun hH => h (hact w hH) hH

/-- A step of the first act alone. -/
theorem left {act : Act σ γ} {f : γ → Act σ α} {act' : Act σ β} {w' : World σ} {c : γ}
    (hrun : act.runIn enter w = (some c, w')) (h : Agree H enter Q w' s (f c) act') :
    Agree H enter Q w s (act >>= f) act' := by
  unfold Agree
  rw [Act.runIn_bind_some hrun]
  exact h

/-- A step of the second act alone. -/
theorem right {act : Act σ α} {act' : Act σ γ} {g : γ → Act σ β} {s' : World σ} {c : γ}
    (hrun : act'.runIn enter s = (some c, s')) (h : Agree H enter Q w s' act (g c)) :
    Agree H enter Q w s act (act' >>= g) := by
  unfold Agree
  rw [Act.runIn_bind_some hrun]
  exact h

/-- The end of the first act alone. -/
theorem last {act : Act σ α} {w' : World σ} {a : α} {b : β}
    (hrun : act.runIn enter w = (some a, w')) (h : Q a b w' s) :
    Agree H enter Q w s act (Pure.pure b) := fun _ => by
  rw [hrun]
  exact .both h

theorem pureE {a : α} {b : β} (h : Q a b w s) :
    Agree H enter (Result Q E) w s (Pure.pure a : ExceptT ε (Act σ) α).run
      (Pure.pure b : ExceptT ε' (Act σ) β).run :=
  .pure ⟨.ok h, fun h => by cases h⟩

theorem bindE {act : ExceptT ε (Act σ) α} {act' : ExceptT ε' (Act σ) β}
    {f : α → ExceptT ε (Act σ) γ} {g : β → ExceptT ε' (Act σ) δ}
    (h : Agree H enter (Result Q E) w s act.run act'.run) (hf : ∀ a, Reflects H enter (f a).run)
    (hfg : ∀ a b w' s', Q a b w' s' → Agree H enter (Result R E) w' s' (f a).run (g b).run) :
    Agree H enter (Result R E) w s (act >>= f).run (act' >>= g).run := by
  rw [ExceptT.run_bind, ExceptT.run_bind]
  refine h.bind ?_ fun x y w' s' hxy => ?_
  · rintro (e | a) w' hH
    · exact hH
    · exact hf a w' hH
  · obtain ⟨hxy, hE⟩ := hxy
    cases hxy with
    | ok hQ => exact hfg _ _ _ _ hQ
    | error e e' => exact .pure ⟨.error e e', fun _ => hE rfl⟩

/-- Acts that answer alike in any case come first. -/
theorem afterE {act : ExceptT ε (Act σ) α} {act' : ExceptT ε' (Act σ) β}
    {f : α → ExceptT ε (Act σ) γ} {g : β → ExceptT ε' (Act σ) δ}
    (h : Answers (Result Q E) (act.run.runIn enter w) (act'.run.runIn enter s))
    (hfg : ∀ a b w' s', Q a b w' s' → Agree H enter (Result R E) w' s' (f a).run (g b).run) :
    Agree H enter (Result R E) w s (act >>= f).run (act' >>= g).run := by
  rw [ExceptT.run_bind, ExceptT.run_bind]
  refine Agree.after h fun x y w' s' hxy => ?_
  obtain ⟨hxy, hE⟩ := hxy
  cases hxy with
  | ok hQ => exact hfg _ _ _ _ hQ
  | error e e' => exact .pure ⟨.error e e', fun _ => hE rfl⟩

/-- A step of the first act alone, which succeeds. -/
theorem leftE {act : ExceptT ε (Act σ) γ} {f : γ → ExceptT ε (Act σ) α}
    {act' : ExceptT ε' (Act σ) β} {w' : World σ} {c : γ}
    (hrun : act.run.runIn enter w = (some (.ok c), w'))
    (h : Agree H enter (Result Q E) w' s (f c).run act'.run) :
    Agree H enter (Result Q E) w s (act >>= f).run act'.run := by
  rw [ExceptT.run_bind]
  exact h.left hrun

/-- A step of the second act alone, which succeeds. -/
theorem rightE {act : ExceptT ε (Act σ) α} {act' : ExceptT ε' (Act σ) γ}
    {g : γ → ExceptT ε' (Act σ) β} {s' : World σ} {c : γ}
    (hrun : act'.run.runIn enter s = (some (.ok c), s'))
    (h : Agree H enter (Result Q E) w s' act.run (g c).run) :
    Agree H enter (Result Q E) w s act.run (act' >>= g).run := by
  rw [ExceptT.run_bind]
  exact h.right hrun

/-- What comes after the second act only changes its answer. -/
theorem mapRightE {Q : α → δ → World σ → World σ → Prop} {act : ExceptT ε (Act σ) α}
    {act' : ExceptT ε' (Act σ) β} {f : β → δ}
    (h : Agree H enter (Result (fun a b => Q a (f b)) E) w s act.run act'.run) :
    Agree H enter (Result Q E) w s act.run (act' >>= fun b => Pure.pure (f b)).run := by
  rw [← bind_pure act]
  exact h.bindE (fun _ _ => id) fun _ _ _ _ hQ => .pureE hQ

end Agree

/-- Acts that mimic each other answer alike. -/
theorem Mimics.answers {enter : Enter σ} {V : Link → α → β → Prop} {ρ : Link} {w s : World σ}
    {Q : α → β → World σ → World σ → Prop} {E : World σ → Prop} {act : ExceptT ε (Act σ) α}
    {act' : ExceptT ε' (Act σ) β}
    (h : Mimics enter (fun ρ => Outcomes (V ρ)) ρ w s act.run act'.run)
    (hQ : ∀ ρ' w' s' a b, ρ.Step ρ' w w' s s' → V ρ' a b → Q a b w' s')
    (hE : ∀ w', Touches (fun _ => False) w w' → E w') :
    Answers (Result Q E) (act.run.runIn enter w) (act'.run.runIn enter s) :=
  Answers.imp h fun _ _ _ _ ⟨ρ', hstep, hxy⟩ =>
    ⟨hxy.imp fun _ _ hV => hQ ρ' _ _ _ _ hstep hV, fun _ => hE _ hstep.left⟩

end ReactiveViews
