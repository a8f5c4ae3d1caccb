import ReactiveViews.Proofs.Live.Conditionals
import ReactiveViews.Proofs.Live.Refreshing

/-!
# Lists keep the elements of their items while they are the same

A node with a list contributes an element for each item that its condition lets through. The elements
stay in the slot as long as the list is the same, with as many items, and every condition comes out as
it did. The conditions are looked at again every time, in the frames of the items; but these frames are
those of the items when the list was last another one, or had another length.

## The model

An evaluation first evaluates the list (`Evaluation.listed`), then takes the frames for its items from
the slot or makes new ones (`Evaluation.framed`), evaluates the condition in each of them
(`Evaluation.judged`), and answers with the elements in the slot or makes new ones.

## What is proved

What an evaluation does depends on what the slot remembers and on these three
(`Evaluation.Begins.listing`), and what is remembered is what the last evaluation that succeeded has
left (`Recalls.next`, `Recalls.skip`). So elements and frames are kept from one evaluation that succeeds
to the next exactly as said above (`Host.list_slot`).
-/

namespace ReactiveViews

variable {σ α : Type} {e : ElementId} {i : Nat}

/-! ### The parts of an evaluation -/

/-- What is remembered of the last evaluation fits a list with these items. -/
def Repetition.Fits (last : Option Repetition) (list : Value) (items : List Value) : Prop :=
  ∃ l, last = some l ∧ l.list.same list = true ∧ l.contexts.length = items.length

theorem Repetition.Fits.eq_true {l : Repetition} {list : Value} {items : List Value}
    (h : Fits (some l) list items) :
    (l.list.same list && l.contexts.length == items.length) = true := by
  obtain ⟨l, ⟨⟩, hsame, hlength⟩ := h
  simp [hsame, hlength]

theorem Repetition.fits_of_eq_true {l : Repetition} {list : Value} {items : List Value}
    (h : (l.list.same list && l.contexts.length == items.length) = true) :
    Fits (some l) list items := ⟨l, rfl, by simpa using h⟩

theorem Repetition.Fits.ne_none {last : Option Repetition} {list : Value} {items : List Value}
    (h : Fits last list items) : last ≠ none := by
  obtain ⟨l, rfl, -⟩ := h
  exact Option.some_ne_none l

/-- What a slot remembers of the last evaluation of a list. -/
def Memory.repetition? : Memory → Option Repetition
  | .single _ => none
  | .repeated last => last

namespace Build

/-- New frames for the items of a list. -/
def newFrames (node : Node Resolver) (name : String) (context : Context) (items : List Value) :
    Act σ (List Context) := do
  Act.message .trace do
    return "`" ++ node.path ++ "`: new list of " ++ toString items.length ++ " item(s), rebuilding"
  frames name context items

/-- The frames for the items of a list: those that are remembered, if they fit, or new ones. -/
def itemFrames (node : Node Resolver) (name : String) (context : Context) (last : Option Repetition)
    (list : Value) (items : List Value) : Act σ (List Context) :=
  match last with
  | some last =>
    if last.list.same list && last.contexts.length == items.length then do
      noteKept last
      return last.contexts
    else newFrames node name context items
  | none => newFrames node name context items

/-- The frames for the items of the list of a node. -/
def listFrames (node : Node Resolver) (name : String) (resolver : Resolver) (context : Context)
    (last : Option Repetition) : Build σ (List Context) := do
  let (list, items) ← listOf context resolver
  act (itemFrames node name context last list items)

/-- The conditions of a node in the frames for the items of its list. -/
def listConditions (node : Node Resolver) (name : String) (resolver : Resolver) (context : Context)
    (last : Option Repetition) : Build σ (List Bool) := do
  conditions node (← listFrames node name resolver context last)

end Build

namespace Evaluation

/-- The list and its items, if the list can be evaluated. -/
def listed (v : Evaluation σ e i) (resolver : Resolver) : Option (Value × List Value) :=
  ((Build.listOf v.scope resolver).run.runIn v.enter v.world).1.bind Except.toOption

/-- The frames for the items, and the world in which they have been found or made. -/
def framing (v : Evaluation σ e i) (name : String) (resolver : Resolver) :
    Option (Except ViewError (List Context)) × World σ :=
  (Build.listFrames v.slot.node name resolver v.scope v.slot.memory.repetition?).run.runIn v.enter v.world

/-- The frames for the items, if the list can be evaluated. -/
def framed (v : Evaluation σ e i) (name : String) (resolver : Resolver) : Option (List Context) :=
  (v.framing name resolver).1.bind Except.toOption

/-- The conditions in these frames, if they all have truth values. -/
def judged (v : Evaluation σ e i) (name : String) (resolver : Resolver) : Option (List Bool) :=
  ((Build.listConditions v.slot.node name resolver v.scope v.slot.memory.repetition?).run.runIn
    v.enter v.world).1.bind Except.toOption

/-- The frames are those of the items of the list in this evaluation: each is a record that holds the
item under the name and nothing else, in front of the scopes of the evaluation. -/
def Captures (v : Evaluation σ e i) (name : String) (resolver : Resolver) : Prop :=
  ∃ list items frames, v.listed resolver = some (list, items) ∧ v.framed name resolver = some frames ∧
    List.Forall₂ (fun frame item => ∃ r : RecordId, frame = .object (.record r) :: v.scope ∧
      (v.framing name resolver).2.store.fields r = [(name, item)]) frames items

/-- The elements are new ones, one for each frame that the conditions let through. -/
structure Renews (v : Evaluation σ e i) (node : Node Resolver) (frames : List Context)
    (conditions : List Bool) (elements : List ElementId) : Prop where
  /-- There is a condition for each frame. -/
  length : conditions.length = frames.length
  /-- Each element is made in its frame. -/
  made : List.Forall₂ (fun c frame => Build.Made node frame v.world v.finish c) elements
    (Build.shown frames conditions)
  /-- They are new. -/
  rows : ∀ c ∈ elements, v.world.elements.size ≤ c.row
  /-- They are different. -/
  nodup : elements.Nodup

/-- What an evaluation of the slot of a list does, given what is remembered before it and after. -/
inductive Listing (v : Evaluation σ e i) (node : Node Resolver) (name : String) (resolver : Resolver) :
    Option Repetition → Option Repetition → Prop where
  /-- It fails, and nothing else is remembered than before. -/
  | failed {last : Option Repetition} : v.answer = none → Listing v node name resolver last last
  /-- What is remembered fits, and the conditions are what they were. -/
  | kept {last : Repetition} {list : Value} {items : List Value} :
    v.listed resolver = some (list, items) → Repetition.Fits (some last) list items →
    v.framed name resolver = some last.contexts → v.judged name resolver = some last.conditions →
    v.answer = some last.elements → Listing v node name resolver (some last) (some last)
  /-- What is remembered fits, but the conditions have changed. -/
  | changed {last : Repetition} {list : Value} {items : List Value} {conditions : List Bool}
      {elements : List ElementId} :
    v.listed resolver = some (list, items) → Repetition.Fits (some last) list items →
    v.framed name resolver = some last.contexts → v.judged name resolver = some conditions →
    conditions ≠ last.conditions → v.answer = some elements →
    v.Renews node last.contexts conditions elements →
      Listing v node name resolver (some last) (some { last with conditions, elements })
  /-- What is remembered does not fit. -/
  | anew {last : Option Repetition} {list : Value} {items : List Value} {frames : List Context}
      {conditions : List Bool} {elements : List ElementId} :
    v.listed resolver = some (list, items) → ¬ Repetition.Fits last list items →
    v.framed name resolver = some frames → v.judged name resolver = some conditions →
    v.answer = some elements → frames.length = items.length → v.Captures name resolver →
    v.Renews node frames conditions elements →
      Listing v node name resolver last (some ⟨list, frames, conditions, elements⟩)

end Evaluation

/-- Frames that have been made for items hold them. -/
theorem captured_of_frames {enter : Enter σ} {w w' : World σ} {name : String} {context : Context}
    {items : List Value} {frames : List Context}
    (hrun : (Build.frames name context items).runIn enter w = (some frames, w')) :
    List.Forall₂ (fun frame item => ∃ r : RecordId, frame = .object (.record r) :: context ∧
      w'.store.fields r = [(name, item)]) frames items := by
  obtain ⟨frames', w'', hrun', -, hall⟩ := runIn_frames enter name context items w
  rw [hrun] at hrun'
  cases hrun'
  refine hall.imp ?_
  rintro frame item ⟨r, heq, -, -, hfields⟩
  exact ⟨r, heq, hfields⟩

/-! ### What an evaluation does -/

/-- Nothing that can be walked through is the same as another thing. -/
theorem Value.eq_of_same {s : Store} {v v' : Value} {items : List Value} (h : v.same v' = true)
    (hitems : s.walk? v' = some items) : v = v' := by
  cases v' with
  | undefined => cases v <;> first | rfl | cases h
  | null => cases v <;> first | rfl | cases h
  | str text =>
    cases v with
    | str text' => exact congrArg _ (beq_iff_eq.mp h)
    | _ => cases h
  | array a =>
    cases v with
    | array a' => exact congrArg _ (beq_iff_eq.mp h)
    | _ => cases h
  | _ => cases hitems

namespace Build

variable {enter : Enter σ} {w w' : World σ}

theorem length_of_conditions {node : Node Resolver} {contexts : List Context} {conditions : List Bool}
    (hrun : (Build.conditions node contexts).run.runIn enter w = (some (.ok conditions), w')) :
    conditions.length = contexts.length := by
  induction contexts generalizing w conditions with
  | nil =>
    cases hrun
    rfl
  | cons context rest ih =>
    obtain ⟨condition, v, -, hrun⟩ := runIn_bindE_eq_ok hrun
    obtain ⟨more, v', hrest, hrun⟩ := runIn_bindE_eq_ok hrun
    cases hrun
    exact congrArg Nat.succ (ih hrest)

/-- A list can be walked through. -/
theorem walk_of_listOf {context : Context} {resolver : Resolver} {list : Value} {items : List Value}
    (hrun : (listOf context resolver).run.runIn enter w = (some (.ok (list, items)), w')) :
    ∃ s : Store, s.walk? list = some items := by
  obtain ⟨list', v, -, hrun⟩ := runIn_bindE_eq_ok hrun
  obtain ⟨items', v', hitems, hrun⟩ := runIn_bindE_eq_ok hrun
  cases hrun
  refine ⟨v.store, ?_⟩
  have hrun : ((·.mapError ViewError.eval) <$> Act.items list).runIn enter v =
      (some (.ok items), w') := hitems
  rw [Act.runIn_map, Act.items, Act.runIn_bind_some (Act.runIn_get _ _)] at hrun
  cases hwalk : v.store.walk? list with
  | none =>
    rw [hwalk] at hrun
    cases hrun
  | some items' =>
    rw [hwalk] at hrun
    cases hrun
    rfl

end Build

namespace Evaluation

variable {v : Evaluation σ e i} {node : Node Resolver} {m m' : Memory} {u w : World σ}

/-- New elements are made and remembered, or it fails. -/
theorem Begins.settles (h : v.Begins node m w) (hlasts : Lasts v.world u) (hu : u.Opens e i ⟨node, m⟩)
    (hend : v.finish.Opens e i ⟨node, m'⟩) {list : Value} {frames : List Context}
    {conditions : List Bool} (hlength : conditions.length = frames.length)
    (hrun : v.run = (Build.createAll node v.factory (Build.shown frames conditions) >>= fun elements =>
      Build.settle e i ⟨list, frames, conditions, elements⟩).run.runIn v.enter u) :
    (v.answer = none ∧ m' = m) ∨ ∃ elements, v.answer = some elements ∧
      m' = .repeated (some ⟨list, frames, conditions, elements⟩) ∧
      v.Renews node frames conditions elements := by
  obtain ⟨host, depth, henter⟩ := h.entered
  have hbuilds := henter ▸ host.keeps_slot e i depth
  rcases advance (hbuilds.createAll node v.factory _) hu hend hrun with
    hfailed | ⟨elements, u₁, hmade, hlasts₁, hu₁, hrun⟩
  · exact .inl hfailed
  obtain ⟨hall, hrows, hnodup⟩ := Build.createAll_made (henter ▸ host.lasts_admits depth) hmade
  obtain ⟨u₂, hremember, hlasts₂, hu₂⟩ :=
    hu₁.remember (.repeated (some ⟨list, frames, conditions, elements⟩)) v.enter
  rw [Build.settle, Build.runIn_bindE_ok hremember] at hrun
  obtain ⟨hlasts₃, hu₃⟩ := hu₂.keeps (hbuilds.release elements u₂)
  obtain ⟨hanswer, hfinish, hm'⟩ := ends hend hrun hu₃
  have hlater : Lasts u₁ v.finish := hfinish ▸ hlasts₂.trans hlasts₃
  exact .inr ⟨elements, hanswer, hm', hlength, hall.imp fun _ _ hc => hc.later hlasts hlater,
    fun c hc => Nat.le_trans hlasts.size (hrows c hc), hnodup⟩

section

variable {last : Option Repetition} {name : String} {resolver : Resolver} {list : Value}
  {items : List Value} {u₁ u₂ u₃ : World σ}

theorem Begins.framing_eq (h : v.Begins node (.repeated last) w)
    (hlist : (Build.listOf v.scope resolver).run.runIn v.enter v.world = (some (.ok (list, items)), u₁))
    {frames : List Context}
    (hframes : (Build.itemFrames node name v.scope last list items).runIn v.enter u₁ =
      (some frames, u₂)) : v.framing name resolver = (some (.ok frames), u₂) := by
  rw [framing, h.slot]
  show (Build.listFrames node name resolver v.scope last).run.runIn v.enter v.world = _
  rw [Build.listFrames, Build.runIn_bindE_ok hlist]
  exact Act.runIn_lift hframes

theorem Begins.judged_eq (h : v.Begins node (.repeated last) w) {frames : List Context}
    {conditions : List Bool} (hframing : v.framing name resolver = (some (.ok frames), u₂))
    (hconditions : (Build.conditions node frames).run.runIn v.enter u₂ = (some (.ok conditions), u₃)) :
    v.judged name resolver = some conditions := by
  rw [framing, h.slot] at hframing
  rw [judged, h.slot, Build.listConditions, Build.runIn_bindE_ok hframing, hconditions]
  rfl

/-- What is remembered fits the list. -/
theorem Begins.listing_of_fits {l : Repetition} (h : v.Begins node (.repeated (some l)) w)
    (hend : v.finish.Opens e i ⟨node, m'⟩)
    (hlist : (Build.listOf v.scope resolver).run.runIn v.enter v.world = (some (.ok (list, items)), u₁))
    (hlasts₁ : Lasts v.world u₁) (hu₁ : u₁.Opens e i ⟨node, .repeated (some l)⟩)
    (hfits : Repetition.Fits (some l) list items)
    (hrun : v.run = (Build.act (Build.noteKept l) >>= fun _ =>
      Build.reuse e i node l v.factory).run.runIn v.enter u₁) :
    ∃ last', m' = .repeated last' ∧ v.Listing node name resolver (some l) last' := by
  obtain ⟨host, depth, henter⟩ := h.entered
  have hbuilds := henter ▸ host.keeps_slot e i depth
  have hlisted : v.listed resolver = some (list, items) := by
    rw [listed, hlist]
    rfl
  rcases advance (hbuilds.liftE (hbuilds.noteKept l)) hu₁ hend hrun with
    ⟨hanswer, hm'⟩ | ⟨_, u₂, hnote, hlasts₂, hu₂, hrun⟩
  · exact ⟨some l, hm', .failed hanswer⟩
  unfold Build.reuse at hrun
  rcases advance (hbuilds.conditions node l.contexts) hu₂ hend hrun with
    ⟨hanswer, hm'⟩ | ⟨conditions, u₃, hconditions, hlasts₃, hu₃, hrun⟩
  · exact ⟨some l, hm', .failed hanswer⟩
  have hframes : v.framing name resolver = (some (.ok l.contexts), u₂) := by
    refine h.framing_eq hlist ?_
    rw [Build.itemFrames, if_pos hfits.eq_true, Act.runIn_bind_some (Build.runIn_lift_eq_ok hnote)]
    rfl
  have hframed : v.framed name resolver = some l.contexts := by
    rw [framed, hframes]
    rfl
  have hjudged := h.judged_eq hframes hconditions
  by_cases heq : conditions = l.conditions
  · rw [if_pos (beq_iff_eq.mpr heq)] at hrun
    obtain ⟨hanswer, -, hm'⟩ := ends hend hrun hu₃
    exact ⟨some l, hm', .kept hlisted hfits hframed (heq ▸ hjudged) hanswer⟩
  · rw [if_neg (fun hbeq => heq (beq_iff_eq.mp hbeq))] at hrun
    rcases advance (hbuilds.liftE (hbuilds.message _ (hbuilds.pure _))) hu₃ hend hrun with
      ⟨hanswer, hm'⟩ | ⟨_, u₄, -, hlasts₄, hu₄, hrun⟩
    · exact ⟨some l, hm', .failed hanswer⟩
    have hlasts := hlasts₁.trans (hlasts₂.trans (hlasts₃.trans hlasts₄))
    rcases h.settles hlasts hu₄ hend (Build.length_of_conditions hconditions) hrun with
      ⟨hanswer, hm'⟩ | ⟨elements, hanswer, hm', hrenews⟩
    · exact ⟨some l, hm', .failed hanswer⟩
    · exact ⟨_, hm', .changed hlisted hfits hframed hjudged heq hanswer hrenews⟩

/-- What is remembered does not fit the list, or there is nothing. -/
theorem Begins.listing_of_not_fits (h : v.Begins node (.repeated last) w)
    (hend : v.finish.Opens e i ⟨node, m'⟩)
    (hlist : (Build.listOf v.scope resolver).run.runIn v.enter v.world = (some (.ok (list, items)), u₁))
    (hlasts₁ : Lasts v.world u₁) (hu₁ : u₁.Opens e i ⟨node, .repeated last⟩)
    (hfits : ¬ Repetition.Fits last list items)
    (hframes : (Build.itemFrames node name v.scope last list items : Act σ (List Context)) =
      Build.newFrames node name v.scope items)
    (hrun : v.run = (Build.spread node v.factory name v.scope list items >>=
      Build.settle e i).run.runIn v.enter u₁) :
    ∃ last', m' = .repeated last' ∧ v.Listing node name resolver last last' := by
  obtain ⟨host, depth, henter⟩ := h.entered
  have hbuilds := henter ▸ host.keeps_slot e i depth
  have hlisted : v.listed resolver = some (list, items) := by
    rw [listed, hlist]
    rfl
  unfold Build.spread at hrun
  simp only [bind_assoc, pure_bind] at hrun
  rcases advance (hbuilds.liftE (hbuilds.message _ (hbuilds.pure _))) hu₁ hend hrun with
    ⟨hanswer, hm'⟩ | ⟨_, u₂, hmessage, hlasts₂, hu₂, hrun⟩
  · exact ⟨last, hm', .failed hanswer⟩
  rcases advance (hbuilds.liftE (hbuilds.frames name v.scope items)) hu₂ hend hrun with
    ⟨hanswer, hm'⟩ | ⟨frames, u₃, hmade, hlasts₃, hu₃, hrun⟩
  · exact ⟨last, hm', .failed hanswer⟩
  rcases advance (hbuilds.conditions node frames) hu₃ hend hrun with
    ⟨hanswer, hm'⟩ | ⟨conditions, u₄, hconditions, hlasts₄, hu₄, hrun⟩
  · exact ⟨last, hm', .failed hanswer⟩
  have hframing : v.framing name resolver = (some (.ok frames), u₃) := by
    refine h.framing_eq hlist ?_
    rw [hframes, Build.newFrames, Act.runIn_bind_some (Build.runIn_lift_eq_ok hmessage)]
    exact Build.runIn_lift_eq_ok hmade
  have hframed : v.framed name resolver = some frames := by
    rw [framed, hframing]
    rfl
  have hcaptured := captured_of_frames (Build.runIn_lift_eq_ok hmade)
  have hcaptures : v.Captures name resolver :=
    ⟨list, items, frames, hlisted, hframed, by rw [hframing]; exact hcaptured⟩
  have hlasts := hlasts₁.trans (hlasts₂.trans (hlasts₃.trans hlasts₄))
  rcases h.settles hlasts hu₄ hend (Build.length_of_conditions hconditions) hrun with
    ⟨hanswer, hm'⟩ | ⟨elements, hanswer, hm', hrenews⟩
  · exact ⟨last, hm', .failed hanswer⟩
  · exact ⟨_, hm', .anew hlisted hfits hframed (h.judged_eq hframing hconditions) hanswer
      hcaptured.length_eq hcaptures hrenews⟩

/-- What an evaluation of the slot of a list does. -/
theorem Begins.listing (h : v.Begins node (.repeated last) w) (hend : v.finish.Opens e i ⟨node, m'⟩)
    (hrepetition : node.repetition = some (name, resolver)) :
    ∃ last', m' = .repeated last' ∧ v.Listing node name resolver last last' := by
  obtain ⟨host, depth, henter⟩ := h.entered
  have hbuilds := henter ▸ host.keeps_slot e i depth
  have hrun : v.run = (Build.evaluateRepeated e i node name resolver last v.scope v.factory).run.runIn
      v.enter v.world := by
    rw [run, h.slot, Build.evaluate]
    simp only [hrepetition]
  unfold Build.evaluateRepeated at hrun
  rcases advance (hbuilds.listOf v.scope resolver) h.opens hend hrun with
    ⟨hanswer, hm'⟩ | ⟨⟨list, items⟩, u₁, hlist, hlasts, hu₁, hrun⟩
  · exact ⟨last, hm', .failed hanswer⟩
  by_cases hfits : Repetition.Fits last list items
  · cases last with
    | none => exact (hfits.ne_none rfl).elim
    | some l =>
      dsimp only at hrun
      rw [if_pos hfits.eq_true] at hrun
      exact h.listing_of_fits hend hlist hlasts hu₁ hfits hrun
  · cases last with
    | none => exact h.listing_of_not_fits hend hlist hlasts hu₁ hfits rfl hrun
    | some l =>
      have hnot : ¬ (l.list.same list && l.contexts.length == items.length) = true :=
        fun hcondition => hfits (Repetition.fits_of_eq_true hcondition)
      dsimp only at hrun
      rw [if_neg hnot] at hrun
      exact h.listing_of_not_fits hend hlist hlasts hu₁ hfits (by rw [Build.itemFrames, if_neg hnot]) hrun

end

end Evaluation

/-! ### Evaluations one after the other -/

/-- What is remembered of an evaluation is complete: there is an element for each frame that its
condition lets through, in that order. -/
structure Repetition.Stands (last : Repetition) (node : Node Resolver) (w : World σ) : Prop where
  /-- There is a condition for each frame. -/
  length : last.conditions.length = last.contexts.length
  /-- The elements are there, in their frames. -/
  elements : List.Forall₂ (fun c frame =>
      ∃ x, w.elements.get? c.row = some x ∧ x.tag = node.tag ∧ x.context = frame)
    last.elements (Build.shown last.contexts last.conditions)
  /-- They are different. -/
  nodup : last.elements.Nodup

theorem Repetition.Stands.later {last : Repetition} {node : Node Resolver} {w w' : World σ}
    (h : last.Stands node w) (hlasts : Lasts w w') : last.Stands node w' where
  length := h.length
  elements := h.elements.imp fun c frame hc => by
    obtain ⟨x, hx, htag, hcontext⟩ := hc
    obtain ⟨x', hx', htag', hcontext'⟩ := hlasts.element hx
    exact ⟨x', hx', htag'.trans htag, hcontext'.trans hcontext⟩
  nodup := h.nodup

theorem Repetition.Stands.lt_size {last : Repetition} {node : Node Resolver} {w : World σ}
    (h : last.Stands node w) : ∀ c ∈ last.elements, c.row < w.elements.size := by
  intro c hc
  obtain ⟨frame, -, x, hx, -⟩ := exists_of_forall₂ h.elements hc
  exact Table.lt_size_of_get? hx

namespace Evaluation

variable {v : Evaluation σ e i} {node : Node Resolver} {name : String} {resolver : Resolver}

theorem Renews.stands {frames : List Context} {conditions : List Bool} {elements : List ElementId}
    (h : v.Renews node frames conditions elements) (list : Value) :
    (⟨list, frames, conditions, elements⟩ : Repetition).Stands node v.finish :=
  ⟨h.length, h.made.imp fun _ _ hc => hc.element, h.nodup⟩

/-- What an evaluation that succeeds leaves in the slot. -/
structure Shows (v : Evaluation σ e i) (node : Node Resolver) (name : String) (resolver : Resolver)
    (items : List Value) (last : Repetition) : Prop where
  /-- The list and its items. -/
  listed : v.listed resolver = some (last.list, items)
  /-- There is a frame for each item. -/
  length : last.contexts.length = items.length
  /-- The frames. -/
  framed : v.framed name resolver = some last.contexts
  /-- The conditions. -/
  judged : v.judged name resolver = some last.conditions
  /-- The elements are there. -/
  stands : last.Stands node v.finish

theorem eq_of_listed {list list' : Value} {items : List Value} (hsame : list'.same list = true)
    (hlisted : v.listed resolver = some (list, items)) : list' = list := by
  rw [listed] at hlisted
  rcases hrun : (Build.listOf v.scope resolver).run.runIn v.enter v.world with
    ⟨_ | error | ⟨list, items⟩, u⟩
  all_goals
    rw [hrun] at hlisted
    cases hlisted
  obtain ⟨s, hwalk⟩ := Build.walk_of_listOf hrun
  exact Value.eq_of_same hsame hwalk

/-- An evaluation that succeeds leaves what it shows. -/
theorem Listing.shows {last last' : Option Repetition} (h : v.Listing node name resolver last last')
    (hstands : ∀ l ∈ last, l.Stands node v.finish) {es : List ElementId} (hanswer : v.answer = some es) :
    ∃ l items, last' = some l ∧ l.elements = es ∧ v.Shows node name resolver items l := by
  cases h with
  | failed hnone => simp [hnone] at hanswer
  | @kept l list items hlisted hfits hframed hjudged hanswer' =>
    obtain ⟨_, ⟨⟩, hsame, hlength⟩ := hfits
    obtain rfl := eq_of_listed hsame hlisted
    exact ⟨l, items, rfl, Option.some.inj (hanswer'.symm.trans hanswer), hlisted, hlength, hframed,
      hjudged, hstands l rfl⟩
  | @changed l list items conditions elements hlisted hfits hframed hjudged _ hanswer' hrenews =>
    obtain ⟨_, ⟨⟩, hsame, hlength⟩ := hfits
    obtain rfl := eq_of_listed hsame hlisted
    exact ⟨_, items, rfl, Option.some.inj (hanswer'.symm.trans hanswer), hlisted, hlength, hframed,
      hjudged, hrenews.stands _⟩
  | @anew _ list items frames conditions elements hlisted _ hframed hjudged hanswer' hlength _ hrenews =>
    exact ⟨_, items, rfl, Option.some.inj (hanswer'.symm.trans hanswer), hlisted, hlength, hframed,
      hjudged, hrenews.stands _⟩

/-- An evaluation that fails leaves what it has found. -/
theorem Listing.eq_of_failed {last last' : Option Repetition}
    (h : v.Listing node name resolver last last') (hanswer : v.answer = none) : last' = last := by
  cases h with
  | failed => rfl
  | kept _ _ _ _ hanswer' => simp [hanswer] at hanswer'
  | changed _ _ _ _ _ hanswer' => simp [hanswer] at hanswer'
  | anew _ _ _ _ hanswer' => simp [hanswer] at hanswer'

/-- The list is the same in both evaluations, and has the same length. -/
def SameList (v v' : Evaluation σ e i) (resolver : Resolver) : Prop :=
  ∃ list items list' items', v.listed resolver = some (list, items) ∧
    v'.listed resolver = some (list', items') ∧ list.same list' = true ∧ items.length = items'.length

/-- What is left by an evaluation fits the list of another one if that list is the same. -/
theorem Shows.fits_iff {v' : Evaluation σ e i} {items items' : List Value} {list' : Value}
    {l : Repetition} (h : v.Shows node name resolver items l)
    (hlisted : v'.listed resolver = some (list', items')) :
    Repetition.Fits (some l) list' items' ↔ v.SameList v' resolver := by
  constructor
  · rintro ⟨_, ⟨⟩, hsame, hlength⟩
    exact ⟨l.list, items, list', items', h.listed, hlisted, hsame, h.length.symm.trans hlength⟩
  · rintro ⟨list, items₁, list₁', items₁', hlisted₁, hlisted₁', hsame, hlength⟩
    obtain ⟨rfl, rfl⟩ := Prod.mk.inj (Option.some.inj (h.listed.symm.trans hlisted₁))
    obtain ⟨rfl, rfl⟩ := Prod.mk.inj (Option.some.inj (hlisted.symm.trans hlisted₁'))
    exact ⟨l, rfl, hsame, h.length.trans hlength⟩

end Evaluation

/-- Evaluations of the slot of a list from a world on in which it remembers what is complete. -/
def Recalls (node : Node Resolver) (last : Option Repetition) (w : World σ)
    (evaluations : List (Evaluation σ e i)) : Prop :=
  (∀ l ∈ last, l.Stands node w) ∧ ∃ m w', Succession node (.repeated last) w evaluations m w'

namespace Recalls

variable {node : Node Resolver} {name : String} {resolver : Resolver} {last : Option Repetition}
  {w : World σ} {v v' : Evaluation σ e i} {earlier between later evaluations : List (Evaluation σ e i)}
  {es es' : List ElementId}

/-- The evaluations after the first one find what it leaves in the slot. -/
theorem next (h : Recalls node last w (v :: later)) (hrepetition : node.repetition = some (name, resolver)) :
    ∃ last', v.Listing node name resolver last last' ∧ Lasts w v.world ∧ Lasts v.world v.finish ∧
      (∀ l ∈ last, l.Stands node v.finish) ∧ Recalls node last' v.finish later := by
  obtain ⟨hstands, m, w', hsuccession⟩ := h
  cases hsuccession with
  | next hbegins hopens hrest =>
    obtain ⟨last', rfl, hlisting⟩ := hbegins.listing hopens hrepetition
    have hlasts := hbegins.lasts
    have hlasts' := hbegins.lasts_finish
    have hstands' : ∀ l ∈ last, l.Stands node v.finish := fun l hl =>
      (hstands l hl).later (hlasts.trans hlasts')
    refine ⟨last', hlisting, hlasts, hlasts', hstands', fun l hl => ?_, m, w', hrest⟩
    cases hanswer : v.answer with
    | none => exact hstands' l (hlisting.eq_of_failed hanswer ▸ hl)
    | some es =>
      obtain ⟨l', items, rfl, -, hshows⟩ := hlisting.shows hstands' hanswer
      cases hl
      exact hshows.stands

theorem drop (h : Recalls node last w (earlier ++ later))
    (hrepetition : node.repetition = some (name, resolver)) :
    ∃ last' w', Recalls node last' w' later := by
  induction earlier generalizing last w with
  | nil => exact ⟨last, w, h⟩
  | cons v rest ih =>
    obtain ⟨_, -, -, -, -, hrest⟩ := h.next hrepetition
    exact ih hrest

/-- What is remembered does not change in evaluations that fail. -/
theorem skip (h : Recalls node last w (between ++ later))
    (hrepetition : node.repetition = some (name, resolver))
    (hfailed : ∀ u ∈ between, u.answer = none) : ∃ w', Lasts w w' ∧ Recalls node last w' later := by
  induction between generalizing w with
  | nil => exact ⟨w, .refl w, h⟩
  | cons u rest ih =>
    obtain ⟨hu, hrest⟩ := List.forall_mem_cons.mp hfailed
    obtain ⟨last', hlisting, hlasts, hlasts', -, hrecalls⟩ := h.next hrepetition
    rw [hlisting.eq_of_failed hu] at hrecalls
    obtain ⟨w', hlater, hskipped⟩ := ih hrecalls hrest
    exact ⟨w', hlasts.trans (hlasts'.trans hlater), hskipped⟩

/-- What an evaluation that succeeds leaves is what the next one that succeeds finds. -/
theorem pair (h : Recalls node last w (earlier ++ v :: (between ++ v' :: later)))
    (hrepetition : node.repetition = some (name, resolver)) (hanswer : v.answer = some es)
    (hfailed : ∀ u ∈ between, u.answer = none) :
    ∃ l items last', l.elements = es ∧ v.Shows node name resolver items l ∧
      v'.Listing node name resolver (some l) last' ∧ ∀ c ∈ es, c.row < v'.world.elements.size := by
  obtain ⟨_, _, hdrop⟩ := h.drop hrepetition
  obtain ⟨_, hlisting, -, -, hstands, hrest⟩ := hdrop.next hrepetition
  obtain ⟨l, items, rfl, rfl, hshows⟩ := hlisting.shows hstands hanswer
  obtain ⟨_, hlasts, hskipped⟩ := hrest.skip hrepetition hfailed
  obtain ⟨last', hlisting', hlasts', -⟩ := hskipped.next hrepetition
  exact ⟨l, items, last', rfl, hshows, hlisting', fun c hc =>
    Nat.lt_of_lt_of_le (hshows.stands.lt_size c hc) (hlasts.trans hlasts').size⟩

end Recalls

/-- What is contributed by evaluations of the slot of a list, first to last. -/
structure KeepsItems (node : Node Resolver) (name : String) (resolver : Resolver)
    (evaluations : List (Evaluation σ e i)) : Prop where
  /-- There is one element for each frame whose condition is true in that evaluation, in order. -/
  contributes : ∀ v ∈ evaluations, ∀ es, v.answer = some es → ∃ list items frames conditions,
    v.listed resolver = some (list, items) ∧ v.framed name resolver = some frames ∧
      v.judged name resolver = some conditions ∧ frames.length = items.length ∧
      conditions.length = frames.length ∧ es.Nodup ∧
      List.Forall₂ (fun c frame => ∃ x, v.finish.elements.get? c.row = some x ∧ x.tag = node.tag ∧
        x.context = frame) es (Build.shown frames conditions)
  /-- In the first evaluation that succeeds, frames and elements are new. -/
  first : ∀ {earlier later : List (Evaluation σ e i)} {v : Evaluation σ e i} {es : List ElementId},
    evaluations = earlier ++ v :: later → (∀ u ∈ earlier, u.answer = none) → v.answer = some es →
      v.Captures name resolver ∧ ∀ c ∈ es, v.world.elements.size ≤ c.row
  /-- From one evaluation that succeeds to the next one the frames are kept if the list is the same and
  has the same length; otherwise they are those of the items there. -/
  frames : ∀ {earlier between later : List (Evaluation σ e i)} {v v' : Evaluation σ e i}
      {es es' : List ElementId},
    evaluations = earlier ++ v :: (between ++ v' :: later) → v.answer = some es →
      (∀ u ∈ between, u.answer = none) → v'.answer = some es' →
        (v.SameList v' resolver → v'.framed name resolver = v.framed name resolver) ∧
        (¬ v.SameList v' resolver → v'.Captures name resolver)
  /-- The elements are the same if and only if besides all conditions are what they were, or there are
  none before and after; otherwise all of them are new. -/
  same : ∀ {earlier between later : List (Evaluation σ e i)} {v v' : Evaluation σ e i}
      {es es' : List ElementId},
    evaluations = earlier ++ v :: (between ++ v' :: later) → v.answer = some es →
      (∀ u ∈ between, u.answer = none) → v'.answer = some es' →
        (es' = es ↔ (v.SameList v' resolver ∧ v'.judged name resolver = v.judged name resolver) ∨
          (es = [] ∧ es' = [])) ∧
        (es' ≠ es → ∀ c ∈ es', v'.world.elements.size ≤ c.row)

/-- Lists of old and of new elements are the same only if they are empty. -/
theorem eq_iff_of_new {es es' : List ElementId} {n : Nat} (hold : ∀ c ∈ es, c.row < n)
    (hnew : ∀ c ∈ es', n ≤ c.row) : es' = es ↔ es = [] ∧ es' = [] := by
  constructor
  · rintro rfl
    have hnone : es' = [] := List.eq_nil_iff_forall_not_mem.mpr fun c hc =>
      Nat.not_le.mpr (hold c hc) (hnew c hc)
    exact ⟨hnone, hnone⟩
  · rintro ⟨rfl, rfl⟩
    rfl

theorem Recalls.keepsItems {node : Node Resolver} {name : String} {resolver : Resolver} {w : World σ}
    {evaluations : List (Evaluation σ e i)} (h : Recalls node none w evaluations)
    (hrepetition : node.repetition = some (name, resolver)) :
    KeepsItems node name resolver evaluations where
  contributes v hv es hanswer := by
    obtain ⟨earlier, later, rfl⟩ := List.append_of_mem hv
    obtain ⟨_, _, hdrop⟩ := h.drop hrepetition
    obtain ⟨_, hlisting, -, -, hstands, -⟩ := hdrop.next hrepetition
    obtain ⟨l, items, rfl, rfl, hshows⟩ := hlisting.shows hstands hanswer
    exact ⟨l.list, items, l.contexts, l.conditions, hshows.listed, hshows.framed, hshows.judged,
      hshows.length, hshows.stands.length, hshows.stands.nodup, hshows.stands.elements⟩
  first {earlier later v es} heq hfailed hanswer := by
    subst heq
    obtain ⟨_, -, hskipped⟩ := h.skip hrepetition hfailed
    obtain ⟨_, hlisting, -⟩ := hskipped.next hrepetition
    cases hlisting with
    | failed hnone => simp [hnone] at hanswer
    | anew _ _ _ _ hanswer' _ hcaptures hrenews =>
      obtain rfl := Option.some.inj (hanswer'.symm.trans hanswer)
      exact ⟨hcaptures, hrenews.rows⟩
  frames {earlier between later v v' es es'} heq hanswer hfailed hanswer' := by
    subst heq
    obtain ⟨l, items, last', -, hshows, hlisting, -⟩ := h.pair hrepetition hanswer hfailed
    cases hlisting with
    | failed hnone => simp [hnone] at hanswer'
    | kept hlisted hfits hframed =>
      have hsame := (hshows.fits_iff hlisted).mp hfits
      exact ⟨fun _ => hframed.trans hshows.framed.symm, fun hnot => (hnot hsame).elim⟩
    | changed hlisted hfits hframed =>
      have hsame := (hshows.fits_iff hlisted).mp hfits
      exact ⟨fun _ => hframed.trans hshows.framed.symm, fun hnot => (hnot hsame).elim⟩
    | anew hlisted hfits _ _ _ _ hcaptures =>
      exact ⟨fun hsame => (hfits ((hshows.fits_iff hlisted).mpr hsame)).elim, fun _ => hcaptures⟩
  same {earlier between later v v' es es'} heq hanswer hfailed hanswer' := by
    subst heq
    obtain ⟨l, items, last', rfl, hshows, hlisting, hold⟩ := h.pair hrepetition hanswer hfailed
    cases hlisting with
    | failed hnone => simp [hnone] at hanswer'
    | kept hlisted hfits _ hjudged hkept =>
      obtain rfl := Option.some.inj (hkept.symm.trans hanswer')
      have hsame := (hshows.fits_iff hlisted).mp hfits
      exact ⟨⟨fun _ => .inl ⟨hsame, hjudged.trans hshows.judged.symm⟩, fun _ => rfl⟩,
        fun hne => (hne rfl).elim⟩
    | changed _ _ _ hjudged hne hmade hrenews =>
      obtain rfl := Option.some.inj (hmade.symm.trans hanswer')
      have hnot : ¬ v'.judged name resolver = v.judged name resolver := by
        rw [hjudged, hshows.judged]
        exact fun heq => hne (Option.some.inj heq)
      rw [eq_iff_of_new hold hrenews.rows]
      exact ⟨⟨.inr, fun hor => hor.resolve_left fun hkept => hnot hkept.2⟩, fun _ => hrenews.rows⟩
    | anew hlisted hfits _ _ hmade _ _ hrenews =>
      obtain rfl := Option.some.inj (hmade.symm.trans hanswer')
      have hnot : ¬ v.SameList v' resolver := fun hsame => hfits ((hshows.fits_iff hlisted).mpr hsame)
      rw [eq_iff_of_new hold hrenews.rows]
      exact ⟨⟨.inr, fun hor => hor.resolve_left fun hkept => hnot hkept.1⟩, fun _ => hrenews.rows⟩

/-- **A list keeps the elements of its items while it is the same.** Take an element that has been made
of a node, and a child node with a list. Every run of a script is a passage for the slot of that child,
whatever the host program does, and so is every update of the element. In every passage, whatever lists
and conditions there are in its evaluations, and whichever of them fail: an evaluation that succeeds
contributes one element for each frame whose condition is true then, in order; these are the very
elements of the last evaluation that succeeded if and only if the list is the same as there, has as many
items, and every condition is what it was there, or there are no elements there and here; and in all
other cases they are new. The frames are those of the items at the last evaluation that succeeded at
which the list was another one than before, or had another length. -/
theorem Host.list_slot (host : Host σ) {depth : Nat} {node child : Node Resolver} {context : Context}
    {factory : Factory} {w₀ w : World σ} {e : ElementId} {i : Nat} {name : String} {resolver : Resolver}
    (hmade : (Build.create node context factory).run.runIn (host.enter depth) w₀ = (some (.ok e), w))
    (hchild : node.children[i]? = some child) (hrepetition : child.repetition = some (name, resolver)) :
    (∀ (depth : Nat) (script : Script σ α),
      ∃ evaluations, Passage host e i w (host.run depth script w).2 evaluations) ∧
    ∀ {w' : World σ} {evaluations : List (Evaluation σ e i)}, Passage host e i w w' evaluations →
      KeepsItems child name resolver evaluations ∧
      ∀ depth : Nat, ∃ later, Passage host e i w ((Act.update e).runIn (host.enter depth) w').2
        (evaluations ++ (Act.evaluations (host.enter depth) e i { w' with held := e :: w'.held } ++
          later)) := by
  obtain ⟨-, x, hx, hupdater, hslots⟩ := Build.create_made (host.lasts_admits depth) hmade
  have hfresh : Slot.fresh child = ⟨child, .repeated none⟩ := by
    rw [Slot.fresh, hrepetition]
    rfl
  have hstocks : w.Stocks e i ⟨child, .repeated none⟩ :=
    ⟨x, hx, .inr (by rw [hslots, List.getElem?_map, hchild, Option.map_some, hfresh])⟩
  refine ⟨fun depth script => host.passage depth script hx, fun {w' evaluations} hpassage =>
    ⟨?_, fun depth => ?_⟩⟩
  · obtain ⟨m, hsuccession⟩ := hpassage.succession hstocks
    have hrecalls : Recalls child none w evaluations := ⟨fun _ hl => (by cases hl), m, w', hsuccession⟩
    exact hrecalls.keepsItems hrepetition
  · obtain ⟨x', hx', -⟩ := hpassage.lasts.element hx
    obtain ⟨later, hlater⟩ := Passage.of_update host depth hx'
    exact ⟨later, hpassage.append hlater⟩

/-- A row for each entry of a list that shows itself. -/
def shownRow : Node Resolver :=
  ⟨⟨"li", none, [], none⟩, "ul/li", [], [], [],
    some ("row", .text [.chain ⟨[.lookup "rows"], "rows"⟩]),
    some (.text [.chain ⟨[.lookup "row", .property (.str "show")], "row.show"⟩]), []⟩

/-- A list of rows. -/
def shownRows : Node Resolver := ⟨⟨"ul", none, [], none⟩, "ul", [], [], [], none, none, [shownRow]⟩

/-- Three objects, an array with the first two of them, and a record with the array. -/
def rowsGiven : World Unit :=
  (uncalled.run 0 (do
    let a ← Script.newRecord [("show", .bool true)]
    let b ← Script.newRecord [("show", .bool true)]
    let _ ← Script.newRecord [("show", .bool false)]
    let list ← Script.newArray [a, b]
    Script.newRecord [("rows", list)]) (.empty .off ())).2

/-- The list is updated and looked at, four times: before the second time the second object in the array
is replaced, before the third one the object that was replaced is changed, and before the fourth one the
array loses an object. -/
def replacing : Script Unit (List (List ElementId)) := do
  let look : Script Unit (List ElementId) := do
    let _ ← Script.update ⟨0⟩
    return (← Script.element ⟨0⟩).children
  let first ← look
  Script.setItems ⟨0⟩ [.object (.record ⟨0⟩), .object (.record ⟨2⟩)]
  let second ← look
  Script.setFields ⟨1⟩ [("show", .bool false)]
  let third ← look
  Script.setItems ⟨0⟩ [.object (.record ⟨0⟩)]
  return [first, second, third, ← look]

/-- That an object is replaced is not seen, that the replaced one is changed is, and so is that the array
becomes shorter. -/
theorem Host.list_slot_rows :
    let made :=
      (Build.create shownRows [.object (.record ⟨3⟩)] .headless).run.runIn (uncalled.enter 0) rowsGiven
    let w := made.2
    let resolver : Resolver := .text [.chain ⟨[.lookup "rows"], "rows"⟩]
    made = (some (.ok ⟨0⟩), w) ∧ shownRows.children[0]? = some shownRow ∧
      shownRow.repetition = some ("row", resolver) ∧
      (uncalled.run 3 replacing w).1 = some [[⟨1⟩, ⟨2⟩], [⟨1⟩, ⟨2⟩], [⟨3⟩], [⟨4⟩]] ∧
      ∃ evaluations, Passage uncalled ⟨0⟩ 0 w (uncalled.run 3 replacing w).2 evaluations ∧
        KeepsItems shownRow "row" resolver evaluations := by
  intro made w resolver
  have hmade : made = (some (.ok ⟨0⟩), w) := rfl
  have hchild : shownRows.children[0]? = some shownRow := rfl
  have hrepetition : shownRow.repetition = some ("row", resolver) := rfl
  obtain ⟨hscripts, hpassages⟩ := Host.list_slot uncalled hmade hchild hrepetition
  obtain ⟨evaluations, hpassage⟩ := hscripts 3 replacing
  exact ⟨hmade, hchild, hrepetition, by decide +kernel, evaluations, hpassage, (hpassages hpassage).1⟩

end ReactiveViews
