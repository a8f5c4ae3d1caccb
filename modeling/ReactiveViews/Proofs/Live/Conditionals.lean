import ReactiveViews.Live.Requests
import ReactiveViews.Proofs.Live.SlotRuns

/-!
# Conditional children keep their identity while they are shown

A node without a list contributes one element if its condition is true, and none otherwise. The element
stays in the slot as long as the condition is not found false, whatever becomes of the updates in the
middle of which it is found true; once it has been found false, the next element is a new one.

## What is proved

What an evaluation does depends on what the slot remembers and on the condition alone
(`Evaluation.Begins.single`). From this it follows for successions of evaluations when an element is
contributed again (`Succession.kept`, `Succession.dropped`, `Succession.anew`), and so for every run
(`Host.conditional_child`).
-/

namespace ReactiveViews

variable {σ α : Type} {e : ElementId} {i : Nat}

namespace Evaluation

/-- What an evaluation of the slot of a single child does, given what is remembered before it and
after. -/
inductive Single (v : Evaluation σ e i) : Option ElementId → Option ElementId → Prop where
  /-- The condition has no truth value. -/
  | undecided {cached : Option ElementId} :
    v.condition = none → v.answer = none → Single v cached cached
  /-- The condition is false: nothing is contributed, and what was remembered is forgotten. -/
  | hidden {cached : Option ElementId} :
    v.condition = some false → v.answer = some [] → Single v cached none
  /-- The condition is true, and there is an element already. -/
  | kept {c : ElementId} :
    v.condition = some true → v.answer = some [c] → Single v (some c) (some c)
  /-- The condition is true, but no element can be made. -/
  | failed : v.condition = some true → v.answer = none → Single v none none
  /-- The condition is true, and a new element is made. -/
  | made {c : ElementId} : v.condition = some true → v.answer = some [c] →
    v.world.elements.size ≤ c.row → c.row < v.finish.elements.size → Single v none (some c)

variable {v : Evaluation σ e i}

/-- What an evaluation of the slot of a single child does. -/
theorem Begins.single {node : Node Resolver} {cached : Option ElementId} {m' : Memory} {w : World σ}
    (h : v.Begins node (.single cached) w) (hend : v.finish.Opens e i ⟨node, m'⟩) :
    ∃ cached', m' = .single cached' ∧ v.Single cached cached' := by
  obtain ⟨host, depth, henter⟩ := h.entered
  have hbuilds := henter ▸ host.keeps_slot e i depth
  have hcondition : v.condition =
      ((Build.eval (Eval.shows v.scope node)).run.runIn v.enter v.world).1.bind Except.toOption := by
    rw [condition, h.slot]
  have hrun : v.run =
      (Build.evaluateSingle e i node cached v.scope v.factory).run.runIn v.enter v.world := by
    rw [run, h.slot]
    rfl
  unfold Build.evaluateSingle at hrun
  have hshows : Keeps (Sheltering e (·[i]?)) v.enter (Build.eval (Eval.shows v.scope node)).run :=
    hbuilds.eval (hbuilds.shows v.scope node)
  cases hdecided : v.condition with
  | none =>
    rcases advance hshows h.opens hend hrun with ⟨hanswer, hm'⟩ | ⟨shown, w₁, hshown, -⟩
    · exact ⟨cached, hm', .undecided hdecided hanswer⟩
    · rw [hshown, hdecided] at hcondition
      cases hcondition
  | some shown =>
    obtain ⟨w₁, hshown⟩ : ∃ w₁, (Build.eval (Eval.shows v.scope node)).run.runIn v.enter v.world =
        (some (.ok shown), w₁) := by
      rw [hdecided] at hcondition
      revert hcondition
      rcases (Build.eval (Eval.shows v.scope node)).run.runIn v.enter v.world with
        ⟨_ | error | shown', w₁⟩ <;> intro hcondition <;> cases hcondition
      exact ⟨w₁, rfl⟩
    obtain ⟨hlasts₁, hw₁⟩ := h.opens.keeps (hshows.of_run hshown)
    rw [Build.runIn_bindE_ok hshown] at hrun
    cases shown with
    | false =>
      obtain ⟨w₂, hremember, -, hw₂⟩ := hw₁.remember (.single none) v.enter
      rw [if_neg Bool.false_ne_true, Build.runIn_bindE_ok hremember] at hrun
      obtain ⟨hanswer, -, hm'⟩ := ends hend hrun hw₂
      exact ⟨none, hm', .hidden hdecided hanswer⟩
    | true =>
      rw [if_pos rfl] at hrun
      cases cached with
      | some c =>
        obtain ⟨hanswer, -, hm'⟩ := ends hend hrun hw₁
        exact ⟨some c, hm', .kept hdecided hanswer⟩
      | none =>
        rcases advance (hbuilds.create node v.scope v.factory) hw₁ hend hrun with
          ⟨hanswer, hm'⟩ | ⟨c, w₂, hmade, hlasts₂, hw₂, hrun⟩
        · exact ⟨none, hm', .failed hdecided hanswer⟩
        obtain ⟨hnew, x, hx, -⟩ := Build.create_made (henter ▸ host.lasts_admits depth) hmade
        obtain ⟨w₃, hremember, hlasts₃, hw₃⟩ := hw₂.remember (.single (some c)) v.enter
        rw [Build.runIn_bindE_ok hremember] at hrun
        obtain ⟨hlasts₄, hw₄⟩ := hw₃.keeps (hbuilds.release [c] w₃)
        obtain ⟨hanswer, hfinish, hm'⟩ := ends hend hrun hw₄
        obtain ⟨x', hx', -⟩ := (hlasts₃.trans hlasts₄).element hx
        exact ⟨some c, hm', .made hdecided hanswer (Nat.le_trans hlasts₁.size hnew.fresh)
          (hfinish ▸ Table.lt_size_of_get? hx')⟩

end Evaluation

/-- Evaluations of the slot of a single child from a world on in which it remembers nothing, or an
element that is there. -/
def Follows (node : Node Resolver) (cached : Option ElementId) (w : World σ)
    (evaluations : List (Evaluation σ e i)) : Prop :=
  (∀ c ∈ cached, c.row < w.elements.size) ∧ ∃ m w', Succession node (.single cached) w evaluations m w'

namespace Follows

variable {node : Node Resolver} {cached : Option ElementId} {w : World σ} {v : Evaluation σ e i}
  {earlier between later evaluations : List (Evaluation σ e i)} {c : ElementId}

/-- The evaluations after the first one follow what it leaves in the slot. -/
theorem next (h : Follows node cached w (v :: later)) :
    ∃ cached', v.Single cached cached' ∧ w.elements.size ≤ v.world.elements.size ∧
      v.world.elements.size ≤ v.finish.elements.size ∧ Follows node cached' v.finish later := by
  obtain ⟨hcached, m, w', hsuccession⟩ := h
  cases hsuccession with
  | next hbegins hopens hrest =>
    obtain ⟨cached', rfl, hsingle⟩ := hbegins.single hopens
    have hsize := hbegins.lasts.size
    have hsize' := hbegins.lasts_finish.size
    refine ⟨cached', hsingle, hsize, hsize', fun c hc => ?_, m, w', hrest⟩
    cases hsingle with
    | undecided => exact Nat.lt_of_lt_of_le (hcached c hc) (Nat.le_trans hsize hsize')
    | hidden => cases hc
    | kept => exact Nat.lt_of_lt_of_le (hcached c hc) (Nat.le_trans hsize hsize')
    | failed => cases hc
    | made _ _ _ hlt =>
      cases hc
      exact hlt

theorem drop (h : Follows node cached w (earlier ++ later)) :
    ∃ cached' w', w.elements.size ≤ w'.elements.size ∧ Follows node cached' w' later := by
  induction earlier generalizing cached w with
  | nil => exact ⟨cached, w, Nat.le_refl _, h⟩
  | cons v rest ih =>
    obtain ⟨_, -, hsize, hsize', hrest⟩ := h.next
    obtain ⟨cached', w', hle, hdrop⟩ := ih hrest
    exact ⟨cached', w', Nat.le_trans hsize (Nat.le_trans hsize' hle), hdrop⟩

/-- What is contributed is one element, if the condition is true, and nothing if it is false. -/
theorem contributes (h : Follows node cached w evaluations) (hv : v ∈ evaluations) {es : List ElementId}
    (hanswer : v.answer = some es) :
    (v.condition = some true ∧ ∃ c, es = [c]) ∨ (v.condition = some false ∧ es = []) := by
  obtain ⟨earlier, later, rfl⟩ := List.append_of_mem hv
  obtain ⟨cached', w', -, hdrop⟩ := h.drop
  obtain ⟨cached'', hsingle, -⟩ := hdrop.next
  cases hsingle with
  | undecided _ hnone => simp [hnone] at hanswer
  | hidden hfalse hnothing => exact .inr ⟨hfalse, by simpa [hnothing] using hanswer.symm⟩
  | kept htrue hsome => exact .inl ⟨htrue, _, by simpa [hsome] using hanswer.symm⟩
  | failed _ hnone => simp [hnone] at hanswer
  | made htrue hsome => exact .inl ⟨htrue, _, by simpa [hsome] using hanswer.symm⟩

/-- An element that is contributed is remembered. -/
theorem remembered (h : Follows node cached w (v :: later)) (hanswer : v.answer = some [c]) :
    c.row < v.finish.elements.size ∧ Follows node (some c) v.finish later := by
  obtain ⟨cached', hsingle, -, -, hrest⟩ := h.next
  have hcached : cached' = some c := by
    cases hsingle with
    | undecided _ hnone => simp [hnone] at hanswer
    | hidden _ hnothing => simp [hnothing] at hanswer
    | kept _ hsome => simpa [hsome] using hanswer
    | failed _ hnone => simp [hnone] at hanswer
    | made _ hsome => simpa [hsome] using hanswer
  subst hcached
  exact ⟨hrest.1 c rfl, hrest⟩

/-- An element that is remembered is contributed whenever the condition is true, until it has been
false. -/
theorem kept (h : Follows node (some c) w (between ++ v :: later))
    (hbetween : ∀ u ∈ between, u.condition ≠ some false) :
    v.answer = some [c] ↔ v.condition = some true := by
  induction between generalizing w with
  | nil =>
    obtain ⟨cached', hsingle, -⟩ := h.next
    cases hsingle with
    | undecided hcondition hanswer => simp [hcondition, hanswer]
    | hidden hcondition hanswer => simp [hcondition, hanswer]
    | kept hcondition hanswer => simp [hcondition, hanswer]
  | cons u rest ih =>
    obtain ⟨hu, hrest⟩ := List.forall_mem_cons.mp hbetween
    obtain ⟨cached', hsingle, -, -, hfollows⟩ := h.next
    cases hsingle with
    | undecided => exact ih hfollows hrest
    | hidden hcondition => exact absurd hcondition hu
    | kept => exact ih hfollows hrest

/-- An element that is not remembered any more never comes back. -/
theorem dropped (h : Follows node cached w evaluations) (hrow : c.row < w.elements.size)
    (hcached : cached ≠ some c) : ∀ v ∈ evaluations, v.answer ≠ some [c] := by
  induction evaluations generalizing cached w with
  | nil => exact List.forall_mem_nil _
  | cons v rest ih =>
    obtain ⟨cached', hsingle, hsize, hsize', hfollows⟩ := h.next
    have hrow' := Nat.lt_of_lt_of_le hrow hsize
    suffices hv : cached' ≠ some c ∧ v.answer ≠ some [c] from
      List.forall_mem_cons.mpr ⟨hv.2, ih hfollows (Nat.lt_of_lt_of_le hrow' hsize') hv.1⟩
    cases hsingle with
    | undecided _ hanswer => exact ⟨hcached, by simp [hanswer]⟩
    | hidden _ hanswer => exact ⟨fun heq => (by cases heq), by simp [hanswer]⟩
    | kept _ hanswer => exact ⟨hcached, by simpa [hanswer] using hcached⟩
    | failed _ hanswer => exact ⟨fun heq => (by cases heq), by simp [hanswer]⟩
    | @made d _ hanswer hnew =>
      have hne : d ≠ c := by
        rintro rfl
        exact Nat.not_lt.mpr hnew hrow'
      exact ⟨by simpa using hne, by simpa [hanswer] using hne⟩

/-- An element that was there does not come back once the condition has been false. -/
theorem forgotten (h : Follows node cached w (between ++ v :: later)) (hrow : c.row < w.elements.size)
    {u : Evaluation σ e i} (hu : u ∈ between) (hfalse : u.condition = some false) :
    v.answer ≠ some [c] := by
  obtain ⟨before, after, rfl⟩ := List.append_of_mem hu
  rw [List.append_assoc, List.cons_append] at h
  obtain ⟨cached', w', hle, hdrop⟩ := h.drop
  obtain ⟨cached'', hsingle, hsize, hsize', hrest⟩ := hdrop.next
  cases hsingle with
  | hidden =>
    have hrow' : c.row < u.finish.elements.size :=
      Nat.lt_of_lt_of_le hrow (Nat.le_trans hle (Nat.le_trans hsize hsize'))
    exact hrest.dropped hrow' (fun heq => by cases heq) v (by simp)
  | undecided hcondition => simp [hcondition] at hfalse
  | kept hcondition => simp [hcondition] at hfalse
  | failed hcondition => simp [hcondition] at hfalse
  | made hcondition => simp [hcondition] at hfalse

/-- What comes after nothing is remembered is new. -/
theorem anew (h : Follows node none w (between ++ v :: later))
    (hbetween : ∀ u ∈ between, ∀ c, u.answer ≠ some [c]) (hanswer : v.answer = some [c]) :
    v.world.elements.size ≤ c.row := by
  induction between generalizing w with
  | nil =>
    obtain ⟨cached', hsingle, -⟩ := h.next
    cases hsingle with
    | undecided _ hnone => simp [hnone] at hanswer
    | hidden _ hnothing => simp [hnothing] at hanswer
    | failed _ hnone => simp [hnone] at hanswer
    | made _ hsome hnew =>
      obtain rfl : _ = c := by simpa [hsome] using hanswer
      exact hnew
  | cons u rest ih =>
    obtain ⟨hu, hrest⟩ := List.forall_mem_cons.mp hbetween
    obtain ⟨cached', hsingle, -, -, hfollows⟩ := h.next
    cases hsingle with
    | undecided => exact ih hfollows hrest
    | hidden => exact ih hfollows hrest
    | failed => exact ih hfollows hrest
    | made _ hsome => exact absurd hsome (hu _)

end Follows

/-- What is contributed by evaluations of the slot of a single child, first to last. -/
structure KeepsIdentity (evaluations : List (Evaluation σ e i)) : Prop where
  /-- One element is contributed if the condition is true, and none if it is false. -/
  contributes : ∀ v ∈ evaluations, ∀ es, v.answer = some es →
    (v.condition = some true ∧ ∃ c, es = [c]) ∨ (v.condition = some false ∧ es = [])
  /-- An element is contributed again if and only if the condition is true again and has been false
  nowhere in between. -/
  same : ∀ {earlier between later : List (Evaluation σ e i)} {v v' : Evaluation σ e i} {c : ElementId},
    evaluations = earlier ++ v :: (between ++ v' :: later) → v.answer = some [c] →
      (v'.answer = some [c] ↔ v'.condition = some true ∧ ∀ u ∈ between, u.condition ≠ some false)
  /-- The first element that is contributed after the condition has been false is new. -/
  new : ∀ {earlier between later : List (Evaluation σ e i)} {v v' : Evaluation σ e i} {c : ElementId},
    evaluations = earlier ++ v :: (between ++ v' :: later) → v.condition = some false →
      (∀ u ∈ between, ∀ d, u.answer ≠ some [d]) → v'.answer = some [c] →
        v'.world.elements.size ≤ c.row

theorem Follows.keepsIdentity {node : Node Resolver} {w : World σ}
    {evaluations : List (Evaluation σ e i)} (h : Follows node none w evaluations) :
    KeepsIdentity evaluations where
  contributes v hv es := h.contributes hv
  same {earlier between later v v' c} heq hanswer := by
    subst heq
    obtain ⟨cached, w', -, hdrop⟩ := h.drop
    obtain ⟨hrow, hremembered⟩ := hdrop.remembered hanswer
    refine ⟨fun hanswer' => ⟨?_, fun u hu hfalse => hremembered.forgotten hrow hu hfalse hanswer'⟩,
      fun ⟨htrue, hbetween⟩ => (hremembered.kept hbetween).mpr htrue⟩
    rcases h.contributes (by simp) hanswer' with ⟨htrue, -⟩ | ⟨-, hnothing⟩
    · exact htrue
    · cases hnothing
  new {earlier between later v v' c} heq hfalse hbetween hanswer := by
    subst heq
    obtain ⟨cached, w', -, hdrop⟩ := h.drop
    obtain ⟨cached', hfound, -, -, hrest⟩ := hdrop.next
    cases hfound with
    | hidden => exact hrest.anew hbetween hanswer
    | undecided hcondition => simp [hcondition] at hfalse
    | kept hcondition => simp [hcondition] at hfalse
    | failed hcondition => simp [hcondition] at hfalse
    | made hcondition => simp [hcondition] at hfalse

/-- **A conditional child keeps its identity while it is shown.** Take an element that has been made of
a node, and a child node without a list. Every run of a script is a passage for the slot of that child,
whatever the host program does; an update of the element goes on with the passage, by what it does to the
element itself and then to its children. In every passage, however many updates there are, whatever else
happens in between, and whether they fail before the slot, in it or after it: an evaluation of the slot
that succeeds contributes one element if the condition is true, and none if it is false; an element that
is contributed once is contributed by a later evaluation if and only if the condition is true there and
has been false nowhere in between; and the first element that is contributed after the condition has been
false was not there before. -/
theorem Host.conditional_child (host : Host σ) {depth : Nat} {node child : Node Resolver}
    {context : Context} {factory : Factory} {w₀ w : World σ} {e : ElementId} {i : Nat}
    (hmade : (Build.create node context factory).run.runIn (host.enter depth) w₀ = (some (.ok e), w))
    (hchild : node.children[i]? = some child) (hsingle : child.repetition = none) :
    (∀ (depth : Nat) (script : Script σ α),
      ∃ evaluations, Passage host e i w (host.run depth script w).2 evaluations) ∧
    ∀ {w' : World σ} {evaluations : List (Evaluation σ e i)}, Passage host e i w w' evaluations →
      KeepsIdentity evaluations ∧
      ∀ depth : Nat, ∃ later, Passage host e i w ((Act.update e).runIn (host.enter depth) w').2
        (evaluations ++ (Act.evaluations (host.enter depth) e i { w' with held := e :: w'.held } ++
          later)) := by
  obtain ⟨-, x, hx, hupdater, hslots⟩ := Build.create_made (host.lasts_admits depth) hmade
  have hfresh : Slot.fresh child = ⟨child, .single none⟩ := by
    rw [Slot.fresh, hsingle]
    rfl
  have hstocks : w.Stocks e i ⟨child, .single none⟩ :=
    ⟨x, hx, .inr (by rw [hslots, List.getElem?_map, hchild, Option.map_some, hfresh])⟩
  refine ⟨fun depth script => host.passage depth script hx, fun {w' evaluations} hpassage =>
    ⟨?_, fun depth => ?_⟩⟩
  · obtain ⟨m, hsuccession⟩ := hpassage.succession hstocks
    have hfollows : Follows child none w evaluations :=
      ⟨fun _ hc => (by cases hc), m, w', hsuccession⟩
    exact hfollows.keepsIdentity
  · obtain ⟨x', hx', -⟩ := hpassage.lasts.element hx
    obtain ⟨later, hlater⟩ := Passage.of_update host depth hx'
    exact ⟨later, hpassage.append hlater⟩

/-- An entry that is there if a flag says so. -/
def flaggedEntry : Node Resolver :=
  ⟨⟨"li", none, [], none⟩, "ul/li", [], [], [], none, some (.text [.chain ⟨[.lookup "flag"], "flag"⟩]), []⟩

/-- A list with that entry. -/
def flagged : Node Resolver :=
  ⟨⟨"ul", none, [], none⟩, "ul", [], [], [], none, none, [flaggedEntry]⟩

/-- A host program that is never called. -/
def uncalled : Host Unit := ⟨fun _ => .hang⟩

/-- A world with the flag. -/
def flagUp : World Unit := (uncalled.run 0 (Script.newRecord [("flag", .bool true)]) (.empty .off ())).2

/-- The list is updated and looked at, four times: the flag is down at the third. -/
def flagging : Script Unit (List (List ElementId)) := do
  let look : Script Unit (List ElementId) := do
    let _ ← Script.update ⟨0⟩
    return (← Script.element ⟨0⟩).children
  let first ← look
  let second ← look
  Script.setFields ⟨0⟩ [("flag", .bool false)]
  let third ← look
  Script.setFields ⟨0⟩ [("flag", .bool true)]
  return [first, second, third, ← look]

/-- The entry is the same until the flag is down, and another one when it is up again. -/
theorem Host.conditional_child_flag :
    let made := (Build.create flagged [.object (.record ⟨0⟩)] .headless).run.runIn (uncalled.enter 0) flagUp
    let w := made.2
    made = (some (.ok ⟨0⟩), w) ∧ flagged.children[0]? = some flaggedEntry ∧
      flaggedEntry.repetition = none ∧
      (uncalled.run 3 flagging w).1 = some [[⟨1⟩], [⟨1⟩], [], [⟨2⟩]] ∧
      ∃ evaluations, Passage uncalled ⟨0⟩ 0 w (uncalled.run 3 flagging w).2 evaluations ∧
        KeepsIdentity evaluations := by
  intro made w
  have hmade : made = (some (.ok ⟨0⟩), w) := rfl
  have hchild : flagged.children[0]? = some flaggedEntry := rfl
  obtain ⟨hscripts, hpassages⟩ := Host.conditional_child uncalled hmade hchild rfl
  obtain ⟨evaluations, hpassage⟩ := hscripts 3 flagging
  exact ⟨hmade, hchild, rfl, by decide +kernel, evaluations, hpassage, (hpassages hpassage).1⟩

end ReactiveViews
