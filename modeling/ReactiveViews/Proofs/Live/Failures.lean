import ReactiveViews.Proofs.Live.ListSlots

/-!
# A failing evaluation leaves its slot as it was

An evaluation can fail in many places: at the condition of a single child, at the list, because the list
cannot be walked through, at the condition of any item, or where an element is made, after others have
been made already. Its slot is written last. So whatever fails, and whatever the host program does
meanwhile, the slot remembers the same list, the same frames, the same conditions and the same elements
as before.

## What is proved

An evaluation goes by what the slot remembers (`Evaluation.Begins.goes`), and leaves that if it fails
(`Evaluation.Goes.eq_of_failed`). So an evaluation goes by what the last one has left that succeeded,
however many have failed in between (`Succession.skip`); this holds of every run
(`Host.failed_evaluation`).
-/

namespace ReactiveViews

variable {σ α : Type} {e : ElementId} {i : Nat}

/-! ### What a failing evaluation leaves -/

/-- The memory is one for the slot of a node. -/
def Memory.Belongs (node : Node Resolver) : Memory → Prop
  | .single _ => node.repetition = none
  | .repeated _ => node.repetition.isSome = true

theorem Slot.belongs_fresh (node : Node Resolver) : (Slot.fresh node).memory.Belongs node := by
  unfold Slot.fresh
  cases hrepetition : node.repetition with
  | none => exact hrepetition
  | some repetition => simp [Memory.Belongs, hrepetition]

namespace Evaluation

variable {v : Evaluation σ e i} {node : Node Resolver} {m m' : Memory} {w : World σ}

/-- What an evaluation of the slot of a node does, given what is remembered before it and after. -/
inductive Goes (v : Evaluation σ e i) (node : Node Resolver) : Memory → Memory → Prop where
  /-- The node is a single child. -/
  | single {cached cached' : Option ElementId} : node.repetition = none → v.Single cached cached' →
    Goes v node (.single cached) (.single cached')
  /-- The node has a list. -/
  | list {name : String} {resolver : Resolver} {last last' : Option Repetition} :
    node.repetition = some (name, resolver) → v.Listing node name resolver last last' →
    Goes v node (.repeated last) (.repeated last')

theorem Single.eq_of_failed {cached cached' : Option ElementId} (h : v.Single cached cached')
    (hanswer : v.answer = none) : cached' = cached := by
  cases h with
  | undecided => rfl
  | hidden _ hanswer' => simp [hanswer] at hanswer'
  | kept => rfl
  | failed => rfl
  | made _ hanswer' => simp [hanswer] at hanswer'

/-- An evaluation that fails leaves what it has found. -/
theorem Goes.eq_of_failed (h : v.Goes node m m') (hanswer : v.answer = none) : m' = m := by
  cases h with
  | single _ hsingle => rw [hsingle.eq_of_failed hanswer]
  | list _ hlisting => rw [hlisting.eq_of_failed hanswer]

theorem Goes.belongs (h : v.Goes node m m') : m'.Belongs node := by
  cases h with
  | single hrepetition => exact hrepetition
  | list hrepetition =>
    rw [Memory.Belongs, hrepetition]
    rfl

/-- An evaluation goes by what the slot remembers. -/
theorem Begins.goes (h : v.Begins node m w) (hm : m.Belongs node) (hend : v.finish.Opens e i ⟨node, m'⟩) :
    v.Goes node m m' := by
  cases m with
  | single cached =>
    obtain ⟨cached', rfl, hsingle⟩ := h.single hend
    exact .single hm hsingle
  | repeated last =>
    obtain ⟨⟨name, resolver⟩, hrepetition⟩ := Option.isSome_iff_exists.mp hm
    obtain ⟨last', rfl, hlisting⟩ := h.listing hend hrepetition
    exact .list hrepetition hlisting

end Evaluation

/-- An evaluation that fails leaves the slot as it was, whatever the slot remembers. -/
theorem World.Opens.of_failed {w w' : World σ} {slot : Slot} (h : w.Opens e i slot) (host : Host σ)
    (depth : Nat) (scope : Context) (factory : Factory) {error : ViewError}
    (hrun : (Build.evaluate e i slot scope factory).run.runIn (host.enter depth) w =
      (some (.error error), w')) : w'.Opens e i slot := by
  obtain ⟨node, m⟩ := slot
  let v : Evaluation σ e i := ⟨host.enter depth, w, ⟨node, m⟩, scope, factory⟩
  have hfinish : v.finish = w' := congrArg Prod.snd hrun
  have hanswer : v.answer = none := congrArg (·.1.bind Except.toOption) hrun
  have hbegins : v.Begins node m w := ⟨⟨host, depth, rfl⟩, rfl, .refl w, h⟩
  have hend : ∃ m', v.finish.Opens e i ⟨node, m'⟩ :=
    (h.evaluate host depth ⟨node, m⟩ scope factory rfl).2
  obtain ⟨m', hend⟩ := hend
  rw [← hfinish]
  cases m with
  | single cached =>
    obtain ⟨cached', rfl, hsingle⟩ := hbegins.single hend
    exact hsingle.eq_of_failed hanswer ▸ hend
  | repeated last =>
    cases hrepetition : node.repetition with
    | none =>
      -- there is nothing to evaluate that could fail
      rw [Build.evaluate, hrepetition] at hrun
      cases hrun
    | some repetition =>
      obtain ⟨last', rfl, hlisting⟩ := hbegins.listing hend hrepetition
      exact hlisting.eq_of_failed hanswer ▸ hend

/-! ### Evaluations after failing ones -/

namespace Succession

variable {node : Node Resolver} {m m' : Memory} {w w' : World σ} {v : Evaluation σ e i}
  {earlier between later evaluations : List (Evaluation σ e i)}

/-- An evaluation, and what comes after it. -/
theorem next_goes (h : Succession node m w (v :: later) m' w') (hm : m.Belongs node) :
    ∃ m₁, v.Begins node m w ∧ v.finish.Opens e i ⟨node, m₁⟩ ∧ v.Goes node m m₁ ∧
      Succession node m₁ v.finish later m' w' := by
  cases h with
  | next hbegins hopens hrest => exact ⟨_, hbegins, hopens, hbegins.goes hm hopens, hrest⟩

theorem drop (h : Succession node m w (earlier ++ later) m' w') (hm : m.Belongs node) :
    ∃ m₁ w₁, m₁.Belongs node ∧ Succession node m₁ w₁ later m' w' := by
  induction earlier generalizing m w with
  | nil => exact ⟨m, w, hm, h⟩
  | cons v rest ih =>
    obtain ⟨m₁, -, -, hgoes, hrest⟩ := h.next_goes hm
    exact ih hrest hgoes.belongs

/-- Evaluations that fail change nothing for those after them. -/
theorem skip (h : Succession node m w (between ++ later) m' w') (hm : m.Belongs node)
    (hfailed : ∀ u ∈ between, u.answer = none) : ∃ w₁, Succession node m w₁ later m' w' := by
  induction between generalizing w with
  | nil => exact ⟨w, h⟩
  | cons u rest ih =>
    obtain ⟨hu, hrest⟩ := List.forall_mem_cons.mp hfailed
    obtain ⟨m₁, -, -, hgoes, hsuccession⟩ := h.next_goes hm
    obtain rfl := hgoes.eq_of_failed hu
    exact ih hsuccession hrest

end Succession

/-- What becomes of the slot of a node in evaluations of it, first to last, some of which fail. -/
structure OutlastsFailures (node : Node Resolver) (evaluations : List (Evaluation σ e i)) : Prop where
  /-- Each evaluation goes by what the slot remembers. -/
  goes : ∀ v ∈ evaluations, ∃ m m', v.slot = ⟨node, m⟩ ∧ v.world.Opens e i ⟨node, m⟩ ∧
    v.finish.Opens e i ⟨node, m'⟩ ∧ v.Goes node m m'
  /-- An evaluation that fails leaves the slot as it was. -/
  left : ∀ v ∈ evaluations, v.answer = none → v.finish.Opens e i v.slot
  /-- As long as all of them fail, an evaluation finds nothing in the slot. -/
  first : ∀ {earlier later : List (Evaluation σ e i)} {v : Evaluation σ e i},
    evaluations = earlier ++ v :: later → (∀ u ∈ earlier, u.answer = none) → v.slot = .fresh node
  /-- An evaluation finds in the slot what the last one has left before it that has not failed. -/
  next : ∀ {earlier between later : List (Evaluation σ e i)} {v v' : Evaluation σ e i},
    evaluations = earlier ++ v :: (between ++ v' :: later) → (∀ u ∈ between, u.answer = none) →
      v.finish.Opens e i v'.slot

theorem Succession.outlastsFailures {node : Node Resolver} {m : Memory} {w w' : World σ}
    {evaluations : List (Evaluation σ e i)}
    (h : Succession node (Slot.fresh node).memory w evaluations m w') :
    OutlastsFailures node evaluations := by
  have hgoes : ∀ v ∈ evaluations, ∃ m m', v.slot = ⟨node, m⟩ ∧ v.world.Opens e i ⟨node, m⟩ ∧
      v.finish.Opens e i ⟨node, m'⟩ ∧ v.Goes node m m' := by
    intro v hv
    obtain ⟨earlier, later, rfl⟩ := List.append_of_mem hv
    obtain ⟨m₀, w₀, hm₀, hdrop⟩ := h.drop (Slot.belongs_fresh node)
    obtain ⟨m₁, hbegins, hopens, hgoes, -⟩ := hdrop.next_goes hm₀
    exact ⟨m₀, m₁, hbegins.slot, hbegins.opens, hopens, hgoes⟩
  refine ⟨hgoes, fun v hv hanswer => ?_, fun {earlier later v} heq hfailed => ?_,
    fun {earlier between later v v'} heq hfailed => ?_⟩
  · obtain ⟨m, m', hslot, -, hopens, hv⟩ := hgoes v hv
    rw [hslot, ← hv.eq_of_failed hanswer]
    exact hopens
  · subst heq
    obtain ⟨w₁, hskipped⟩ := h.skip (Slot.belongs_fresh node) hfailed
    obtain ⟨-, hbegins, -⟩ := hskipped.next_goes (Slot.belongs_fresh node)
    exact hbegins.slot
  · subst heq
    obtain ⟨m₀, w₀, hm₀, hdrop⟩ := h.drop (Slot.belongs_fresh node)
    obtain ⟨m₁, -, hopens, hv, hrest⟩ := hdrop.next_goes hm₀
    obtain ⟨w₁, hskipped⟩ := hrest.skip hv.belongs hfailed
    obtain ⟨-, hbegins, -⟩ := hskipped.next_goes hv.belongs
    rw [hbegins.slot]
    exact hopens

/-- **A failing evaluation leaves its slot as it was.** Whatever a slot remembers, if its evaluation in
the middle of an update fails, it remembers the same afterwards: the list, the frames of the items, their
conditions and the elements, wherever the failure came from and whatever the host program has done in the
calls that were entered meanwhile.

So it is in every run. Take an element that has been made of a node, and a child node. Every run of a
script is a passage for the slot of that child, whatever the host program does, and so is every update of
the element. In every passage each evaluation goes by what it finds in the slot, and this is what the
last evaluation has left that has not failed, however many have failed since, or nothing if all have
failed: it contributes the same elements, or makes new ones under the same conditions, as if these had not
been. -/
theorem Host.failed_evaluation (host : Host σ) {depth : Nat} {node child : Node Resolver}
    {context : Context} {factory : Factory} {w₀ w : World σ} {e : ElementId} {i : Nat}
    (hmade : (Build.create node context factory).run.runIn (host.enter depth) w₀ = (some (.ok e), w))
    (hchild : node.children[i]? = some child) :
    (∀ (depth : Nat) (e : ElementId) (i : Nat) (slot : Slot) (scope : Context) (factory : Factory)
        (error : ViewError) (v v' : World σ), v.Opens e i slot →
      (Build.evaluate e i slot scope factory).run.runIn (host.enter depth) v = (some (.error error), v') →
        v'.Opens e i slot) ∧
    (∀ (depth : Nat) (script : Script σ α),
      ∃ evaluations, Passage host e i w (host.run depth script w).2 evaluations) ∧
    ∀ {w' : World σ} {evaluations : List (Evaluation σ e i)}, Passage host e i w w' evaluations →
      OutlastsFailures child evaluations ∧
      ∀ depth : Nat, ∃ later, Passage host e i w ((Act.update e).runIn (host.enter depth) w').2
        (evaluations ++ (Act.evaluations (host.enter depth) e i { w' with held := e :: w'.held } ++
          later)) := by
  obtain ⟨-, x, hx, hupdater, hslots⟩ := Build.create_made (host.lasts_admits depth) hmade
  have hstocks : w.Stocks e i ⟨child, (Slot.fresh child).memory⟩ :=
    ⟨x, hx, .inr (by rw [hslots, List.getElem?_map, hchild]; rfl)⟩
  refine ⟨fun depth e i slot scope factory error v v' hopens hrun =>
      hopens.of_failed host depth scope factory hrun,
    fun depth script => host.passage depth script hx, fun {w' evaluations} hpassage =>
    ⟨?_, fun depth => ?_⟩⟩
  · obtain ⟨m, hsuccession⟩ := hpassage.succession hstocks
    exact hsuccession.outlastsFailures
  · obtain ⟨x', hx', -⟩ := hpassage.lasts.element hx
    obtain ⟨later, hlater⟩ := Passage.of_update host depth hx'
    exact ⟨later, hpassage.append hlater⟩

/-- A row for each entry of a list, with what a function makes of the entry once. -/
def checkedRow : Node Resolver :=
  ⟨⟨"li", none, [], none⟩, "ul/li",
    [("text", .text [.chain ⟨[.lookup "check", .call [[.lookup "row"]]], "check(row)"⟩])], [], [],
    some ("row", .text [.chain ⟨[.lookup "rows"], "rows"⟩]), none, []⟩

/-- A list of rows. -/
def checkedRows : Node Resolver := ⟨⟨"ul", none, [], none⟩, "ul", [], [], [], none, none, [checkedRow]⟩

/-- A host program whose functions fail for one text. -/
def picky : Host Unit where
  answer
    | .apply _ _ [.str "bad"] => .done (.error (.host "bad"))
    | .apply _ _ args => .done (.ok (args.headD .undefined))
    | _ => .hang

/-- Two arrays, of which the second has the text, and a record with the first one and a function. -/
def rowsToCheck : World Unit :=
  (picky.run 0 (do
    let good ← Script.newArray [.str "a", .str "b"]
    let _ ← Script.newArray [.str "c", .str "bad"]
    Script.newRecord [("rows", good), ("check", .function ⟨"check", 0⟩)]) (.empty .off ())).2

/-- The list is updated and looked at, three times; the second time it is that of the second array. -/
def stumbling : Script Unit (List (Bool × List ElementId)) := do
  let look (rows : ArrayId) : Script Unit (Bool × List ElementId) := do
    Script.setFields ⟨0⟩ [("rows", .array rows), ("check", .function ⟨"check", 0⟩)]
    let answer ← Script.update ⟨0⟩
    return (answer.isOk, (← Script.element ⟨0⟩).children)
  let first ← look ⟨0⟩
  let second ← look ⟨1⟩
  return [first, second, ← look ⟨0⟩]

/-- The second update fails when one of two new elements has been made; the third one shows the elements
of the first again. -/
theorem Host.failed_evaluation_stumbling :
    let made :=
      (Build.create checkedRows [.object (.record ⟨0⟩)] .headless).run.runIn (picky.enter 0) rowsToCheck
    let w := made.2
    made = (some (.ok ⟨0⟩), w) ∧ checkedRows.children[0]? = some checkedRow ∧
      (picky.run 4 stumbling w).1 = some [(true, [⟨1⟩, ⟨2⟩]), (false, []), (true, [⟨1⟩, ⟨2⟩])] ∧
      ∃ evaluations, Passage picky ⟨0⟩ 0 w (picky.run 4 stumbling w).2 evaluations ∧
        OutlastsFailures checkedRow evaluations := by
  intro made w
  have hmade : made = (some (.ok ⟨0⟩), w) := rfl
  have hchild : checkedRows.children[0]? = some checkedRow := rfl
  obtain ⟨-, hscripts, hpassages⟩ := Host.failed_evaluation picky hmade hchild
  obtain ⟨evaluations, hpassage⟩ := hscripts 4 stumbling
  exact ⟨hmade, hchild, by decide +kernel, evaluations, hpassage, (hpassages hpassage).1⟩

end ReactiveViews
