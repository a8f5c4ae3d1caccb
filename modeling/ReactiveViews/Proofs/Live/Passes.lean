import ReactiveViews.Proofs.Live.Discretion
import ReactiveViews.Proofs.Live.Laps
import ReactiveViews.Proofs.Live.UpToDate

/-!
# Update passes

An update runs the updater of an element, and then updates the children that the element has by then, so
that it passes through a whole tree while it makes the tree. Each step down leads to a child of the node
that the step before was about: views are finite, and the height of the node is how far down a pass may
go, whatever is made on its way.

The functions of the host program may change the data while a pass goes on, and need not even answer if
there is an array that holds itself; but they leave elements alone (`Discreet`).

## The model

The calls that are entered at some level may enter others at the level below. Of *levels* it is said what
happens to the updates that are entered (`Levels.update`), and that functions are discreet at each of them
(`Levels.discreet`). A host program is such levels from the depth on from which its functions find an
answer (`Host.levels`).

## What is proved

**Passes** (`Levels.pass_covers`). Through all that becomes of the tree of a view, an update of any of its
elements ends at as many levels as the node of the element is high, unless an array holds itself. If it
succeeds, it has run the updaters of the elements that are now in the tree of that element, each of them
once and in the order of the document, and no other updater; and all of these elements show what is in
their slots and have their bound attributes.
-/

namespace ReactiveViews

variable {σ α : Type}

/-! ### Heights -/

/-- The height of the roots of a view. -/
def View.height (view : View Resolver) : Nat := Node.heightAll view.roots

/-! ### The order of the document -/

/-- Elements with all that is below them, as they stand in the document: an element comes before its
children, and the children in their order. -/
inductive World.Document (w : World σ) : List ElementId → List ElementId → Prop where
  /-- No elements. -/
  | nil : Document w [] []
  /-- An element, what is below it, and what comes after it. -/
  | cons {e : ElementId} {x : Element} {rest below after : List ElementId} :
    w.elements.get? e.row = some x → Document w x.children below → Document w rest after →
    Document w (e :: rest) (e :: (below ++ after))

namespace World.Document

variable {w w' : World σ} {es ds rest after : List ElementId}

/-- The document has one order. -/
theorem unique {ds' : List ElementId} (h : w.Document es ds) (h' : w.Document es ds') : ds = ds' := by
  induction h generalizing ds' with
  | nil => cases h'; rfl
  | cons hx _ _ ihbelow ihafter =>
    cases h' with
    | cons hx' hbelow' hafter' =>
      obtain rfl := Option.some.inj (hx.symm.trans hx')
      rw [ihbelow hbelow', ihafter hafter']

theorem single {e : ElementId} {x : Element} (hx : w.elements.get? e.row = some x)
    (h : w.Document x.children ds) : w.Document [e] (e :: ds) := by
  have hall := cons hx h nil
  rwa [List.append_nil] at hall

theorem append {e : ElementId} (h : w.Document [e] ds) (hrest : w.Document rest after) :
    w.Document (e :: rest) (ds ++ after) := by
  cases h with
  | cons hx hbelow hnil =>
    cases hnil
    rw [List.append_nil]
    exact cons hx hbelow hrest

theorem retained {S : ElementId → Prop} (h : w.Document es ds) (hw : Retains S w w')
    (hS : ∀ d ∈ ds, ¬ S d) : w'.Document es ds := by
  induction h with
  | nil => exact nil
  | cons hx _ _ ihbelow ihafter =>
    obtain ⟨hself, hothers⟩ := List.forall_mem_cons.mp hS
    exact cons (hw.get? hx hself) (ihbelow fun d hd => hothers d (List.mem_append_left _ hd))
      (ihafter fun d hd => hothers d (List.mem_append_right _ hd))

end World.Document

/-- Elements that have been made right inside of the same scopes, each with a tree. -/
structure Siblings (w : World σ) (l es : List ElementId) : Prop where
  /-- No two are the same. -/
  nodup : es.Nodup
  /-- The scopes around them. -/
  lineage : ∀ e ∈ es, w.lineage e = e :: l
  /-- The trees. -/
  standing : ∀ e ∈ es, ∃ node, Standing w node e

namespace Siblings

variable {w : World σ} {l es ds rest : List ElementId} {e : ElementId}

theorem cons_iff : Siblings w l (e :: rest) ↔ e ∉ rest ∧ w.lineage e = e :: l ∧
    (∃ node, Standing w node e) ∧ Siblings w l rest := by
  constructor
  · rintro ⟨hnodup, hlineage, hstanding⟩
    obtain ⟨hnot, hnodup⟩ := List.nodup_cons.mp hnodup
    obtain ⟨hself, hlineage⟩ := List.forall_mem_cons.mp hlineage
    obtain ⟨hroot, hstanding⟩ := List.forall_mem_cons.mp hstanding
    exact ⟨hnot, hself, hroot, hnodup, hlineage, hstanding⟩
  · rintro ⟨hnot, hself, hroot, hnodup, hlineage, hstanding⟩
    exact ⟨List.nodup_cons.mpr ⟨hnot, hnodup⟩, List.forall_mem_cons.mpr ⟨hself, hlineage⟩,
      List.forall_mem_cons.mpr ⟨hroot, hstanding⟩⟩

/-- The children of an element of a tree are siblings. -/
theorem children {node : Node Resolver} {x : Element} (h : Standing w node e)
    (hx : w.elements.get? e.row = some x) : Siblings w (w.lineage e) x.children := by
  obtain ⟨x', hnursed, -, hchildren⟩ := h.inspect
  obtain rfl : x = x' := Option.some.inj (hx.symm.trans hnursed.get)
  refine ⟨hchildren.sublist.nodup hnursed.nodup, fun c hc => ?_, fun c hc => ?_⟩
  · obtain ⟨-, -, hlineage⟩ := hnursed.inside (hchildren.subset hc)
    exact hlineage
  · obtain ⟨slot, hslot, hcslot⟩ := List.mem_flatMap.mp (hchildren.subset hc)
    exact ⟨slot.node, (hnursed.limbs slot hslot).standing c hcslot⟩

/-- What comes after siblings in the document is in their trees. -/
theorem below (h : Siblings w l es) (hdocument : w.Document es ds) : ∀ d ∈ ds, w.BelowAny es d := by
  induction hdocument generalizing l with
  | nil => exact fun d hd => absurd hd List.not_mem_nil
  | @cons e x rest below after hx _ _ ihbelow ihafter =>
    obtain ⟨-, -, ⟨node, hstanding⟩, hrest⟩ := cons_iff.mp h
    intro d hd
    rcases List.mem_cons.mp hd with rfl | hd
    · exact ⟨d, List.mem_cons_self, .refl w d⟩
    · rcases List.mem_append.mp hd with hd | hd
      · have hchildren := children hstanding hx
        obtain ⟨c, hc, hcd⟩ := ihbelow hchildren d hd
        exact ⟨e, List.mem_cons_self, (World.Below.of_lineage (hchildren.lineage c hc)).trans hcd⟩
      · obtain ⟨c, hc, hcd⟩ := ihafter hrest d hd
        exact ⟨c, List.mem_cons_of_mem _ hc, hcd⟩

/-- No element stands in the document twice. -/
theorem document_nodup (h : Siblings w l es) (hdocument : w.Document es ds) : ds.Nodup := by
  induction hdocument generalizing l with
  | nil => exact .nil
  | @cons e x rest below after hx hbelow hafter ihbelow ihafter =>
    obtain ⟨hnot, hlineage, ⟨node, hstanding⟩, hrest⟩ := cons_iff.mp h
    have hchildren := children hstanding hx
    -- what is below the element is inside of it, and what comes after it is not
    have hinside : ∀ d ∈ below, w.Below e d ∧ d ≠ e := fun d hd => by
      obtain ⟨c, hc, hcd⟩ := hchildren.below hbelow d hd
      have hec := hchildren.lineage c hc
      exact ⟨(World.Below.of_lineage hec).trans hcd, by rintro rfl; exact World.not_below_of_lineage hec hcd⟩
    have hbeside : ∀ d ∈ after, ¬ w.Below e d := fun d hd hbelow => by
      obtain ⟨c, hc, hcd⟩ := hrest.below hafter d hd
      obtain rfl := hbelow.eq_of_lineage hcd hlineage (hrest.lineage c hc)
      exact hnot hc
    refine List.nodup_cons.mpr ⟨fun hmem => ?_, List.nodup_append.mpr
      ⟨ihbelow hchildren, ihafter hrest, fun a ha b hb hab => hbeside b hb (hab ▸ (hinside a ha).1)⟩⟩
    rcases List.mem_append.mp hmem with hmem | hmem
    · exact (hinside e hmem).2 rfl
    · exact hbeside e hmem (.refl w e)

end Siblings

namespace Standing

variable {w : World σ} {node : Node Resolver} {e : ElementId} {ds : List ElementId}

theorem siblings (h : Standing w node e) : ∃ l, Siblings w l [e] :=
  ⟨_, List.nodup_singleton e, List.forall_mem_singleton.mpr rfl, List.forall_mem_singleton.mpr ⟨node, h⟩⟩

theorem below_of_document (h : Standing w node e) (hdocument : w.Document [e] ds) {d : ElementId}
    (hd : d ∈ ds) : w.Below e d := by
  obtain ⟨l, hsiblings⟩ := h.siblings
  obtain ⟨c, hc, hbelow⟩ := hsiblings.below hdocument d hd
  exact List.mem_singleton.mp hc ▸ hbelow

theorem document_nodup (h : Standing w node e) (hdocument : w.Document [e] ds) : ds.Nodup := by
  obtain ⟨l, hsiblings⟩ := h.siblings
  exact hsiblings.document_nodup hdocument

end Standing

/-! ### A pass -/

/-- What the journal tells of a pass through these elements. -/
def passage (es : List ElementId) : List Event :=
  es.flatMap fun e => [.updating e none, .updated e none true]

theorem passage_cons (e : ElementId) (es : List ElementId) :
    passage (e :: es) = [.updating e none, .updated e none true] ++ passage es := rfl

theorem passage_append (es ds : List ElementId) : passage (es ++ ds) = passage es ++ passage ds :=
  List.flatMap_append

/-- A pass has run the updaters of these elements with all that is below them now, and no other ones. -/
structure Covers (w : World σ) (es ds : List ElementId) (w' : World σ) : Prop where
  /-- The updaters that have been run. -/
  runs : w'.runs = w.runs ++ passage ds
  /-- They are those of the elements with all that is below them. -/
  document : w'.Document es ds
  /-- The elements show what they should. -/
  populated : ∀ d ∈ ds, ∃ node x, w'.elements.get? d.row = some x ∧
    x.updater = some (.view node .headless) ∧ x.Populated node

namespace Covers

variable {w w' w'' : World σ} {e : ElementId} {rest ds after : List ElementId}

theorem of_held {es : List ElementId} (h : Covers w es ds w') (held : List ElementId) :
    Covers w es ds { w' with held } where
  runs := h.runs
  document := h.document.retained (S := fun _ => False) (.of_elements_eq rfl) fun _ _ => id
  populated := h.populated

theorem since {v : World σ} {es : List ElementId} (h : Covers v es ds w') (hruns : v.runs = w.runs) :
    Covers w es ds w' := { h with runs := hruns ▸ h.runs }

/-- A pass through an element, and then through those that come after it. -/
theorem append {S : ElementId → Prop} (h : Covers w [e] ds w') (hrest : Covers w' rest after w'')
    (hw : Retains S w' w'') (hS : ∀ d ∈ ds, ¬ S d) : Covers w (e :: rest) (ds ++ after) w'' where
  runs := by rw [hrest.runs, h.runs, passage_append, List.append_assoc]
  document := (h.document.retained hw hS).append hrest.document
  populated := List.forall_mem_append.mpr ⟨fun d hd => by
    obtain ⟨node, x, hx, hmore⟩ := h.populated d hd
    exact ⟨node, x, hw.get? hx (hS d hd), hmore⟩, hrest.populated⟩

end Covers

section

variable {enter : Enter σ} {w : World σ} {node : Node Resolver} {e : ElementId} {x : Element}

/-- What there is after an update of a tree, whatever it has answered. -/
def Passed (node : Node Resolver) (e : ElementId) (w w' : World σ) : Prop :=
  Retains (w.Below e) w w' ∧ Standing w' node e

theorem Passed.of_held {w' : World σ} (h : Passed node e w w') (held : List ElementId) :
    Passed node e w { w' with held } :=
  ⟨h.1.trans (.of_elements_eq rfl), h.2.untouched (.of_held w' held)⟩

/-- Updates of the trees of a node pass through them, and end unless there is an array that holds
itself. -/
def Passes (enter : Enter σ) (node : Node Resolver) : Prop :=
  ∀ w e, Standing w node e → Conduct.discreet.Ends enter w (ExceptT.mk (Act.enterUpdate e))
    (fun _ w' => Passed node e w w' ∧ ∃ ds, Covers w [e] ds w') (Passed node e w)

/-- What there is after the trees of some children have been updated. -/
def PassedAll (node : Node Resolver) (e : ElementId) (es : List ElementId) (w w' : World σ) : Prop :=
  Retains (w.BelowAny es) w w' ∧ Standing w' node e

/-- The trees of some children are passed through one after the other. -/
theorem Standing.pass_all (hchild : ∀ child ∈ node.children, Passes enter child) (h : Standing w node e)
    (hx : w.elements.get? e.row = some x) {es : List ElementId} (hes : es ⊆ x.slots.flatMap Slot.elements)
    (hnodup : es.Nodup) :
    Conduct.discreet.Ends enter w (ExceptT.mk (Act.updateAll es))
      (fun _ w' => PassedAll node e es w w' ∧ ∃ ds, Covers w es ds w') (PassedAll node e es w) := by
  induction es generalizing w with
  | nil =>
    refine .pure ⟨⟨.of_elements_eq rfl, h⟩, [], ?_, .nil, fun _ hd => absurd hd List.not_mem_nil⟩
    rw [passage, List.flatMap_nil, List.append_nil]
  | cons c rest ih =>
    obtain ⟨x', hnursed, -⟩ := h.inspect
    obtain rfl : x = x' := Option.some.inj (hx.symm.trans hnursed.get)
    obtain ⟨hmem, hrest⟩ := List.cons_subset.mp hes
    obtain ⟨hnot, hnodup⟩ := List.nodup_cons.mp hnodup
    have hc := hnursed.inside hmem
    obtain ⟨slot, hslot, hcslot⟩ := List.mem_flatMap.mp hmem
    have hfirst := hchild _ (hnursed.trunk.child hslot) w c ((hnursed.limbs slot hslot).standing c hcslot)
    -- after the child, the tree is standing with one child updated
    have hnext : ∀ w₁, Passed slot.node c w w₁ → ∀ held : List ElementId,
        PassedAll node e (c :: rest) w { w₁ with held } ∧ Standing { w₁ with held } node e := by
      rintro w₁ ⟨hw₁, hstanding⟩ held
      have h₁ : Standing { w₁ with held } node e :=
        (h.replace hx hslot hcslot hw₁ hstanding).untouched (.of_held w₁ held)
      exact ⟨⟨(hw₁.mono fun z _ hz => ⟨c, List.mem_cons_self, hz⟩).trans (.of_elements_eq rfl), h₁⟩, h₁⟩
    unfold Act.updateAll
    refine hfirst.sequel ?_ ?_
    · rintro ⟨⟩ w₁ ⟨hpassed, ds, hcovers⟩
      have hrelease : (Act.release [c]).runIn enter w₁ = (some (), { w₁ with held := w₁.held.erase c }) := rfl
      refine .opening hrelease ?_
      obtain ⟨-, h₁⟩ := hnext w₁ hpassed (w₁.held.erase c)
      have hx₁ : w₁.elements.get? e.row = some x := hpassed.1.get? hx hc.not_below
      have hthere : ∀ c' ∈ rest, ∃ y, w.elements.get? c'.row = some y := fun c' hc' => by
        obtain ⟨y, hy, -⟩ := hnursed.inside (hrest hc')
        exact ⟨y, hy⟩
      have hjoin : ∀ w₂, PassedAll node e rest { w₁ with held := w₁.held.erase c } w₂ →
          Retains (w₁.BelowAny rest) w₁ w₂ ∧ PassedAll node e (c :: rest) w w₂ := fun w₂ h₂ => by
        have hheld : Retains (w₁.BelowAny rest) w₁ { w₁ with held := w₁.held.erase c } := .of_elements_eq rfl
        have hw₂ : Retains (w₁.BelowAny rest) w₁ w₂ := hheld.trans h₂.1
        exact ⟨hw₂, hpassed.1.belowAny_cons hw₂ hthere, h₂.2⟩
      refine (ih h₁ hx₁ hrest hnodup).imp ?_ fun w₂ hpassed₂ => (hjoin w₂ hpassed₂).2
      rintro ⟨⟩ w₂ ⟨hpassed₂, after, hcovers₂⟩
      obtain ⟨hw₂, hall⟩ := hjoin w₂ hpassed₂
      refine ⟨hall, ds ++ after, hcovers.append (hcovers₂.since rfl) hw₂ ?_⟩
      -- what is in the tree of the child is not in the trees of those that come after it
      rintro d hd ⟨c', hc', hbelow⟩
      have hinside : ∀ a ∈ c :: rest, w₁.Inside e a := fun a ha =>
        (hnursed.inside (hes ha)).retained ⟨x, hx⟩ hpassed.1
      obtain rfl := (hinside c List.mem_cons_self).eq_of_below (hinside c' (List.mem_cons_of_mem _ hc'))
        (hpassed.2.below_of_document hcovers.document hd) hbelow
      exact hnot hc'
    · intro error w₁ hpassed
      exact (hnext w₁ hpassed _).1

/-- An update passes through a tree. -/
theorem Standing.pass (hdiscreet : Discreet enter) (hchild : ∀ child ∈ node.children, Passes enter child)
    (h : Standing w node e) :
    Conduct.discreet.Ends enter w (ExceptT.mk (Act.update e))
      (fun _ w' => Passed node e w w' ∧ ∃ ds, Covers w [e] ds w') (Passed node e w) := by
  obtain ⟨x, hnursed, hupdater, hchildren⟩ := h.inspect
  obtain ⟨w₁, hw₁, hruns₁, hx₁, heq⟩ := Act.runIn_update enter hnursed.get hupdater
  obtain ⟨htag, hidle, hslots, hcomponent⟩ := hnursed.trunk
  have h₁ := (hnursed.untouched (.of_held w (e :: w.held))).alter hw₁.touches hx₁
    ⟨htag, hidle, hslots, hcomponent⟩ rfl
  have hself : ∀ {w' : World σ}, Retains (· = e) w₁ w' → Retains (w.Below e) w w' := fun hw => by
    have hbegun : Retains (· = e) w w₁ := ((Touches.of_held w _).trans hw₁.touches).retains
    exact (hbegun.trans hw).mono fun z _ hz => hz ▸ .refl w e
  refine Conduct.Ends.of_runIn_eq ((h₁.refresh_ends hdiscreet.rules rfl hchildren).sequel ?_ ?_) heq
  · rintro ⟨⟩ w₂ ⟨y, hw₂, hy, hnone, hpopulated⟩
    obtain ⟨w₃, hw₃, hruns₃, hx₃, hstanding₃, hconclude⟩ :=
      hy.runIn_conclude enter hnone (hpopulated.children ▸ List.prefix_rfl)
    have hinside : ∀ c ∈ y.children, w₃.Inside e c := fun c hc =>
      (hy.inside (hpopulated.children ▸ hc)).touched ⟨y, hy.get⟩ hw₃.touches
    have hpassed : ∀ w₄, PassedAll node e y.children { w₃ with held := y.children ++ w₃.held } w₄ →
        Retains (w₃.BelowAny y.children) w₃ w₄ ∧ Passed node e w w₄ := fun w₄ h₄ => by
      have hheld : Retains (w₃.BelowAny y.children) w₃ { w₃ with held := y.children ++ w₃.held } :=
        .of_elements_eq rfl
      have hw₄ := hheld.trans h₄.1
      exact ⟨hw₄, (hself (hw₂.1.trans hw₃.touches.retains)).belowAny ⟨x, hnursed.get⟩ hinside hw₄, h₄.2⟩
    have hall := (hstanding₃.untouched (.of_held w₃ (y.children ++ w₃.held))).pass_all hchild hx₃
      (hpopulated.children ▸ List.Subset.refl _) (hpopulated.children ▸ hy.nodup)
    refine Conduct.Ends.of_runIn_eq (hall.sequel ?_ ?_) hconclude
    · rintro ⟨⟩ w₄ ⟨h₄, ds, hcovers⟩
      obtain ⟨hw₄, hpassed₄⟩ := hpassed w₄ h₄
      have hx₄ := hw₄.get? hx₃ fun ⟨c, hc, hbelow⟩ => (hinside c hc).not_below hbelow
      refine .opening (show (Act.release [e]).runIn enter w₄ = (some (), _) from rfl)
        (.pure ⟨hpassed₄.of_held _, e :: ds, Covers.of_held ⟨?_, hcovers.document.single hx₄, ?_⟩ _⟩)
      · have hruns₂ : w₂.runs = w₁.runs := hw₂.2
        have hruns₄ : w₄.runs = w₃.runs ++ passage ds := hcovers.runs
        rw [hruns₄, hruns₃, hruns₂, hruns₁, passage_cons]
        simp
      · exact List.forall_mem_cons.mpr ⟨⟨node, _, hx₄, rfl, hpopulated.children, hpopulated.filled,
          hpopulated.bound⟩, hcovers.populated⟩
    · intro error w₄ h₄
      exact .opening (show (Act.release [e]).runIn enter w₄ = (some (), _) from rfl)
        ((hpassed w₄ h₄).2.of_held _)
  · rintro error w₂ ⟨y, hw₂, hy, hnone, hprefix⟩
    obtain ⟨w₃, hput, hw₃, -, hx₃, hstanding₃⟩ := hy.putBack enter hnone hprefix (.error error)
    rw [Act.conclude_eq]
    refine .opening hput (.opening (show (Act.release [e]).runIn enter w₃ = (some (), _) from rfl) ?_)
    exact Passed.of_held ⟨hself (hw₂.1.trans hw₃.touches.retains), hstanding₃⟩ _

end

/-! ### Levels -/

/-- Ways to enter calls, one for each level: an update that is entered enters others one level below, and
functions are discreet at all levels. -/
structure Levels (E : Nat → Enter σ) : Prop where
  /-- Updates. -/
  update : ∀ (n : Nat) (e : ElementId), E (n + 1) (.update e) = (Act.update e).runIn (E n)
  /-- Functions. -/
  discreet : ∀ n, Discreet (E n)

/-- Host programs whose functions find an answer at some depth. -/
theorem Host.levels {host : Host σ} {k : Nat} (h : ∀ depth, k ≤ depth → Discreet (host.enter depth)) :
    Levels fun n => host.enter (k + n) where
  update _ _ := rfl
  discreet _ := h _ (Nat.le_add_right _ _)

namespace Levels

variable {E : Nat → Enter σ} {w w' : World σ} {node : Node Resolver} {e : ElementId} {n : Nat}

/-- There are enough levels for the children of a node. -/
theorem passes (hE : Levels E) (hn : node.height ≤ n) : ∀ child ∈ node.children, Passes (E n) child := by
  induction n generalizing node with
  | zero =>
    intro child hchild
    have hlt := Node.height_child hchild
    omega
  | succ n ih =>
    intro child hchild w e h
    have hlt := Node.height_child hchild
    exact (h.pass (hE.discreet n) (ih (by omega))).of_runIn_eq (congrFun (hE.update n e) w)

theorem pass (hE : Levels E) (hn : node.height ≤ n) (h : Standing w node e) :
    Conduct.discreet.Ends (E n) w (ExceptT.mk (Act.update e))
      (fun _ w' => Passed node e w w' ∧ ∃ ds, Covers w [e] ds w') (Passed node e w) :=
  h.pass (hE.discreet n) (hE.passes hn)

theorem passed (hE : Levels E) (hn : node.height ≤ n) (h : Standing w node e)
    {answer : Except ViewError Unit} (hrun : (Act.update e).runIn (E n) w = (some answer, w')) :
    Passed node e w w' := by
  have hpass := hE.pass hn h
  cases answer with
  | ok => exact (hpass.ok hrun).1
  | error error => exact hpass.error hrun

end Levels

/-! ### The life of a tree -/

/-- A tree and the worlds it gets to: a view is built, and then, in any order, whatever there is besides the
elements of the tree changes, and some element of the tree is updated, with success or not. There are as
many levels as the view is high. -/
inductive Thrives (E : Nat → Enter σ) (view : View Resolver) : ElementId → World σ → Prop where
  /-- The view is built in some scopes. -/
  | build {n : Nat} {C : Context} {e : ElementId} {w w' : World σ} : view.height ≤ n →
    (Build.build view C .headless).run.runIn (E (n + 1)) w = (some (.ok e), w') → Thrives E view e w'
  /-- The data change. -/
  | change {e : ElementId} {w w' : World σ} : Thrives E view e w →
    (∀ y x, w.Encloses e y → w.elements.get? y.row = some x → w'.elements.get? y.row = some x) →
    Thrives E view e w'
  /-- An element of the tree is updated. -/
  | update {n : Nat} {e c : ElementId} {w w' : World σ} {answer : Except ViewError Unit} : view.height ≤ n →
    Thrives E view e w → w.Encloses e c → (Act.update c).runIn (E n) w = (some answer, w') →
    Thrives E view e w'

/-- The elements of a tree have trees, and their nodes are no higher than that of the tree. -/
theorem Standing.encloses_height {w : World σ} {node : Node Resolver} {e z : ElementId}
    (h : Standing w node e) (hz : w.Encloses e z) :
    ∃ child, Standing w child z ∧ child.height ≤ node.height := by
  induction hz generalizing node with
  | refl e => exact ⟨node, h, Nat.le_refl _⟩
  | inner hx hslot hc _ ih =>
    obtain ⟨y, hnursed, -⟩ := h.inspect
    obtain rfl := Option.some.inj (hx.symm.trans hnursed.get)
    obtain ⟨child, hstanding, hle⟩ := ih ((hnursed.limbs _ hslot).standing _ hc)
    exact ⟨child, hstanding, hle.trans (Node.height_child (hnursed.trunk.child hslot)).le⟩

theorem Standing.node_unique {w : World σ} {node node' : Node Resolver} {e : ElementId}
    (h : Standing w node e) (h' : Standing w node' e) : node = node' := by
  obtain ⟨x, hnursed, hupdater, -⟩ := h.inspect
  obtain ⟨x', hnursed', hupdater', -⟩ := h'.inspect
  obtain rfl := Option.some.inj (hnursed.get.symm.trans hnursed'.get)
  exact (Updater.view.inj (Option.some.inj (hupdater.symm.trans hupdater'))).1

namespace Thrives

variable {E : Nat → Enter σ} {view : View Resolver} {w : World σ} {e c : ElementId}

/-- A tree is standing all its life. -/
theorem standing (hE : Levels E) (h : Thrives E view e w) :
    ∃ node, node.height ≤ view.height ∧ Standing w node e := by
  induction h with
  | @build n C e w w' hn hrun =>
    obtain ⟨w₁, w₂, hmade, hentered, hw₂⟩ := Build.runIn_build_eq_ok hrun
    obtain ⟨-, hsprouted⟩ := (Build.instantiateAll_ends (hE.discreet _).rules w C view.roots).ok hmade
    obtain ⟨node, hnode, context, x, hx⟩ := hsprouted e (List.mem_singleton_self _)
    have hheight : node.height ≤ view.height := (Node.height_lt_of_mem hnode).le
    have hupdate : (Act.update e).runIn (E n) w₁ = (some (.ok ()), w₂) :=
      (congrFun (hE.update n e) w₁).symm.trans hentered
    have hpassed := hE.passed (hheight.trans hn) hx.standing hupdate
    exact ⟨node, hheight, hpassed.2.untouched hw₂.touches⟩
  | change _ hchange ih =>
    obtain ⟨node, hheight, hstanding⟩ := ih
    exact ⟨node, hheight, hstanding.unchanged hchange⟩
  | @update n e c w w' answer hn _ hc hrun ih =>
    obtain ⟨node, hheight, hstanding⟩ := ih
    obtain ⟨child, hchild, hle⟩ := hstanding.encloses_height hc
    have hpassed := hE.passed (hle.trans (hheight.trans hn)) hchild hrun
    exact ⟨node, hheight, hstanding.regrow hc hpassed.1 fun child' hchild' =>
      hchild.node_unique hchild' ▸ hpassed.2⟩

/-- Arrays and records may become other ones. -/
theorem restore (h : Thrives E view e w) (store : Store) : Thrives E view e { w with store } :=
  .change h fun _ _ _ hx => hx

end Thrives

/-- **Passes.** At as many levels as the node of an element is high, an update of the element ends, unless
there is an array that holds itself. If it succeeds, it has run the updaters of the element and of all that
is below it now, each of them once and in the order of the document, and no other updater; and all of these
elements show what is in their slots and have their bound attributes. -/
theorem Levels.pass_covers {E : Nat → Enter σ} (hE : Levels E) {view : View Resolver} {w : World σ}
    {root e : ElementId} (h : Thrives E view root w) (he : w.Encloses root e) :
    ∃ node x, w.elements.get? e.row = some x ∧ x.updater = some (.view node .headless) ∧
      ∀ n, node.height ≤ n → ∃ answer w', (Act.update e).runIn (E n) w = (answer, w') ∧
        (¬ w'.store.Circular → answer.isSome) ∧
        (answer = some (.ok ()) → ∃ ds, Covers w [e] ds w' ∧ ds.Nodup) := by
  obtain ⟨top, -, hstanding⟩ := h.standing hE
  obtain ⟨node, hnode⟩ := hstanding.encloses he
  obtain ⟨x, hnursed, hupdater, -⟩ := hnode.inspect
  refine ⟨node, x, hnursed.get, hupdater, fun n hn => ?_⟩
  have hpass := hE.pass hn hnode
  rcases hrun : (Act.update e).runIn (E n) w with ⟨answer, w'⟩
  refine ⟨answer, w', rfl, fun hnot => ?_, fun hanswer => ?_⟩
  · cases answer with
    | some answer => rfl
    | none => exact (hnot (hpass.never hrun)).elim
  · obtain ⟨hpassed, ds, hcovers⟩ := hpass.ok (hanswer ▸ hrun)
    exact ⟨ds, hcovers, hpassed.2.document_nodup hcovers.document⟩

/-- A row for each entry of a list, with the number that a function gives it. -/
def numberedRow : Node Resolver :=
  ⟨⟨"li", none, [], none⟩, "ul/li", [],
    [("n", .text [.chain ⟨[.lookup "next", .call []], "next()"⟩])], [],
    some ("row", .text [.chain ⟨[.lookup "rows"], "rows"⟩]), none, []⟩

/-- A list of rows. -/
def numberedRows : Node Resolver := ⟨⟨"ul", none, [], none⟩, "ul", [], [], [], none, none, [numberedRow]⟩

/-- A host program that counts how often its functions are called. -/
def counter : Host Nat where
  answer
    | .apply _ _ _ => .memory fun n => .remember (n + 1) (.done (.ok (.int (Int64.ofNat n))))
    | .getOwn _ _ => .done none
    | .getAttribute _ _ => .done (.ok .undefined)
    | _ => .hang

theorem counter_discreet {depth : Nat} (h : 1 ≤ depth) : Discreet (counter.enter depth) := by
  obtain ⟨depth, rfl⟩ := Nat.exists_eq_add_of_le' h
  exact ⟨fun _ _ _ _ => ⟨.of_elements_eq rfl, rfl⟩, fun _ _ _ => ⟨.of_elements_eq rfl, rfl⟩,
    fun _ _ _ => ⟨.of_elements_eq rfl, rfl⟩⟩

/-- A list of one row, and a record with the list and a function. -/
def rowsToNumber : World Nat :=
  (counter.run 0 (do
    let rows ← Script.newArray [.str "a"]
    Script.newRecord [("rows", rows), ("next", .function ⟨"next", 0⟩)]) (.empty .off 0)).2

/-- The view is built. -/
def numbered : World Nat :=
  ((Build.build ⟨[numberedRows]⟩ [.object (.record ⟨0⟩)] .headless).run.runIn (counter.enter 4)
    rowsToNumber).2

/-- Another row is added to the list. -/
def longer : World Nat := { numbered with store := numbered.store.setItems ⟨0⟩ [.str "a", .str "b"] }

/-- The node as which an updater brings its element up to date. -/
def Updater.node? : Updater → Option (Node Resolver)
  | view node _ => some node
  | foreign _ => none

/-- An update makes two new rows and runs their updaters after that of the list. -/
theorem Levels.pass_covers_counter :
    ∃ w' ds, (Act.update ⟨0⟩).runIn (counter.enter 2) longer = (some (.ok ()), w') ∧
      Covers longer [⟨0⟩] ds w' ∧ ds.Nodup ∧ w'.runs = longer.runs ++ passage [⟨0⟩, ⟨2⟩, ⟨3⟩] := by
  have hlevels : Levels fun n => counter.enter (1 + n) := Host.levels fun _ => counter_discreet
  have hbuild : (Build.build ⟨[numberedRows]⟩ [.object (.record ⟨0⟩)] .headless).run.runIn
      (counter.enter (1 + (2 + 1))) rowsToNumber = (some (.ok ⟨0⟩), numbered) :=
    eq_ok_of_toOption (by decide +kernel)
  have hbuilt : Thrives (fun n => counter.enter (1 + n)) ⟨[numberedRows]⟩ ⟨0⟩ numbered :=
    .build (n := 2) (by decide +kernel) hbuild
  have hthrives : Thrives (fun n => counter.enter (1 + n)) ⟨[numberedRows]⟩ ⟨0⟩ longer :=
    hbuilt.restore _
  obtain ⟨node, x, hx, hupdater, hcovers⟩ := hlevels.pass_covers hthrives (.refl ⟨0⟩)
  have hheight : (((longer.elements.get? 0).bind Element.updater).bind Updater.node?).map Node.height =
      some 1 := by decide +kernel
  rw [show longer.elements.get? 0 = some x from hx, Option.bind_some, hupdater] at hheight
  obtain ⟨answer, w', hrun, -, hok⟩ := hcovers 1 (Option.some.inj hheight).le
  have hupdate : ((Act.update ⟨0⟩).runIn (counter.enter (1 + 1)) longer).1.bind Except.toOption = some () :=
    by decide +kernel
  have hruns : ((Act.update ⟨0⟩).runIn (counter.enter (1 + 1)) longer).2.runs =
      longer.runs ++ passage [⟨0⟩, ⟨2⟩, ⟨3⟩] := by decide +kernel
  have hanswer := eq_ok_of_toOption hupdate
  rw [hrun] at hanswer hruns
  obtain ⟨rfl, -⟩ := Prod.mk.inj hanswer
  obtain ⟨ds, hcovered, hnodup⟩ := hok rfl
  exact ⟨w', ds, hrun, hcovered, hnodup, hruns⟩

end ReactiveViews
