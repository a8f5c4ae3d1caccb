import ReactiveViews.Proofs.Live.Effects

/-!
# Calls that go deeper

Calls may be nested only so deep, and at the lowest level no answer comes. An act cannot tell how many
levels there are below it: either it gets the answers to all of its calls, or it has no answer itself.

## What is proved

Every act of the library that answers gives the same answer, and leads to the same world, if there are
more levels (the lemmas of `Steadfast`). So it is with the scripts of a host program and with the calls
that are entered (`Host.enter_deepens`).
-/

namespace ReactiveViews

variable {σ α β ε : Type}

/-- Each call that the one way to enter calls answers the other one answers in the same way. -/
def Deepens (enter enter' : Enter σ) : Prop :=
  ∀ (call : Call) (w : World σ) (a : call.Reply) (w' : World σ),
    enter call w = (some a, w') → enter' call w = (some a, w')

/-- If the act answers, it answers in the same way when more calls are answered. -/
structure Steadfast (act : Act σ α) : Prop where
  /-- What it answers. -/
  lasts : ∀ {enter enter' : Enter σ}, Deepens enter enter' → ∀ {w w' : World σ} {a : α},
    act.runIn enter w = (some a, w') → act.runIn enter' w = (some a, w')

namespace Steadfast

/-! ### Sequences -/

/-- An act that enters no calls. -/
theorem still {act : Act σ α} (h : ∀ (enter enter' : Enter σ) (w : World σ),
    act.runIn enter w = act.runIn enter' w) : Steadfast act :=
  ⟨fun _ _ _ _ hrun => (h _ _ _).symm.trans hrun⟩

theorem pure (a : α) : Steadfast (pure a : Act σ α) := still fun _ _ _ => rfl

theorem never : Steadfast (Act.never : Act σ α) := still fun _ _ _ => rfl

theorem get : Steadfast (get : Act σ (World σ)) := still fun _ _ _ => rfl

theorem modify (f : World σ → World σ) : Steadfast (modify f : Act σ Unit) := still fun _ _ _ => rfl

theorem modifyGet (f : World σ → α × World σ) : Steadfast (modifyGet f : Act σ α) :=
  still fun _ _ _ => rfl

theorem enter (call : Call) : Steadfast (Act.enter (σ := σ) call) :=
  ⟨fun hdeepens _ _ _ hrun => hdeepens _ _ _ _ hrun⟩

theorem bind {act : Act σ α} {f : α → Act σ β} (hact : Steadfast act) (hf : ∀ a, Steadfast (f a)) :
    Steadfast (act >>= f) := by
  refine ⟨fun {enter enter'} hdeepens {w w'' b} hrun => ?_⟩
  obtain ⟨a, w', ha, hb⟩ := Act.runIn_bind_eq_some hrun
  rw [Act.runIn_bind_some (hact.lasts hdeepens ha)]
  exact (hf a).lasts hdeepens hb

theorem map (f : α → β) {act : Act σ α} (hact : Steadfast act) : Steadfast (f <$> act) := by
  rw [map_eq_pure_bind]
  exact hact.bind fun _ => pure _

theorem mapM {f : α → Act σ β} (hf : ∀ a, Steadfast (f a)) (l : List α) : Steadfast (l.mapM f) := by
  induction l with
  | nil => exact pure []
  | cons a rest ih =>
    rw [List.mapM_cons]
    exact (hf a).bind fun _ => ih.bind fun _ => pure _

theorem forM {f : α → Act σ PUnit} (hf : ∀ a, Steadfast (f a)) (l : List α) : Steadfast (l.forM f) := by
  induction l with
  | nil => exact pure ()
  | cons a rest ih => exact (hf a).bind fun _ => ih

/-! ### Acts that can fail -/

theorem bindE {act : ExceptT ε (Act σ) α} {f : α → ExceptT ε (Act σ) β} (hact : Steadfast act.run)
    (hf : ∀ a, Steadfast (f a).run) : Steadfast (act >>= f).run := by
  rw [ExceptT.run_bind]
  refine hact.bind fun answer => ?_
  cases answer with
  | ok a => exact hf a
  | error e => exact pure _

theorem pureE (a : α) : Steadfast (Pure.pure a : ExceptT ε (Act σ) α).run := pure (Except.ok a)

theorem throwE (e : ε) : Steadfast (throw e : ExceptT ε (Act σ) α).run := pure (Except.error e)

theorem liftE {act : Act σ α} (hact : Steadfast act) :
    Steadfast (ExceptT.lift act : ExceptT ε (Act σ) α).run := hact.map _

theorem eval {act : Act σ (Except EvalError α)} (hact : Steadfast act) :
    Steadfast (Build.eval act).run := hact.map _

theorem component {act : Act σ (Except ComponentError α)} (hact : Steadfast act) :
    Steadfast (Build.component act).run := hact.map _

/-! ### Worlds and elements -/

theorem enterHost (call : HostCall) : Steadfast (Act.enterHost (σ := σ) call) := enter (.host call)

theorem ofOption (a : Option α) : Steadfast (Act.ofOption (σ := σ) a) := still fun _ _ _ => by
  cases a <;> rfl

theorem record (event : Event) : Steadfast (Act.record (σ := σ) event) := still fun _ _ _ => rfl

theorem message (level : Level) {text : Act σ String} (htext : Steadfast text) :
    Steadfast (Act.message level text) := by
  refine get.bind fun w => ?_
  split
  · exact htext.bind fun _ => record _
  · exact pure ()

theorem element (e : ElementId) : Steadfast (Act.element (σ := σ) e) := get.bind fun _ => ofOption _

theorem updateElement (e : ElementId) (f : Element → Element) :
    Steadfast (Act.updateElement (σ := σ) e f) := modify _

theorem alive (e : ElementId) : Steadfast (Act.alive (σ := σ) e) := get.bind fun _ => pure _

theorem hold (es : List ElementId) : Steadfast (Act.hold (σ := σ) es) := modify _

theorem release (es : List ElementId) : Steadfast (Act.release (σ := σ) es) := modify _

theorem holding (es : List ElementId) {act : Act σ α} (hact : Steadfast act) :
    Steadfast (Act.holding es act) :=
  (hold es).bind fun _ => hact.bind fun _ => (release es).bind fun _ => pure _

theorem living (e : ElementId) {act : Act σ α} (hact : Steadfast act) : Steadfast (Act.living e act) := by
  refine (alive e).bind fun living => ?_
  split
  · exact hact
  · exact never

theorem newArray (items : List Value) : Steadfast (Act.newArray (σ := σ) items) := modifyGet _

theorem newRecord (fields : Fields Value) : Steadfast (Act.newRecord (σ := σ) fields) := modifyGet _

theorem text (v : Value) : Steadfast (Act.text (σ := σ) v) := get.bind fun _ => ofOption _

theorem contextOf (e : ElementId) : Steadfast (Act.contextOf (σ := σ) e) :=
  (element e).bind fun _ => modifyGet _

theorem traced (x : Traced ε α) : Steadfast (Act.traced (σ := σ) x) :=
  (forM (fun _ => message .trace (pure _)) _).bind fun _ => pure _

/-! ### Properties -/

theorem readAttribute (c : Component) (name : String) : Steadfast (Act.readAttribute (σ := σ) c name) := by
  cases c with
  | headless => exact pure _
  | foreign => exact enterHost _

theorem readAttributes (c : Component) : Steadfast (Act.readAttributes (σ := σ) c) := by
  cases c with
  | headless => exact pure _
  | foreign => exact enterHost _

theorem scopeGetOwn (e : ElementId) (key : String) : Steadfast (Act.scopeGetOwn (σ := σ) e key) := by
  refine (alive e).bind fun living => ?_
  split
  · refine (element e).bind fun element => ?_
    split
    · exact pure _
    · split
      · exact pure _
      · exact holding _ ((readAttribute _ _).bind fun _ => pure _)
  · exact pure _

theorem scopeKeys (e : ElementId) : Steadfast (Act.scopeKeys (σ := σ) e) := by
  refine (alive e).bind fun living => ?_
  split
  · refine (element e).bind fun element => ?_
    split
    · exact pure _
    · exact holding _ ((readAttributes _).bind fun _ => pure _)
  · exact pure _

theorem getOwn (v : Value) (key : String) : Steadfast (Act.getOwn (σ := σ) v key) := by
  rcases v with _ | _ | _ | _ | _ | _ | _ | ⟨_ | _ | _⟩ | _
  case array => exact get.bind fun _ => pure _
  case object.record => exact get.bind fun _ => pure _
  case object.scope e => exact scopeGetOwn e key
  case object.foreign => exact enterHost _
  all_goals exact pure _

theorem getNamed (v : Value) (key : String) : Steadfast (Act.getNamed (σ := σ) v key) :=
  (getOwn v key).bind fun _ => pure _

theorem getKeyed (v key : Value) : Steadfast (Act.getKeyed (σ := σ) v key) :=
  (text key).bind fun _ => getNamed v _

theorem keys (o : Object) : Steadfast (Act.keys (σ := σ) o) := by
  cases o with
  | record => exact get.bind fun _ => pure _
  | scope => exact scopeKeys _
  | foreign => exact enterHost _

theorem setOwn (o : Object) (key : String) (v : Value) : Steadfast (Act.setOwn (σ := σ) o key v) := by
  cases o with
  | record => exact (modify _).bind fun _ => pure _
  | scope => exact pure _
  | foreign => exact enterHost _

theorem items (v : Value) : Steadfast (Act.items (σ := σ) v) := by
  refine get.bind fun w => ?_
  split <;> exact pure _

theorem inspectPart (v : Value) : Steadfast (Act.inspectPart (σ := σ) v) := enter _

theorem inspect (v : Value) : Steadfast (Act.inspect (σ := σ) v) := by
  unfold Act.inspect
  split
  case h_7 =>
    exact get.bind fun _ => (mapM inspectPart _).bind fun _ => pure _
  case h_8 =>
    refine (keys _).bind fun _ => (mapM (fun _ => ?_) _).bind fun _ => pure _
    exact (getNamed _ _).bind fun _ => (inspectPart _).bind fun _ => pure _
  all_goals exact pure _

/-! ### Evaluation -/

theorem lookup (name : String) (context : Context) : Steadfast (Act.lookup (σ := σ) name context) := by
  induction context with
  | nil => exact pure _
  | cons scope rest ih =>
    refine (getOwn scope name).bind fun owned => ?_
    split
    · exact ih
    · exact ih
    · exact pure _

theorem apply (f : Function) (receiver : Value) (args : List Value) :
    Steadfast (Act.apply (σ := σ) f receiver args) := enterHost _

theorem applyE (expr : String) (r : Registers) (args : List Value) :
    Steadfast (Eval.apply (σ := σ) expr r args).run := by
  unfold Eval.apply
  split
  · exact bindE (apply _ _ _) fun _ => pureE _
  · exact throwE _

mutual

theorem step (context : Context) (expr : String) (r : Registers) :
    (s : Step) → Steadfast (Eval.step (σ := σ) context expr r s).run
  | .lookup name => by
    refine bindE (liftE (lookup name context)) fun found => ?_
    split <;> exact pureE _
  | .constant v => pureE _
  | .property key => bindE (liftE (getKeyed _ key)) fun _ => pureE _
  | .index chain =>
    bindE (steps context expr .start chain) fun _ => bindE (liftE (getKeyed _ _)) fun _ => pureE _
  | .array items =>
    bindE (all context expr items) fun _ => bindE (liftE (newArray _)) fun _ => pureE _
  | .call args => bindE (all context expr args) fun _ => applyE expr r _

theorem steps (context : Context) (expr : String) (r : Registers) :
    (chain : List Step) → Steadfast (Eval.steps (σ := σ) context expr r chain).run
  | [] => pureE _
  | s :: rest => bindE (step context expr r s) fun r => steps context expr r rest

theorem all (context : Context) (expr : String) :
    (chains : List (List Step)) → Steadfast (Eval.all (σ := σ) context expr chains).run
  | [] => pureE _
  | chain :: rest =>
    bindE (steps context expr .start chain) fun _ => bindE (all context expr rest) fun _ => pureE _

end

theorem chain (context : Context) (c : Chain) : Steadfast (Eval.chain (σ := σ) context c).run :=
  bindE (steps context c.expr .start c.steps) fun _ => pureE _

theorem part (context : Context) (p : Part) : Steadfast (Eval.part (σ := σ) context p).run := by
  cases p with
  | plain text => exact pureE _
  | chain c => exact chain context c

theorem joined (context : Context) (parts : List Part) :
    Steadfast (Eval.joined (σ := σ) context parts).run := by
  induction parts with
  | nil => exact pureE _
  | cons p rest ih =>
    exact bindE (part context p) fun _ => bindE (liftE (text _)) fun _ => bindE ih fun _ => pureE _

theorem resolve (context : Context) (resolver : Resolver) :
    Steadfast (Eval.resolve (σ := σ) context resolver).run := by
  unfold Eval.resolve
  split
  · exact pureE _
  · exact part context _
  · exact bindE (joined context _) fun _ => pureE _

theorem shows (context : Context) (node : Node Resolver) :
    Steadfast (Eval.shows (σ := σ) context node).run := by
  unfold Eval.shows
  split
  · exact bindE (resolve context _) fun _ => pureE _
  · exact pureE _

/-! ### Components -/

theorem componentOf (e : ElementId) : Steadfast (Act.component (σ := σ) e) := by
  refine (element e).bind fun element => ?_
  split
  · exact never
  · exact pure _

theorem make (factory : Factory) (tag : String) : Steadfast (Act.make (σ := σ) factory tag) := by
  cases factory with
  | headless => exact pure _
  | foreign f => exact enterHost _

theorem newElement (tag : Tag) (component : Component) (context : Context) :
    Steadfast (Act.newElement (σ := σ) tag component context) := modifyGet _

theorem getAttribute (e : ElementId) (name : String) : Steadfast (Act.getAttribute (σ := σ) e name) :=
  (componentOf e).bind fun _ => readAttribute _ name

theorem announce (component : Component) (name : String) (v : Value) :
    Steadfast (Act.announce (σ := σ) component name v) := by
  cases component with
  | headless c => exact message _ ((text v).bind fun _ => pure _)
  | foreign c => exact pure _

theorem change (e : ElementId) (own : Headless → Except ComponentError Headless)
    {foreign : Nat → Act σ (Except ComponentError Unit)} (hforeign : ∀ c, Steadfast (foreign c)) :
    Steadfast (Act.change e own foreign) := by
  refine (componentOf e).bind fun component => ?_
  cases component with
  | headless c =>
    dsimp only
    split
    · exact (updateElement _ _).bind fun _ => pure _
    · exact pure _
  | foreign c =>
    exact (updateElement _ _).bind fun _ => (hforeign c).bind fun _ =>
      (updateElement _ _).bind fun _ => pure _

theorem setAttribute (e : ElementId) (name : String) (v : Value) :
    Steadfast (Act.setAttribute (σ := σ) e name v) :=
  (componentOf e).bind fun _ => (announce _ name v).bind fun _ => change e _ fun _ => enterHost _

theorem addListener (e : ElementId) (event : String) (handler : Handler) :
    Steadfast (Act.addListener (σ := σ) e event handler) := change e _ fun _ => enterHost _

theorem changeChildren (e : ElementId) (answer : Except ComponentError Unit)
    (f : List ElementId → List ElementId) : Steadfast (Act.changeChildren (σ := σ) e answer f) := by
  unfold Act.changeChildren
  split
  · exact (updateElement _ _).bind fun _ => pure _
  · exact pure _

theorem appendChild (e child : ElementId) : Steadfast (Act.appendChild (σ := σ) e child) :=
  (change e _ fun _ => enterHost _).bind fun _ => changeChildren e _ _

theorem removeChild (e child : ElementId) : Steadfast (Act.removeChild (σ := σ) e child) :=
  (change e _ fun _ => enterHost _).bind fun _ => changeChildren e _ _

theorem clearChildren (e : ElementId) : Steadfast (Act.clearChildren (σ := σ) e) :=
  (change e _ fun _ => enterHost _).bind fun _ => changeChildren e _ _

/-! ### Events and outlines -/

theorem listeners (e : ElementId) (event : String) : Steadfast (Act.listeners (σ := σ) e event) := by
  refine (componentOf e).bind fun component => ?_
  cases component with
  | headless c => exact pure _
  | foreign c => exact enterHost _

theorem handle (handler : Handler) (event : Value) : Steadfast (Act.handle (σ := σ) handler event) := by
  cases handler with
  | directive target resolver =>
    refine (alive target).bind fun living => ?_
    split
    · exact holding _ ((newRecord _).bind fun _ => (contextOf target).bind fun _ => resolve _ resolver)
    · exact pure _
  | foreign n => exact enterHost _

theorem handleAll (event : Value) (handlers : List Handler) :
    Steadfast (Act.handleAll (σ := σ) event handlers) := by
  induction handlers with
  | nil => exact pure _
  | cons handler rest ih =>
    refine (handle handler event).bind fun answer => ?_
    cases answer with
    | error e => exact pure _
    | ok v => exact ih.bind fun _ => pure _

theorem dispatch (e : ElementId) (name : String) (event : Value) :
    Steadfast (Act.dispatch (σ := σ) e name event) := by
  refine (listeners e name).bind fun answer => ?_
  cases answer with
  | error e => exact pure _
  | ok handlers => exact handleAll event handlers

theorem outlineAttributes (attributes : Fields Value) :
    Steadfast (Act.outlineAttributes (σ := σ) attributes) := by
  induction attributes with
  | nil => exact pure _
  | cons pair rest ih =>
    unfold Act.outlineAttributes
    split
    · exact ih
    · exact (text _).bind fun _ => ih.bind fun _ => pure _

theorem concat {text : ElementId → Act σ String} (htext : ∀ e, Steadfast (text e)) (es : List ElementId) :
    Steadfast (Act.concat text es) := by
  induction es with
  | nil => exact pure _
  | cons e rest ih => exact (htext e).bind fun _ => ih.bind fun _ => pure _

theorem outlineWithin (levels : Nat) :
    ∀ (depth : Nat) (e : ElementId), Steadfast (Act.outlineWithin (σ := σ) levels depth e) := by
  induction levels with
  | zero => exact fun _ _ => never
  | succ levels ih =>
    intro depth e
    exact (componentOf e).bind fun _ => (readAttributes _).bind fun _ => (outlineAttributes _).bind fun _ =>
      (element e).bind fun _ => (concat (ih (depth + 1)) _).bind fun _ => pure _

theorem outline (e : ElementId) : Steadfast (Act.outline (σ := σ) e) :=
  get.bind fun _ => outlineWithin _ _ e

/-! ### Making elements -/

theorem releasing (es : List ElementId) {act : Build σ α} (hact : Steadfast act.run) :
    Steadfast (Build.releasing es act).run := by
  refine hact.bind fun answer => ?_
  split
  · exact (release es).bind fun _ => pure _
  · exact pure _

theorem describe (e : ElementId) (name : String) (text : Option String) :
    Steadfast (Build.describe (σ := σ) e name text).run := by
  cases text with
  | some text => exact component (setAttribute _ _ _)
  | none => exact pureE _

theorem listen (e : ElementId) (handlers : List (String × Resolver)) :
    Steadfast (Build.listen (σ := σ) e handlers).run := by
  induction handlers with
  | nil => exact pureE _
  | cons handler rest ih => exact bindE (component (addListener e _ _)) fun _ => ih

theorem assign (e : ElementId) (context : Context) (attributes : List (String × Resolver)) :
    Steadfast (Build.assign (σ := σ) e context attributes).run := by
  induction attributes with
  | nil => exact pureE _
  | cons entry rest ih =>
    exact bindE (eval (resolve context _)) fun _ => bindE (component (setAttribute _ _ _)) fun _ => ih

theorem install (e : ElementId) (updater : Updater) (slots : List Slot) :
    Steadfast (Build.install (σ := σ) e updater slots) := (updateElement _ _).bind fun _ => record _

theorem furnish (e : ElementId) (node : Node Resolver) (factory : Factory) :
    Steadfast (Build.furnish (σ := σ) e node factory).run :=
  bindE (describe e _ _) fun _ => bindE (describe e _ _) fun _ => bindE (listen e _) fun _ =>
    bindE (liftE (contextOf e)) fun _ => bindE (assign e _ _) fun _ => liftE (install e _ _)

theorem create (node : Node Resolver) (context : Context) (factory : Factory) :
    Steadfast (Build.create (σ := σ) node context factory).run :=
  bindE (component (make factory _)) fun _ => bindE (liftE (newElement _ _ _)) fun _ =>
    bindE (releasing _ (furnish _ node factory)) fun _ => pureE _

theorem createAll (node : Node Resolver) (factory : Factory) (contexts : List Context) :
    Steadfast (Build.createAll (σ := σ) node factory contexts).run := by
  induction contexts with
  | nil => exact pureE _
  | cons context rest ih =>
    exact bindE (create node context factory) fun _ => bindE (releasing _ ih) fun _ => pureE _

theorem conditions (node : Node Resolver) (contexts : List Context) :
    Steadfast (Build.conditions (σ := σ) node contexts).run := by
  induction contexts with
  | nil => exact pureE _
  | cons context rest ih => exact bindE (eval (shows context node)) fun _ => bindE ih fun _ => pureE _

theorem frames (name : String) (context : Context) (items : List Value) :
    Steadfast (Build.frames (σ := σ) name context items) := by
  induction items with
  | nil => exact pure _
  | cons item rest ih => exact (newRecord _).bind fun _ => ih.bind fun _ => pure _

theorem listOf (context : Context) (resolver : Resolver) :
    Steadfast (Build.listOf (σ := σ) context resolver).run :=
  bindE (eval (resolve context resolver)) fun _ => bindE (eval (items _)) fun _ => pureE _

theorem spread (node : Node Resolver) (factory : Factory) (name : String) (context : Context) (list : Value)
    (items : List Value) : Steadfast (Build.spread (σ := σ) node factory name context list items).run :=
  bindE (liftE (message _ (pure _))) fun _ => bindE (liftE (frames name context items)) fun _ =>
    bindE (conditions node _) fun _ => bindE (createAll node factory _) fun _ => pureE _

theorem instantiate (node : Node Resolver) (context : Context) (factory : Factory) :
    Steadfast (Build.instantiate (σ := σ) node context factory).run := by
  unfold Build.instantiate
  split
  · refine bindE (eval (shows context node)) fun shown => ?_
    split
    · exact bindE (create node context factory) fun _ => pureE _
    · exact pureE _
  · exact bindE (listOf context _) fun _ => bindE (spread node factory _ context _ _) fun _ => pureE _

theorem instantiateAll (context : Context) (factory : Factory) (nodes : List (Node Resolver)) :
    Steadfast (Build.instantiateAll (σ := σ) context factory nodes).run := by
  induction nodes with
  | nil => exact pureE _
  | cons node rest ih =>
    exact bindE (instantiate node context factory) fun _ => bindE (releasing _ ih) fun _ => pureE _

/-! ### Slots -/

theorem remember (e : ElementId) (i : Nat) (memory : Memory) :
    Steadfast (Build.remember (σ := σ) e i memory) := updateElement _ _

theorem noteKept (last : Repetition) : Steadfast (Build.noteKept (σ := σ) last) := by
  unfold Build.noteKept
  split
  · exact record _
  · exact pure _

theorem evaluateSingle (e : ElementId) (i : Nat) (node : Node Resolver) (cached : Option ElementId)
    (context : Context) (factory : Factory) :
    Steadfast (Build.evaluateSingle (σ := σ) e i node cached context factory).run := by
  refine bindE (eval (shows context node)) fun shown => ?_
  split
  · cases cached with
    | some child => exact pureE _
    | none =>
      exact bindE (create node context factory) fun _ => bindE (liftE (remember e i _)) fun _ =>
        bindE (liftE (release _)) fun _ => pureE _
  · exact bindE (liftE (remember e i _)) fun _ => pureE _

theorem settle (e : ElementId) (i : Nat) (last : Repetition) :
    Steadfast (Build.settle (σ := σ) e i last).run :=
  bindE (liftE (remember e i _)) fun _ => bindE (liftE (release _)) fun _ => pureE _

theorem reuse (e : ElementId) (i : Nat) (node : Node Resolver) (last : Repetition) (factory : Factory) :
    Steadfast (Build.reuse (σ := σ) e i node last factory).run := by
  refine bindE (conditions node _) fun conditions => ?_
  split
  · exact pureE _
  · exact bindE (liftE (message _ (pure _))) fun _ => bindE (createAll node factory _) fun _ =>
      settle e i _

theorem evaluateRepeated (e : ElementId) (i : Nat) (node : Node Resolver) (name : String)
    (resolver : Resolver) (last : Option Repetition) (context : Context) (factory : Factory) :
    Steadfast (Build.evaluateRepeated (σ := σ) e i node name resolver last context factory).run := by
  refine bindE (listOf context resolver) fun answer => ?_
  obtain ⟨list, items⟩ := answer
  have hanew : Steadfast (Build.spread (σ := σ) node factory name context list items >>=
      Build.settle e i).run :=
    bindE (spread node factory name context list items) fun _ => settle e i _
  cases last with
  | none => exact hanew
  | some last =>
    dsimp only
    split
    · exact bindE (liftE (noteKept last)) fun _ => reuse e i node last factory
    · exact hanew

theorem evaluate (e : ElementId) (i : Nat) (slot : Slot) (context : Context) (factory : Factory) :
    Steadfast (Build.evaluate (σ := σ) e i slot context factory).run := by
  unfold Build.evaluate
  split
  · exact evaluateSingle e i _ _ context factory
  · exact evaluateRepeated e i _ _ _ _ context factory
  · exact pureE _

/-! ### Updates -/

theorem append (e : ElementId) (children : List ElementId) :
    Steadfast (Build.append (σ := σ) e children).run := by
  induction children with
  | nil => exact pureE _
  | cons child rest ih => exact bindE (component (appendChild e child)) fun _ => ih

theorem fill (e : ElementId) (context : Context) (factory : Factory) (slots : List Slot) :
    ∀ i, Steadfast (Build.fill (σ := σ) e context factory i slots).run := by
  induction slots with
  | nil => exact fun _ => pureE _
  | cons slot rest ih =>
    intro i
    exact bindE (evaluate e i slot context factory) fun _ => bindE (append e _) fun _ => ih (i + 1)

theorem refresh (e : ElementId) (node : Node Resolver) (factory : Factory) :
    Steadfast (Build.refresh (σ := σ) e node factory).run := by
  refine bindE (liftE (contextOf e)) fun scope => bindE (liftE (element e)) fun element => ?_
  dsimp only
  split
  · exact bindE (component (clearChildren e)) fun _ => bindE (fill e scope factory _ 0) fun _ =>
      assign e scope _
  · exact bindE (pureE ()) fun _ => assign e scope _

theorem enterUpdate (e : ElementId) : Steadfast (Act.enterUpdate (σ := σ) e) := enter _

theorem updateAll (es : List ElementId) : Steadfast (Act.updateAll (σ := σ) es) := by
  induction es with
  | nil => exact pure _
  | cons e rest ih =>
    refine (enterUpdate e).bind fun answer => (release _).bind fun _ => ?_
    cases answer with
    | ok => exact ih
    | error error => exact (release rest).bind fun _ => pure _

theorem setUpdater (e : ElementId) (updater : Nat) : Steadfast (Act.setUpdater (σ := σ) e updater) :=
  (updateElement _ _).bind fun _ => record _

theorem takeUpdater (e : ElementId) : Steadfast (Act.takeUpdater (σ := σ) e) :=
  (element e).bind fun _ => (updateElement _ _).bind fun _ => pure _

theorem putBack (e : ElementId) (updater : Updater) : Steadfast (Act.putBack (σ := σ) e updater) :=
  updateElement _ _

theorem runUpdater (e : ElementId) (updater : Updater) :
    Steadfast (Act.runUpdater (σ := σ) e updater) := by
  cases updater with
  | view node factory => exact refresh e node factory
  | foreign u => exact enterHost _

theorem updateSelf (e : ElementId) : Steadfast (Act.updateSelf (σ := σ) e) := by
  refine (takeUpdater e).bind fun updater => ?_
  cases updater with
  | none => exact pure _
  | some updater =>
    exact (record _).bind fun _ => (runUpdater e updater).bind fun _ => (putBack e updater).bind fun _ =>
      (record _).bind fun _ => pure _

theorem update (e : ElementId) : Steadfast (Act.update (σ := σ) e) := by
  refine holding _ ((updateSelf e).bind fun answer => ?_)
  cases answer with
  | error error => exact pure _
  | ok => exact (element e).bind fun _ => (hold _).bind fun _ => updateAll _

theorem build (view : View Resolver) (context : Context) (factory : Factory) :
    Steadfast (Build.build (σ := σ) view context factory).run := by
  refine bindE (instantiateAll context factory _) fun made => ?_
  split
  · exact bindE (releasing _ (enterUpdate _)) fun _ => bindE (liftE (element _)) fun _ =>
      bindE (liftE (message _ (pure _))) fun _ => pureE _
  · exact bindE (liftE (release _)) fun _ => throwE _

/-! ### Loading -/

theorem load (value : Json) : Steadfast (Act.load (σ := σ) value) := modifyGet _

theorem compileView (template : Template) : Steadfast (Act.compileView (σ := σ) template) := by
  refine (traced _).bind fun answer => ?_
  cases answer with
  | error error => exact pure _
  | ok view => exact modifyGet _

theorem compileSource (value : Json) : Steadfast (Act.compileSource (σ := σ) value) := by
  refine (traced _).bind fun answer => ?_
  cases answer with
  | error error => exact pure _
  | ok source => exact modifyGet _

theorem compileExpression (src : String) : Steadfast (Act.compileExpression (σ := σ) src) :=
  (traced _).bind fun _ => pure _

/-! ### Schedulers -/

theorem scheduler (s : SchedulerId) : Steadfast (Act.scheduler (σ := σ) s) := get.bind fun _ => ofOption _

theorem updateScheduler (s : SchedulerId) (f : Scheduler → Scheduler) :
    Steadfast (Act.updateScheduler (σ := σ) s f) := modify _

theorem tell (state : ReceiverState) (r : ReceiverId) : Steadfast (Act.tell (σ := σ) state r) := by
  refine get.bind fun w => ?_
  split
  · exact (modify _).bind fun _ => record _
  · exact pure ()

theorem request (s : SchedulerId) (e : ElementId) : Steadfast (Act.request (σ := σ) s e) := by
  refine (modifyGet _).bind fun r => (scheduler s).bind fun x => (updateScheduler s _).bind fun _ =>
    (record _).bind fun _ => ?_
  dsimp only
  split
  · exact ((message _ (pure _)).bind fun _ => updateScheduler s _).bind fun _ => pure _
  · exact (pure ()).bind fun _ => pure _

theorem cancel (s : SchedulerId) (e : ElementId) : Steadfast (Act.cancel (σ := σ) s e) :=
  (updateScheduler s _).bind fun _ => record _

theorem takeFrame (s : SchedulerId) : Steadfast (Act.takeFrame (σ := σ) s) :=
  (scheduler s).bind fun _ => (updateScheduler s _).bind fun _ => pure _

theorem begin (s : SchedulerId) : Steadfast (Act.begin (σ := σ) s) :=
  (scheduler s).bind fun _ => (updateScheduler s _).bind fun _ => (record _).bind fun _ => pure _

theorem next (s : SchedulerId) : Steadfast (Act.next (σ := σ) s) := by
  refine (scheduler s).bind fun x => ?_
  split
  · exact pure _
  · exact (updateScheduler s _).bind fun _ => pure _

theorem account (e : ElementId) (answer : Except ViewError Unit) :
    Steadfast (Act.account (σ := σ) e answer) := by
  cases answer with
  | ok => exact pure _
  | error error => exact (element e).bind fun _ => (message _ (pure _)).bind fun _ => pure _

theorem turn (s : SchedulerId) (e : ElementId) : Steadfast (Act.turn (σ := σ) s e) :=
  holding _ ((record _).bind fun _ => (enterUpdate e).bind fun _ => (record _).bind fun _ => account e _)

theorem turnIfAlive (s : SchedulerId) (e : ElementId) : Steadfast (Act.turnIfAlive (σ := σ) s e) := by
  refine (alive e).bind fun living => ?_
  split
  · exact turn s e
  · exact (record _).bind fun _ => (message _ (pure _)).bind fun _ => pure _

theorem turns (s : SchedulerId) (n : Nat) :
    ∀ report, Steadfast (Act.turns (σ := σ) s n report) := by
  induction n with
  | zero => exact fun _ => pure _
  | succ n ih =>
    intro report
    refine (next s).bind fun e => ?_
    cases e with
    | none => exact pure _
    | some e => exact (turnIfAlive s e).bind fun _ => ih _

theorem runBatch (s : SchedulerId) : Steadfast (Act.runBatch (σ := σ) s) := by
  refine (begin s).bind fun answer => ?_
  obtain ⟨waiters, n⟩ := answer
  exact (turns s n .zero).bind fun _ => (forM (tell .done) waiters).bind fun _ =>
    (message _ (pure _)).bind fun _ => pure _

theorem pump (s : SchedulerId) (batches : Nat) : Steadfast (Act.pump (σ := σ) s batches) := by
  induction batches with
  | zero => exact pure _
  | succ batches ih =>
    refine (takeFrame s).bind fun asked => ?_
    split
    · exact (runBatch s).bind fun _ => ih.bind fun _ => pure _
    · exact pure _

theorem close (s : SchedulerId) : Steadfast (Act.close (σ := σ) s) :=
  (scheduler s).bind fun _ => (updateScheduler s _).bind fun _ => (record _).bind fun _ =>
    forM (tell .canceled) _

/-! ### Scripts -/

/-- Requests are carried out in the same way. -/
theorem perform (r : Request) : Steadfast (Act.perform (σ := σ) r) := by
  cases r with
  | arrayItems | fields | receiver | journal => exact get.bind fun _ => pure _
  | find e name => exact living e (get.bind fun _ => pure _)
  | setItems | setFields | dropReceiver => exact modify _
  | newArray items => exact newArray items
  | newRecord fields => exact newRecord fields
  | load value => exact load value
  | items v => exact items v
  | getOwn v key => exact getOwn v key
  | keys o => exact keys o
  | setOwn o key v => exact setOwn o key v
  | apply f receiver args => exact apply f receiver args
  | text v => exact text v
  | inspect v => exact inspect v
  | lookup name context => exact lookup name context
  | compileExpression src => exact compileExpression src
  | compileSource value => exact compileSource value
  | resolve resolver context => exact resolve context resolver
  | compileView template => exact compileView template
  | build view context factory => exact build view context factory
  | make factory tag => exact make factory tag
  | newElement tag component context => exact newElement tag component context
  | element e => exact living e (element e)
  | contextOf e => exact living e (contextOf e)
  | getAttribute e name => exact living e (getAttribute e name)
  | attributes e => exact living e ((componentOf e).bind fun _ => readAttributes _)
  | setAttribute e name v => exact living e (setAttribute e name v)
  | addListener e event handler => exact living e (addListener e event handler)
  | listeners e event => exact living e (listeners e event)
  | dispatch e event v => exact living e (dispatch e event v)
  | handle handler event => exact handle handler event
  | appendChild e child => exact living e (living child (appendChild e child))
  | removeChild e child => exact living e (living child (removeChild e child))
  | clearChildren e => exact living e (clearChildren e)
  | setUpdater e updater => exact living e (setUpdater e updater)
  | update e => exact living e (update e)
  | outline e => exact living e (outline e)
  | hold e => exact living e (hold [e])
  | release e => exact release [e]
  | alive e => exact alive e
  | newScheduler => exact modifyGet _
  | scheduler s => exact scheduler s
  | close s => exact close s
  | request s e => exact living e (request s e)
  | cancel s e => exact living e (cancel s e)
  | runBatch s => exact runBatch s
  | pump s batches => exact pump s batches
  | takeFrame s => exact takeFrame s
  | message level text => exact message level (pure text)
  | mark number => exact record _

theorem run (script : Script σ α) : Steadfast (Act.run script) := by
  induction script with
  | done a => exact pure a
  | ask r next ih => exact (perform r).bind ih
  | memory next ih => exact get.bind fun w => ih w.host
  | remember s next ih => exact (modify _).bind fun _ => ih
  | hang => exact never

/-- What a call that is entered does. -/
theorem body (host : Host σ) (call : Call) : Steadfast (call.body host) := by
  cases call with
  | host call => exact run _
  | update e => exact update e
  | inspect v => exact inspect v

end Steadfast

/-- **Depth.** A call that is answered is answered in the same way when calls may be nested deeper. -/
theorem Host.enter_deepens (host : Host σ) {depth depth' : Nat} (hle : depth ≤ depth') :
    Deepens (host.enter depth) (host.enter depth') := by
  induction depth generalizing depth' with
  | zero => exact fun _ _ _ _ hnever => by cases hnever
  | succ depth ih =>
    obtain ⟨n, rfl⟩ := Nat.exists_eq_add_of_le' (Nat.one_le_of_lt hle)
    exact fun call _ _ _ hrun => (Steadfast.body host call).lasts (ih (Nat.le_of_succ_le_succ hle)) hrun

end ReactiveViews
