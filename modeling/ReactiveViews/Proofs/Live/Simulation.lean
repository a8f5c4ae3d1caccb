import ReactiveViews.Proofs.Live.Effects

/-!
# Two runs side by side

Two acts are run in two worlds. They *answer alike* if both answer or neither does, and the answers
are related. What it is for worlds and values to be related is left open: a *bond* says it, and says
what a pair of related worlds may become.

An expression asks the scopes for the names at the beginning of its chains and for nothing else, and
takes from elsewhere only its constants and what functions and objects of the host program answer. So
two evaluations of it are related as soon as these are, whatever the bond is.

A name that is called as soon as it has been looked up is called for the scope that owns it. If two
contexts have their own scopes for some names, which are not related, such names must not be called in
this way; they are *loose*.

## What is proved

Acts that mimic each other can be put together (`Bond.Mimics.bind`, `Bond.Mimics.bindE`), and
expressions have related values in contexts that can be read in the same way (`Bond.Reads.resolve`,
`Bond.Reads.shows`).
-/

namespace ReactiveViews

variable {σ α β γ δ ε ε' : Type}

/-! ### Answers -/

/-- Both answer, or neither does. -/
inductive Answers (Q : α → β → World σ → World σ → Prop) :
    Option α × World σ → Option β × World σ → Prop where
  /-- Both answer. -/
  | both {a : α} {b : β} {w s : World σ} : Q a b w s → Answers Q (some a, w) (some b, s)
  /-- Neither answers. -/
  | neither (w s : World σ) : Answers Q (none, w) (none, s)

theorem Answers.imp {Q R : α → β → World σ → World σ → Prop} {x : Option α × World σ}
    {y : Option β × World σ} (h : Answers Q x y) (hQR : ∀ a b w s, Q a b w s → R a b w s) :
    Answers R x y := by
  cases h with
  | both hQ => exact .both (hQR _ _ _ _ hQ)
  | neither w s => exact .neither w s

theorem Answers.bind {Q : α → β → World σ → World σ → Prop} {R : γ → δ → World σ → World σ → Prop}
    {enter enter' : Enter σ} {w s : World σ} {act : Act σ α} {act' : Act σ β} {f : α → Act σ γ}
    {g : β → Act σ δ} (h : Answers Q (act.runIn enter w) (act'.runIn enter' s))
    (hfg : ∀ a b w' s', act.runIn enter w = (some a, w') → Q a b w' s' →
      Answers R ((f a).runIn enter w') ((g b).runIn enter' s')) :
    Answers R ((act >>= f).runIn enter w) ((act' >>= g).runIn enter' s) := by
  rw [Act.runIn_bind, Act.runIn_bind]
  revert hfg h
  rcases act.runIn enter w with ⟨_ | a, w'⟩ <;> rcases act'.runIn enter' s with ⟨_ | b, s'⟩
  · exact fun _ _ => .neither _ _
  · exact fun h => by cases h
  · exact fun h => by cases h
  · intro h hfg
    cases h with
    | both hQ => exact hfg a b w' s' rfl hQ

/-- Related results: both are there, or both are missing. -/
inductive Outcomes (Q : α → β → Prop) : Except ε α → Except ε' β → Prop where
  /-- Both are there. -/
  | ok {a : α} {b : β} : Q a b → Outcomes Q (.ok a) (.ok b)
  /-- Both have failed. -/
  | error (e : ε) (e' : ε') : Outcomes Q (.error e) (.error e')

theorem Outcomes.imp {Q R : α → β → Prop} {x : Except ε α} {y : Except ε' β} (h : Outcomes Q x y)
    (hQR : ∀ a b, Q a b → R a b) : Outcomes R x y := by
  cases h with
  | ok hQ => exact .ok (hQR _ _ hQ)
  | error e e' => exact .error e e'

/-- Both have succeeded, with related answers and worlds, or both have failed. -/
def Tally (Q : α → β → World σ → World σ → Prop) (x : Except ε α) (y : Except ε' β)
    (w s : World σ) : Prop :=
  Outcomes (fun a b => Q a b w s) x y

theorem Answers.bindE {Q : α → β → World σ → World σ → Prop} {R : γ → δ → World σ → World σ → Prop}
    {enter enter' : Enter σ} {w s : World σ} {act : ExceptT ε (Act σ) α} {act' : ExceptT ε' (Act σ) β}
    {f : α → ExceptT ε (Act σ) γ} {g : β → ExceptT ε' (Act σ) δ}
    (h : Answers (Tally Q) (act.run.runIn enter w) (act'.run.runIn enter' s))
    (hfg : ∀ a b w' s', Q a b w' s' →
      Answers (Tally R) ((f a).run.runIn enter w') ((g b).run.runIn enter' s')) :
    Answers (Tally R) ((act >>= f).run.runIn enter w) ((act' >>= g).run.runIn enter' s) := by
  rw [ExceptT.run_bind, ExceptT.run_bind]
  refine Answers.bind h ?_
  rintro x y w' s' - hxy
  cases hxy with
  | ok hQ => exact hfg _ _ w' s' hQ
  | error e e' => exact .both (.error e e')

/-! ### Bonds -/

/-- What is related in two runs. -/
structure Bond (σ : Type) where
  /-- What is known of the two runs so far. -/
  Index : Type
  /-- The worlds are related. -/
  Meets : Index → World σ → World σ → Prop
  /-- The values are related. -/
  Values : Index → Value → Value → Prop
  /-- What related worlds may become. -/
  Goes : Index → Index → World σ → World σ → World σ → World σ → Prop
  /-- They may stay what they are. -/
  refl : ∀ {i : Index} {w s : World σ}, Meets i w s → Goes i i w w s s
  /-- They may become something else again. -/
  trans : ∀ {i j k : Index} {w w' w'' s s' s'' : World σ}, Goes i j w w' s s' →
    Goes j k w' w'' s' s'' → Goes i k w w'' s s''
  /-- They stay related. -/
  meets : ∀ {i j : Index} {w w' s s' : World σ}, Goes i j w w' s s' → Meets j w' s'
  /-- Related values stay related. -/
  values : ∀ {i j : Index} {w w' s s' : World σ} {v v' : Value}, Goes i j w w' s s' →
    Values i v v' → Values j v v'
  /-- No value stands for itself. -/
  undefined : ∀ i : Index, Values i .undefined .undefined
  /-- A text stands for itself. -/
  str : ∀ (i : Index) (text : String), Values i (.str text) (.str text)
  /-- Related values count as true or false together. -/
  truthy : ∀ {i : Index} {v v' : Value}, Values i v v' → v.truthy = v'.truthy
  /-- A function stands for itself alone. -/
  function : ∀ {i : Index} {v v' : Value}, Values i v v' →
    ∀ f, v = .function f ↔ v' = .function f

namespace Bond

variable {B : Bond σ} {enter : Enter σ} {i j : B.Index} {w s : World σ}

/-- Both acts answer or neither does, with related answers, and the worlds become what they may. -/
def Mimics (B : Bond σ) (enter : Enter σ) (V : B.Index → α → β → Prop) (i : B.Index)
    (w s : World σ) (act : Act σ α) (act' : Act σ β) : Prop :=
  Answers (fun a b w' s' => ∃ j, B.Goes i j w w' s s' ∧ V j a b) (act.runIn enter w)
    (act'.runIn enter s)

namespace Mimics

variable {V : B.Index → α → β → Prop} {U : B.Index → γ → δ → Prop}

theorem pure (h : B.Meets i w s) {a : α} {b : β} (hV : V i a b) :
    B.Mimics enter V i w s (Pure.pure a) (Pure.pure b) := .both ⟨i, B.refl h, hV⟩

theorem bind {act : Act σ α} {act' : Act σ β} {f : α → Act σ γ} {g : β → Act σ δ}
    (h : B.Mimics enter V i w s act act')
    (hfg : ∀ j w' s' a b, B.Goes i j w w' s s' → V j a b → B.Mimics enter U j w' s' (f a) (g b)) :
    B.Mimics enter U i w s (act >>= f) (act' >>= g) := by
  refine Answers.bind h ?_
  rintro a b w' s' - ⟨j, hgoes, hV⟩
  exact (hfg j w' s' a b hgoes hV).imp fun c d w₂ s₂ ⟨k, hgoes', hU⟩ =>
    ⟨k, B.trans hgoes hgoes', hU⟩

theorem map {act : Act σ α} {act' : Act σ β} {f : α → γ} {g : β → δ}
    (h : B.Mimics enter V i w s act act') (hfg : ∀ j a b, V j a b → U j (f a) (g b)) :
    B.Mimics enter U i w s (f <$> act) (g <$> act') := by
  rw [map_eq_pure_bind, map_eq_pure_bind]
  exact h.bind fun j w' s' a b hgoes hV => .pure (B.meets hgoes) (hfg j a b hV)

theorem pureE (h : B.Meets i w s) {a : α} {b : β} (hV : V i a b) :
    B.Mimics enter (fun j => Outcomes (V j)) i w s (Pure.pure a : ExceptT ε (Act σ) α).run
      (Pure.pure b : ExceptT ε' (Act σ) β).run :=
  .pure h (.ok hV)

theorem throwE (h : B.Meets i w s) (e : ε) (e' : ε') :
    B.Mimics enter (fun j => Outcomes (V j)) i w s (throw e : ExceptT ε (Act σ) α).run
      (throw e' : ExceptT ε' (Act σ) β).run :=
  .pure h (.error e e')

theorem bindE {act : ExceptT ε (Act σ) α} {act' : ExceptT ε' (Act σ) β}
    {f : α → ExceptT ε (Act σ) γ} {g : β → ExceptT ε' (Act σ) δ}
    (h : B.Mimics enter (fun j => Outcomes (V j)) i w s act.run act'.run)
    (hfg : ∀ j w' s' a b, B.Goes i j w w' s s' → V j a b →
      B.Mimics enter (fun j => Outcomes (U j)) j w' s' (f a).run (g b).run) :
    B.Mimics enter (fun j => Outcomes (U j)) i w s (act >>= f).run (act' >>= g).run := by
  rw [ExceptT.run_bind, ExceptT.run_bind]
  refine h.bind fun j w' s' x y hgoes hxy => ?_
  cases hxy with
  | ok hV => exact hfg j w' s' _ _ hgoes hV
  | error e e' => exact .pure (B.meets hgoes) (.error e e')

theorem liftE {act : Act σ α} {act' : Act σ β}
    (h : B.Mimics enter V i w s act act') :
    B.Mimics enter (fun j => Outcomes (V j)) i w s (ExceptT.lift act : ExceptT ε (Act σ) α).run
      (ExceptT.lift act' : ExceptT ε' (Act σ) β).run :=
  h.map fun _ _ _ => .ok

theorem eval {act : Act σ (Except EvalError α)} {act' : Act σ (Except EvalError β)}
    (h : B.Mimics enter (fun j => Outcomes (V j)) i w s act act') :
    B.Mimics enter (fun j => Outcomes (V j)) i w s (Build.eval act).run (Build.eval act').run :=
  h.map fun _ _ _ hxy => by
    cases hxy with
    | ok hV => exact .ok hV
    | error e e' => exact .error _ _

theorem tally {act : ExceptT ε (Act σ) α} {act' : ExceptT ε' (Act σ) β}
    (h : B.Mimics enter (fun j => Outcomes (V j)) i w s act.run act'.run) :
    Answers (Tally fun a b w' s' => ∃ j, B.Goes i j w w' s s' ∧ V j a b) (act.run.runIn enter w)
      (act'.run.runIn enter s) :=
  Answers.imp h fun _ _ _ _ ⟨j, hgoes, hxy⟩ => hxy.imp fun _ _ hV => ⟨j, hgoes, hV⟩

end Mimics

end Bond

/-! ### What an expression asks for -/

mutual

/-- The names that a step looks up. -/
def Step.names : Step → List String
  | .lookup name => [name]
  | .constant _ | .property _ => []
  | .index chain => Step.namesIn chain
  | .array items => Step.namesAmong items
  | .call args => Step.namesAmong args

/-- The names that the steps of a chain look up. -/
def Step.namesIn : List Step → List String
  | [] => []
  | s :: rest => s.names ++ Step.namesIn rest

/-- The names that the steps of several chains look up. -/
def Step.namesAmong : List (List Step) → List String
  | [] => []
  | chain :: rest => Step.namesIn chain ++ Step.namesAmong rest

end

mutual

/-- The constants of a step. -/
def Step.constants : Step → List Value
  | .lookup _ => []
  | .constant v | .property v => [v]
  | .index chain => Step.constantsIn chain
  | .array items => Step.constantsAmong items
  | .call args => Step.constantsAmong args

/-- The constants in the steps of a chain. -/
def Step.constantsIn : List Step → List Value
  | [] => []
  | s :: rest => s.constants ++ Step.constantsIn rest

/-- The constants in the steps of several chains. -/
def Step.constantsAmong : List (List Step) → List Value
  | [] => []
  | chain :: rest => Step.constantsIn chain ++ Step.constantsAmong rest

end

/-- Whether a step is a call. -/
def Step.isCall : Step → Bool
  | .call _ => true
  | _ => false

/-- The name that a step looks up, if the steps after it begin with a call. -/
def Step.calledBy (rest : List Step) : Step → List String
  | .lookup name => if rest.head?.any Step.isCall then [name] else []
  | _ => []

mutual

/-- The names that are called as soon as they have been looked up, inside of a step. -/
def Step.callees : Step → List String
  | .lookup _ | .constant _ | .property _ => []
  | .index chain => Step.calleesIn chain
  | .array items => Step.calleesAmong items
  | .call args => Step.calleesAmong args

/-- The names that are called as soon as they have been looked up, in the steps of a chain. -/
def Step.calleesIn : List Step → List String
  | [] => []
  | s :: rest => s.callees ++ s.calledBy rest ++ Step.calleesIn rest

/-- The names that are called as soon as they have been looked up, in the steps of several chains. -/
def Step.calleesAmong : List (List Step) → List String
  | [] => []
  | chain :: rest => Step.calleesIn chain ++ Step.calleesAmong rest

end

theorem Step.calledBy_subset (rest : List Step) (s : Step) : s.calledBy rest ⊆ s.names := by
  cases s with
  | lookup name =>
    rw [Step.calledBy, Step.names]
    split <;> simp
  | _ => exact List.nil_subset _

mutual

theorem Step.callees_subset : (s : Step) → s.callees ⊆ s.names
  | .lookup _ | .constant _ | .property _ => List.nil_subset _
  | .index chain => Step.calleesIn_subset chain
  | .array items => Step.calleesAmong_subset items
  | .call args => Step.calleesAmong_subset args

theorem Step.calleesIn_subset : (chain : List Step) → Step.calleesIn chain ⊆ Step.namesIn chain
  | [] => List.nil_subset _
  | s :: rest => List.append_subset.mpr
      ⟨List.Subset.trans (List.append_subset.mpr ⟨Step.callees_subset s, s.calledBy_subset rest⟩)
        (List.subset_append_left _ _),
      List.Subset.trans (Step.calleesIn_subset rest) (List.subset_append_right _ _)⟩

theorem Step.calleesAmong_subset :
    (chains : List (List Step)) → Step.calleesAmong chains ⊆ Step.namesAmong chains
  | [] => List.nil_subset _
  | chain :: rest => List.append_subset.mpr
      ⟨List.Subset.trans (Step.calleesIn_subset chain) (List.subset_append_left _ _),
        List.Subset.trans (Step.calleesAmong_subset rest) (List.subset_append_right _ _)⟩

end

namespace Part

/-- The names that the expression of a part looks up. -/
def names : Part → List String
  | .plain _ => []
  | .chain c => Step.namesIn c.steps

/-- The constants of the expression of a part. -/
def constants : Part → List Value
  | .plain _ => []
  | .chain c => Step.constantsIn c.steps

/-- The names that the expression of a part calls as soon as it has looked them up. -/
def callees : Part → List String
  | .plain _ => []
  | .chain c => Step.calleesIn c.steps

end Part

namespace Resolver

/-- The names that the expressions of a directive look up. -/
def names : Resolver → List String
  | .text parts => parts.flatMap Part.names
  | .constant _ => []

/-- The constants of a directive. -/
def constants : Resolver → List Value
  | .text parts => parts.flatMap Part.constants
  | .constant v => [v]

/-- The names that the expressions of a directive call as soon as they have looked them up. -/
def callees : Resolver → List String
  | .text parts => parts.flatMap Part.callees
  | .constant _ => []

/-- What is called has been looked up. -/
theorem callees_subset (r : Resolver) : r.callees ⊆ r.names := by
  cases r with
  | constant v => exact List.nil_subset _
  | text parts =>
    intro name hname
    obtain ⟨p, hp, hcallee⟩ := List.mem_flatMap.mp hname
    refine List.mem_flatMap.mpr ⟨p, hp, ?_⟩
    cases p with
    | plain _ => cases hcallee
    | chain c => exact Step.calleesIn_subset c.steps hcallee

end Resolver

/-! ### Contexts that are read in the same way -/

namespace Bond

variable {B : Bond σ}

/-- In related worlds of a kind, two contexts answer alike when they are asked for some of the names,
and so do functions and objects of the host program. The scopes that own loose names need not be
related. -/
structure Reads (B : Bond σ) (enter : Enter σ) (At : B.Index → World σ → World σ → Prop)
    (C C' : Context) (names loose : List String) (Known : Value → Prop) : Prop where
  /-- The worlds are related. -/
  meets : ∀ {i : B.Index} {w s : World σ}, At i w s → B.Meets i w s
  /-- What they may become are worlds of the kind. -/
  goes : ∀ {i j : B.Index} {w w' s s' : World σ}, B.Goes i j w w' s s' → At i w s → At j w' s'
  /-- Values that are known stand for themselves. -/
  known : ∀ {i : B.Index} {w s : World σ} {v : Value}, At i w s → Known v → B.Values i v v
  /-- A name is looked up. -/
  lookup : ∀ {i : B.Index} {w s : World σ} {name : String}, At i w s → name ∈ names →
    B.Mimics enter (fun j => Option.Rel fun x y => B.Values j x.2 y.2 ∧
        (name ∈ loose ∨ B.Values j x.1 y.1 ∨ ∀ f, x.2 ≠ .function f)) i w s
      (Act.lookup name C) (Act.lookup name C')
  /-- A property is read. -/
  keyed : ∀ {i : B.Index} {w s : World σ} {v v' key key' : Value}, At i w s → B.Values i v v' →
    B.Values i key key' → B.Mimics enter B.Values i w s (Act.getKeyed v key) (Act.getKeyed v' key')
  /-- An array is made. -/
  newArray : ∀ {i : B.Index} {w s : World σ} {items items' : List Value}, At i w s →
    List.Forall₂ (B.Values i) items items' →
    B.Mimics enter B.Values i w s (Act.newArray items) (Act.newArray items')
  /-- A function is applied. -/
  apply : ∀ {i : B.Index} {w s : World σ} (f : Function) {v v' : Value} {args args' : List Value},
    At i w s → B.Values i v v' → List.Forall₂ (B.Values i) args args' →
    B.Mimics enter (fun j => Outcomes (B.Values j)) i w s (Act.apply f v args) (Act.apply f v' args')
  /-- The text of a value is taken. -/
  text : ∀ {i : B.Index} {w s : World σ} {v v' : Value}, At i w s → B.Values i v v' →
    B.Mimics enter (fun _ => Eq) i w s (Act.text v) (Act.text v')

/-- Related registers; before a call for which the receiver matters, it is related as well. -/
structure Registers (B : Bond σ) (i : B.Index) (matters : Prop) (r r' : ReactiveViews.Registers) :
    Prop where
  /-- The value so far. -/
  current : B.Values i r.current r'.current
  /-- What a call would be made for, unless there is nothing that can be called. -/
  receiver : matters → B.Values i r.receiver r'.receiver ∨ ∀ f, r.current ≠ .function f

namespace Registers

variable {i : B.Index} {matters : Prop} {r r' : ReactiveViews.Registers}

theorem start (B : Bond σ) (i : B.Index) (matters : Prop) : B.Registers i matters .start .start :=
  ⟨B.undefined i, fun _ => .inl (B.undefined i)⟩

theorem of_current {v v' : Value} (h : B.Values i v v') :
    B.Registers i matters ⟨.undefined, v⟩ ⟨.undefined, v'⟩ := ⟨h, fun _ => .inl (B.undefined i)⟩

theorem goes {j : B.Index} {w w' s s' : World σ} (h : B.Registers i matters r r')
    (hgoes : B.Goes i j w w' s s') : B.Registers j matters r r' :=
  ⟨B.values hgoes h.current, fun hmatters => (h.receiver hmatters).imp_left (B.values hgoes)⟩

theorem imp {matters' : Prop} (h : B.Registers i matters r r') (himp : matters' → matters) :
    B.Registers i matters' r r' := ⟨h.current, fun h' => h.receiver (himp h')⟩

end Registers

namespace Reads

variable {enter : Enter σ} {At : B.Index → World σ → World σ → Prop} {C C' : Context}
  {names loose : List String} {Known : Value → Prop}

theorem applyE (h : B.Reads enter At C C' names loose Known) {i : B.Index} {w s : World σ}
    (hAt : At i w s) (expr : String) {r r' : ReactiveViews.Registers} (hr : B.Registers i True r r')
    {args args' : List Value} (hargs : List.Forall₂ (B.Values i) args args') :
    B.Mimics enter (fun j => Outcomes (B.Registers j True)) i w s (Eval.apply expr r args).run
      (Eval.apply expr r' args').run := by
  obtain ⟨receiver, current⟩ := r
  obtain ⟨receiver', current'⟩ := r'
  obtain ⟨hcurrent, hreceiver⟩ := hr
  dsimp only at hcurrent hreceiver
  by_cases hf : ∃ f, current = .function f
  · obtain ⟨f, rfl⟩ := hf
    obtain rfl := (B.function hcurrent f).mp rfl
    have hreceiver := (hreceiver trivial).resolve_right fun hnot => hnot f rfl
    refine Mimics.bindE (h.apply f hAt hreceiver hargs) fun j w' s' v v' hgoes hv => ?_
    exact .pureE (B.meets hgoes) (.of_current hv)
  · have hf' : ¬ ∃ f, current' = .function f := fun ⟨f, hf'⟩ => hf ⟨f, (B.function hcurrent f).mpr hf'⟩
    have hthrows : ∀ {receiver current : Value} (args : List Value), (¬ ∃ f, current = .function f) →
        Eval.apply (σ := σ) expr ⟨receiver, current⟩ args =
          throw (.notCallable expr current.typeName) := by
      intro receiver current args hnot
      cases current with
      | function f => exact (hnot ⟨f, rfl⟩).elim
      | _ => rfl
    rw [hthrows args hf, hthrows args' hf']
    exact .throwE (h.meets hAt) _ _

mutual

theorem step (h : B.Reads enter At C C' names loose Known) (expr : String) {i : B.Index}
    {w s : World σ} (hAt : At i w s) {r r' : ReactiveViews.Registers} :
    (x : Step) → B.Registers i x.isCall r r' → x.names ⊆ names → (∀ name ∈ x.callees, name ∉ loose) →
      (∀ v ∈ x.constants, Known v) →
      B.Mimics enter (fun j => Outcomes (B.Registers j (∀ name ∈ loose, x ≠ .lookup name))) i w s
        (Eval.step C expr r x).run (Eval.step C' expr r' x).run
  | .lookup name, _, hnames, _, _ => by
    refine Mimics.bindE (.liftE (h.lookup hAt (hnames (by simp [Step.names])))) ?_
    intro j w' s' a b hgoes hab
    cases hab with
    | none => exact .pureE (B.meets hgoes) (.start B j _)
    | some hxy =>
      refine .pureE (B.meets hgoes) ⟨hxy.1, fun htight => hxy.2.resolve_left fun hloose => ?_⟩
      exact htight name hloose rfl
  | .constant v, _, _, _, hv =>
    .pureE (h.meets hAt) (.of_current (h.known hAt (hv v (by simp [Step.constants]))))
  | .property key, hr, _, _, hv => by
    have hkey := h.known hAt (hv key (by simp [Step.constants]))
    refine Mimics.bindE (.liftE (h.keyed hAt hr.current hkey)) ?_
    intro j w' s' a b hgoes hab
    exact .pureE (B.meets hgoes) ⟨hab, fun _ => .inl (B.values hgoes hr.current)⟩
  | .index chain, hr, hnames, hcallees, hv => by
    refine Mimics.bindE (steps h expr hAt chain (.start B i _) hnames hcallees hv) ?_
    intro j w₁ s₁ key key' hgoes hkey
    have hAt₁ := h.goes hgoes hAt
    have hcurrent := B.values hgoes hr.current
    refine Mimics.bindE (.liftE (h.keyed hAt₁ hcurrent hkey.current)) ?_
    intro k w₂ s₂ a b hgoes' hab
    exact .pureE (B.meets hgoes') ⟨hab, fun _ => .inl (B.values hgoes' hcurrent)⟩
  | .array items, _, hnames, hcallees, hv => by
    refine Mimics.bindE (all h expr hAt items hnames hcallees hv) ?_
    intro j w₁ s₁ values values' hgoes hvalues
    have hAt₁ := h.goes hgoes hAt
    refine Mimics.bindE (.liftE (h.newArray hAt₁ hvalues)) ?_
    intro k w₂ s₂ a b hgoes' hab
    exact .pureE (B.meets hgoes') (.of_current hab)
  | .call args, hr, hnames, hcallees, hv => by
    have hr : B.Registers i True r r' := hr.imp fun _ => rfl
    refine Mimics.bindE (all h expr hAt args hnames hcallees hv) ?_
    intro j w₁ s₁ values values' hgoes hvalues
    refine Answers.imp (h.applyE (h.goes hgoes hAt) expr (hr.goes hgoes) hvalues) ?_
    rintro a b w₂ s₂ ⟨k, hgoes', hab⟩
    exact ⟨k, hgoes', hab.imp fun _ _ hregisters => hregisters.imp fun _ => trivial⟩

theorem steps (h : B.Reads enter At C C' names loose Known) (expr : String) {i : B.Index}
    {w s : World σ} (hAt : At i w s) {r r' : ReactiveViews.Registers} :
    (chain : List Step) → B.Registers i (chain.head?.any Step.isCall) r r' →
      Step.namesIn chain ⊆ names → (∀ name ∈ Step.calleesIn chain, name ∉ loose) →
      (∀ v ∈ Step.constantsIn chain, Known v) →
      B.Mimics enter (fun j => Outcomes (B.Registers j False)) i w s (Eval.steps C expr r chain).run
        (Eval.steps C' expr r' chain).run
  | [], hr, _, _, _ => .pureE (h.meets hAt) (hr.imp False.elim)
  | x :: rest, hr, hnames, hcallees, hv => by
    rw [Step.namesIn, List.append_subset] at hnames
    simp only [Step.calleesIn, Step.constantsIn, List.mem_append] at hcallees hv
    refine Mimics.bindE (step h expr hAt x hr hnames.1
      (fun name hname => hcallees name (.inl (.inl hname))) fun v hmem => hv v (.inl hmem)) ?_
    intro j w₁ s₁ r₁ r₁' hgoes hr₁
    refine steps h expr (h.goes hgoes hAt) rest (hr₁.imp fun hcall name hname => ?_) hnames.2
      (fun name hname => hcallees name (.inr hname)) fun v hmem => hv v (.inr hmem)
    rintro rfl
    -- a name that has just been looked up is called
    exact hcallees name (.inl (.inr (by rw [Step.calledBy, if_pos hcall]; exact List.mem_singleton_self _)))
      hname

theorem all (h : B.Reads enter At C C' names loose Known) (expr : String) {i : B.Index}
    {w s : World σ} (hAt : At i w s) :
    (chains : List (List Step)) → Step.namesAmong chains ⊆ names →
      (∀ name ∈ Step.calleesAmong chains, name ∉ loose) →
      (∀ v ∈ Step.constantsAmong chains, Known v) →
      B.Mimics enter (fun j => Outcomes (List.Forall₂ (B.Values j))) i w s
        (Eval.all C expr chains).run (Eval.all C' expr chains).run
  | [], _, _, _ => .pureE (h.meets hAt) .nil
  | chain :: rest, hnames, hcallees, hv => by
    rw [Step.namesAmong, List.append_subset] at hnames
    simp only [Step.calleesAmong, Step.constantsAmong, List.mem_append] at hcallees hv
    refine Mimics.bindE (steps h expr hAt chain (.start B i _) hnames.1
      (fun name hname => hcallees name (.inl hname)) fun v hmem => hv v (.inl hmem)) ?_
    intro j w₁ s₁ r r' hgoes hr
    have hAt₁ := h.goes hgoes hAt
    refine Mimics.bindE (all h expr hAt₁ rest hnames.2
      (fun name hname => hcallees name (.inr hname)) fun v hmem => hv v (.inr hmem)) ?_
    intro k w₂ s₂ values values' hgoes' hvalues
    exact .pureE (B.meets hgoes') (.cons (B.values hgoes' hr.current) hvalues)

end

section

variable {i : B.Index} {w s : World σ}

theorem part (h : B.Reads enter At C C' names loose Known) (hAt : At i w s) (p : Part)
    (hnames : p.names ⊆ names) (hcallees : ∀ name ∈ p.callees, name ∉ loose)
    (hv : ∀ v ∈ p.constants, Known v) :
    B.Mimics enter (fun j => Outcomes (B.Values j)) i w s (Eval.part C p).run
      (Eval.part C' p).run := by
  cases p with
  | plain text => exact .pureE (h.meets hAt) (B.str i text)
  | chain c =>
    refine Mimics.bindE (h.steps c.expr hAt c.steps (.start B i _) hnames hcallees hv) ?_
    intro j w₁ s₁ r r' hgoes hr
    exact .pureE (B.meets hgoes) hr.current

theorem joined (h : B.Reads enter At C C' names loose Known) (hAt : At i w s) (parts : List Part)
    (hnames : parts.flatMap Part.names ⊆ names)
    (hcallees : ∀ name ∈ parts.flatMap Part.callees, name ∉ loose)
    (hv : ∀ v ∈ parts.flatMap Part.constants, Known v) :
    B.Mimics enter (fun _ => Outcomes Eq) i w s (Eval.joined C parts).run
      (Eval.joined C' parts).run := by
  induction parts generalizing i w s with
  | nil => exact .pureE (V := fun _ => Eq) (h.meets hAt) rfl
  | cons p rest ih =>
    rw [List.flatMap_cons, List.append_subset] at hnames
    simp only [List.flatMap_cons, List.mem_append] at hcallees hv
    refine Mimics.bindE (h.part hAt p hnames.1
      (fun name hname => hcallees name (.inl hname)) fun v hmem => hv v (.inl hmem)) ?_
    intro j w₁ s₁ v v' hgoes hvalue
    have hAt₁ := h.goes hgoes hAt
    refine Mimics.bindE (.liftE (h.text hAt₁ hvalue)) ?_
    intro k w₂ s₂ t t' hgoes' ht
    have hAt₂ := h.goes hgoes' hAt₁
    refine Mimics.bindE (ih hAt₂ hnames.2
      (fun name hname => hcallees name (.inr hname)) fun v hmem => hv v (.inr hmem)) ?_
    intro l w₃ s₃ more more' hgoes'' hmore
    exact .pureE (V := fun _ => Eq) (B.meets hgoes'') (by rw [ht, hmore])

/-- A directive has related values. -/
theorem resolve (h : B.Reads enter At C C' names loose Known) (hAt : At i w s) (resolver : Resolver)
    (hnames : resolver.names ⊆ names) (hcallees : ∀ name ∈ resolver.callees, name ∉ loose)
    (hv : ∀ v ∈ resolver.constants, Known v) :
    B.Mimics enter (fun j => Outcomes (B.Values j)) i w s (Eval.resolve C resolver).run
      (Eval.resolve C' resolver).run := by
  unfold Eval.resolve
  split
  · next v => exact .pureE (h.meets hAt) (h.known hAt (hv v (by simp [Resolver.constants])))
  · next p =>
    exact h.part hAt p (by simpa [Resolver.names] using hnames)
      (by simpa [Resolver.callees] using hcallees) (by simpa [Resolver.constants] using hv)
  · next parts _ =>
    refine Mimics.bindE (h.joined hAt parts hnames hcallees hv) ?_
    rintro j w₁ s₁ t t' hgoes rfl
    exact .pureE (B.meets hgoes) (B.str j t)

/-- A node is shown in both contexts or in neither. -/
theorem shows (h : B.Reads enter At C C' names loose Known) (hAt : At i w s) (node : Node Resolver)
    (hnames : ∀ condition ∈ node.condition, condition.names ⊆ names)
    (hcallees : ∀ condition ∈ node.condition, ∀ name ∈ condition.callees, name ∉ loose)
    (hv : ∀ condition ∈ node.condition, ∀ v ∈ condition.constants, Known v) :
    B.Mimics enter (fun _ => Outcomes Eq) i w s (Eval.shows C node).run (Eval.shows C' node).run := by
  unfold Eval.shows
  split
  · next condition hcondition =>
    refine Mimics.bindE (h.resolve hAt condition (hnames _ hcondition)
      (hcallees _ hcondition) (hv _ hcondition)) ?_
    intro j w₁ s₁ v v' hgoes hvalue
    exact .pureE (V := fun _ => Eq) (B.meets hgoes) (B.truthy hvalue)
  · exact .pureE (V := fun _ => Eq) (h.meets hAt) rfl

end

end Reads

end Bond

end ReactiveViews
