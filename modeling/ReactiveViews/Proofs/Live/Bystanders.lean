import ReactiveViews.Proofs.Live.Selectors
import ReactiveViews.Proofs.Live.Simulation

/-!
# Scopes that stand by

A scope that owns none of the names that an expression looks up, or owns them without a defined value, does
not matter to it: the expression has the same value, or fails in the same way, and does the same things in
the same order, if the scope is taken out of the context. This is so wherever the scope stands.

## The model

The `Contact`s of an evaluation are its dealings with values, each with the world at that moment: it asks the
scopes of the context for names, it selects properties, and it calls functions. `Eval.contacts` lists them as
they come, also if the evaluation fails or never ends. What is required of a scope is required of the
moments at which it is asked; a scope that can be changed may own what it likes before and after.

## What is proved

What an evaluation comes to depends on the answers to its contacts and on nothing else that the host program
can say (`Eval.steps_dependsOn`). Chains look up the symbols at their front and no others
(`Eval.mem_contacts`). If a scope is `Silent` whenever it is asked for one of these, the evaluation goes on
without it as with it, and has the same contacts apart from the questions to this scope
(`Eval.silent_scope_is_invisible`).
-/

namespace ReactiveViews

variable {σ : Type}

/-! ### The symbols in front -/

namespace Token

mutual

/-- The symbols at the front of the chains in a token, which may be at the front itself. -/
def leaders (leading : Bool) : Token → List String
  | symbol name => if leading then [name] else []
  | string _ | integer _ | float _ | operator _ => []
  | index chain => leadersIn chain
  | array items => leadersAmong items
  | call args => leadersAmong args

/-- The symbols at the front of a chain and of the chains in it. -/
def leadersIn : List Token → List String
  | [] => []
  | t :: rest => leaders true t ++ leadersRest rest

/-- The symbols at the front of the chains in tokens that are not at the front. -/
def leadersRest : List Token → List String
  | [] => []
  | t :: rest => leaders false t ++ leadersRest rest

/-- The symbols at the front of several chains and of the chains in them. -/
def leadersAmong : List (List Token) → List String
  | [] => []
  | chain :: rest => leadersIn chain ++ leadersAmong rest

end

end Token

namespace Step

mutual

theorem names_ofToken {leading : Bool} : (t : Token) → {s : Step} → ofToken leading t = .ok s →
    s.names = t.leaders leading
  | .symbol name, s, h => by
    cases h
    cases leading <;> rfl
  | .string _, s, h | .integer _, s, h | .float _, s, h => by
    cases h
    cases leading <;> rfl
  | .index chain, s, h => by
    cases leading with
    | true => cases h
    | false =>
      obtain ⟨ss, hss, rfl⟩ := exists_of_map_eq_ok h
      exact namesIn_ofChain chain hss
  | .array items, s, h => by
    obtain ⟨lists, hlists, rfl⟩ := exists_of_map_eq_ok h
    exact namesAmong_ofChains items hlists
  | .call args, s, h => by
    cases leading with
    | true => cases h
    | false =>
      obtain ⟨lists, hlists, rfl⟩ := exists_of_map_eq_ok h
      exact namesAmong_ofChains args hlists
  | .operator c, s, h => by cases h

/-- The steps of a chain look up what is at the front. -/
theorem namesIn_ofChain : (ts : List Token) → {ss : List Step} → ofChain ts = .ok ss →
    namesIn ss = Token.leadersIn ts
  | [], ss, h => by cases h
  | t :: rest, ss, h => by
    obtain ⟨s, others, ht, hrest, rfl⟩ := ofChain_cons_eq_ok h
    rw [namesIn, Token.leadersIn, names_ofToken t ht, namesIn_ofRest rest hrest]

theorem namesIn_ofRest : (ts : List Token) → {ss : List Step} → ofRest ts = .ok ss →
    namesIn ss = Token.leadersRest ts
  | [], ss, h => by
    cases h
    rfl
  | t :: rest, ss, h => by
    rw [ofRest] at h
    obtain ⟨s, ht, h⟩ := bind_eq_ok_iff.mp h
    obtain ⟨others, hrest, h⟩ := bind_eq_ok_iff.mp h
    cases h
    rw [namesIn, Token.leadersRest, names_ofToken t ht, namesIn_ofRest rest hrest]

theorem namesAmong_ofChains : (chains : List (List Token)) → {lists : List (List Step)} →
    ofChains chains = .ok lists → namesAmong lists = Token.leadersAmong chains
  | [], lists, h => by
    cases h
    rfl
  | chain :: rest, lists, h => by
    rw [ofChains] at h
    obtain ⟨ss, hss, h⟩ := bind_eq_ok_iff.mp h
    obtain ⟨others, hothers, h⟩ := bind_eq_ok_iff.mp h
    cases h
    rw [namesAmong, Token.leadersAmong, namesIn_ofChain chain hss, namesAmong_ofChains rest hothers]

end

end Step

/-! ### Contacts -/

/-- Something that an evaluation has to do with values, and the world at that moment. -/
inductive Contact (σ : Type) where
  /-- A scope is asked for a name. -/
  | ask (scope : Value) (name : String) (w : World σ)
  /-- A property is selected. -/
  | select (v key : Value) (w : World σ)
  /-- A function is called for a receiver. -/
  | call (f : Function) (receiver : Value) (args : List Value) (w : World σ)

/-- What is done after an evaluation that has succeeded. -/
def Contact.after {α : Type} (next : α → World σ → List (Contact σ)) :
    Option (Except EvalError α) × World σ → List (Contact σ)
  | (some (.ok a), w) => next a w
  | _ => []

/-- The questions to the scopes of a context, up to the first that has an answer. -/
def Act.questions (enter : Enter σ) (name : String) : Context → World σ → List (Contact σ)
  | [], _ => []
  | scope :: rest, w =>
    .ask scope name w ::
      match (Act.getOwn scope name).runIn enter w with
      | (some none, w') | (some (some .undefined), w') => Act.questions enter name rest w'
      | _ => []

namespace Eval

section

variable (enter : Enter σ) (context : Context) (expr : String)

/-- The contact of a call, if a function is called. -/
def callContacts (r : Registers) (args : List Value) (w : World σ) : List (Contact σ) :=
  match r.current with
  | .function f => [.call f r.receiver args w]
  | _ => []

mutual

/-- The contacts of a step. -/
def stepContacts (r : Registers) (w : World σ) : Step → List (Contact σ)
  | .lookup name => Act.questions enter name context w
  | .constant _ => []
  | .property key => [.select r.current key w]
  | .index chain =>
    contacts .start w chain ++
      ((steps context expr .start chain).run.runIn enter w |> Contact.after fun key w =>
        [.select r.current key.current w])
  | .array items => allContacts w items
  | .call args =>
    allContacts w args ++ ((all context expr args).run.runIn enter w |> Contact.after (callContacts r))

/-- The contacts of the steps of a chain. -/
def contacts (r : Registers) (w : World σ) : List Step → List (Contact σ)
  | [] => []
  | s :: rest =>
    stepContacts r w s ++ ((step context expr r s).run.runIn enter w |> Contact.after fun r w => contacts r w rest)

/-- The contacts of several chains. -/
def allContacts (w : World σ) : List (List Step) → List (Contact σ)
  | [] => []
  | chain :: rest =>
    contacts .start w chain ++
      ((steps context expr .start chain).run.runIn enter w |> Contact.after fun _ w => allContacts w rest)

end

end

end Eval

/-! ### Only the names in front -/

theorem Contact.mem_after {α : Type} {next : α → World σ → List (Contact σ)}
    {answer : Option (Except EvalError α) × World σ} {c : Contact σ} (h : c ∈ after next answer) :
    ∃ a w, c ∈ next a w := by
  unfold after at h
  split at h
  · exact ⟨_, _, h⟩
  · cases h

theorem Act.mem_questions {enter : Enter σ} {name : String} {context : Context} {w : World σ}
    {c : Contact σ} (h : c ∈ questions enter name context w) : ∃ scope w', c = .ask scope name w' := by
  induction context generalizing w with
  | nil => cases h
  | cons scope rest ih =>
    rcases List.mem_cons.mp h with rfl | h
    · exact ⟨scope, w, rfl⟩
    · split at h
      · exact ih h
      · exact ih h
      · cases h

namespace Eval

section

variable {enter : Enter σ} {context : Context} {expr : String} {scope : Value} {name : String}
  {w' : World σ}

mutual

theorem mem_stepContacts : (s : Step) → {r : Registers} → {w : World σ} →
    .ask scope name w' ∈ stepContacts enter context expr r w s → name ∈ s.names
  | .lookup own, r, w, h => by
    obtain ⟨_, _, heq⟩ := Act.mem_questions h
    cases heq
    exact List.mem_singleton_self _
  | .constant _, r, w, h => by cases h
  | .property _, r, w, h => by simp [stepContacts] at h
  | .index chain, r, w, h => by
    rcases List.mem_append.mp h with h | h
    · exact mem_contacts chain h
    · obtain ⟨_, _, h⟩ := Contact.mem_after h
      simp at h
  | .array items, r, w, h => mem_allContacts items h
  | .call args, r, w, h => by
    rcases List.mem_append.mp h with h | h
    · exact mem_allContacts args h
    · obtain ⟨_, _, h⟩ := Contact.mem_after h
      unfold callContacts at h
      split at h <;> simp at h

/-- The steps of a chain ask for no other names than those they look up. -/
theorem mem_contacts : (ss : List Step) → {r : Registers} → {w : World σ} →
    .ask scope name w' ∈ contacts enter context expr r w ss → name ∈ Step.namesIn ss
  | [], r, w, h => by cases h
  | s :: rest, r, w, h => by
    rcases List.mem_append.mp h with h | h
    · exact List.mem_append_left _ (mem_stepContacts s h)
    · obtain ⟨_, _, h⟩ := Contact.mem_after h
      exact List.mem_append_right _ (mem_contacts rest h)

theorem mem_allContacts : (chains : List (List Step)) → {w : World σ} →
    .ask scope name w' ∈ allContacts enter context expr w chains → name ∈ Step.namesAmong chains
  | [], w, h => by cases h
  | chain :: rest, w, h => by
    rcases List.mem_append.mp h with h | h
    · exact List.mem_append_left _ (mem_contacts chain h)
    · obtain ⟨_, _, h⟩ := Contact.mem_after h
      exact List.mem_append_right _ (mem_allContacts rest h)

end

end

end Eval

/-! ### Contacts are all that is done -/

/-- Two surroundings answer a contact alike. -/
def Contact.Alike (enter enter' : Enter σ) : Contact σ → Prop
  | ask scope name w => (Act.getOwn scope name).runIn enter w = (Act.getOwn scope name).runIn enter' w
  | select v key w => (Act.getKeyed v key).runIn enter w = (Act.getKeyed v key).runIn enter' w
  | call f receiver args w =>
    (Act.apply f receiver args).runIn enter w = (Act.apply f receiver args).runIn enter' w

/-- If two surroundings answer some contacts alike, an act is the same in both. -/
def Act.DependsOn {α : Type} (enter enter' : Enter σ) (act : Act σ α) (cs : List (Contact σ)) (w : World σ) :
    Prop :=
  (∀ c ∈ cs, c.Alike enter enter') → act.runIn enter w = act.runIn enter' w

namespace Act.DependsOn

variable {α β : Type} {enter enter' : Enter σ} {w : World σ}

theorem select (v key : Value) : DependsOn enter enter' (Act.getKeyed v key) [.select v key w] w :=
  fun halike => halike _ (List.mem_singleton_self _)

theorem call (f : Function) (receiver : Value) (args : List Value) :
    DependsOn enter enter' (Act.apply f receiver args) [.call f receiver args w] w :=
  fun halike => halike _ (List.mem_singleton_self _)

/-- An act and then another that enters nothing. -/
theorem bind {act : Act σ α} {f : α → Act σ β} {cs : List (Contact σ)}
    (h : DependsOn enter enter' act cs w)
    (hf : ∀ a w', (f a).runIn enter w' = (f a).runIn enter' w') :
    DependsOn enter enter' (act >>= f) cs w := by
  intro halike
  rw [Act.runIn_bind, Act.runIn_bind, ← h halike]
  rcases act.runIn enter w with ⟨_ | a, w'⟩
  · rfl
  · exact hf a w'

/-- An act as an evaluation. -/
theorem lift {act : Act σ α} {cs : List (Contact σ)} (h : DependsOn enter enter' act cs w) :
    DependsOn enter enter' (Eval.act act).run cs w := by
  rw [Eval.act, ExceptT.run_lift, map_eq_pure_bind]
  exact h.bind fun _ _ => rfl

/-- An evaluation and then another that enters nothing. -/
theorem andThen {act : Eval σ α} {f : α → Eval σ β} {cs : List (Contact σ)}
    (h : DependsOn enter enter' act.run cs w)
    (hf : ∀ a w', (f a).run.runIn enter w' = (f a).run.runIn enter' w') :
    DependsOn enter enter' (act >>= f).run cs w := by
  rw [ExceptT.run_bind]
  refine h.bind fun answer w' => ?_
  cases answer with
  | error _ => rfl
  | ok a => exact hf a w'

/-- One evaluation after another. -/
theorem bindE {act : Eval σ α} {f : α → Eval σ β} {cs : List (Contact σ)}
    {next : α → World σ → List (Contact σ)}
    (h : DependsOn enter enter' act.run cs w)
    (hf : ∀ a w', DependsOn enter enter' (f a).run (next a w') w') :
    DependsOn enter enter' (act >>= f).run (cs ++ (act.run.runIn enter w |> Contact.after next)) w := by
  intro halike
  obtain ⟨hcs, hnext⟩ := List.forall_mem_append.mp halike
  rw [ExceptT.run_bind, Act.runIn_bind, Act.runIn_bind, ← h hcs]
  rcases hact : act.run.runIn enter w with ⟨_ | _ | a, w'⟩
  · rfl
  · rfl
  · rw [hact] at hnext
    exact hf a w' hnext

end Act.DependsOn

theorem Act.lookup_dependsOn {enter enter' : Enter σ} (name : String) (context : Context) (w : World σ) :
    DependsOn enter enter' (lookup name context) (questions enter name context w) w := by
  induction context generalizing w with
  | nil => exact fun _ => rfl
  | cons scope rest ih =>
    intro halike
    rw [questions, List.forall_mem_cons] at halike
    obtain ⟨hscope, hrest⟩ := halike
    rw [lookup, runIn_bind, runIn_bind, ← show _ = _ from hscope]
    rcases hown : (getOwn scope name).runIn enter w with ⟨_ | _ | v, w'⟩
    · rfl
    · rw [hown] at hrest
      exact ih w' hrest
    · rw [hown] at hrest
      cases v with
      | undefined => exact ih w' hrest
      | _ => rfl

namespace Eval

section

variable {enter enter' : Enter σ} {context : Context} {expr : String}

theorem apply_dependsOn (r : Registers) (args : List Value) (w : World σ) :
    Act.DependsOn enter enter' (apply expr r args).run (callContacts r args w) w := by
  obtain ⟨receiver, current⟩ := r
  cases current with
  | function f => exact (Act.DependsOn.call f receiver args).andThen fun _ _ => rfl
  | _ => exact fun _ => rfl

mutual

theorem step_dependsOn : (s : Step) → (r : Registers) → (w : World σ) →
    Act.DependsOn enter enter' (step context expr r s).run (stepContacts enter context expr r w s) w
  | .lookup name, r, w => by
    rw [step]
    refine (Act.lookup_dependsOn name context w).lift.andThen fun found w' => ?_
    cases found <;> rfl
  | .constant v, r, w => fun _ => rfl
  | .property key, r, w => by
    rw [step]
    exact (Act.DependsOn.select r.current key).lift.andThen fun _ _ => rfl
  | .index chain, r, w => by
    rw [step]
    exact (steps_dependsOn chain .start w).bindE fun key _ =>
      (Act.DependsOn.select r.current key.current).lift.andThen fun _ _ => rfl
  | .array items, r, w => by
    rw [step]
    exact (all_dependsOn items w).andThen fun _ _ => rfl
  | .call args, r, w => by
    rw [step]
    exact (all_dependsOn args w).bindE fun args w' => apply_dependsOn r args w'

/-- What the steps of a chain come to depends on the answers to their contacts, and on nothing else that is
entered. -/
theorem steps_dependsOn : (ss : List Step) → (r : Registers) → (w : World σ) →
    Act.DependsOn enter enter' (steps context expr r ss).run (contacts enter context expr r w ss) w
  | [], r, w => fun _ => rfl
  | s :: rest, r, w => by
    rw [steps]
    exact (step_dependsOn s r w).bindE fun r w' => steps_dependsOn rest r w'

theorem all_dependsOn : (chains : List (List Step)) → (w : World σ) →
    Act.DependsOn enter enter' (all context expr chains).run (allContacts enter context expr w chains) w
  | [], w => fun _ => rfl
  | chain :: rest, w => by
    rw [all]
    exact (steps_dependsOn chain .start w).bindE fun r w' =>
      (all_dependsOn rest w').andThen fun _ _ => rfl

end

end

end Eval

/-! ### A scope that stands by -/

/-- A scope that is asked for a name does nothing, and does not own it with a defined value. -/
def Value.Silent (enter : Enter σ) (scope : Value) (name : String) (w : World σ) : Prop :=
  ∃ owned, (owned = none ∨ owned = some .undefined) ∧
    (Act.getOwn scope name).runIn enter w = (some owned, w)

/-- The same contacts in the same order, with questions to a scope among them. -/
inductive Besides (scope : Value) : List (Contact σ) → List (Contact σ) → Prop where
  /-- Nothing is done. -/
  | nil : Besides scope [] []
  /-- The same is done. -/
  | same {cs cs' : List (Contact σ)} (c : Contact σ) : Besides scope cs cs' →
    Besides scope (c :: cs) (c :: cs')
  /-- The scope is asked. -/
  | ask {cs cs' : List (Contact σ)} (name : String) (w : World σ) : Besides scope cs cs' →
    Besides scope (.ask scope name w :: cs) cs'

namespace Besides

variable {scope : Value} {cs cs' es es' : List (Contact σ)}

theorem refl : (cs : List (Contact σ)) → Besides scope cs cs
  | [] => .nil
  | c :: cs => .same c (refl cs)

theorem append (h : Besides scope cs cs') (h' : Besides scope es es') :
    Besides scope (cs ++ es) (cs' ++ es') := by
  induction h with
  | nil => exact h'
  | same c _ ih => exact .same c ih
  | ask name w _ ih => exact .ask name w ih

end Besides

/-- An evaluation with a scope, its contacts, and another without the scope: if the scope is silent whenever it
is asked, both come to the same, and do the same but for the questions to the scope. -/
def Overlooked {α : Type} (enter : Enter σ) (scope : Value) (w : World σ) (act act' : Act σ α)
    (cs cs' : List (Contact σ)) : Prop :=
  (∀ name w', .ask scope name w' ∈ cs → scope.Silent enter name w') →
    act.runIn enter w = act'.runIn enter w ∧ Besides scope cs cs'

namespace Overlooked

variable {α β : Type} {enter : Enter σ} {scope : Value} {w : World σ}

theorem same (act : Act σ α) (cs : List (Contact σ)) : Overlooked enter scope w act act cs cs :=
  fun _ => ⟨rfl, .refl cs⟩

/-- Whatever comes of an answer is the same for the same answer. -/
theorem bind {act act' : Act σ α} {cs cs' : List (Contact σ)} (h : Overlooked enter scope w act act' cs cs')
    (f : α → Act σ β) : Overlooked enter scope w (act >>= f) (act' >>= f) cs cs' := by
  intro hsilent
  obtain ⟨hrun, hbesides⟩ := h hsilent
  exact ⟨by rw [Act.runIn_bind, hrun, Act.runIn_bind], hbesides⟩

/-- One evaluation after another. -/
theorem bindE {act act' : Eval σ α} {f f' : α → Eval σ β} {cs cs' : List (Contact σ)}
    {next next' : α → World σ → List (Contact σ)}
    (h : Overlooked enter scope w act.run act'.run cs cs')
    (hf : ∀ a w', Overlooked enter scope w' (f a).run (f' a).run (next a w') (next' a w')) :
    Overlooked enter scope w (act >>= f).run (act' >>= f').run
      (cs ++ (act.run.runIn enter w |> Contact.after next))
      (cs' ++ (act'.run.runIn enter w |> Contact.after next')) := by
  intro hsilent
  obtain ⟨hrun, hbesides⟩ := h fun name w' hmem => hsilent name w' (List.mem_append_left _ hmem)
  rw [ExceptT.run_bind, ExceptT.run_bind, Act.runIn_bind, Act.runIn_bind, ← hrun]
  rcases hact : act.run.runIn enter w with ⟨_ | _ | a, w'⟩
  · exact ⟨rfl, hbesides.append .nil⟩
  · exact ⟨rfl, hbesides.append .nil⟩
  · obtain ⟨hrun', hbesides'⟩ := hf a w' fun name w'' hmem =>
      hsilent name w'' (List.mem_append_right _ (by rw [hact]; exact hmem))
    exact ⟨hrun', hbesides.append hbesides'⟩

end Overlooked

section

variable {enter : Enter σ} {scope : Value} {before after : Context}

theorem Act.lookup_overlooked (name : String) (before : Context) (w : World σ) :
    Overlooked enter scope w (lookup name (before ++ scope :: after)) (lookup name (before ++ after))
      (questions enter name (before ++ scope :: after) w) (questions enter name (before ++ after) w) := by
  induction before generalizing w with
  | nil =>
    intro hsilent
    obtain ⟨owned, howned, hrun⟩ := hsilent name w List.mem_cons_self
    simp only [List.nil_append, lookup, questions, runIn_bind_some hrun, hrun]
    rcases howned with rfl | rfl
    · exact ⟨rfl, .ask name w (.refl _)⟩
    · exact ⟨rfl, .ask name w (.refl _)⟩
  | cons other rest ih =>
    simp only [Overlooked, List.cons_append, lookup, questions, runIn_bind]
    rcases (getOwn other name).runIn enter w with ⟨_ | _ | v, w'⟩
    · exact fun _ => ⟨rfl, .refl _⟩
    · intro hsilent
      obtain ⟨hrun, hbesides⟩ := ih w' fun name' w'' hmem => hsilent name' w'' (.tail _ hmem)
      exact ⟨hrun, .same _ hbesides⟩
    · cases v with
      | undefined =>
        intro hsilent
        obtain ⟨hrun, hbesides⟩ := ih w' fun name' w'' hmem => hsilent name' w'' (.tail _ hmem)
        exact ⟨hrun, .same _ hbesides⟩
      | _ => exact fun _ => ⟨rfl, .refl _⟩

end

namespace Eval

section

variable {enter : Enter σ} {scope : Value} {before after : Context} {expr : String}

mutual

theorem step_overlooked : (s : Step) → (r : Registers) → (w : World σ) →
    Overlooked enter scope w (step (before ++ scope :: after) expr r s).run
      (step (before ++ after) expr r s).run (stepContacts enter (before ++ scope :: after) expr r w s)
      (stepContacts enter (before ++ after) expr r w s)
  | .lookup name, r, w => by
    rw [step, step]
    exact ((Act.lookup_overlooked name before w).bind _).bind _
  | .constant v, r, w => .same _ _
  | .property key, r, w => .same _ _
  | .index chain, r, w => by
    rw [step, step]
    exact (steps_overlooked chain .start w).bindE fun key w' => .same _ _
  | .array items, r, w => by
    rw [step, step]
    exact (all_overlooked items w).bind _
  | .call args, r, w => by
    rw [step, step]
    exact (all_overlooked args w).bindE fun args w' => .same _ _

/-- A scope that is silent whenever it is asked is overlooked. -/
theorem steps_overlooked : (ss : List Step) → (r : Registers) → (w : World σ) →
    Overlooked enter scope w (steps (before ++ scope :: after) expr r ss).run
      (steps (before ++ after) expr r ss).run (contacts enter (before ++ scope :: after) expr r w ss)
      (contacts enter (before ++ after) expr r w ss)
  | [], r, w => .same _ _
  | s :: rest, r, w => by
    rw [steps, steps]
    exact (step_overlooked s r w).bindE fun r w' => steps_overlooked rest r w'

theorem all_overlooked : (chains : List (List Step)) → (w : World σ) →
    Overlooked enter scope w (all (before ++ scope :: after) expr chains).run
      (all (before ++ after) expr chains).run (allContacts enter (before ++ scope :: after) expr w chains)
      (allContacts enter (before ++ after) expr w chains)
  | [], w => .same _ _
  | chain :: rest, w => by
    rw [all, all]
    exact (steps_overlooked chain .start w).bindE fun r w' => (all_overlooked rest w').bind _

end

end

/-- **A scope that stands by is invisible.** Let tokens compile, and let a scope stand anywhere in a
context. If whenever it is asked for a symbol at the front of a chain, of the tokens or anywhere inside of
them, the scope does nothing and does not own the symbol or owns it as undefined, then the tokens have the
same value, or fail with the same error, or go on for ever alike, with the scope and without it, and leave
the same world behind. They call the same functions for the same receivers with the same arguments, select
the same properties, and ask all other scopes for the same names, in the same order and in the same
worlds. -/
theorem silent_scope_is_invisible {tokens : List Token} {expr : String} {c : Chain}
    (hc : Chain.ofTokens tokens expr = .ok c) (enter : Enter σ) (before after : Context) (scope : Value)
    (w : World σ)
    (hsilent : ∀ name ∈ Token.leadersIn tokens, ∀ w',
      .ask scope name w' ∈ contacts enter (before ++ scope :: after) c.expr .start w c.steps →
        scope.Silent enter name w') :
    (chain (before ++ scope :: after) c).run.runIn enter w =
        (chain (before ++ after) c).run.runIn enter w ∧
      Besides scope (contacts enter (before ++ scope :: after) c.expr .start w c.steps)
        (contacts enter (before ++ after) c.expr .start w c.steps) := by
  have hnames : Step.namesIn c.steps = Token.leadersIn tokens := by
    unfold Chain.ofTokens at hc
    split at hc
    · next hsteps =>
      cases hc
      exact Step.namesIn_ofChain tokens hsteps
    · cases hc
  exact ((steps_overlooked c.steps .start w).bind _) fun name w' hmem =>
    hsilent name (hnames ▸ mem_contacts c.steps hmem) w' hmem

/-- A frame that owns `x` as undefined stands in front of a record whose `x` is 5. -/
theorem silent_scope_is_invisible_frame :
    let w : World Unit := { World.empty .off () with
      store := ⟨.empty, (Table.empty.add [("x", .undefined)]).add [("x", .int 5)]⟩ }
    let frame : Value := .object (.record ⟨0⟩)
    let outer : Value := .object (.record ⟨1⟩)
    let c : Chain := ⟨[.lookup "x"], "x"⟩
    let enter : Enter Unit := fun _ w => (none, w)
    Chain.ofTokens [.symbol "x"] "x" = .ok c ∧
      (∀ name ∈ Token.leadersIn [.symbol "x"], ∀ w',
        .ask frame name w' ∈ contacts enter ([] ++ frame :: [outer]) c.expr .start w c.steps →
          frame.Silent enter name w') ∧
      (chain [frame, outer] c).run.runIn enter w = (some (.ok (.int 5)), w) ∧
      (chain [outer] c).run.runIn enter w = (some (.ok (.int 5)), w) ∧
      Besides frame (contacts enter [frame, outer] c.expr .start w c.steps)
        (contacts enter [outer] c.expr .start w c.steps) := by
  intro w frame outer c enter
  have hc : Chain.ofTokens [.symbol "x"] "x" = .ok c := rfl
  have hsilent : ∀ name ∈ Token.leadersIn [.symbol "x"], ∀ w',
      .ask frame name w' ∈ contacts enter ([] ++ frame :: [outer]) c.expr .start w c.steps →
        frame.Silent enter name w' := by
    intro name hname w' hmem
    obtain rfl : name = "x" := List.mem_singleton.mp hname
    have hcontacts : contacts enter ([] ++ frame :: [outer]) c.expr .start w c.steps =
        [.ask frame "x" w, .ask outer "x" w] := rfl
    rw [hcontacts, List.mem_pair] at hmem
    obtain rfl : w' = w := hmem.elim (fun h => (Contact.ask.inj h).2.2) fun h => (Contact.ask.inj h).2.2
    exact ⟨some .undefined, .inr rfl, rfl⟩
  obtain ⟨hrun, hbesides⟩ := silent_scope_is_invisible hc enter [] [outer] frame w hsilent
  have houter : (chain [outer] c).run.runIn enter w = (some (.ok (.int 5)), w) := rfl
  exact ⟨hc, hsilent, hrun.trans houter, houter, hbesides⟩

end Eval

end ReactiveViews
