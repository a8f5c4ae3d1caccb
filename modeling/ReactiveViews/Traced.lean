/-!
# Traced computations

A computation that may fail and that leaves remarks on its way, whether it fails or not.
Compiling expressions and templates is traced: the result is what matters, the remarks are
for those who watch.

## What is proved

The result of a sequence is the sequence of the results, so that laws of results can be
proved without looking at the remarks (`result_pure`, `result_bind`). A sequence of results
succeeds if both do (`bind_eq_ok_iff`), and its error is the first (`bind_eq_error_iff`).
-/

namespace ReactiveViews

/-- A remark made while compiling. -/
inductive Remark where
  /-- An expression, without white space at its ends, and the number of its tokens. -/
  | expression (src : String) (tokens : Nat)
  /-- A text with expressions in it and the number of its parts. -/
  | interpolation (src : String) (parts : Nat)
  /-- A node of a template, named by the keys that lead to it. -/
  | node (path : String)
  deriving DecidableEq, Repr

/-- A result with the remarks made before it, first to last. -/
structure Traced (ε α : Type) where
  /-- The remarks. -/
  remarks : List Remark
  /-- The result. -/
  result : Except ε α

namespace Traced

variable {ε α β : Type}

/-- One computation after another; after a failure there is no other. -/
def bind (x : Traced ε α) (f : α → Traced ε β) : Traced ε β :=
  match x.result with
  | .error e => ⟨x.remarks, .error e⟩
  | .ok a => ⟨x.remarks ++ (f a).remarks, (f a).result⟩

instance : Monad (Traced ε) where
  pure a := ⟨[], .ok a⟩
  bind := bind

/-- A result without remarks. -/
def lift (x : Except ε α) : Traced ε α := ⟨[], x⟩

/-- A remark and nothing else. -/
def remark (r : Remark) : Traced ε Unit := ⟨[r], .ok ()⟩

/-- Changes the error. -/
def mapError {ε' : Type} (f : ε → ε') (x : Traced ε α) : Traced ε' α :=
  ⟨x.remarks, x.result.mapError f⟩

@[simp] theorem result_pure (a : α) : (pure a : Traced ε α).result = .ok a := rfl

@[simp] theorem result_lift (x : Except ε α) : (lift x).result = x := rfl

@[simp] theorem result_remark (r : Remark) : (remark r : Traced ε Unit).result = .ok () := rfl

@[simp] theorem result_mapError {ε' : Type} (f : ε → ε') (x : Traced ε α) :
    (x.mapError f).result = x.result.mapError f := rfl

@[simp] theorem result_bind (x : Traced ε α) (f : α → Traced ε β) :
    (x >>= f).result = x.result.bind fun a => (f a).result := by
  obtain ⟨remarks, result⟩ := x
  cases result <;> rfl

@[simp] theorem result_map (f : α → β) (x : Traced ε α) : (f <$> x).result = x.result.map f := by
  obtain ⟨remarks, result⟩ := x
  cases result <;> rfl

instance : LawfulMonad (Traced ε) := by
  refine LawfulMonad.mk' (Traced ε) ?id_map ?pure_bind ?bind_assoc
  case id_map =>
    rintro α ⟨remarks, _ | a⟩
    · rfl
    · show (⟨remarks ++ [], .ok a⟩ : Traced ε α) = ⟨remarks, .ok a⟩
      rw [List.append_nil]
  case pure_bind =>
    intro α β a f
    rfl
  case bind_assoc =>
    rintro α β γ ⟨remarks, _ | a⟩ f g
    · rfl
    · show bind ⟨remarks ++ (f a).remarks, (f a).result⟩ g = bind ⟨remarks, .ok a⟩ fun a => bind (f a) g
      cases h : (f a).result <;> simp [bind, h]

/-- Several computations one after the other, and their results. -/
theorem result_mapM (f : α → Traced ε β) (l : List α) :
    (l.mapM f).result = l.mapM fun a => (f a).result := by
  induction l with
  | nil => rfl
  | cons a l ih =>
    simp only [List.mapM_cons, result_bind, ih, result_pure]
    rfl

end Traced

/-! ### Sequences of results -/

section Results

variable {ε α β : Type} {x : Except ε α} {f : α → Except ε β}

theorem bind_eq_ok_iff {b : β} : x.bind f = .ok b ↔ ∃ a, x = .ok a ∧ f a = .ok b := by
  cases x <;> simp [Except.bind]

theorem bind_eq_error_iff {e : ε} :
    x.bind f = .error e ↔ x = .error e ∨ ∃ a, x = .ok a ∧ f a = .error e := by
  cases x <;> simp [Except.bind]

theorem mapError_eq_ok_iff {ε' : Type} {g : ε → ε'} {a : α} : x.mapError g = .ok a ↔ x = .ok a := by
  cases x with
  | error e => constructor <;> intro h <;> cases h
  | ok b =>
    constructor <;> intro h
    · cases h
      rfl
    · cases h
      rfl

theorem mapError_eq_error_iff {ε' : Type} {g : ε → ε'} {e' : ε'} :
    x.mapError g = .error e' ↔ ∃ e, x = .error e ∧ g e = e' := by
  cases x with
  | error e =>
    constructor
    · intro h
      cases h
      exact ⟨e, rfl, rfl⟩
    · rintro ⟨_, ⟨⟩, rfl⟩
      rfl
  | ok b =>
    constructor
    · intro h
      cases h
    · rintro ⟨_, ⟨⟩, _⟩

end Results

end ReactiveViews
