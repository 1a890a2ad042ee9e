import Blueprint.Registry.Basic

/-!
# Actions on a registry

An action reads and changes the registry, and succeeds with a result or fails with a diagnostic. What it changed before
it failed stays changed: nothing is ever rolled back.
-/

namespace Blueprint

/-- A step that changes the registry and may fail. -/
def Action (α : Type) := Registry → Except Diagnostic α × Registry

namespace Action

variable {α β : Type}

/-- The outcome from a registry, and the registry after it. -/
def run (a : Action α) (r : Registry) : Except Diagnostic α × Registry := a r

/-- Goes on with the result of an action, if it succeeds. -/
def andThen (a : Action α) (f : α → Action β) : Action β := fun r =>
  match a r with
  | (.ok x, r) => f x r
  | (.error e, r) => (.error e, r)

instance : Monad Action where
  pure x := fun r => (.ok x, r)
  bind := andThen

def fail (e : Diagnostic) : Action α := fun r => (.error e, r)

/-- A result that does not depend on the registry. -/
def ofExcept (x : Except Diagnostic α) : Action α := fun r => (x, r)

def ask (f : Registry → α) : Action α := fun r => (.ok (f r), r)

def change (f : Registry → Registry) : Action Unit := fun r => (.ok (), f r)

/-- Adds to the diagnostic of an action that fails. -/
def onError (a : Action α) (f : Diagnostic → Diagnostic) : Action α := fun r =>
  match a r with
  | (.ok x, r) => (.ok x, r)
  | (.error e, r) => (.error (f e), r)

/-- The results of an action on each item, in order, up to the first failure. -/
def each (f : α → Action β) : List α → Action (List β)
  | [] => pure []
  | x :: xs => do
    let y ← f x
    let ys ← each f xs
    return y :: ys

/-- The results of an action on each item and its position, counted from `i`. -/
def eachFrom (f : Nat → α → Action β) (i : Nat) : List α → Action (List β)
  | [] => pure []
  | x :: xs => do
    let y ← f i x
    let ys ← eachFrom f (i + 1) xs
    return y :: ys

/-! ## Success -/

theorem bind_eq_ok_iff {a : Action α} {f : α → Action β} {r r' : Registry} {y : β} :
    (a >>= f) r = (.ok y, r') ↔ ∃ x r₁, a r = (.ok x, r₁) ∧ f x r₁ = (.ok y, r') := by
  have hb : (a >>= f) r = a.andThen f r := rfl
  rw [hb, andThen]
  rcases a r with ⟨e | x, r₁⟩
  · simp
  · constructor
    · exact fun h => ⟨x, r₁, rfl, h⟩
    · rintro ⟨_, _, ⟨⟩, h⟩
      exact h

theorem onError_eq_ok_iff {a : Action α} {f : Diagnostic → Diagnostic} {r r' : Registry} {x : α} :
    a.onError f r = (.ok x, r') ↔ a r = (.ok x, r') := by
  rw [onError]
  rcases a r with ⟨e | y, r₁⟩ <;> simp

/-! ## Failure -/

theorem pure_ne_error {x : α} {r r' : Registry} {e : Diagnostic} : (pure x : Action α) r ≠ (.error e, r') := by
  rintro ⟨⟩

theorem bind_eq_error_iff {a : Action α} {f : α → Action β} {r r' : Registry} {e : Diagnostic} :
    (a >>= f) r = (.error e, r') ↔
      a r = (.error e, r') ∨ ∃ x r₁, a r = (.ok x, r₁) ∧ f x r₁ = (.error e, r') := by
  have hb : (a >>= f) r = a.andThen f r := rfl
  rw [hb, andThen]
  rcases a r with ⟨e₁ | x, r₁⟩
  · simp
  · constructor
    · exact fun h => .inr ⟨x, r₁, rfl, h⟩
    · rintro (h | ⟨_, _, ⟨⟩, h⟩)
      · cases h
      · exact h

theorem onError_eq_error_iff {a : Action α} {f : Diagnostic → Diagnostic} {r r' : Registry} {e : Diagnostic} :
    a.onError f r = (.error e, r') ↔ ∃ e₀, a r = (.error e₀, r') ∧ e = f e₀ := by
  rw [onError]
  rcases a r with ⟨e₁ | y, r₁⟩
  · simp only [Prod.mk.injEq, Except.error.injEq]
    constructor
    · rintro ⟨rfl, rfl⟩
      exact ⟨e₁, ⟨rfl, rfl⟩, rfl⟩
    · rintro ⟨e₀, ⟨rfl, rfl⟩, rfl⟩
      exact ⟨rfl, rfl⟩
  · simp

end Action
end Blueprint
