import Blueprint.Registry.Action
import Mathlib.Data.List.Forall2

/-!
# Actions side by side

Two actions are related if, from registries that are related, they end in registries that are related, and fail with the
same error or succeed with related results. There is one rule for each way of putting actions together.
-/

namespace Blueprint

variable {ε α β γ δ : Type}

/-- Two outcomes are the same error, or results that are related. -/
inductive Agree (Q : α → β → Prop) : Except ε α → Except ε β → Prop
  | error (e : ε) : Agree Q (.error e) (.error e)
  | ok {x : α} {y : β} (h : Q x y) : Agree Q (.ok x) (.ok y)

namespace Agree

variable {Q : α → β → Prop} {x : Except ε α} {y : Except ε β}

theorem mapError {ε' : Type} (h : Agree Q x y) (f : ε → ε') : Agree Q (x.mapError f) (y.mapError f) := by
  cases h with
  | error e => exact .error _
  | ok h => exact .ok h

theorem mono {P : α → β → Prop} (h : Agree Q x y) (himp : ∀ a b, Q a b → P a b) : Agree P x y := by
  cases h with
  | error e => exact .error e
  | ok h => exact .ok (himp _ _ h)

theorem of_eq {x y : Except ε α} (h : x = y) : Agree Eq x y := by
  subst h
  cases x with
  | error e => exact .error e
  | ok x => exact .ok rfl

theorem eq {x y : Except ε α} (h : Agree Eq x y) : x = y := by
  cases h with
  | error e => rfl
  | ok h => rw [h]

theorem map_iff {f : α → β} : Agree (fun a b => b = f a) x y ↔ y = x.map f := by
  constructor
  · intro h
    cases h with
    | error e => rfl
    | ok h => rw [h]; rfl
  · rintro rfl
    cases x with
    | error e => exact .error e
    | ok x => exact .ok rfl

end Agree

theorem eq_map_of_forall₂ {f : α → β} {xs : List α} {ys : List β} (h : List.Forall₂ (fun x y => y = f x) xs ys) :
    ys = xs.map f := by
  induction h with
  | nil => rfl
  | cons hxy _ ih => rw [hxy, ih, List.map_cons]

/-- From registries related by `I` two actions end in registries related by `I`, with outcomes that agree. -/
def Action.Relates (I : Registry → Registry → Prop) (a : Action α) (b : Action β) (Q : α → β → Prop) : Prop :=
  ∀ r r', I r r' → I (a r).2 (b r').2 ∧ Agree Q (a r).1 (b r').1

namespace Action.Relates

variable {I : Registry → Registry → Prop} {a : Action α} {b : Action β} {Q : α → β → Prop} {P : γ → δ → Prop}

theorem of_read {f : Registry → Except Diagnostic α} {g : Registry → Except Diagnostic β}
    (h : ∀ r r', I r r' → Agree Q (f r) (g r')) : Relates I (fun r => (f r, r)) (fun r => (g r, r)) Q :=
  fun r r' hr => ⟨hr, h r r' hr⟩

theorem pure {x : α} {y : β} (h : Q x y) : Relates I (Pure.pure x) (Pure.pure y) Q := of_read fun _ _ _ => .ok h

theorem change {f g : Registry → Registry} (h : ∀ r r', I r r' → I (f r) (g r')) :
    Relates I (Action.change f) (Action.change g) Eq :=
  fun r r' hr => ⟨h r r' hr, .ok rfl⟩

theorem bind {f : α → Action γ} {g : β → Action δ} (hab : Relates I a b Q)
    (hfg : ∀ x y, Q x y → Relates I (f x) (g y) P) : Relates I (a >>= f) (b >>= g) P := by
  intro r r' hr
  obtain ⟨hI, hQ⟩ := hab r r' hr
  have ha : (a >>= f) r = a.andThen f r := rfl
  have hb : (b >>= g) r' = b.andThen g r' := rfl
  rw [ha, hb, andThen, andThen]
  generalize a r = out at hI hQ ⊢
  generalize b r' = out' at hI hQ ⊢
  obtain ⟨res, r₁⟩ := out
  obtain ⟨res', r₁'⟩ := out'
  cases hQ with
  | error e => exact ⟨hI, .error e⟩
  | ok hxy => exact hfg _ _ hxy r₁ r₁' hI

theorem mono {P : α → β → Prop} (h : Relates I a b Q) (himp : ∀ x y, Q x y → P x y) : Relates I a b P :=
  fun r r' hr => ⟨(h r r' hr).1, (h r r' hr).2.mono himp⟩

/-- What is read from related registries may be used as long as it is not read again. -/
theorem ask_bind {f : Registry → γ} {g : Registry → δ} {a : γ → Action α} {b : δ → Action β}
    (h : ∀ r r', I r r' → Relates I (a (f r)) (b (g r')) Q) : Relates I (ask f >>= a) (ask g >>= b) Q :=
  fun r r' hr => h r r' hr r r' hr

theorem onError (h : Relates I a b Q) (f : Diagnostic → Diagnostic) : Relates I (a.onError f) (b.onError f) Q := by
  intro r r' hr
  obtain ⟨hI, hQ⟩ := h r r' hr
  simp only [Action.onError]
  generalize a r = out at hI hQ ⊢
  generalize b r' = out' at hI hQ ⊢
  obtain ⟨res, r₁⟩ := out
  obtain ⟨res', r₁'⟩ := out'
  cases hQ with
  | error e => exact ⟨hI, .error _⟩
  | ok hxy => exact ⟨hI, .ok hxy⟩

/-- Items that are related one by one give lists of results that are related one by one. -/
theorem eachFrom {f : Nat → γ → Action α} {g : Nat → δ → Action β} {xs : List γ} {ys : List δ}
    (h : List.Forall₂ (fun x y => ∀ i, Relates I (f i x) (g i y) Q) xs ys) (i : Nat) :
    Relates I (Action.eachFrom f i xs) (Action.eachFrom g i ys) (List.Forall₂ Q) := by
  induction h generalizing i with
  | nil => exact .pure .nil
  | cons hxy _ ih =>
    refine (hxy i).bind fun x y hq => (ih (i + 1)).bind fun xs ys hqs => ?_
    exact .pure (.cons hq hqs)

theorem each {f : γ → Action α} {g : δ → Action β} {xs : List γ} {ys : List δ}
    (h : List.Forall₂ (fun x y => Relates I (f x) (g y) Q) xs ys) :
    Relates I (Action.each f xs) (Action.each g ys) (List.Forall₂ Q) := by
  induction h with
  | nil => exact .pure .nil
  | cons hxy _ ih => exact hxy.bind fun x y hq => ih.bind fun xs ys hqs => .pure (.cons hq hqs)

end Action.Relates
end Blueprint
