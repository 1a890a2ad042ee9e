import Blueprint.Proofs.Object.Handles

/-!
# Conservative plugins

A plugin is conservative if every handle in an object that it builds was given by a reference: its defaults hold none,
functions that read a parameter return none, and constructor and hooks only pass on those in their arguments.
-/

namespace Blueprint

/-! ## Readers and loaders -/

/-- A function of the description returns no handles. Of the other readers this is always true. -/
def Reader.Plain : Reader → Prop
  | .custom read _ _ => ∀ raw value, read raw = .ok value → value.held = []
  | _ => True

theorem Reader.held_of_plain {reader : Reader} (h : reader.Plain) {raw : Json} {value : Value}
    (hv : reader.read raw = .ok value) : value.held = [] := by
  cases reader with
  | custom f => exact h raw value hv
  | passthrough =>
    cases hv
    exact Value.held_ofJson raw
  | float | integer =>
    obtain ⟨x, -, hv⟩ := of_bind_ok hv
    cases hv
    rfl
  | positiveInteger =>
    obtain ⟨n, -, hv⟩ := of_bind_ok hv
    split at hv <;> cases hv
    rfl
  | text =>
    cases raw <;> cases hv
    rfl
  | flag =>
    cases raw <;> cases hv
    rfl
  | choice choices =>
    cases raw with
    | str s =>
      simp only [read] at hv
      split at hv <;> cases hv
      rfl
    | _ => cases hv

namespace Loader

/-- The category that a loader refers to, through any number of lists. -/
def target? : Loader → Option String
  | .read _ => none
  | .listOf item => item.target?
  | .category name => some name

/-- Whatever function reads the items returns no handles. -/
def Plain : Loader → Prop
  | .read reader => reader.Plain
  | .listOf item => item.Plain
  | .category _ => True

def standard : Loader → Bool
  | .read (.custom _ _ _) => false
  | .read _ => true
  | .listOf item => item.standard
  | .category _ => true

theorem plain_of_standard {l : Loader} (h : l.standard = true) : l.Plain := by
  induction l with
  | read reader =>
    cases reader with
    | custom f => cases h
    | _ => exact trivial
  | listOf item ih => exact ih h
  | category name => exact trivial

end Loader

/-! ## Builders -/

/-- Constructor and hooks only pass on the handles in their arguments. -/
structure Builder.Faithful (b : Builder) : Prop where
  construct : ∀ store args o, b.construct store args = .ok o → ∀ h ∈ o.held, h ∈ args.held
  remap : ∀ args, ∀ h ∈ (b.remap args).held, h ∈ args.held
  finish : ∀ o args o', b.finish o args = .ok o' → ∀ h ∈ o'.held, h ∈ o.held ∨ h ∈ args.held

theorem Builder.Faithful.build {b : Builder} (hb : b.Faithful) {store : Store} {args : Arguments} {o : Object}
    (ho : b.build store args = .ok o) : ∀ h ∈ o.held, h ∈ args.held := by
  intro h hh
  obtain ⟨o₁, hc, ho⟩ := of_bind_ok ho
  rcases hb.finish o₁ args o ho h hh with hh | hh
  · exact hb.remap args h (hb.construct store (b.remap args) o₁ hc h hh)
  · exact hh

theorem Builder.Faithful.of_construct {c : Constructor} {path : Option String}
    (h : ∀ store args o, c store args = .ok o → ∀ h ∈ o.held, h ∈ args.held) :
    Builder.Faithful { construct := c, path } where
  construct := h
  remap _ _ hh := hh
  finish o args o' ho h hh := by
    cases ho
    exact .inl hh

/-! ## Plugins -/

/-- Every handle in an object of the plugin was given by a reference. -/
structure Plugin.Conservative (p : Plugin) : Prop where
  defaults : ∀ q ∈ p.parameters, ∀ value, q.default = some value → value.held = []
  loaders : ∀ q ∈ p.parameters, q.loader.Plain
  builder : p.builder.Faithful

end Blueprint
