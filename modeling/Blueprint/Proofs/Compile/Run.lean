import Blueprint.Proofs.Compile.Postorder
import Blueprint.Proofs.Registry.Growth
import Mathlib.Data.List.Forall2

/-!
# Runs of the compiler

All that compiling changes is that objects are registered. One `Registry.Step` registers the object of one mapping: its
plugin built the object of arguments that come from the mapping, from its references, or from defaults. A
`Registry.Run` is a sequence of steps, one for each mapping of a list. What steps and runs do to a registry is proved
here; that compiling is such a run is proved of the compiler.
-/

namespace Blueprint

/-! ## Where values come from -/

/-- The object that a description refers to: a string refers to the object bound to it, everything else to some object
of the category. -/
def Registry.Refers (r : Registry) (key : String) : Json → Handle → Prop
  | .str name, h => (r.category key).named.get? name = some h
  | _, h => h ∈ (r.category key).objects

/-- What a category gives for a description or a list of them: an object, or a list of objects. -/
def Registry.Gives (r : Registry) (key : String) : Json → Value → Prop
  | .arr items, value => ∃ hs : List Handle, value = .list (hs.map .object) ∧ List.Forall₂ (r.Refers key) items hs
  | raw, value => ∃ h, value = .object h ∧ r.Refers key raw h

/-- The values that a loader may give for a description, as the registry stands. -/
def Loader.Yields (r : Registry) : Loader → Json → Value → Prop
  | .read reader, raw, value => reader.read raw = .ok value
  | .category name, raw, value => r.Gives (r.canonical name) raw value
  | .listOf item, raw, value => ∃ values, value = .list values ∧ List.Forall₂ (item.Yields r) raw.itemsOrSelf values

/-- Where the argument of a name comes from: it is the default of a parameter, it was loaded, or it belongs to no
parameter. -/
inductive Plugin.Origin (p : Plugin) (r : Registry) (input : Members) : String → Value → Prop
  | byDefault {q : Parameter} {value : Value} (hq : q ∈ p.parameters) (hd : q.default = some value) :
    Origin p r input q.name value
  | loaded {q : Parameter} {raw : Json} {value : Value} (hq : q ∈ p.parameters)
    (hraw : Entries.get? q.name input = some raw) (hv : q.loader.Yields r raw value) :
    Origin p r input q.name value
  | undeclared {key : String} {raw : Json} (hkey : p.parameter? key = none) (hm : (key, raw) ∈ input) :
    Origin p r input key (Value.ofJson raw)

/-- Every argument comes from the input of the plugin or is a default. -/
def Plugin.Sourced (p : Plugin) (r : Registry) (input : Members) (args : Arguments) : Prop :=
  ∀ key value, args.get? key = some value → p.Origin r input key value

/-! ## Steps and runs -/

namespace Registry

inductive Step (r : Registry) (m : Mapping) : Registry → Prop
  | register {p : Plugin} {args : Arguments} {o : Object} (hp : m.plugin? r.catalogue = some p)
    (hargs : p.Sourced r m.input args) (built : p.builder.build r.store args = .ok o)
    (free : r.Free m.key m.name?) :
    Step r m (r.enroll m.key o m.name?)

/-- Registers the objects of mappings, one after the other. -/
inductive Run : Registry → List Mapping → Registry → Prop
  | nil (r : Registry) : Run r [] r
  | cons {r r₁ r₂ : Registry} {m : Mapping} {ms : List Mapping} (h : Step r m r₁) (t : Run r₁ ms r₂) :
    Run r (m :: ms) r₂

variable {r r₁ r₂ : Registry} {m : Mapping} {ms ms' : List Mapping}

theorem Run.one (h : r.Step m r₁) : r.Run [m] r₁ := .cons h (.nil _)

theorem Run.append (h : r.Run ms r₁) (h' : r₁.Run ms' r₂) : r.Run (ms ++ ms') r₂ := by
  induction h with
  | nil => exact h'
  | cons h _ ih => exact .cons h (ih h')

/-! ## What a step does -/

theorem Step.contains (h : r.Step m r₁) : r.categories.contains m.key = true := by
  cases h with
  | register hp =>
    by_contra hc
    have he := category_of_not_contains (by simpa using hc)
    simp [Mapping.plugin?, catalogue, he, Category.empty] at hp

theorem Step.extends (h : r.Step m r₁) : r.Extends r₁ := by
  cases h with
  | register _ _ _ free => exact extends_enroll free

theorem Step.sameTables (h : r.Step m r₁) : r.SameTables r₁ := by
  cases h with
  | register => exact sameTables_enroll

theorem Step.contains_eq (h : r.Step m r₁) (key : String) :
    r₁.categories.contains key = r.categories.contains key := by
  have hm := h.contains
  cases h with
  | register => exact contains_enroll_of_contains _ _ _ _ hm key

theorem Step.objects (h : r.Step m r₁) (key : String) :
    (r₁.category key).objects = (r.category key).objects ++ if m.key = key then [r.store.next] else [] := by
  cases h with
  | register => exact objects_enroll _ _ _ _ _

theorem Step.length (h : r.Step m r₁) : r₁.store.objects.length = r.store.objects.length + 1 := by
  cases h with
  | register => simp [enroll, Store.push]

/-- A category without plugins is left alone. -/
theorem Step.category_of_empty {key : String} (h : r.Step m r₁) (he : (r.category key).dispatch = .empty) :
    r₁.category key = r.category key := by
  cases h with
  | register hp =>
    rw [category_enroll, if_neg]
    rintro rfl
    simp [Mapping.plugin?, catalogue, he] at hp

/-! ## What a run does -/

theorem Run.extends (h : r.Run ms r₁) : r.Extends r₁ := by
  induction h with
  | nil => exact .refl _
  | cons h _ ih => exact h.extends.trans ih

theorem Run.sameTables (h : r.Run ms r₁) : r.SameTables r₁ := by
  induction h with
  | nil => exact .refl _
  | cons h _ ih => exact h.sameTables.trans ih

theorem SameTables.catalogue (h : r.SameTables r₁) : r₁.catalogue = r.catalogue := by
  simp only [Registry.catalogue, h.dispatch, Catalogue.mk.injEq, true_and]
  exact funext h.canonical

/-! ## What was loaded stays loaded -/

theorem Refers.mono {key : String} {raw : Json} {o : Handle} (e : r.Extends r₁) (h : r.Refers key raw o) :
    r₁.Refers key raw o := by
  cases raw with
  | str name => exact e.named key name o h
  | _ => exact (e.objects key).subset h

theorem Gives.mono {key : String} {raw : Json} {value : Value} (e : r.Extends r₁) (h : r.Gives key raw value) :
    r₁.Gives key raw value := by
  cases raw with
  | arr items =>
    obtain ⟨hs, rfl, hr⟩ := h
    exact ⟨hs, rfl, hr.imp fun _ _ => .mono e⟩
  | _ =>
    obtain ⟨o, rfl, hr⟩ := h
    exact ⟨o, rfl, hr.mono e⟩

end Registry

theorem Loader.Yields.mono {r r₁ : Registry} (e : r.Extends r₁) (t : r.SameTables r₁) {l : Loader} {raw : Json}
    {value : Value} (h : l.Yields r raw value) : l.Yields r₁ raw value := by
  induction l generalizing raw value with
  | read reader => exact h
  | category name =>
    simp only [Yields, t.canonical] at h ⊢
    exact h.mono e
  | listOf item ih =>
    obtain ⟨values, rfl, hv⟩ := h
    exact ⟨values, rfl, hv.imp fun _ _ h => ih h⟩

theorem Plugin.Origin.mono {r r₁ : Registry} (e : r.Extends r₁) (t : r.SameTables r₁) {p : Plugin} {input : Members}
    {key : String} {value : Value} (h : p.Origin r input key value) : p.Origin r₁ input key value := by
  cases h with
  | byDefault hq hd => exact .byDefault hq hd
  | loaded hq hraw hv => exact .loaded hq hraw (hv.mono e t)
  | undeclared hkey hm => exact .undeclared hkey hm

end Blueprint
