import Blueprint.Proofs.Compile.Correspondence
import Blueprint.Proofs.Plugin.Opaque
import Blueprint.Proofs.Registry.Tables

/-!
# Compiling under other handles

From two registries that differ in their handles only, opaque plugins compile a document to objects that differ in their
handles only, or to the same error (`Registry.Renamed.compile`).
-/

namespace Blueprint

open Function (Injective)
open List (Forall₂)

variable {ρ : Handle → Handle} {c : Catalogue} {n : Nat}

/-! ## Renamed registries -/

theorem Category.mapHandles_enroll (c : Category) (name : Option String) (h : Handle) :
    (c.enroll name h).mapHandles ρ = (c.mapHandles ρ).enroll name (ρ h) := by
  cases name <;> simp [mapHandles, enroll, Dict.map_insert]

namespace Registry

/-- The registry with its handles renamed, except for objects that no handle stands for; new objects go on to get
handles that correspond. -/
structure Renamed (ρ : Handle → Handle) (r r' : Registry) : Prop where
  aliases : r'.aliases = r.aliases
  category : ∀ key, r'.category key = (r.category key).mapHandles ρ
  store : Store.Renamed ρ r.store r'.store
  next : ∀ i, ρ ⟨r.store.objects.length + i⟩ = ⟨r'.store.objects.length + i⟩

namespace Renamed

variable {r r' : Registry}

theorem canonical (h : Renamed ρ r r') (name : String) : r'.canonical name = r.canonical name := by
  simp only [Registry.canonical, h.aliases]

theorem catalogue (h : Renamed ρ r r') : r'.catalogue = r.catalogue := by
  simp only [Registry.catalogue, h.category, Category.mapHandles, Catalogue.mk.injEq, true_and]
  funext name
  exact h.canonical name

theorem ensure (h : Renamed ρ r r') (name : String) : Renamed ρ (r.ensure name) (r'.ensure name) where
  aliases := by rw [aliases_ensure, aliases_ensure, h.aliases]
  category key := by rw [category_ensure, category_ensure, h.category]
  store := by rw [store_ensure, store_ensure]; exact h.store
  next := by rw [store_ensure, store_ensure]; exact h.next

theorem enroll (hρ : Injective ρ) (h : Renamed ρ r r') (key : String) (o : Object) (name : Option String) :
    Renamed ρ (r.enroll key o name) (r'.enroll key (o.mapHandles ρ) name) where
  aliases := h.aliases
  category k := by
    have hnext : ρ r.store.next = r'.store.next := h.next 0
    rw [category_enroll, category_enroll, h.category, h.category, ← hnext, ← Category.mapHandles_enroll]
    split <;> rfl
  store := by
    have hplaced : (o.mapHandles ρ).placed (r'.category key).label name =
        (o.placed (r.category key).label name).mapHandles ρ := by rw [h.category]; rfl
    have hpush := h.store.push hρ (h.next 0) (o.placed (r.category key).label name)
    rw [← hplaced] at hpush
    exact hpush
  next i := by
    have hi := h.next (i + 1)
    simp only [Registry.enroll, Store.push, List.length_append, List.length_singleton]
    rw [Nat.add_assoc, Nat.add_comm 1 i, hi, Nat.add_assoc, Nat.add_comm 1 i]

end Renamed
end Registry

/-! ## The correspondence -/

/-- A name that a parameter of some plugin refers to. -/
def Catalogue.Targets (c : Catalogue) (name : String) : Prop :=
  ∃ key tag p q, c.plugin? key tag = some p ∧ q ∈ p.parameters ∧ q.loader.target? = some name

/-- Every name that a parameter of some plugin refers to leads to a category. -/
def Registry.Resolves (r : Registry) : Prop :=
  ∀ name, r.catalogue.Targets name → r.categories.contains (r.canonical name) = true

def relabeling (ρ : Handle → Handle) (c : Catalogue) : Correspondence where
  described _ := Eq
  value v w := w = v.mapHandles ρ
  handle h h' := h' = ρ h
  args _ args args' := args' = args.mapHandles ρ
  object o o' := o' = o.mapHandles ρ
  registry r r' := r.catalogue = c ∧ r.Resolves ∧ r'.Resolves ∧ Registry.Renamed ρ r r'

section
variable (hfix : ∀ h, h.index < n → ρ h = h)
include hfix

theorem Loader.Within.loads {l : Loader} (h : l.Within n) (raw : Json) : (relabeling ρ c).Loads c l raw raw := by
  induction l generalizing raw with
  | read reader =>
    refine Agree.map_iff.mpr ?_
    cases hv : reader.read raw with
    | error e => rfl
    | ok v =>
      have hself : v.mapHandles ρ = v :=
        Value.mapHandles_eq_self v fun x hx => hfix x (Reader.Within.index_lt h hv hx)
      rw [Except.map, hself]
  | category name =>
    cases raw with
    | arr items => exact ⟨items, rfl, List.forall₂_same.mpr fun _ _ => rfl⟩
    | _ => exact ⟨by simp, rfl⟩
  | listOf item ih => exact List.forall₂_same.mpr fun x _ => ih h x

theorem Plugin.Opaque.mapHandles_defaults {p : Plugin} (h : p.Opaque n) : p.defaults.mapHandles ρ = p.defaults := by
  refine Arguments.mapHandles_eq_self fun x hx => hfix x ?_
  obtain ⟨key, value, hv, hx⟩ := Arguments.mem_held.mp hx
  rcases Dict.get?_insertAll_cases hv with hm | hn
  · obtain ⟨q, hq, hd⟩ := List.mem_filterMap.mp hm
    obtain ⟨v, hv, he⟩ := Option.map_eq_some_iff.mp hd
    cases he
    exact h.defaults q (List.mem_filter.mp hq).1 value hv x hx
  · simp at hn

end

theorem Plugin.mapHandles_addUndeclared (p : Plugin) (args : Arguments) (input : Members) :
    (p.addUndeclared args input).mapHandles ρ = p.addUndeclared (args.mapHandles ρ) input := by
  rw [addUndeclared, Arguments.mapHandles, Dict.map_insertAll, List.map_map]
  simp only [Function.comp_def, Value.mapHandles_ofJson]
  rfl

theorem Registry.Resolves.of_sameTables {r r' : Registry} (h : r.Resolves) (ht : r.SameTables r')
    (hc : ∀ key, r.categories.contains key = true → r'.categories.contains key = true) : r'.Resolves := by
  intro name hname
  rw [ht.catalogue] at hname
  rw [ht.canonical]
  exact hc _ (h name hname)

theorem relabeling_sound (hρ : Injective ρ) (hfix : ∀ h, h.index < n → ρ h = h)
    (hc : ∀ key tag p, c.plugin? key tag = some p → p.Opaque n) : (relabeling ρ c).Sound c where
  shape key x y hxy := by
    obtain rfl : x = y := hxy
    cases x with
    | str s => exact rfl
    | obj members =>
      refine ⟨members, rfl, fun _ => rfl, fun _ _ => rfl, fun p hp => ⟨fun q hq => ?_, fun args args' hargs => ?_⟩⟩
      · obtain ⟨tag, -, htag⟩ := Option.bind_eq_some_iff.mp hp
        have hload := ((hc key tag p htag).loaders q hq).loads (c := c) hfix
        cases Entries.get? q.name (Mapping.mk key members).input with
        | none => exact .none
        | some raw => exact .some (hload raw)
      · obtain rfl : args' = args.mapHandles ρ := hargs
        exact (p.mapHandles_addUndeclared args _).symm
    | _ => exact rfl
  reference h h' he := by rw [show h' = ρ h from he]; rfl
  list vs ws h := by
    rw [eq_map_of_forall₂ h]
    exact (Value.mapHandles_list vs).symm
  defaults key tag p hp := ((hc key tag p hp).mapHandles_defaults hfix).symm
  insert p key args args' v w hargs hv := by
    rw [show args' = args.mapHandles ρ from hargs, show w = v.mapHandles ρ from hv]
    exact (Dict.map_insert _ args key v).symm
  catalogue r r' := by
    rintro ⟨hr, -, -, h⟩
    exact ⟨hr, h.catalogue.trans hr⟩
  label r r' := by
    rintro ⟨-, -, -, h⟩ key
    rw [h.category]
    rfl
  names r r' := by
    rintro ⟨-, -, -, h⟩ key
    rw [h.category]
    simp [Category.names, Category.mapHandles, Dict.keys, Dict.map]
  named r r' := by
    rintro ⟨-, -, -, h⟩ key m
    rw [h.category, Category.mapHandles, Dict.get?_map]
    cases (r.category key).named.get? m with
    | none => exact .none
    | some h => exact .some rfl
  target r r' := by
    rintro ⟨rfl, hr, hr', h⟩ key tag p hp q hq name ht
    have htargets : r.catalogue.Targets name := ⟨key, tag, p, q, hp, hq, ht⟩
    have hkey : r'.canonical name = r.canonical name := h.canonical name
    have hthere := hr' name (by rw [h.catalogue]; exact htargets)
    rw [hkey] at hthere
    exact hthere.trans (hr name htargets).symm
  build r r' := by
    rintro ⟨-, -, -, h⟩ key tag p hp args args' rfl -
    exact Agree.map_iff.mpr ((hc key tag p hp).builder ρ hρ hfix _ _ h.store args)
  ensure r r' := by
    rintro ⟨hr, hres, hres', h⟩ name
    have hpresent (r : Registry) (key : String) (hk : r.categories.contains key = true) :
        (r.ensure name).categories.contains key = true := by simp [Registry.contains_ensure, hk]
    exact ⟨(r.sameTables_ensure name).catalogue.trans hr, hres.of_sameTables (r.sameTables_ensure name) (hpresent r),
      hres'.of_sameTables (r'.sameTables_ensure name) (hpresent r'), h.ensure name⟩
  enroll r r' := by
    rintro ⟨hr, hres, hres', h⟩ o o' rfl key name free free'
    exact ⟨(h.next 0).symm, Registry.sameTables_enroll.catalogue.trans hr,
      hres.of_sameTables Registry.sameTables_enroll (Registry.extends_enroll free).present,
      hres'.of_sameTables Registry.sameTables_enroll (Registry.extends_enroll free').present, h.enroll hρ key o name⟩

/-! ## Documents -/

/-- Opaque plugins compile a document alike under other handles: to objects that differ in their handles only, or to the
same error. -/
theorem Registry.Renamed.compile {r r' : Registry} (h : Registry.Renamed ρ r r') (hρ : Injective ρ)
    (hfix : ∀ h, h.index < n → ρ h = h) (hplugins : ∀ key tag p, r.catalogue.plugin? key tag = some p → p.Opaque n)
    (hr : r.Resolves) (hr' : r'.Resolves) (order : CompileOrder) (document : Json) :
    (Document.compile order document r').1 = (Document.compile order document r).1.map (List.map ρ) ∧
    Registry.Renamed ρ (Document.compile order document r).2 (Document.compile order document r').2 := by
  cases document with
  | obj sections =>
    have hsections : Correspondence.Sections (relabeling ρ r.catalogue) r.catalogue sections sections :=
      List.forall₂_same.mpr fun s _ => ⟨rfl, List.forall₂_same.mpr fun _ _ => rfl⟩
    obtain ⟨⟨-, -, -, hrenamed⟩, houtcome⟩ :=
      (relabeling_sound hρ hfix hplugins).document hsections order r r' ⟨rfl, hr, hr', h⟩
    exact ⟨Agree.map_iff.mp (houtcome.mono fun _ _ hs => eq_map_of_forall₂ hs), hrenamed⟩
  | _ => exact ⟨rfl, h⟩

end Blueprint
