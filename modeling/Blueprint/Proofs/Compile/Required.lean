import Blueprint.Proofs.Compile.Failing
import Blueprint.Proofs.Document.SchemaDefinitions
import Blueprint.Proofs.Session.Listing
import Blueprint.Proofs.Session.Standard

/-!
# What schemas require

The schema of a plugin lists the keys that a description must have. The compiler looks for them at two places: the type
when it reads the description, and the parameters in the plugin. `Category.Lacks` says that one of the two misses
something, which is decided by the keys alone: no loader is run (`Category.Lacks.withLoaders`). The schema and the
compiler agree about it (`lacking_iff_required`).
-/

namespace Blueprint

open Diagnostic

variable {r r' : Registry} {c : Category} {p : Plugin} {key : String} {members : Members} {e : Diagnostic}

/-! ## Keys of a schema -/

namespace Schema

/-- The keys that a schema requires, in order. -/
def requiredKeys (schema : Json) : List String :=
  match schema.member? "required" with
  | some (.arr items) => items.filterMap Json.text?
  | _ => []

/-- The keys that a schema has properties for, in order. -/
def propertyKeys (schema : Json) : List String :=
  match schema.member? "properties" with
  | some (.obj properties) => properties.map (·.1)
  | _ => []

theorem requiredKeys_schema (store : Store) (p : Plugin) :
    requiredKeys (p.schema store) = "type" :: p.requiredParameters.map Parameter.name := by
  have hrequired : (p.schema store).member? "required" =
      some (.arr (.str "type" :: p.requiredParameters.map fun q => .str q.name)) := by
    simp only [Plugin.schema, Json.member?]
    cases p.description <;> rfl
  rw [requiredKeys, hrequired]
  simp [List.filterMap_map, Function.comp_def, Json.text?, List.filterMap_eq_map']

theorem propertyKeys_schema (store : Store) (accepted : p.checked = .ok p) :
    propertyKeys (p.schema store) = "name" :: "type" :: p.parameters.map Parameter.name := by
  obtain ⟨distinct, hfree⟩ := Plugin.checked_eq_ok_iff.mp accepted
  rw [propertyKeys, properties_of_schema, Entries.setAll_eq_append]
  · simp [Function.comp_def]
  · simpa [Function.comp_def] using distinct
  · intro e he
    obtain ⟨q, hq, rfl⟩ := List.mem_map.mp he
    obtain ⟨hname, htype⟩ := hfree q hq
    simp [Entries.get?_cons, hname.symm, htype.symm]

theorem nodup_propertyKeys (store : Store) (accepted : p.checked = .ok p) : (propertyKeys (p.schema store)).Nodup := by
  obtain ⟨distinct, hfree⟩ := Plugin.checked_eq_ok_iff.mp accepted
  rw [propertyKeys_schema store accepted]
  refine List.nodup_cons.mpr ⟨?_, List.nodup_cons.mpr ⟨?_, distinct⟩⟩
  · simpa using fun q hq => (hfree q hq).1
  · simpa using fun q hq => (hfree q hq).2

end Schema

/-! ## What a description lacks -/

/-- A description has no type, or its plugin misses a parameter. The diagnostic names what comes first. -/
inductive Category.Lacks (c : Category) (members : Members) : Diagnostic → Prop
  | type {name : Option String} {e : Diagnostic} (hname : Description.nameOf c.label members = .ok name)
    (absent : Entries.get? "type" members = none) (h : Description.tagOf c.label c.tags members = .error e) :
    Lacks c members e
  | parameter {d : Description} {p : Plugin} {q : Parameter} (hd : c.Reads members d p)
    (h : p.missing? d.input = some q) :
    Lacks c members ((missingRequiredParameter p.tag q.name).through [.mapping c.label d])

/-- A diagnostic about a missing parameter comes out that was raised in the description itself: it passes no parameter
on its way. -/
def Lacking (r : Registry) (key : String) (members : Members) (e : Diagnostic) (r' : Registry) : Prop :=
  compile key (.obj members) r = (.error e, r') ∧
    ∃ e₀ frames, (Attempt.description key (.obj members)).Raises r e₀ frames r' ∧ e₀.Passed frames e ∧
      e₀.code = missingRequiredParameterCode ∧ ∀ f ∈ frames, f.parameter? = none

theorem Category.Lacks.lacking (h : (r.category key).Lacks members e) : Lacking r key members e r := by
  cases h with
  | type hname absent h =>
    have hmalformed : Description.ofMembers (r.category key).label (r.category key).tags members = .error e := by
      rw [Description.ofMembers, hname, h]
      rfl
    have hcode : e.code = missingRequiredParameterCode := by
      simp only [Description.tagOf, absent] at h
      cases h
      rfl
    exact ⟨(Attempt.Raises.malformed hmalformed).fails, e, [], .malformed hmalformed, passed_through e [],
      hcode, by simp⟩
  | parameter hd h =>
    exact ⟨(Attempt.Raises.mapping hd (.missing h)).fails, _, _, .mapping hd (.missing h),
      passed_through _ _, rfl, by simp [Frame.parameter?]⟩

/-- The type is what a malformed description lacks if it lacks anything. -/
theorem lacks_of_malformed (h : Description.ofMembers c.label c.tags members = .error e)
    (hcode : e.code = missingRequiredParameterCode) : c.Lacks members e := by
  rcases Description.malformed_cases h with ⟨absent, ⟨name, hname⟩, htag, -⟩ | ⟨details, rfl⟩
  · exact .type hname absent htag
  · exact absurd (show invalidInputCode = missingRequiredParameterCode from hcode) (by decide)

theorem lacks_of_lacking (h : Lacking r key members e r') : (r.category key).Lacks members e ∧ r' = r := by
  obtain ⟨-, e₀, frames, hraises, hpassed, hcode, hframes⟩ := h
  obtain rfl := passed_iff.mp hpassed
  cases hraises with
  | refused _ map => exact absurd rfl (map members)
  | malformed h => exact ⟨lacks_of_malformed h hcode, rfl⟩
  | untyped _ h =>
    obtain ⟨-, rfl⟩ := pluginFor_eq_error_iff.mp h
    exact absurd (show unknownTypeCode = missingRequiredParameterCode from hcode) (by decide)
  | duplicate _ _ h =>
    obtain ⟨n, -, -, rfl, -⟩ := registerObject_eq_error_iff.mp h
    exact absurd (show duplicateNameCode = missingRequiredParameterCode from hcode) (by decide)
  | mapping hd h =>
    cases h with
    | missing h => exact ⟨.parameter hd h, rfl⟩
    | @parameter _ _ _ p _ _ q => cases hframes (.parameter q.name) (by simp)
    | construct => exact absurd (show buildErrorCode = missingRequiredParameterCode from hcode) (by decide)

/-! ## Loaders are not asked -/

/-- The plugin with other loaders. -/
def Plugin.withLoaders (f : Plugin → Parameter → Loader) (p : Plugin) : Plugin :=
  { p with parameters := p.parameters.map fun q => { q with loader := f p q } }

def Category.withLoaders (f : Plugin → Parameter → Loader) (c : Category) : Category :=
  { c with dispatch := c.dispatch.map (Plugin.withLoaders f) }

/-- The registry with other loaders in its plugins. -/
def Registry.withLoaders (f : Plugin → Parameter → Loader) (r : Registry) : Registry :=
  { r with categories := r.categories.map (Category.withLoaders f) }

section
variable (f : Plugin → Parameter → Loader)

theorem Registry.category_withLoaders (r : Registry) (key : String) :
    (r.withLoaders f).category key = (r.category key).withLoaders f := by
  simp only [category, withLoaders, Dict.get?_map]
  cases r.categories.get? key <;> rfl

theorem Category.tags_withLoaders (c : Category) : (c.withLoaders f).tags = c.tags := by
  simp [tags, withLoaders, Dict.keys, Dict.map, Function.comp_def]

theorem Plugin.missing?_withLoaders (p : Plugin) (input : Members) :
    (p.withLoaders f).missing? input = (p.missing? input).map fun q => { q with loader := f p q } := by
  simp only [missing?, requiredParameters, withLoaders, List.filter_map, List.find?_map]
  rfl

theorem Category.Reads.withLoaders {d : Description} (h : c.Reads members d p) :
    (c.withLoaders f).Reads members d (p.withLoaders f) := by
  refine ⟨by rw [c.tags_withLoaders]; exact h.1, ?_⟩
  have hp : (c.withLoaders f).dispatch.get? d.tag = some (p.withLoaders f) := by
    rw [Category.withLoaders, Dict.get?_map, pluginFor_eq_ok h.2]
    rfl
  rw [pluginFor, hp]

theorem Category.Lacks.withLoaders (h : c.Lacks members e) : (c.withLoaders f).Lacks members e := by
  cases h with
  | type hname absent h =>
    refine .type hname absent ?_
    rw [c.tags_withLoaders]
    exact h
  | @parameter d p q hd h =>
    have hmissing : (p.withLoaders f).missing? d.input = some { q with loader := f p q } := by
      rw [Plugin.missing?_withLoaders, h]
      rfl
    exact (Lacks.parameter (hd.withLoaders f) hmissing :)

end

/-! ## Schemas and the compiler agree -/

/-- A mapping as the compiler of a category takes it for one of a plugin: if it has a name or a type, the name is null
or a text, and the type is bound to the plugin. -/
structure Category.Takes (c : Category) (members : Members) (p : Plugin) : Prop where
  name : ∀ x, Entries.get? "name" members = some x → x = .null ∨ ∃ text, x = .str text
  type : ∀ x, Entries.get? "type" members = some x → ∃ tag, x = .str tag ∧ c.dispatch.get? tag = some p

namespace Category.Takes

theorem nameOf_eq_ok (h : c.Takes members p) : ∃ name, Description.nameOf c.label members = .ok name := by
  cases hname : Entries.get? "name" members with
  | none => exact ⟨none, by simp [Description.nameOf, hname]⟩
  | some x =>
    obtain rfl | ⟨text, rfl⟩ := h.name x hname
    · exact ⟨none, by simp [Description.nameOf, hname]⟩
    · exact ⟨some text, by simp [Description.nameOf, hname]⟩

/-- With a type, the description is read as one of the plugin. -/
theorem reads (h : c.Takes members p) {x : Json} (htype : Entries.get? "type" members = some x) :
    ∃ d, c.Reads members d p ∧ d.input = Entries.erase "type" (Entries.erase "name" members) := by
  obtain ⟨name, hname⟩ := h.nameOf_eq_ok
  obtain ⟨tag, rfl, hp⟩ := h.type x htype
  have htag : Description.tagOf c.label c.tags members = .ok tag := by rw [Description.tagOf, htype]
  refine ⟨⟨name, tag, _⟩, ⟨?_, ?_⟩, rfl⟩
  · rw [Description.ofMembers, hname, htag]
    rfl
  · rw [pluginFor, hp]

theorem plugin_eq (h : c.Takes members p) {d : Description} {q : Plugin} (hd : c.Reads members d q) : q = p := by
  have htag := (Description.of_ok hd.1 "").2.1
  obtain ⟨x, hx, htext⟩ := Option.bind_eq_some_iff.mp htag
  obtain ⟨tag, rfl, hp⟩ := h.type x hx
  cases htext
  exact Option.some.inj ((pluginFor_eq_ok hd.2).symm.trans hp)

end Category.Takes

/-- No parameter of an accepted plugin is a key that the compiler takes away. -/
theorem Plugin.get?_input (accepted : p.checked = .ok p) {q : Parameter} (hq : q ∈ p.parameters) (members : Members) :
    Entries.get? q.name (Entries.erase "type" (Entries.erase "name" members)) = Entries.get? q.name members := by
  obtain ⟨hname, htype⟩ := (Plugin.checked_eq_ok_iff.mp accepted).2 q hq
  rw [Entries.get?_erase, Entries.get?_erase, if_neg htype.symm, if_neg hname.symm]

/-- The parameter that is missed is the first one that is required and has no value. -/
theorem Plugin.map_missing? (accepted : p.checked = .ok p) (members : Members) :
    (p.missing? (Entries.erase "type" (Entries.erase "name" members))).map Parameter.name =
      (p.requiredParameters.map Parameter.name).find? fun k => (Entries.get? k members).isNone := by
  rw [List.find?_map, missing?]
  refine congrArg _ (List.find?_congr fun q hq => ?_)
  rw [Plugin.get?_input accepted (List.mem_filter.mp hq).1]
  rfl

/-- The first key that a schema requires and a mapping does not have. -/
def Schema.absent? (schema : Json) (members : Members) : Option String :=
  (requiredKeys schema).find? fun k => (Entries.get? k members).isNone

theorem Schema.absent?_of_untyped (store : Store) (absent : Entries.get? "type" members = none) :
    absent? (p.schema store) members = some "type" := by
  rw [absent?, requiredKeys_schema, List.find?_cons_of_pos (by simp [absent])]

theorem Schema.absent?_of_typed (store : Store) (accepted : p.checked = .ok p) {x : Json}
    (htype : Entries.get? "type" members = some x) : absent? (p.schema store) members =
      (p.missing? (Entries.erase "type" (Entries.erase "name" members))).map Parameter.name := by
  rw [absent?, requiredKeys_schema, List.find?_cons_of_neg (by simp [htype]), Plugin.map_missing? accepted]

/-- What a description lacks is named, and it is the first key that the schema requires and the mapping does not have. -/
theorem Category.Lacks.parameter_eq (h : c.Lacks members e) (takes : c.Takes members p) (accepted : p.checked = .ok p)
    (store : Store) : e.parameter?.isSome = true ∧ e.parameter? = Schema.absent? (p.schema store) members := by
  cases h with
  | type _ absent h =>
    simp only [Description.tagOf, absent] at h
    cases h
    exact ⟨rfl, (Schema.absent?_of_untyped store absent).symm⟩
  | parameter hd h =>
    obtain rfl := takes.plugin_eq hd
    obtain ⟨-, htag, hinput⟩ := Description.of_ok hd.1 ""
    obtain ⟨x, htype, -⟩ := Option.bind_eq_some_iff.mp htag
    rw [hinput, Mapping.input] at h
    rw [Schema.absent?_of_typed store accepted htype, h]
    exact ⟨rfl, rfl⟩

/-- A mapping without one of the keys that the schema requires lacks something. -/
theorem Category.Takes.lacks (takes : c.Takes members p) (accepted : p.checked = .ok p) {store : Store} {k : String}
    (hk : Schema.absent? (p.schema store) members = some k) : ∃ e, c.Lacks members e := by
  cases htype : Entries.get? "type" members with
  | none =>
    obtain ⟨name, hname⟩ := takes.nameOf_eq_ok
    exact ⟨_, .type hname htype (by rw [Description.tagOf, htype])⟩
  | some x =>
    obtain ⟨d, hd, hinput⟩ := takes.reads htype
    rw [Schema.absent?_of_typed store accepted htype, ← hinput] at hk
    obtain ⟨q, hq, -⟩ := Option.map_eq_some_iff.mp hk
    exact ⟨_, .parameter hd hq⟩

/-- A mapping for a plugin, with or without its type, is reported as lacking something exactly if one of the keys is
absent that the schema of the plugin requires. The first of them is what the diagnostic names. Nothing is registered
before, and no loader is run: the outcome is the same for any other loaders. The schema has each of its required keys
and each parameter of the plugin among its properties once. -/
theorem lacking_iff_required (accepted : p.checked = .ok p) (takes : (r.category key).Takes members p) :
    ((∃ e r', Lacking r key members e r') ↔
      ∃ k ∈ Schema.requiredKeys (p.schema r.store), Entries.get? k members = none) ∧
    (∀ e r', Lacking r key members e r' →
      r' = r ∧ e.parameter? = Schema.absent? (p.schema r.store) members ∧
      ∀ f, compile key (.obj members) (r.withLoaders f) = (.error e, r.withLoaders f)) ∧
    Schema.propertyKeys (p.schema r.store) = "name" :: "type" :: p.parameters.map Parameter.name ∧
    ∀ k, k ∈ Schema.requiredKeys (p.schema r.store) ∨ k ∈ p.parameters.map Parameter.name →
      (Schema.propertyKeys (p.schema r.store)).count k = 1 := by
  have habsent : (∃ k ∈ Schema.requiredKeys (p.schema r.store), Entries.get? k members = none) ↔
      (Schema.absent? (p.schema r.store) members).isSome = true := by
    simp [Schema.absent?, List.find?_isSome]
  refine ⟨Iff.trans ⟨?_, fun h => ?_⟩ habsent.symm, fun e r' h => ?_, Schema.propertyKeys_schema r.store accepted,
    fun k hk => ?_⟩
  · rintro ⟨e, r', h⟩
    obtain ⟨hsome, heq⟩ := (lacks_of_lacking h).1.parameter_eq takes accepted r.store
    exact heq ▸ hsome
  · obtain ⟨k, hk⟩ := Option.isSome_iff_exists.mp h
    obtain ⟨e, hlacks⟩ := takes.lacks accepted hk
    exact ⟨e, r, hlacks.lacking⟩
  · obtain ⟨hlacks, rfl⟩ := lacks_of_lacking h
    refine ⟨rfl, (hlacks.parameter_eq takes accepted r'.store).2, fun f => ?_⟩
    have hother : ((r'.withLoaders f).category key).Lacks members e := by
      rw [Registry.category_withLoaders]
      exact hlacks.withLoaders f
    exact hother.lacking.1
  · refine List.count_eq_one_of_mem (Schema.nodup_propertyKeys r.store accepted) ?_
    rw [Schema.requiredKeys_schema] at hk
    rw [Schema.propertyKeys_schema r.store accepted]
    have hrequired : p.requiredParameters ⊆ p.parameters := List.filter_subset_self _
    obtain hk | hk := hk
    · obtain rfl | hk := List.mem_cons.mp hk
      · simp
      · exact List.mem_cons_of_mem _ (List.mem_cons_of_mem _ (List.map_subset _ hrequired hk))
    · exact List.mem_cons_of_mem _ (List.mem_cons_of_mem _ hk)

namespace Sampling

/-- An interval with a lower bound only, which holds the description of its variable. -/
def halfInterval : Members :=
  [("type", .str "range"), ("name", .null), ("cv", .obj [("type", .str "position")]), ("min", .num (.integer 0))]

theorem takes_halfInterval {p : Plugin} (h : r.catalogue.plugin? "volume" "range" = some p) :
    (r.category "volume").Takes halfInterval p := by
  refine ⟨fun x hx => ?_, fun x hx => ?_⟩ <;> cases hx
  · exact .inl rfl
  · exact ⟨"range", rfl, h⟩

/-- The upper bound is lacking, and the variable is not even registered. -/
theorem halfInterval_lacking :
    intervalPlugin.checked = .ok intervalPlugin ∧
    (standardRegistry.category "volume").Takes halfInterval intervalPlugin ∧
    ∃ e, Lacking standardRegistry "volume" halfInterval e standardRegistry ∧ e.parameter? = some "max" := by
  have accepted := plugins_accepted intervalPlugin (by simp [plugins])
  have htag : standardRegistry.catalogue.plugin? "volume" "range" = some intervalPlugin :=
    plugin?_of_serial (by simp [plugins]) (by decide +kernel)
  have takes : (standardRegistry.category "volume").Takes halfInterval intervalPlugin := takes_halfInterval htag
  obtain ⟨hiff, hlacking, -, -⟩ := lacking_iff_required accepted takes
  obtain ⟨e, r', h⟩ := hiff.mpr ⟨"max", by decide +kernel, rfl⟩
  obtain ⟨hr, hparameter, -⟩ := hlacking e r' h
  rw [hr] at h
  exact ⟨accepted, takes, e, h, hparameter.trans (by decide +kernel)⟩

end Sampling
end Blueprint
