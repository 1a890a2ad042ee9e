import Blueprint.Proofs.Compile.Failing
import Blueprint.Proofs.Compile.Registering
import Blueprint.Proofs.Session.Standard

/-!
# Which place a failure names

A location may name a plugin and a parameter. Each of the two is filled in by the cause of the failure, or else by the
nearest frame that supplies it, independently of the other. They belong together (`Diagnostic.Coherent`) for every
cause that names both of them or none, because a parameter and its plugin are supplied by neighbouring frames. A plugin
that cannot make its object and an unknown type name a plugin only, and inside a parameter they get the name of that
parameter, which belongs to the plugin of an enclosing description (`failure_location`).
-/

namespace Blueprint

variable {α β : Type} {c : Catalogue} {r r' : Registry} {e : Diagnostic}

/-- Some plugin of the catalogue has the type tag and declares the parameter. -/
def Catalogue.Declares (c : Catalogue) (tag name : String) : Prop :=
  ∃ key t p, c.plugin? key t = some p ∧ p.tag = tag ∧ ∃ q ∈ p.parameters, q.name = name

/-- Where a plugin and a parameter are named, the parameter is the type or one of the plugin's own. -/
def Diagnostic.Coherent (c : Catalogue) (e : Diagnostic) : Prop :=
  ∀ tag name, e.plugin? = some tag → e.parameter? = some name → name = "type" ∨ c.Declares tag name

/-! ## The catalogue stays -/

theorem Action.Registers.catalogue {a : Action α} {plan : List Mapping} {post : α → Registry → Prop}
    (h : a.Registers r plan post) : (a r).2.catalogue = r.catalogue := by
  obtain ⟨done, -, run, -⟩ := h
  exact run.sameTables.catalogue

theorem catalogue_compile (key : String) (raw : Json) (r : Registry) :
    (compile key raw r).2.catalogue = r.catalogue := (compile_registers r key raw).catalogue

theorem Loader.catalogue_load (l : Loader) (raw : Json) (r : Registry) :
    (l.load raw r).2.catalogue = r.catalogue := ((compile_registersTo _ _).loadWith rfl).catalogue

namespace Action

variable {f : α → Action β}

theorem Calls.catalogue (hf : ∀ x r, (f x r).2.catalogue = r.catalogue) {calls : List (α × β)}
    (h : Calls f r calls r') : r'.catalogue = r.catalogue := by
  induction h with
  | nil => rfl
  | @cons r _ _ x _ _ h _ ih =>
    have hx := hf x r
    rw [h] at hx
    exact ih.trans hx

theorem catalogue_each (hf : ∀ x r, (f x r).2.catalogue = r.catalogue) (xs : List α) (r : Registry) :
    (each f xs r).2.catalogue = r.catalogue := by
  induction xs generalizing r with
  | nil => rfl
  | cons x xs ih =>
    have hx := hf x r
    have hxs := ih (f x r).2
    simp only [each, bind, andThen]
    rcases hfx : f x r with ⟨e | y, r₁⟩ <;> rw [hfx] at hx hxs
    · exact hx
    · rcases hrest : each f xs r₁ with ⟨e | ys, r₂⟩ <;> rw [hrest] at hxs <;> simp only [hrest] <;> exact hxs.trans hx

end Action

theorem Document.catalogue_compileSection (sections : Members) (name : String) (r : Registry) :
    (compileSection sections name r).2.catalogue = r.catalogue := by
  have hsection : compileSection sections name r = compileAll ((r.ensure name).canonical name)
      (((Entries.get? name sections).getD (.arr [])).itemsOrSelf) (r.ensure name) := rfl
  rw [hsection, Attempt.compileAll_eq, Action.catalogue_each (catalogue_compile _)]
  exact (r.sameTables_ensure name).catalogue

theorem catalogue_of_resolve {name key : String} (h : resolve name r = (.ok key, r')) :
    r'.catalogue = r.catalogue := by
  simp only [resolve] at h
  split at h <;> cases h
  rfl

/-! ## What the cause names -/

namespace Diagnostic

/-- A plugin cannot make its object, or there is none for a type. -/
def OfPlugin (e : Diagnostic) : Prop := e.code ∈ [buildErrorCode, unknownTypeCode]

theorem not_ofPlugin (code : String) (h : e.code = code) (hcode : code ∉ [buildErrorCode, unknownTypeCode]) :
    ¬ e.OfPlugin := by
  rw [OfPlugin, h]
  exact hcode

/-- What a diagnostic names of plugin and parameter where it is raised. -/
inductive Raised (c : Catalogue) (e : Diagnostic) : Prop
  | neither (other : ¬ e.OfPlugin) (plugin : e.plugin? = none) (parameter : e.parameter? = none)
  /-- A description lacks its type, so its plugin is not known. -/
  | untyped (other : ¬ e.OfPlugin) (plugin : e.plugin? = none) (parameter : e.parameter? = some "type")
  | both {tag name : String} (other : ¬ e.OfPlugin) (plugin : e.plugin? = some tag)
    (parameter : e.parameter? = some name) (declared : c.Declares tag name)
  | half {tag : String} (cause : e.OfPlugin) (plugin : e.plugin? = some tag) (parameter : e.parameter? = none)

theorem raised_invalidInput (details label : String) : ((invalidInput details).inCategory label).Raised c :=
  .neither (not_ofPlugin invalidInputCode rfl (by decide)) rfl rfl

theorem raised_ofMembers {label : String} {tags : List String} {members : Members}
    (h : Description.ofMembers label tags members = .error e) : e.Raised c := by
  rcases Description.malformed_cases h with ⟨-, -, -, lacks⟩ | ⟨details, rfl⟩
  · exact .untyped (not_ofPlugin _ lacks.code (by decide)) lacks.plugin lacks.parameter
  · exact raised_invalidInput details label

end Diagnostic

/-! ## What the frames supply -/

/-- Frames supply neither a plugin nor a parameter, or the nearest of each kind belong together. -/
inductive Frame.Paired (c : Catalogue) (frames : List Frame) : Prop
  | neither (plugin : frames.findSome? Frame.plugin? = none) (parameter : frames.findSome? Frame.parameter? = none)
  | both {tag name : String} (plugin : frames.findSome? Frame.plugin? = some tag)
    (parameter : frames.findSome? Frame.parameter? = some name) (declared : c.Declares tag name)

namespace Frame.Paired

variable {frames : List Frame}

theorem nil : Paired c [] := .neither rfl rfl

/-- A frame that supplies neither. -/
theorem append {f : Frame} (h : Paired c frames) (hplugin : f.plugin? = none) (hparameter : f.parameter? = none) :
    Paired c (frames ++ [f]) := by
  cases h with
  | neither plugin parameter =>
    exact .neither (by simp [List.findSome?_append, plugin, hplugin])
      (by simp [List.findSome?_append, parameter, hparameter])
  | both plugin parameter declared =>
    exact .both (by simp [List.findSome?_append, plugin]) (by simp [List.findSome?_append, parameter]) declared

/-- The two frames of a parameter that is loaded. -/
theorem append_parameter {tag name : String} (h : Paired c frames) (declared : c.Declares tag name) :
    Paired c (frames ++ [.parameter name, .plugin tag]) := by
  cases h with
  | neither plugin parameter =>
    exact .both (by rw [List.findSome?_append, plugin]; rfl) (by rw [List.findSome?_append, parameter]; rfl) declared
  | both plugin parameter inner =>
    exact .both (by simp [List.findSome?_append, plugin]) (by simp [List.findSome?_append, parameter]) inner

end Frame.Paired

/-! ## Where a failure is raised -/

namespace Attempt

/-- A plugin whose object is to be made is one of the catalogue. -/
def Known (c : Catalogue) : Attempt → Prop
  | .build p _ => ∃ key t, c.plugin? key t = some p
  | _ => True

theorem known_of_reads {key : String} {members : Members} {d : Description} {p : Plugin}
    (h : (r.category key).Reads members d p) : (build p d.input).Known r.catalogue :=
  ⟨key, d.tag, pluginFor_eq_ok h.2⟩

theorem Known.declares {p : Plugin} {input : Members} (h : (build p input).Known c) {q : Parameter}
    (hq : q ∈ p.parameters) : c.Declares p.tag q.name := by
  obtain ⟨key, t, hp⟩ := h
  exact ⟨key, t, p, hp, rfl, q, hq, rfl⟩

/-- What a failure names at its place, and what the frames around the place supply. -/
theorem Raises.located {a : Attempt} {frames : List Frame} (h : a.Raises r e frames r') (known : a.Known r.catalogue) :
    e.Raised r.catalogue ∧ Frame.Paired r.catalogue frames := by
  induction h with
  | refused _ _ h =>
    cases h
    exact ⟨Diagnostic.raised_invalidInput _ _, .nil⟩
  | unknown h =>
    obtain ⟨-, rfl, -⟩ := lookUp_eq_error_iff.mp h
    exact ⟨.neither (Diagnostic.not_ofPlugin Diagnostic.unknownNameCode rfl (by decide)) rfl rfl, .nil⟩
  | malformed h => exact ⟨Diagnostic.raised_ofMembers h, .nil⟩
  | untyped _ h =>
    obtain ⟨-, rfl⟩ := pluginFor_eq_error_iff.mp h
    exact ⟨.half (List.mem_cons_of_mem _ List.mem_cons_self) rfl rfl, .nil⟩
  | duplicate _ _ h =>
    obtain ⟨n, -, -, rfl, -⟩ := registerObject_eq_error_iff.mp h
    exact ⟨.neither (Diagnostic.not_ofPlugin Diagnostic.duplicateNameCode rfl (by decide)) rfl rfl, .nil⟩
  | mapping hd _ ih =>
    obtain ⟨raised, paired⟩ := ih (known_of_reads hd)
    exact ⟨raised, paired.append rfl rfl⟩
  | missing h =>
    have hq := (List.mem_filter.mp (List.mem_of_find?_eq_some h)).1
    exact ⟨.both (Diagnostic.not_ofPlugin Diagnostic.missingRequiredParameterCode rfl (by decide)) rfl rfl
      (known.declares hq), .nil⟩
  | parameter _ order before _ ih =>
    obtain ⟨raised, paired⟩ := ih trivial
    rw [before.catalogue fun call => call.1.loader.catalogue_load call.2] at raised paired
    have hq := (Plugin.mem_given.mp (order ▸ List.mem_append_right _ (List.mem_cons_self ..))).1
    exact ⟨raised, paired.append_parameter (known.declares hq)⟩
  | construct => exact ⟨.half List.mem_cons_self rfl rfl, .nil⟩
  | unreadable =>
    exact ⟨.neither (Diagnostic.not_ofPlugin Diagnostic.loadErrorCode rfl (by decide)) rfl rfl, .nil⟩
  | unresolved h =>
    obtain ⟨-, rfl, -⟩ := resolve_eq_error_iff.mp h
    exact ⟨.neither (Diagnostic.not_ofPlugin Diagnostic.unresolvedCompilerCode rfl (by decide)) rfl rfl, .nil⟩
  | category resolved _ ih => rw [← catalogue_of_resolve resolved]; exact ih trivial
  | item _ before _ ih =>
    rw [before.catalogue (Loader.catalogue_load _)] at ih
    obtain ⟨raised, paired⟩ := ih trivial
    exact ⟨raised, paired.append rfl rfl⟩
  | call _ before _ ih => rw [← before.catalogue (catalogue_compile _)]; exact ih trivial
  | @entry r _ _ name _ _ _ ih => rw [← (r.sameTables_ensure name).catalogue]; exact ih trivial
  | document _ before _ ih =>
    rw [← before.catalogue (Document.catalogue_compileSection _)]
    exact ih trivial
  | unlisted h =>
    obtain ⟨key, -, rfl⟩ := (CompileOrder.sorted_eq_error_iff _ _).mp h
    exact ⟨.neither (Diagnostic.not_ofPlugin Diagnostic.unknownCategoryCode rfl (by decide)) rfl rfl, .nil⟩
  | @shapeless _ _ raw _ map h =>
    cases raw with
    | obj members => exact absurd rfl (map members)
    | _ =>
      cases h
      exact ⟨.neither (Diagnostic.not_ofPlugin Diagnostic.invalidInputCode rfl (by decide)) rfl rfl, .nil⟩

end Attempt

/-- A failure that names a plugin and a parameter names a parameter of the plugin, or its type, unless the plugin could
not make its object or the type has no plugin. These two name the plugin of the cause, and the parameter that is nearest
around it, if there is one; that parameter belongs to the plugin of an enclosing description. -/
theorem failure_location {a : Attempt} (known : a.Known r.catalogue) (h : a.Fails r e r') :
    (e.code ∉ [Diagnostic.buildErrorCode, Diagnostic.unknownTypeCode] → e.Coherent r.catalogue) ∧
    (e.code ∈ [Diagnostic.buildErrorCode, Diagnostic.unknownTypeCode] →
      ∃ e₀ frames, a.Raises r e₀ frames r' ∧ e₀.Passed frames e ∧ e.plugin?.isSome = true ∧ e.plugin? = e₀.plugin? ∧
        e.parameter? = frames.findSome? Frame.parameter? ∧
        ∀ name, e.parameter? = some name →
          ∃ tag, frames.findSome? Frame.plugin? = some tag ∧ r.catalogue.Declares tag name) := by
  obtain ⟨e₀, frames, hraises, rfl⟩ := a.explained r e r' h
  have passed := Diagnostic.passed_through e₀ frames
  obtain ⟨raised, paired⟩ := hraises.located known
  have hplugin := passed.plugin
  have hparameter := passed.parameter
  rw [passed.code]
  cases raised with
  | neither other plugin parameter =>
    refine ⟨fun _ tag name htag hname => ?_, fun cause => absurd cause other⟩
    rw [plugin, Option.none_or, htag] at hplugin
    rw [parameter, Option.none_or, hname] at hparameter
    cases paired with
    | neither none => cases hplugin.trans none
    | both hp hq declared =>
      cases hplugin.trans hp
      cases hparameter.trans hq
      exact .inr declared
  | untyped other plugin parameter =>
    refine ⟨fun _ tag name htag hname => ?_, fun cause => absurd cause other⟩
    rw [parameter, Option.some_or, hname] at hparameter
    exact .inl (Option.some.inj hparameter)
  | both other plugin parameter declared =>
    refine ⟨fun _ tag name htag hname => ?_, fun cause => absurd cause other⟩
    rw [plugin, Option.some_or, htag] at hplugin
    rw [parameter, Option.some_or, hname] at hparameter
    cases hplugin
    cases hparameter
    exact .inr declared
  | half cause plugin parameter =>
    refine ⟨fun other => absurd cause other, fun _ => ?_⟩
    rw [plugin, Option.some_or] at hplugin
    rw [parameter, Option.none_or] at hparameter
    refine ⟨e₀, frames, hraises, passed, by rw [hplugin]; rfl, hplugin.trans plugin.symm, hparameter,
      fun name hname => ?_⟩
    cases paired with
    | neither _ none => cases (hname.symm.trans hparameter).trans none
    | both hp hq declared =>
      cases (hname.symm.trans hparameter).trans hq
      exact ⟨_, hp, declared⟩

namespace Sampling

/-- A document with a union of one interval that has the given bounds. -/
def unionOf (bounds : Members) : Json :=
  .obj [("volume", .arr [.obj [("type", .str "union"), ("volumes",
    .obj ([("type", .str "interval"), ("cv", .obj [("type", .str "position")])] ++ bounds))]])]

/-- The code of a failure, and the plugin and the parameter that it names. -/
def placeOf (raw : Json) : Option (String × Option String × Option String) :=
  match (Document.compile .standard raw standardRegistry).1 with
  | .ok _ => none
  | .error e => some (e.code, e.plugin?, e.parameter?)

theorem fails_of_placeOf {raw : Json} {code : String} {plugin parameter : Option String}
    (h : placeOf raw = some (code, plugin, parameter)) :
    ∃ e r', (Attempt.document .standard raw).Fails standardRegistry e r' ∧ e.code = code ∧ e.plugin? = plugin ∧
      e.parameter? = parameter := by
  rcases hcompile : Document.compile .standard raw standardRegistry with ⟨e | hs, r'⟩
  · simp only [placeOf, hcompile, Option.some.injEq, Prod.mk.injEq] at h
    exact ⟨e, r', hcompile, h⟩
  · simp [placeOf, hcompile] at h

/-- An interval without bounds lacks a parameter of its own. -/
theorem unionOf_unbounded_location :
    ∃ e r', (Attempt.document .standard (unionOf [])).Known standardRegistry.catalogue ∧
      (Attempt.document .standard (unionOf [])).Fails standardRegistry e r' ∧
      e.plugin? = some "interval" ∧ e.parameter? = some "min" ∧ e.Coherent standardRegistry.catalogue := by
  have known : (Attempt.document .standard (unionOf [])).Known standardRegistry.catalogue := trivial
  have hplace : placeOf (unionOf []) =
      some (Diagnostic.missingRequiredParameterCode, some "interval", some "min") := by
    decide +kernel
  obtain ⟨e, r', hfails, hcode, hplugin, hparameter⟩ := fails_of_placeOf hplace
  refine ⟨e, r', known, hfails, hplugin, hparameter, (failure_location known hfails).1 ?_⟩
  rw [hcode]
  decide

/-- An interval whose bounds are reversed is reported with the parameter of the union around it, which no interval
has. -/
theorem unionOf_reversed_incoherent :
    ∃ e r', (Attempt.document .standard (unionOf [("min", .num (.integer 1)), ("max", .num (.integer 0))])).Fails
        standardRegistry e r' ∧
      e.plugin? = some "interval" ∧ e.parameter? = some "volumes" ∧ ¬ e.Coherent standardRegistry.catalogue := by
  have hplace : placeOf (unionOf [("min", .num (.integer 1)), ("max", .num (.integer 0))]) =
      some (Diagnostic.buildErrorCode, some "interval", some "volumes") := by
    decide +kernel
  obtain ⟨e, r', hfails, -, hplugin, hparameter⟩ := fails_of_placeOf hplace
  refine ⟨e, r', hfails, hplugin, hparameter, fun hcoherent => ?_⟩
  have hparameters : ∀ p ∈ plugins, p.tag = "interval" → ∀ q ∈ p.parameters, q.name ≠ "volumes" := by decide +kernel
  rcases hcoherent "interval" "volumes" hplugin hparameter with htype | ⟨key, tag, p, hp, htag, q, hq, hname⟩
  · exact absurd htype (by decide)
  · exact hparameters p (mem_plugins hp) htag q hq hname

end Sampling
end Blueprint
