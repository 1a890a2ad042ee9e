import Blueprint.Proofs.Compile.Recording
import Blueprint.Sampling.Plugins

/-!
# The arguments of a plugin

A plugin is accepted exactly if its parameters have distinct names, none of them reserved (`checked_eq_ok_iff`). What
an accepted plugin makes of an input is told completely by `Plugin.Answers`: which loaders are called, in which order
and from which registry, which diagnostic comes out if one of them fails, and the value of every argument if none does.
-/

namespace Blueprint

/-! ## Acceptance -/

namespace Plugin

variable {p : Plugin} {input : Members}

theorem checkNames_eq_ok_iff (tag : String) (seen : List String) (qs : List Parameter) :
    checkNames tag seen qs = .ok () ↔
      (∀ q ∈ qs, q.name ∉ reservedKeys ∧ q.name ∉ seen) ∧ (qs.map Parameter.name).Nodup := by
  induction qs generalizing seen with
  | nil => simp [checkNames]
  | cons q qs ih =>
    simp only [checkNames, List.contains_iff_mem]
    split
    · next hreserved => simp [hreserved]
    · next hfree =>
      split
      · next hseen => simp [hseen]
      · next hnew =>
        simp only [ih, List.map_cons, List.nodup_cons, List.mem_map, List.mem_cons]
        grind

theorem checked_eq_ok_iff : p.checked = .ok p ↔
    (p.parameters.map Parameter.name).Nodup ∧ ∀ q ∈ p.parameters, q.name ≠ "name" ∧ q.name ≠ "type" := by
  have hok : p.checked = .ok p ↔ checkNames p.tag [] p.parameters = .ok () := by
    simp only [checked]
    cases checkNames p.tag [] p.parameters <;> simp [Except.map]
  rw [hok, checkNames_eq_ok_iff, and_comm]
  simp [reservedKeys]

end Plugin

/-- All plugins that a catalogue leads to have been accepted. -/
def Catalogue.Accepted (c : Catalogue) : Prop := ∀ key tag p, c.plugin? key tag = some p → p.checked = .ok p

/-! ## Calls -/

/-- Calls that succeed one after the other, from one registry to another, each with its result. -/
inductive Action.Calls {α β : Type} (f : α → Action β) : Registry → List (α × β) → Registry → Prop
  | nil (r : Registry) : Calls f r [] r
  | cons {r r₁ r₂ : Registry} {x : α} {y : β} {rest : List (α × β)} (h : f x r = (.ok y, r₁))
    (t : Calls f r₁ rest r₂) : Calls f r ((x, y) :: rest) r₂

/-- What the loader of a parameter makes of a value. -/
def Parameter.loaded (compile : Compile) (call : Parameter × Json) : Action Value :=
  call.1.loader.loadWith compile call.2

/-- What a parameter is called with, if the input has a value for it. -/
def Parameter.given? (input : Members) (q : Parameter) : Option (Parameter × Json) :=
  (Entries.get? q.name input).map fun raw => (q, raw)

namespace Plugin

variable {p : Plugin} {input : Members} {compile : Compile} {r : Registry}

/-- The parameters that the input has a value for, in load order: required ones first, and both groups in the order of
declaration. -/
def given (p : Plugin) (input : Members) : List (Parameter × Json) :=
  (p.requiredParameters ++ p.optionalParameters).filterMap (Parameter.given? input)

theorem mem_given {q : Parameter} {raw : Json} :
    (q, raw) ∈ p.given input ↔ q ∈ p.parameters ∧ Entries.get? q.name input = some raw := by
  have hload : q ∈ p.requiredParameters ++ p.optionalParameters ↔ q ∈ p.parameters := by
    simp only [requiredParameters, optionalParameters, List.mem_append, List.mem_filter]
    cases q.isRequired <;> simp
  simp only [given, List.mem_filterMap, Parameter.given?, Option.map_eq_some_iff]
  constructor
  · rintro ⟨q', hq', raw', hraw, he⟩
    cases he
    exact ⟨hload.mp hq', hraw⟩
  · rintro ⟨hq, hraw⟩
    exact ⟨q, hload.mpr hq, raw, hraw, rfl⟩

theorem load_order_perm (p : Plugin) : (p.requiredParameters ++ p.optionalParameters).Perm p.parameters :=
  List.filter_append_perm _ _

theorem nodup_given (h : (p.parameters.map Parameter.name).Nodup) (input : Members) :
    ((p.given input).map fun call => call.1.name).Nodup := by
  have hnames := (p.load_order_perm.map Parameter.name).nodup_iff.mpr h
  have hsublist : ((p.given input).map fun call => call.1.name).Sublist
      ((p.requiredParameters ++ p.optionalParameters).map Parameter.name) := by
    unfold given
    generalize p.requiredParameters ++ p.optionalParameters = qs
    induction qs with
    | nil => simp
    | cons q qs ih =>
      rw [List.filterMap_cons, Parameter.given?]
      cases Entries.get? q.name input with
      | none => exact ih.cons _
      | some raw => exact ih.cons_cons _
  exact hnames.sublist hsublist

/-- The name and the value that a call adds to the arguments. -/
def binding (call : (Parameter × Json) × Value) : String × Value := (call.1.1.name, call.2)

/-- The diagnostic of a loader names plugin and parameter, unless the loader did. -/
def blame (p : Plugin) (q : Parameter) (e : Diagnostic) : Diagnostic :=
  { e with location := some { e.place with
      plugin := e.place.plugin.or (some p.tag), parameter := e.place.parameter.or (some q.name) } }

/-- Parameters are loaded one after the other: all of those with a value succeed, or one fails after those before it
succeeded. -/
theorem loadParameters_cases (p : Plugin) (compile : Compile) (input : Members) (qs : List Parameter) (args : Arguments)
    (r : Registry) :
    (∃ calls r₁, Action.Calls (Parameter.loaded compile) r calls r₁ ∧
      calls.map (·.1) = qs.filterMap (Parameter.given? input) ∧
      p.loadParameters compile input args qs r = (.ok (args.insertAll (calls.map binding)), r₁)) ∨
    ∃ calls q raw rest r₁ e r₂, Action.Calls (Parameter.loaded compile) r calls r₁ ∧
      qs.filterMap (Parameter.given? input) = calls.map (·.1) ++ (q, raw) :: rest ∧
      Parameter.loaded compile (q, raw) r₁ = (.error e, r₂) ∧
      p.loadParameters compile input args qs r = (.error (p.blame q e), r₂) := by
  induction qs generalizing args r with
  | nil => exact .inl ⟨[], r, .nil r, rfl, rfl⟩
  | cons q qs ih =>
    simp only [loadParameters, List.filterMap_cons, Parameter.given?]
    cases Entries.get? q.name input with
    | none => exact ih args r
    | some raw =>
      simp only [Option.map_some, bind, Action.andThen, Parameter.resolveWith, Action.onError]
      rcases hload : q.loader.loadWith compile raw r with ⟨e | value, r₁⟩
      · exact .inr ⟨[], q, raw, _, r, e, r₁, .nil r, rfl, hload, rfl⟩
      · rcases ih (args.insert q.name value) r₁ with
          ⟨calls, r₂, hcalls, hgiven, he⟩ | ⟨calls, q', raw', rest, r₂, e, r₃, hcalls, hgiven, hfail, he⟩
        · exact .inl ⟨((q, raw), value) :: calls, r₂, .cons hload hcalls, by simp [hgiven], he⟩
        · exact .inr ⟨((q, raw), value) :: calls, q', raw', rest, r₂, e, r₃, .cons hload hcalls, by simp [hgiven],
            hfail, he⟩

/-! ## The values of arguments -/

/-- The arguments have the keys of the input and of the optional parameters. A parameter has the value that was loaded
for it, or else its default as it is; what is no parameter is taken as it is. -/
structure Assembled (p : Plugin) (input : Members) (calls : List ((Parameter × Json) × Value)) (args : Arguments) :
    Prop where
  keys : ∀ key, args.contains key = true ↔
    (Entries.get? key input).isSome = true ∨ ∃ q ∈ p.optionalParameters, q.name = key
  loaded : ∀ q raw value, ((q, raw), value) ∈ calls → args.get? q.name = some value
  default : ∀ q ∈ p.optionalParameters, Entries.get? q.name input = none → args.get? q.name = q.default
  undeclared : ∀ key raw, p.parameter? key = none → Entries.get? key input = some raw →
    args.get? key = some (Value.ofJson raw)

theorem get?_addUndeclared (distinct : (input.map (·.1)).Nodup) (args : Arguments) (key : String) :
    (p.addUndeclared args input).get? key =
      if (p.parameter? key).isNone then ((Entries.get? key input).map Value.ofJson).or (args.get? key)
      else args.get? key := by
  have hnew : (((input.filter fun m => (p.parameter? m.1).isNone).map fun m => (m.1, Value.ofJson m.2)).map
      (·.1)).Nodup := by
    rw [List.map_map]
    exact distinct.sublist (List.filter_sublist.map _)
  refine (Entries.get?_insertAll hnew key).trans ?_
  rw [Entries.get?_map, Entries.get?_filter fun key => (p.parameter? key).isNone]
  split <;> rfl

theorem get?_defaults (accepted : (p.parameters.map Parameter.name).Nodup) {q : Parameter}
    (hq : q ∈ p.optionalParameters) : p.defaults.get? q.name = q.default := by
  have hdistinct : ((p.optionalParameters.filterMap fun q => q.default.map fun value => (q.name, value)).map
      (·.1)).Nodup := by
    have hoptional : (p.optionalParameters.map Parameter.name).Nodup :=
      accepted.sublist (List.filter_sublist.map _)
    refine hoptional.sublist ?_
    generalize p.optionalParameters = qs
    induction qs with
    | nil => simp
    | cons q qs ih =>
      rw [List.filterMap_cons]
      cases q.default with
      | none => exact ih.cons _
      | some value => exact ih.cons_cons _
  obtain ⟨-, hoptional⟩ := List.mem_filter.mp hq
  obtain ⟨value, hd⟩ : ∃ value, q.default = some value := by
    simpa [Parameter.isRequired, Option.isSome_iff_exists] using hoptional
  rw [hd]
  have hbound : Entries.get? q.name (p.optionalParameters.filterMap fun q => q.default.map fun value =>
      (q.name, value)) = some value :=
    (Entries.get?_eq_some_iff hdistinct).mpr (List.mem_filterMap.mpr ⟨q, hq, by simp [hd]⟩)
  refine (Entries.get?_insertAll hdistinct q.name).trans ?_
  rw [hbound]
  rfl

theorem contains_defaults_iff {key : String} :
    p.defaults.contains key = true ↔ ∃ q ∈ p.optionalParameters, q.name = key := by
  constructor
  · intro h
    rcases (Dict.contains_insertAll_iff _ _ _).mp h with hm | hn
    · obtain ⟨e, he, rfl⟩ := List.mem_map.mp hm
      obtain ⟨q, hq, hd⟩ := List.mem_filterMap.mp he
      obtain ⟨value, -, rfl⟩ := Option.map_eq_some_iff.mp hd
      exact ⟨q, hq, rfl⟩
    · cases hn
  · rintro ⟨q, hq, rfl⟩
    exact contains_defaults hq

theorem parameter?_isNone_iff {key : String} : (p.parameter? key).isNone = true ↔ ∀ q ∈ p.parameters, q.name ≠ key := by
  simp [parameter?]

/-- The arguments that are made after all calls succeeded. -/
theorem assembled (accepted : (p.parameters.map Parameter.name).Nodup) (distinct : (input.map (·.1)).Nodup)
    {calls : List ((Parameter × Json) × Value)} (hgiven : calls.map (·.1) = p.given input) :
    p.Assembled input calls (p.addUndeclared (p.defaults.insertAll (calls.map binding)) input) := by
  -- no name is called twice, so an argument has the value of its only call
  have hbindings : ((calls.map binding).map (·.1)).Nodup := by
    have hnodup := nodup_given accepted input
    rw [← hgiven] at hnodup
    simpa [Function.comp_def, binding] using hnodup
  have hmem : ∀ {q raw value}, ((q, raw), value) ∈ calls → q ∈ p.parameters ∧ Entries.get? q.name input = some raw :=
    fun h => mem_given.mp (hgiven ▸ List.mem_map.mpr ⟨_, h, rfl⟩)
  have hcalled : ∀ {key : String}, key ∈ (calls.map binding).map (·.1) ↔
      ∃ q ∈ p.parameters, q.name = key ∧ (Entries.get? key input).isSome = true := by
    intro key
    have hnames : (calls.map binding).map (·.1) = (p.given input).map fun call => call.1.name := by
      rw [← hgiven]
      simp [Function.comp_def, binding]
    simp only [hnames, List.mem_map, Prod.exists, mem_given, Option.isSome_iff_exists]
    grind
  have hnone : ∀ {q : Parameter}, q ∈ p.parameters → (p.parameter? q.name).isNone = false := fun hq => by
    rw [← Bool.not_eq_true, parameter?_isNone_iff]
    exact fun h => h _ hq rfl
  refine ⟨fun key => ?_, fun q raw value hc => ?_, fun q hq habsent => ?_, fun key raw hkey hraw => ?_⟩
  · rw [Dict.contains_eq, get?_addUndeclared distinct]
    have hinserted := Dict.contains_insertAll_iff p.defaults (calls.map binding) key
    rw [Dict.contains_eq, hcalled, contains_defaults_iff] at hinserted
    split
    · next hundeclared =>
      have hall := parameter?_isNone_iff.mp hundeclared
      have hoptional : ¬ ∃ q ∈ p.optionalParameters, q.name = key :=
        fun ⟨q, hq, he⟩ => hall q (List.mem_filter.mp hq).1 he
      cases Entries.get? key input <;> grind
    · next hdeclared =>
      have hdeclared := mt parameter?_isNone_iff.mpr hdeclared
      rw [hinserted]
      grind
  · rw [get?_addUndeclared distinct, hnone (hmem hc).1]
    have hbound : Entries.get? q.name (calls.map binding) = some value :=
      (Entries.get?_eq_some_iff hbindings).mpr (List.mem_map.mpr ⟨_, hc, rfl⟩)
    refine (Entries.get?_insertAll hbindings q.name).trans ?_
    rw [hbound]
    rfl
  · rw [get?_addUndeclared distinct, hnone (List.mem_filter.mp hq).1, if_neg Bool.false_ne_true,
      Dict.get?_insertAll_of_not_mem, get?_defaults accepted hq]
    intro e he hkey
    obtain ⟨-, -, -, hsome⟩ := hcalled.mp (List.mem_map.mpr ⟨e, he, hkey⟩)
    rw [habsent] at hsome
    cases hsome
  · rw [get?_addUndeclared distinct, hkey, hraw]
    rfl

/-! ## The arguments of an input -/

/-- What becomes of an input. -/
inductive Answers (p : Plugin) (compile : Compile) (input : Members) (r : Registry) :
    Except Diagnostic Arguments × Registry → Prop
  /-- The first required parameter without a value is reported before anything is loaded. -/
  | missing {before after : List Parameter} {q : Parameter} (hq : p.requiredParameters = before ++ q :: after)
    (present : ∀ b ∈ before, (Entries.get? b.name input).isSome = true) (absent : Entries.get? q.name input = none) :
    Answers p compile input r (.error (.missingRequiredParameter p.tag q.name), r)
  /-- The first loader that fails is the last one that is called. -/
  | failed {calls : List ((Parameter × Json) × Value)} {q : Parameter} {raw : Json} {rest : List (Parameter × Json)}
    {r₁ r₂ : Registry} {e : Diagnostic}
    (complete : ∀ q ∈ p.requiredParameters, (Entries.get? q.name input).isSome = true)
    (succeeded : Action.Calls (Parameter.loaded compile) r calls r₁)
    (order : p.given input = calls.map (·.1) ++ (q, raw) :: rest)
    (failed : Parameter.loaded compile (q, raw) r₁ = (.error e, r₂)) :
    Answers p compile input r (.error (p.blame q e), r₂)
  | arguments {calls : List ((Parameter × Json) × Value)} {r₁ : Registry} {args : Arguments}
    (complete : ∀ q ∈ p.requiredParameters, (Entries.get? q.name input).isSome = true)
    (succeeded : Action.Calls (Parameter.loaded compile) r calls r₁) (order : p.given input = calls.map (·.1))
    (assembled : p.Assembled input calls args) : Answers p compile input r (.ok args, r₁)

/-- A plugin is accepted exactly if its parameters have distinct names that are not reserved. Then the parameters that
an input has a value for are loaded once each, in load order, after it was made sure that no required one is missing;
and the outcome is the one told by `Answers`. -/
theorem arguments_answer (p : Plugin) :
    (p.checked = .ok p ↔
      (p.parameters.map Parameter.name).Nodup ∧ ∀ q ∈ p.parameters, q.name ≠ "name" ∧ q.name ≠ "type") ∧
    (p.checked = .ok p → ∀ input : Members, (input.map (·.1)).Nodup →
      ((p.given input).map fun call => call.1.name).Nodup ∧
      (∀ q raw, (q, raw) ∈ p.given input ↔ q ∈ p.parameters ∧ Entries.get? q.name input = some raw) ∧
      ∀ (compile : Compile) (r : Registry), p.Answers compile input r (p.argumentsWith compile input r)) := by
  refine ⟨checked_eq_ok_iff, fun hchecked input distinct => ?_⟩
  have accepted := (checked_eq_ok_iff.mp hchecked).1
  refine ⟨nodup_given accepted input, fun _ _ => mem_given, fun compile r => ?_⟩
  simp only [argumentsWith]
  cases hmissing : p.requiredParameters.find? fun q => (Entries.get? q.name input).isNone with
  | some q =>
    obtain ⟨habsent, before, after, hq, hpresent⟩ := List.find?_eq_some_iff_append.mp hmissing
    exact .missing hq (fun b hb => by simpa using hpresent b hb) (by simpa using habsent)
  | none =>
    have complete : ∀ q ∈ p.requiredParameters, (Entries.get? q.name input).isSome = true := fun q hq => by
      simpa [Option.isSome_iff_ne_none] using List.find?_eq_none.mp hmissing q hq
    rcases loadParameters_cases p compile input (p.requiredParameters ++ p.optionalParameters) p.defaults r with
      ⟨calls, r₁, succeeded, hgiven, he⟩ | ⟨calls, q, raw, rest, r₁, e, r₂, succeeded, hgiven, hfailed, he⟩
    · simp only [bind, Action.andThen, he]
      exact .arguments complete succeeded hgiven.symm (assembled accepted distinct hgiven)
    · simp only [bind, Action.andThen, he]
      exact .failed complete succeeded hgiven hfailed

end Plugin

namespace Sampling

/-- A coordinate with an axis and a note. -/
def axisInput : Members := [("note", .str "first"), ("axis", .str "y")]

/-- The axis is loaded, the atom is the default and the note is taken as it is. -/
theorem axisInput_arguments :
    (axisInput.map (·.1)).Nodup ∧ coordinatePlugin.checked = .ok coordinatePlugin ∧
    coordinatePlugin.Answers compile axisInput .empty (coordinatePlugin.argumentsWith compile axisInput .empty) ∧
    (coordinatePlugin.argumentsWith compile axisInput .empty).1.toOption.map (·.entries) =
      some [("atom", .int 0), ("axis", .text "y"), ("note", .text "first")] := by
  have distinct : (axisInput.map (·.1)).Nodup := by decide
  obtain ⟨hchecked, hanswers⟩ := Plugin.arguments_answer coordinatePlugin
  have accepted := hchecked.mpr (by decide)
  exact ⟨distinct, accepted, (hanswers accepted axisInput distinct).2.2 compile .empty, rfl⟩

end Sampling
end Blueprint
