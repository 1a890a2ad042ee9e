import Blueprint.Proofs.Compile.Chronicle
import Blueprint.Proofs.Decimal.Exact
import Blueprint.Proofs.Object.Handles
import Blueprint.Sampling.Plugins

/-!
# What the standard constructors promise

Each kind of object keeps a contract (`Object.Sound`) that refers to the description it was made of: what is loaded from
it, and which objects the descriptions inside it stand for. Numbers of documents are finite and so are expressions, so
no bound is infinite or NaN; keys that are no parameters cannot get in the way of those that are.
-/

namespace Blueprint

variable {c : Catalogue} {log : List Mapping} {input : Members} {args : Arguments} {p : Plugin} {q : Parameter}

/-! ## Numbers of documents -/

/-- A number as documents hold it: an integer of 64 bits, signed or not, or a finite float. -/
def Number.Storable : Number → Prop
  | .integer n => isAnyWord n = true
  | .float x => x.isFinite = true

/-- Every number in the document is one that documents hold. -/
def Json.Storable (document : Json) : Prop := ∀ n, (Json.num n).IsPart document → n.Storable

theorem Number.Storable.isFinite {n : Number} (h : n.Storable) : n.toFloat.isFinite = true := by
  cases n with
  | integer n => exact Decimal.isFinite_ofInt h
  | float x => exact h

theorem Expr.isFinite_of_checkFinite {text : String} {x y : Float} (h : checkFinite text x = .ok y) :
    y.isFinite = true := by
  unfold checkFinite at h
  split at h
  · next hfinite =>
    cases h
    exact hfinite
  · cases h

theorem Expr.isFinite_of_evaluate {text : String} {x : Float} (h : evaluate text = .ok x) : x.isFinite = true := by
  simp only [evaluate, evaluate?] at h
  split at h
  · next nodes _ _ =>
    cases houtcome : climbRow? (itemsOf nodes) with
    | none => simp [houtcome] at h
    | some outcome =>
      simp only [houtcome, Option.map_some, Option.getD_some] at h
      obtain ⟨y, -, h⟩ := of_bind_ok h
      exact isFinite_of_checkFinite h
  · cases h

theorem Reader.isFinite_of_readNumber {raw : Json} (hraw : raw.Storable) {x : Float} (h : readNumber raw = .ok x) :
    x.isFinite = true := by
  cases raw with
  | num n =>
    cases h
    exact (hraw n (.refl _)).isFinite
  | str s => exact Expr.isFinite_of_evaluate h
  | _ => cases h

/-! ## Contracts -/

namespace Sampling

def NumberAt (input : Members) (key : String) (x : Float) : Prop :=
  ∃ raw, Entries.get? key input = some raw ∧ Reader.readNumber raw = .ok x

/-- The input has a list of integers under a key, or a single one. -/
def IntegersAt (input : Members) (key : String) (ns : List Int) : Prop :=
  ∃ raw, Entries.get? key input = some raw ∧
    List.Forall₂ (fun item n => Reader.readInteger item = .ok n) raw.itemsOrSelf ns

/-- The input describes an object of a category under a key. -/
def ObjectAt (log : List Mapping) (input : Members) (key category : String) (h : Handle) : Prop :=
  ∃ raw, Entries.get? key input = some raw ∧ Stands log category raw h

/-- The input has a list of descriptions of objects of a category under a key, or a single one. -/
def ObjectsAt (log : List Mapping) (input : Members) (key category : String) (hs : List Handle) : Prop :=
  ∃ raw, Entries.get? key input = some raw ∧ List.Forall₂ (Stands log category) raw.itemsOrSelf hs

end Sampling

open Sampling

structure ToyEngine.Sound (e : ToyEngine) : Prop where
  timestep : e.timestep.isFinite = true
  positive : 0 < e.timestep
  stepsPerFrame : 1 ≤ e.stepsPerFrame
  integrator : e.integrator ∈ ["langevin", "verlet"]
  temperature : e.temperature.isFinite = true

structure Interval.Sound (log : List Mapping) (input : Members) (i : Interval) : Prop where
  quantity : ObjectAt log input "cv" "cv" i.quantity
  lower : i.lower.isFinite = true ∧ NumberAt input "min" i.lower
  upper : i.upper.isFinite = true ∧ NumberAt input "max" i.upper
  ordered : ¬ i.lower > i.upper

structure Transitions.Sound (log : List Mapping) (input : Members) (t : Transitions) : Prop where
  initial : ObjectsAt log input "initial_states" "volume" t.initial
  final : ObjectsAt log input "final_states" "volume" t.final
  apart : ∀ h ∈ t.initial, h ∉ t.final

/-- The contract of what a constructor made under a kind. -/
def Payload.Sound (log : List Mapping) (input : Members) (kind : String) : Payload → Prop
  | .toyEngine e => kind = "toy" ∧ e.Sound
  | .coordinate c => kind = "coordinate" ∧ c.axis ∈ ["x", "y", "z"]
  | .distance d => kind = "distance" ∧ IntegersAt input "atoms" [d.first, d.second]
  | .interval i => kind = "interval" ∧ i.Sound log input
  | .combination c => kind = c.combine.tag ∧ c.volumes ≠ [] ∧ ObjectsAt log input "volumes" "volume" c.volumes
  | .transitions t => kind = "tps" ∧ t.Sound log input
  | .none | .arguments _ => False

/-- What an object is held to that was made of an input. An attribute is the label that the input gives an engine. -/
structure Object.Sound (log : List Mapping) (input : Members) (o : Object) : Prop where
  payload : o.payload.Sound log input o.kind
  label : ∀ key value, o.attributes.get? key = some value →
    o.kind = "toy" ∧ key = "label" ∧ ∃ text, Entries.get? "label" input = some (.str text) ∧ value = .text text

/-! ## What loaders supply -/

namespace Loader.Supplies

variable {raw : Json} {value : Value}

theorem float {x : Float} (h : (Loader.read .float).Supplies c log raw value) (hx : value.float? = some x) :
    Reader.readNumber raw = .ok x := by
  obtain ⟨y, hy, he⟩ := of_bind_ok h
  cases he
  cases hx
  exact hy

theorem positiveInteger {n : Int} (h : (Loader.read .positiveInteger).Supplies c log raw value)
    (hn : value.int? = some n) : 1 ≤ n := by
  obtain ⟨k, -, he⟩ := of_bind_ok h
  split at he
  · cases he
  · cases he
    cases hn
    omega

theorem choice {choices : List String} {s : String} (h : (Loader.read (.choice choices)).Supplies c log raw value)
    (hs : value.text? = some s) : s ∈ choices := by
  cases raw with
  | str t =>
    simp only [Loader.Supplies, Reader.read] at h
    split at h
    · next hmem =>
      cases h
      cases hs
      simpa using hmem
    · cases h
  | _ => cases h

theorem text {s : String} (h : (Loader.read .text).Supplies c log raw value) (hs : value.text? = some s) :
    raw = .str s := by
  cases raw with
  | str t =>
    cases h
    cases hs
    rfl
  | _ => cases h

theorem integers {items : List Value} (h : (Loader.listOf (.read .integer)).Supplies c log raw (.list items)) :
    List.Forall₂ (fun item n => Reader.readInteger item = .ok n) raw.itemsOrSelf (items.filterMap Value.int?) := by
  obtain ⟨values, he, hall⟩ := h
  cases he
  generalize raw.itemsOrSelf = raws at hall
  induction hall with
  | nil => exact .nil
  | cons hv _ ih =>
    obtain ⟨n, hn, he⟩ := of_bind_ok hv
    cases he
    exact .cons hn ih

theorem object {name : String} {h : Handle} (hs : (Loader.category name).Supplies c log raw value)
    (hh : value.object? = some h) : Stands log (c.key name) raw h := by
  cases hs with
  | single hs =>
    cases hh
    exact hs
  | items => cases hh

theorem objects {name key : String} {items : List Value} {hs : List Handle}
    (h : (Loader.listOf (.category name)).Supplies c log raw (.list items))
    (hh : Arguments.handles key items = .ok hs) : List.Forall₂ (Stands log (c.key name)) raw.itemsOrSelf hs := by
  obtain ⟨values, he, hall⟩ := h
  cases he
  generalize raw.itemsOrSelf = raws at hall
  induction hall generalizing hs with
  | nil =>
    cases hh
    exact .nil
  | @cons x v raws values hv _ ih =>
    simp only [Arguments.handles] at hh
    cases ho : v.object? with
    | none => simp [ho] at hh
    | some h' =>
      cases hrest : Arguments.handles key values with
      | error e => simp [ho, hrest, Except.map] at hh
      | ok rest =>
        obtain rfl : h' :: rest = hs := by simpa [ho, hrest, Except.map] using hh
        exact .cons (object hv ho) (ih hrest)

end Loader.Supplies

/-! ## What constructors make of it -/

theorem Arguments.get?_rename {key : String} {value : Value} (h : args.get? key = some value) (target k : String) :
    (args.rename key target).get? k = if target = k then some value else if key = k then none else args.get? k := by
  simp only [rename, h, Dict.get?_insert, Dict.get?_erase]

namespace Sampling

variable {store : Store} {o : Object}

theorem nodup_parameters : ∀ p ∈ plugins, (p.parameters.map Parameter.name).Nodup := by decide +kernel

/-- A number that is not the default was loaded, and it is finite. -/
theorem number_cases (hargs : p.Accounts c log input args) (hp : p ∈ plugins)
    (hinput : ∀ key raw, Entries.get? key input = some raw → raw.Storable) (hq : q ∈ p.parameters)
    (hl : q.loader = .read .float) {value : Value} (hv : args.get? q.name = some value) {x : Float}
    (hx : value.float? = some x) : q.default = some value ∨ x.isFinite = true ∧ NumberAt input q.name x := by
  refine (hargs.of_parameter (nodup_parameters p hp) hq hv).imp_right ?_
  rintro ⟨raw, hraw, hs⟩
  rw [hl] at hs
  exact ⟨Reader.isFinite_of_readNumber (hinput _ _ hraw) (hs.float hx), raw, hraw, hs.float hx⟩

/-- Every argument of an engine but the label is a checked parameter or its default. -/
theorem toyEngine_sound (hargs : toyPlugin.Accounts c log input args)
    (hinput : ∀ key raw, Entries.get? key input = some raw → raw.Storable)
    (hmade : toyEngine store (args.erase "label") = .ok o) :
    ∃ engine : ToyEngine, o = { kind := "toy", payload := .toyEngine engine } ∧ engine.Sound := by
  have hp : toyPlugin ∈ plugins := by simp [plugins]
  have hkeep : ∀ key, "label" ≠ key → ∀ value, (args.erase "label").get? key = some value →
      args.get? key = some value := fun key hne value hv => by rwa [Dict.get?_erase, if_neg hne] at hv
  obtain ⟨timestep, htimestep, hmade⟩ := of_bind_ok hmade
  obtain ⟨steps, hsteps, hmade⟩ := of_bind_ok hmade
  obtain ⟨integrator, hintegrator, hmade⟩ := of_bind_ok hmade
  obtain ⟨temperature, htemperature, hmade⟩ := of_bind_ok hmade
  split at hmade
  · cases hmade
  next hpositive =>
  cases hmade
  have hfinite : timestep.isFinite = true := by
    obtain ⟨value, hv, hx⟩ := Arguments.typed_eq_ok htimestep
    rcases number_cases hargs hp hinput (q := toyPlugin.parameters[0]) (List.getElem_mem _) rfl
      (hkeep _ (by decide) _ hv) hx with hd | ⟨hfinite, -⟩
    · cases hd
    · exact hfinite
  have hone : 1 ≤ steps := by
    obtain ⟨value, hv, hn⟩ := Arguments.typed_eq_ok hsteps
    rcases hargs.of_parameter (nodup_parameters _ hp) (q := toyPlugin.parameters[1]) (List.getElem_mem _)
      (hkeep _ (by decide) _ hv) with hd | ⟨raw, -, hs⟩
    · cases hd
      cases hn
      decide
    · exact hs.positiveInteger hn
  have hchoice : integrator ∈ ["langevin", "verlet"] := by
    obtain ⟨value, hv, ht⟩ := Arguments.typed_eq_ok hintegrator
    rcases hargs.of_parameter (nodup_parameters _ hp) (q := toyPlugin.parameters[2]) (List.getElem_mem _)
      (hkeep _ (by decide) _ hv) with hd | ⟨raw, -, hs⟩
    · cases hd
      cases ht
      decide
    · exact hs.choice ht
  have hbath : temperature.isFinite = true := by
    obtain ⟨value, hv, hx⟩ := Arguments.typed_eq_ok htemperature
    rcases number_cases hargs hp hinput (q := toyPlugin.parameters[3]) (List.getElem_mem _) rfl
      (hkeep _ (by decide) _ hv) hx with hd | ⟨hfinite, -⟩
    · cases hd
      cases hx
      decide +kernel
    · exact hfinite
  exact ⟨⟨timestep, steps, integrator, temperature⟩, rfl, hfinite, Decimal.lt_of_not_le hfinite hpositive, hone,
    hchoice, hbath⟩

/-- The default of the label is null, so a text was loaded. -/
theorem text_label (hargs : toyPlugin.Accounts c log input args) {label : String}
    (hlabel : (args.get? "label").bind Value.text? = some label) : Entries.get? "label" input = some (.str label) := by
  have hp : toyPlugin ∈ plugins := by simp [plugins]
  obtain ⟨value, hv, ht⟩ := Option.bind_eq_some_iff.mp hlabel
  rcases hargs.of_parameter (nodup_parameters _ hp) (q := toyPlugin.parameters[4]) (List.getElem_mem _) hv with
    hd | ⟨raw, hraw, hs⟩
  · cases hd
    cases ht
  · rwa [hs.text ht] at hraw

theorem toy_sound (hargs : toyPlugin.Accounts c log input args)
    (hinput : ∀ key raw, Entries.get? key input = some raw → raw.Storable)
    (built : toyPlugin.builder.build store args = .ok o) : o.Sound log input := by
  obtain ⟨made, hmade, hfinish⟩ := of_bind_ok built
  have hmade : toyEngine store (args.erase "label") = .ok made := hmade
  obtain ⟨engine, rfl, hsound⟩ := toyEngine_sound hargs hinput hmade
  simp only [toyPlugin, toyBuilder] at hfinish
  cases hlabel : (args.get? "label").bind Value.text? with
  | none =>
    rw [hlabel] at hfinish
    cases hfinish
    exact ⟨⟨rfl, hsound⟩, fun key value hk => by cases hk⟩
  | some label =>
    rw [hlabel] at hfinish
    cases hfinish
    refine ⟨⟨rfl, hsound⟩, fun key value hk => ?_⟩
    simp only [Object.setAttribute, Dict.get?_insert] at hk
    split at hk
    · next hkey =>
      cases hk
      exact ⟨rfl, hkey.symm, label, text_label hargs hlabel, rfl⟩
    · cases hk

/-- The constructor of a coordinate checks nothing, its parameter does. -/
theorem coordinate_sound (hargs : coordinatePlugin.Accounts c log input args)
    (built : coordinatePlugin.builder.build store args = .ok o) : o.Sound log input := by
  have hp : coordinatePlugin ∈ plugins := by simp [plugins]
  obtain ⟨made, hmade, hfinish⟩ := of_bind_ok built
  obtain ⟨atom, -, hmade⟩ := of_bind_ok hmade
  obtain ⟨axis, haxis, hmade⟩ := of_bind_ok hmade
  have hchoice : axis ∈ ["x", "y", "z"] := by
    obtain ⟨value, hv, ht⟩ := Arguments.typed_eq_ok haxis
    rcases hargs.of_parameter (nodup_parameters _ hp) (q := coordinatePlugin.parameters[1]) (List.getElem_mem _) hv with
      hd | ⟨raw, -, hs⟩
    · cases hd
      cases ht
      decide
    · exact hs.choice ht
  cases hmade
  cases hfinish
  exact ⟨⟨rfl, hchoice⟩, fun key value hk => by cases hk⟩

theorem distance_sound (hargs : distancePlugin.Accounts c log input args)
    (built : distancePlugin.builder.build store args = .ok o) : o.Sound log input := by
  have hp : distancePlugin ∈ plugins := by simp [plugins]
  obtain ⟨made, hmade, hfinish⟩ := of_bind_ok built
  obtain ⟨items, hitems, hmade⟩ := of_bind_ok hmade
  obtain ⟨value, hv, hlist⟩ := Arguments.typed_eq_ok hitems
  obtain rfl := Value.eq_list hlist
  simp only at hmade
  split at hmade
  · next first second hatoms =>
    cases hmade
    cases hfinish
    refine ⟨⟨rfl, ?_⟩, fun key value hk => by cases hk⟩
    rcases hargs.of_parameter (nodup_parameters _ hp) (q := distancePlugin.parameters[0]) (List.getElem_mem _) hv with
      hd | ⟨raw, hraw, hs⟩
    · cases hd
    · exact ⟨raw, hraw, hatoms ▸ hs.integers⟩
  · cases hmade

/-- The loaded bounds take the places of arguments that a description calls as the constructor calls the bounds. -/
theorem get?_remap_interval {low high : Value} (hlow : args.get? "min" = some low) (hhigh : args.get? "max" = some high)
    (k : String) : (intervalBuilder.remap args).get? k =
      if "lambda_max" = k then some high else if "max" = k then none
      else if "lambda_min" = k then some low else if "min" = k then none else args.get? k := by
  have hrenamed := Arguments.get?_rename hlow "lambda_min"
  have hmax : (args.rename "min" "lambda_min").get? "max" = some high := by
    rw [hrenamed, if_neg (by decide), if_neg (by decide), hhigh]
  simp only [intervalBuilder, Arguments.get?_rename hmax, hrenamed]

theorem interval_sound (hargs : intervalPlugin.Accounts c log input args)
    (complete : ∀ q ∈ intervalPlugin.parameters, args.contains q.name = true) (hcv : c.key "cv" = "cv")
    (hinput : ∀ key raw, Entries.get? key input = some raw → raw.Storable)
    (built : intervalPlugin.builder.build store args = .ok o) : o.Sound log input := by
  have hp : intervalPlugin ∈ plugins := by simp [plugins]
  obtain ⟨made, hmade, hfinish⟩ := of_bind_ok built
  obtain ⟨quantity, hquantity, hmade⟩ := of_bind_ok hmade
  obtain ⟨lower, hlower, hmade⟩ := of_bind_ok hmade
  obtain ⟨upper, hupper, hmade⟩ := of_bind_ok hmade
  split at hmade
  · cases hmade
  next hordered =>
  cases hmade
  cases hfinish
  obtain ⟨low, hlow⟩ := Option.isSome_iff_exists.mp (complete intervalPlugin.parameters[1] (List.getElem_mem _))
  obtain ⟨high, hhigh⟩ := Option.isSome_iff_exists.mp (complete intervalPlugin.parameters[2] (List.getElem_mem _))
  have hremap := get?_remap_interval hlow hhigh
  refine ⟨⟨rfl, ⟨?_, ?_, ?_, hordered⟩⟩, fun key value hk => by cases hk⟩
  · obtain ⟨value, hv, hh⟩ := Arguments.typed_eq_ok hquantity
    have hv : args.get? "cv" = some value := (hremap "cv").symm.trans hv
    rcases hargs.of_parameter (nodup_parameters _ hp) (q := intervalPlugin.parameters[0]) (List.getElem_mem _) hv with
      hd | ⟨raw, hraw, hs⟩
    · cases hd
    · exact ⟨raw, hraw, hcv ▸ hs.object hh⟩
  · obtain ⟨value, hv, hx⟩ := Arguments.typed_eq_ok hlower
    obtain rfl : low = value := Option.some.inj ((hremap "lambda_min").symm.trans hv)
    rcases number_cases hargs hp hinput (q := intervalPlugin.parameters[1]) (List.getElem_mem _) rfl hlow hx with
      hd | hnumber
    · cases hd
    · exact hnumber
  · obtain ⟨value, hv, hx⟩ := Arguments.typed_eq_ok hupper
    obtain rfl : high = value := Option.some.inj ((hremap "lambda_max").symm.trans hv)
    rcases number_cases hargs hp hinput (q := intervalPlugin.parameters[2]) (List.getElem_mem _) rfl hhigh hx with
      hd | hnumber
    · cases hd
    · exact hnumber

/-- Objects in the arguments of a parameter that takes a list of them were described by the items of the input. -/
theorem objects_sound (hargs : p.Accounts c log input args) (hp : p ∈ plugins) (hq : q ∈ p.parameters) {name : String}
    (hl : q.loader = .listOf (.category name)) (hd : q.default = none) {hs : List Handle}
    (h : args.objects q.name = .ok hs) : ObjectsAt log input q.name (c.key name) hs := by
  obtain ⟨items, hitems, hhandles⟩ := of_bind_ok h
  obtain ⟨value, hv, hlist⟩ := Arguments.typed_eq_ok hitems
  obtain rfl := Value.eq_list hlist
  rcases hargs.of_parameter (nodup_parameters _ hp) hq hv with hd' | ⟨raw, hraw, hs⟩
  · rw [hd] at hd'
    cases hd'
  · rw [hl] at hs
    exact ⟨raw, hraw, hs.objects hhandles⟩

theorem combination_sound (combine : Combine) {serial : Nat} {description : String}
    (hp : combinationPlugin serial combine description ∈ plugins) (hvolume : c.key "volume" = "volume")
    (hargs : (combinationPlugin serial combine description).Accounts c log input args)
    (built : (combinationPlugin serial combine description).builder.build store args = .ok o) : o.Sound log input := by
  obtain ⟨made, hmade, hfinish⟩ := of_bind_ok built
  obtain ⟨volumes, hvolumes, hmade⟩ := of_bind_ok hmade
  split at hmade
  · cases hmade
  next hnonempty =>
  cases hmade
  cases hfinish
  have hobjects := objects_sound hargs hp (List.mem_singleton_self _) rfl rfl hvolumes
  exact ⟨⟨rfl, by simpa using hnonempty, hvolume ▸ hobjects⟩, fun key value hk => by cases hk⟩

theorem tps_sound (hargs : tpsPlugin.Accounts c log input args) (hstates : c.key "states" = "volume")
    (built : tpsPlugin.builder.build store args = .ok o) : o.Sound log input := by
  have hp : tpsPlugin ∈ plugins := by simp [plugins]
  obtain ⟨made, hmade, hfinish⟩ := of_bind_ok built
  obtain ⟨initial, hinitial, hmade⟩ := of_bind_ok hmade
  obtain ⟨final, hfinal, hmade⟩ := of_bind_ok hmade
  split at hmade
  · cases hmade
  next hapart =>
  cases hmade
  cases hfinish
  refine ⟨⟨rfl, ⟨?_, ?_, ?_⟩⟩, fun key value hk => by cases hk⟩
  · exact hstates ▸ objects_sound hargs hp (q := tpsPlugin.parameters[0]) (List.getElem_mem _) rfl rfl hinitial
  · exact hstates ▸ objects_sound hargs hp (q := tpsPlugin.parameters[1]) (List.getElem_mem _) rfl rfl hfinal
  · simpa using List.find?_eq_none.mp hapart

end Sampling

end Blueprint
