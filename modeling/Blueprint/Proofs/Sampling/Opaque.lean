import Blueprint.Proofs.Plugin.Opaque
import Blueprint.Proofs.Sampling.Conservative

/-!
# Handles are opaque to the standard plugins

The standard constructors pass handles on and compare them, and show the objects behind them in messages. None of this
depends on how the handles are numbered.
-/

namespace Blueprint

open Function (Injective)

variable {ρ : Handle → Handle}

/-! ## Constructors -/

namespace Sampling

variable (store store' : Store) {args : Arguments}

theorem map_mapHandles_of_held {x : Except BuildError Object} (h : ∀ o, x = .ok o → o.held = []) :
    x.map (Object.mapHandles ρ) = x := by
  cases x with
  | error e => rfl
  | ok o => rw [Except.map, Object.mapHandles_eq_self fun y hy => by rw [h o rfl] at hy; cases hy]

theorem toyEngine_mapHandles :
    toyEngine store' (args.mapHandles ρ) = (toyEngine store args).map (Object.mapHandles ρ) := by
  rw [map_mapHandles_of_held fun _ => toyEngine_held]
  simp only [toyEngine, Arguments.float_mapHandles, Arguments.int_mapHandles, Arguments.text_mapHandles]

theorem coordinate_mapHandles :
    coordinate store' (args.mapHandles ρ) = (coordinate store args).map (Object.mapHandles ρ) := by
  rw [map_mapHandles_of_held fun _ => coordinate_held]
  simp only [coordinate, Arguments.int_mapHandles, Arguments.text_mapHandles]

theorem distance_mapHandles :
    distance store' (args.mapHandles ρ) = (distance store args).map (Object.mapHandles ρ) := by
  rw [map_mapHandles_of_held fun _ => distance_held]
  simp only [distance, Arguments.list_mapHandles]
  cases args.list "atoms" with
  | error e => rfl
  | ok items =>
    have hints : (items.map (Value.mapHandles ρ)).filterMap Value.int? = items.filterMap Value.int? := by
      rw [List.filterMap_map]
      exact congrArg (List.filterMap · items) (funext fun v => by cases v <;> rfl)
    simp only [Except.map, bind, Except.bind, hints]

theorem interval_mapHandles :
    interval store' (args.mapHandles ρ) = (interval store args).map (Object.mapHandles ρ) := by
  simp only [interval, Arguments.object_mapHandles, Arguments.float_mapHandles]
  cases args.object "cv" with
  | error e => rfl
  | ok quantity =>
    cases args.float "lambda_min" with
    | error e => rfl
    | ok lower =>
      cases args.float "lambda_max" with
      | error e => rfl
      | ok upper =>
        simp only [Except.map, bind, Except.bind]
        split <;> rfl

theorem combination_mapHandles (combine : Combine) :
    combination combine store' (args.mapHandles ρ) =
      (combination combine store args).map (Object.mapHandles ρ) := by
  simp only [combination, Arguments.objects_mapHandles]
  cases args.objects "volumes" with
  | error e => rfl
  | ok volumes =>
    simp only [Except.map, bind, Except.bind, List.isEmpty_map]
    split <;> rfl

theorem transitions_mapHandles {store store' : Store} (hρ : Injective ρ) (h : Store.Renamed ρ store store') :
    transitions store' (args.mapHandles ρ) = (transitions store args).map (Object.mapHandles ρ) := by
  simp only [transitions, Arguments.objects_mapHandles]
  cases args.objects "initial_states" with
  | error e => rfl
  | ok initial =>
    cases args.objects "final_states" with
    | error e => rfl
    | ok final =>
      have hfind : (initial.map ρ).find? (final.map ρ).contains = (initial.find? final.contains).map ρ := by
        rw [List.find?_map]
        congr 2
        funext x
        simp [hρ.eq_iff]
      simp only [Except.map, bind, Except.bind, hfind]
      cases initial.find? final.contains with
      | none => rfl
      | some state => simp only [Option.map_some, h.display]

/-! ## Plugins -/

theorem toyBuilder_natural : toyBuilder.Natural 0 := by
  refine .of_parts (fun _ _ s s' _ _ => toyEngine_mapHandles s s') (fun ρ args => ?_) fun ρ o args => ?_
  · exact (Dict.map_erase _ args "label").symm
  · have hlabel : ((args.mapHandles ρ).get? "label").bind Value.text? = (args.get? "label").bind Value.text? := by
      rw [Arguments.mapHandles, Dict.get?_map]
      cases args.get? "label" with
      | none => rfl
      | some v => cases v <;> rfl
    simp only [toyBuilder, hlabel]
    cases (args.get? "label").bind Value.text? with
    | none => rfl
    | some label => exact congrArg Except.ok (Object.mapHandles_setAttribute o "label" (.text label)).symm

theorem intervalBuilder_natural : intervalBuilder.Natural 0 := by
  refine .of_parts (fun _ _ s s' _ _ => interval_mapHandles s s') (fun ρ args => ?_) fun _ _ _ => rfl
  simp only [intervalBuilder, Arguments.mapHandles_rename]

theorem natural_plugins : ∀ p ∈ plugins, p.builder.Natural 0 := by
  simp only [plugins, List.forall_mem_cons, List.not_mem_nil, false_implies, implies_true, and_true]
  refine ⟨toyBuilder_natural, ?coordinate, ?distance, intervalBuilder_natural, ?union, ?intersection, ?tps⟩
  case coordinate => exact .of_construct fun _ _ s s' _ _ => coordinate_mapHandles s s'
  case distance => exact .of_construct fun _ _ s s' _ _ => distance_mapHandles s s'
  case union => exact .of_construct fun _ _ s s' _ _ => combination_mapHandles s s' _
  case intersection => exact .of_construct fun _ _ s s' _ _ => combination_mapHandles s s' _
  case tps => exact .of_construct fun _ hρ _ _ hs _ => transitions_mapHandles hρ hs

theorem plugins_opaque : ∀ p ∈ plugins, p.Opaque 0 := by
  intro p hp
  refine ⟨fun q hq value hv h hh => ?_, fun q hq => Loader.within_of_standard (plugins_standard p hp q hq),
    natural_plugins p hp⟩
  have hdefault := plugins_defaults p hp q hq
  simp_all

end Sampling
end Blueprint
