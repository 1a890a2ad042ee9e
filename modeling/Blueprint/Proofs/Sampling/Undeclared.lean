import Blueprint.Proofs.Compile.Undeclared
import Blueprint.Proofs.Session.Standard

/-!
# Undeclared keys and the standard plugins

The standard plugins build from their parameters and nothing else. The one that moves arguments to other names, the
interval, moves the loaded bounds over whatever a description calls by these names (`Sampling.compile_undeclared`).
-/

namespace Blueprint

variable {args args' : Arguments}

/-- A typed argument depends on the value under its name only. -/
theorem Arguments.typed_congr {α : Type} {expected : String} {view : Value → Option α} {key : String}
    (h : args'.get? key = args.get? key) : typed expected view args' key = typed expected view args key := by
  simp only [typed, required, h]

theorem Arguments.objects_congr {key : String} (h : args'.get? key = args.get? key) :
    args'.objects key = args.objects key := by
  simp only [objects, list, typed_congr h]

namespace Sampling

theorem toy_buildsFromParameters : toyPlugin.BuildsFromParameters := by
  intro store args args' h complete
  simp only [toyPlugin, List.forall_mem_cons] at h
  obtain ⟨htimestep, hsteps, hintegrator, htemperature, hlabel, -⟩ := h
  have hkept : ∀ key, "label" ≠ key → args'.get? key = args.get? key →
      (args'.erase "label").get? key = (args.erase "label").get? key := fun key hne hk => by
    rw [Dict.get?_erase, Dict.get?_erase, if_neg hne, if_neg hne, hk]
  have hconstruct : toyEngine store (args'.erase "label") = toyEngine store (args.erase "label") := by
    simp only [toyEngine, Arguments.float, Arguments.int, Arguments.text,
      Arguments.typed_congr (hkept _ (by decide) htimestep), Arguments.typed_congr (hkept _ (by decide) hsteps),
      Arguments.typed_congr (hkept _ (by decide) hintegrator),
      Arguments.typed_congr (hkept _ (by decide) htemperature)]
  simp only [Builder.build, toyPlugin, toyBuilder, hconstruct, hlabel]

theorem coordinate_buildsFromParameters : coordinatePlugin.BuildsFromParameters := by
  intro store args args' h complete
  simp only [coordinatePlugin, List.forall_mem_cons] at h
  obtain ⟨hatom, haxis, -⟩ := h
  simp only [Builder.build, coordinatePlugin, coordinate, Arguments.int, Arguments.text, id, Arguments.typed_congr hatom,
    Arguments.typed_congr haxis]

theorem distance_buildsFromParameters : distancePlugin.BuildsFromParameters := by
  intro store args args' h complete
  simp only [distancePlugin, List.forall_mem_cons] at h
  simp only [Builder.build, distancePlugin, distance, Arguments.list, id, Arguments.typed_congr h.1]

theorem interval_buildsFromParameters : intervalPlugin.BuildsFromParameters := by
  intro store args args' h complete
  have hrequired : intervalPlugin.requiredParameters = intervalPlugin.parameters := rfl
  rw [hrequired] at complete
  simp only [intervalPlugin, List.forall_mem_cons] at h complete
  obtain ⟨hcv, hmin, hmax, -⟩ := h
  obtain ⟨low, hlow⟩ := Option.isSome_iff_exists.mp complete.2.1
  obtain ⟨high, hhigh⟩ := Option.isSome_iff_exists.mp complete.2.2.1
  have hremap : ∀ key, args'.get? key = args.get? key ∨ key = "lambda_min" ∨ key = "lambda_max" →
      (intervalBuilder.remap args').get? key = (intervalBuilder.remap args).get? key := by
    intro key hkey
    rw [get?_remap_interval hlow hhigh, get?_remap_interval (hmin.trans hlow) (hmax.trans hhigh)]
    grind
  have hconstruct : interval store (intervalBuilder.remap args') = interval store (intervalBuilder.remap args) := by
    simp only [interval, Arguments.object, Arguments.float, Arguments.typed_congr (hremap "cv" (.inl hcv)),
      Arguments.typed_congr (hremap "lambda_min" (.inr (.inl rfl))),
      Arguments.typed_congr (hremap "lambda_max" (.inr (.inr rfl)))]
  have hfinish : ∀ as, intervalPlugin.builder.build store as = (interval store (intervalBuilder.remap as)).bind .ok :=
    fun _ => rfl
  rw [hfinish, hfinish, hconstruct]

theorem combination_buildsFromParameters (serial : Nat) (combine : Combine) (description : String) :
    (combinationPlugin serial combine description).BuildsFromParameters := by
  intro store args args' h complete
  simp only [combinationPlugin, List.forall_mem_cons] at h
  simp only [Builder.build, combinationPlugin, combination, id, Arguments.objects_congr h.1]

theorem tps_buildsFromParameters : tpsPlugin.BuildsFromParameters := by
  intro store args args' h complete
  simp only [tpsPlugin, List.forall_mem_cons] at h
  obtain ⟨hinitial, hfinal, -⟩ := h
  simp only [Builder.build, tpsPlugin, transitions, id, Arguments.objects_congr hinitial,
    Arguments.objects_congr hfinal]

theorem plugins_buildFromParameters : ∀ p ∈ plugins, p.BuildsFromParameters := by
  simp only [plugins, List.forall_mem_cons]
  exact ⟨toy_buildsFromParameters, coordinate_buildsFromParameters, distance_buildsFromParameters,
    interval_buildsFromParameters, combination_buildsFromParameters _ _ _, combination_buildsFromParameters _ _ _,
    tps_buildsFromParameters, by simp⟩

/-! ## Sessions -/

theorem catalogue_after {ops : List Operation} (hops : ∀ op ∈ ops, op.keepsTables = true) :
    (Registry.after (.registerAll registrations :: ops)).catalogue = standardRegistry.catalogue := by
  have hfold : ∀ r : Registry, r.SameTables (ops.foldl (fun r op => op.apply r) r) := by
    induction ops with
    | nil => exact .refl
    | cons op ops ih =>
      intro r
      exact (Operation.apply_sameTables (hops op (by simp)) r).trans (ih (fun op hop => hops op (by simp [hop])) _)
  rw [Registry.after, List.foldl_cons, ← standardRegistry_eq]
  exact (hfold standardRegistry).catalogue

/-- In a session that begins with the standard plugins and registers no others, keys that the plugins do not declare
make no difference, in a description or in those inside it: descriptions that are the same without them are compiled to
the same outcome and leave the same registry. -/
theorem compile_undeclared {ops : List Operation} (hops : ∀ op ∈ ops, op.keepsTables = true) {key : String} {x y : Json}
    (h : standardRegistry.catalogue.declared key x = standardRegistry.catalogue.declared key y) :
    compile key y (Registry.after (.registerAll registrations :: ops)) =
      compile key x (Registry.after (.registerAll registrations :: ops)) := by
  have hcatalogue := catalogue_after hops
  refine compile_of_declared_eq ?_ ?_ ?_
  · rw [hcatalogue]
    exact standardRegistry_accepted
  · rw [hcatalogue]
    exact fun _ _ p hp => plugins_buildFromParameters p (mem_plugins hp)
  · rw [hcatalogue]
    exact h

/-- An interval that describes its variable inside. -/
def plainInterval : Members :=
  [("type", .str "interval"), ("cv", .obj [("type", .str "position"), ("atom", .num (.integer 1))]),
    ("min", .num (.integer 0)), ("max", .num (.integer 1))]

/-- The interval with keys in both descriptions that are called as the constructor calls the bounds. -/
def annotatedInterval : Members :=
  [("lambda_min", .str "low"), ("type", .str "interval"),
    ("cv", .obj [("type", .str "position"), ("lambda_max", .null), ("atom", .num (.integer 1))]),
    ("min", .num (.integer 0)), ("max", .num (.integer 1)), ("lambda_max", .num (.integer 7))]

theorem compile_annotatedInterval :
    standardRegistry.catalogue.declared "volume" (.obj plainInterval) =
      standardRegistry.catalogue.declared "volume" (.obj annotatedInterval) ∧
    (∀ op ∈ [Operation.compile "volume" (.obj plainInterval)], op.keepsTables = true) ∧
    let r := Registry.after [.registerAll registrations, .compile "volume" (.obj plainInterval)]
    compile "volume" (.obj annotatedInterval) r = compile "volume" (.obj plainInterval) r ∧
    (compile "volume" (.obj annotatedInterval) r).1.toOption = some ⟨3⟩ := by
  have hdeclared : standardRegistry.catalogue.declared "volume" (.obj plainInterval) =
      standardRegistry.catalogue.declared "volume" (.obj annotatedInterval) := by
    have hcv := canonical_standardRegistry.1
    have hposition : standardRegistry.catalogue.plugin? "cv" "position" = some coordinatePlugin :=
      plugin?_of_serial (by simp [plugins]) (by decide +kernel)
    have hinterval := plugin?_interval
    generalize standardRegistry.catalogue = c at hcv hposition hinterval ⊢
    have hmapping : ∀ {key tag : String} {p : Plugin} {members : Members}, c.plugin? key tag = some p →
        (Entries.get? "type" members).bind Json.text? = some tag →
        c.declared key (.obj members) = .obj (members.filterMap (p.declared? c c.declared)) := by
      intro key tag p members hp htag
      rw [Catalogue.declared_obj, Mapping.declared, Mapping.plugin?, htag, Option.bind_some, hp]
    have hvariable : c.declared "cv" (.obj [("type", .str "position"), ("atom", .num (.integer 1))]) =
        c.declared "cv" (.obj [("type", .str "position"), ("lambda_max", .null), ("atom", .num (.integer 1))]) := by
      rw [hmapping hposition rfl, hmapping hposition rfl]
      rfl
    rw [hmapping hinterval rfl, hmapping hinterval rfl]
    rw [← hcv] at hvariable
    exact congrArg (fun cv => Json.obj [("type", .str "interval"), ("cv", cv), ("min", .num (.integer 0)),
      ("max", .num (.integer 1))]) hvariable
  have hops : ∀ op ∈ [Operation.compile "volume" (.obj plainInterval)], op.keepsTables = true := by
    simp [Operation.keepsTables]
  have hsame := compile_undeclared hops hdeclared
  have hrun : (compile "volume" (.obj plainInterval)
      (Registry.after [.registerAll registrations, .compile "volume" (.obj plainInterval)])).1.toOption = some ⟨3⟩ := by
    decide +kernel
  exact ⟨hdeclared, hops, hsame, by rw [hsame]; exact hrun⟩

end Sampling
end Blueprint
