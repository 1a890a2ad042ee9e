import Blueprint.Proofs.Plugin.Conservative
import Blueprint.Sampling.Plugins

/-!
# The standard plugins are conservative

An object of a standard plugin refers to nothing but the objects that its description refers to.
-/

namespace Blueprint.Sampling

/-! ## Constructors -/

variable {store : Store} {args : Arguments} {o : Object} {h : Handle}

theorem toyEngine_held (ho : toyEngine store args = .ok o) : o.held = [] := by
  obtain ⟨timestep, -, ho⟩ := of_bind_ok ho
  obtain ⟨stepsPerFrame, -, ho⟩ := of_bind_ok ho
  obtain ⟨integrator, -, ho⟩ := of_bind_ok ho
  obtain ⟨temperature, -, ho⟩ := of_bind_ok ho
  split at ho <;> cases ho
  rfl

theorem coordinate_held (ho : coordinate store args = .ok o) : o.held = [] := by
  obtain ⟨atom, -, ho⟩ := of_bind_ok ho
  obtain ⟨axis, -, ho⟩ := of_bind_ok ho
  cases ho
  rfl

theorem distance_held (ho : distance store args = .ok o) : o.held = [] := by
  obtain ⟨items, -, ho⟩ := of_bind_ok ho
  simp only at ho
  split at ho <;> cases ho
  rfl

theorem interval_held (ho : interval store args = .ok o) (hh : h ∈ o.held) : h ∈ args.held := by
  obtain ⟨quantity, hq, ho⟩ := of_bind_ok ho
  obtain ⟨lower, -, ho⟩ := of_bind_ok ho
  obtain ⟨upper, -, ho⟩ := of_bind_ok ho
  split at ho <;> cases ho
  obtain rfl : h = quantity := by simpa [Object.held, Payload.held] using hh
  exact Arguments.object_mem hq

theorem combination_held {combine : Combine} (ho : combination combine store args = .ok o) (hh : h ∈ o.held) :
    h ∈ args.held := by
  obtain ⟨volumes, hv, ho⟩ := of_bind_ok ho
  split at ho <;> cases ho
  exact Arguments.objects_mem hv (by simpa [Object.held, Payload.held] using hh)

theorem transitions_held (ho : transitions store args = .ok o) (hh : h ∈ o.held) : h ∈ args.held := by
  obtain ⟨initial, hi, ho⟩ := of_bind_ok ho
  obtain ⟨final, hf, ho⟩ := of_bind_ok ho
  simp only at ho
  split at ho <;> cases ho
  have hmem : h ∈ initial ∨ h ∈ final := by simpa [Object.held, Payload.held] using hh
  rcases hmem with hmem | hmem
  · exact Arguments.objects_mem hi hmem
  · exact Arguments.objects_mem hf hmem

/-! ## Plugins -/

theorem toyBuilder_faithful : toyBuilder.Faithful where
  construct store args o ho h hh := by
    rw [toyEngine_held (show toyEngine store args = .ok o from ho)] at hh
    cases hh
  remap args h hh := Arguments.held_erase hh
  finish o args o' ho h hh := by
    cases ho
    split at hh
    · rcases Object.mem_held_setAttribute hh with hh | hh
      · cases hh
      · exact .inl hh
    · exact .inl hh

theorem intervalBuilder_faithful : intervalBuilder.Faithful where
  construct store args o ho h hh := interval_held (show interval store args = .ok o from ho) hh
  remap args h hh := Arguments.held_rename (Arguments.held_rename hh)
  finish o args o' ho h hh := by
    cases ho
    exact .inl hh

theorem faithful_plugins : ∀ p ∈ plugins, p.builder.Faithful := by
  simp only [plugins, List.forall_mem_cons, List.not_mem_nil, false_implies, implies_true, and_true]
  refine ⟨toyBuilder_faithful, ?coordinate, ?distance, intervalBuilder_faithful, ?union, ?intersection, ?tps⟩
  case coordinate => exact .of_construct fun store args o ho h hh => by simp [coordinate_held ho] at hh
  case distance => exact .of_construct fun store args o ho h hh => by simp [distance_held ho] at hh
  case union => exact .of_construct fun store args o ho h hh => combination_held ho hh
  case intersection => exact .of_construct fun store args o ho h hh => combination_held ho hh
  case tps => exact .of_construct fun store args o ho h hh => transitions_held ho hh

theorem plugins_defaults :
    ∀ p ∈ plugins, ∀ q ∈ p.parameters, (q.default.all fun value => value.held.isEmpty) = true := by
  decide +kernel

theorem plugins_standard : ∀ p ∈ plugins, ∀ q ∈ p.parameters, q.loader.standard = true := by decide +kernel

/-- The standard plugins are conservative. -/
theorem plugins_conservative : ∀ p ∈ plugins, p.Conservative := by
  intro p hp
  refine ⟨fun q hq value hv => ?_, fun q hq => ?_, faithful_plugins p hp⟩
  · have h := plugins_defaults p hp q hq
    simpa [hv] using h
  · exact Loader.plain_of_standard (plugins_standard p hp q hq)

end Blueprint.Sampling
