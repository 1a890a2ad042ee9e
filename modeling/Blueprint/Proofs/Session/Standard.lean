import Blueprint.Proofs.Sampling.Contract
import Blueprint.Proofs.Session.Chronicle
import Blueprint.Proofs.Session.Dispatch
import Blueprint.Proofs.Session.References

/-!
# Sessions with the standard plugins

Whatever documents are compiled with the standard plugins, every object that is registered keeps the contract of its
kind (`Sampling.session_sound`).
-/

namespace Blueprint

variable {docs : List Json} {log : List Mapping} {m : Mapping} {o : Object}

/-! ## Storable documents -/

namespace Json.Storable

theorem num {n : Number} (h : n.Storable) : (Json.num n).Storable := by
  intro n' hn
  rcases hn.inside with he | ⟨items, he, -⟩ | ⟨members, he, -⟩
  · cases he
    exact h
  · cases he
  · cases he

theorem str (s : String) : (Json.str s).Storable := by
  intro n hn
  rcases hn.inside with he | ⟨items, he, -⟩ | ⟨members, he, -⟩ <;> cases he

theorem obj {members : Members} (h : ∀ e ∈ members, e.2.Storable) : (Json.obj members).Storable := by
  intro n hn
  rcases hn.inside with he | ⟨items, he, -⟩ | ⟨members, he, e, hmem, hp⟩
  · cases he
  · cases he
  · cases he
    exact h e hmem n hp

end Json.Storable

theorem Json.Within.storable {raw : Json} (h : raw.Within docs) (hdocs : ∀ d ∈ docs, d.Storable) : raw.Storable := by
  obtain ⟨d, hd, hp⟩ := h
  exact fun n hn => hdocs d hd n (hn.trans hp)

theorem Object.Sound.placed {input : Members} (h : o.Sound log input) (label : String) (name : Option String) :
    (o.placed label name).Sound log input := ⟨h.payload, h.label⟩

namespace Sampling

/-! ## The standard registry -/

/-- The registry that sessions with the standard plugins begin with. -/
theorem standardRegistry_eq : standardRegistry = (Operation.registerAll registrations).apply .empty := rfl

theorem mem_plugins {key tag : String} {p : Plugin} (h : standardRegistry.catalogue.plugin? key tag = some p) :
    p ∈ plugins := by
  have hop : (Operation.registerAll registrations).Within ⟨True, fun _ => True, (· ∈ plugins), fun _ => False⟩ :=
    within_registrations trivial (fun _ => trivial) fun _ hp => hp
  have hall := Operation.apply_dispatch (r := .empty) hop (by rintro _ _ _ ⟨⟩)
  rw [← standardRegistry_eq] at hall
  simp only [Registry.catalogue] at h
  exact hall key tag p h

theorem plugins_accepted : ∀ p ∈ plugins, p.checked = .ok p := by
  have hfree : ∀ p ∈ plugins, ∀ q ∈ p.parameters, q.name ≠ "name" ∧ q.name ≠ "type" := by decide +kernel
  exact fun p hp => Plugin.checked_eq_ok_iff.mpr ⟨nodup_parameters p hp, hfree p hp⟩

/-- A standard plugin is recognized by its number. -/
theorem plugin?_of_serial {key tag : String} {p : Plugin} (hp : p ∈ plugins)
    (h : (standardRegistry.catalogue.plugin? key tag).map Plugin.serial = some p.serial) :
    standardRegistry.catalogue.plugin? key tag = some p := by
  have hserials : (plugins.map Plugin.serial).Nodup := by decide
  obtain ⟨q, hq, hs⟩ := Option.map_eq_some_iff.mp h
  rw [hq, List.inj_on_of_nodup_map hserials (mem_plugins hq) hp hs]

theorem standardRegistry_accepted : standardRegistry.catalogue.Accepted :=
  fun _ _ p hp => plugins_accepted p (mem_plugins hp)

theorem plugin?_interval : standardRegistry.catalogue.plugin? "volume" "interval" = some intervalPlugin :=
  plugin?_of_serial (by simp [plugins]) (by decide +kernel)

theorem chronicle_standardRegistry : Chronicle standardRegistry.catalogue docs [] standardRegistry := by
  have hcoherent : standardRegistry.Coherent :=
    Operation.apply_coherent (.registerAll registrations) (.of_empty fun _ => rfl)
  have htidy : standardRegistry.Tidy := Operation.apply_tidy (.registerAll registrations) Registry.tidy_empty
  exact .start hcoherent htidy (by decide +kernel)

theorem canonical_standardRegistry :
    standardRegistry.catalogue.key "cv" = "cv" ∧ standardRegistry.catalogue.key "volume" = "volume" ∧
      standardRegistry.catalogue.key "states" = "volume" := by
  decide +kernel

/-! ## Objects of the standard plugins -/

/-- What is made with the standard plugins keeps the contract of its kind. -/
theorem sound_of_made (hmade : m.Made standardRegistry.catalogue log o) (hm : m.Within docs)
    (hdocs : ∀ d ∈ docs, d.Storable) : o.Sound log m.input := by
  obtain ⟨hcv, hvolume, hstates⟩ := canonical_standardRegistry
  cases hmade with
  | @build p args store hplugin hargs complete built =>
    have hinput : ∀ key raw, Entries.get? key m.input = some raw → raw.Storable :=
      fun key raw hraw => (hm.get? hraw).storable hdocs
    obtain ⟨tag, -, hp⟩ := Option.bind_eq_some_iff.mp hplugin
    have hmem := mem_plugins hp
    have hp := hmem
    simp only [plugins, List.mem_cons, List.not_mem_nil, or_false] at hp
    rcases hp with rfl | rfl | rfl | rfl | rfl | rfl | rfl
    · exact toy_sound hargs hinput built
    · exact coordinate_sound hargs built
    · exact distance_sound hargs built
    · exact interval_sound hargs complete hcv hinput built
    · exact combination_sound .union hmem hvolume hargs built
    · exact combination_sound .intersection hmem hvolume hargs built
    · exact tps_sound hargs hstates built

/-- In a session that begins with the standard plugins and then only compiles documents, the objects of the store were
made of mappings in the documents, one for each and in this order. An object bears the category and the name of its
mapping and keeps the contract of its kind, where descriptions inside the mapping stand for objects made before. The
lists of the categories hold objects of their mappings only. -/
theorem session_sound {ops : List Operation} (hops : ∀ op ∈ ops, op.compiles = true)
    (hdocs : ∀ op ∈ ops, ∀ d ∈ op.documents, d.Storable) :
    ∃ log : List Mapping,
      (Registry.after (.registerAll registrations :: ops)).store.objects.length = log.length ∧
      (∀ (i : Nat) (m : Mapping), log[i]? = some m → m.Within (ops.flatMap Operation.documents) ∧
        ∃ o : Object, (Registry.after (.registerAll registrations :: ops)).store.get? ⟨i⟩ = some o ∧
          o.category = some m.key ∧ (∀ n, m.name? = some n → o.name = some n) ∧ o.Sound (log.take i) m.input) ∧
      ∀ key, ∀ h ∈ ((Registry.after (.registerAll registrations :: ops)).category key).objects,
        ∃ m, log[h.index]? = some m ∧ m.key = key := by
  have hdocs : ∀ d ∈ ops.flatMap Operation.documents, d.Storable := by
    intro d hd
    obtain ⟨op, hop, hd⟩ := List.mem_flatMap.mp hd
    exact hdocs op hop d hd
  obtain ⟨log, -, h⟩ := Chronicle.after hops chronicle_standardRegistry
  have hstart : Registry.after (.registerAll registrations :: ops) =
      ops.foldl (fun r op => op.apply r) standardRegistry := by
    rw [Registry.after, List.foldl_cons, standardRegistry_eq]
  rw [← hstart] at h
  refine ⟨log, h.length, fun i m hm => ?_, h.listed⟩
  have hwithin := h.within m (List.mem_of_getElem? hm)
  obtain ⟨o, ho, hmade⟩ := h.made i m hm
  refine ⟨hwithin, o.placed m.key m.name?, ho, rfl, fun n hn => ?_, ?_⟩
  · simp [Object.placed, hn]
  · exact (sound_of_made hmade hwithin hdocs).placed _ _

/-- The interval was made of the second mapping, and of the first one the variable that it refers to. -/
theorem intervalSession_sound :
    (∀ op ∈ intervalSession.tail, op.compiles = true) ∧
    (∀ op ∈ intervalSession.tail, ∀ d ∈ op.documents, d.Storable) ∧
    ∃ (log : List Mapping) (m : Mapping) (o : Object), log.length = 2 ∧ log[1]? = some m ∧ m.key = "volume" ∧
      (Registry.after intervalSession).store.get? ⟨1⟩ = some o ∧ o.Sound (log.take 1) m.input := by
  have hops : ∀ op ∈ intervalSession.tail, op.compiles = true := by simp [intervalSession, Operation.compiles]
  have hdocs : ∀ op ∈ intervalSession.tail, ∀ d ∈ op.documents, d.Storable := by
    simp only [intervalSession, List.tail_cons, List.forall_mem_singleton, Operation.documents]
    have hvariable : (Json.obj [("type", .str "position")]).Storable := .obj (by simp [Json.Storable.str])
    have hmin : (Json.num (.integer 0)).Storable := .num (by decide : Number.isAnyWord 0 = true)
    have hmax : (Json.num (.integer 1)).Storable := .num (by decide : Number.isAnyWord 1 = true)
    exact .obj (by simpa using .obj (by simp [Json.Storable.str, hvariable, hmin, hmax]))
  refine ⟨hops, hdocs, ?_⟩
  obtain ⟨log, hlength, hmade, hlisted⟩ := session_sound hops hdocs
  have hsession : .registerAll registrations :: intervalSession.tail = intervalSession := rfl
  rw [hsession] at hlength hmade hlisted
  have hrun : (Registry.after intervalSession).store.objects.length = 2 ∧
      (⟨1⟩ : Handle) ∈ ((Registry.after intervalSession).category "volume").objects := by decide +kernel
  obtain ⟨m, hm, hkey⟩ := hlisted "volume" ⟨1⟩ hrun.2
  obtain ⟨-, o, ho, -, -, hsound⟩ := hmade 1 m hm
  exact ⟨log, m, o, hlength.symm.trans hrun.1, hm, hkey, ho, hsound⟩

end Sampling

end Blueprint
