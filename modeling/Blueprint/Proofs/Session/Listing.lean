import Blueprint.Proofs.Session.Dispatch

/-!
# What a category lists

A plugin is bound to its type tag and its aliases and to nothing else, whatever was registered before and whatever was
refused. So the type tags of a category tell its plugins apart, its list of plugins is the same in whichever order they
are found in the dispatch table, and its schema has one entry for each of them (`session_registration_names`).
-/

namespace Blueprint

/-- The number of a plugin says which plugin it is; there is no other restriction. -/
def Permit.numbered (plugins : Nat → Plugin) : Permit :=
  ⟨True, fun _ => True, fun p => plugins p.serial = p, fun _ => True⟩

namespace Entries

/-- Keys that are distinct and new are bound one after the other. -/
theorem setAll_eq_append {α : Type} {entries new : List (String × α)} (distinct : (new.map (·.1)).Nodup)
    (h : ∀ e ∈ new, get? e.1 entries = none) : setAll entries new = entries ++ new := by
  induction new generalizing entries with
  | nil => simp [setAll]
  | cons e new ih =>
    obtain ⟨hfresh, distinct⟩ := List.nodup_cons.mp distinct
    have he := set_of_get?_eq_none (h e (by simp)) e.2
    have hrest : ∀ e' ∈ new, get? e'.1 (entries ++ [e]) = none := by
      intro e' he'
      have hne : e.1 ≠ e'.1 := fun heq => hfresh (List.mem_map.mpr ⟨e', he', heq.symm⟩)
      rw [get?_append, h e' (by simp [he']), get?_cons, if_neg hne]
      rfl
    calc setAll entries (e :: new) = setAll (set e.1 e.2 entries) new := rfl
      _ = setAll (entries ++ [e]) new := by rw [he]
      _ = entries ++ e :: new := by rw [ih distinct hrest, List.append_assoc, List.singleton_append]

end Entries

namespace Category

variable {c : Category}

/-- In a category a plugin is bound to its own names, and plugins are told apart by their numbers. -/
structure Mirrored (c : Category) : Prop where
  names : ∀ tag p, c.dispatch.get? tag = some p → ∀ name, c.dispatch.get? name = some p ↔ name ∈ p.registrationNames
  identified : ∀ s t p q, c.dispatch.get? s = some p → c.dispatch.get? t = some q → p.same q = true → p = q

theorem Mirrored.tag_injective (h : c.Mirrored) {s t : String} {p q : Plugin} (hp : c.dispatch.get? s = some p)
    (hq : c.dispatch.get? t = some q) (he : p.tag = q.tag) : p = q := by
  have htag := (h.names s p hp p.tag).mpr (Plugin.mem_registrationNames.mpr (.inl rfl))
  have htag' := (h.names t q hq q.tag).mpr (Plugin.mem_registrationNames.mpr (.inl rfl))
  exact Option.some.inj (htag.symm.trans (he ▸ htag'))

/-- In whichever order the plugins are found, they are listed by type tag, each of them once. -/
theorem Mirrored.listing_spec (h : c.Mirrored) {values : List Plugin} (hvalues : values.Perm c.dispatch.values) :
    (listing values).Pairwise (·.tag < ·.tag) ∧ ∀ p, p ∈ listing values ↔ ∃ tag, c.dispatch.get? tag = some p := by
  obtain ⟨hordered, hfrom, hall⟩ := Category.listing_spec values
  have hbound : ∀ {p}, p ∈ values ↔ ∃ tag, c.dispatch.get? tag = some p := hvalues.mem_iff.trans mem_dispatch_values
  refine ⟨hordered.imp_of_mem fun {p q} hp hq hpq => lt_of_le_of_ne hpq.1 fun he => ?_, fun p => ⟨fun hp => ?_, ?_⟩⟩
  · obtain ⟨s, hs⟩ := hbound.mp (hfrom p hp)
    obtain ⟨t, ht⟩ := hbound.mp (hfrom q hq)
    obtain rfl := h.tag_injective hs ht he
    exact Bool.false_ne_true (hpq.2.symm.trans (Plugin.same_iff.mpr rfl))
  · exact hbound.mp (hfrom p hp)
  · rintro ⟨tag, htag⟩
    obtain ⟨q, hq, hsame⟩ := hall p (hbound.mpr ⟨tag, htag⟩)
    obtain ⟨t, ht⟩ := hbound.mp (hfrom q hq)
    exact h.identified tag t p q htag ht hsame ▸ hq

theorem nodup_of_tags_lt {ps : List Plugin} (h : ps.Pairwise (·.tag < ·.tag)) : ps.Nodup := by
  refine h.imp ?_
  rintro p _ hlt rfl
  exact lt_irrefl _ hlt

theorem Mirrored.listing_eq (h : c.Mirrored) {values : List Plugin} (hvalues : values.Perm c.dispatch.values) :
    listing values = c.plugins := by
  obtain ⟨hordered, hmem⟩ := h.listing_spec hvalues
  obtain ⟨hordered', hmem'⟩ := h.listing_spec (.refl c.dispatch.values)
  have hperm : (listing values).Perm (listing c.dispatch.values) :=
    (List.perm_ext_iff_of_nodup (nodup_of_tags_lt hordered) (nodup_of_tags_lt hordered')).mpr
      fun p => (hmem p).trans (hmem' p).symm
  exact hperm.eq_of_pairwise (fun p q _ _ hpq hqp => absurd (hpq.trans hqp) (lt_irrefl _)) hordered hordered'

theorem Mirrored.schema_eq (h : c.Mirrored) (store : Store) :
    c.schema store = .obj (c.plugins.map fun p => (p.tag, p.schema store)) ∧ (c.plugins.map Plugin.tag).Nodup := by
  have hdistinct : (c.plugins.map Plugin.tag).Nodup :=
    List.pairwise_map.mpr ((h.listing_spec (.refl _)).1.imp ne_of_lt)
  refine ⟨?_, hdistinct⟩
  rw [schema, Entries.setAll_eq_append (by simpa [Function.comp_def] using hdistinct) fun _ _ => rfl, List.nil_append]

end Category

/-- In every session that binds no tags apart from registering plugins, a plugin is bound to its registration names and
nothing else. So plugins have different type tags, they are listed once each and by type tag, in whichever order the
dispatch table is gone through, and the schema of a category has one entry for each. -/
theorem session_registration_names (plugins : Nat → Plugin) (ops : List Operation)
    (hops : ∀ op ∈ ops, op.Within (.numbered plugins) ∧ op.binds = false) (key : String) (c : Category)
    (hc : (Registry.after ops).categories.get? key = some c) :
    (∀ tag p, c.dispatch.get? tag = some p → ∀ name, c.dispatch.get? name = some p ↔ name = p.tag ∨ name ∈ p.aliases) ∧
    (∀ s t p q, c.dispatch.get? s = some p → c.dispatch.get? t = some q → p ≠ q → p.tag ≠ q.tag) ∧
    c.plugins.Pairwise (·.tag < ·.tag) ∧
    (∀ p, p ∈ c.plugins ↔ ∃ tag, c.dispatch.get? tag = some p) ∧
    (∀ values, values.Perm c.dispatch.values → Category.listing values = c.plugins) ∧
    ∀ store, c.schema store = .obj (c.plugins.map fun p => (p.tag, p.schema store)) ∧
      (c.plugins.map Plugin.tag).Nodup := by
  have hmirrored := after_mirrored fun op hop => (hops op hop).2
  have hnumbered := after_dispatch fun op hop => (hops op hop).1
  obtain rfl := Registry.category_of_get? hc
  have hidentified : ∀ s t p q, ((Registry.after ops).category key).dispatch.get? s = some p →
      ((Registry.after ops).category key).dispatch.get? t = some q → p.same q = true → p = q := by
    intro s t p q hp hq hsame
    calc p = plugins p.serial := (hnumbered key s p hp).symm
      _ = plugins q.serial := by rw [Plugin.same_iff.mp hsame]
      _ = q := hnumbered key t q hq
  have hc : ((Registry.after ops).category key).Mirrored := by
    refine ⟨fun tag p hp name => ⟨hmirrored.own key name p, fun hname => ?_⟩, hidentified⟩
    obtain ⟨q, hq, hsame⟩ := hmirrored.all key tag p hp name hname
    exact hidentified name tag q p hq hp hsame ▸ hq
  exact ⟨fun tag p hp name => (hc.names tag p hp name).trans Plugin.mem_registrationNames,
    fun s t p q hp hq hne he => hne (hc.tag_injective hp hq he), (hc.listing_spec (.refl _)).1,
    (hc.listing_spec (.refl _)).2, fun values => hc.listing_eq, hc.schema_eq⟩

namespace Sampling

/-- The standard plugins by their numbers. -/
def pluginOf (serial : Nat) : Plugin := plugins.getD serial toyPlugin

theorem standard_registration_names :
    (∀ op ∈ [Operation.registerAll registrations], op.Within (.numbered pluginOf) ∧ op.binds = false) ∧
    ∃ c, (Registry.after [.registerAll registrations]).categories.get? "volume" = some c ∧
      c.tags = ["intersection", "interval", "range", "union"] ∧
      c.plugins.map Plugin.tag = ["intersection", "interval", "union"] ∧
      ∀ values, values.Perm c.dispatch.values → Category.listing values = c.plugins := by
  have hops : ∀ op ∈ [Operation.registerAll registrations], op.Within (.numbered pluginOf) ∧ op.binds = false := by
    have hplugins : ∀ p ∈ plugins, pluginOf p.serial = p := by
      simp only [plugins, List.forall_mem_cons]
      exact ⟨rfl, rfl, rfl, rfl, rfl, rfl, rfl, by simp⟩
    have hitems : ∀ item ∈ registrations, item.Within (.numbered pluginOf) := by
      simp only [registrations, List.mem_append, List.mem_map]
      rintro item (⟨d, -, rfl⟩ | ⟨p, hp, rfl⟩)
      · exact trivial
      · exact hplugins p hp
    simp only [List.forall_mem_singleton]
    exact ⟨⟨trivial, hitems⟩, rfl⟩
  have hcontains : (Registry.after [.registerAll registrations]).categories.contains "volume" = true := by
    decide +kernel
  have hget := Registry.get?_of_contains hcontains
  obtain ⟨-, -, -, -, hlisting, -⟩ := session_registration_names pluginOf _ hops "volume" _ hget
  exact ⟨hops, _, hget, by decide +kernel, by decide +kernel, hlisting⟩

end Sampling
end Blueprint
