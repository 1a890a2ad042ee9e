import Blueprint.Proofs.Key.Normal
import Blueprint.Proofs.Session.Objects

/-!
# The names of a session

In every session the keys of categories, aliases and declarations are normal forms, no alias shadows a category, and
every alias leads to a declared category (`Registry.Tidy`). So a name leads to its category in one step, and two names
with one key reach the same category.
-/

namespace Blueprint
namespace Registry

/-! ## Tidy registries -/

/-- Keys are normal forms, and aliases lead from keys that are not in use to declared categories. -/
structure Tidy (r : Registry) : Prop where
  clean : ∀ key, r.occupies key = true → Key.clean key = key
  label : ∀ key, (r.category key).label = key
  unused : ∀ key, r.aliases.contains key = true →
    r.categories.contains key = false ∧ r.declarations.contains key = false
  target : ∀ key target, r.aliases.get? key = some target →
    r.categories.contains target = true ∧ r.declarations.contains target = true
  declared : ∀ key, r.declarations.contains key = true → r.categories.contains key = true

variable {r r' : Registry}

theorem occupies_iff {key : String} : r.occupies key = true ↔
    r.aliases.contains key = true ∨ r.categories.contains key = true ∨ r.declarations.contains key = true := by
  simp [occupies, or_assoc]

theorem tidy_empty : empty.Tidy where
  clean key h := by cases h
  label _ := rfl
  unused key h := by cases h
  target key target h := by cases h
  declared key h := by cases h

theorem Tidy.of_same (h : r.Tidy) (ha : r'.aliases = r.aliases) (hd : r'.declarations = r.declarations)
    (hc : ∀ key, r'.categories.contains key = r.categories.contains key)
    (hl : ∀ key, (r'.category key).label = (r.category key).label) : r'.Tidy where
  clean key hk := by
    rw [occupies_iff, ha, hc, hd, ← occupies_iff] at hk
    exact h.clean key hk
  label key := by rw [hl, h.label]
  unused key hk := by
    rw [ha] at hk
    rw [hc, hd]
    exact h.unused key hk
  target key target hk := by
    rw [ha] at hk
    rw [hc, hd]
    exact h.target key target hk
  declared key hk := by
    rw [hd] at hk
    rw [hc]
    exact h.declared key hk

/-! ## The key of a name -/

/-- A name leads to its own key, or through an alias to a declared category. -/
theorem Tidy.canonical_cases (h : r.Tidy) (name : String) :
    (r.aliases.contains (Key.clean name) = false ∧ r.canonical name = Key.clean name) ∨
    r.aliases.get? (Key.clean name) = some (r.canonical name) ∧
      r.categories.contains (r.canonical name) = true ∧ r.declarations.contains (r.canonical name) = true := by
  cases ha : r.aliases.get? (Key.clean name) with
  | none => exact .inl ⟨by simp [Dict.contains_eq, ha], by simp [canonical, ha]⟩
  | some target =>
    have he : r.canonical name = target := by simp [canonical, ha]
    rw [he]
    exact .inr ⟨rfl, h.target _ target ha⟩

theorem Tidy.clean_canonical (h : r.Tidy) (name : String) : Key.clean (r.canonical name) = r.canonical name := by
  rcases h.canonical_cases name with ⟨-, he⟩ | ⟨-, hc, -⟩
  · rw [he, Key.clean_clean]
  · exact h.clean _ (occupies_iff.mpr (.inr (.inl hc)))

theorem Tidy.not_alias_canonical (h : r.Tidy) (name : String) : r.aliases.contains (r.canonical name) = false := by
  rcases h.canonical_cases name with ⟨ha, he⟩ | ⟨-, hc, -⟩
  · rw [he, ha]
  · by_contra hk
    have hn := (h.unused (r.canonical name) (by simpa using hk)).1
    rw [hc] at hn
    cases hn

theorem canonical_of_clean {key : String} (hclean : Key.clean key = key) (ha : r.aliases.contains key = false) :
    r.canonical key = key := by
  rw [canonical_of_unaliased (by rw [hclean, ha]), hclean]

theorem Tidy.canonical_canonical (h : r.Tidy) (name : String) : r.canonical (r.canonical name) = r.canonical name :=
  canonical_of_clean (h.clean_canonical name) (h.not_alias_canonical name)

theorem Tidy.canonical_of_contains (h : r.Tidy) {key : String} (hk : r.categories.contains key = true) :
    r.canonical key = key := by
  refine canonical_of_clean (h.clean key (occupies_iff.mpr (.inr (.inl hk)))) ?_
  by_contra ha
  have hn := (h.unused key (by simpa using ha)).1
  rw [hk] at hn
  cases hn

/-! ## Creating and declaring -/

theorem Tidy.ensure (h : r.Tidy) (name : String) : (r.ensure name).Tidy where
  clean key hk := by
    rw [occupies_iff, aliases_ensure, contains_ensure, declarations_ensure] at hk
    by_cases he : r.canonical name = key
    · exact he ▸ h.clean_canonical name
    · simp only [he, decide_false, Bool.false_or] at hk
      exact h.clean key (occupies_iff.mpr hk)
  label key := by rw [category_ensure, h.label]
  unused key hk := by
    rw [aliases_ensure] at hk
    rw [contains_ensure, declarations_ensure]
    obtain ⟨hc, hd⟩ := h.unused key hk
    have hne : r.canonical name ≠ key := by
      rintro rfl
      rw [h.not_alias_canonical] at hk
      cases hk
    simp [hc, hd, hne]
  target key target hk := by
    rw [aliases_ensure] at hk
    obtain ⟨hc, hd⟩ := h.target key target hk
    simp [contains_ensure, declarations_ensure, hc, hd]
  declared key hk := by
    rw [declarations_ensure] at hk
    simp [contains_ensure, h.declared key hk]

/-- The aliases that a declaration claims are normal forms, none of them is the category itself, and none is in use. -/
theorem aliasKeys_spec {name key : String} {found spellings keys : List String}
    (hfound : ∀ a ∈ found, Key.clean a = a ∧ a ≠ key ∧ r.occupies a = false)
    (h : r.aliasKeys name key found spellings = .ok keys) :
    ∀ a ∈ keys, Key.clean a = a ∧ a ≠ key ∧ r.occupies a = false := by
  induction spellings generalizing found with
  | nil => cases h; exact hfound
  | cons spelling spellings ih =>
    simp only [aliasKeys] at h
    split at h
    · exact ih hfound h
    · next hnew =>
      split at h
      · cases h
      · next hfree =>
        refine ih (fun a ha => ?_) h
        rcases List.mem_append.mp ha with ha | ha
        · exact hfound a ha
        · obtain rfl : a = Key.clean spelling := by simpa using ha
          simp only [Bool.or_eq_true, not_or, beq_iff_eq] at hnew
          exact ⟨Key.clean_clean _, hnew.1, by simpa using hfree⟩

/-- What a declaration that is accepted claims: a key that is no alias, and aliases that are not in use. -/
structure Claims (r : Registry) (d : CategoryDeclaration) (keys : List String) : Prop where
  canonical : r.canonical d.name = Key.clean d.name
  unaliased : r.aliases.contains (r.canonical d.name) = false
  aliases : ∀ a ∈ keys, Key.clean a = a ∧ a ≠ r.canonical d.name ∧ r.occupies a = false

theorem claims_of_aliasKeys {d : CategoryDeclaration} {keys : List String}
    (unaliased : r.aliases.contains (Key.clean d.name) = false)
    (hkeys : r.aliasKeys d.name (r.canonical d.name) [] d.aliases = .ok keys) : r.Claims d keys := by
  have he : r.canonical d.name = Key.clean d.name := canonical_of_unaliased unaliased
  exact ⟨he, he ▸ unaliased, aliasKeys_spec (by simp) hkeys⟩

section
variable {d : CategoryDeclaration} {keys : List String}

/-- An alias of the registry after a declaration is a new one, which leads to the declared category, or an old one. -/
theorem alias_addDeclaration_cases {key k target : String}
    (hk : (r.addDeclaration key d keys).aliases.get? k = some target) :
    k ∈ keys ∧ target = key ∨ r.aliases.get? k = some target := by
  rw [aliases_addDeclaration] at hk
  rcases Dict.get?_insertAll_cases hk with hm | ho
  · obtain ⟨a, ha, he⟩ := List.mem_map.mp hm
    cases he
    exact .inl ⟨ha, rfl⟩
  · exact .inr ho

theorem Tidy.addDeclaration (h : r.Tidy) (c : r.Claims d keys) :
    (r.addDeclaration (r.canonical d.name) d keys).Tidy := by
  have hclean : Key.clean (r.canonical d.name) = r.canonical d.name := h.clean_canonical d.name
  have hself : r.canonical (r.canonical d.name) = r.canonical d.name := h.canonical_canonical d.name
  have hcontains : ∀ k, (r.addDeclaration (r.canonical d.name) d keys).categories.contains k =
      (decide (r.canonical d.name = k) || r.categories.contains k) := fun k => by
    rw [contains_addDeclaration, hself]
  have hdeclared : ∀ k, (r.addDeclaration (r.canonical d.name) d keys).declarations.contains k =
      (decide (r.canonical d.name = k) || r.declarations.contains k) := fun k => by
    rw [declarations_addDeclaration, Dict.contains_eq, Dict.get?_insert, Dict.contains_eq]
    split <;> simp_all
  refine ⟨fun k hk => ?_, fun k => ?_, fun k hk => ?_, fun k target hk => ?_, fun k hk => ?_⟩
  · rw [occupies_iff, hcontains, hdeclared] at hk
    by_cases he : r.canonical d.name = k
    · exact he ▸ hclean
    · simp only [he, decide_false, Bool.false_or] at hk
      rcases hk with hk | hk
      · obtain ⟨target, ht⟩ := Option.isSome_iff_exists.mp hk
        rcases alias_addDeclaration_cases ht with ⟨hnew, -⟩ | hold
        · exact (c.aliases k hnew).1
        · exact h.clean k (occupies_iff.mpr (.inl (by simp [Dict.contains_eq, hold])))
      · exact h.clean k (occupies_iff.mpr (.inr hk))
  · rw [category_addDeclaration, h.label]
  · obtain ⟨target, ht⟩ := Option.isSome_iff_exists.mp hk
    rw [hcontains, hdeclared]
    rcases alias_addDeclaration_cases ht with ⟨hnew, -⟩ | hold
    · obtain ⟨-, hne, hfree⟩ := c.aliases k hnew
      simp only [occupies, Bool.or_eq_false_iff] at hfree
      simp [hfree, Ne.symm hne]
    · have hold : r.aliases.contains k = true := by simp [Dict.contains_eq, hold]
      obtain ⟨hc, hd⟩ := h.unused k hold
      have hne : r.canonical d.name ≠ k := by
        rintro rfl
        rw [c.unaliased] at hold
        cases hold
      simp [hc, hd, hne]
  · rw [hcontains, hdeclared]
    rcases alias_addDeclaration_cases hk with ⟨-, rfl⟩ | hold
    · simp
    · obtain ⟨hc, hd⟩ := h.target k target hold
      simp [hc, hd]
  · rw [hdeclared] at hk
    rw [hcontains]
    rcases Bool.or_eq_true_iff.mp hk with hk | hk
    · simp [hk]
    · simp [h.declared k hk]

end

theorem Tidy.canonical_addDeclaration {d : CategoryDeclaration} {keys : List String} (h : r.Tidy) (c : r.Claims d keys)
    {name : String} (hk : r.categories.contains (r.canonical name) = true) :
    (r.addDeclaration (r.canonical d.name) d keys).canonical name = r.canonical name := by
  have hoccupied : r.occupies (Key.clean name) = true := by
    rw [occupies_iff]
    -- The key of the name is in use, as an alias or as a category, and a declaration claims only keys that are not.
    rcases h.canonical_cases name with ⟨-, he⟩ | ⟨ha, -⟩
    · exact .inr (.inl (he ▸ hk))
    · exact .inl (by simp [Dict.contains_eq, ha])
  simp only [canonical, aliases_addDeclaration]
  rw [Dict.get?_insertAll_of_not_mem]
  intro e he hkey
  obtain ⟨a, ha, rfl⟩ := List.mem_map.mp he
  rw [← hkey, (c.aliases a ha).2.2] at hoccupied
  cases hoccupied

/-! ## Changes -/

variable {g : Permit}

theorem Change.canonical_eq (h : Change g r r') (hr : r.Tidy) {name : String}
    (hk : r.categories.contains (r.canonical name) = true) : r'.canonical name = r.canonical name := by
  cases h with
  | create _ other => exact r.canonical_ensure other name
  | declare _ _ unaliased hkeys => exact hr.canonical_addDeclaration (claims_of_aliasKeys unaliased hkeys) hk
  | bind | enroll => rfl
  | compile h => exact h.sameTables.canonical name

theorem Change.tidy (h : Change g r r') (hr : r.Tidy) : r'.Tidy := by
  have hlabel := h.extends.label
  cases h with
  | create _ name => exact hr.ensure name
  | declare _ _ unaliased hkeys => exact hr.addDeclaration (claims_of_aliasKeys unaliased hkeys)
  | bind _ present => exact hr.of_same rfl rfl (contains_setCategory_of_contains present _) hlabel
  | enroll _ present => exact hr.of_same rfl rfl (contains_enroll_of_contains _ _ _ _ present) hlabel
  | compile h => exact hr.of_same h.sameTables.aliases h.sameTables.declarations h.contains_eq hlabel

end Registry

/-! ## Operations -/

theorem Operation.apply_tidy (op : Operation) {r : Registry} (h : r.Tidy) : (op.apply r).Tidy := by
  refine apply_induction op.within_all (fun _ _ hchange => hchange.tidy) (fun _ r h => ?_)
    (fun category _ r h => ?_) (fun _ r _ => ?_) h
  · exact h.of_same rfl rfl r.contains_clearObjects r.keeps_clearObjects.label
  · have hs := r.sameTables_clearCategory category
    have hlabel := (r.keeps_clearCategory category).label
    exact h.of_same hs.aliases hs.declarations (r.contains_clearCategory category) hlabel
  · exact Registry.tidy_empty.of_same rfl rfl (fun _ => rfl) fun _ => rfl

theorem Registry.tidy_after (ops : List Operation) : (Registry.after ops).Tidy :=
  Registry.after_induction (Q := fun _ => True) Registry.tidy_empty (fun op _ _ => op.apply_tidy) fun _ _ => trivial

/-- At the end of every session the names of categories are tidy. Leading a name to its key twice is the same as once;
names with one key reach the same category, which bears that key; and the key of a category is its own. -/
theorem session_names (ops : List Operation) :
    (Registry.after ops).Tidy ∧
    (∀ name, (Registry.after ops).canonical ((Registry.after ops).canonical name) =
      (Registry.after ops).canonical name) ∧
    (∀ name other, (Registry.after ops).canonical name = (Registry.after ops).canonical other →
      (Registry.after ops).find? name = (Registry.after ops).find? other ∧
      ((Registry.after ops).ensure name).find? other =
        some ((Registry.after ops).category ((Registry.after ops).canonical name))) ∧
    ∀ key ∈ (Registry.after ops).categories.keys,
      (Registry.after ops).canonical key = key ∧
      ∃ c, (Registry.after ops).find? key = some c ∧ c.label = key := by
  have ht := Registry.tidy_after ops
  generalize Registry.after ops = r at ht
  refine ⟨ht, ht.canonical_canonical, fun name other he => ⟨?_, ?_⟩, fun key hk => ?_⟩
  · simp only [Registry.find?, he]
  · have hc : (r.ensure name).categories.contains (r.canonical name) = true := by simp [Registry.contains_ensure]
    rw [Registry.find?, Registry.canonical_ensure, ← he, Registry.get?_of_contains hc, Registry.category_ensure]
  · have hc : r.categories.contains key = true := (Dict.mem_keys_iff _ _).mp hk
    have he := ht.canonical_of_contains hc
    refine ⟨he, r.category key, ?_, ht.label key⟩
    rw [Registry.find?, he, Registry.get?_of_contains hc]

end Blueprint
