import Blueprint.Proofs.Registry.Growth
import Blueprint.Registry.Registration

/-!
# Declaring, binding and forgetting

What the operations that do not register objects do to a registry, one equation for each table they touch.
-/

namespace Blueprint

namespace Registry

variable (r : Registry)

/-! ## Creating -/

theorem aliases_ensure (name : String) : (r.ensure name).aliases = r.aliases := by
  simp only [ensure]
  split <;> rfl

theorem declarations_ensure (name : String) : (r.ensure name).declarations = r.declarations := by
  simp only [ensure]
  split <;> rfl

theorem store_ensure (name : String) : (r.ensure name).store = r.store := by
  simp only [ensure]
  split <;> rfl

theorem canonical_of_unaliased {r : Registry} {name : String} (h : r.aliases.contains (Key.clean name) = false) :
    r.canonical name = Key.clean name := by
  have hn : r.aliases.get? (Key.clean name) = none := by simpa [Dict.contains_eq] using h
  simp [canonical, hn]

theorem canonical_ensure (name other : String) : (r.ensure name).canonical other = r.canonical other := by
  simp only [canonical, aliases_ensure]

theorem sameTables_ensure (name : String) : r.SameTables (r.ensure name) where
  aliases := r.aliases_ensure name
  declarations := r.declarations_ensure name
  dispatch key := by rw [category_ensure]

/-! ## Declaring -/

section
variable (key : String) (d : CategoryDeclaration) (keys : List String)

theorem category_addDeclaration (k : String) : (r.addDeclaration key d keys).category k = r.category k :=
  category_ensure _ key k

theorem contains_addDeclaration (k : String) :
    (r.addDeclaration key d keys).categories.contains k = (decide (r.canonical key = k) || r.categories.contains k) :=
  contains_ensure _ key k

theorem store_addDeclaration : (r.addDeclaration key d keys).store = r.store := store_ensure _ key

theorem aliases_addDeclaration :
    (r.addDeclaration key d keys).aliases = r.aliases.insertAll (keys.map fun a => (a, key)) := by
  simp only [addDeclaration, aliases_ensure]

theorem declarations_addDeclaration : (r.addDeclaration key d keys).declarations = r.declarations.insert key d :=
  declarations_ensure _ key

end

end Registry

/-! ## Binding -/

namespace Category

variable {p : Plugin} {tags : List String}

/-- Binding tags one after the other binds those that are free. -/
theorem get?_bind (dispatch : Dict Plugin) (p : Plugin) (tags : List String) (tag : String) :
    (tags.foldl (fun d t => if d.contains t then d else d.insert t p) dispatch).get? tag =
      (dispatch.get? tag).or (if tag ∈ tags then some p else none) := by
  induction tags generalizing dispatch with
  | nil => simp
  | cons t tags ih =>
    rw [List.foldl_cons, ih]
    by_cases ht : dispatch.contains t = true
    · rw [if_pos ht]
      obtain ⟨q, hq⟩ := Option.isSome_iff_exists.mp ht
      by_cases he : tag = t
      · subst he
        simp [hq]
      · simp [he]
    · have hfree : dispatch.get? t = none := by simpa [Dict.contains_eq] using ht
      rw [if_neg ht, Dict.get?_insert]
      by_cases he : t = tag
      · subst he
        simp [hfree]
      · simp [he, Ne.symm he]

/-- Binding tags changes nothing but the dispatch table: what is bound there stays, and what is new is the plugin. -/
theorem bind_cases {c c' : Category} (h : c.bind p tags = .ok c') :
    ∃ dispatch, c' = { c with dispatch } ∧
      (∀ tag q, c.dispatch.get? tag = some q → dispatch.get? tag = some q) ∧
      ∀ tag q, dispatch.get? tag = some q → c.dispatch.get? tag = some q ∨ q = p := by
  simp only [bind] at h
  split at h
  · cases h
  · cases h
    refine ⟨_, rfl, fun tag q hq => by rw [get?_bind, hq, Option.some_or], fun tag q hq => ?_⟩
    rw [get?_bind, Option.or_eq_some_iff] at hq
    obtain hq | ⟨-, hq⟩ := hq
    · exact .inl hq
    · split at hq
      · exact .inr (by simpa using hq.symm)
      · cases hq

end Category

namespace Registry

variable {r : Registry} {key : String} {p : Plugin} {tags : List String} {c : Category}

theorem category_bind (h : (r.category key).bind p tags = .ok c) (k : String) :
    ∃ dispatch, (r.setCategory key c).category k =
        ⟨(r.category k).label, dispatch, (r.category k).named, (r.category k).objects⟩ ∧
      (∀ tag q, (r.category k).dispatch.get? tag = some q → dispatch.get? tag = some q) ∧
      ∀ tag q, dispatch.get? tag = some q → (r.category k).dispatch.get? tag = some q ∨ q = p := by
  obtain ⟨dispatch, rfl, kept, new⟩ := Category.bind_cases h
  rw [category_setCategory]
  split
  · next hk =>
    subst hk
    exact ⟨dispatch, rfl, kept, new⟩
  · exact ⟨_, rfl, fun tag q hq => hq, fun tag q hq => .inl hq⟩

end Registry

/-! ## Forgetting -/

namespace Registry

variable (r : Registry)

theorem category_clearObjects (k : String) : r.clearObjects.category k = (r.category k).clear := by
  simp only [category, clearObjects, Dict.get?_map]
  cases r.categories.get? k <;> rfl

theorem contains_clearObjects (k : String) : r.clearObjects.categories.contains k = r.categories.contains k := by
  simp [clearObjects, Dict.contains_eq, Dict.get?_map]

theorem category_clearCategory (name k : String) :
    (r.clearCategory name).category k = if r.canonical name = k then (r.category k).clear else r.category k := by
  simp only [clearCategory, find?]
  cases hc : r.categories.get? (r.canonical name) with
  | some c =>
    simp only [category_setCategory]
    split
    · next hk => rw [← hk, category_of_get? hc]
    · rfl
  | none =>
    simp only
    split
    · next hk => simp [category, ← hk, hc, Category.clear, Category.empty]
    · rfl

theorem contains_clearCategory (name k : String) :
    (r.clearCategory name).categories.contains k = r.categories.contains k := by
  simp only [clearCategory, find?]
  cases hc : r.categories.get? (r.canonical name) with
  | some c =>
    simp only [contains_setCategory, Bool.or_eq_right_iff_imp, decide_eq_true_eq]
    rintro rfl
    simp [Dict.contains_eq, hc]
  | none => rfl

theorem sameTables_clearObjects : r.SameTables r.clearObjects where
  aliases := rfl
  declarations := rfl
  dispatch k := by rw [category_clearObjects]; rfl

theorem sameTables_clearCategory (name : String) : r.SameTables (r.clearCategory name) where
  aliases := by simp only [clearCategory]; split <;> rfl
  declarations := by simp only [clearCategory]; split <;> rfl
  dispatch k := by rw [category_clearCategory]; split <;> rfl

theorem store_clearCategory (name : String) : (r.clearCategory name).store = r.store := by
  simp only [clearCategory]
  split <;> rfl

theorem category_reset (k : String) : r.reset.category k = .empty k := rfl

end Registry
end Blueprint
