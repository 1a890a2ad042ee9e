import Blueprint.Proofs.Key.Normal
import Blueprint.Proofs.Registry.Tables

/-!
# Registration is all or nothing

A declaration is accepted exactly if its key is free and its aliases are (`Registry.Admits`), a plugin exactly if no
other plugin holds one of its names (`Registry.Accommodates`). What is accepted adds just what it announces
(`Registry.Declared`, `Registry.Registered`); what is refused leaves the registry as it was.
-/

namespace Blueprint

variable {r r' : Registry}

/-! ## Declarations -/

namespace Registry

/-- The key of the declaration is free, and so is the key of every alias that is not the category itself. -/
structure Admits (r : Registry) (d : CategoryDeclaration) : Prop where
  undeclared : r.declarations.contains (Key.clean d.name) = false
  unaliased : r.aliases.contains (Key.clean d.name) = false
  aliases : ∀ spelling ∈ d.aliases, Key.clean spelling ≠ Key.clean d.name → r.occupies (Key.clean spelling) = false

/-- What a declaration adds: itself, its category if there was none, and its aliases but for the name itself. -/
structure Declared (r : Registry) (d : CategoryDeclaration) (r' : Registry) : Prop where
  declarations : ∀ key, r'.declarations.get? key = if Key.clean d.name = key then some d else r.declarations.get? key
  categories : ∀ key, r'.categories.get? key =
    if Key.clean d.name = key then some (r.category key) else r.categories.get? key
  aliases : ∀ key, r'.aliases.get? key =
    if key ≠ Key.clean d.name ∧ key ∈ d.aliases.map Key.clean then some (Key.clean d.name) else r.aliases.get? key
  store : r'.store = r.store

/-- The aliases of a declaration are collected, each once, or one of them is in use. -/
theorem aliasKeys_cases (name key : String) (found : List String)
    (hfound : ∀ a ∈ found, r.occupies a = false) (spellings : List String) :
    (∃ keys, r.aliasKeys name key found spellings = .ok keys ∧
      (∀ s ∈ spellings, Key.clean s ≠ key → r.occupies (Key.clean s) = false) ∧
      ∀ a, a ∈ keys ↔ a ∈ found ∨ a ≠ key ∧ a ∈ spellings.map Key.clean) ∨
    ∃ e, r.aliasKeys name key found spellings = .error e ∧
      ∃ s ∈ spellings, Key.clean s ≠ key ∧ r.occupies (Key.clean s) = true := by
  induction spellings generalizing found with
  | nil => exact .inl ⟨found, rfl, by simp, by simp⟩
  | cons s rest ih =>
    simp only [aliasKeys]
    by_cases hskip : (Key.clean s == key || found.contains (Key.clean s)) = true
    · have hs : Key.clean s = key ∨ Key.clean s ∈ found := by simpa using hskip
      rw [if_pos hskip]
      refine (ih _ hfound).imp ?_ ?_
      · rintro ⟨keys, hok, hfree, hmem⟩
        refine ⟨keys, hok, List.forall_mem_cons.mpr ⟨fun hne => ?_, hfree⟩, fun a => ?_⟩
        · exact hfound _ (hs.resolve_left hne)
        · rw [hmem]
          grind
      · rintro ⟨e, he, t, ht, htaken⟩
        exact ⟨e, he, t, by simp [ht], htaken⟩
    · have hs : Key.clean s ≠ key ∧ Key.clean s ∉ found := by simpa using hskip
      rw [if_neg hskip]
      by_cases hocc : r.occupies (Key.clean s) = true
      · exact .inr ⟨_, by rw [if_pos hocc], s, by simp, hs.1, hocc⟩
      · have hfree : r.occupies (Key.clean s) = false := by simpa using hocc
        have hfound' : ∀ a ∈ found ++ [Key.clean s], r.occupies a = false := by
          simp only [List.mem_append, List.mem_singleton]
          rintro a (ha | rfl)
          · exact hfound a ha
          · exact hfree
        rw [if_neg hocc]
        refine (ih _ hfound').imp ?_ ?_
        · rintro ⟨keys, hok, hrest, hmem⟩
          refine ⟨keys, hok, List.forall_mem_cons.mpr ⟨fun _ => hfree, hrest⟩, fun a => ?_⟩
          rw [hmem, List.mem_append, List.mem_singleton]
          grind
        · rintro ⟨e, he, t, ht, htaken⟩
          exact ⟨e, he, t, by simp [ht], htaken⟩

theorem get?_ensure (r : Registry) (name key : String) :
    (r.ensure name).categories.get? key =
      if r.canonical name = key then some (r.category key) else r.categories.get? key := by
  simp only [ensure]
  split
  · next h =>
    split
    · next hk => rw [← hk, get?_of_contains h]
    · rfl
  · next h =>
    simp only [setCategory, Dict.get?_insert]
    split
    · next hk => rw [← hk, category_of_not_contains (by simpa using h)]
    · rfl

theorem get?_insertAll_target (aliases : Dict String) (keys : List String) (target key : String) :
    (aliases.insertAll (keys.map fun a => (a, target))).get? key =
      if key ∈ keys then some target else aliases.get? key := by
  induction keys generalizing aliases with
  | nil => simp [Dict.insertAll, Entries.insertAll]
  | cons a keys ih =>
    have hcons : aliases.insertAll ((a :: keys).map fun a => (a, target)) =
        (aliases.insert a target).insertAll (keys.map fun a => (a, target)) := rfl
    rw [hcons, ih, Dict.get?_insert]
    grind

theorem declared_addDeclaration {d : CategoryDeclaration} {keys : List String}
    (unaliased : r.aliases.contains (Key.clean d.name) = false)
    (hkeys : ∀ a, a ∈ keys ↔ a ≠ Key.clean d.name ∧ a ∈ d.aliases.map Key.clean) :
    r.Declared d (r.addDeclaration (Key.clean d.name) d keys) where
  declarations key := by rw [declarations_addDeclaration, Dict.get?_insert]
  categories key := by
    have hself : ({ r with declarations := r.declarations.insert (Key.clean d.name) d } : Registry).canonical
        (Key.clean d.name) = Key.clean d.name := by
      rw [canonical_of_unaliased (by rw [Key.clean_clean, unaliased]), Key.clean_clean]
    simp only [addDeclaration, get?_ensure, hself]
    rfl
  aliases key := by rw [aliases_addDeclaration, get?_insertAll_target]; simp only [hkeys]
  store := r.store_addDeclaration _ _ _

/-- A declaration is admitted and adds what it announces, or it is refused and changes nothing. -/
theorem declare_cases (r : Registry) (d : CategoryDeclaration) :
    (r.Admits d ∧ ∃ r', declare d r = (.ok (), r') ∧ r.Declared d r') ∨
    ¬ r.Admits d ∧ ∃ e, declare d r = (.error e, r) := by
  simp only [declare]
  by_cases ha : r.aliases.contains (Key.clean d.name) = true
  · refine .inr ⟨fun h => ?_, _, by rw [ha, Bool.or_true, if_pos rfl]⟩
    rw [h.unaliased] at ha
    cases ha
  have ha : r.aliases.contains (Key.clean d.name) = false := by simpa using ha
  rw [canonical_of_unaliased ha, ha, Bool.or_false]
  by_cases hd : r.declarations.contains (Key.clean d.name) = true
  · refine .inr ⟨fun h => ?_, _, by rw [if_pos hd]⟩
    rw [h.undeclared] at hd
    cases hd
  rw [if_neg hd]
  rcases r.aliasKeys_cases d.name (Key.clean d.name) [] (by simp) d.aliases with
    ⟨keys, hok, hfree, hmem⟩ | ⟨e, he, s, hs, hne, hocc⟩
  · refine .inl ⟨⟨by simpa using hd, ha, hfree⟩, _, by rw [hok], ?_⟩
    exact declared_addDeclaration ha (by simpa using hmem)
  · refine .inr ⟨fun h => ?_, e, by rw [he]⟩
    rw [h.aliases s hs hne] at hocc
    cases hocc

end Registry

/-! ## Plugins -/

namespace Registry

/-- No other plugin holds a name of the plugin in its category, if there is one. -/
def Accommodates (r : Registry) (p : Plugin) : Prop :=
  ∀ c, r.find? p.category = some c → ∀ name ∈ p.registrationNames, ∀ q, c.dispatch.get? name = some q →
    q.same p = true

/-- What registering a plugin adds: its category if there was none, and the names of the plugin that were free. -/
structure Registered (r : Registry) (p : Plugin) (r' : Registry) : Prop where
  category : ∃ dispatch, r'.categories.get? (r.canonical p.category) =
      some { r.category (r.canonical p.category) with dispatch } ∧
    ∀ name, dispatch.get? name = ((r.category (r.canonical p.category)).dispatch.get? name).or
      (if name ∈ p.registrationNames then some p else none)
  others : ∀ key, key ≠ r.canonical p.category → r'.categories.get? key = r.categories.get? key
  aliases : r'.aliases = r.aliases
  declarations : r'.declarations = r.declarations
  store : r'.store = r.store

end Registry

namespace Category

variable {c : Category} {p : Plugin}

/-- The tags are bound, or another plugin holds one of them. -/
theorem bind_ok_or_taken (c : Category) (p : Plugin) (tags : List String) :
    ((∀ tag ∈ tags, ∀ q, c.dispatch.get? tag = some q → q.same p = true) ∧
      ∃ dispatch, c.bind p tags = .ok { c with dispatch } ∧
        ∀ tag, dispatch.get? tag = (c.dispatch.get? tag).or (if tag ∈ tags then some p else none)) ∨
    ∃ tag ∈ tags, ∃ q, c.dispatch.get? tag = some q ∧ q.same p = false ∧ ∃ e, c.bind p tags = .error e := by
  simp only [bind]
  split
  · next tag holder htaken =>
    right
    obtain ⟨t, ht, hholder⟩ := List.exists_of_findSome?_eq_some htaken
    obtain ⟨q, hq, hsame⟩ := Option.bind_eq_some_iff.mp hholder
    refine ⟨t, ht, q, hq, ?_, _, rfl⟩
    cases hs : q.same p with
    | false => rfl
    | true => simp [hs] at hsame
  · next hfree =>
    left
    refine ⟨fun tag ht q hq => ?_, _, rfl, fun tag => get?_bind _ _ _ tag⟩
    simpa [hq] using List.findSome?_eq_none_iff.mp hfree tag ht

end Category

namespace Registry

variable {p : Plugin}

theorem ensure_of_contains {name : String} (h : r.categories.contains (r.canonical name) = true) :
    r.ensure name = r := by
  simp [ensure, h]

theorem contains_of_get?_dispatch {key tag : String} {q : Plugin} (h : (r.category key).dispatch.get? tag = some q) :
    r.categories.contains key = true := by
  cases hc : r.categories.contains key with
  | true => rfl
  | false => simp [category_of_not_contains hc, Category.empty] at h

/-- A plugin is accommodated and bound to its names that were free, or it is refused and changes nothing. -/
theorem register_cases (r : Registry) (p : Plugin) :
    (r.Accommodates p ∧ ∃ r', register p r = (.ok (), r') ∧ r.Registered p r') ∨
    ¬ r.Accommodates p ∧ ∃ e, register p r = (.error e, r) := by
  simp only [register, bindTags, canonical_ensure, category_ensure]
  rcases (r.category (r.canonical p.category)).bind_ok_or_taken p p.registrationNames with
    ⟨hsame, dispatch, hok, hget⟩ | ⟨tag, htag, q, hq, hother, e, he⟩
  · refine .inl ⟨fun c hc name hname q hq => ?_, _, by rw [hok], ⟨dispatch, ?_, hget⟩, fun key hkey => ?_, ?_, ?_, ?_⟩
    · rw [category_of_get? hc] at hsame
      exact hsame name hname q hq
    · simp [setCategory]
    · simp only [setCategory, Dict.get?_insert, if_neg hkey.symm, get?_ensure]
    · exact r.aliases_ensure _
    · exact r.declarations_ensure _
    · exact r.store_ensure _
  · -- A category that is created now is empty, so it holds no name: the one that does was there before.
    have hpresent := contains_of_get?_dispatch hq
    refine .inr ⟨fun h => ?_, e, by rw [he, ensure_of_contains hpresent]⟩
    have hsame := h _ (get?_of_contains hpresent) tag htag q hq
    rw [hother] at hsame
    cases hsame

theorem Registered.find? (h : r.Registered p r') : ∃ c, r'.find? p.category = some c ∧
    ∀ name, c.dispatch.get? name = ((r.category (r.canonical p.category)).dispatch.get? name).or
      (if name ∈ p.registrationNames then some p else none) := by
  obtain ⟨dispatch, hc, hget⟩ := h.category
  refine ⟨{ r.category (r.canonical p.category) with dispatch }, ?_, hget⟩
  rw [Registry.find?, show r'.canonical p.category = r.canonical p.category by simp only [canonical, h.aliases], hc]

/-- What was registered already is not changed by registering it again. -/
theorem Registered.again (h : r.Registered p r') (ha : r.Accommodates p) : register p r' = (.ok (), r') := by
  have hcanonical : r'.canonical p.category = r.canonical p.category := by simp only [canonical, h.aliases]
  obtain ⟨c, hfind, hget⟩ := h.find?
  have hall : ∀ name ∈ p.registrationNames, ∃ q, c.dispatch.get? name = some q ∧ q.same p = true := by
    intro name hname
    rw [hget]
    cases hq : (r.category (r.canonical p.category)).dispatch.get? name with
    | none => exact ⟨p, by simp [hname], by simp [Plugin.same]⟩
    | some q =>
      refine ⟨q, by simp, ?_⟩
      exact ha _ (get?_of_contains (contains_of_get?_dispatch hq)) name hname q hq
  rcases r'.register_cases p with ⟨-, r'', hok, hreg⟩ | ⟨hno, -⟩
  · rw [hok]
    obtain ⟨dispatch, hc, hd⟩ := hreg.category
    have hkey : r'.categories.get? (r'.canonical p.category) = some c := hfind
    have hsame : dispatch = c.dispatch := by
      refine Dict.ext_get? fun name => ?_
      rw [hd, category_of_get? hkey]
      by_cases hname : name ∈ p.registrationNames
      · obtain ⟨q, hq, -⟩ := hall name hname
        simp [hq]
      · simp [hname]
    have hcategories : r''.categories = r'.categories := by
      refine Dict.ext_get? fun key => ?_
      by_cases he : key = r'.canonical p.category
      · rw [he, hc, hkey, category_of_get? hkey, hsame]
      · exact hreg.others key he
    have he : r'' = r' := by
      obtain ⟨categories, aliases, declarations, store⟩ := r''
      obtain rfl := hcategories
      obtain rfl := hreg.aliases
      obtain rfl := hreg.declarations
      obtain rfl := hreg.store
      rfl
    rw [he]
  · refine absurd (fun c' hc' name hname q hq => ?_) hno
    rw [hfind, Option.some.injEq] at hc'
    subst hc'
    obtain ⟨q', hq', hs⟩ := hall name hname
    rw [hq, Option.some.injEq] at hq'
    rwa [hq']

/-- Registration is all or nothing. A declaration succeeds exactly if it is admitted, and a plugin exactly if it is
accommodated. Then the registry has gained what was announced and nothing else, and registering the plugin once more
changes nothing. On failure the registry is what it was. -/
theorem registration_all_or_nothing (r : Registry) :
    (∀ d : CategoryDeclaration,
      ((∃ r', declare d r = (.ok (), r')) ↔ r.Admits d) ∧
      (∀ r', declare d r = (.ok (), r') → r.Declared d r') ∧
      ∀ e r', declare d r = (.error e, r') → r' = r) ∧
    ∀ p : Plugin,
      ((∃ r', register p r = (.ok (), r')) ↔ r.Accommodates p) ∧
      (∀ r', register p r = (.ok (), r') → r.Registered p r' ∧ register p r' = (.ok (), r')) ∧
      ∀ e r', register p r = (.error e, r') → r' = r := by
  refine ⟨fun d => ?_, fun p => ?_⟩
  · rcases r.declare_cases d with ⟨h, r₁, he, hd⟩ | ⟨h, e, he⟩
    · simp [he, h, hd]
    · simp [he, h]
  · rcases r.register_cases p with ⟨h, r₁, he, hr⟩ | ⟨h, e, he⟩
    · simp [he, h, hr, hr.again h]
    · simp [he, h]

end Registry
end Blueprint
