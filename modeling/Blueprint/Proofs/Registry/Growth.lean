import Blueprint.Compile.Basic

/-!
# Registries that grow

Objects are only ever added. `Registry.Extends` says that nothing of what was registered is lost, `Registry.SameTables`
that no plugin, alias or declaration changed. `Registry.enroll` is what registering one object does to a registry; both
hold of it.
-/

namespace Blueprint

/-! ## Looking up -/

namespace Registry

theorem category_of_get? {r : Registry} {key : String} {c : Category} (h : r.categories.get? key = some c) :
    r.category key = c := by
  simp [category, h]

theorem category_of_not_contains {r : Registry} {key : String} (h : r.categories.contains key = false) :
    r.category key = .empty key := by
  have hn : r.categories.get? key = none := by simpa [Dict.contains_eq] using h
  simp [category, hn]

theorem get?_of_contains {r : Registry} {key : String} (h : r.categories.contains key = true) :
    r.categories.get? key = some (r.category key) := by
  obtain ⟨c, hc⟩ := Option.isSome_iff_exists.mp h
  rw [hc, category_of_get? hc]

theorem category_setCategory (r : Registry) (key : String) (c : Category) (k : String) :
    (r.setCategory key c).category k = if key = k then c else r.category k := by
  simp only [category, setCategory, Dict.get?_insert]
  split <;> rfl

theorem contains_setCategory (r : Registry) (key : String) (c : Category) (k : String) :
    (r.setCategory key c).categories.contains k = (decide (key = k) || r.categories.contains k) := by
  simp only [setCategory, Dict.contains_eq, Dict.get?_insert]
  split <;> simp_all

theorem contains_setCategory_of_contains {r : Registry} {key : String} (h : r.categories.contains key = true)
    (c : Category) (k : String) : (r.setCategory key c).categories.contains k = r.categories.contains k := by
  rw [contains_setCategory]
  by_cases hk : key = k
  · simp [← hk, h]
  · simp [hk]

/-- A category that is created is as empty as it was before. -/
theorem category_ensure (r : Registry) (name k : String) : (r.ensure name).category k = r.category k := by
  unfold ensure
  simp only
  split
  · rfl
  · next h =>
    rw [category_setCategory]
    split
    · next hk => rw [← hk, category_of_not_contains (by simpa using h)]
    · rfl

theorem contains_ensure (r : Registry) (name k : String) :
    (r.ensure name).categories.contains k = (decide (r.canonical name = k) || r.categories.contains k) := by
  unfold ensure
  simp only
  split
  · next h => by_cases hk : r.canonical name = k <;> simp_all
  · exact contains_setCategory _ _ _ _

end Registry

/-! ## Nothing is lost -/

theorem getElem?_stays {α : Type} {xs ys : List α} (h : xs <+: ys) {i : Nat} {x : α} (hx : xs[i]? = some x) :
    ys[i]? = some x := by
  obtain ⟨new, rfl⟩ := h
  rw [List.getElem?_append_left (List.getElem?_eq_some_iff.mp hx).1, hx]

namespace Store

theorem get?_of_prefix {s t : Store} (h : s.objects <+: t.objects) {k : Handle} {o : Object} (hs : s.get? k = some o) :
    t.get? k = some o := getElem?_stays h hs

end Store

namespace Registry

/-- Every object, every list of objects and every binding of a name is still there. -/
structure Extends (r r' : Registry) : Prop where
  store : r.store.objects <+: r'.store.objects
  present : ∀ key, r.categories.contains key = true → r'.categories.contains key = true
  label : ∀ key, (r'.category key).label = (r.category key).label
  objects : ∀ key, (r.category key).objects <+: (r'.category key).objects
  named : ∀ key n h, (r.category key).named.get? n = some h → (r'.category key).named.get? n = some h

theorem Extends.refl (r : Registry) : r.Extends r where
  store := List.prefix_refl _
  present _ h := h
  label _ := rfl
  objects _ := List.prefix_refl _
  named _ _ _ h := h

theorem Extends.trans {r₁ r₂ r₃ : Registry} (h : r₁.Extends r₂) (h' : r₂.Extends r₃) : r₁.Extends r₃ where
  store := h.store.trans h'.store
  present key hk := h'.present key (h.present key hk)
  label key := (h'.label key).trans (h.label key)
  objects key := (h.objects key).trans (h'.objects key)
  named key n o hn := h'.named key n o (h.named key n o hn)

/-- No alias, no declaration and no dispatch table changed. -/
structure SameTables (r r' : Registry) : Prop where
  aliases : r'.aliases = r.aliases
  declarations : r'.declarations = r.declarations
  dispatch : ∀ key, (r'.category key).dispatch = (r.category key).dispatch

theorem SameTables.refl (r : Registry) : r.SameTables r where
  aliases := rfl
  declarations := rfl
  dispatch _ := rfl

theorem SameTables.trans {r₁ r₂ r₃ : Registry} (h : r₁.SameTables r₂) (h' : r₂.SameTables r₃) : r₁.SameTables r₃ where
  aliases := h'.aliases.trans h.aliases
  declarations := h'.declarations.trans h.declarations
  dispatch key := (h'.dispatch key).trans (h.dispatch key)

theorem SameTables.canonical {r r' : Registry} (h : r.SameTables r') (name : String) :
    r'.canonical name = r.canonical name := by
  simp only [Registry.canonical, h.aliases]

end Registry

/-! ## One object more -/

/-- A category with one object more, bound to a name if one is given. -/
def Category.enroll (c : Category) (name : Option String) (h : Handle) : Category :=
  { c with
    named := match name with
      | some n => c.named.insert n h
      | none => c.named
    objects := c.objects ++ [h] }

/-- An object as the category with a label registers it. -/
def Object.placed (o : Object) (label : String) (name : Option String) : Object :=
  { o with category := some label, name := name.or o.name }

namespace Registry

/-- The name is not bound in the category under a key. -/
def Free (r : Registry) (key : String) (name : Option String) : Prop :=
  ∀ n, name = some n → (r.category key).named.get? n = none

/-- The registry with one object more in the category under a key. -/
def enroll (r : Registry) (key : String) (o : Object) (name : Option String) : Registry :=
  { r.setCategory key ((r.category key).enroll name r.store.next) with
    store := r.store.push (o.placed (r.category key).label name) }

end Registry

/-- Registering an object enrolls it under a free name, and changes nothing if the name is bound. -/
theorem registerObject_cases (r : Registry) (key : String) (o : Object) (name : Option String) :
    (r.Free key name ∧ registerObject key o name r = (.ok r.store.next, r.enroll key o name)) ∨
    ∃ n, name = some n ∧ ((r.category key).named.get? n).isSome = true ∧
      registerObject key o name r = (.error (.duplicateName (r.category key).label n), r) := by
  cases name with
  | none => exact .inl ⟨by simp [Registry.Free], rfl⟩
  | some n =>
    by_cases h : (r.category key).named.contains n = true
    · exact .inr ⟨n, rfl, h, by simp [registerObject, h]⟩
    · refine .inl ⟨?_, by simp [registerObject, h, Registry.enroll, Category.enroll, Object.placed]⟩
      intro n' hn
      cases hn
      simpa [Dict.contains_eq] using h

namespace Registry

variable (r : Registry) (key : String) (o : Object) (name : Option String)

theorem category_enroll (k : String) :
    (r.enroll key o name).category k =
      if key = k then (r.category key).enroll name r.store.next else r.category k :=
  r.category_setCategory key _ k

theorem get?_enroll_next :
    (r.enroll key o name).store.get? r.store.next = some (o.placed (r.category key).label name) :=
  Store.get?_push_next _ _

theorem objects_enroll (k : String) :
    ((r.enroll key o name).category k).objects =
      (r.category k).objects ++ if key = k then [r.store.next] else [] := by
  rw [category_enroll]
  split
  · next h => rw [h]; rfl
  · simp

theorem dispatch_enroll (k : String) : ((r.enroll key o name).category k).dispatch = (r.category k).dispatch := by
  rw [category_enroll]
  split
  · next h => rw [h]; rfl
  · rfl

theorem label_enroll (k : String) : ((r.enroll key o name).category k).label = (r.category k).label := by
  rw [category_enroll]
  split
  · next h => rw [h]; rfl
  · rfl

theorem contains_enroll (k : String) :
    (r.enroll key o name).categories.contains k = (decide (key = k) || r.categories.contains k) :=
  r.contains_setCategory key _ k

theorem contains_enroll_of_contains (h : r.categories.contains key = true) (k : String) :
    (r.enroll key o name).categories.contains k = r.categories.contains k :=
  contains_setCategory_of_contains h _ k

theorem named_enroll (k n : String) :
    ((r.enroll key o name).category k).named.get? n =
      if key = k ∧ name = some n then some r.store.next else (r.category k).named.get? n := by
  rw [category_enroll]
  by_cases hk : key = k
  · subst hk
    cases name with
    | none => simp [Category.enroll]
    | some m => simp [Category.enroll, Dict.get?_insert]
  · simp [hk]

variable {r key o name}

theorem extends_enroll (h : r.Free key name) : r.Extends (r.enroll key o name) where
  store := List.prefix_append _ _
  present k hk := by simp [contains_enroll, hk]
  label k := r.label_enroll key o name k
  objects k := by rw [objects_enroll]; exact List.prefix_append _ _
  named k n m hn := by
    rw [named_enroll]
    split
    · next hc =>
      obtain ⟨rfl, hname⟩ := hc
      rw [h n hname] at hn
      cases hn
    · exact hn

theorem sameTables_enroll : r.SameTables (r.enroll key o name) where
  aliases := rfl
  declarations := rfl
  dispatch k := r.dispatch_enroll key o name k

end Registry
end Blueprint
