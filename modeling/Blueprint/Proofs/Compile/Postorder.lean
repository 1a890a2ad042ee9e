import Blueprint.Proofs.Compile.Recursion

/-!
# Load order

A mapping refers to the descriptions that its plugin loads through references to categories: required parameters come
before optional ones, each group in the order of declaration, and lists go item by item. `Catalogue.postorder` lists the
mappings met when a description is walked in this order, each after the mappings inside it. What the walk looks up, the
`Catalogue`, is never changed by compiling.
-/

namespace Blueprint

/-! ## What a walk looks up -/

/-- The plugin behind a type tag of a category, and the key behind a category name. -/
structure Catalogue where
  plugin? : String → String → Option Plugin
  key : String → String

/-- The catalogue of a registry. -/
def Registry.catalogue (r : Registry) : Catalogue where
  plugin? key tag := (r.category key).dispatch.get? tag
  key := r.canonical

/-! ## References -/

/-- The descriptions that a loader hands to the compiler, in order, each with the key of its category. -/
def Loader.references (c : Catalogue) : Loader → Json → List (String × Json)
  | .read _, _ => []
  | .category name, raw => raw.itemsOrSelf.map fun item => (c.key name, item)
  | .listOf item, raw => raw.itemsOrSelf.flatMap (item.references c)

/-- The descriptions that one parameter hands to the compiler. -/
def Parameter.references (c : Catalogue) (input : Members) (q : Parameter) : List (String × Json) :=
  match Entries.get? q.name input with
  | some raw => q.loader.references c raw
  | none => []

/-- A mapping that describes an object of the category under a key. -/
structure Mapping where
  key : String
  members : Members

namespace Mapping

/-- The name that the mapping gives to its object. -/
def name? (m : Mapping) : Option String := (Entries.get? "name" m.members).bind Json.text?

/-- The plugin that the type tag of the mapping stands for. -/
def plugin? (c : Catalogue) (m : Mapping) : Option Plugin :=
  ((Entries.get? "type" m.members).bind Json.text?).bind (c.plugin? m.key)

/-- What is left of the mapping for its plugin. -/
def input (m : Mapping) : Members := Entries.erase "type" (Entries.erase "name" m.members)

/-- The descriptions inside the mapping, in load order. -/
def references (c : Catalogue) (m : Mapping) : List (String × Json) :=
  match m.plugin? c with
  | some p => (p.requiredParameters ++ p.optionalParameters).flatMap (Parameter.references c m.input)
  | none => []

end Mapping

/-! ## The walk -/

theorem Loader.depth_le_of_mem_references {c : Catalogue} {l : Loader} {raw : Json} {part : String × Json}
    (h : part ∈ l.references c raw) : part.2.depth ≤ raw.depth := by
  induction l generalizing raw with
  | read reader => simp [references] at h
  | category name =>
    obtain ⟨item, hi, rfl⟩ := List.mem_map.mp h
    exact Json.depth_le_of_mem_itemsOrSelf hi
  | listOf item ih =>
    obtain ⟨x, hx, hp⟩ := List.mem_flatMap.mp h
    exact Nat.le_trans (ih hp) (Json.depth_le_of_mem_itemsOrSelf hx)

theorem Parameter.depth_le_of_mem_references {c : Catalogue} {input : Members} {q : Parameter} {part : String × Json}
    (h : part ∈ q.references c input) : part.2.depth ≤ Json.membersDepth input := by
  unfold references at h
  split at h
  · next raw hraw => exact Nat.le_trans (Loader.depth_le_of_mem_references h) (Json.depth_le_membersDepth hraw)
  · simp at h

theorem Mapping.input_depth_le (m : Mapping) : Json.membersDepth m.input ≤ Json.membersDepth m.members :=
  Nat.le_trans (Json.membersDepth_erase_le _ _) (Json.membersDepth_erase_le _ _)

theorem Mapping.depth_lt_of_mem_references {c : Catalogue} {m : Mapping} {part : String × Json}
    (h : part ∈ m.references c) : part.2.depth < (Json.obj m.members).depth := by
  unfold references at h
  split at h
  · obtain ⟨q, _, hp⟩ := List.mem_flatMap.mp h
    have := Parameter.depth_le_of_mem_references hp
    have := m.input_depth_le
    simp only [Json.depth]
    omega
  · simp at h

/-- The mappings of a description in the category under a key, in post-order of loading. A string contributes nothing,
and so does what is no description. -/
def Catalogue.postorder (c : Catalogue) (key : String) (raw : Json) : List Mapping :=
  match raw with
  | .obj members =>
    ((Mapping.mk key members).references c).attach.flatMap (fun part => c.postorder part.1.1 part.1.2) ++
      [⟨key, members⟩]
  | _ => []
termination_by raw.depth
decreasing_by exact Mapping.depth_lt_of_mem_references part.2

/-- The mappings of several descriptions, one description after the other. -/
def Catalogue.postorders (c : Catalogue) (parts : List (String × Json)) : List Mapping :=
  parts.flatMap fun part => c.postorder part.1 part.2

namespace Catalogue

variable (c : Catalogue) (key : String)

theorem postorder_obj (members : Members) :
    c.postorder key (.obj members) = c.postorders ((Mapping.mk key members).references c) ++ [⟨key, members⟩] := by
  rw [Catalogue.postorder, postorders]
  conv => rhs; rw [← List.attach_map_subtype_val ((Mapping.mk key members).references c), List.flatMap_map]

theorem postorder_of_not_obj {raw : Json} (h : ∀ members, raw ≠ .obj members) : c.postorder key raw = [] := by
  cases raw with
  | obj members => exact absurd rfl (h members)
  | _ => rw [Catalogue.postorder]; simp

theorem postorders_append (xs ys : List (String × Json)) :
    c.postorders (xs ++ ys) = c.postorders xs ++ c.postorders ys := List.flatMap_append

theorem postorders_flatMap {α : Type} (f : α → List (String × Json)) (xs : List α) :
    c.postorders (xs.flatMap f) = xs.flatMap fun x => c.postorders (f x) := List.flatMap_assoc

theorem postorders_map {α : Type} (f : α → String × Json) (xs : List α) :
    c.postorders (xs.map f) = xs.flatMap fun x => c.postorder (f x).1 (f x).2 := by
  rw [postorders, List.flatMap_map]

end Catalogue
end Blueprint
