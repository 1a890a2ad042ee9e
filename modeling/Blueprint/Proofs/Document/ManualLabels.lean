import Blueprint.Proofs.Document.ManualRows
import Blueprint.Proofs.Document.SchemaDefinitions
import Blueprint.Proofs.Json.Position

/-!
# Type labels of references

The manual takes the name of a category out of the reference that the schema has for it, and trims what references
begin and end with for as long as it finds it. So a label names the stem of the category's key: what is left when every
`#/definitions/` in front and every `_type` behind is gone. That is the key itself exactly if it neither begins nor ends
so (`Manual.session_reference_labels`).
-/

namespace Blueprint

open Schema (definitionsPath categoryOf?)

namespace Manual

/-! ## Trimming -/

/-- A text written several times. -/
def repeated (n : Nat) (part : List Char) : List Char := (List.replicate n part).flatten

section Trimming

variable {part cs rest : List Char}

theorem repeated_succ (n : Nat) (part : List Char) : repeated (n + 1) part = part ++ repeated n part := rfl

theorem repeated_succ_right (n : Nat) (part : List Char) : repeated (n + 1) part = repeated n part ++ part := by
  rw [repeated, List.replicate_succ', List.flatten_concat, repeated]

theorem reverse_repeated (n : Nat) (part : List Char) : (repeated n part).reverse = repeated n part.reverse := by
  simp [repeated, List.reverse_flatten]

theorem le_length_repeated (h : part ≠ []) (n : Nat) : n ≤ (repeated n part).length := by
  have hpos := List.length_pos_of_ne_nil h
  rw [repeated, List.length_flatten, List.map_replicate, List.sum_replicate, smul_eq_mul]
  exact Nat.le_mul_of_pos_right n hpos

/-- Every repetition in front is trimmed. -/
theorem trimStart_repeated (h : ¬ part <+: rest) {n fuel : Nat} (hfuel : n ≤ fuel) :
    trimStart part fuel (repeated n part ++ rest) = rest := by
  induction n generalizing fuel with
  | zero =>
    cases fuel with
    | zero => rfl
    | succ fuel => exact if_neg (by simpa [repeated, List.isPrefixOf_iff_prefix] using h)
  | succ n ih =>
    cases fuel with
    | zero => exact absurd hfuel (Nat.not_succ_le_zero n)
    | succ fuel =>
      have hprefix : part <+: part ++ (repeated n part ++ rest) := List.prefix_append ..
      rw [repeated_succ, List.append_assoc, trimStart, if_pos (List.isPrefixOf_iff_prefix.mpr hprefix), List.drop_left]
      exact ih (Nat.le_of_succ_le_succ hfuel)

/-- Every repetition behind is trimmed. -/
theorem trimEnd_repeated (hpart : part ≠ []) (h : ¬ part <:+ rest) (n : Nat) :
    trimEnd part (rest ++ repeated n part) = rest := by
  have hreverse : ¬ part.reverse <+: rest.reverse := by rwa [List.reverse_prefix]
  have hfuel : n ≤ (rest ++ repeated n part).length := by
    rw [List.length_append]
    exact Nat.le_add_left_of_le (le_length_repeated hpart n)
  rw [trimEnd, List.reverse_append, reverse_repeated, trimStart_repeated hreverse hfuel, List.reverse_reverse]

theorem exists_repeated (hpart : part ≠ []) (cs : List Char) :
    ∃ n rest, cs = repeated n part ++ rest ∧ ¬ part <+: rest := by
  induction hlength : cs.length using Nat.strong_induction_on generalizing cs with
  | _ length ih =>
    by_cases h : part <+: cs
    · obtain ⟨tail, rfl⟩ := h
      have hpos := List.length_pos_of_ne_nil hpart
      obtain ⟨n, rest, rfl, hrest⟩ := ih tail.length (by rw [← hlength, List.length_append]; omega) tail rfl
      exact ⟨n + 1, rest, by rw [repeated_succ, List.append_assoc], hrest⟩
    · exact ⟨0, cs, rfl, h⟩

theorem exists_repeated_right (hpart : part ≠ []) (cs : List Char) :
    ∃ n rest, cs = rest ++ repeated n part ∧ ¬ part <:+ rest := by
  have hreverse : part.reverse ≠ [] := by simpa using hpart
  obtain ⟨n, rest, he, hrest⟩ := exists_repeated hreverse cs.reverse
  refine ⟨n, rest.reverse, ?_, ?_⟩
  · rw [← List.reverse_reverse cs, he, List.reverse_append, reverse_repeated, List.reverse_reverse]
  · rwa [← List.reverse_prefix, List.reverse_reverse]

/-- What is added behind a text does not make it begin with `part` if the first character added is not in `part`. -/
theorem not_prefix_append {c : Char} (hc : c ∉ part) (h : ¬ part <+: cs) (rest : List Char) :
    ¬ part <+: cs ++ c :: rest := by
  rintro ⟨tail, htail⟩
  rcases List.append_eq_append_iff.mp htail with ⟨a, hcs, -⟩ | ⟨a, hpart, hrest⟩
  · exact h ⟨a, hcs.symm⟩
  · cases a with
    | nil => exact h ⟨[], by simpa using hpart⟩
    | cons d a =>
      obtain rfl := (List.cons.inj hrest).1
      exact hc (by simp [hpart])

end Trimming

/-! ## Stems -/

/-- What a reference to a definition of the schema begins with. -/
def opening : List Char := definitionsPath.toList

/-- What the name of a category's definition ends with. -/
def ending : List Char := "_type".toList

/-- The part of a key between all that looks like the beginning of a reference and like its end. -/
structure IsStem (key stem : String) : Prop where
  repeats : ∃ i j, key.toList = repeated i opening ++ stem.toList ++ repeated j ending
  unopened : ¬ opening <+: stem.toList
  unended : ¬ ending <:+ stem.toList

/-- A key that is its own stem. -/
def Plain (key : String) : Prop := ¬ opening <+: key.toList ∧ ¬ ending <:+ key.toList

instance : DecidablePred Plain := fun key =>
  inferInstanceAs (Decidable (¬ opening <+: key.toList ∧ ¬ ending <:+ key.toList))

section Stems

variable {key stem : String}

theorem unopened_append {cs : List Char} (h : ¬ opening <+: cs) (n : Nat) : ¬ opening <+: cs ++ repeated n ending := by
  have hunderscore : '_' ∉ opening := by decide
  have hending : ending = '_' :: "type".toList := by decide
  cases n with
  | zero => simpa [repeated] using h
  | succ n =>
    rw [repeated_succ, hending]
    exact not_prefix_append hunderscore h _

/-- The label of a reference is the stem of the key. -/
theorem referenceLabel_of_isStem (h : IsStem key stem) :
    referenceLabel (definitionsPath ++ Loader.definitionName key) = stem := by
  obtain ⟨i, j, hkey⟩ := h.repeats
  have htarget : (definitionsPath ++ Loader.definitionName key).toList =
      repeated (i + 1) opening ++ (stem.toList ++ repeated (j + 1) ending) := by
    rw [String.toList_append, Schema.toList_definitionName, hkey, repeated_succ, repeated_succ_right]
    simp only [opening, ending, List.append_assoc]
  have hfuel : i + 1 ≤ (definitionsPath ++ Loader.definitionName key).toList.length := by
    rw [htarget, List.length_append]
    exact Nat.le_add_right_of_le (le_length_repeated (by decide) (i + 1))
  have hstart := trimStart_repeated (unopened_append h.unopened (j + 1)) hfuel
  rw [← htarget] at hstart
  have hlabel : referenceLabel (definitionsPath ++ Loader.definitionName key) =
      String.ofList (trimEnd ending (stem.toList ++ repeated (j + 1) ending)) :=
    congrArg (fun cs => String.ofList (trimEnd ending cs)) hstart
  rw [hlabel, trimEnd_repeated (by decide) h.unended, String.ofList_toList]

theorem exists_isStem (key : String) : ∃ stem, IsStem key stem := by
  have hopening : opening ≠ [] := by decide
  have hending : ending ≠ [] := by decide
  obtain ⟨i, rest, hkey, hrest⟩ := exists_repeated hopening key.toList
  obtain ⟨j, stem, rfl, hstem⟩ := exists_repeated_right hending rest
  refine ⟨String.ofList stem, ⟨i, j, by rw [hkey, String.toList_ofList, List.append_assoc]⟩, ?_, ?_⟩
  · rw [String.toList_ofList]
    exact fun h => hrest (List.prefix_append_of_prefix h)
  · rwa [String.toList_ofList]

theorem IsStem.unique {stem' : String} (h : IsStem key stem) (h' : IsStem key stem') : stem = stem' :=
  (referenceLabel_of_isStem h).symm.trans (referenceLabel_of_isStem h')

theorem Plain.isStem (h : Plain key) : IsStem key key := ⟨⟨0, 0, by simp [repeated]⟩, h.1, h.2⟩

/-- A key is its stem exactly if it is plain. -/
theorem IsStem.eq_iff (h : IsStem key stem) : stem = key ↔ Plain key := by
  constructor
  · rintro rfl
    exact ⟨h.unopened, h.unended⟩
  · exact fun hplain => h.unique hplain.isStem

/-- Keys have no blanks, so a blank ends a stem. -/
theorem IsStem.not_mem {name : String} (h : IsStem (Key.clean name) stem) : ' ' ∉ stem.toList := by
  intro hblank
  obtain ⟨i, j, hkey⟩ := h.repeats
  have hmem : ' ' ∈ (Key.clean name).toList := by simp [hkey, hblank]
  rw [Key.clean, String.toList_ofList] at hmem
  exact absurd (Key.settled_of_mem_cleanChars ' ' hmem).shown (by decide)

end Stems

end Manual

/-! ## References behind lists -/

/-- A category behind lists inside one another. -/
def Loader.nested : Nat → String → Loader
  | 0, name => .category name
  | depth + 1, name => .listOf (nested depth name)

/-- The parameter takes objects of a category, behind lists, and its type is left to the loader. -/
structure Parameter.Refers (q : Parameter) (depth : Nat) (name : String) : Prop where
  loader : q.loader = .nested depth name
  implicit : q.explicitType = none

namespace Manual

/-- The type of a reference behind lists. -/
def nestedType : Nat → String → Members
  | 0, key => [("$ref", .str (definitionsPath ++ Loader.definitionName key))]
  | depth + 1, key => [("type", .str "array"), ("items", .obj (nestedType depth key))]

/-- Where the reference stands in such a type. -/
def referencePath (depth : Nat) : List Selector := List.replicate depth (.member "items") ++ [.member "$ref"]

/-- The label of a category behind lists. -/
def referenceCell (depth : Nat) (category : String) : String :=
  String.join (List.replicate depth "list of ") ++ category ++ " (name or inline)"

section References

variable {depth : Nat} {name key stem : String} {q : Parameter} {store : Store}

theorem jsonType?_nested (depth : Nat) (name : String) :
    (Loader.nested depth name).jsonType? = some (.obj (nestedType depth (Key.clean name))) := by
  induction depth with
  | zero => rfl
  | succ depth ih => simp only [Loader.nested, Loader.jsonType?, ih, nestedType, Option.getD_some, Loader.fragment]

theorem typeLabel_nestedType (h : IsStem key stem) (depth : Nat) :
    typeLabel (.obj (nestedType depth key)) = referenceCell depth stem := by
  induction depth with
  | zero =>
    have hlabel : typeLabel (.obj (nestedType 0 key)) =
        referenceLabel (definitionsPath ++ Loader.definitionName key) ++ " (name or inline)" := rfl
    rw [hlabel, referenceLabel_of_isStem h]
    simp [referenceCell]
  | succ depth ih =>
    have hlabel : typeLabel (.obj (nestedType (depth + 1) key)) =
        "list of " ++ typeLabel (.obj (nestedType depth key)) := rfl
    rw [hlabel, ih, referenceCell, referenceCell, List.replicate_succ, String.join_cons]
    simp only [String.append_assoc]

theorem at?_nestedType (depth : Nat) (key : String) : (Json.obj (nestedType depth key)).at? (referencePath depth) =
    some (.str (definitionsPath ++ Loader.definitionName key)) := by
  induction depth with
  | zero => rfl
  | succ depth ih => exact ih

theorem jsonType?_of_refers (hq : q.Refers depth name) :
    q.jsonType? = some (.obj (nestedType depth (Key.clean name))) := by
  rw [Parameter.jsonType?, hq.implicit, Option.none_or, hq.loader, jsonType?_nested]

theorem typeCell_of_refers (hq : q.Refers depth name) (h : IsStem (Key.clean name) stem) :
    typeCell q = referenceCell depth stem := by
  rw [typeCell, jsonType?_of_refers hq, Option.map_some, Option.getD_some, typeLabel_nestedType h]

/-- In the schema of a parameter its type is found as it is. -/
theorem child?_schema {members : Members} (hq : q.jsonType? = some (.obj members)) (hdescription : key ≠ "description")
    (hdefault : key ≠ "default") : (q.schema store).child? (.member key) = Entries.get? key members := by
  simp only [Parameter.schema, hq, Json.child?]
  split <;> split <;> simp [Entries.get?_set, hdescription.symm, hdefault.symm]

theorem schema_of_refers (hq : q.Refers depth name) : (q.schema store).at? (referencePath depth) =
    some (.str (definitionsPath ++ Loader.definitionName (Key.clean name))) := by
  have htype (s : String) (hdescription : s ≠ "description") (hdefault : s ≠ "default") :
      (q.schema store).child? (.member s) = (Json.obj (nestedType depth (Key.clean name))).child? (.member s) :=
    child?_schema (jsonType?_of_refers hq) hdescription hdefault
  rw [← at?_nestedType depth]
  cases depth with
  | zero =>
    simp only [referencePath, List.replicate_zero, List.nil_append, Json.at?, htype "$ref" (by decide) (by decide)]
  | succ depth =>
    simp only [referencePath, List.replicate_succ, List.cons_append, Json.at?, htype "items" (by decide) (by decide)]

theorem toList_referenceCell (depth : Nat) (stem : String) : (referenceCell depth stem).toList =
    repeated depth "list of ".toList ++ (stem.toList ++ " (name or inline)".toList) := by
  rw [referenceCell, String.toList_append, String.toList_append, String.toList_join, List.append_assoc,
    List.flatMap_def, List.map_replicate, repeated]

/-- A label that begins with a stem does not begin with `list of`, since a stem holds no blank. -/
theorem stem_ne_list {s rest : List Char} (h : ' ' ∉ s) :
    s ++ " (name or inline)".toList ≠ "list of ".toList ++ rest := by
  intro he
  have hblank : "list".toList ++ ' ' :: ("of ".toList ++ rest) = "list of ".toList ++ rest := rfl
  obtain ⟨-, hrest⟩ := Schema.append_cons_inj h (by decide) (he.trans hblank.symm)
  exact absurd (List.cons.inj hrest).1 (by decide)

/-- Labels tell lists and stems apart. -/
theorem referenceCell_inj {depth' : Nat} {stem' : String} (h : ' ' ∉ stem.toList) (h' : ' ' ∉ stem'.toList)
    (he : referenceCell depth stem = referenceCell depth' stem') : depth = depth' ∧ stem = stem' := by
  rw [← String.toList_inj, toList_referenceCell, toList_referenceCell] at he
  induction depth generalizing depth' with
  | zero =>
    cases depth' with
    | zero => exact ⟨rfl, String.toList_inj.mp (List.append_cancel_right (List.append_cancel_left he))⟩
    | succ depth' =>
      rw [repeated_succ, List.append_assoc] at he
      exact absurd he (stem_ne_list h)
  | succ depth ih =>
    cases depth' with
    | zero =>
      rw [repeated_succ, List.append_assoc] at he
      exact absurd he.symm (stem_ne_list h')
    | succ depth' =>
      rw [repeated_succ, repeated_succ, List.append_assoc, List.append_assoc] at he
      obtain ⟨rfl, hstem⟩ := ih (List.append_cancel_left he)
      exact ⟨rfl, hstem⟩

end References

/-! ## Sessions -/

section Sections

variable {r : Registry} {key : String} {c : Category} {p : Plugin} {q : Parameter}

theorem infix_join {x : String} {xs : List String} (h : x ∈ xs) : x.toList <:+: (String.join xs).toList := by
  rw [String.toList_join, List.flatMap_def]
  exact List.infix_of_mem_flatten (List.mem_map_of_mem h)

theorem infix_append_left {x y z : String} (h : x.toList <:+: y.toList) : x.toList <:+: (y ++ z).toList := by
  rw [String.toList_append]
  exact h.trans List.infix_append_left

theorem infix_append_right {x y z : String} (h : x.toList <:+: z.toList) : x.toList <:+: (y ++ z).toList := by
  rw [String.toList_append]
  exact h.trans List.infix_append_right

theorem infix_pluginSection (store : Store) (hq : q ∈ p.parameters) :
    (parameterRow store q).toList <:+: (pluginSection store p).toList := by
  have hrow := infix_join (List.mem_map_of_mem (f := parameterRow store) hq)
  have hsome : p.parameters.isEmpty = false := by
    cases hp : p.parameters with
    | nil => simp [hp] at hq
    | cons => rfl
  rw [pluginSection, hsome]
  exact infix_append_right (infix_append_left (infix_append_right hrow))

theorem infix_categorySection (ht : r.Tidy) (hc : r.categories.get? key = some c) (hp : p ∈ c.plugins) :
    (pluginSection r.store p).toList <:+: (categorySection r key).toList := by
  have hfind : r.find? key = some c := by
    rw [Registry.find?, ht.canonical_of_contains (by rw [Dict.contains_eq, hc]; rfl), hc]
  rw [categorySection, hfind]
  exact infix_append_right (infix_join (List.mem_map_of_mem hp))

/-- The manual of all categories has the row of every parameter. -/
theorem infix_render (title : String) (ht : r.Tidy) (hc : r.categories.get? key = some c) (hp : p ∈ c.plugins)
    (hq : q ∈ p.parameters) : ∃ before after, render title r none = .ok (before ++ parameterRow r.store q ++ after) := by
  have hkey : key ∈ r.categories.keys := (r.categories.mem_keys_iff key).mpr (by rw [hc]; rfl)
  have hsection : (categorySection r key).toList <:+: (s!"# {title}\n\n" ++ String.join (r.categories.keys.map
      (categorySection r))).toList := infix_append_right (infix_join (List.mem_map_of_mem hkey))
  obtain ⟨before, after, htext⟩ := ((infix_pluginSection r.store hq).trans (infix_categorySection ht hc hp)).trans hsection
  refine ⟨String.ofList before, String.ofList after, congrArg Except.ok ?_⟩
  rw [← String.toList_inj, ← htext]
  simp only [String.toList_append, String.toList_ofList]

/-- Name and type are the first cells of a row. -/
theorem parameterRow_eq (store : Store) (q : Parameter) : ∃ rest,
    parameterRow store q = "| " ++ q.name ++ " | " ++ typeCell q ++ " | " ++ rest := by
  simp only [parameterRow, typeCell, toString, String.append_assoc]
  exact ⟨_, rfl⟩

end Sections

/-- In the manual of every session a parameter that refers to a category behind lists is labelled with the stem of the
category's key, so with the key itself exactly if that is plain. The schema refers to the definition of the key in any
case. Two such parameters have one label exactly if they have as many lists and their keys have one stem; if both keys
are plain, they are the same key. -/
theorem session_reference_labels (ops : List Operation) (title : String) {key : String} {c : Category} {p : Plugin}
    {q : Parameter} {depth : Nat} {name : String} (hc : (Registry.after ops).categories.get? key = some c)
    (hp : p ∈ c.plugins) (hq : q ∈ p.parameters) (refers : q.Refers depth name) :
    ∃ stem, IsStem (Key.clean name) stem ∧ typeCell q = referenceCell depth stem ∧
      (∃ before after, render title (Registry.after ops) none =
        .ok (before ++ ("| " ++ q.name ++ " | " ++ referenceCell depth stem ++ " | ") ++ after)) ∧
      (stem = Key.clean name ↔ Plain (Key.clean name)) ∧
      (q.schema (Registry.after ops).store).at? (referencePath depth) =
        some (.str (definitionsPath ++ Loader.definitionName (Key.clean name))) ∧
      categoryOf? (Loader.definitionName (Key.clean name)) = some (Key.clean name) ∧
      ∀ q' depth' name', Parameter.Refers q' depth' name' →
        (typeCell q' = typeCell q ↔ depth' = depth ∧ IsStem (Key.clean name') stem) ∧
        (Plain (Key.clean name) → Plain (Key.clean name') →
          (typeCell q' = typeCell q ↔ depth' = depth ∧ Key.clean name' = Key.clean name)) := by
  obtain ⟨stem, hstem⟩ := exists_isStem (Key.clean name)
  have hlabel := typeCell_of_refers refers hstem
  have hsame (q' : Parameter) (depth' : Nat) (name' : String) (refers' : q'.Refers depth' name') :
      typeCell q' = typeCell q ↔ depth' = depth ∧ IsStem (Key.clean name') stem := by
    obtain ⟨stem', hstem'⟩ := exists_isStem (Key.clean name')
    rw [hlabel, typeCell_of_refers refers' hstem']
    constructor
    · intro he
      obtain ⟨rfl, rfl⟩ := referenceCell_inj hstem'.not_mem hstem.not_mem he
      exact ⟨rfl, hstem'⟩
    · rintro ⟨rfl, h⟩
      rw [hstem'.unique h]
  refine ⟨stem, hstem, hlabel, ?_, hstem.eq_iff, schema_of_refers refers, Schema.categoryOf?_eq_some_iff.mpr rfl,
    fun q' depth' name' refers' => ⟨hsame q' depth' name' refers', fun hplain hplain' => ?_⟩⟩
  · obtain ⟨before, after, hrender⟩ := infix_render title (Registry.tidy_after ops) hc hp hq
    obtain ⟨rest, hrow⟩ := parameterRow_eq (Registry.after ops).store q
    refine ⟨before, rest ++ after, ?_⟩
    rw [hrender, hrow, hlabel]
    simp only [String.append_assoc]
  · rw [hsame q' depth' name' refers', hstem.eq_iff.mpr hplain]
    refine and_congr_right fun _ => ⟨fun h => (h.unique hplain'.isStem).symm, fun h => ?_⟩
    rw [← h]
    exact hplain'.isStem

section Standard

open Sampling (standardRegistry registrations plugins unionPlugin)

theorem unionPlugin_mem {c : Category} (hc : standardRegistry.categories.get? "volume" = some c) :
    unionPlugin ∈ c.plugins := by
  have hserials : (plugins.map Plugin.serial).Nodup := by decide
  have hmem : unionPlugin ∈ plugins := by simp [plugins]
  have hbind (tag : String) : standardRegistry.catalogue.plugin? "volume" tag = c.dispatch.get? tag := by
    simp only [Registry.catalogue, Registry.category_of_get? hc]
  have hunion : standardRegistry.catalogue.plugin? "volume" "union" = some unionPlugin :=
    Sampling.plugin?_of_serial hmem (by decide +kernel)
  obtain ⟨-, hbound, hall⟩ := c.plugins_spec
  obtain ⟨p, hp, hsame⟩ := hall "union" unionPlugin ((hbind _).symm.trans hunion)
  obtain ⟨tag, htag⟩ := hbound p hp
  have hstandard : p ∈ plugins := Sampling.mem_plugins ((hbind tag).trans htag)
  rwa [List.inj_on_of_nodup_map hserials hmem hstandard (Plugin.same_iff.mp hsame)]

/-- The parameter of a union for the volumes to combine. -/
def volumesParameter : Parameter :=
  { name := "volumes", loader := .listOf (.category "volume"), explicitDescription := some "Volumes to combine" }

/-- The volumes of a union in the manual of the standard plugins. -/
theorem volumesParameter_label :
    (∃ c, (Registry.after [.registerAll registrations]).categories.get? "volume" = some c ∧ unionPlugin ∈ c.plugins) ∧
    volumesParameter ∈ unionPlugin.parameters ∧ volumesParameter.Refers 1 "volume" ∧
    ∃ before after, render standardTitle (Registry.after [.registerAll registrations]) none =
      .ok (before ++ "| volumes | list of volume (name or inline) | " ++ after) := by
  have hafter : Registry.after [.registerAll registrations] = standardRegistry := Sampling.standardRegistry_eq.symm
  have hcontains : standardRegistry.categories.contains "volume" = true := by decide +kernel
  have hc := Registry.get?_of_contains hcontains
  have hp := unionPlugin_mem hc
  rw [← hafter] at hc hp
  have hq : volumesParameter ∈ unionPlugin.parameters := List.mem_singleton.mpr rfl
  have hrefers : volumesParameter.Refers 1 "volume" := ⟨rfl, rfl⟩
  obtain ⟨stem, -, -, ⟨before, after, hrender⟩, hplain, -⟩ := session_reference_labels _ standardTitle hc hp hq hrefers
  have hkey : Key.clean "volume" = "volume" ∧ Plain (Key.clean "volume") := by decide +kernel
  have hcell : "| " ++ volumesParameter.name ++ " | " ++ referenceCell 1 stem ++ " | " =
      "| volumes | list of volume (name or inline) | " := by
    rw [(hplain.mpr hkey.2).trans hkey.1]
    decide +kernel
  exact ⟨⟨_, hc, hp⟩, hq, hrefers, before, after, by rw [hrender, hcell]⟩

end Standard

/-- A category whose key ends with `_type` has the label of the category without. -/
theorem labels_clash :
    Key.clean "cv_type" ≠ Key.clean "cv" ∧
    typeCell { name := "b", loader := .category "cv_type" } = typeCell { name := "a", loader := .category "cv" } ∧
    typeCell { name := "b", loader := .category "cv_type" } ≠ referenceCell 0 (Key.clean "cv_type") := by
  decide +kernel

end Manual
end Blueprint
