import Blueprint.Proofs.Document.SchemaReferences
import Blueprint.Proofs.Session.Standard

/-!
# The definitions in the schema of documents

The schema of a session has a definition for every category, which lists its plugins, and a property for every category
and every alias. The definitions of plugins and of aliases can get in each other's way, for their names are put together
with dots and with `_type`: the one that is written last stays. A schema is complete if nothing is lost (`Complete`),
and that is so exactly if no two definitions are written under one name (`session_schema`).
-/

namespace Blueprint.Schema

variable {r : Registry}

/-! ## Names of definitions -/

/-- What a definition is about. -/
inductive Origin where
  | ofPlugin (key tag : String)
  | ofCategory (key : String)
  | ofAlias (name : String)

/-- The name of the definition. -/
def Origin.name : Origin → String
  | ofPlugin key tag => pluginName key tag
  | ofCategory key => Loader.definitionName key
  | ofAlias name => Loader.definitionName name

theorem toList_pluginName (key tag : String) : (pluginName key tag).toList = key.toList ++ '.' :: tag.toList := by
  simp only [pluginName, String.toList_append, List.append_assoc]
  rfl

theorem toList_definitionName (key : String) :
    (Loader.definitionName key).toList = key.toList ++ "_type".toList := by
  rw [Loader.definitionName, String.toList_append]

theorem definitionName_inj {key key' : String} (h : Loader.definitionName key = Loader.definitionName key') :
    key = key' := by
  simpa [Loader.definitionName] using h

theorem pluginName_inj {key key' tag : String} (h : pluginName key tag = pluginName key' tag) : key = key' := by
  rw [← String.toList_inj, toList_pluginName, toList_pluginName] at h
  exact String.toList_inj.mp (List.append_cancel_right h)

/-- A plugin can only take the name of a category that comes after its own. -/
theorem lt_of_pluginName_eq {key key' tag : String} (h : pluginName key tag = Loader.definitionName key') :
    key < key' := by
  rw [← String.toList_inj, toList_pluginName, toList_definitionName] at h
  rcases List.append_eq_append_iff.mp h with ⟨rest, hkey, hrest⟩ | ⟨rest, -, hrest⟩
  · cases rest with
    | nil => exact absurd hrest (by simp)
    | cons c rest =>
      have hlt : key.toList ++ [] < key.toList ++ c :: rest := List.append_left_lt (List.nil_lt_cons c rest)
      rw [String.lt_iff_toList_lt, hkey]
      simpa using hlt
  · have hdot : '.' ∈ "_type".toList := by simp [hrest]
    exact absurd hdot (by decide)

theorem append_cons_inj {c : Char} {a b x y : List Char} (ha : c ∉ a) (hb : c ∉ b) (h : a ++ c :: x = b ++ c :: y) :
    a = b ∧ x = y := by
  induction a generalizing b with
  | nil => cases b <;> grind
  | cons d a ih => cases b <;> grind

/-- Without dots in the names of categories the name of a plugin's definition tells category and tag. -/
theorem pluginName_inj_of_undotted {key key' tag tag' : String} (hkey : '.' ∉ key.toList) (hkey' : '.' ∉ key'.toList)
    (h : pluginName key tag = pluginName key' tag') : key = key' ∧ tag = tag' := by
  rw [← String.toList_inj, toList_pluginName, toList_pluginName] at h
  obtain ⟨hk, ht⟩ := append_cons_inj hkey hkey' h
  exact ⟨String.toList_inj.mp hk, String.toList_inj.mp ht⟩

theorem pluginName_ne_definitionName {key key' tag : String} (hkey' : '.' ∉ key'.toList) :
    pluginName key tag ≠ Loader.definitionName key' := by
  intro h
  rw [← String.toList_inj, toList_pluginName, toList_definitionName] at h
  have hdot : '.' ∈ key'.toList ++ "_type".toList := by
    rw [← h]
    simp
  rcases List.mem_append.mp hdot with hdot | hdot
  · exact hkey' hdot
  · exact absurd hdot (by decide)

/-! ## Aliases -/

theorem mem_aliasesFor {key name : String} : name ∈ r.aliasesFor key ↔ r.aliases.get? name = some (r.canonical key) := by
  simp only [Registry.aliasesFor, List.mem_map, List.mem_filter, Prod.exists, exists_and_right, exists_eq_right,
    Dict.mem_entries_iff, beq_iff_eq]

theorem nodup_aliasesFor (r : Registry) (key : String) : (r.aliasesFor key).Nodup := by
  have hkeys : (r.aliases.entries.map (·.1)).Nodup :=
    List.pairwise_map.mpr (r.aliases.sorted.imp fun h => String.ne_of_lt h)
  exact hkeys.sublist (List.filter_sublist.map _)

theorem canonical_of_alias (ht : r.Tidy) {name key : String} (h : r.aliases.get? name = some key) :
    r.canonical name = key := by
  have hclean := ht.clean name (Registry.occupies_iff.mpr (.inl (by simp [Dict.contains_eq, h])))
  rw [Registry.canonical, hclean, h, Option.getD_some]

theorem ne_of_alias (ht : r.Tidy) {name key target : String} {c : Category} (h : r.aliases.get? name = some target)
    (hc : r.categories.get? key = some c) : name ≠ key := by
  rintro rfl
  have hfree := (ht.unused name (by simp [Dict.contains_eq, h])).1
  rw [Dict.contains_eq, hc] at hfree
  cases hfree

/-! ## Definitions of categories -/

theorem definition?_category (ht : r.Tidy) {key : String} {c : Category} (hc : r.categories.get? key = some c) :
    definition? r (Loader.definitionName key) = some (categoryDefinition r key c) := by
  refine get?_definitions ?_
  rw [get?_registered]
  -- categories are written in the order of their names: nothing that comes later takes this one's name
  have hsorted := r.categories.sorted
  obtain ⟨before, after, he⟩ := List.append_of_mem ((r.categories.mem_entries_iff key c).mpr hc)
  have hlater : ∀ e ∈ after, key < e.1 ∧ r.categories.get? e.1 = some e.2 := fun e hmem => by
    rw [Entries.Sorted, he] at hsorted
    refine ⟨(List.pairwise_cons.mp (List.pairwise_append.mp hsorted).2.1).1 e hmem, ?_⟩
    exact (r.categories.mem_entries_iff e.1 e.2).mp (by rw [he]; simp [hmem])
  have hnone : Entries.get? (Loader.definitionName key)
      ((r.aliasesFor key).map (fun a => (Loader.definitionName a, categoryReference key)) ++
        after.flatMap fun e => definitionsOf r e.1 e.2).reverse = none := by
    refine Entries.get?_eq_none_iff.mpr fun d hd hname => ?_
    rcases List.mem_append.mp (List.mem_reverse.mp hd) with hd | hd
    · obtain ⟨a, ha, rfl⟩ := List.mem_map.mp hd
      exact ne_of_alias ht (mem_aliasesFor.mp ha) hc (definitionName_inj hname)
    · obtain ⟨e, hmem, hd⟩ := List.mem_flatMap.mp hd
      obtain ⟨hlt, hcategory⟩ := hlater e hmem
      rcases mem_definitionsOf.mp hd with ⟨p, -, rfl⟩ | rfl | ⟨a, ha, rfl⟩
      · exact String.lt_asymm hlt (lt_of_pluginName_eq hname)
      · exact String.ne_of_lt hlt (definitionName_inj hname).symm
      · exact ne_of_alias ht (mem_aliasesFor.mp ha) hc (definitionName_inj hname)
  have hwritten : written r = (before.flatMap (fun e => definitionsOf r e.1 e.2) ++
        c.plugins.map fun p => (pluginName key p.tag, p.schema r.store)) ++
      (Loader.definitionName key, categoryDefinition r key c) ::
        ((r.aliasesFor key).map (fun a => (Loader.definitionName a, categoryReference key)) ++
          after.flatMap fun e => definitionsOf r e.1 e.2) := by
    simp [written, he, definitionsOf]
  rw [hwritten, List.reverse_append, List.reverse_cons, Entries.get?_append, Entries.get?_append, hnone,
    Option.none_or, Entries.get?_cons, if_pos rfl, Option.some_or]

/-! ## Properties -/

/-- The property of a name in the schema of documents. -/
def property? (r : Registry) (name : String) : Option Json :=
  ((document r).member? "properties").bind (Json.member? name)

theorem mem_propertiesOf {key : String} {e : String × Json} : e ∈ propertiesOf r key ↔
    (r.aliases.get? e.1 = some (r.canonical key) ∨ e.1 = key) ∧
      e.2 = .obj [("type", .str "array"), ("items", categoryReference key)] := by
  obtain ⟨name, value⟩ := e
  simp only [propertiesOf, List.mem_map, List.mem_append, mem_aliasesFor, List.mem_singleton, Prod.mk.injEq]
  grind

theorem property?_eq (ht : r.Tidy) (name : String) : property? r name =
    if r.categories.contains name || r.aliases.contains name then
      some (.obj [("type", .str "array"), ("items", categoryReference (r.canonical name))])
    else none := by
  have hproperty : property? r name = Entries.get? name (r.categories.keys.flatMap (propertiesOf r)).reverse := by
    have hget : property? r name = Entries.get? name (properties r) := rfl
    rw [hget, properties_eq, Entries.get?_setAll, Entries.get?_nil, Option.or_none]
  have hmem (name : String) (value : Json) : (name, value) ∈ r.categories.keys.flatMap (propertiesOf r) ↔
      (r.categories.contains name || r.aliases.contains name) = true ∧
        value = .obj [("type", .str "array"), ("items", categoryReference (r.canonical name))] := by
    simp only [List.mem_flatMap, Dict.mem_keys_iff, mem_propertiesOf, Bool.or_eq_true, ← Dict.contains_eq]
    constructor
    · rintro ⟨key, hkey, ha | rfl, hvalue⟩
      · rw [ht.canonical_of_contains hkey] at ha
        rw [canonical_of_alias ht ha]
        exact ⟨.inr (by simp [Dict.contains_eq, ha]), hvalue⟩
      · rw [ht.canonical_of_contains hkey]
        exact ⟨.inl hkey, hvalue⟩
    · rintro ⟨hkey | ha, hvalue⟩
      · rw [ht.canonical_of_contains hkey] at hvalue
        exact ⟨name, hkey, .inr rfl, hvalue⟩
      · obtain ⟨key, ha⟩ := Option.isSome_iff_exists.mp ha
        rw [canonical_of_alias ht ha] at hvalue
        have hkey := (ht.target name key ha).1
        exact ⟨key, hkey, .inl (by rw [ht.canonical_of_contains hkey, ha]), hvalue⟩
  rw [hproperty]
  cases hget : Entries.get? name (r.categories.keys.flatMap (propertiesOf r)).reverse with
  | some value =>
    obtain ⟨hname, hvalue⟩ := (hmem name value).mp (List.mem_reverse.mp (Entries.mem_of_get? hget))
    rw [if_pos hname, hvalue]
  | none =>
    rw [if_neg]
    intro hname
    have hin := (hmem name _).mpr ⟨hname, rfl⟩
    exact Entries.get?_eq_none_iff.mp hget _ (List.mem_reverse.mpr hin) rfl

/-! ## Complete schemas -/

/-- Every plugin, every category and every alias has its definition. -/
structure Complete (r : Registry) : Prop where
  plugins : ∀ key c, r.categories.get? key = some c → ∀ p ∈ c.plugins,
    definition? r (pluginName key p.tag) = some (p.schema r.store)
  categories : ∀ key c, r.categories.get? key = some c →
    definition? r (Loader.definitionName key) = some (categoryDefinition r key c)
  aliases : ∀ name key, r.aliases.get? name = some key →
    definition? r (Loader.definitionName name) = some (categoryReference key)

theorem complete_of_nodup (ht : r.Tidy) (distinct : ((written r).map (·.1)).Nodup) : Complete r := by
  have hkept : ∀ key c, r.categories.get? key = some c → ∀ d ∈ definitionsOf r key c, definition? r d.1 = some d.2 := by
    intro key c hc d hd
    refine get?_definitions ?_
    rw [get?_registered, Entries.get?_eq_some_iff (by rw [List.map_reverse, List.nodup_reverse]; exact distinct)]
    exact List.mem_reverse.mpr (mem_written.mpr ⟨key, c, hc, hd⟩)
  refine ⟨fun key c hc p hp => ?_, fun key c hc => ?_, fun name key ha => ?_⟩
  · exact hkept key c hc _ (mem_definitionsOf.mpr (.inl ⟨p, hp, rfl⟩))
  · exact hkept key c hc _ (mem_definitionsOf.mpr (.inr (.inl rfl)))
  · have hkey := (ht.target name key ha).1
    obtain ⟨c, hc⟩ := Option.isSome_iff_exists.mp hkey
    have hname : name ∈ r.aliasesFor key := mem_aliasesFor.mpr (by rw [ht.canonical_of_contains hkey, ha])
    exact hkept key c hc _ (mem_definitionsOf.mpr (.inr (.inr ⟨name, hname, rfl⟩)))

/-! ## Names that clash -/

/-- What the written definitions are about, in order. -/
def origins (r : Registry) : List Origin :=
  r.categories.entries.flatMap fun e =>
    (e.2.plugins.map fun p => .ofPlugin e.1 p.tag) ++ [.ofCategory e.1] ++ (r.aliasesFor e.1).map .ofAlias

theorem map_written (r : Registry) : (written r).map (·.1) = (origins r).map Origin.name := by
  simp only [written, origins, definitionsOf, List.map_flatMap, List.map_append, List.map_map, List.map_cons,
    List.map_nil]
  rfl

theorem mem_origins_plugin {key tag : String} : .ofPlugin key tag ∈ origins r ↔
    ∃ c, r.categories.get? key = some c ∧ ∃ p ∈ c.plugins, p.tag = tag := by
  simp [origins, Dict.mem_entries_iff]

theorem mem_origins_category {key : String} : .ofCategory key ∈ origins r ↔ ∃ c, r.categories.get? key = some c := by
  simp [origins, Dict.mem_entries_iff]

theorem mem_origins_alias {name : String} (h : .ofAlias name ∈ origins r) :
    ∃ key, r.aliases.get? name = some key := by
  simp only [origins, List.mem_flatMap, List.mem_append, List.mem_map, List.mem_singleton, reduceCtorEq, and_false,
    exists_false, Origin.ofAlias.injEq, exists_eq_right, false_or] at h
  obtain ⟨e, -, ha⟩ := h
  exact ⟨_, mem_aliasesFor.mp ha⟩

/-- If no category lists two plugins under one tag, every definition is written about something else. -/
theorem nodup_origins (ht : r.Tidy)
    (strict : ∀ key c, r.categories.get? key = some c → c.plugins.Pairwise (·.tag < ·.tag)) : (origins r).Nodup := by
  refine List.nodup_flatMap.mpr ⟨fun e he => ?_, r.categories.sorted.imp_of_mem fun {e e'} he he' hlt => ?_⟩
  · have hplugins : (e.2.plugins.map fun p => Origin.ofPlugin e.1 p.tag).Nodup :=
      List.pairwise_map.mpr ((strict e.1 e.2 ((r.categories.mem_entries_iff e.1 e.2).mp he)).imp fun h heq =>
        String.ne_of_lt h (Origin.ofPlugin.inj heq).2)
    have haliases : ((r.aliasesFor e.1).map Origin.ofAlias).Nodup :=
      List.pairwise_map.mpr ((nodup_aliasesFor r e.1).imp fun h heq => h (Origin.ofAlias.inj heq))
    refine List.nodup_append.mpr ⟨List.nodup_append.mpr ⟨hplugins, List.nodup_singleton _, ?_⟩, haliases, ?_⟩ <;> grind
  · have hkeys : ∀ e ∈ r.categories.entries, r.canonical e.1 = e.1 := fun e he =>
      ht.canonical_of_contains ((r.categories.mem_keys_iff e.1).mp (List.mem_map.mpr ⟨e, he, rfl⟩))
    intro x hx hx'
    simp only [List.mem_append, List.mem_map, List.mem_singleton, mem_aliasesFor, hkeys e he, hkeys e' he'] at hx hx'
    have hne := String.ne_of_lt hlt
    rcases hx with (⟨p, -, rfl⟩ | rfl) | ⟨a, ha, rfl⟩ <;> grind

theorem alias_ne_category (ht : r.Tidy) {name key : String} (ha : .ofAlias name ∈ origins r)
    (hc : .ofCategory key ∈ origins r) : Loader.definitionName name ≠ Loader.definitionName key := by
  obtain ⟨target, htarget⟩ := mem_origins_alias ha
  obtain ⟨c, hcategory⟩ := mem_origins_category.mp hc
  exact fun he => ne_of_alias ht htarget hcategory (definitionName_inj he)

/-- Definitions can only clash with the definition of a plugin. -/
theorem name_inj (ht : r.Tidy)
    (plugins : ∀ {key tag key' tag'}, .ofPlugin key tag ∈ origins r → .ofPlugin key' tag' ∈ origins r →
      pluginName key tag = pluginName key' tag' → key = key' ∧ tag = tag')
    (categories : ∀ {key tag key'}, .ofPlugin key tag ∈ origins r → .ofCategory key' ∈ origins r →
      pluginName key tag ≠ Loader.definitionName key')
    (aliases : ∀ {key tag name}, .ofPlugin key tag ∈ origins r → .ofAlias name ∈ origins r →
      pluginName key tag ≠ Loader.definitionName name) :
    ∀ x ∈ origins r, ∀ y ∈ origins r, x.name = y.name → x = y := by
  intro x hx y hy he
  cases x with
  | ofPlugin key tag =>
    cases y with
    | ofPlugin key' tag' =>
      obtain ⟨rfl, rfl⟩ := plugins hx hy he
      rfl
    | ofCategory key' => exact absurd he (categories hx hy)
    | ofAlias name => exact absurd he (aliases hx hy)
  | ofCategory key =>
    cases y with
    | ofPlugin key' tag' => exact absurd he.symm (categories hy hx)
    | ofCategory key' => rw [definitionName_inj he]
    | ofAlias name => exact absurd he.symm (alias_ne_category ht hy hx)
  | ofAlias name =>
    cases y with
    | ofPlugin key' tag' => exact absurd he.symm (aliases hy hx)
    | ofCategory key' => exact absurd he (alias_ne_category ht hx hy)
    | ofAlias name' => rw [definitionName_inj he]

/-- Without dots in the names of categories and aliases no two definitions clash. -/
theorem name_inj_of_undotted (ht : r.Tidy)
    (undotted : ∀ name, (r.categories.contains name || r.aliases.contains name) = true → '.' ∉ name.toList) :
    ∀ x ∈ origins r, ∀ y ∈ origins r, x.name = y.name → x = y := by
  have hplugin {key tag : String} (h : .ofPlugin key tag ∈ origins r) : '.' ∉ key.toList := by
    obtain ⟨c, hc, -⟩ := mem_origins_plugin.mp h
    exact undotted key (by simp [Dict.contains_eq, hc])
  refine name_inj ht (fun hx hy => pluginName_inj_of_undotted (hplugin hx) (hplugin hy)) (fun _ hy => ?_)
    (fun _ hy => ?_)
  · obtain ⟨c, hc⟩ := mem_origins_category.mp hy
    exact pluginName_ne_definitionName (undotted _ (by simp [Dict.contains_eq, hc]))
  · obtain ⟨target, ha⟩ := mem_origins_alias hy
    exact pluginName_ne_definitionName (undotted _ (by simp [Dict.contains_eq, ha]))

/-! ## What a definition says -/

theorem type_of_schema (store : Store) (p : Plugin) : (p.schema store).member? "type" = some (.str "object") := rfl

theorem properties_of_schema (store : Store) (p : Plugin) : (p.schema store).member? "properties" =
    some (.obj (Entries.setAll [("name", .obj [("type", .str "string")]),
      ("type", .obj [("type", .str "string"), ("enum", .arr [.str p.tag])])]
      (p.parameters.map fun q => (q.name, q.schema store)))) := by
  simp only [Plugin.schema, Json.member?]
  cases p.description <;> rfl

/-- The schema of an accepted plugin tells its type tag. -/
theorem tag_of_schema {store : Store} {p q : Plugin} (hp : p.checked = .ok p) (hq : q.checked = .ok q)
    (h : p.schema store = q.schema store) : p.tag = q.tag := by
  have htype {p : Plugin} (hp : p.checked = .ok p) :
      ((p.schema store).member? "properties").bind (Json.member? "type") =
        some (.obj [("type", .str "string"), ("enum", .arr [.str p.tag])]) := by
    have hnone : Entries.get? "type" (p.parameters.map fun q => (q.name, q.schema store)).reverse = none := by
      refine Entries.get?_eq_none_iff.mpr fun e he => ?_
      obtain ⟨q, hq, rfl⟩ := List.mem_map.mp (List.mem_reverse.mp he)
      exact ((Plugin.checked_eq_ok_iff.mp hp).2 q hq).2
    rw [properties_of_schema, Option.bind_some, Json.member?, Entries.get?_setAll, hnone, Option.none_or]
    rfl
  have he := htype hp
  rw [h, htype hq] at he
  simpa [eq_comm] using he

theorem schema_ne_categoryReference (store : Store) (p : Plugin) (key : String) :
    p.schema store ≠ categoryReference key := fun h => by
  have ht := type_of_schema store p
  rw [h] at ht
  cases ht

theorem schema_ne_categoryDefinition (store : Store) (p : Plugin) (key : String) (c : Category) :
    p.schema store ≠ categoryDefinition r key c := fun h => by
  have ht := type_of_schema store p
  rw [h, categoryDefinition] at ht
  split at ht <;> cases ht

theorem name_inj_of_complete (ht : r.Tidy) (accepted : r.catalogue.Accepted) (h : Complete r) :
    ∀ x ∈ origins r, ∀ y ∈ origins r, x.name = y.name → x = y := by
  -- what is found under the name of a plugin
  have hplugin {key tag : String} (hx : .ofPlugin key tag ∈ origins r) : ∃ p : Plugin, p.checked = .ok p ∧ p.tag = tag ∧
      definition? r (pluginName key tag) = some (p.schema r.store) := by
    obtain ⟨c, hc, p, hp, rfl⟩ := mem_origins_plugin.mp hx
    obtain ⟨tag, htag⟩ := c.plugins_spec.2.1 p hp
    refine ⟨p, accepted key tag p ?_, rfl, h.plugins key c hc p hp⟩
    simp only [Registry.catalogue, Registry.category_of_get? hc, htag]
  refine name_inj ht (fun hx hy he => ?_) (fun hx hy he => ?_) (fun hx hy he => ?_)
  · obtain ⟨p, hp, rfl, hdp⟩ := hplugin hx
    obtain ⟨q, hq, rfl, hdq⟩ := hplugin hy
    have htag := tag_of_schema hp hq (Option.some.inj (hdp.symm.trans (he ▸ hdq)))
    rw [htag] at he
    exact ⟨pluginName_inj he, htag⟩
  · obtain ⟨p, -, -, hp⟩ := hplugin hx
    obtain ⟨c, hc⟩ := mem_origins_category.mp hy
    exact schema_ne_categoryDefinition _ _ _ _ (Option.some.inj (hp.symm.trans (he ▸ h.categories _ c hc)))
  · obtain ⟨p, -, -, hp⟩ := hplugin hx
    obtain ⟨target, ha⟩ := mem_origins_alias hy
    exact schema_ne_categoryReference _ _ _ (Option.some.inj (hp.symm.trans (he ▸ h.aliases _ target ha)))

/-! ## Sessions -/

/-- In the schema of every session each category has its definition, which lists its plugins in the order of their type
tags, and the properties are the categories and their aliases, which refer to it. Nothing else is lost as long as no two
definitions are written under one name. If all plugins were accepted and no tags were bound apart from registering them,
this is the only way to lose something, and it takes a dot in the name of a category or an alias. -/
theorem session_schema (ops : List Operation) :
    (∀ key c, (Registry.after ops).categories.get? key = some c →
      c.plugins.Pairwise (fun p q => p.tag ≤ q.tag ∧ p.same q = false) ∧
      (∀ p ∈ c.plugins, ∃ tag, c.dispatch.get? tag = some p) ∧
      (∀ tag p, c.dispatch.get? tag = some p → ∃ q ∈ c.plugins, p.same q = true) ∧
      definition? (Registry.after ops) (Loader.definitionName key) =
        some (categoryDefinition (Registry.after ops) key c)) ∧
    (∀ name, property? (Registry.after ops) name =
      if (Registry.after ops).categories.contains name || (Registry.after ops).aliases.contains name then
        some (.obj [("type", .str "array"), ("items", categoryReference ((Registry.after ops).canonical name))])
      else none) ∧
    (((written (Registry.after ops)).map (·.1)).Nodup → Complete (Registry.after ops)) ∧
    ((∀ op ∈ ops, op.Within .accepted ∧ op.binds = false) →
      (Complete (Registry.after ops) → ((written (Registry.after ops)).map (·.1)).Nodup) ∧
      ((∀ name, ((Registry.after ops).categories.contains name || (Registry.after ops).aliases.contains name) = true →
        '.' ∉ name.toList) → ((written (Registry.after ops)).map (·.1)).Nodup)) := by
  have ht := Registry.tidy_after ops
  refine ⟨fun key c hc => ?_, property?_eq ht, complete_of_nodup ht, fun hops => ?_⟩
  · obtain ⟨hpairwise, hbound, hall⟩ := c.plugins_spec
    exact ⟨hpairwise, hbound, hall, definition?_category ht hc⟩
  · have hheaded := (after_mirrored fun op hop => (hops op hop).2).headed
    have hstrict : ∀ key c, (Registry.after ops).categories.get? key = some c → c.plugins.Pairwise (·.tag < ·.tag) :=
      fun key c hc => Registry.category_of_get? hc ▸ hheaded.tags_lt key
    have haccepted : (Registry.after ops).catalogue.Accepted := after_dispatch fun op hop => (hops op hop).1
    have hdistinct := nodup_origins ht hstrict
    rw [map_written, List.nodup_map_iff_inj_on hdistinct]
    exact ⟨name_inj_of_complete ht haccepted, name_inj_of_undotted ht⟩

/-- The schema of the standard plugins is complete. -/
theorem standard_complete : Complete (Registry.after [.registerAll Sampling.registrations]) := by
  obtain ⟨-, -, hcomplete, hsession⟩ := session_schema [.registerAll Sampling.registrations]
  refine hcomplete ((hsession ?_).2 ?_)
  · simp only [List.forall_mem_singleton]
    exact ⟨Sampling.within_registrations trivial (fun _ => trivial) Sampling.plugins_accepted, rfl⟩
  · have hkeys : ∀ name ∈ (Registry.after [.registerAll Sampling.registrations]).categories.keys ++
        (Registry.after [.registerAll Sampling.registrations]).aliases.keys, '.' ∉ name.toList := by decide +kernel
    intro name hname
    simp only [Bool.or_eq_true, Dict.contains_eq, ← Dict.mem_keys_iff] at hname
    exact hkeys name (List.mem_append.mpr hname)

/-- The category `cv` has the alias `md.cv`, and the category `md` has a type `cv_type`. -/
def clashingSession : List Operation := [
  .declare { name := "cv", aliases := ["md.cv"] },
  .register { Sampling.coordinatePlugin with tag := "cv_type", category := "md" }]

/-- The definition of the plugin is written over that of the alias. -/
theorem clashingSession_incomplete :
    (Registry.after clashingSession).aliases.get? "md.cv" = some "cv" ∧
    definition? (Registry.after clashingSession) "md.cv_type" ≠ some (categoryReference "cv") ∧
    ¬ Complete (Registry.after clashingSession) := by
  have halias : (Registry.after clashingSession).aliases.get? "md.cv" = some "cv" := by decide +kernel
  have htype : ((definition? (Registry.after clashingSession) "md.cv_type").bind (Json.member? "type")).bind Json.text? =
      some "object" := by decide +kernel
  have hlost : definition? (Registry.after clashingSession) "md.cv_type" ≠ some (categoryReference "cv") := fun h => by
    rw [h] at htype
    cases htype
  exact ⟨halias, hlost, fun h => hlost (h.aliases "md.cv" "cv" halias)⟩

end Blueprint.Schema
