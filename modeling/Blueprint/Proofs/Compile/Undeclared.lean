import Blueprint.Proofs.Compile.Correspondence
import Blueprint.Proofs.Plugin.Arguments

/-!
# Keys that no plugin declares

`Catalogue.declared` strips a description of the keys that are neither its name, nor its type, nor a parameter of its
plugin, and so the descriptions inside it. Plugins pass such keys on to their builders; as long as no builder looks at
them, descriptions that are the same when stripped are compiled the same (`compile_of_declared_eq`).
-/

namespace Blueprint

open List (Forall₂)

/-! ## Stripping -/

/-- Applies a function to the items of a list, or to what is no list. -/
def Json.mapItems (f : Json → Json) : Json → Json
  | .arr items => .arr (items.map f)
  | single => f single

/-- Applies a function to the descriptions that a loader hands to the compiler, each with the key of its category. -/
def Loader.mapReferences (c : Catalogue) (f : String → Json → Json) : Loader → Json → Json
  | .read _, raw => raw
  | .category name, raw => raw.mapItems (f (c.key name))
  | .listOf item, raw => raw.mapItems (item.mapReferences c f)

/-- A member of a mapping, if the plugin declares it; the descriptions inside it go through a function. -/
def Plugin.declared? (p : Plugin) (c : Catalogue) (f : String → Json → Json) (m : String × Json) :
    Option (String × Json) :=
  if reservedKeys.contains m.1 then some m
  else (p.parameter? m.1).map fun q => (m.1, q.loader.mapReferences c f m.2)

/-- The members of a mapping that its plugin declares. Without a plugin no member is known not to matter. -/
def Mapping.declared (c : Catalogue) (f : String → Json → Json) (m : Mapping) : Members :=
  match m.plugin? c with
  | some p => m.members.filterMap (p.declared? c f)
  | none => m.members

namespace Catalogue

variable (c : Catalogue)

/-- Strips descriptions that are nested at most `depth` deep. -/
def declaredTo : Nat → String → Json → Json
  | depth + 1, key, .obj members => .obj ((Mapping.mk key members).declared c (declaredTo depth))
  | _, _, raw => raw

/-- A description without the keys that its plugin does not declare, at any depth. -/
def declared (key : String) (raw : Json) : Json := c.declaredTo raw.depth key raw

end Catalogue

/-! ## The depth is enough -/

variable {c : Catalogue} {f g : String → Json → Json} {key : String}

theorem Json.mapItems_congr {f g : Json → Json} {raw : Json} (h : ∀ x ∈ raw.itemsOrSelf, f x = g x) :
    raw.mapItems f = raw.mapItems g := by
  cases raw with
  | arr items => exact congrArg Json.arr (List.map_congr_left h)
  | _ => exact h _ (by simp [itemsOrSelf])

theorem Loader.mapReferences_congr {l : Loader} {raw : Json} (h : ∀ k x, x.depth ≤ raw.depth → f k x = g k x) :
    l.mapReferences c f raw = l.mapReferences c g raw := by
  induction l generalizing raw with
  | read reader => rfl
  | category name => exact Json.mapItems_congr fun x hx => h _ x (Json.depth_le_of_mem_itemsOrSelf hx)
  | listOf item ih =>
    refine Json.mapItems_congr fun x hx => ih fun k y hy => h k y ?_
    exact Nat.le_trans hy (Json.depth_le_of_mem_itemsOrSelf hx)

theorem Mapping.declared_congr {m : Mapping} (h : ∀ k x, x.depth ≤ Json.membersDepth m.members → f k x = g k x) :
    m.declared c f = m.declared c g := by
  simp only [declared]
  cases m.plugin? c with
  | none => rfl
  | some p =>
    refine List.filterMap_congr fun e he => ?_
    have hdepth : e.2.depth ≤ Json.membersDepth m.members := Json.membersDepth_le_iff.mp (Nat.le_refl _) e he
    simp only [Plugin.declared?, Loader.mapReferences_congr fun k x hx => h k x (Nat.le_trans hx hdepth)]

namespace Catalogue

theorem declaredTo_eq_of_le {n m : Nat} {raw : Json} (hn : raw.depth ≤ n) (hm : raw.depth ≤ m) :
    c.declaredTo n key raw = c.declaredTo m key raw := by
  induction n generalizing m key raw with
  | zero => cases raw <;> simp_all [Json.depth, declaredTo]
  | succ n ih =>
    cases raw with
    | obj members =>
      cases m with
      | zero => simp [Json.depth] at hm
      | succ m =>
        simp only [Json.depth, Nat.add_le_add_iff_right] at hn hm
        simp only [declaredTo]
        rw [Mapping.declared_congr fun k x hx => ih (Nat.le_trans hx hn) (Nat.le_trans hx hm)]
    | _ => simp only [declaredTo]

theorem declared_obj (members : Members) :
    c.declared key (.obj members) = .obj ((Mapping.mk key members).declared c c.declared) := by
  simp only [declared, Json.depth, declaredTo]
  exact congrArg Json.obj (Mapping.declared_congr fun k x hx => declaredTo_eq_of_le hx (Nat.le_refl _))

theorem declared_of_not_obj {raw : Json} (h : ∀ members, raw ≠ .obj members) : c.declared key raw = raw := by
  cases raw with
  | obj members => exact absurd rfl (h members)
  | _ => rfl

theorem declared_eq_iff {x y : Json} (h : ∀ members, y ≠ .obj members) : c.declared key x = y ↔ x = y := by
  cases x with
  | obj members =>
    rw [declared_obj]
    exact iff_of_false (h _).symm (h _).symm
  | _ => rw [declared_of_not_obj (by simp)]

end Catalogue

/-! ## Descriptions that are the same when stripped -/

/-- In runs from one registry, descriptions correspond that are the same when stripped, and arguments that are the same
for the parameters. -/
def stripping (c : Catalogue) : Correspondence where
  described key x y := c.declared key x = c.declared key y
  value := Eq
  handle := Eq
  args p as as' := ∀ q ∈ p.parameters, as'.get? q.name = as.get? q.name
  object := Eq
  registry r r' := r' = r ∧ r.catalogue = c

theorem Loader.mapReferences_eq_arr_iff {l : Loader} {raw : Json} :
    (∃ items, l.mapReferences c c.declared raw = .arr items) ↔ ∃ items, raw = .arr items := by
  induction l generalizing raw with
  | read reader => rfl
  | category name =>
    cases raw with
    | arr items => simp [mapReferences, Json.mapItems]
    | _ => exact exists_congr fun items => Catalogue.declared_eq_iff (by simp)
  | listOf item ih =>
    cases raw with
    | arr items => simp [mapReferences, Json.mapItems]
    | _ => exact ih

theorem Json.forall₂_of_mapItems {f : Json → Json} {x y : Json} (harr : (∃ xs, x = .arr xs) ↔ ∃ ys, y = .arr ys)
    (h : x.mapItems f = y.mapItems f) : Forall₂ (fun x y => f x = f y) x.itemsOrSelf y.itemsOrSelf := by
  have hmap : x.itemsOrSelf.map f = y.itemsOrSelf.map f := by
    by_cases hx : ∃ xs, x = .arr xs
    · obtain ⟨ys, rfl⟩ := harr.mp hx
      obtain ⟨xs, rfl⟩ := hx
      exact Json.arr.inj h
    · have hy := mt harr.mpr hx
      cases x <;> cases y <;> simp_all [mapItems, itemsOrSelf]
  have hforall : Forall₂ Eq (x.itemsOrSelf.map f) (y.itemsOrSelf.map f) := hmap ▸ List.forall₂_same.mpr fun _ _ => rfl
  exact List.forall₂_map_right_iff.mp (List.forall₂_map_left_iff.mp hforall)

/-- Parts of descriptions that are the same when stripped are the same when stripped. -/
theorem Loader.loads_of_mapReferences {l : Loader} {x y : Json}
    (h : l.mapReferences c c.declared x = l.mapReferences c c.declared y) : (stripping c).Loads c l x y := by
  have harr : (∃ xs, x = .arr xs) ↔ ∃ ys, y = .arr ys := by
    rw [← mapReferences_eq_arr_iff (l := l), h, mapReferences_eq_arr_iff]
  induction l generalizing x y with
  | read reader =>
    obtain rfl : x = y := h
    exact .of_eq rfl
  | category name =>
    have hitems := Json.forall₂_of_mapItems harr h
    cases x with
    | arr xs =>
      obtain ⟨ys, rfl⟩ := harr.mp ⟨xs, rfl⟩
      exact ⟨ys, rfl, hitems⟩
    | _ =>
      have hy : ∀ ys, y ≠ .arr ys := by simpa using harr
      rw [show y.itemsOrSelf = [y] by cases y <;> simp_all [Json.itemsOrSelf]] at hitems
      exact ⟨hy, (List.forall₂_cons.mp hitems).1⟩
  | listOf item ih =>
    refine (Json.forall₂_of_mapItems harr h).imp fun x' y' h' => ih h' ?_
    rw [← mapReferences_eq_arr_iff (l := item), h', mapReferences_eq_arr_iff]

/-! ## Mappings that are the same when stripped -/

theorem Entries.get?_filterMap {α β : Type} {g : String × α → Option (String × β)} {k : String} {f : α → β}
    (hkey : ∀ m m', g m = some m' → m'.1 = m.1) (hk : ∀ v, g (k, v) = some (k, f v)) (entries : List (String × α)) :
    get? k (entries.filterMap g) = (get? k entries).map f := by
  induction entries with
  | nil => rfl
  | cons e rest ih =>
    rw [List.filterMap_cons, get?_cons]
    by_cases he : e.1 = k
    · obtain ⟨_, v⟩ := e
      subst he
      simp [hk, get?_cons]
    · rw [if_neg he]
      cases hg : g e with
      | none => exact ih
      | some e' => simp only [get?_cons, hkey e e' hg, if_neg he, ih]

theorem Plugin.key_of_declared? {p : Plugin} {m m' : String × Json} (h : p.declared? c f m = some m') : m'.1 = m.1 := by
  simp only [declared?] at h
  split at h
  · rw [Option.some.inj h]
  · obtain ⟨q, -, rfl⟩ := Option.map_eq_some_iff.mp h
    rfl

theorem Plugin.parameter?_of_mem {p : Plugin} (distinct : (p.parameters.map Parameter.name).Nodup) {q : Parameter}
    (hq : q ∈ p.parameters) : p.parameter? q.name = some q := by
  cases hfind : p.parameter? q.name with
  | none => exact absurd rfl (parameter?_isNone_iff.mp (by rw [hfind]; rfl) q hq)
  | some q' =>
    have hname : q'.name = q.name := by simpa using List.find?_some hfind
    rw [List.inj_on_of_nodup_map distinct (List.mem_of_find?_eq_some hfind) hq hname]

namespace Mapping

variable {m : Mapping}

/-- The name and the type stay. -/
theorem get?_declared_of_reserved {k : String} (hk : Plugin.reservedKeys.contains k = true) :
    Entries.get? k (m.declared c f) = Entries.get? k m.members := by
  simp only [declared]
  cases m.plugin? c with
  | none => rfl
  | some p =>
    have hget := Entries.get?_filterMap (f := id) (fun _ _ => Plugin.key_of_declared? (p := p) (c := c) (f := f))
      (fun v => by simp only [Plugin.declared?, hk, if_true, id_eq]) m.members (k := k)
    simpa using hget

/-- A parameter stays, with the descriptions in it stripped. -/
theorem get?_declared_of_parameter {p : Plugin} (hp : m.plugin? c = some p) (accepted : p.checked = .ok p)
    {q : Parameter} (hq : q ∈ p.parameters) :
    Entries.get? q.name (m.declared c f) = (Entries.get? q.name m.members).map (q.loader.mapReferences c f) := by
  obtain ⟨hnodup, hfree⟩ := Plugin.checked_eq_ok_iff.mp accepted
  have hreserved : Plugin.reservedKeys.contains q.name = false := by simpa [Plugin.reservedKeys] using hfree q hq
  have hparameter := Plugin.parameter?_of_mem hnodup hq
  simp only [declared, hp]
  exact Entries.get?_filterMap (fun _ _ => Plugin.key_of_declared?) (fun v => by
    simp only [Plugin.declared?, hreserved, Bool.false_eq_true, if_false, hparameter, Option.map_some]) m.members

end Mapping

theorem Plugin.get?_addUndeclared_of_parameter {p : Plugin} {q : Parameter} (hq : q ∈ p.parameters) (args : Arguments)
    (input : Members) : (p.addUndeclared args input).get? q.name = args.get? q.name := by
  refine Dict.get?_insertAll_of_not_mem fun e he heq => ?_
  obtain ⟨m, hm, rfl⟩ := List.mem_map.mp he
  exact parameter?_isNone_iff.mp (List.mem_filter.mp hm).2 q hq heq.symm

theorem mappings_of_declared {members members' : Members}
    (accepted : ∀ tag p, c.plugin? key tag = some p → p.checked = .ok p)
    (h : (Mapping.mk key members).declared c c.declared = (Mapping.mk key members').declared c c.declared) :
    (stripping c).Mappings c key members members' := by
  have hreserved : ∀ k, Plugin.reservedKeys.contains k = true → Entries.get? k members' = Entries.get? k members := by
    intro k hk
    have hget := Mapping.get?_declared_of_reserved (c := c) (f := c.declared) (m := ⟨key, members⟩) hk
    rw [h, Mapping.get?_declared_of_reserved hk] at hget
    exact hget
  have hname := hreserved "name" (by decide)
  have htype := hreserved "type" (by decide)
  have hplugin : (Mapping.mk key members').plugin? c = (Mapping.mk key members).plugin? c := by
    simp only [Mapping.plugin?, htype]
  refine ⟨fun label => ?_, fun label tags => ?_, fun p hp => ⟨fun q hq => ?_, fun as as' hargs q hq => ?_⟩⟩
  · simp only [Description.nameOf, hname]
  · simp only [Description.tagOf, htype]
  · obtain ⟨tag, -, htag⟩ := Option.bind_eq_some_iff.mp hp
    have haccepted := accepted tag p htag
    obtain ⟨hne, hne'⟩ := (Plugin.checked_eq_ok_iff.mp haccepted).2 q hq
    have hinput : ∀ ms, Entries.get? q.name (Mapping.mk key ms).input = Entries.get? q.name ms := fun ms => by
      simp only [Mapping.input, Entries.get?_erase, if_neg hne.symm, if_neg hne'.symm]
    have hraw := Mapping.get?_declared_of_parameter (f := c.declared) hp haccepted hq
    rw [h, Mapping.get?_declared_of_parameter (hplugin.trans hp) haccepted hq] at hraw
    simp only [hinput]
    simp only at hraw
    generalize Entries.get? q.name members = x at hraw ⊢
    generalize Entries.get? q.name members' = y at hraw ⊢
    cases x with
    | none => cases y <;> simp_all
    | some x =>
      cases y with
      | none => cases hraw
      | some y => exact .some (Loader.loads_of_mapReferences (Option.some.inj hraw).symm)
  · rw [Plugin.get?_addUndeclared_of_parameter hq, Plugin.get?_addUndeclared_of_parameter hq]
    exact hargs q hq

/-! ## Compiling -/

/-- The builder sees the parameters only, as long as the required ones are there. -/
def Plugin.BuildsFromParameters (p : Plugin) : Prop :=
  ∀ store (args args' : Arguments), (∀ q ∈ p.parameters, args'.get? q.name = args.get? q.name) →
    (∀ q ∈ p.requiredParameters, args.contains q.name = true) →
    p.builder.build store args' = p.builder.build store args

theorem stripping_shape (accepted : c.Accepted) {x y : Json} (h : c.declared key x = c.declared key y) :
    (stripping c).Shape c key x y := by
  cases x with
  | obj members =>
    cases y with
    | obj members' =>
      rw [Catalogue.declared_obj, Catalogue.declared_obj] at h
      exact ⟨members', rfl, mappings_of_declared (accepted key) (Json.obj.inj h)⟩
    | _ => cases (Catalogue.declared_eq_iff (by simp)).mp (h.trans (Catalogue.declared_of_not_obj (by simp)))
  | _ =>
    -- what is no mapping is not stripped
    rw [Catalogue.declared_of_not_obj (by simp)] at h
    rw [(Catalogue.declared_eq_iff (by simp)).mp h.symm]
    exact rfl

theorem stripping_sound (accepted : c.Accepted) (hbuild : ∀ key tag p, c.plugin? key tag = some p → p.BuildsFromParameters) :
    (stripping c).Sound c :=
  .of_one_registry rfl (fun _ _ _ h => stripping_shape accepted h) (fun _ _ _ _ _ _ => rfl)
    (fun p k as as' v hargs q hq => by rw [Dict.get?_insert, Dict.get?_insert, hargs q hq])
    fun k tag p hp store as as' hargs complete => hbuild k tag p hp store as as' hargs complete

/-- Descriptions that are the same when stripped are compiled the same, to the same outcome and the same registry. -/
theorem compile_of_declared_eq {r : Registry} (accepted : r.catalogue.Accepted)
    (hbuild : ∀ key tag p, r.catalogue.plugin? key tag = some p → p.BuildsFromParameters) {x y : Json}
    (h : r.catalogue.declared key x = r.catalogue.declared key y) : compile key y r = compile key x r := by
  obtain ⟨⟨hregistry, -⟩, houtcome⟩ :=
    (stripping_sound accepted hbuild).compilesTo x.depth key x y (Nat.le_refl _) h r r ⟨rfl, rfl⟩
  exact Prod.ext houtcome.eq.symm hregistry

end Blueprint
