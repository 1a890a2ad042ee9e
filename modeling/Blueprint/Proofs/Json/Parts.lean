import Blueprint.Json.Source
import Blueprint.Proofs.Compile.Chronicle

/-!
# Properties of all parts

What a value contains, at any depth, are its parts. A property holds throughout a value if it holds of the value and
throughout the items or the members that it contains directly. No value that is read binds a key twice in an object
(`Source.distinct_of_value?`).
-/

namespace Blueprint

namespace Json

/-- What holds of a list or an object whenever it holds of all it contains directly holds of every value. -/
@[elab_as_elim]
theorem partsInduction {motive : Json → Prop} (null : motive .null) (bool : ∀ b, motive (.bool b))
    (num : ∀ n, motive (.num n)) (str : ∀ s, motive (.str s))
    (arr : ∀ items, (∀ x ∈ items, motive x) → motive (.arr items))
    (obj : ∀ members : Members, (∀ e ∈ members, motive e.2) → motive (.obj members)) (json : Json) : motive json := by
  refine @Json.rec motive (fun items => ∀ x ∈ items, motive x) (fun members => ∀ e ∈ members, motive e.2)
    (fun e => motive e.2) null bool num str arr obj ?noItem ?item ?noMember ?member ?pair json
  case noItem => exact nofun
  case item => exact fun _ _ hx hitems => List.forall_mem_cons.mpr ⟨hx, hitems⟩
  case noMember => exact nofun
  case member => exact fun _ _ he hmembers => List.forall_mem_cons.mpr ⟨he, hmembers⟩
  case pair => exact fun _ _ h => h

/-- Every part of the value has the property, and so has the value itself. -/
def Throughout (P : Json → Prop) (json : Json) : Prop := ∀ x : Json, x.IsPart json → P x

namespace Throughout

variable {P : Json → Prop} {json x : Json} {items : List Json} {members : Members}

theorem self (h : json.Throughout P) : P json := h json (.refl _)

theorem of_isPart (h : json.Throughout P) (hx : x.IsPart json) : x.Throughout P := fun y hy => h y (hy.trans hx)

theorem item (h : (Json.arr items).Throughout P) : ∀ x ∈ items, x.Throughout P :=
  fun _ hx => h.of_isPart ((IsPart.refl _).item hx)

theorem member (h : (Json.obj members).Throughout P) : ∀ e ∈ members, e.2.Throughout P :=
  fun _ he => h.of_isPart ((IsPart.refl _).member he)

/-- A value that contains nothing has no part but itself. -/
theorem single (harr : ∀ items, json ≠ .arr items) (hobj : ∀ members, json ≠ .obj members) (h : P json) :
    json.Throughout P := by
  intro x hx
  rcases hx.inside with rfl | ⟨items, he, -⟩ | ⟨members, he, -⟩
  · exact h
  · exact absurd he (harr items)
  · exact absurd he (hobj members)

theorem str {s : String} (h : P (.str s)) : (Json.str s).Throughout P := single nofun nofun h

theorem arr (h : P (.arr items)) (hitems : ∀ x ∈ items, x.Throughout P) : (Json.arr items).Throughout P := by
  intro y hy
  rcases hy.inside with rfl | ⟨_, he, x, hx, hp⟩ | ⟨_, he, -⟩
  · exact h
  · cases he
    exact hitems x hx y hp
  · cases he

theorem obj (h : P (.obj members)) (hmembers : ∀ e ∈ members, e.2.Throughout P) : (Json.obj members).Throughout P := by
  intro y hy
  rcases hy.inside with rfl | ⟨_, he, -⟩ | ⟨_, he, e, hmem, hp⟩
  · exact h
  · cases he
  · cases he
    exact hmembers e hmem y hp

end Throughout

/-! ## Distinct keys -/

/-- No object in the value, at any depth, binds a key twice. -/
def Distinct (json : Json) : Prop := json.Throughout fun x => ∀ members, x = .obj members → (members.map (·.1)).Nodup

namespace Distinct

variable {items : List Json} {members : Members}

theorem nodup (h : (Json.obj members).Distinct) : (members.map (·.1)).Nodup := h.self members rfl

theorem arr (h : ∀ x ∈ items, x.Distinct) : (Json.arr items).Distinct := Throughout.arr nofun h

theorem obj (distinct : (members.map (·.1)).Nodup) (h : ∀ e ∈ members, e.2.Distinct) : (Json.obj members).Distinct :=
  Throughout.obj (fun _ he => (Json.obj.inj he) ▸ distinct) h

end Distinct

end Json

namespace Entries

variable {α : Type*} {entries : List (String × α)}

theorem nodup_set (h : (entries.map (·.1)).Nodup) (key : String) (value : α) :
    ((set key value entries).map (·.1)).Nodup := by
  induction entries with
  | nil => exact List.nodup_singleton key
  | cons e rest ih =>
    rw [List.map_cons, List.nodup_cons] at h
    unfold set
    split
    · next heq =>
      subst heq
      exact List.nodup_cons.mpr h
    · next hne =>
      refine List.nodup_cons.mpr ⟨fun hmem => ?_, ih h.2⟩
      obtain ⟨b, hb, hkey⟩ := List.mem_map.mp hmem
      rcases mem_set hb with rfl | hb
      · exact hne hkey.symm
      · exact h.1 (List.mem_map.mpr ⟨b, hb, hkey⟩)

theorem nodup_setAll (h : (entries.map (·.1)).Nodup) (new : List (String × α)) :
    ((setAll entries new).map (·.1)).Nodup := by
  induction new generalizing entries with
  | nil => exact h
  | cons e new ih => exact ih (nodup_set h e.1 e.2)

end Entries

namespace Json.Source

mutual

/-- What is read binds no key twice, however often it is written. -/
theorem distinct_of_value? : (source : Source) → ∀ {json}, source.value? = some json → json.Distinct
  | .null, _, h => by cases h; exact .single nofun nofun nofun
  | .bool _, _, h => by cases h; exact .single nofun nofun nofun
  | .num n, _, h => by
    obtain ⟨n, -, rfl⟩ := Option.map_eq_some_iff.mp h
    exact .single nofun nofun nofun
  | .str s, _, h => by
    obtain ⟨s, -, rfl⟩ := Option.map_eq_some_iff.mp h
    exact .single nofun nofun nofun
  | .arr items, _, h => by
    obtain ⟨values, hvalues, rfl⟩ := Option.map_eq_some_iff.mp h
    exact .arr (distinct_of_itemValues? items hvalues)
  | .obj members, _, h => by
    obtain ⟨values, hvalues, rfl⟩ := Option.map_eq_some_iff.mp h
    refine .obj (Entries.nodup_setAll ?_ values) fun e he => ?_
    · exact List.nodup_nil
    · rcases Entries.mem_setAll he with he | he
      · exact distinct_of_memberValues? members hvalues e he
      · cases he

theorem distinct_of_itemValues? : (items : List Source) → ∀ {values}, itemValues? items = some values →
    ∀ x ∈ values, x.Distinct
  | [], _, h => by cases h; exact nofun
  | item :: items, _, h => by
    obtain ⟨value, hvalue, h⟩ := Option.bind_eq_some_iff.mp h
    obtain ⟨values, hvalues, h⟩ := Option.bind_eq_some_iff.mp h
    cases h
    exact List.forall_mem_cons.mpr ⟨distinct_of_value? item hvalue, distinct_of_itemValues? items hvalues⟩

theorem distinct_of_memberValues? : (members : List (Option String × Source)) → ∀ {values},
    memberValues? members = some values → ∀ e ∈ values, e.2.Distinct
  | [], _, h => by cases h; exact nofun
  | (key, source) :: members, _, h => by
    obtain ⟨key, -, h⟩ := Option.bind_eq_some_iff.mp h
    obtain ⟨value, hvalue, h⟩ := Option.bind_eq_some_iff.mp h
    obtain ⟨values, hvalues, h⟩ := Option.bind_eq_some_iff.mp h
    cases h
    exact List.forall_mem_cons.mpr ⟨distinct_of_value? source hvalue, distinct_of_memberValues? members hvalues⟩

end

end Json.Source
end Blueprint
