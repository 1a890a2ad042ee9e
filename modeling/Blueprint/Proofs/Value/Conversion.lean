import Blueprint.Object.Basic
import Blueprint.Proofs.Decimal.Exact
import Blueprint.Proofs.Json.Position
import Mathlib.Data.List.Sort

/-!
# Descriptions taken as they are

A description whose numbers are words and finite floats loses nothing when it is taken as it is: what is written for
the value is the description with its keys in order (`Value.ofJson_lossless`). The keys of an object come in order
because they are bound one after the other (`Entries.insertAll_nil`).
-/

namespace Blueprint

/-! ## Keys in order -/

namespace Entries

variable {α : Type*} {entries : List (String × α)}

/-- The bindings in the order of their keys. -/
def inOrder (entries : List (String × α)) : List (String × α) := entries.insertionSort (·.1 ≤ ·.1)

theorem inOrder_perm (entries : List (String × α)) : (inOrder entries).Perm entries := List.perm_insertionSort _ _

theorem sorted_inOrder (h : (entries.map (·.1)).Nodup) : Sorted (inOrder entries) := by
  have : Std.Total fun a b : String × α => a.1 ≤ b.1 := ⟨fun a b => String.le_total a.1 b.1⟩
  have : IsTrans (String × α) fun a b => a.1 ≤ b.1 := ⟨fun _ _ _ => String.le_trans⟩
  have hle : (inOrder entries).Pairwise fun a b => a.1 ≤ b.1 := List.pairwise_insertionSort _ _
  have hne : ((inOrder entries).map (·.1)).Nodup := ((inOrder_perm entries).map _).symm.nodup h
  refine (hle.and (List.pairwise_map.mp hne)).imp fun {a b} hab => ?_
  rcases Std.lt_trichotomy a.1 b.1 with hlt | heq | hgt
  · exact hlt
  · exact absurd heq hab.2
  · exact absurd hgt (String.not_lt.mpr hab.1)

/-- To bind distinct keys one after the other puts them in order. -/
theorem insertAll_nil (h : (entries.map (·.1)).Nodup) : insertAll [] entries = inOrder entries :=
  (Sorted.nil.insertAll entries).eq_of_get? (sorted_inOrder h) fun key => by
    rw [get?_insertAll h, get?_nil, Option.or_none, get?_perm h (inOrder_perm entries).symm]

end Entries

namespace Json

mutual
/-- The value with the keys of every object in order. -/
def sortKeys : Json → Json
  | .arr items => .arr (sortItems items)
  | .obj members => .obj (Entries.inOrder (sortMembers members))
  | json => json

def sortItems : List Json → List Json
  | [] => []
  | item :: items => sortKeys item :: sortItems items

def sortMembers : Members → Members
  | [] => []
  | (key, value) :: members => (key, sortKeys value) :: sortMembers members
end

def sortMember (m : String × Json) : String × Json := (m.1, m.2.sortKeys)

theorem sortItems_eq_map (items : List Json) : sortItems items = items.map sortKeys := by
  induction items with
  | nil => rfl
  | cons item items ih => rw [sortItems, ih, List.map_cons]

theorem sortMembers_eq_map (members : Members) : sortMembers members = members.map sortMember := by
  induction members with
  | nil => rfl
  | cons m members ih => rw [sortMembers, ih, List.map_cons, sortMember]

theorem keys_sortMembers (members : Members) : (sortMembers members).map (·.1) = members.map (·.1) := by
  rw [sortMembers_eq_map, List.map_map]
  rfl

/-! ### Sorted keys are rearranged keys -/

/-- Items may be rearranged one after the other. -/
theorem Rearranged.arr {f : Json → Json} {items : List Json} (h : ∀ x ∈ items, x.Rearranged (f x))
    (before : List Json) : (Json.arr (before ++ items)).Rearranged (.arr (before ++ items.map f)) := by
  induction items generalizing before with
  | nil => exact .refl _
  | cons x items ih =>
    have hrest := ih (fun y hy => h y (by simp [hy])) (before ++ [f x])
    rw [List.append_assoc, List.append_assoc] at hrest
    exact (Rearranged.item before items (h x (by simp))).trans hrest

/-- The values of members may be rearranged one after the other. -/
theorem Rearranged.obj {f : Json → Json} {members : Members} (h : ∀ e ∈ members, e.2.Rearranged (f e.2))
    (before : Members) :
    (Json.obj (before ++ members)).Rearranged (.obj (before ++ members.map fun e => (e.1, f e.2))) := by
  induction members generalizing before with
  | nil => exact .refl _
  | cons e members ih =>
    have hrest := ih (fun y hy => h y (by simp [hy])) (before ++ [(e.1, f e.2)])
    rw [List.append_assoc, List.append_assoc] at hrest
    exact (Rearranged.member before members e.1 (h e (by simp))).trans hrest

theorem rearranged_sortKeys {json : Json} (h : json.Distinct) : json.Rearranged json.sortKeys := by
  induction json using partsInduction with
  | arr items ih =>
    rw [sortKeys, sortItems_eq_map]
    exact Rearranged.arr (fun x hx => ih x hx (h.item x hx)) []
  | obj members ih =>
    have distinct := h.nodup
    rw [← keys_sortMembers] at distinct
    rw [sortKeys]
    refine .trans ?_ (.perm distinct (Entries.inOrder_perm _).symm)
    rw [sortMembers_eq_map]
    exact Rearranged.obj (fun e he => ih e he (h.member e he)) []
  | _ => exact .refl _

/-- The keys of every object in the value are in order. -/
def InOrder (json : Json) : Prop := json.Throughout fun x => ∀ members, x = .obj members → Entries.Sorted members

theorem inOrder_sortKeys {json : Json} (h : json.Distinct) : json.sortKeys.InOrder := by
  induction json using partsInduction with
  | arr items ih =>
    rw [sortKeys, sortItems_eq_map]
    exact Throughout.arr nofun (List.forall_mem_map.mpr fun x hx => ih x hx (h.item x hx))
  | obj members ih =>
    rw [sortKeys]
    refine Throughout.obj ?_ fun e he => ?_
    · rintro _ ⟨⟩
      apply Entries.sorted_inOrder
      rw [keys_sortMembers]
      exact h.nodup
    · rw [(Entries.inOrder_perm _).mem_iff, sortMembers_eq_map] at he
      obtain ⟨m, hm, rfl⟩ := List.mem_map.mp he
      exact ih m hm (h.member m hm)
  | _ => exact Throughout.single nofun nofun nofun

end Json

/-! ## Numbers that are kept -/

/-- An integer that a signed 64-bit word holds, or a finite float. -/
def Number.Exact : Number → Prop
  | .integer n => isWord n = true
  | .float x => x.isFinite = true

instance : DecidablePred Number.Exact
  | .integer n => inferInstanceAs (Decidable (Number.isWord n = true))
  | .float x => inferInstanceAs (Decidable (x.isFinite = true))

/-- A value that is kept as it is: all its numbers are, and no object binds a key twice. -/
structure Json.Exact (json : Json) : Prop where
  numbers : json.Throughout fun x => ∀ n, x = .num n → n.Exact
  distinct : json.Distinct

namespace Json.Exact

variable {items : List Json} {members : Members}

theorem item (h : (Json.arr items).Exact) : ∀ x ∈ items, x.Exact :=
  fun x hx => ⟨h.numbers.item x hx, h.distinct.item x hx⟩

theorem member (h : (Json.obj members).Exact) : ∀ e ∈ members, e.2.Exact :=
  fun e he => ⟨h.numbers.member e he, h.distinct.member e he⟩

theorem num {n : Number} (h : n.Exact) : (Json.num n).Exact where
  numbers := .single (by simp) (by simp) fun _ he => (Json.num.inj he) ▸ h
  distinct := .single (by simp) (by simp) (by simp)

theorem arr (h : ∀ x ∈ items, x.Exact) : (Json.arr items).Exact where
  numbers := .arr nofun fun x hx => (h x hx).numbers
  distinct := .arr fun x hx => (h x hx).distinct

theorem obj (distinct : (members.map (·.1)).Nodup) (h : ∀ e ∈ members, e.2.Exact) : (Json.obj members).Exact where
  numbers := .obj nofun fun e he => (h e he).numbers
  distinct := .obj distinct fun e he => (h e he).distinct

end Json.Exact

namespace Value

theorem typeName_ofJson (json : Json) : (ofJson json).typeName = json.typeName := by
  cases json with
  | num n =>
    rw [ofJson, ofNumber, Json.typeName]
    cases n.toWord? <;> rfl
  | _ => rfl

theorem ofNumber_integer {i : Int} (h : (Number.integer i).Exact) : ofNumber (.integer i) = .int i := by
  have hword : (Number.integer i).toWord? = some i := if_pos h
  rw [ofNumber, hword]

/-! ## Writing values -/

section Writing

variable (store : Store)

theorem toJsonItems_eq_map (items : List Value) : toJsonItems store items = items.map (toJson store) := by
  induction items with
  | nil => rfl
  | cons item items ih => rw [toJsonItems, ih, List.map_cons]

theorem toJsonEntries_eq_map (entries : List (String × Value)) :
    toJsonEntries store entries = entries.map fun e => (e.1, e.2.toJson store) := by
  induction entries with
  | nil => rfl
  | cons e entries ih => rw [toJsonEntries, ih, List.map_cons]

/-- What is written for the value of a description is the description with its keys in order. -/
theorem toJson_ofJson {json : Json} (h : json.Exact) : (ofJson json).toJson store = json.sortKeys := by
  induction json using Json.partsInduction with
  | num n =>
    have hn := h.numbers.self n rfl
    cases n with
    | integer i =>
      rw [ofJson, ofNumber_integer hn]
      rfl
    | float x => exact if_pos hn
  | arr items ih =>
    simp only [ofJson, toJson, Json.sortKeys, Json.sortItems_eq_map, ofItems_eq_map, toJsonItems_eq_map, List.map_map]
    exact congrArg Json.arr (List.map_congr_left fun x hx => ih x hx (h.item x hx))
  | obj members ih =>
    have hmembers : (members.map binding).map (fun e => (e.1, e.2.toJson store)) = Json.sortMembers members := by
      rw [Json.sortMembers_eq_map, List.map_map]
      exact List.map_congr_left fun e he =>
        Prod.ext rfl (ih e he (h.member e he))
    have hmap := congrArg Dict.entries (Dict.map_insertAll (toJson store) Dict.empty (members.map binding))
    have distinct := h.distinct.nodup
    rw [← Json.keys_sortMembers] at distinct
    simp only [ofJson, toJson, Json.sortKeys, ofMembers_eq_map, toJsonEntries_eq_map]
    rw [← Entries.insertAll_nil distinct, ← hmembers]
    exact congrArg Json.obj hmap
  | _ => rfl

end Writing

/-! ## Comparing values -/

theorem equalItems_self {items : List Value} (h : ∀ x ∈ items, x.equal x = true) : equalItems items items = true := by
  induction items with
  | nil => rfl
  | cons x items ih => rw [equalItems, h x (by simp), ih fun y hy => h y (by simp [hy]), Bool.and_self]

theorem equalEntries_self {entries : List (String × Value)} (h : ∀ e ∈ entries, e.2.equal e.2 = true) :
    equalEntries entries entries = true := by
  induction entries with
  | nil => rfl
  | cons e entries ih =>
    rw [equalEntries, h e (by simp), ih fun e' he => h e' (by simp [he]), beq_self_eq_true, Bool.and_self, Bool.and_self]

/-- The value of a description is equal to itself, which not every value is. -/
theorem equal_ofJson {json : Json} (h : json.Exact) : (ofJson json).equal (ofJson json) = true := by
  induction json using Json.partsInduction with
  | num n =>
    have hn := h.numbers.self n rfl
    cases n with
    | integer i => rw [ofJson, ofNumber_integer hn, equal, beq_self_eq_true]
    | float x =>
      obtain ⟨a, ha⟩ := (Decimal.isFinite_iff x).mp hn
      exact (Decimal.beq_iff ha ha).mpr rfl
  | arr items ih =>
    rw [ofJson, equal, ofItems_eq_map]
    refine equalItems_self (List.forall_mem_map.mpr fun x hx => ?_)
    exact ih x hx (h.item x hx)
  | obj members ih =>
    rw [ofJson, equal, ofMembers_eq_map]
    refine equalEntries_self fun e he => ?_
    rcases Entries.mem_insertAll he with he | he
    · obtain ⟨m, hm, rfl⟩ := List.mem_map.mp he
      exact ih m hm (h.member m hm)
    · cases he
  | _ => simp [ofJson, equal]

/-- A description whose integers are words and whose floats are finite loses nothing when it is taken as it is. What is
written for its value is the description with its keys in order and nothing else changed, which has the same value
again; and at every position the value is of the kind that the description has there. -/
theorem ofJson_lossless {raw : Json} (h : raw.Exact) (store : Store) :
    (ofJson raw).toJson store = raw.sortKeys ∧ raw.Rearranged raw.sortKeys ∧ raw.sortKeys.InOrder ∧
    ofJson raw.sortKeys = ofJson raw ∧ (ofJson raw.sortKeys == ofJson raw) = true ∧
    ∀ path, ((ofJson raw).at? path).map typeName = (raw.at? path).map Json.typeName := by
  have hrearranged := Json.rearranged_sortKeys h.distinct
  refine ⟨toJson_ofJson store h, hrearranged, Json.inOrder_sortKeys h.distinct, hrearranged.ofJson, ?_, fun path => ?_⟩
  · rw [hrearranged.ofJson]
    exact equal_ofJson h
  · rw [at?_ofJson path h.distinct, Option.map_map]
    exact congrArg (Option.map · (raw.at? path)) (funext typeName_ofJson)

/-- Objects inside one another whose keys are out of order, and a list of an integer and a float of the same size. -/
def nestedDescription : Json :=
  .obj [("z", .arr [.num (.integer 1), .num (.float 1), .obj []]), ("a", .obj [("d", .arr []), ("c", .arr [])])]

theorem exact_nestedDescription : nestedDescription.Exact := by
  refine .obj (by decide) (List.forall_mem_cons.mpr ⟨.arr ?_, List.forall_mem_singleton.mpr (.obj (by decide) ?_)⟩)
  · have hone : (Json.num (.integer 1)).Exact := .num (by decide)
    have hfloat : (Json.num (.float 1)).Exact := .num (by decide +kernel)
    simpa using ⟨hone, hfloat, Json.Exact.obj List.nodup_nil nofun⟩
  · have hempty : (Json.arr []).Exact := .arr nofun
    simpa using hempty

theorem ofJson_lossless_nested :
    nestedDescription.Exact ∧ (ofJson nestedDescription).toJson .empty = nestedDescription.sortKeys ∧
    nestedDescription.sortKeys = .obj [("a", .obj [("c", .arr []), ("d", .arr [])]),
      ("z", .arr [.num (.integer 1), .num (.float 1), .obj []])] ∧
    ((ofJson nestedDescription).at? [.member "z", .item 1]).map typeName = some "Float" := by
  obtain ⟨hwritten, -, -, -, -, hkinds⟩ := ofJson_lossless exact_nestedDescription .empty
  exact ⟨exact_nestedDescription, hwritten, rfl, hkinds [.member "z", .item 1]⟩

end Value
end Blueprint
