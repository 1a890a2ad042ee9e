import Blueprint.Dict.Entries

/-!
# Dictionaries in key order

A `Dict` binds strings to values and lists its bindings in the order of the keys. The order is part of the type, so two
dictionaries with the same bindings are equal (`Dict.ext_get?`). Each operation is described by one lemma on `get?`.
-/

namespace Blueprint

universe u v

/-- Bindings of strings to values, in key order. -/
@[ext] structure Dict (α : Type u) where
  entries : List (String × α)
  sorted : Entries.Sorted entries

namespace Dict

variable {α : Type u} {β : Type v}

def empty : Dict α := ⟨[], .nil⟩

instance : Inhabited (Dict α) := ⟨empty⟩

def get? (d : Dict α) (key : String) : Option α := Entries.get? key d.entries

def contains (d : Dict α) (key : String) : Bool := (d.get? key).isSome

/-- Binds a key, in place of any earlier binding. -/
def insert (d : Dict α) (key : String) (value : α) : Dict α :=
  ⟨Entries.insert key value d.entries, d.sorted.insert key value⟩

def erase (d : Dict α) (key : String) : Dict α := ⟨Entries.erase key d.entries, d.sorted.erase key⟩

/-- Binds keys one after the other; the last binding of a key stays. -/
def insertAll (d : Dict α) (new : List (String × α)) : Dict α :=
  ⟨Entries.insertAll d.entries new, d.sorted.insertAll new⟩

/-- The dictionary of a list of bindings; the last binding of a key stays. -/
def ofList (bindings : List (String × α)) : Dict α := empty.insertAll bindings

def keys (d : Dict α) : List String := d.entries.map (·.1)

/-- The bound values, in the order of their keys. -/
def values (d : Dict α) : List α := d.entries.map (·.2)

def size (d : Dict α) : Nat := d.entries.length

def map (f : α → β) (d : Dict α) : Dict β where
  entries := d.entries.map fun e => (e.1, f e.2)
  sorted := by
    have h := d.sorted
    unfold Entries.Sorted at h ⊢
    rwa [List.pairwise_map]

theorem ext_get? {a b : Dict α} (h : ∀ key, a.get? key = b.get? key) : a = b :=
  Dict.ext (a.sorted.eq_of_get? b.sorted h)

@[simp] theorem get?_empty (key : String) : (empty : Dict α).get? key = none := rfl

theorem get?_insert (d : Dict α) (key : String) (value : α) (k : String) :
    (d.insert key value).get? k = if key = k then some value else d.get? k :=
  Entries.get?_insert key value d.entries k

@[simp] theorem get?_insert_self (d : Dict α) (key : String) (value : α) :
    (d.insert key value).get? key = some value := by
  simp [get?_insert]

/-- A binding is one of the new ones or was there before. -/
theorem get?_insertAll_cases {d : Dict α} {new : List (String × α)} {key : String} {value : α}
    (h : (d.insertAll new).get? key = some value) : (key, value) ∈ new ∨ d.get? key = some value :=
  Entries.get?_insertAll_cases h

theorem get?_insertAll_of_not_mem {d : Dict α} {new : List (String × α)} {key : String} (h : ∀ e ∈ new, e.1 ≠ key) :
    (d.insertAll new).get? key = d.get? key :=
  Entries.get?_insertAll_of_not_mem h

theorem get?_erase (d : Dict α) (key k : String) : (d.erase key).get? k = if key = k then none else d.get? k :=
  Entries.get?_erase key d.entries k

theorem get?_map (f : α → β) (d : Dict α) (k : String) : (d.map f).get? k = (d.get? k).map f :=
  Entries.get?_map f d.entries k

theorem mem_entries_iff (d : Dict α) (key : String) (value : α) :
    (key, value) ∈ d.entries ↔ d.get? key = some value :=
  ⟨fun h => d.sorted.get?_eq_some h, Entries.mem_of_get?⟩

theorem mem_keys_iff (d : Dict α) (key : String) : key ∈ d.keys ↔ (d.get? key).isSome := by
  rw [Option.isSome_iff_exists]
  constructor
  · intro h
    obtain ⟨e, he, rfl⟩ := List.mem_map.mp h
    exact ⟨e.2, (d.mem_entries_iff e.1 e.2).mp he⟩
  · rintro ⟨v, hv⟩
    exact List.mem_map.mpr ⟨(key, v), (d.mem_entries_iff key v).mpr hv, rfl⟩

theorem contains_eq (d : Dict α) (key : String) : d.contains key = (d.get? key).isSome := rfl

theorem contains_insert (d : Dict α) (key : String) (value : α) (k : String) :
    (d.insert key value).contains k = (decide (key = k) || d.contains k) := by
  rw [contains_eq, get?_insert, contains_eq]
  split <;> simp_all

theorem contains_insertAll_iff (d : Dict α) (new : List (String × α)) (key : String) :
    (d.insertAll new).contains key = true ↔ key ∈ new.map (·.1) ∨ d.contains key = true := by
  induction new generalizing d with
  | nil => simp [insertAll, Entries.insertAll]
  | cons e new ih =>
    have hcons : d.insertAll (e :: new) = (d.insert e.1 e.2).insertAll new := rfl
    rw [hcons, ih, contains_insert]
    grind

/-- Bindings of distinct keys may be added in any order. -/
theorem insertAll_perm {new new' : List (String × α)} (distinct : (new.map (·.1)).Nodup) (h : new.Perm new')
    (d : Dict α) : d.insertAll new' = d.insertAll new := by
  refine ext_get? fun key => ?_
  have hget := Entries.get?_perm distinct h key
  simp only [get?, insertAll]
  rw [Entries.get?_insertAll distinct, Entries.get?_insertAll ((h.map _).nodup distinct), hget]

theorem map_insert (f : α → β) (d : Dict α) (key : String) (value : α) :
    (d.insert key value).map f = (d.map f).insert key (f value) := by
  refine ext_get? fun k => ?_
  simp only [get?_map, get?_insert]
  split <;> rfl

theorem map_erase (f : α → β) (d : Dict α) (key : String) : (d.erase key).map f = (d.map f).erase key := by
  refine ext_get? fun k => ?_
  simp only [get?_map, get?_erase]
  split <;> rfl

theorem map_insertAll (f : α → β) (d : Dict α) (new : List (String × α)) :
    (d.insertAll new).map f = (d.map f).insertAll (new.map fun e => (e.1, f e.2)) := by
  induction new generalizing d with
  | nil => rfl
  | cons e new ih =>
    refine (ih (d.insert e.1 e.2)).trans ?_
    rw [map_insert]
    rfl

end Dict
end Blueprint
