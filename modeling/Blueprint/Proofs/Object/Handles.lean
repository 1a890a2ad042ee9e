import Blueprint.Plugin.Basic

/-!
# Handles in objects

The handles that occur at any depth in a value, in arguments and in an object. A description taken as it is holds none.
What the typed accessors give for a constructor was in its arguments.
-/

namespace Blueprint

/-! ## Values -/

namespace Value

mutual
def held : Value → List Handle
  | .list items => itemsHeld items
  | .map entries => entriesHeld entries
  | .object h => [h]
  | _ => []

def itemsHeld : List Value → List Handle
  | [] => []
  | item :: items => item.held ++ itemsHeld items

def entriesHeld : List (String × Value) → List Handle
  | [] => []
  | (_, value) :: entries => value.held ++ entriesHeld entries
end

theorem mem_itemsHeld {items : List Value} {h : Handle} :
    h ∈ itemsHeld items ↔ ∃ item ∈ items, h ∈ item.held := by
  induction items with
  | nil => simp [itemsHeld]
  | cons item items ih => simp [itemsHeld, ih]

theorem mem_entriesHeld {entries : List (String × Value)} {h : Handle} :
    h ∈ entriesHeld entries ↔ ∃ e ∈ entries, h ∈ e.2.held := by
  induction entries with
  | nil => simp [entriesHeld]
  | cons e entries ih => simp [entriesHeld, ih]

theorem mem_held_list {items : List Value} {h : Handle} :
    h ∈ (Value.list items).held ↔ ∃ item ∈ items, h ∈ item.held := by
  rw [held, mem_itemsHeld]

theorem mem_held_objects {hs : List Handle} {h : Handle} : h ∈ (Value.list (hs.map .object)).held ↔ h ∈ hs := by
  rw [mem_held_list]
  constructor
  · rintro ⟨item, hitem, hh⟩
    obtain ⟨x, hx, rfl⟩ := List.mem_map.mp hitem
    obtain rfl : h = x := by simpa [held] using hh
    exact hx
  · intro hh
    exact ⟨.object h, List.mem_map.mpr ⟨h, hh, rfl⟩, by simp [held]⟩

theorem eq_list {value : Value} {items : List Value} (hv : value.list? = some items) : value = .list items := by
  cases value <;> simp_all [list?]

theorem object?_eq_some {value : Value} {h : Handle} (hv : value.object? = some h) : h ∈ value.held := by
  cases value <;> simp_all [object?, held]

mutual
theorem held_ofJson : (raw : Json) → (ofJson raw).held = []
  | .null | .bool _ | .str _ => rfl
  | .num n => by
    simp only [ofJson, ofNumber]
    split <;> rfl
  | .arr items => by
    rw [ofJson, held]
    exact held_ofItems items
  | .obj members => by
    rw [ofJson, held, List.eq_nil_iff_forall_not_mem]
    intro h hh
    obtain ⟨e, he, hh⟩ := mem_entriesHeld.mp hh
    rcases Entries.mem_insertAll he with he | he
    · simp [held_ofMembers members e he] at hh
    · simp at he

theorem held_ofItems : (items : List Json) → itemsHeld (ofItems items) = []
  | [] => rfl
  | item :: items => by rw [ofItems, itemsHeld, held_ofJson item, held_ofItems items, List.append_nil]

theorem held_ofMembers : (members : Members) → ∀ e ∈ ofMembers members, e.2.held = []
  | [], e, he => by simp [ofMembers] at he
  | (key, raw) :: members, e, he => by
    rcases List.mem_cons.mp he with rfl | he
    · exact held_ofJson raw
    · exact held_ofMembers members e he
end

end Value

/-! ## Arguments -/

theorem of_bind_ok {ε α β : Type} {x : Except ε α} {f : α → Except ε β} {b : β} (h : x >>= f = .ok b) :
    ∃ a, x = .ok a ∧ f a = .ok b := by
  cases x with
  | error e => cases h
  | ok a => exact ⟨a, rfl, h⟩

namespace Arguments

def held (args : Arguments) : List Handle := Value.entriesHeld args.entries

@[simp] theorem held_empty : held Dict.empty = [] := rfl

variable {args : Arguments} {key : String} {h : Handle}

theorem mem_held : h ∈ args.held ↔ ∃ key value, args.get? key = some value ∧ h ∈ value.held := by
  rw [held, Value.mem_entriesHeld]
  constructor
  · rintro ⟨⟨key, value⟩, he, hh⟩
    exact ⟨key, value, (Dict.mem_entries_iff args key value).mp he, hh⟩
  · rintro ⟨key, value, he, hh⟩
    exact ⟨(key, value), (Dict.mem_entries_iff args key value).mpr he, hh⟩

theorem held_erase (hh : h ∈ held (args.erase key)) : h ∈ args.held := by
  obtain ⟨k, value, hk, hh⟩ := mem_held.mp hh
  rw [Dict.get?_erase] at hk
  split at hk
  · cases hk
  · exact mem_held.mpr ⟨k, value, hk, hh⟩

theorem held_insert {value : Value} (hh : h ∈ held (args.insert key value)) :
    h ∈ value.held ∨ h ∈ args.held := by
  obtain ⟨k, v, hk, hh⟩ := mem_held.mp hh
  rw [Dict.get?_insert] at hk
  split at hk
  · cases hk
    exact .inl hh
  · exact .inr (mem_held.mpr ⟨k, v, hk, hh⟩)

theorem held_rename {target : String} (hh : h ∈ (args.rename key target).held) : h ∈ args.held := by
  simp only [rename] at hh
  split at hh
  · next value hv =>
    rcases held_insert hh with hh | hh
    · exact mem_held.mpr ⟨key, value, hv, hh⟩
    · exact held_erase hh
  · exact hh

theorem typed_eq_ok {α : Type} {expected : String} {view : Value → Option α} {a : α}
    (h : args.typed expected view key = .ok a) : ∃ value, args.get? key = some value ∧ view value = some a := by
  obtain ⟨value, hv, h⟩ := of_bind_ok h
  have hkey : args.get? key = some value := by
    simp only [required] at hv
    split at hv
    · next hkey =>
      cases hv
      exact hkey
    · cases hv
  refine ⟨value, hkey, ?_⟩
  split at h
  · next ha =>
    cases h
    exact ha
  · cases h

theorem object_mem (hk : args.object key = .ok h) : h ∈ args.held := by
  obtain ⟨value, hv, ho⟩ := typed_eq_ok hk
  exact mem_held.mpr ⟨key, value, hv, Value.object?_eq_some ho⟩

theorem mem_of_handles {items : List Value} {hs : List Handle} (hk : handles key items = .ok hs) (hh : h ∈ hs) :
    ∃ item ∈ items, item.object? = some h := by
  induction items generalizing hs with
  | nil => cases hk; cases hh
  | cons item items ih =>
    simp only [handles] at hk
    cases ho : item.object? with
    | none => simp [ho] at hk
    | some h' =>
      cases hrest : handles key items with
      | error e => simp [ho, hrest, Except.map] at hk
      | ok rest =>
        obtain rfl : h' :: rest = hs := by simpa [ho, hrest, Except.map] using hk
        rcases List.mem_cons.mp hh with rfl | hh
        · exact ⟨item, by simp, ho⟩
        · obtain ⟨x, hx, ho⟩ := ih hrest hh
          exact ⟨x, by simp [hx], ho⟩

theorem objects_mem {hs : List Handle} (hk : args.objects key = .ok hs) (hh : h ∈ hs) : h ∈ args.held := by
  obtain ⟨items, hitems, hk⟩ := of_bind_ok hk
  obtain ⟨value, hv, hlist⟩ := typed_eq_ok hitems
  obtain rfl := Value.eq_list hlist
  obtain ⟨item, hitem, ho⟩ := mem_of_handles hk hh
  exact mem_held.mpr ⟨key, _, hv, Value.mem_held_list.mpr ⟨item, hitem, Value.object?_eq_some ho⟩⟩

end Arguments

/-! ## Objects -/

/-- The handles in what a constructor made. -/
def Payload.held : Payload → List Handle
  | .arguments args => args.held
  | .interval i => [i.quantity]
  | .combination c => c.volumes
  | .transitions t => t.initial ++ t.final
  | .none | .toyEngine _ | .coordinate _ | .distance _ => []

namespace Object

/-- The handles in an object: in what it was made of, and in its attributes. -/
def held (o : Object) : List Handle := o.payload.held ++ Arguments.held o.attributes

theorem mem_held_setAttribute {o : Object} {key : String} {value : Value} {h : Handle}
    (hh : h ∈ (o.setAttribute key value).held) : h ∈ value.held ∨ h ∈ o.held := by
  rcases List.mem_append.mp hh with hh | hh
  · exact .inr (List.mem_append_left _ hh)
  · exact (Arguments.held_insert hh).imp_right (List.mem_append_right _)

end Object
end Blueprint
