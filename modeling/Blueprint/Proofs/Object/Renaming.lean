import Blueprint.Proofs.Object.Handles
import Blueprint.Registry.Basic

/-!
# Renaming handles

Values, arguments, objects, categories and stores with every handle in them replaced by its image under a function. What
holds no handle that is moved stays as it is, and the typed accessors see nothing but the other handles.
-/

namespace Blueprint

open Function (Injective)

variable {ρ : Handle → Handle}

/-! ## Values -/

namespace Value

mutual
/-- The value with every handle in it renamed. -/
def mapHandles (ρ : Handle → Handle) : Value → Value
  | .list items => .list (mapItems ρ items)
  | .map entries => .map (mapEntries ρ entries)
  | .object h => .object (ρ h)
  | value => value

def mapItems (ρ : Handle → Handle) : List Value → List Value
  | [] => []
  | item :: items => item.mapHandles ρ :: mapItems ρ items

def mapEntries (ρ : Handle → Handle) : List (String × Value) → List (String × Value)
  | [] => []
  | (key, value) :: entries => (key, value.mapHandles ρ) :: mapEntries ρ entries
end

theorem mapItems_eq_map (items : List Value) : mapItems ρ items = items.map (mapHandles ρ) := by
  induction items with
  | nil => rfl
  | cons item items ih => rw [mapItems, ih, List.map_cons]

theorem mapEntries_eq_map (entries : List (String × Value)) :
    mapEntries ρ entries = entries.map fun e => (e.1, e.2.mapHandles ρ) := by
  induction entries with
  | nil => rfl
  | cons e entries ih => rw [mapEntries, ih, List.map_cons]

theorem mapHandles_list (items : List Value) : (Value.list items).mapHandles ρ = .list (items.map (mapHandles ρ)) := by
  rw [mapHandles, mapItems_eq_map]

mutual
theorem held_mapHandles : (value : Value) → (value.mapHandles ρ).held = value.held.map ρ
  | .list items => by
    rw [mapHandles, held, held]
    exact itemsHeld_mapItems items
  | .map entries => by
    rw [mapHandles, held, held]
    exact entriesHeld_mapEntries entries
  | .object h => rfl
  | .null | .bool _ | .int _ | .float _ | .text _ => rfl

theorem itemsHeld_mapItems : (items : List Value) → itemsHeld (mapItems ρ items) = (itemsHeld items).map ρ
  | [] => rfl
  | item :: items => by
    rw [mapItems, itemsHeld, itemsHeld, held_mapHandles item, itemsHeld_mapItems items, List.map_append]

theorem entriesHeld_mapEntries : (entries : List (String × Value)) →
    entriesHeld (mapEntries ρ entries) = (entriesHeld entries).map ρ
  | [] => rfl
  | (key, value) :: entries => by
    rw [mapEntries, entriesHeld, entriesHeld, held_mapHandles value, entriesHeld_mapEntries entries, List.map_append]
end

mutual
theorem mapHandles_eq_self : (value : Value) → (∀ h ∈ value.held, ρ h = h) → value.mapHandles ρ = value
  | .list items, h => by
    rw [mapHandles, mapItems_eq_self items h]
  | .map entries, h => by
    rw [mapHandles, mapEntries_eq_self entries h]
  | .object x, h => by
    rw [mapHandles, h x (by simp [held])]
  | .null, _ | .bool _, _ | .int _, _ | .float _, _ | .text _, _ => rfl

theorem mapItems_eq_self : (items : List Value) → (∀ h ∈ itemsHeld items, ρ h = h) → mapItems ρ items = items
  | [], _ => rfl
  | item :: items, h => by
    simp only [itemsHeld, List.mem_append] at h
    rw [mapItems, mapHandles_eq_self item fun x hx => h x (.inl hx), mapItems_eq_self items fun x hx => h x (.inr hx)]

theorem mapEntries_eq_self : (entries : List (String × Value)) → (∀ h ∈ entriesHeld entries, ρ h = h) →
    mapEntries ρ entries = entries
  | [], _ => rfl
  | (key, value) :: entries, h => by
    simp only [entriesHeld, List.mem_append] at h
    rw [mapEntries, mapHandles_eq_self value fun x hx => h x (.inl hx),
      mapEntries_eq_self entries fun x hx => h x (.inr hx)]
end

theorem typeName_mapHandles (value : Value) : (value.mapHandles ρ).typeName = value.typeName := by
  cases value <;> rfl

theorem mapHandles_ofJson (raw : Json) : (ofJson raw).mapHandles ρ = ofJson raw :=
  mapHandles_eq_self _ fun h hh => by simp [held_ofJson] at hh

end Value

/-! ## Arguments -/

namespace Arguments

def mapHandles (ρ : Handle → Handle) (args : Arguments) : Arguments := Dict.map (Value.mapHandles ρ) args

variable {args : Arguments} {key : String}

theorem held_mapHandles (args : Arguments) : (args.mapHandles ρ).held = args.held.map ρ := by
  rw [held, held, ← Value.entriesHeld_mapEntries, Value.mapEntries_eq_map]
  rfl

theorem mapHandles_eq_self (h : ∀ x ∈ args.held, ρ x = x) : args.mapHandles ρ = args := by
  refine Dict.ext ?_
  rw [← Value.mapEntries_eq_self args.entries h, Value.mapEntries_eq_map]
  rfl

/-- What an accessor sees of a renamed argument is the renamed view of it. -/
theorem typed_mapHandles {α : Type} {view : Value → Option α} {f : α → α}
    (hview : ∀ v : Value, view (v.mapHandles ρ) = (view v).map f) (expected : String) (args : Arguments)
    (key : String) :
    (args.mapHandles ρ).typed expected view key = (args.typed expected view key).map f := by
  have hget : (args.mapHandles ρ).get? key = (args.get? key).map (Value.mapHandles ρ) := Dict.get?_map _ args key
  simp only [typed, required, hget]
  cases args.get? key with
  | none => rfl
  | some v =>
    simp only [Option.map_some, bind, Except.bind, hview, Value.typeName_mapHandles]
    cases view v <;> rfl

theorem typed_scalar {α : Type} {view : Value → Option α} (hview : ∀ v : Value, view (v.mapHandles ρ) = view v)
    (expected : String) (args : Arguments) (key : String) :
    (args.mapHandles ρ).typed expected view key = args.typed expected view key := by
  rw [typed_mapHandles (f := id) (by simpa using hview)]
  cases args.typed expected view key <;> rfl

theorem text_mapHandles : (args.mapHandles ρ).text key = args.text key :=
  typed_scalar (fun v => by cases v <;> rfl) _ args key

theorem int_mapHandles : (args.mapHandles ρ).int key = args.int key :=
  typed_scalar (fun v => by cases v <;> rfl) _ args key

theorem float_mapHandles : (args.mapHandles ρ).float key = args.float key :=
  typed_scalar (fun v => by cases v <;> rfl) _ args key

theorem object_mapHandles : (args.mapHandles ρ).object key = (args.object key).map ρ :=
  typed_mapHandles (fun v => by cases v <;> rfl) _ args key

theorem list_mapHandles : (args.mapHandles ρ).list key = (args.list key).map (List.map (Value.mapHandles ρ)) :=
  typed_mapHandles (fun v => by cases v <;> simp [Value.list?, Value.mapHandles, Value.mapItems_eq_map]) _ args key

theorem handles_mapHandles (items : List Value) :
    handles key (items.map (Value.mapHandles ρ)) = (handles key items).map (List.map ρ) := by
  induction items with
  | nil => rfl
  | cons item items ih =>
    have hitem : (item.mapHandles ρ).object? = item.object?.map ρ := by cases item <;> rfl
    simp only [List.map_cons, handles, hitem, ih, Value.typeName_mapHandles]
    cases item.object? with
    | none => rfl
    | some h => cases handles key items <;> rfl

theorem objects_mapHandles : (args.mapHandles ρ).objects key = (args.objects key).map (List.map ρ) := by
  simp only [objects, list_mapHandles]
  cases args.list key with
  | error e => rfl
  | ok items => exact handles_mapHandles items

theorem mapHandles_rename (args : Arguments) (key target : String) :
    (args.rename key target).mapHandles ρ = (args.mapHandles ρ).rename key target := by
  have hget : (args.mapHandles ρ).get? key = (args.get? key).map (Value.mapHandles ρ) := Dict.get?_map _ args key
  simp only [rename, hget]
  cases args.get? key with
  | none => rfl
  | some v => simp only [Option.map_some, mapHandles, Dict.map_insert, Dict.map_erase]

end Arguments

/-! ## Objects and categories -/

def Payload.mapHandles (ρ : Handle → Handle) : Payload → Payload
  | .arguments args => .arguments (args.mapHandles ρ)
  | .interval i => .interval { i with quantity := ρ i.quantity }
  | .combination c => .combination { c with volumes := c.volumes.map ρ }
  | .transitions t => .transitions ⟨t.initial.map ρ, t.final.map ρ⟩
  | payload => payload

theorem Payload.held_mapHandles (payload : Payload) : (payload.mapHandles ρ).held = payload.held.map ρ := by
  cases payload with
  | arguments args => exact args.held_mapHandles
  | transitions t => simp [mapHandles, held]
  | _ => rfl

theorem Payload.mapHandles_eq_self {payload : Payload} (h : ∀ x ∈ payload.held, ρ x = x) :
    payload.mapHandles ρ = payload := by
  have hmap (hs : List Handle) (h : ∀ x ∈ hs, ρ x = x) : hs.map ρ = hs :=
    (List.map_congr_left h).trans (List.map_id hs)
  cases payload with
  | arguments args => rw [mapHandles, Arguments.mapHandles_eq_self h]
  | interval i => rw [mapHandles, h i.quantity (by simp [held])]
  | combination c => rw [mapHandles, hmap c.volumes h]
  | transitions t =>
    simp only [held, List.mem_append] at h
    rw [mapHandles, hmap t.initial fun x hx => h x (.inl hx), hmap t.final fun x hx => h x (.inr hx)]
  | _ => rfl

namespace Object

def mapHandles (ρ : Handle → Handle) (o : Object) : Object :=
  { o with payload := o.payload.mapHandles ρ, attributes := Arguments.mapHandles ρ o.attributes }

variable {o : Object}

theorem held_mapHandles (o : Object) : (o.mapHandles ρ).held = o.held.map ρ := by
  simp only [held, mapHandles, Payload.held_mapHandles, Arguments.held_mapHandles, List.map_append]

theorem mapHandles_eq_self (h : ∀ x ∈ o.held, ρ x = x) : o.mapHandles ρ = o := by
  simp only [held, List.mem_append] at h
  rw [mapHandles, Payload.mapHandles_eq_self fun x hx => h x (.inl hx),
    Arguments.mapHandles_eq_self fun x hx => h x (.inr hx)]

/-- What stays as it is holds only handles that are not moved. -/
theorem fixed_of_mapHandles_eq_self (h : o.mapHandles ρ = o) {x : Handle} (hx : x ∈ o.held) : ρ x = x := by
  have hheld : o.held.map ρ = o.held.map id := by rw [← held_mapHandles, h, List.map_id]
  exact List.map_inj_left.mp hheld x hx

theorem mapHandles_setAttribute (o : Object) (key : String) (value : Value) :
    (o.setAttribute key value).mapHandles ρ = (o.mapHandles ρ).setAttribute key (value.mapHandles ρ) := by
  simp only [mapHandles, setAttribute, Arguments.mapHandles, Dict.map_insert]

end Object

def Category.mapHandles (ρ : Handle → Handle) (c : Category) : Category :=
  { c with named := c.named.map ρ, objects := c.objects.map ρ }

/-! ## Stores -/

/-- Every object is stored under its renamed handle. -/
def Store.Renamed (ρ : Handle → Handle) (s s' : Store) : Prop :=
  ∀ h, s'.get? (ρ h) = (s.get? h).map (Object.mapHandles ρ)

namespace Store

variable {ρ : Handle → Handle} {s s' : Store}

theorem get?_eq_none {h : Handle} : s.get? h = none ↔ s.objects.length ≤ h.index := List.getElem?_eq_none_iff

theorem get?_push (s : Store) (o : Object) (h : Handle) :
    (s.push o).get? h = if h = s.next then some o else s.get? h := by
  split
  · next he => rw [he, get?_push_next]
  · next he =>
    have hindex : h.index ≠ s.objects.length := fun hi => he (congrArg Handle.mk hi)
    simp only [get?, push, List.getElem?_append]
    split
    · rfl
    · rw [List.getElem?_eq_none (l := [o]) (by simp only [List.length_singleton]; omega),
        List.getElem?_eq_none (by omega)]

theorem Renamed.display (h : Renamed ρ s s') (x : Handle) : s'.display (ρ x) = s.display x := by
  simp only [Store.display, h x, Option.map_map]
  rfl

theorem Renamed.push (hρ : Injective ρ) (h : Renamed ρ s s') (hnext : ρ s.next = s'.next) (o : Object) :
    Renamed ρ (s.push o) (s'.push (o.mapHandles ρ)) := by
  intro x
  rw [get?_push, get?_push, ← hnext, h x]
  by_cases hx : x = s.next
  · rw [if_pos (congrArg ρ hx), if_pos hx]
    rfl
  · rw [if_neg fun he => hx (hρ he), if_neg hx]

/-- Every handle in a stored object is the handle of a stored object. -/
def Closed (s : Store) : Prop := ∀ h o, s.get? h = some o → ∀ x ∈ o.held, x.index < s.objects.length

/-- If only handles without object are moved, and to handles without object, the store stays as it is. -/
theorem Closed.renamed (h : s.Closed) (hfix : ∀ x, x.index < s.objects.length → ρ x = x)
    (hfree : ∀ x, s.objects.length ≤ x.index → s'.get? (ρ x) = none)
    (hs : ∀ x, x.index < s.objects.length → s'.get? x = s.get? x) : Renamed ρ s s' := by
  intro x
  rcases Nat.lt_or_ge x.index s.objects.length with hx | hx
  · rw [hfix x hx, hs x hx]
    cases ho : s.get? x with
    | none => rfl
    | some o => rw [Option.map_some, Object.mapHandles_eq_self fun y hy => hfix y (h x o ho y hy)]
  · rw [hfree x hx, get?_eq_none.mpr hx]
    rfl

end Store

/-! ## Moving handles up -/

/-- Leaves the handles below `n` alone and moves the others up by `k`. -/
def Handle.raise (n k : Nat) (h : Handle) : Handle := if h.index < n then h else ⟨h.index + k⟩

namespace Handle

variable {n k : Nat} {h : Handle}

theorem raise_of_lt (hn : h.index < n) : raise n k h = h := if_pos hn

theorem raise_of_le (hn : n ≤ h.index) : raise n k h = ⟨h.index + k⟩ := if_neg (Nat.not_lt.mpr hn)

theorem raise_injective (n k : Nat) : Injective (raise n k) := by
  intro x y hxy
  simp only [raise] at hxy
  obtain ⟨i⟩ := x
  obtain ⟨j⟩ := y
  split at hxy <;> split at hxy <;> simp_all <;> omega

end Handle

end Blueprint
