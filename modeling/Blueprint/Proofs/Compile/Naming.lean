import Blueprint.Proofs.Compile.Postorder
import Mathlib.Data.List.Nodup

/-!
# Names in place of mappings

`Mapping.named?` puts a name in place of the first mapping inside a description, wherever a loader finds it: as a value,
as an item of a list, or as a single value where a list may stand. The references of the new description are those of
the old one, with the name in place of the mapping (`Parameter.references_named?`).
-/

namespace Blueprint

variable {α β γ : Type}

/-! ## The first mapping inside a description -/

/-- A description inside another one, if it is a mapping. -/
def Mapping.ofPart? (part : String × Json) : Option Mapping := part.2.members?.map (Mapping.mk part.1)

/-- The first mapping inside a mapping, in load order. -/
def Mapping.inline? (c : Catalogue) (d : Mapping) : Option Mapping := (d.references c).findSome? Mapping.ofPart?

/-- A list with the first item that can be replaced replaced. -/
def replaceFirst? (f : α → Option α) : List α → Option (List α)
  | [] => none
  | x :: xs =>
    match f x with
    | some y => some (y :: xs)
    | none => (replaceFirst? f xs).map (x :: ·)

def Json.named? (name : String) : Json → Option Json
  | .obj _ => some (.str name)
  | _ => none

/-- Replaces the first item of a list, or a single value. -/
def Json.replaceIn? (f : Json → Option Json) : Json → Option Json
  | .arr items => (replaceFirst? f items).map .arr
  | single => f single

/-- A name in place of the first mapping that a loader hands to the compiler. -/
def Loader.named? (name : String) : Loader → Json → Option Json
  | .read _, _ => none
  | .category _, raw => raw.replaceIn? (Json.named? name)
  | .listOf item, raw => raw.replaceIn? fun x => item.named? name x

/-- The value of a parameter with a name in place of the first mapping in it. -/
def Parameter.named? (name : String) (input : Members) (q : Parameter) : Option (String × Json) :=
  ((Entries.get? q.name input).bind (q.loader.named? name)).map fun raw => (q.name, raw)

theorem Parameter.named?_eq_some {name : String} {input : Members} {q : Parameter} {key : String} {raw' : Json} :
    q.named? name input = some (key, raw') ↔
      q.name = key ∧ ∃ raw, Entries.get? q.name input = some raw ∧ q.loader.named? name raw = some raw' := by
  simp only [named?, Option.map_eq_some_iff, Option.bind_eq_some_iff, Prod.mk.injEq]
  grind

/-- The members of a mapping with a name in place of the first mapping inside it. -/
def Mapping.named? (c : Catalogue) (name : String) (d : Mapping) : Option Members :=
  ((d.plugin? c).bind fun p =>
    (p.requiredParameters ++ p.optionalParameters).findSome? (Parameter.named? name d.input)).map fun m =>
      Entries.set m.1 m.2 d.members

theorem isSome_replaceFirst? (f : α → Option α) (xs : List α) :
    (replaceFirst? f xs).isSome = xs.any fun x => (f x).isSome := by
  induction xs with
  | nil => rfl
  | cons x xs ih =>
    rw [replaceFirst?, List.any_cons]
    cases f x <;> simp [ih]

theorem findSome?_flatMap (f : β → Option γ) (g : α → List β) (xs : List α) :
    (xs.flatMap g).findSome? f = xs.findSome? fun x => (g x).findSome? f := by
  induction xs with
  | nil => rfl
  | cons x xs ih => rw [List.flatMap_cons, List.findSome?_append, List.findSome?_cons, ih]; cases (g x).findSome? f <;> rfl

theorem Json.isSome_replaceIn? (f : Json → Option Json) (raw : Json) :
    (raw.replaceIn? f).isSome = raw.itemsOrSelf.any fun x => (f x).isSome := by
  cases raw <;> simp [replaceIn?, itemsOrSelf, isSome_replaceFirst?]

/-- There is a mapping to replace exactly if there is one among the references. -/
theorem Loader.isSome_named? (c : Catalogue) (name : String) (l : Loader) (raw : Json) :
    (l.named? name raw).isSome = ((l.references c raw).findSome? Mapping.ofPart?).isSome := by
  induction l generalizing raw with
  | read reader => rfl
  | category category =>
    rw [named?, Json.isSome_replaceIn?, references, List.isSome_findSome?, List.any_map]
    refine congrArg (List.any _) (funext fun x => ?_)
    cases x <;> rfl
  | listOf item ih =>
    rw [named?, Json.isSome_replaceIn?, references, findSome?_flatMap, List.isSome_findSome?]
    simp only [ih]

theorem Parameter.isSome_named? (c : Catalogue) (name : String) (input : Members) (q : Parameter) :
    (q.named? name input).isSome = ((q.references c input).findSome? Mapping.ofPart?).isSome := by
  rw [named?, references, Option.isSome_map]
  cases Entries.get? q.name input with
  | none => rfl
  | some raw => exact q.loader.isSome_named? c name raw

theorem Parameter.isSome_findSome?_named? (c : Catalogue) (name : String) (input : Members) (qs : List Parameter) :
    (qs.findSome? (named? name input)).isSome =
      ((qs.flatMap (references c input)).findSome? Mapping.ofPart?).isSome := by
  rw [findSome?_flatMap, List.isSome_findSome?, List.isSome_findSome?]
  exact congrArg (List.any _) (funext (isSome_named? c name input))

/-- A single value is replaced by a name, and stays single. -/
theorem Loader.named?_eq_str {l : Loader} {name : String} {raw raw' : Json} (h : l.named? name raw = some raw')
    (single : ∀ items, raw ≠ .arr items) : raw' = .str name := by
  induction l with
  | read reader => cases h
  | category category =>
    cases raw with
    | arr items => exact absurd rfl (single items)
    | obj members => exact (Option.some.inj h).symm
    | _ => cases h
  | listOf item ih =>
    cases raw with
    | arr items => exact absurd rfl (single items)
    | _ => exact ih h

theorem Loader.named?_itemsOrSelf {item : Loader} {name : String} {raw raw' : Json}
    (h : (Loader.listOf item).named? name raw = some raw') :
    replaceFirst? (item.named? name) raw.itemsOrSelf = some raw'.itemsOrSelf := by
  cases raw with
  | arr items =>
    obtain ⟨items', hitems, rfl⟩ := Option.map_eq_some_iff.mp h
    exact hitems
  | _ =>
    have hitem : item.named? name _ = some raw' := h
    obtain rfl := named?_eq_str hitem (by simp)
    simp [Json.itemsOrSelf, replaceFirst?, hitem]

/-! ## The references of the new mapping -/

/-- A name in place of a mapping that is handed to the compiler. -/
def Mapping.namePart? (name : String) (part : String × Json) : Option (String × Json) :=
  (part.2.named? name).map fun raw => (part.1, raw)

theorem replaceFirst?_append (f : α → Option α) (xs ys : List α) : replaceFirst? f (xs ++ ys) =
    ((replaceFirst? f xs).map (· ++ ys)).or ((replaceFirst? f ys).map (xs ++ ·)) := by
  induction xs with
  | nil => simp [replaceFirst?]
  | cons x xs ih =>
    rw [List.cons_append, replaceFirst?, replaceFirst?, ih]
    cases f x with
    | some y => rfl
    | none => cases replaceFirst? f xs <;> simp [Function.comp_def]

theorem replaceFirst?_flatMap {f : β → Option β} {g : α → Option α} {parts : α → List β}
    (hsome : ∀ x y, g x = some y → replaceFirst? f (parts x) = some (parts y))
    (hnone : ∀ x, g x = none → replaceFirst? f (parts x) = none) {xs ys : List α} (h : replaceFirst? g xs = some ys) :
    replaceFirst? f (xs.flatMap parts) = some (ys.flatMap parts) := by
  induction xs generalizing ys with
  | nil => cases h
  | cons x xs ih =>
    rw [replaceFirst?] at h
    rw [List.flatMap_cons, replaceFirst?_append]
    cases hx : g x with
    | some y =>
      rw [hx] at h
      cases h
      rw [hsome x y hx]
      rfl
    | none =>
      rw [hx] at h
      obtain ⟨ys', hys, rfl⟩ := Option.map_eq_some_iff.mp h
      rw [hnone x hx, ih hys]
      rfl

theorem Mapping.isSome_replaceFirst?_namePart? (name : String) (parts : List (String × Json)) :
    (replaceFirst? (namePart? name) parts).isSome = (parts.findSome? ofPart?).isSome := by
  rw [isSome_replaceFirst?, List.isSome_findSome?]
  refine congrArg (List.any _) (funext fun part => ?_)
  obtain ⟨key, raw⟩ := part
  cases raw <;> rfl

theorem Loader.references_named? {c : Catalogue} {l : Loader} {name : String} {raw raw' : Json}
    (h : l.named? name raw = some raw') :
    replaceFirst? (Mapping.namePart? name) (l.references c raw) = some (l.references c raw') := by
  induction l generalizing raw raw' with
  | read reader => cases h
  | category category =>
    -- an item is its own only part, which makes the list a case of `replaceFirst?_flatMap`
    have hitem (items : List Json) : items.map (fun item => (c.key category, item)) =
        items.flatMap fun item => [(c.key category, item)] := List.map_eq_flatMap
    have hparts {items items' : List Json} (h : replaceFirst? (Json.named? name) items = some items') :
        replaceFirst? (Mapping.namePart? name) (items.map fun item => (c.key category, item)) =
          some (items'.map fun item => (c.key category, item)) := by
      rw [hitem, hitem]
      exact replaceFirst?_flatMap (fun x y hxy => by simp [replaceFirst?, Mapping.namePart?, hxy])
        (fun x hx => by simp [replaceFirst?, Mapping.namePart?, hx]) h
    rw [references, references]
    cases raw with
    | arr items =>
      obtain ⟨items', hitems, rfl⟩ := Option.map_eq_some_iff.mp h
      exact hparts hitems
    | obj members =>
      cases h
      rfl
    | _ => cases h
  | listOf item ih =>
    have hnone (x : Json) (hx : item.named? name x = none) :
        replaceFirst? (Mapping.namePart? name) (item.references c x) = none := by
      have hsome := item.isSome_named? c name x
      rw [hx, ← Mapping.isSome_replaceFirst?_namePart? name] at hsome
      simpa using hsome.symm
    rw [references, references]
    exact replaceFirst?_flatMap (fun x y hxy => ih hxy) hnone (named?_itemsOrSelf h)

/-- The value that is replaced belongs to the first parameter, or to a later one and the first one keeps its value. The
other parameters keep theirs in any case, for they have other names. -/
theorem Parameter.named?_cons_cases {name : String} {input input' : Members} {q : Parameter} {qs : List Parameter}
    (distinct : ((q :: qs).map Parameter.name).Nodup) {key : String} {raw' : Json}
    (hkey : (q :: qs).findSome? (named? name input) = some (key, raw'))
    (hinput : ∀ k, Entries.get? k input' = if key = k then some raw' else Entries.get? k input) :
    (∃ raw, Entries.get? q.name input = some raw ∧ q.loader.named? name raw = some raw' ∧
      Entries.get? q.name input' = some raw' ∧ ∀ q' ∈ qs, Entries.get? q'.name input' = Entries.get? q'.name input) ∨
    q.named? name input = none ∧ Entries.get? q.name input' = Entries.get? q.name input ∧
      qs.findSome? (named? name input) = some (key, raw') := by
  rw [List.map_cons, List.nodup_cons] at distinct
  rw [List.findSome?_cons] at hkey
  cases hq : q.named? name input with
  | some found =>
    rw [hq] at hkey
    cases hkey
    obtain ⟨rfl, raw, hraw, hraw'⟩ := named?_eq_some.mp hq
    refine .inl ⟨raw, hraw, hraw', by rw [hinput, if_pos rfl], fun q' hq' => ?_⟩
    rw [hinput, if_neg]
    exact fun he => distinct.1 (List.mem_map.mpr ⟨q', hq', he.symm⟩)
  | none =>
    rw [hq] at hkey
    obtain ⟨q', hq', hnamed⟩ := List.exists_of_findSome?_eq_some hkey
    obtain ⟨rfl, -⟩ := named?_eq_some.mp hnamed
    refine .inr ⟨rfl, ?_, hkey⟩
    rw [hinput, if_neg]
    exact fun he => distinct.1 (List.mem_map.mpr ⟨q', hq', he⟩)

theorem Parameter.references_named? {c : Catalogue} {name : String} {input input' : Members} {qs : List Parameter}
    (distinct : (qs.map Parameter.name).Nodup) {key : String} {raw' : Json}
    (hkey : qs.findSome? (Parameter.named? name input) = some (key, raw'))
    (hinput : ∀ k, Entries.get? k input' = if key = k then some raw' else Entries.get? k input) :
    replaceFirst? (Mapping.namePart? name) (qs.flatMap (Parameter.references c input)) =
      some (qs.flatMap (Parameter.references c input')) := by
  induction qs with
  | nil => cases hkey
  | cons q qs ih =>
    rw [List.flatMap_cons, List.flatMap_cons, replaceFirst?_append]
    -- only the parameter whose value is replaced has new references
    rcases named?_cons_cases distinct hkey hinput with ⟨raw, hraw, hraw', hnew, hothers⟩ | ⟨hq, hsame, hkey⟩
    · have hrest : qs.flatMap (references c input') = qs.flatMap (references c input) :=
        List.flatMap_congr fun q' hq' => by rw [references, references, hothers q' hq']
      rw [hrest, references, references, hraw, hnew]
      simp only [Loader.references_named? hraw', Option.map_some, Option.some_or]
    · have hreferences : q.references c input' = q.references c input := by rw [references, references, hsame]
      have hnone : replaceFirst? (Mapping.namePart? name) (q.references c input) = none := by
        have hsome := q.isSome_named? c name input
        rw [hq, ← Mapping.isSome_replaceFirst?_namePart? name] at hsome
        simpa using hsome.symm
      rw [hreferences, hnone, ih (List.nodup_cons.mp distinct).2 hkey]
      rfl

/-! ## What is left for the plugin -/

namespace Mapping

variable {key k : String} {members : Members}

theorem ne_of_get?_input {raw : Json} (h : Entries.get? k (Mapping.mk key members).input = some raw) :
    k ≠ "name" ∧ k ≠ "type" := by
  rw [input, Entries.get?_erase, Entries.get?_erase] at h
  constructor <;> rintro rfl <;> simp at h

theorem get?_input_set (key : String) (members : Members) (hname : k ≠ "name") (htype : k ≠ "type") (raw : Json)
    (k' : String) :
    Entries.get? k' (Mapping.mk key (Entries.set k raw members)).input =
      if k = k' then some raw else Entries.get? k' (Mapping.mk key members).input := by
  simp only [input, Entries.get?_erase, Entries.get?_set]
  grind

theorem filter_input_set (keep : String → Bool) (h : keep k = false) (raw : Json) :
    ((Mapping.mk key (Entries.set k raw members)).input.filter fun e => keep e.1) =
      (Mapping.mk key members).input.filter fun e => keep e.1 := by
  have hkeep : (keep k && (decide (k ≠ "type") && decide (k ≠ "name"))) = false := by rw [h, Bool.false_and]
  simp only [input, Entries.erase, List.filter_filter]
  exact Entries.filter_set (fun k => keep k && (decide (k ≠ "type") && decide (k ≠ "name"))) hkeep raw members

end Mapping

end Blueprint
