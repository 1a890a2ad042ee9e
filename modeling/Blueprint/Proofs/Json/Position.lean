import Blueprint.Proofs.Document.KeyOrder
import Blueprint.Proofs.Json.Parts

/-!
# Positions in a value

A position is the path that leads to it: into an item of a list, or into a member of a mapping. A description taken as
it is has the same positions as the description, and at each of them the value of what the description has there
(`Value.at?_ofJson`).
-/

namespace Blueprint

/-- A step into a value. -/
inductive Selector where
  | item (index : Nat)
  | member (key : String)
deriving DecidableEq

namespace Json

/-- What a step leads to. -/
def child? : Selector → Json → Option Json
  | .item index, .arr items => items[index]?
  | .member key, .obj members => Entries.get? key members
  | _, _ => none

/-- What stands at a position. -/
def at? : List Selector → Json → Option Json
  | [], json => some json
  | s :: path, json => (json.child? s).bind (at? path)

variable {json x : Json} {s : Selector}

theorem isPart_of_child? (h : json.child? s = some x) : x.IsPart json := by
  unfold child? at h
  split at h
  · exact (IsPart.refl _).item (List.mem_of_getElem? h)
  · exact (IsPart.refl _).member (Entries.mem_of_get? h)
  · cases h

end Json

namespace Value

/-- What a step leads to. -/
def child? : Selector → Value → Option Value
  | .item index, .list items => items[index]?
  | .member key, .map entries => Entries.get? key entries
  | _, _ => none

/-- What stands at a position. -/
def at? : List Selector → Value → Option Value
  | [], value => some value
  | s :: path, value => (value.child? s).bind (at? path)

theorem child?_ofNumber (s : Selector) (n : Number) : (ofNumber n).child? s = none := by
  unfold ofNumber
  split <;> cases s <;> rfl

theorem child?_ofJson {json : Json} (h : json.Distinct) (s : Selector) :
    (ofJson json).child? s = (json.child? s).map ofJson := by
  cases json with
  | num n =>
    rw [ofJson, child?_ofNumber]
    cases s <;> rfl
  | arr items =>
    cases s with
    | item index => simp [ofJson, child?, Json.child?, ofItems_eq_map]
    | member key => rfl
  | obj members =>
    cases s with
    | item index => rfl
    | member key =>
      have distinct : ((members.map binding).map (·.1)).Nodup := by
        rw [keys_map_binding]
        exact h.nodup
      simp only [ofJson, child?, Json.child?, ofMembers_eq_map]
      rw [Entries.get?_insertAll distinct, Entries.get?_nil, Option.or_none]
      exact Entries.get?_map ofJson members key
  | _ => cases s <;> rfl

/-- A description taken as it is has the value of what the description has at a position. -/
theorem at?_ofJson (path : List Selector) {json : Json} (h : json.Distinct) :
    (ofJson json).at? path = (json.at? path).map ofJson := by
  induction path generalizing json with
  | nil => rfl
  | cons s path ih =>
    rw [at?, Json.at?, child?_ofJson h]
    cases hx : json.child? s with
    | none => rfl
    | some x => exact ih (h.of_isPart (Json.isPart_of_child? hx))

end Value
end Blueprint
