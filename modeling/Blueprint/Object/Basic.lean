import Blueprint.Arguments
import Blueprint.Sampling.Basic

/-!
# Compiled objects and their store

An object is what a constructor made, with the bookkeeping of the compiler: its kind, the category that registered it,
its name and free attributes. Objects refer to one another by handle; the store holds them all, is only ever appended
to, and gives out the next free handle. Forgetting an object elsewhere never invalidates a handle.
-/

namespace Blueprint

/-! ## Objects -/

/-- What a constructor made. A constructor with no type of its own keeps its arguments. -/
inductive Payload where
  | none
  | arguments (args : Arguments)
  | toyEngine (engine : ToyEngine)
  | coordinate (c : Coordinate)
  | distance (d : Distance)
  | interval (i : Interval)
  | combination (c : Combination)
  | transitions (t : Transitions)

/-- A constructed object. -/
structure Object where
  kind : String
  payload : Payload
  category : Option String := .none
  name : Option String := .none
  attributes : Dict Value := Dict.empty

namespace Object

def setAttribute (o : Object) (key : String) (value : Value) : Object :=
  { o with attributes := o.attributes.insert key value }

/-- Kind and name, as messages show an object. -/
def display (o : Object) : String :=
  let name := o.name.getD "<unnamed>"
  s!"{o.kind}({name})"

end Object

/-! ## The store -/

/-- Every object made so far; the handle of an object is its position. -/
structure Store where
  objects : List Object

namespace Store

def empty : Store := ⟨[]⟩

instance : Inhabited Store := ⟨empty⟩

/-- The object behind a handle. -/
def get? (s : Store) (h : Handle) : Option Object := s.objects[h.index]?

/-- The handle that the next object gets. -/
def next (s : Store) : Handle := ⟨s.objects.length⟩

/-- Adds an object under the next handle. -/
def push (s : Store) (o : Object) : Store := ⟨s.objects ++ [o]⟩

/-- Kind and name of the object behind a handle. -/
def display (s : Store) (h : Handle) : String := ((s.get? h).map Object.display).getD ""

theorem get?_push_next (s : Store) (o : Object) : (s.push o).get? s.next = some o := by
  simp [get?, push, next]

end Store

/-! ## Values in documents -/

/-- What a document shows of an object: its kind and its name. -/
def Object.identity (o : Object) : Json :=
  .obj [("kind", .str o.kind), ("name", (o.name.map Json.str).getD .null)]

mutual
/-- A value as it is written into a document. -/
def Value.toJson (store : Store) : Value → Json
  | .null => .null
  | .bool b => .bool b
  | .int n => .num (.integer n)
  | .float x => if x.isFinite then .num (.float x) else .null
  | .text s => .str s
  | .list items => .arr (Value.toJsonItems store items)
  | .map entries => .obj (Value.toJsonEntries store entries)
  | .object h => ((store.get? h).map Object.identity).getD .null

def Value.toJsonItems (store : Store) : List Value → List Json
  | [] => []
  | item :: items => item.toJson store :: Value.toJsonItems store items

def Value.toJsonEntries (store : Store) : List (String × Value) → Members
  | [] => []
  | (key, value) :: entries => (key, value.toJson store) :: Value.toJsonEntries store entries
end

end Blueprint
