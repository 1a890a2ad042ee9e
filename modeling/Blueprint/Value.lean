import Blueprint.Dict.Basic
import Blueprint.Json.Basic

/-!
# Typed values

Loaders turn descriptions into values: scalars, lists and maps as in JSON, and handles of objects compiled earlier.
`ofJson` converts a description without interpreting it. Two values are equal as the program compares them (`==`) if
they have the same shape, equal floats compare equal, and handles are the same.
-/

namespace Blueprint

/-- A reference to an object in the store. Two handles are the same object exactly if they are equal. -/
structure Handle where
  index : Nat
deriving DecidableEq, Repr, Inhabited

/-- A typed value; the entries of a map are in key order. -/
inductive Value where
  | null
  | bool (b : Bool)
  | int (n : Int)
  | float (x : Float)
  | text (s : String)
  | list (items : List Value)
  | map (entries : List (String × Value))
  | object (h : Handle)
deriving Inhabited

namespace Value

/-- A number: an integer if it is written as one and a 64-bit word holds it. -/
def ofNumber (n : Number) : Value :=
  match n.toWord? with
  | some i => .int i
  | none => .float n.toFloat

mutual
/-- The value of a description taken as it is. -/
def ofJson : Json → Value
  | .null => .null
  | .bool b => .bool b
  | .num n => ofNumber n
  | .str s => .text s
  | .arr items => .list (ofItems items)
  | .obj members => .map (Entries.insertAll [] (ofMembers members))

def ofItems : List Json → List Value
  | [] => []
  | item :: items => ofJson item :: ofItems items

def ofMembers : List (String × Json) → List (String × Value)
  | [] => []
  | (key, value) :: members => (key, ofJson value) :: ofMembers members
end

/-- The name that messages use for the kind of a value. -/
def typeName : Value → String
  | .null => "Null"
  | .bool _ => "Bool"
  | .int _ => "Int"
  | .float _ => "Float"
  | .text _ => "Text"
  | .list _ => "List"
  | .map _ => "Map"
  | .object _ => "Object"

def bool? : Value → Option Bool
  | .bool b => some b
  | _ => none

def int? : Value → Option Int
  | .int n => some n
  | _ => none

/-- The value as a float; an integer widens. -/
def float? : Value → Option Float
  | .float x => some x
  | .int n => some (Float.ofInt n)
  | _ => none

def text? : Value → Option String
  | .text s => some s
  | _ => none

def list? : Value → Option (List Value)
  | .list items => some items
  | _ => none

def map? : Value → Option (List (String × Value))
  | .map entries => some entries
  | _ => none

def object? : Value → Option Handle
  | .object h => some h
  | _ => none

mutual
/-- Equality as the program compares values. -/
def equal : Value → Value → Bool
  | .null, .null => true
  | .bool a, .bool b => a == b
  | .int a, .int b => a == b
  | .float a, .float b => a == b
  | .text a, .text b => a == b
  | .list as, .list bs => equalItems as bs
  | .map as, .map bs => equalEntries as bs
  | .object a, .object b => a == b
  | _, _ => false

def equalItems : List Value → List Value → Bool
  | [], [] => true
  | a :: as, b :: bs => equal a b && equalItems as bs
  | _, _ => false

def equalEntries : List (String × Value) → List (String × Value) → Bool
  | [], [] => true
  | (k, a) :: as, (l, b) :: bs => k == l && equal a b && equalEntries as bs
  | _, _ => false
end

instance : BEq Value := ⟨equal⟩

end Value
end Blueprint
