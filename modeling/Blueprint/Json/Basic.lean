import Blueprint.Dict.Entries

/-!
# JSON documents

Input documents, schema fragments and serialised values are JSON values whose objects keep the order of their members.
An integer of the document stays an integer if a 64-bit word holds it, signed or not; every other number is a float.
-/

namespace Blueprint

inductive Number where
  | integer (n : Int)
  | float (x : Float)
deriving DecidableEq

/-- A JSON value; the members of an object stand in their order of first appearance. -/
inductive Json where
  | null
  | bool (b : Bool)
  | num (n : Number)
  | str (s : String)
  | arr (items : List Json)
  | obj (members : List (String × Json))
deriving Inhabited

abbrev Members := List (String × Json)

namespace Number

/-- The 63rd power of two. -/
def wordBound : Int := 9223372036854775808

/-- Whether a signed 64-bit word holds an integer. -/
def isWord (n : Int) : Bool := -wordBound ≤ n && n < wordBound

/-- Whether a 64-bit word holds an integer, signed or not. -/
def isAnyWord (n : Int) : Bool := -wordBound ≤ n && n < 2 * wordBound

/-- The number as a float; an integer rounds to the nearest. -/
def toFloat : Number → Float
  | .integer n => Float.ofInt n
  | .float x => x

/-- The number as a signed 64-bit word, if it is written as one. -/
def toWord? : Number → Option Int
  | .integer n => if isWord n then some n else none
  | .float _ => none

end Number

namespace Json

/-- The name that messages use for the kind of a value. -/
def typeName : Json → String
  | .null => "Null"
  | .bool _ => "Bool"
  | .num n => if n.toWord?.isSome then "Int" else "Float"
  | .str _ => "Text"
  | .arr _ => "List"
  | .obj _ => "Map"

def text? : Json → Option String
  | .str s => some s
  | _ => none

def members? : Json → Option Members
  | .obj members => some members
  | _ => none

def member? (key : String) : Json → Option Json
  | .obj members => Entries.get? key members
  | _ => none

/-- The values to go through where a list or a single value may stand: the items of a list, or the value itself. -/
def itemsOrSelf : Json → List Json
  | .arr items => items
  | single => [single]

mutual
/-- How many lists and objects are nested in one another. -/
def depth : Json → Nat
  | .arr items => itemsDepth items + 1
  | .obj members => membersDepth members + 1
  | _ => 0

def itemsDepth : List Json → Nat
  | [] => 0
  | item :: items => max (depth item) (itemsDepth items)

def membersDepth : List (String × Json) → Nat
  | [] => 0
  | (_, value) :: members => max (depth value) (membersDepth members)
end

end Json

end Blueprint
