import Blueprint.Json.Source

/-!
# Fields of structures in JSON

A structure is read from an object by picking its members out by name. Other members are skipped whatever they hold;
a member that is picked out must not be repeated.
-/

namespace Blueprint

namespace Json.Source

/-- The one member of a name: absent, present, or refused because it is repeated. -/
def field? (key : String) (members : List (Option String × Source)) : Option (Option Source) :=
  match members.filter fun m => m.1 == some key with
  | [] => some none
  | [m] => some (some m.2)
  | _ => none

/-- Every key has a value. -/
def keysValid (members : List (Option String × Source)) : Bool := members.all (·.1.isSome)

def text? : Source → Option String
  | .str s => s
  | _ => none

def texts? : Source → Option (List String)
  | .arr items => items.mapM text?
  | _ => none

end Json.Source

end Blueprint
