import Blueprint.Loader.Basic
import Blueprint.Object.Basic

/-!
# Parameters

A parameter is one named field of a compilable type. It is required exactly if it has no default; a default is a typed
value and is never loaded.
-/

namespace Blueprint

structure Parameter where
  name : String
  loader : Loader
  default : Option Value := none
  /-- The schema type, where it is not left to the loader. -/
  explicitType : Option Json := none
  /-- The description, where it is not left to the loader. -/
  explicitDescription : Option String := none

namespace Parameter

def isRequired (p : Parameter) : Bool := p.default.isNone

def jsonType? (p : Parameter) : Option Json := p.explicitType.or p.loader.jsonType?

def description? (p : Parameter) : Option String := p.explicitDescription.or p.loader.description?

/-- The schema fragment of a parameter: its type, its description and its default. -/
def schema (store : Store) (p : Parameter) : Json :=
  let typed : Members := match p.jsonType? with
    | some (.obj members) => members
    | some (.str name) => [("type", .str name)]
    | _ => []
  let described := match p.description? with
    | some d => Entries.set "description" (.str d) typed
    | none => typed
  .obj (match p.default with
    | some value => Entries.set "default" (value.toJson store) described
    | none => described)

end Parameter
end Blueprint
