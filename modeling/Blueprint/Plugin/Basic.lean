import Blueprint.Plugin.Builder
import Blueprint.Plugin.Parameter

/-!
# Plugins

A plugin is one compilable type of a category: a type tag with aliases, parameters and a builder. The keys `name` and
`type` of a description belong to the compiler, so no parameter may be called so, and no two parameters may share a
name. Plugins are told apart by their serial numbers.
-/

namespace Blueprint

/-- One compilable type of a category. -/
structure Plugin where
  /-- Two plugins are the same exactly if they have the same serial number. -/
  serial : Nat
  tag : String
  category : String
  parameters : List Parameter
  builder : Builder
  aliases : List String := []
  description : Option String := none

namespace Plugin

/-- The keys that the compiler takes from a description. -/
def reservedKeys : List String := ["name", "type"]

/-- Checks parameter names in order, given those seen before. -/
def checkNames (tag : String) (seen : List String) : List Parameter → Except Diagnostic Unit
  | [] => .ok ()
  | p :: ps =>
    if reservedKeys.contains p.name then .error (.invalidPlugin tag s!"parameter name '{p.name}' is reserved")
    else if seen.contains p.name then .error (.invalidPlugin tag s!"parameter '{p.name}' is declared twice")
    else checkNames tag (p.name :: seen) ps

/-- Accepts a plugin whose parameter names are distinct and not reserved. -/
def checked (plugin : Plugin) : Except Diagnostic Plugin :=
  (checkNames plugin.tag [] plugin.parameters).map fun _ => plugin

/-- Whether two plugins are the same. -/
def same (p q : Plugin) : Bool := p.serial == q.serial

def parameter? (p : Plugin) (name : String) : Option Parameter := p.parameters.find? (·.name == name)

def requiredParameters (p : Plugin) : List Parameter := p.parameters.filter Parameter.isRequired

def optionalParameters (p : Plugin) : List Parameter := p.parameters.filter fun q => !q.isRequired

/-- A list with the first occurrence of each item. -/
def distinct (names : List String) : List String :=
  names.foldl (fun found name => if found.contains name then found else found ++ [name]) []

/-- The tags that a plugin is registered under: the type tag and the aliases, in order, without repeats. -/
def registrationNames (p : Plugin) : List String := distinct (p.tag :: p.aliases)

/-- The schema of the descriptions that a plugin accepts. -/
def schema (store : Store) (p : Plugin) : Json :=
  let own : Members := [
    ("name", .obj [("type", .str "string")]),
    ("type", .obj [("type", .str "string"), ("enum", .arr [.str p.tag])])]
  let properties := Entries.setAll own (p.parameters.map fun q => (q.name, q.schema store))
  let required := Json.str "type" :: p.requiredParameters.map fun q => .str q.name
  let described : Members := match p.description with
    | some d => [("description", .str d)]
    | none => []
  .obj (("type", .str "object") :: (described ++ [("properties", .obj properties), ("required", .arr required)]))

end Plugin
end Blueprint
