import Blueprint.Key
import Blueprint.Loader.Reader

/-!
# Loaders

A loader says how the value of a parameter is obtained: by a reader, item by item, or from another category, whose
objects are named or described inline. A category is referred to by any of its names and looked up when the value is
loaded, so the order in which plugins are registered does not matter.
-/

namespace Blueprint

inductive Loader where
  | read (reader : Reader)
  /-- A list; a single value stands for a list of one. -/
  | listOf (item : Loader)
  /-- An object of a category, or a list of them. -/
  | category (name : String)

namespace Loader

/-- What the schema calls the definition of a category. -/
def definitionName (category : String) : String := category ++ "_type"

/-- A reference to a definition of the schema. -/
def reference (definition : String) : Json := .obj [("$ref", .str ("#/definitions/" ++ definition))]

/-- A schema type as a fragment: a name is the type of a fragment. -/
def fragment : Json → Json
  | .str name => .obj [("type", .str name)]
  | json => json

/-- The JSON schema type of what is accepted, if the loader tells. -/
def jsonType? : Loader → Option Json
  | .read reader => reader.jsonType?
  | .listOf item => some (.obj [("type", .str "array"), ("items", fragment (item.jsonType?.getD (.obj [])))])
  | .category name => some (reference (definitionName (Key.clean name)))

/-- What is accepted, in words, if the loader tells. -/
def description? : Loader → Option String
  | .read reader => reader.description?
  | .listOf item => item.description?.map fun d => s!"List of: {d}"
  | .category name =>
    let key := Key.clean name
    some s!"A {key} object: either the name of one defined earlier or an inline description"

end Loader
end Blueprint
