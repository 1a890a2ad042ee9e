import Blueprint.Registry.Basic

/-!
# The schema of documents

Every category has a definition: the name of an object defined earlier, or an inline description for one of its
plugins. An alias is a reference to that definition. A category that is referred to but not registered accepts names
only, so that every reference to a category has a definition.
-/

namespace Blueprint.Schema

def draft : String := "http://json-schema.org/draft-07/schema#"

/-- What every reference to a definition begins with. -/
def definitionsPath : String := "#/definitions/"

/-- A reference to the definition of a category. -/
def categoryReference (category : String) : Json := Loader.reference (Loader.definitionName category)

/-- The choice of naming an object. -/
def nameChoice (category : String) : Json :=
  .obj [("type", .str "string"), ("description", .str s!"Name of a {category} defined earlier")]

/-- What the schema calls the definition of a plugin. -/
def pluginName (category tag : String) : String := s!"{category}.{tag}"

mutual
/-- The definitions that a schema refers to, in order. -/
def references : Json → List String
  | .obj members => memberReferences members
  | .arr items => itemReferences items
  | _ => []

def itemReferences : List Json → List String
  | [] => []
  | item :: items => references item ++ itemReferences items

def memberReferences : List (String × Json) → List String
  | [] => []
  | (key, value) :: members =>
    (match key, value with
      | "$ref", .str target =>
        if definitionsPath.toList.isPrefixOf target.toList then
          [String.ofList (target.toList.drop definitionsPath.length)]
        else []
      | _, _ => references value) ++ memberReferences members
end

def categoryDefinition (r : Registry) (key : String) (c : Category) : Json :=
  let described : Members := match (r.declaration? key).bind CategoryDeclaration.description with
    | some d => [("description", .str d)]
    | none => []
  let choices := nameChoice key :: c.plugins.map fun p => Loader.reference (pluginName key p.tag)
  .obj (described ++ [("oneOf", .arr choices)])

/-- The definitions that belong to one category: its plugins, itself and its aliases. -/
def definitionsOf (r : Registry) (key : String) (c : Category) : Members :=
  (c.plugins.map fun p => (pluginName key p.tag, p.schema r.store)) ++
    [(Loader.definitionName key, categoryDefinition r key c)] ++
    (r.aliasesFor key).map fun a => (Loader.definitionName a, categoryReference key)

/-- The properties of a document that belong to one category. -/
def propertiesOf (r : Registry) (key : String) : Members :=
  let entry := Json.obj [("type", .str "array"), ("items", categoryReference key)]
  ((r.aliasesFor key) ++ [key]).map fun name => (name, entry)

/-- The category of a definition's name. -/
def categoryOf? (definition : String) : Option String :=
  let cs := definition.toList
  if "_type".toList.isSuffixOf cs then some (String.ofList (cs.take (cs.length - 5))) else none

/-- The definition of a category that is not registered. -/
def placeholder (category : String) : Json :=
  .obj [("description", .str s!"No {category} types are registered"), ("oneOf", .arr [nameChoice category])]

/-- Adds the definition of a category that is referred to and has none. -/
def addMissing (definitions : Members) (target : String) : Members :=
  match categoryOf? target with
  | some category =>
    if (Entries.get? target definitions).isSome then definitions
    else Entries.set target (placeholder category) definitions
  | none => definitions

/-- The definitions of the registered categories. -/
def registered (r : Registry) : Members :=
  r.categories.entries.foldl (fun ds (key, c) => Entries.setAll ds (definitionsOf r key c)) []

def definitions (r : Registry) : Members :=
  let ds := registered r
  (references (.obj ds)).foldl addMissing ds

def properties (r : Registry) : Members :=
  r.categories.keys.foldl (fun ps key => Entries.setAll ps (propertiesOf r key)) []

/-- The schema of the documents that a registry accepts. -/
def document (r : Registry) : Json :=
  .obj [("$schema", .str draft), ("type", .str "object"), ("properties", .obj (properties r)),
    ("definitions", .obj (definitions r))]

end Blueprint.Schema
