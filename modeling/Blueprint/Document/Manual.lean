import Blueprint.Json.Printer
import Blueprint.Registry.Basic

/-!
# Reference documentation

The manual of a registry is a Markdown text: a section for each category, and in it a table of parameters for each
plugin. `typeLabel` words a schema type for a table cell.
-/

namespace Blueprint.Manual

def standardTitle : String := "Kiln Reference"

/-- Drops every leading repetition of a text; at most `fuel` of them. -/
def trimStart (part : List Char) : Nat → List Char → List Char
  | 0, cs => cs
  | fuel + 1, cs => if part.isPrefixOf cs then trimStart part fuel (cs.drop part.length) else cs

def trimEnd (part : List Char) (cs : List Char) : List Char :=
  (trimStart part.reverse cs.length cs.reverse).reverse

/-- The category that a reference leads to, for a reader. -/
def referenceLabel (target : String) : String :=
  let cs := target.toList
  let cs := trimStart "#/definitions/".toList cs.length cs
  String.ofList (trimEnd "_type".toList cs)

def texts (items : List Json) : List String := items.filterMap Json.text?

mutual
def typeLabel : Json → String
  | .str name => name
  | .obj members =>
    match (Entries.get? "$ref" members).bind Json.text? with
    | some target =>
      let category := referenceLabel target
      s!"{category} (name or inline)"
    | none =>
      match Entries.get? "enum" members with
      | some (.arr choices) =>
        let listed := ", ".intercalate (choices.map Json.compact)
        s!"one of {listed}"
      | _ =>
        match Entries.get? "type" members with
        | some (.str "array") =>
          let items := itemsLabel members
          s!"list of {items}"
        | some (.str name) => name
        | some (.arr types) => " or ".intercalate (texts types)
        | _ => "any"
  | _ => "any"

/-- The type of the items of a list, in words. -/
def itemsLabel : List (String × Json) → String
  | [] => "any"
  | (key, value) :: members => if key = "items" then typeLabel value else itemsLabel members
end

/-- A bar inside a table cell is escaped. -/
def escape (text : String) : String :=
  String.ofList (text.toList.flatMap fun c => if c = '|' then ['\\', '|'] else [c])

def codeList (items : List String) : String :=
  ", ".intercalate (items.map fun a => s!"`{a}`")

/-- The table row of a parameter. -/
def parameterRow (store : Store) (p : Parameter) : String :=
  let label := (p.jsonType?.map typeLabel).getD "any"
  let required := if p.isRequired then "yes" else "no"
  let default := match p.default with
    | some value =>
      let text := (value.toJson store).compact
      s!"`{text}`"
    | none => ""
  let description := escape (p.description?.getD "")
  s!"| {p.name} | {label} | {required} | {default} | {description} |\n"

def paragraph (text : Option String) : String :=
  match text with
  | some t => t ++ "\n\n"
  | none => ""

def aliasParagraph (names : List String) : String :=
  if names.isEmpty then "" else
    let listed := codeList names
    s!"Aliases: {listed}\n\n"

def tableHead : String :=
  "| parameter | type | required | default | description |\n" ++
  "|-----------|------|----------|---------|-------------|\n"

def pluginSection (store : Store) (p : Plugin) : String :=
  s!"### {p.tag}\n\n" ++ paragraph p.description ++ aliasParagraph p.aliases ++
    if p.parameters.isEmpty then "_No parameters._\n\n"
    else tableHead ++ String.join (p.parameters.map (parameterRow store)) ++ "\n"

def categorySection (r : Registry) (key : String) : String :=
  let plugins := ((r.find? key).map Category.plugins).getD []
  s!"## {key}\n\n" ++ paragraph ((r.declaration? key).bind CategoryDeclaration.description) ++
    aliasParagraph (r.aliasesFor key) ++
    (if plugins.isEmpty then "_No types registered._\n\n" else "") ++
    String.join (plugins.map (pluginSection r.store))

/-- The manual of every category, or of the one that a name leads to. -/
def render (title : String) (r : Registry) (category : Option String) : Except Diagnostic String := do
  let keys ← match category with
    | some name =>
      match r.find? name with
      | some c => .ok [c.label]
      | none => .error (.unresolvedCompiler name)
    | none => .ok r.categories.keys
  return s!"# {title}\n\n" ++ String.join (keys.map (categorySection r))

end Blueprint.Manual
