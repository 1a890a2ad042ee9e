import Blueprint.Compile.Load

/-!
# Compiling descriptions

A description is the name of an object of its category, or a mapping with a type tag and maybe a name. The compiler
builds the object of a mapping, which compiles the descriptions inside it, and then registers it, so the parts of an
object are always registered before the object. Descriptions nest only so deep as their JSON does, and the depth bounds
the recursion.
-/

namespace Blueprint

/-! ## Registering objects -/

/-- Registers an object in the category under a key, and binds it to a name if one is given, which must be free. -/
def registerObject (key : String) (object : Object) (name : Option String) : Action Handle := fun r =>
  let c := r.category key
  let object := { object with category := some c.label }
  let h := r.store.next
  match name with
  | some n =>
    if c.named.contains n then (.error (.duplicateName c.label n), r)
    else
      let object := { object with name := some n }
      (.ok h, { r.setCategory key { c with named := c.named.insert n h, objects := c.objects ++ [h] } with
        store := r.store.push object })
  | none =>
    (.ok h, { r.setCategory key { c with objects := c.objects ++ [h] } with store := r.store.push object })

/-! ## Mappings -/

/-- A mapping seen by the compiler: its name, its type tag and what is left for the plugin. -/
structure Description where
  name : Option String
  tag : String
  input : Members

namespace Description

/-- The name in a mapping; null is no name. -/
def nameOf (label : String) (members : Members) : Except Diagnostic (Option String) :=
  match Entries.get? "name" members with
  | none | some .null => .ok none
  | some (.str name) => .ok (some name)
  | some other =>
    let got := other.typeName
    .error ((Diagnostic.invalidInput s!"'name' must be text, got {got}").inCategory label)

/-- The type tag in a mapping. -/
def tagOf (label : String) (tags : List String) (members : Members) : Except Diagnostic String :=
  match Entries.get? "type" members with
  | some (.str tag) => .ok tag
  | none =>
    let known := ", ".intercalate tags
    .error ((({ code := Diagnostic.missingRequiredParameterCode
                message := s!"{label} description is missing 'type'"
                suggestion := some s!"Known types: {known}" } : Diagnostic).inCategory label).forParameter "type")
  | some other =>
    let got := other.typeName
    .error ((Diagnostic.invalidInput s!"'type' must be text, got {got}").inCategory label)

/-- The parts of a mapping; the name is looked at before the type. -/
def ofMembers (label : String) (tags : List String) (members : Members) : Except Diagnostic Description := do
  let name ← nameOf label members
  let tag ← tagOf label tags members
  return { name, tag, input := Entries.erase "type" (Entries.erase "name" members) }

/-- What the compiler was doing when the plugin of a mapping failed. -/
def activity (label : String) (d : Description) : String :=
  match d.name with
  | some name => s!"while compiling {label} '{name}'"
  | none => s!"while compiling a {label} of type '{d.tag}'"

end Description

/-- The plugin of a category that a type tag stands for. -/
def pluginFor (c : Category) (tag : String) : Except Diagnostic Plugin :=
  match c.dispatch.get? tag with
  | some plugin => .ok plugin
  | none => .error (.unknownType c.label tag c.tags)

/-- Compiles a mapping in the category under a key, with a given way of compiling the descriptions inside it. -/
def compileMembersWith (compile : Compile) (key : String) (members : Members) : Action Handle := do
  let c ← Action.ask (·.category key)
  let d ← Action.ofExcept (Description.ofMembers c.label c.tags members)
  let plugin ← Action.ofExcept (pluginFor c d.tag)
  let object ← (plugin.buildWith compile d.input).onError
    fun e => (e.inCategory c.label).note (d.activity c.label)
  registerObject key object d.name

/-! ## Descriptions -/

/-- The object bound to a name in the category under a key. -/
def lookUp (key name : String) : Action Handle := fun r =>
  let c := r.category key
  match c.named.get? name with
  | some h => (.ok h, r)
  | none => (.error (.unknownName c.label name c.names), r)

/-- Refuses what is neither a name nor a mapping. -/
def refuse (key : String) (raw : Json) : Action Handle := fun r =>
  let label := (r.category key).label
  let got := raw.typeName
  (.error ((Diagnostic.invalidInput s!"a {label} description must be a name or a mapping, got {got}").inCategory
    label), r)

/-- Compiles a description, with a given way of compiling those inside it. -/
def compileWith (compile : Compile) (key : String) : Json → Action Handle
  | .str name => lookUp key name
  | .obj members => compileMembersWith compile key members
  | other => refuse key other

/-- Compiles descriptions that are nested at most `depth` deep. -/
def compileTo : Nat → Compile
  | 0 => compileWith refuse
  | depth + 1 => compileWith (compileTo depth)

/-- Compiles a description in the category under a key. -/
def compile (key : String) (raw : Json) : Action Handle := compileTo raw.depth key raw

/-- Compiles a description or a list of them in the category under a key, keeping the shape. -/
def call (key : String) (raw : Json) : Action Value := callWith compile key raw

def Loader.load (loader : Loader) (raw : Json) : Action Value := loader.loadWith compile raw

def Parameter.resolve (p : Parameter) (raw : Json) : Action Value := p.resolveWith compile raw

def Plugin.arguments (p : Plugin) (input : Members) : Action Arguments := p.argumentsWith compile input

/-- The object that an input describes, not yet registered. -/
def Plugin.build (p : Plugin) (input : Members) : Action Object := p.buildWith compile input

end Blueprint
