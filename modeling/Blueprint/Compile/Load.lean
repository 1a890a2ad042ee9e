import Blueprint.Registry.Action

/-!
# Loading values

A loader is run with a given way of compiling one description in a category: `loadWith` says how lists, references and
scalars come out, and leaves the recursion through inline descriptions to its argument.
-/

namespace Blueprint

abbrev Compile := String → Json → Action Handle

/-- The key of the category that a name leads to, which has to exist. -/
def resolve (name : String) : Action String := fun r =>
  let key := r.canonical name
  if r.categories.contains key then (.ok key, r) else (.error (.unresolvedCompiler name), r)

/-- The objects of a list of descriptions, or the object of a single one. -/
def callWith (compile : Compile) (key : String) : Json → Action Value
  | .arr items => do
    let handles ← Action.each (compile key) items
    return .list (handles.map Value.object)
  | single => do
    let h ← compile key single
    return .object h

/-- The object or objects of the category that a name leads to. -/
def callNamed (compile : Compile) (name : String) (raw : Json) : Action Value := do
  let key ← resolve name
  callWith compile key raw

namespace Loader

/-- The value of a description. A failing item of a list leaves a note of its position. -/
def loadWith (compile : Compile) : Loader → Json → Action Value
  | .read reader, raw => Action.ofExcept ((reader.read raw).mapError Diagnostic.ofLoadError)
  | .category name, raw => callNamed compile name raw
  | .listOf item, raw => do
    let values ← Action.eachFrom
      (fun i x => (item.loadWith compile x).onError (·.note s!"in list item {i}")) 0 raw.itemsOrSelf
    return .list values

end Loader

def Parameter.resolveWith (compile : Compile) (p : Parameter) (raw : Json) : Action Value :=
  (p.loader.loadWith compile raw).onError (·.forParameter p.name)

namespace Plugin

/-- The untouched defaults of the optional parameters. -/
def defaults (p : Plugin) : Arguments :=
  Dict.ofList (p.optionalParameters.filterMap fun q => q.default.map fun value => (q.name, value))

/-- Loads the parameters that the input has a value for, in order. -/
def loadParameters (compile : Compile) (p : Plugin) (input : Members) (args : Arguments) :
    List Parameter → Action Arguments
  | [] => pure args
  | q :: qs =>
    match Entries.get? q.name input with
    | none => p.loadParameters compile input args qs
    | some raw => do
      let value ← (q.resolveWith compile raw).onError (·.inPlugin p.tag)
      p.loadParameters compile input (args.insert q.name value) qs

/-- Adds the keys that are no parameters, as they are. -/
def addUndeclared (p : Plugin) (args : Arguments) (input : Members) : Arguments :=
  args.insertAll ((input.filter fun m => (p.parameter? m.1).isNone).map fun m => (m.1, Value.ofJson m.2))

/-- The arguments that an input stands for. Every required parameter has to be there before anything is loaded; then
required parameters are loaded before optional ones, each group in the order of declaration. -/
def argumentsWith (compile : Compile) (p : Plugin) (input : Members) : Action Arguments :=
  match p.requiredParameters.find? fun q => (Entries.get? q.name input).isNone with
  | some missing => Action.fail (.missingRequiredParameter p.tag missing.name)
  | none => do
    let args ← p.loadParameters compile input p.defaults (p.requiredParameters ++ p.optionalParameters)
    return p.addUndeclared args input

/-- The object that an input describes, not yet registered. -/
def buildWith (compile : Compile) (p : Plugin) (input : Members) : Action Object := do
  let args ← p.argumentsWith compile input
  let store ← Action.ask Registry.store
  Action.ofExcept ((p.builder.build store args).mapError (Diagnostic.ofBuildError p.tag))

end Plugin
end Blueprint
