import Blueprint.Registry.Action

/-!
# Registration

Declaring a category claims its name and its aliases; registering a plugin claims its tag and aliases within its
category, which is created if it is not there. A batch registers all declarations before the first plugin, so a plugin
may name its category by an alias that is declared in the same batch.
-/

namespace Blueprint

/-- What a plugin module hands to the registry. -/
inductive Registration where
  | category (declaration : CategoryDeclaration)
  | plugin (plugin : Plugin)

def Registration.isCategory : Registration → Bool
  | .category _ => true
  | .plugin _ => false

namespace Registry

/-- Whether a key is an alias, a category or a declared category. -/
def occupies (r : Registry) (key : String) : Bool :=
  r.aliases.contains key || r.categories.contains key || r.declarations.contains key

/-- The keys of the aliases of a declaration: the name of the category itself and repeats are passed over, a key that is
in use is an error. `found` are those collected so far. -/
def aliasKeys (r : Registry) (name key : String) (found : List String) :
    List String → Except Diagnostic (List String)
  | [] => .ok found
  | spelling :: spellings =>
    let aliasKey := Key.clean spelling
    if aliasKey == key || found.contains aliasKey then r.aliasKeys name key found spellings
    else if r.occupies aliasKey then
      .error ((Diagnostic.duplicateRegistration "category" spelling).suggest
        s!"Alias '{spelling}' of '{name}' collides with an existing category")
    else r.aliasKeys name key (found ++ [aliasKey]) spellings

/-- Adds a declaration under a key, with its aliases; an existing category is adopted. -/
def addDeclaration (r : Registry) (key : String) (d : CategoryDeclaration) (keys : List String) : Registry :=
  let r := { r with declarations := r.declarations.insert key d }.ensure key
  { r with aliases := r.aliases.insertAll (keys.map fun a => (a, key)) }

def declare (d : CategoryDeclaration) : Action Unit := fun r =>
  let key := r.canonical d.name
  if r.declarations.contains key || r.aliases.contains (Key.clean d.name) then
    (.error (.duplicateRegistration "category" d.name), r)
  else match r.aliasKeys d.name key [] d.aliases with
    | .error e => (.error e, r)
    | .ok keys => (.ok (), r.addDeclaration key d keys)

/-- Binds tags of the category that a name leads to, created if need be. -/
def bindTags (category : String) (plugin : Plugin) (tags : List String) : Action Unit := fun r =>
  let r := r.ensure category
  let key := r.canonical category
  match (r.category key).bind plugin tags with
  | .error e => (.error e, r)
  | .ok c => (.ok (), r.setCategory key c)

/-- Registers a plugin in its category under all its names. -/
def register (p : Plugin) : Action Unit := bindTags p.category p p.registrationNames

def registerOne : Registration → Action Unit
  | .category d => declare d
  | .plugin p => register p

/-- Registers items one after the other, up to the first conflict. -/
def registerEach : List Registration → Action Unit
  | [] => pure ()
  | item :: items => do
    registerOne item
    registerEach items

/-- Registers a batch: declarations first, then plugins, both in the order given. -/
def registerAll (items : List Registration) : Action Unit :=
  registerEach (items.filter Registration.isCategory ++ items.filter fun i => !i.isCategory)

end Registry
end Blueprint
