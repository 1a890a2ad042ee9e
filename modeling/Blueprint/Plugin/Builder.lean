import Blueprint.Diagnostic.Basic
import Blueprint.Object.Basic

/-!
# Builders

A builder makes an object of arguments: a remapping prepares the arguments for the constructor, and a finishing step
sees the object together with the arguments as they were before the remapping. Constructors may be registered under a
path; a builder that asks for an unknown path is refused when it is made, not in the middle of a compilation.
-/

namespace Blueprint

/-- Makes an object of its arguments; the store shows the objects that the arguments refer to. -/
abbrev Constructor := Store → Arguments → Except BuildError Object

/-- A constructor with the steps around it. -/
structure Builder where
  construct : Constructor
  /-- The path that the constructor was registered under. -/
  path : Option String := none
  remap : Arguments → Arguments := id
  finish : Object → Arguments → Except BuildError Object := fun object _ => .ok object

namespace Builder

def build (b : Builder) (store : Store) (args : Arguments) : Except BuildError Object := do
  let object ← b.construct store (b.remap args)
  b.finish object args

end Builder

/-- Constructors by path. -/
abbrev Constructors := Dict Constructor

/-- The builder around a registered constructor. -/
def Builder.ofPath (constructors : Constructors) (path : String) : Except Diagnostic Builder :=
  match constructors.get? path with
  | some construct => .ok { construct, path := some path }
  | none => .error (.unknownConstructor path)

end Blueprint
