import Blueprint.Decimal.Layout

/-!
# Why a value cannot be loaded, and why an object cannot be built

Loaders fail with a `LoadError`, constructors with a `BuildError`. Each constructor is one cause; `message` words it.
-/

namespace Blueprint

inductive LoadError where
  | typeMismatch (expected got : String)
  | expression (text : String)
  | notAnInteger (x : Float)
  | notPositive (value : String)
  | invalidChoice (got : String) (choices : List String)
  | invalid (message : String)

inductive BuildError where
  | missingArgument (argument : String)
  | wrongType (argument expected got : String)
  | invalid (message : String)

def LoadError.message : LoadError → String
  | .typeMismatch expected got => s!"expected {expected}, got {got}"
  | .expression text => s!"cannot evaluate '{text}'"
  | .notAnInteger x =>
    let value := Decimal.message.render x
    s!"expected an integer, got {value}"
  | .notPositive value => s!"expected a strictly positive value, got {value}"
  | .invalidChoice got choices =>
    let listed := ", ".intercalate choices
    s!"'{got}' is not one of: {listed}"
  | .invalid message => message

def BuildError.message : BuildError → String
  | .missingArgument argument => s!"missing argument '{argument}'"
  | .wrongType argument expected got => s!"argument '{argument}': expected {expected}, got {got}"
  | .invalid message => message

end Blueprint
