import Blueprint.Diagnostic.Basic
import Blueprint.Json.Fields

/-!
# Diagnostics in exchange

A diagnostic is written as a JSON object that omits what is unset, so the empty location differs from none. It is read
back from the same object, with its members in any order, others ignored and null for what is unset; a structure may
also stand as the list of its fields in order, where only the notes may be left out. A repeated field is refused.
-/

namespace Blueprint

/-! ## Writing -/

def textMember (key : String) (value : Option String) : Members :=
  match value with
  | some s => [(key, .str s)]
  | none => []

namespace Location

def toJson (l : Location) : Json :=
  .obj (textMember "category" l.category ++ textMember "plugin" l.plugin ++ textMember "parameter" l.parameter ++
    textMember "name" l.name ++ (if l.notes.isEmpty then [] else [("notes", .arr (l.notes.map Json.str))]))

end Location

namespace Diagnostic

def toJson (d : Diagnostic) : Json :=
  .obj ([("code", .str d.code), ("message", .str d.message)] ++ textMember "suggestion" d.suggestion ++
    (match d.location with
      | some l => [("context", l.toJson)]
      | none => []))

end Diagnostic

/-! ## Reading -/

namespace Json.Source

def optionalText? : Source → Option (Option String)
  | .null => some none
  | s => s.text?.map some

/-- An optional text that may also be absent. -/
def optionalField? (key : String) (members : List (Option String × Source)) : Option (Option String) := do
  match ← field? key members with
  | some s => s.optionalText?
  | none => some none

end Json.Source

open Json (Source)

namespace Location

def ofSource? : Source → Option Location
  | .obj members => do
    guard (Source.keysValid members)
    let category ← Source.optionalField? "category" members
    let plugin ← Source.optionalField? "plugin" members
    let parameter ← Source.optionalField? "parameter" members
    let name ← Source.optionalField? "name" members
    let notes ← match ← Source.field? "notes" members with
      | some s => s.texts?
      | none => some []
    some { category, plugin, parameter, name, notes }
  | .arr (category :: plugin :: parameter :: name :: rest) => do
    let category ← category.optionalText?
    let plugin ← plugin.optionalText?
    let parameter ← parameter.optionalText?
    let name ← name.optionalText?
    let notes ← match rest with
      | [] => some []
      | [notes] => notes.texts?
      | _ => none
    some { category, plugin, parameter, name, notes }
  | _ => none

def optional? : Source → Option (Option Location)
  | .null => some none
  | s => (ofSource? s).map some

end Location

namespace Diagnostic

def ofSource? : Source → Option Diagnostic
  | .obj members => do
    guard (Source.keysValid members)
    let code ← (← Source.field? "code" members).bind Source.text?
    let message ← (← Source.field? "message" members).bind Source.text?
    let suggestion ← Source.optionalField? "suggestion" members
    let location ← match ← Source.field? "context" members with
      | some s => Location.optional? s
      | none => some none
    some { code, message, suggestion, location }
  | .arr [code, message, suggestion, location] => do
    let code ← code.text?
    let message ← message.text?
    let suggestion ← suggestion.optionalText?
    let location ← Location.optional? location
    some { code, message, suggestion, location }
  | _ => none

def parse? (text : String) : Option Diagnostic := (Source.read? .nearest text).bind ofSource?

end Diagnostic
end Blueprint
