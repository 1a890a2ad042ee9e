import Blueprint.Json.Fields
import Blueprint.Key

/-!
# The compile order

A document is compiled category by category, in a configured order; what to do with a category that the order does not
list is configured too. The entries of the order have to be distinct as category keys. A configuration is read from a
JSON object whose members may be absent, or from the list of its fields.
-/

namespace Blueprint

/-- What to do with categories that the compile order does not list. -/
inductive UnknownCategories where
  /-- Compile them after all others, as they come. -/
  | last
  /-- Refuse the document. -/
  | reject
deriving DecidableEq, Repr

structure CompileOrder where
  order : List String
  unknown : UnknownCategories
deriving DecidableEq, Repr

inductive OrderError where
  | malformed
  | duplicateCategory (category : String)
deriving DecidableEq, Repr

def OrderError.message : OrderError → String
  | .malformed => "Invalid compile configuration"
  | .duplicateCategory category => s!"Compile order lists '{category}' twice"

namespace UnknownCategories

def name : UnknownCategories → String
  | .last => "last"
  | .reject => "reject"

def ofName? : String → Option UnknownCategories
  | "last" => some .last
  | "reject" => some .reject
  | _ => none

/-- A choice is written as its name, or as an object whose one member has that name and is null. -/
def ofSource? : Json.Source → Option UnknownCategories
  | .str (some name) => ofName? name
  | .obj [(some name, .null)] => ofName? name
  | _ => none

end UnknownCategories

namespace CompileOrder

/-- Engines first, then what is built on them. -/
def standard : CompileOrder where
  order := ["engine", "cv", "volume", "state", "network", "movescheme"]
  unknown := .last

instance : Inhabited CompileOrder := ⟨standard⟩

/-- The first entry whose key was seen before. -/
def repeated? (seen : List String) : List String → Option String
  | [] => none
  | category :: rest =>
    if seen.contains (Key.clean category) then some category else repeated? (Key.clean category :: seen) rest

/-- Refuses an order that lists a category twice. -/
def validate (c : CompileOrder) : Except OrderError Unit :=
  match repeated? [] c.order with
  | some category => .error (.duplicateCategory category)
  | none => .ok ()

def toJson (c : CompileOrder) : Json :=
  .obj [("compile_order", .arr (c.order.map Json.str)), ("unknown_categories", .str c.unknown.name)]

end CompileOrder

/-! ## Reading a configuration -/

namespace CompileOrder

open Json (Source)

/-- A configuration without its check. -/
def ofSource? : Source → Option CompileOrder
  | .obj members => do
    guard (Source.keysValid members)
    let order ← match ← Source.field? "compile_order" members with
      | some s => s.texts?
      | none => some standard.order
    let unknown ← match ← Source.field? "unknown_categories" members with
      | some s => UnknownCategories.ofSource? s
      | none => some standard.unknown
    some { order, unknown }
  | .arr [] => some standard
  | .arr [order] => do
    let order ← order.texts?
    some { order, unknown := standard.unknown }
  | .arr [order, unknown] => do
    let order ← order.texts?
    let unknown ← UnknownCategories.ofSource? unknown
    some { order, unknown }
  | _ => none

def parse (text : String) : Except OrderError CompileOrder :=
  match (Source.read? .nearest text).bind ofSource? with
  | none => .error .malformed
  | some c => c.validate.map fun _ => c

end CompileOrder
end Blueprint
