import Blueprint.Compile.Basic
import Blueprint.Document.Order

/-!
# Documents

A document maps category names to descriptions. Its sections are compiled in the order of their rank: the first
position in the compile order whose category is the section's, or the position after all others. Sections of one rank
keep their order in the document.
-/

namespace Blueprint

namespace CompileOrder

/-- The keys of the categories in a compile order. -/
def keys (c : CompileOrder) (r : Registry) : List String := c.order.map r.canonical

/-- The rank of a section among the keys of a compile order, if it has one. -/
def rank? (keys : List String) (r : Registry) (section_ : String) : Option Nat :=
  keys.findIdx? (· == r.canonical section_)

/-- The section names with their ranks. Without a rank a section comes last, or the document is refused. -/
def ranked (c : CompileOrder) (r : Registry) : List String → Except Diagnostic (List (Nat × String))
  | [] => .ok []
  | name :: names =>
    match rank? (c.keys r) r name, c.unknown with
    | some rank, _ => (c.ranked r names).map ((rank, name) :: ·)
    | none, .last => (c.ranked r names).map (((c.keys r).length, name) :: ·)
    | none, .reject => .error (.unknownCategory (r.canonical name) (c.keys r))

/-- The names of all ranks from `0` to `last`, those of one rank in their order. -/
def byRank (last : Nat) (names : List (Nat × String)) : List String :=
  (List.range (last + 1)).flatMap fun rank => (names.filter (·.1 == rank)).map (·.2)

/-- The section names in the order in which they are compiled. -/
def sorted (c : CompileOrder) (r : Registry) (names : List String) : Except Diagnostic (List String) :=
  (c.ranked r names).map (byRank c.order.length)

end CompileOrder

namespace Document

/-- Compiles the descriptions of a category, one after the other. -/
def compileAll (key : String) : List Json → Action (List Handle) :=
  Action.each fun raw => do
    let label ← Action.ask fun r => (r.category key).label
    (compile key raw).onError (·.inCategory label)

/-- Compiles a section: its category is created if it is not there, and a single description is a list of one. -/
def compileSection (sections : Members) (name : String) : Action (List Handle) := do
  Action.change (·.ensure name)
  let key ← Action.ask (·.canonical name)
  compileAll key (((Entries.get? name sections).getD (.arr [])).itemsOrSelf)

/-- Compiles a document and returns its objects in the order of compilation. The first failure ends the run; what was
registered before it stays. -/
def compile (c : CompileOrder) (document : Json) : Action (List Handle) :=
  match document with
  | .obj sections => do
    let names ← fun r => (c.sorted r (sections.map (·.1)), r)
    return (← Action.each (compileSection sections) names).flatten
  | other =>
    let got := other.typeName
    Action.fail (.invalidInput s!"Expected a mapping of category names to descriptions, got {got}")

end Document
end Blueprint
