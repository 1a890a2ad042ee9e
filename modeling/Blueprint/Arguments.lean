import Blueprint.Failure
import Blueprint.Value

/-!
# Arguments of a constructor

A constructor takes typed values by name. The typed accessors say which argument is missing or has the wrong type.
-/

namespace Blueprint

abbrev Arguments := Dict Value

namespace Arguments

/-- Moves an argument to another name, over any argument of that name; an absent one is left alone. -/
def rename (args : Arguments) (key target : String) : Arguments :=
  match args.get? key with
  | some value => (args.erase key).insert target value
  | none => args

/-- The value of an argument that has to be there. -/
def required (args : Arguments) (key : String) : Except BuildError Value :=
  match args.get? key with
  | some value => .ok value
  | none => .error (.missingArgument key)

/-- An argument seen through an accessor of values. -/
def typed {α : Type} (expected : String) (view : Value → Option α) (args : Arguments) (key : String) :
    Except BuildError α := do
  let value ← args.required key
  match view value with
  | some a => .ok a
  | none => .error (.wrongType key expected value.typeName)

def text : Arguments → String → Except BuildError String := typed "Text" Value.text?

def int : Arguments → String → Except BuildError Int := typed "Int" Value.int?

def float : Arguments → String → Except BuildError Float := typed "Float" Value.float?

def bool : Arguments → String → Except BuildError Bool := typed "Bool" Value.bool?

def object : Arguments → String → Except BuildError Handle := typed "Object" Value.object?

def list : Arguments → String → Except BuildError (List Value) := typed "List" Value.list?

/-- The handles in a list that holds nothing else. -/
def handles (key : String) : List Value → Except BuildError (List Handle)
  | [] => .ok []
  | item :: items =>
    match item.object? with
    | some h => (handles key items).map (h :: ·)
    | none => .error (.wrongType key "List<Object>" item.typeName)

def objects (args : Arguments) (key : String) : Except BuildError (List Handle) := do
  handles key (← args.list key)

/-- Equality as the program compares arguments. -/
def equal (a b : Arguments) : Bool := Value.equalEntries a.entries b.entries

end Arguments
end Blueprint
