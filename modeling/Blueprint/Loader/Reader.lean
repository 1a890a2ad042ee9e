import Blueprint.Expr.Evaluation
import Blueprint.Value

/-!
# Readers

A reader turns one description into a typed value by looking at the description alone. Numbers may be written as JSON
numbers or as texts that hold an arithmetic expression.
-/

namespace Blueprint

inductive Reader where
  /-- A number, as a float. -/
  | float
  /-- A number without fraction that a signed 64-bit word holds. -/
  | integer
  /-- An integer above zero. -/
  | positiveInteger
  | text
  | flag
  /-- One of the given texts. -/
  | choice (choices : List String)
  /-- Anything, without interpretation. -/
  | passthrough
  /-- A function of the description, with what it says about itself. -/
  | custom (read : Json → Except LoadError Value) (jsonType : Option Json) (description : Option String)

namespace Reader

def mismatch (expected : String) (raw : Json) : LoadError := .typeMismatch expected raw.typeName

/-- A number, or the value of an expression. -/
def readNumber (raw : Json) : Except LoadError Float :=
  match raw with
  | .num n => .ok n.toFloat
  | .str s => Expr.evaluate s
  | _ => .error (mismatch "Float" raw)

/-- The integer that a float without fraction is, if a signed 64-bit word holds it too. As a float the least word is
exact; the greatest one rounds up to the 63rd power of two, which is out of range. -/
def wordOfFloat (x : Float) : Except LoadError Int :=
  if Decimal.fraction x != 0 || Float.ofInt (Number.wordBound - 1) ≤ x || x < Float.ofInt (-Number.wordBound) then
    .error (.notAnInteger x)
  else .ok x.toModel.toInt64.toInt

/-- An integer, written as one or as a number with an integral value. -/
def readInteger (raw : Json) : Except LoadError Int :=
  let evaluated : Except LoadError Int := do wordOfFloat (← readNumber raw)
  match raw with
  | .num n =>
    match n.toWord? with
    | some i => .ok i
    | none => evaluated
  | _ => evaluated

/-- The value of a description. -/
def read : Reader → Json → Except LoadError Value
  | .float, raw => do return .float (← readNumber raw)
  | .integer, raw => do return .int (← readInteger raw)
  | .positiveInteger, raw => do
    let n ← readInteger raw
    if n ≤ 0 then .error (.notPositive (toString n)) else .ok (.int n)
  | .text, .str s => .ok (.text s)
  | .text, raw => .error (mismatch "Text" raw)
  | .flag, .bool b => .ok (.bool b)
  | .flag, raw => .error (mismatch "Bool" raw)
  | .choice choices, .str s => if choices.contains s then .ok (.text s) else .error (.invalidChoice s choices)
  | .choice _, raw => .error (mismatch "Text" raw)
  | .passthrough, raw => .ok (Value.ofJson raw)
  | .custom f _ _, raw => f raw

/-- The JSON schema type of what is accepted: a name or a fragment. -/
def jsonType? : Reader → Option Json
  | .float => some (.obj [("type", .arr [.str "number", .str "string"])])
  | .integer => some (.obj [("type", .arr [.str "integer", .str "string"])])
  | .positiveInteger =>
    some (.obj [("type", .arr [.str "integer", .str "string"]), ("exclusiveMinimum", .num (.integer 0))])
  | .text => some (.str "string")
  | .flag => some (.str "boolean")
  | .choice choices => some (.obj [("type", .str "string"), ("enum", .arr (choices.map Json.str))])
  | .passthrough => none
  | .custom _ jsonType _ => jsonType

/-- What is accepted, in words. -/
def description? : Reader → Option String
  | .float => some "A number or an arithmetic expression such as \"2 * pi\""
  | .integer => some "An integer or an expression evaluating to one"
  | .positiveInteger => some "A strictly positive integer or an expression evaluating to one"
  | .text | .flag | .passthrough => none
  | .choice choices =>
    let listed := ", ".intercalate choices
    some s!"One of: {listed}"
  | .custom _ _ description => description

/-- Any JSON number, as a float; a text is not evaluated. -/
def plainNumber (raw : Json) : Except LoadError Value :=
  match raw with
  | .num n => .ok (.float n.toFloat)
  | _ => .error (mismatch "Float" raw)

end Reader
end Blueprint
