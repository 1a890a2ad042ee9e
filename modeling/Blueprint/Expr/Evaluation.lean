import Blueprint.Expr.Reading
import Blueprint.Failure

/-!
# Evaluating arithmetic expressions

A row is evaluated by precedence climbing: an operand is followed by every operator that binds tighter than the one in
front of it. Sums and differences bind loosest, then products and quotients, then signs, then powers; powers associate
to the right and the others to the left. A row in which an operator or an operand is missing has no outcome. A text
evaluates to a finite float or not at all.
-/

namespace Blueprint

inductive Operator where
  | add
  | sub
  | mul
  | div
  | pow
deriving DecidableEq, Repr

namespace Expr

def pi : Float := Float.ofBits 0x400921FB54442D18

def euler : Float := Float.ofBits 0x4005BF0A8B145769

def infinity : Float := Float.ofBits 0x7FF0000000000000

def constantValue (name : List Char) : Except LoadError Float :=
  match String.ofList name with
  | "pi" => .ok pi
  | "e" => .ok euler
  | "inf" => .ok infinity
  | name => .error (.invalid s!"unknown constant '{name}'")

/-- A logarithm of a positive number. -/
def logarithm (log : Float → Float) (x : Float) : Except LoadError Float :=
  let text := Decimal.message.render x
  if x ≤ 0 then .error (.invalid s!"log of non-positive value {text}") else .ok (log x)

def apply (function : List Char) (x : Float) : Except LoadError Float :=
  match String.ofList function with
  | "sqrt" =>
    let text := Decimal.message.render x
    if x < 0 then .error (.invalid s!"sqrt of negative value {text}") else .ok x.sqrt
  | "exp" => .ok x.exp
  | "ln" => logarithm Float.log x
  | "log" => logarithm Float.log x
  | "log10" => logarithm Float.log10 x
  | "sin" => .ok x.sin
  | "cos" => .ok x.cos
  | "tan" => .ok x.tan
  | "abs" => .ok x.abs
  | name => .error (.invalid s!"unknown function '{name}'")

def operate (op : Operator) (x y : Float) : Except LoadError Float :=
  match op with
  | .add => .ok (x + y)
  | .sub => .ok (x - y)
  | .mul => .ok (x * y)
  | .div => if y == 0 then .error (.invalid "division by zero") else .ok (x / y)
  | .pow => .ok (x.pow y)

abbrev Outcome : Type := Except LoadError Float

/-! ## Climbing -/

/-- Where an operator stands, and how tightly it binds. -/
inductive Fixity where
  | before (strength : Nat)
  | leftward (strength : Nat)
  | rightward (strength : Nat)
deriving DecidableEq, Repr

def Fixity.strength : Fixity → Nat
  | .before n => n
  | .leftward n => n
  | .rightward n => n

/-- How tightly operators must bind to belong to the operand behind this one. -/
def Fixity.floor : Fixity → Nat
  | .before n => n - 1
  | .leftward n => n
  | .rightward n => n - 1

/-- The operators; every other node is an operand. -/
def Node.fixity? : Node → Option Fixity
  | .token .add _ => some (.leftward 10)
  | .token .sub _ => some (.leftward 10)
  | .token .mul _ => some (.leftward 20)
  | .token .div _ => some (.leftward 20)
  | .token .neg _ => some (.before 30)
  | .token .pow _ => some (.rightward 40)
  | _ => none

def Node.text : Node → List Char
  | .token _ text => text
  | _ => []

/-- The outcome behind a sign. -/
def negate (sign : Node) (outcome : Outcome) : Outcome :=
  match sign with
  | .token .neg _ => do return -(← outcome)
  | sign => .error (.expression (String.ofList sign.text))

/-- The outcome of two operands and the operator between them; the left one fails first. -/
def combine (left : Outcome) (operator : Node) (right : Outcome) : Outcome := do
  let x ← left
  let y ← right
  match operator with
  | .token .add _ => operate .add x y
  | .token .sub _ => operate .sub x y
  | .token .mul _ => operate .mul x y
  | .token .div _ => operate .div x y
  | .token .pow _ => operate .pow x y
  | operator => .error (.expression (String.ofList operator.text))

/-- A node of a row, with its outcome should it be an operand. -/
structure Item where
  node : Node
  outcome? : Option Outcome

mutual
/-- An operand and all operators behind it that bind tighter than `floor`, with their operands. -/
def climb? : Nat → Nat → List Item → Option (Outcome × List Item)
  | 0, _, _ => none
  | fuel + 1, floor, items => do
    let (left, items) ← operand? fuel items
    extend? fuel floor left items

def operand? : Nat → List Item → Option (Outcome × List Item)
  | 0, _ => none
  | _ + 1, [] => none
  | fuel + 1, item :: items =>
    match item.node.fixity? with
    | none => do some (← item.outcome?, items)
    | some (.before strength) => do
      let (operand, items) ← climb? fuel (Fixity.before strength).floor items
      some (negate item.node operand, items)
    | some _ => none

/-- What follows an outcome; an operand has no place there. -/
def extend? : Nat → Nat → Outcome → List Item → Option (Outcome × List Item)
  | 0, _, _, _ => none
  | _ + 1, _, left, [] => some (left, [])
  | fuel + 1, floor, left, item :: items => do
    let fixity ← item.node.fixity?
    if floor < fixity.strength then
      match fixity with
      | .before _ => none
      | fixity => do
        let (right, items) ← climb? fuel fixity.floor items
        extend? fuel floor (combine left item.node right) items
    else some (left, item :: items)
end

/-- The outcome of a row. A step of climbing passes an item, or is followed by one that does. -/
def climbRow? (items : List Item) : Option Outcome :=
  (climb? (2 * items.length + 1) 0 items).map Prod.fst

/-! ## Rows -/

def numberValue (text : List Char) : Outcome :=
  match readLiteral? text with
  | some (l, []) => .ok l.value
  | _ => .error (.expression (String.ofList text))

mutual
/-- The outcome of a node as an operand. -/
def Node.outcome? : Node → Option Outcome
  | .token .number text => some (numberValue text)
  | .token .constant text => some (constantValue text)
  | .token _ text => some (.error (.expression (String.ofList text)))
  | .call (function :: .row nodes :: _) =>
    (climbRow? (itemsOf nodes)).map fun argument => do apply function.text (← argument)
  | .call (_ :: _ :: _) => none
  | .call _ => some (.error (.expression "malformed function call"))
  | .row nodes => climbRow? (itemsOf nodes)

def itemsOf : List Node → List Item
  | [] => []
  | node :: nodes => ⟨node, node.outcome?⟩ :: itemsOf nodes
end

/-- The value of a text, if it is finite. -/
def checkFinite (text : String) (x : Float) : Outcome :=
  if x.isFinite then .ok x else .error (.invalid s!"'{text}' does not evaluate to a finite number")

/-- What a text evaluates to, if the climbing of its rows comes to an end. -/
def evaluate? (text : String) : Option Outcome :=
  match parse? text.toList with
  | some (.row nodes :: _) => (climbRow? (itemsOf nodes)).map fun outcome => do checkFinite text (← outcome)
  | _ => some (.error (.expression text))

/-- The finite value of a text. -/
def evaluate (text : String) : Outcome := (evaluate? text).getD (.error (.expression text))

end Expr
end Blueprint
