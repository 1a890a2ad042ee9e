import Blueprint.Decimal.Scaling
import Blueprint.Json.Basic

/-!
# Number literals of JSON

A literal is kept in its parts. Its float is the nearest one, or the one that scaling the digits comes to, which is the
way that documents in files are read.
-/

namespace Blueprint.Json

/-- How a decimal becomes a float. -/
inductive Rounding where
  | nearest
  | scaled
deriving DecidableEq, Repr

/-- A number as written: its sign, the digits before and behind the point, and the power of ten if it has one. -/
structure Literal where
  negative : Bool
  whole : List Char
  fraction : Option (List Char)
  power : Option Int
deriving DecidableEq, Repr

namespace Literal

def integer? (l : Literal) : Option Int :=
  if l.fraction.isSome || l.power.isSome then none
  else
    let n := Text.digitsValue l.whole
    some (if l.negative then -(n : Int) else n)

/-- The magnitude as a float; beyond the float range there is none. -/
def magnitude? (rounding : Rounding) (l : Literal) : Option Float :=
  let fraction := l.fraction.getD []
  let power := l.power.getD 0
  match rounding with
  | .nearest =>
    let x := Decimal.Scaled.toFloat ⟨Text.digitsValue (l.whole ++ fraction), power - fraction.length⟩
    if x.isFinite then some x else none
  | .scaled => (Decimal.kept l.whole fraction power).scale?

def float? (rounding : Rounding) (l : Literal) : Option Float :=
  (l.magnitude? rounding).map fun x => if l.negative then -x else x

/-- The number that a literal stands for. An integer that no word holds, and minus zero, are floats. -/
def number? (rounding : Rounding) (l : Literal) : Option Number :=
  match l.integer? with
  | some n =>
    if Number.isAnyWord n && !(l.negative && n = 0) then some (.integer n) else (l.float? rounding).map .float
  | none => (l.float? rounding).map .float

end Literal
end Blueprint.Json
