import Blueprint.Expr.Token
import Blueprint.Json.Basic

/-!
# Plain scalars of YAML

A scalar without quotes is null, a truth value, a number or a text by the way it is written. Digits after a leading zero
make a text; an integer may be hexadecimal, octal or binary; infinities and NaN have no JSON number and become null. An
integer beyond 64 bits is refused while 128 bits hold it, and is a float or a text beyond them.
-/

namespace Blueprint.Yaml

/-- The value of digits in a base, at least one of them. -/
def digitsIn? (base : Nat) (ds : List Char) : Option Nat :=
  if ds.isEmpty then none
  else ds.foldlM (fun n d =>
    let digit := if d.isDigit then d.toNat - 48
      else if 'a' ≤ d ∧ d ≤ 'f' then d.toNat - 87
      else if 'A' ≤ d ∧ d ≤ 'F' then d.toNat - 55
      else base
    if digit < base then some (n * base + digit) else none) 0

/-- Several digits of which the first is a zero. -/
def isPadded (cs : List Char) : Bool :=
  match (Text.splitSign cs).2 with
  | '0' :: d :: ds => (d :: ds).all Char.isDigit
  | _ => false

def magnitude? (cs : List Char) : Option Nat :=
  match cs with
  | '0' :: 'x' :: ds => digitsIn? 16 ds
  | '0' :: 'o' :: ds => digitsIn? 8 ds
  | '0' :: 'b' :: ds => digitsIn? 2 ds
  | ds => digitsIn? 10 ds

def integer? (cs : List Char) : Option Int :=
  if isPadded cs then none
  else
    let (sign, rest) := Text.splitSign cs
    (magnitude? rest).map fun n => if sign = some '-' then -(n : Int) else n

/-- The 127th power of two. -/
def wideBound : Int := 170141183460469231731687303715884105728

/-- Whether 128 bits hold an integer, signed or not. -/
def isWide (n : Int) : Bool := -wideBound ≤ n && n < 2 * wideBound

def float? (cs : List Char) : Option Float :=
  if isPadded cs then none
  else
    let (sign, rest) := Text.splitSign cs
    match Expr.readLiteral? rest with
    | some (l, []) => some (if sign = some '-' then -l.value else l.value)
    | _ => none

/-- Whether a scalar is written as infinity or as no number. -/
def isSpecial (text : String) : Bool :=
  [".inf", ".Inf", ".INF", "+.inf", "+.Inf", "+.INF", "-.inf", "-.Inf", "-.INF", ".nan", ".NaN", ".NAN"].contains text

def floatOrText (cs : List Char) : Json :=
  match float? cs with
  | some x => if x.isFinite then .num (.float x) else .str (String.ofList cs)
  | none => .str (String.ofList cs)

/-- The value of a plain scalar, unless it is an integer that is refused. -/
def plainValue? (cs : List Char) : Option Json :=
  let text := String.ofList cs
  if ["", "~", "null", "Null", "NULL"].contains text || isSpecial text then some .null
  else if ["true", "True", "TRUE"].contains text then some (.bool true)
  else if ["false", "False", "FALSE"].contains text then some (.bool false)
  else match integer? cs with
    | some n =>
      if Number.isAnyWord n then some (.num (.integer n))
      else if isWide n then none
      else some (floatOrText cs)
    | none => some (floatOrText cs)

end Blueprint.Yaml
