import Blueprint.Decimal.Shortest

/-!
# Written floats

The text of a float is its shortest decimal, laid out by a `Layout`: up to where it is written positionally, and
what a whole number ends in. Two layouts are in use, one inside messages and one inside JSON text.
-/

namespace Blueprint.Decimal

structure Layout where
  /-- Which of two equally near decimals is taken. -/
  tie : Tie
  /-- Whether a leading digit of this power of ten is written positionally. -/
  positional : Int → Bool
  /-- What a positional whole number ends in. -/
  wholeEnd : String

/-- Inside messages a float is never written with an exponent and a whole number has no fraction. -/
def message : Layout where
  tie := .up
  positional _ := true
  wholeEnd := ""

/-- Inside JSON text a whole number keeps a fraction, and numbers below `10 ^ -5` and from `10 ^ 16` on have an
exponent. -/
def jsonText : Layout where
  tie := .even
  positional e := -5 ≤ e && e < 16
  wholeEnd := ".0"

namespace Layout

/-- Positional digits: the point stands after `point` digits, which may be negative or beyond the last. -/
def place (style : Layout) (digits : List Char) (point : Int) : List Char :=
  if point ≤ 0 then '0' :: '.' :: (List.replicate (-point).toNat '0' ++ digits)
  else if point < digits.length then digits.take point.toNat ++ '.' :: digits.drop point.toNat
  else digits ++ List.replicate (point.toNat - digits.length) '0' ++ style.wholeEnd.toList

/-- One digit before the point, and a signed power of ten. -/
def scientific (digits : List Char) (power : Int) : List Char :=
  let sign := if power < 0 then '-' else '+'
  let exponent := 'e' :: sign :: (toString power.natAbs).toList
  match digits with
  | [d] => d :: exponent
  | d :: rest => d :: '.' :: (rest ++ exponent)
  | [] => []

def layOut (style : Layout) (s : Scaled) : List Char :=
  let digits := (toString s.digits).toList
  let point := digits.length + s.exponent
  if style.positional (point - 1) then style.place digits point else scientific digits (point - 1)

def render (style : Layout) (x : Float) : String :=
  match Binary64.ofFloat? x with
  | none => if x.isNaN then "NaN" else if x < 0 then "-inf" else "inf"
  | some b =>
    let magnitude := if b.mantissa = 0 then '0' :: style.wholeEnd.toList else style.layOut (shortest style.tie b)
    String.ofList (if b.negative then '-' :: magnitude else magnitude)

end Layout
end Blueprint.Decimal
