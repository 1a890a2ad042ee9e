import Blueprint.Decimal.Binary64
import Blueprint.Text.Digits

/-!
# Floats by scaling

The quick way from a decimal to a float keeps the leading digits that a 64-bit word holds and multiplies or divides them
by a power of ten. Each step rounds, so the result may lie a few last places beside the nearest float.
-/

namespace Blueprint.Decimal

/-- The least number that no 64-bit word holds. -/
def wordEnd : Nat := 18446744073709551616

/-- Appends digits to a number while a word holds it; the digits left over follow. -/
def absorb (n : Nat) : List Char → Nat × List Char
  | [] => (n, [])
  | d :: ds =>
    let m := Text.digitsValue [d] + n * 10
    if m < wordEnd then absorb m ds else (n, d :: ds)

/-- The decimal that a word keeps of the digits before and behind a point, times a power of ten. Digits of the whole
part that the word has no room for count as zeros; the fraction goes on as long as its digits fit. -/
def kept (whole fraction : List Char) (power : Int) : Scaled :=
  let (n, left) := absorb 0 whole
  let (m, cut) := absorb n fraction
  ⟨m, power + left.length + cut.length - fraction.length⟩

def powerOfTen (n : Nat) : Float := Scaled.toFloat ⟨1, n⟩

/-- The greatest power of ten below the end of the float range, as an exponent. -/
def greatestPower : Nat := 308

/-- The digits of a decimal, scaled by its power of ten; none beyond the float range. One division reaches down to the
power `-308`, a second one twice as far, and below that nothing is left of the digits. -/
def Scaled.scale? (s : Scaled) : Option Float :=
  let x := Scaled.toFloat ⟨s.digits, 0⟩
  if s.digits = 0 then some 0
  else match s.exponent with
    | .ofNat e =>
      if e ≤ greatestPower then
        let y := x * powerOfTen e
        if y.isFinite then some y else none
      else none
    | .negSucc e =>
      let e := e + 1
      if e ≤ greatestPower then some (x / powerOfTen e)
      else if e ≤ 2 * greatestPower then some (x / powerOfTen greatestPower / powerOfTen (e - greatestPower))
      else some 0

end Blueprint.Decimal
