/-!
# Floats and exact numbers

A finite 64-bit float is a sign, a natural mantissa and a power of two, and this is all the decimal texts need to know
of it. `Binary64.ofFloat?` reads the three off; the infinities and NaN have none. In the other direction a decimal
stands for the float nearest to it. A float splits into its whole part and its fraction.
-/

namespace Blueprint.Decimal

/-- The number `± mantissa · 2 ^ exponent`. -/
structure Binary64 where
  negative : Bool
  mantissa : Nat
  exponent : Int
deriving Repr, DecidableEq

namespace Binary64

def ofFloat? (x : Float) : Option Binary64 :=
  match x.toModel.unpack with
  | .zero .negative => some ⟨true, 0, 0⟩
  | .zero .positive => some ⟨false, 0, 0⟩
  | .finite .negative m e _ => some ⟨true, m, e⟩
  | .finite .positive m e _ => some ⟨false, m, e⟩
  | .infinity _ | .notANumber => none

end Binary64

/-- The number `digits · 10 ^ exponent`. -/
structure Scaled where
  digits : Nat
  exponent : Int
deriving Repr, DecidableEq

/-- The float nearest to a decimal; beyond the largest float that is infinity. -/
def Scaled.toFloat (s : Scaled) : Float :=
  Float.ofScientific s.digits (s.exponent < 0) s.exponent.natAbs

/-- The whole part of a float. A float without bits behind the point is its own whole part, and so are the infinities
and NaN. -/
def truncate (x : Float) : Float :=
  match Binary64.ofFloat? x with
  | some b =>
    if b.exponent < 0 then
      let whole := Float.ofNat (b.mantissa / Nat.pow 2 (-b.exponent).toNat)
      if b.negative then -whole else whole
    else x
  | none => x

/-- What a float has behind the point; NaN for an infinity. -/
def fraction (x : Float) : Float := x - truncate x

end Blueprint.Decimal
