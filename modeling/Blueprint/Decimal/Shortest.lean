import Blueprint.Decimal.Binary64

/-!
# The fewest decimal digits that read back

Among the decimals that round to a given positive float, `shortest` selects one with the fewest digits, and of those
the one nearest to the value. The two neighbours of the value on the grid of `n`-digit decimals decide whether `n`
digits suffice, so it is enough to look at them for `n = 1, 2, …`. All arithmetic is exact.
-/

namespace Blueprint.Decimal

/-- Which of two equally near candidates is taken. -/
inductive Tie where
  | even
  | up
deriving Repr, DecidableEq

/-- The reals that round to a float, and the float itself, in quarters of its last place: `unit` is the size of a
quarter, both ends belong to the interval if `closed`. -/
structure Interval where
  low : Nat
  value : Nat
  high : Nat
  unit : Int
  closed : Bool

namespace Interval

/-- The interval of a positive value. The gap below a power of two is half the gap above it, except at the bottom of
the range. -/
def ofBinary (b : Binary64) : Interval where
  low := if b.mantissa = Nat.pow 2 52 ∧ b.exponent ≠ -1074 then 4 * b.mantissa - 1 else 4 * b.mantissa - 2
  value := 4 * b.mantissa
  high := 4 * b.mantissa + 2
  unit := b.exponent - 2
  closed := b.mantissa % 2 = 0

/-- Factors that bring multiples of `10 ^ grid` and of the unit to a common denominator. -/
def scales (i : Interval) (grid : Int) : Nat × Nat :=
  (Nat.pow 10 grid.toNat * Nat.pow 2 (-i.unit).toNat, Nat.pow 10 (-grid).toNat * Nat.pow 2 i.unit.toNat)

/-- The least power of ten above the value, as an exponent; the binary logarithm is at most two short of it. -/
def decade (i : Interval) : Int :=
  let estimate := ((i.value.log2 + i.unit) * 30103) / 100000
  let below (k : Int) : Bool :=
    let (a, b) := i.scales k
    i.value * b < a
  if below estimate then estimate
  else if below (estimate + 1) then estimate + 1
  else estimate + 2

/-- Whether `d · 10 ^ grid` rounds to the float. -/
def holds (i : Interval) (grid : Int) (d : Nat) : Bool :=
  let (a, b) := i.scales grid
  if i.closed then i.low * b ≤ d * a && d * a ≤ i.high * b
  else i.low * b < d * a && d * a < i.high * b

/-- The best decimal on one grid: of the two neighbours of the value those that read back, and of two the nearer. -/
def onGrid? (i : Interval) (tie : Tie) (grid : Int) : Option Nat :=
  let (a, b) := i.scales grid
  let d := i.value * b / a
  match i.holds grid d, i.holds grid (d + 1) with
  | true, false => some d
  | false, true => some (d + 1)
  | false, false => none
  | true, true =>
    match compare (2 * (i.value * b)) ((2 * d + 1) * a), tie with
    | .lt, _ => some d
    | .gt, _ => some (d + 1)
    | .eq, .even => some (if d % 2 = 0 then d else d + 1)
    | .eq, .up => some (d + 1)

end Interval

/-- Drops trailing zeros of the digits; at most `fuel` of them. -/
def Scaled.trim : Nat → Scaled → Scaled
  | 0, s => s
  | fuel + 1, s => if s.digits ≠ 0 ∧ s.digits % 10 = 0 then trim fuel ⟨s.digits / 10, s.exponent + 1⟩ else s

/-- The shortest decimal of a positive value. Seventeen digits always suffice. -/
def shortest (tie : Tie) (b : Binary64) : Scaled :=
  let i := Interval.ofBinary b
  let k := i.decade
  let found := (List.range 17).findSome? fun (n : Nat) =>
    let grid := k - (n + 1)
    (i.onGrid? tie grid).map fun d => Scaled.mk d grid
  (found.getD ⟨0, 0⟩).trim 17

end Blueprint.Decimal
