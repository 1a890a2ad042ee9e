import Blueprint.Decimal.Binary64
import Blueprint.Text.Digits

/-!
# Numbers, names and blanks of arithmetic expressions

A number is digits with an optional fraction, or a point and digits, with an optional power of ten; a name is a letter
followed by letters, digits and underscores. Spaces, tabs and line ends may stand around both and never inside them.
-/

namespace Blueprint.Expr

/-- The power of ten of a literal: its letter, its sign if one is written, and its digits. -/
structure Power where
  letter : Char
  sign : Option Char
  digits : List Char
deriving DecidableEq, Repr

structure Literal where
  whole : List Char
  fraction : Option (List Char)
  power : Option Power
deriving DecidableEq, Repr

namespace Power

def chars (p : Power) : List Char := p.letter :: (p.sign.toList ++ p.digits)

def value (p : Power) : Int :=
  let n := Text.digitsValue p.digits
  if p.sign = some '-' then -(n : Int) else n

end Power

namespace Literal

def chars (l : Literal) : List Char :=
  l.whole ++ ((l.fraction.map ('.' :: ·)).getD [] ++ (l.power.map Power.chars).getD [])

def value (l : Literal) : Float :=
  let fraction := l.fraction.getD []
  let power := (l.power.map Power.value).getD 0
  (Decimal.Scaled.mk (Text.digitsValue (l.whole ++ fraction)) (power - fraction.length)).toFloat

end Literal

/-! ## Reading tokens -/

def isSpace (c : Char) : Bool := c = ' ' || c = '\t' || c = '\r' || c = '\n'

def isLetter (c : Char) : Bool := c.isAlpha

def isNamePart (c : Char) : Bool := c.isAlphanum || c = '_'

/-- An optional power of ten; a letter that no digits follow is left where it is. -/
def readPower (cs : List Char) : Option Power × List Char :=
  match cs with
  | [] => (none, [])
  | letter :: rest =>
    if letter = 'e' ∨ letter = 'E' then
      let (sign, rest) := Text.splitSign rest
      let (digits, rest) := Text.spanDigits rest
      if digits.isEmpty then (none, cs) else (some ⟨letter, sign, digits⟩, rest)
    else (none, cs)

/-- An optional fraction, of which there may be no more than the point. -/
def readFraction (cs : List Char) : Option (List Char) × List Char :=
  match cs with
  | '.' :: rest =>
    let (digits, rest) := Text.spanDigits rest
    (some digits, rest)
  | rest => (none, rest)

def readLiteral? (cs : List Char) : Option (Literal × List Char) :=
  let (whole, rest) := Text.spanDigits cs
  let (fraction, rest) := readFraction rest
  if whole.isEmpty ∧ (fraction.getD []).isEmpty then none
  else
    let (power, rest) := readPower rest
    some (⟨whole, fraction, power⟩, rest)

def readName? (cs : List Char) : Option (List Char × List Char) :=
  match cs with
  | [] => none
  | c :: cs => if isLetter c then some (c :: cs.takeWhile isNamePart, cs.dropWhile isNamePart) else none

def skipBlanks (cs : List Char) : List Char := cs.dropWhile isSpace

end Blueprint.Expr
