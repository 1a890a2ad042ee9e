import Blueprint.Text.CaseTable

/-!
# Full lowercasing

Each character is lowercased by itself, with two exceptions: the dotted capital I becomes two characters, and a capital
sigma at the end of a word becomes the final form of the letter. A sigma ends a word if, with `Case_Ignorable`
characters passed over, a cased character stands before it and none after it.
-/

namespace Blueprint.Text

/-- Whether a code point lies in one of the ranges. -/
def inRanges (ranges : List (Nat × Nat)) (n : Nat) : Bool :=
  ranges.any fun (first, last) => first ≤ n && n ≤ last

def isCased (c : Char) : Bool := inRanges casedRanges c.toNat

def isCaseIgnorable (c : Char) : Bool := inRanges caseIgnorableRanges c.toNat

/-- The run that moves a code point. -/
def caseRun? (n : Nat) : Option CaseRun :=
  lowercaseRuns.find? fun run => run.first ≤ n && n ≤ run.last && (n - run.first) % run.step == 0

def lowerChar (c : Char) : Char :=
  let n := c.toNat
  if n < 0x80 then if 0x41 ≤ n && n ≤ 0x5A then Char.ofNat (n + 32) else c
  else match caseRun? n with
    | some run => Char.ofNat (n + run.offset).toNat
    | none => c

/-- Whether the first character that is not `Case_Ignorable` is cased. -/
def meetsCased (cs : List Char) : Bool :=
  match cs.dropWhile isCaseIgnorable with
  | [] => false
  | c :: _ => isCased c

/-- The lowercase of `c` after the characters `before` (the nearest first) and before the characters `after`. -/
def lowerAt (before : List Char) (c : Char) (after : List Char) : List Char :=
  if c = 'Σ' then [if meetsCased before && !meetsCased after then 'ς' else 'σ']
  else if c = 'İ' then ['i', '\u0307']
  else [lowerChar c]

/-- Lowercases what follows the characters `before` (the nearest first). -/
def lowercaseFrom (before : List Char) : List Char → List Char
  | [] => []
  | c :: cs => lowerAt before c cs ++ lowercaseFrom (c :: before) cs

def lowercase (cs : List Char) : List Char := lowercaseFrom [] cs

end Blueprint.Text
