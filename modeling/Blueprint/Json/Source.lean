import Blueprint.Json.Literal
import Blueprint.Text.Digits

/-!
# Reading JSON text

`Source.read?` accepts exactly the JSON grammar and keeps what was written: repeated members stay, and a number beyond
the float range or a string with half a surrogate pair is marked as having no value. So a consumer that skips a part of
the document never trips over a value it does not need, while `Json.parse?` wants all of them.
-/

namespace Blueprint.Json

inductive Source where
  | null
  | bool (b : Bool)
  | num (n : Option Number)
  | str (s : Option String)
  | arr (items : List Source)
  | obj (members : List (Option String × Source))
deriving Inhabited

namespace Source

open Text (spanDigits digitsValue)

/-- Skips spaces, tabs and line ends. -/
def skipSpace : List Char → List Char
  | c :: cs => if c = ' ' ∨ c = '\n' ∨ c = '\t' ∨ c = '\r' then skipSpace cs else c :: cs
  | [] => []

/-- A whole number part: a zero, or digits that begin with another. -/
def readWhole? (cs : List Char) : Option (List Char × List Char) :=
  match spanDigits cs with
  | ([], _) => none
  | ('0' :: _ :: _, _) => none
  | found => some found

/-- An optional fraction: the digits behind a point. -/
def readFraction? : List Char → Option (Option (List Char) × List Char)
  | '.' :: cs =>
    match spanDigits cs with
    | ([], _) => none
    | (ds, rest) => some (some ds, rest)
  | cs => some (none, cs)

/-- A power of ten after its letter. -/
def readSigned? (cs : List Char) : Option (Int × List Char) :=
  let (negative, cs) := match cs with
    | '-' :: cs => (true, cs)
    | '+' :: cs => (false, cs)
    | cs => (false, cs)
  match spanDigits cs with
  | ([], _) => none
  | (ds, rest) => some (if negative then -(digitsValue ds : Int) else digitsValue ds, rest)

/-- An optional power of ten. -/
def readPower? : List Char → Option (Option Int × List Char)
  | 'e' :: cs | 'E' :: cs => (readSigned? cs).map fun (power, rest) => (some power, rest)
  | cs => some (none, cs)

/-- A number. -/
def readNumber? (rounding : Rounding) (cs : List Char) : Option (Source × List Char) := do
  let (negative, cs) := match cs with
    | '-' :: cs => (true, cs)
    | cs => (false, cs)
  let (whole, cs) ← readWhole? cs
  let (fraction, cs) ← readFraction? cs
  let (power, cs) ← readPower? cs
  some (.num (Literal.number? rounding ⟨negative, whole, fraction, power⟩), cs)

def hexDigit? (c : Char) : Option Nat :=
  if '0' ≤ c ∧ c ≤ '9' then some (c.toNat - 48)
  else if 'a' ≤ c ∧ c ≤ 'f' then some (c.toNat - 87)
  else if 'A' ≤ c ∧ c ≤ 'F' then some (c.toNat - 55)
  else none

/-- Four hexadecimal digits. -/
def readUnit? : List Char → Option (Nat × List Char)
  | a :: b :: c :: d :: cs => do
    let a ← hexDigit? a
    let b ← hexDigit? b
    let c ← hexDigit? c
    let d ← hexDigit? d
    some (((a * 16 + b) * 16 + c) * 16 + d, cs)
  | _ => none

/-- What a string is made of: characters, and code units from escapes that may be halves of a pair. -/
inductive Piece where
  | char (c : Char)
  | unit (n : Nat)

def simpleEscape? : Char → Option Char
  | '"' => some '"'
  | '\\' => some '\\'
  | '/' => some '/'
  | 'b' => some '\x08'
  | 'f' => some '\x0c'
  | 'n' => some '\n'
  | 'r' => some '\r'
  | 't' => some '\t'
  | _ => none

/-- The pieces of a string after its opening quote. -/
def readPieces? : Nat → List Char → Option (List Piece × List Char)
  | _, '"' :: cs => some ([], cs)
  | fuel + 1, '\\' :: 'u' :: cs => do
    let (n, cs) ← readUnit? cs
    let (pieces, cs) ← readPieces? fuel cs
    some (.unit n :: pieces, cs)
  | fuel + 1, '\\' :: c :: cs => do
    let c ← simpleEscape? c
    let (pieces, cs) ← readPieces? fuel cs
    some (.char c :: pieces, cs)
  | fuel + 1, c :: cs =>
    if c = '\\' ∨ c.toNat < 0x20 then none else do
      let (pieces, cs) ← readPieces? fuel cs
      some (.char c :: pieces, cs)
  | _, _ => none

/-- The characters of a string; a pair of surrogate units is one character, half a pair is none. -/
def join? : List Piece → Option (List Char)
  | [] => some []
  | .char c :: pieces => (join? pieces).map (c :: ·)
  | .unit n :: pieces =>
    if 0xD800 ≤ n ∧ n < 0xDC00 then
      match pieces with
      | .unit m :: pieces =>
        if 0xDC00 ≤ m ∧ m < 0xE000 then
          (join? pieces).map (Char.ofNat (0x10000 + (n - 0xD800) * 0x400 + (m - 0xDC00)) :: ·)
        else none
      | _ => none
    else if 0xDC00 ≤ n ∧ n < 0xE000 then none
    else (join? pieces).map (Char.ofNat n :: ·)

/-- A string after its opening quote. -/
def readString? (cs : List Char) : Option (Option String × List Char) :=
  (readPieces? cs.length cs).map fun (pieces, rest) => ((join? pieces).map String.ofList, rest)

mutual
/-- A value, at the beginning of the text; `fuel` bounds the number of nested steps. -/
def readValue? (rounding : Rounding) : Nat → List Char → Option (Source × List Char)
  | 0, _ => none
  | fuel + 1, cs =>
    match cs with
    | 'n' :: 'u' :: 'l' :: 'l' :: cs => some (.null, cs)
    | 't' :: 'r' :: 'u' :: 'e' :: cs => some (.bool true, cs)
    | 'f' :: 'a' :: 'l' :: 's' :: 'e' :: cs => some (.bool false, cs)
    | '"' :: cs => (readString? cs).map fun (s, rest) => (.str s, rest)
    | '[' :: cs =>
      match skipSpace cs with
      | ']' :: cs => some (.arr [], cs)
      | cs => (readItems? rounding fuel cs).map fun (items, rest) => (.arr items, rest)
    | '{' :: cs =>
      match skipSpace cs with
      | '}' :: cs => some (.obj [], cs)
      | cs => (readMembers? rounding fuel cs).map fun (members, rest) => (.obj members, rest)
    | cs => readNumber? rounding cs

/-- The items of a list that is not empty, and its closing bracket. -/
def readItems? (rounding : Rounding) : Nat → List Char → Option (List Source × List Char)
  | 0, _ => none
  | fuel + 1, cs => do
    let (item, cs) ← readValue? rounding fuel cs
    match skipSpace cs with
    | ']' :: cs => some ([item], cs)
    | ',' :: cs =>
      let (items, cs) ← readItems? rounding fuel (skipSpace cs)
      some (item :: items, cs)
    | _ => none

/-- The members of an object that is not empty, and its closing brace. -/
def readMembers? (rounding : Rounding) : Nat → List Char → Option (List (Option String × Source) × List Char)
  | 0, _ => none
  | fuel + 1, cs =>
    match cs with
    | '"' :: cs => do
      let (key, cs) ← readString? cs
      match skipSpace cs with
      | ':' :: cs =>
        let (value, cs) ← readValue? rounding fuel (skipSpace cs)
        match skipSpace cs with
        | '}' :: cs => some ([(key, value)], cs)
        | ',' :: cs =>
          let (members, cs) ← readMembers? rounding fuel (skipSpace cs)
          some ((key, value) :: members, cs)
        | _ => none
      | _ => none
    | _ => none
end

/-- Reads a whole text: one value with nothing but space around it. Each step consumes a character, so the length of
the text bounds their number. -/
def read? (rounding : Rounding) (text : String) : Option Source := do
  let cs := skipSpace text.toList
  let (source, rest) ← readValue? rounding (cs.length + 1) cs
  if (skipSpace rest).isEmpty then some source else none

mutual
/-- The value of a text, if all its parts have one. -/
def value? : Source → Option Json
  | .null => some .null
  | .bool b => some (.bool b)
  | .num n => n.map .num
  | .str s => s.map .str
  | .arr items => (itemValues? items).map .arr
  | .obj members => (memberValues? members).map fun ms => .obj (Entries.setAll [] ms)

def itemValues? : List Source → Option (List Json)
  | [] => some []
  | item :: items => do
    let value ← value? item
    let values ← itemValues? items
    some (value :: values)

def memberValues? : List (Option String × Source) → Option Members
  | [] => some []
  | (key, source) :: members => do
    let key ← key
    let value ← value? source
    let rest ← memberValues? members
    some ((key, value) :: rest)
end

mutual
/-- A value as a source that spells it out. -/
def ofJson : Json → Source
  | .null => .null
  | .bool b => .bool b
  | .num n => .num (some n)
  | .str s => .str (some s)
  | .arr items => .arr (ofItems items)
  | .obj members => .obj (ofMembers members)

def ofItems : List Json → List Source
  | [] => []
  | item :: items => ofJson item :: ofItems items

def ofMembers : List (String × Json) → List (Option String × Source)
  | [] => []
  | (key, value) :: members => (some key, ofJson value) :: ofMembers members
end

end Source

/-- The value of a JSON text. -/
def parse? (rounding : Rounding) (text : String) : Option Json :=
  (Source.read? rounding text).bind Source.value?

end Blueprint.Json
