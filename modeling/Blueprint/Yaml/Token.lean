import Blueprint.Yaml.Scalar

/-!
# Tokens of YAML

Indentation becomes tokens that open and close blocks. Whether a scalar or a collection is a key shows only when a colon
follows, so a `Scanner` remembers where a key may begin and puts the token of the key there afterwards. A key without a
mark of its own stays on one line and within 1024 bytes.
-/

namespace Blueprint.Yaml

inductive Token where
  /-- A scalar, plain or in quotes. -/
  | scalar (text : List Char) (plain : Bool)
  | listOpen
  | listClose
  | mapOpen
  | mapClose
  | comma
  | entry
  | key
  | value
  | blockList
  | blockMap
  | blockEnd
  | documentStart
  | documentEnd
deriving DecidableEq, Repr

/-- A place where a key may begin: the number of tokens in front of it and its place in the text. At the column of a
block only a key can stand, so it is required. -/
structure PossibleKey where
  position : Nat
  line : Nat
  column : Nat
  offset : Nat
  required : Bool

/-- What is known of a text up to a place. -/
structure Scanner where
  cursor : Cursor
  tokens : Array Token := #[]
  /-- The columns of the open blocks, the innermost first. -/
  columns : List Nat := []
  /-- Whether a key may begin here. -/
  keyAllowed : Bool := true
  /-- The possible key of the innermost collection. -/
  possible : Option PossibleKey := none
  /-- The possible keys around the open flow collections. -/
  outer : List (Option PossibleKey) := []

namespace Scanner

def inFlow (s : Scanner) : Bool := !s.outer.isEmpty

/-- The least column inside the innermost block. -/
def indent (s : Scanner) : Nat :=
  match s.columns with
  | [] => 0
  | column :: _ => column + 1

def take (n : Nat) (t : Token) (s : Scanner) : Scanner :=
  { s with cursor := s.cursor.skip n, tokens := s.tokens.push t }

/-! ## Blocks -/

/-- Opens a block at a column inside the innermost one, with its token at a position. -/
def openBlock (column position : Nat) (t : Token) (s : Scanner) : Scanner :=
  if s.inFlow || column < s.indent then s
  else { s with columns := column :: s.columns, tokens := s.tokens.insertIdxIfInBounds position t }

/-- Opens a block where a key or an item may begin. -/
def openHere? (t : Token) (s : Scanner) : Option Scanner :=
  if s.inFlow then some s
  else if s.keyAllowed then some (s.openBlock s.cursor.column s.tokens.size t)
  else none

/-- Closes the innermost blocks whose columns satisfy a condition. -/
def closeBlocks (inner : Nat → Bool) (s : Scanner) : Scanner :=
  if s.inFlow then s
  else
    let remaining := s.columns.dropWhile inner
    { s with columns := remaining,
             tokens := s.tokens ++ Array.replicate (s.columns.length - remaining.length) Token.blockEnd }

/-! ## Possible keys -/

/-- How many bytes a key may have. -/
def keyLimit : Nat := 1024

/-- Gives the possible key up, unless it is required. -/
def dropKey? (s : Scanner) : Option Scanner :=
  if s.possible.any (·.required) then none else some { s with possible := none }

/-- Remembers that a key may begin here. -/
def saveKey? (s : Scanner) : Option Scanner :=
  if s.keyAllowed then
    s.dropKey?.map fun s =>
      let c := s.cursor
      { s with possible := some {
          position := s.tokens.size, line := c.line, column := c.column, offset := c.offset
          required := !s.inFlow && s.columns.head? = some c.column } }
  else some s

/-- A possible key while a colon may still follow; a required one must not be out of reach. -/
def withinReach? (c : Cursor) : Option PossibleKey → Option (Option PossibleKey)
  | none => some none
  | some k =>
    if k.line = c.line && c.offset ≤ k.offset + keyLimit then some (some k)
    else if k.required then none
    else some none

/-- Gives up the possible keys that are out of reach. -/
def dropDistantKeys? (s : Scanner) : Option Scanner := do
  let possible ← withinReach? s.cursor s.possible
  let outer ← s.outer.mapM (withinReach? s.cursor)
  some { s with possible, outer }

/-! ## Blanks and comments -/

/-- Goes on to the next token. A tab counts as a space behind something on its line and inside flow collections; a line
end allows a key in a block. -/
def skipBlanks : Nat → Scanner → Scanner
  | 0, s => s
  | fuel + 1, s =>
    let tabs := s.inFlow || !s.keyAllowed
    let c := s.cursor.skipWhile fun ch => ch = ' ' || (tabs && ch = '\t')
    match c.rest with
    | '\ufeff' :: _ =>
      if c.column = 0 then skipBlanks fuel { s with cursor := c.step } else { s with cursor := c }
    | ch :: _ =>
      if ch = '#' then skipBlanks fuel { s with cursor := c.skipWhile (!isLineEnd ·) }
      else if isLineEnd ch then
        skipBlanks fuel { s with cursor := c.newLine, keyAllowed := s.keyAllowed || !s.inFlow }
      else { s with cursor := c }
    | [] => { s with cursor := c }

/-! ## Single tokens -/

/-- The mark of a document edge closes all blocks. -/
def documentEdge? (t : Token) (s : Scanner) : Option Scanner :=
  (s.closeBlocks fun _ => true).dropKey?.map fun s => { s.take 3 t with keyAllowed := false }

def openFlow? (t : Token) (s : Scanner) : Option Scanner :=
  s.saveKey?.map fun s => { s.take 1 t with outer := s.possible :: s.outer, possible := none, keyAllowed := true }

def closeFlow? (t : Token) (s : Scanner) : Option Scanner :=
  s.dropKey?.map fun s =>
    { s.take 1 t with possible := s.outer.head?.join, outer := s.outer.drop 1, keyAllowed := false }

/-- A comma ends an item of a flow collection. -/
def comma? (s : Scanner) : Option Scanner :=
  s.dropKey?.map fun s => { s.take 1 .comma with keyAllowed := true }

def entry? (s : Scanner) : Option Scanner := do
  let s ← (← s.openHere? .blockList).dropKey?
  some { s.take 1 .entry with keyAllowed := true }

def key? (s : Scanner) : Option Scanner := do
  let s ← (← s.openHere? .blockMap).dropKey?
  some { s.take 1 .key with keyAllowed := !s.inFlow }

/-- The colon in front of a value, which makes a possible key a key. -/
def value? (s : Scanner) : Option Scanner :=
  match s.possible with
  | some k =>
    let s := { s with tokens := s.tokens.insertIdxIfInBounds k.position .key, possible := none, keyAllowed := false }
    some ((s.openBlock k.column k.position .blockMap).take 1 .value)
  | none => (s.openHere? .blockMap).map fun s => { s.take 1 .value with keyAllowed := !s.inFlow }

def quoted? (quote : Char) (s : Scanner) : Option Scanner := do
  let s ← s.saveKey?
  let (text, stop) ← readQuoted? quote s.cursor.rest.length s.cursor.step
  some { s with cursor := stop, tokens := s.tokens.push (.scalar text false), keyAllowed := false }

def plain? (s : Scanner) : Option Scanner := do
  let s ← s.saveKey?
  let found ← readPlain? s.inFlow s.indent (s.cursor.rest.length + 1) Gap.empty s.cursor
  some { s with cursor := found.stop, tokens := s.tokens.push (.scalar found.text true), keyAllowed := found.ended }

def token? (s : Scanner) : Option Scanner :=
  if s.cursor.atMarker '-' then s.documentEdge? .documentStart
  else if s.cursor.atMarker '.' then s.documentEdge? .documentEnd
  else match s.cursor.rest with
    | [] => none
    | c :: rest =>
      let separate := s.inFlow || atBlank rest
      if c = '[' then s.openFlow? .listOpen
      else if c = '{' then s.openFlow? .mapOpen
      else if c = ']' then s.closeFlow? .listClose
      else if c = '}' then s.closeFlow? .mapClose
      else if c = ',' then s.comma?
      else if c = '-' && atBlank rest then s.entry?
      else if c = '?' && separate then s.key?
      else if c = ':' && separate then s.value?
      else if c = '\'' || c = '"' then s.quoted? c
      else if startsPlain s.inFlow (c :: rest) then s.plain?
      else none

/-! ## All tokens -/

def tokens? : Nat → Scanner → Option (List Token)
  | 0, _ => none
  | fuel + 1, s => do
    let s ← (s.skipBlanks (s.cursor.rest.length + 1)).dropDistantKeys?
    let s := s.closeBlocks (s.cursor.column < ·)
    if s.cursor.rest.isEmpty then s.dropKey?.map fun s => (s.closeBlocks fun _ => true).tokens.toList
    else tokens? fuel (← s.token?)

end Scanner

/-- Every line end of a text as one character; the separators of lines and of paragraphs remain. -/
def unifyLineEnds : List Char → List Char
  | '\r' :: '\n' :: cs => '\n' :: unifyLineEnds cs
  | c :: cs => (if c = '\r' || c = '\u0085' then '\n' else c) :: unifyLineEnds cs
  | [] => []

/-- The characters that may stand in a text. -/
def isPrintable (c : Char) : Bool :=
  let n := c.toNat
  n = 0x09 || n = 0x0A || n = 0x0D || (0x20 ≤ n && n ≤ 0x7E) || n = 0x85 || (0xA0 ≤ n && n ≤ 0xFFFD) || 0x10000 ≤ n

/-- The tokens of a text. Each takes a character at least, so their number is bounded by the length of the text. -/
def tokens? (cs : List Char) : Option (List Token) :=
  if cs.all isPrintable then
    let cs := unifyLineEnds cs
    Scanner.tokens? (cs.length + 1) { cursor := { rest := cs } }
  else none

end Blueprint.Yaml
