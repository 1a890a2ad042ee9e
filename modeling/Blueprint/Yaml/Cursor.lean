/-!
# Places in a YAML text

A cursor is what follows a place, with the line and the column of the place: the column decides to which block a token
belongs. Columns count characters, and `offset` counts the bytes in front of the place on its line, since that is how
the length of a key is limited.
-/

namespace Blueprint.Yaml

/-- A line end. The separators of lines and of paragraphs end lines too. -/
def isLineEnd (c : Char) : Bool := c = '\n' || c = '\u2028' || c = '\u2029'

def isSpace (c : Char) : Bool := c = ' ' || c = '\t'

/-- What may stand between words. -/
def isBlank (c : Char) : Bool := isSpace c || isLineEnd c

/-- Whether a blank or the end of the text is here. -/
def atBlank (cs : List Char) : Bool := cs.head?.all isBlank

structure Cursor where
  rest : List Char
  line : Nat := 0
  column : Nat := 0
  offset : Nat := 0

namespace Cursor

def step (c : Cursor) : Cursor :=
  match c.rest with
  | ch :: rest => { c with rest, column := c.column + 1, offset := c.offset + ch.utf8Size }
  | [] => c

def skip (n : Nat) (c : Cursor) : Cursor := Nat.repeat step n c

/-- Steps over the characters of the line that satisfy a condition. -/
def skipWhile (p : Char → Bool) (c : Cursor) : Cursor := c.skip (c.rest.takeWhile p).length

def newLine (c : Cursor) : Cursor := { rest := c.rest.drop 1, line := c.line + 1 }

/-- Whether a line begins here with a marker of three characters. -/
def atMarker (mark : Char) (c : Cursor) : Bool :=
  c.column = 0 && c.rest.take 3 = [mark, mark, mark] && atBlank (c.rest.drop 3)

/-- Whether a document begins or ends here. -/
def atDocumentEdge (c : Cursor) : Bool := c.atMarker '-' || c.atMarker '.'

end Cursor

/-! ## Gaps between words -/

/-- The blanks between two words of a scalar: the spaces, and the line ends if there are any. -/
structure Gap where
  spaces : List Char
  lineEnds : List Char

namespace Gap

def empty : Gap := ⟨[], []⟩

def ended (g : Gap) : Bool := !g.lineEnds.isEmpty

/-- What a gap is folded into. Within a line its spaces are kept; one line end is a space, and of more line ends all but
the first remain. The separators of lines and of paragraphs are never folded. -/
def fold (g : Gap) : List Char :=
  match g.lineEnds with
  | [] => g.spaces
  | ['\n'] => [' ']
  | '\n' :: more => more
  | lineEnds => lineEnds

end Gap

namespace Cursor

/-- The line ends from here on, over the spaces and tabs between them. A tab in front of the column `indent` is
refused. -/
def lineEnds? (indent : Nat) : Nat → Cursor → Option (List Char × Cursor)
  | 0, c => some ([], c)
  | fuel + 1, c =>
    match c.rest with
    | ch :: _ =>
      if isLineEnd ch then (lineEnds? indent fuel c.newLine).map fun (ends, stop) => (ch :: ends, stop)
      else if ch = '\t' && c.column < indent then none
      else if isSpace ch then lineEnds? indent fuel c.step
      else some ([], c)
    | [] => some ([], c)

def gap? (indent : Nat) (c : Cursor) : Option (Gap × Cursor) :=
  let spaces := c.rest.takeWhile isSpace
  let after := c.skip spaces.length
  if after.rest.head?.any isLineEnd then
    (after.lineEnds? indent (after.rest.length + 1)).map fun (lineEnds, stop) => (⟨spaces, lineEnds⟩, stop)
  else some (⟨spaces, []⟩, after)

end Cursor
end Blueprint.Yaml
