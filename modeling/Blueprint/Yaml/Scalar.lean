import Blueprint.Yaml.Cursor
import Blueprint.Yaml.Typing

/-!
# Scalars of YAML

A scalar is plain or stands in quotes. It consists of words, and a gap between two of them may reach over several
lines, which are folded. A plain scalar ends before a colon that a blank follows, before a comment, and inside a flow
collection before the marks of such a collection.
-/

namespace Blueprint.Yaml

/-! ## Plain scalars -/

/-- The characters that bound the parts of a flow collection. -/
def isFlowMark (c : Char) : Bool := c = ',' || c = '[' || c = ']' || c = '{' || c = '}'

/-- Whether a plain scalar may begin so. -/
def startsPlain (flow : Bool) : List Char → Bool
  | [] => false
  | '-' :: rest => !atBlank rest
  | c :: rest =>
    if c = '?' || c = ':' then !flow && !atBlank rest
    else !(isBlank c || isFlowMark c || "#&*!|>'\"%@`".toList.contains c)

/-- The word that begins here, empty where the scalar ends. Inside a flow collection a colon right in front of a mark is
refused. -/
def plainWord? (flow : Bool) : List Char → Option (List Char)
  | [] => some []
  | c :: rest =>
    if isBlank c then some []
    else if flow && c = ':' && rest.head?.any (fun d => d = '?' || isFlowMark d) then none
    else if (c = ':' && atBlank rest) || (flow && isFlowMark c) then some []
    else (plainWord? flow rest).map (c :: ·)

/-- What is read of a plain scalar: its text, the place behind it, and whether a line ends right in front of that
place. -/
structure PlainText where
  text : List Char
  stop : Cursor
  ended : Bool

/-- A plain scalar behind a gap. In a block it goes on over lines that are indented to the column `indent`. -/
def readPlain? (flow : Bool) (indent : Nat) : Nat → Gap → Cursor → Option PlainText
  | 0, _, _ => none
  | fuel + 1, gap, c =>
    if c.atDocumentEdge || c.rest.head? = some '#' then some ⟨[], c, gap.ended⟩
    else do
      let word ← plainWord? flow c.rest
      if word.isEmpty then some ⟨[], c, gap.ended⟩
      else
        let (next, following) ← (c.skip word.length).gap? indent
        let more ←
          if !flow && following.column < indent then some ⟨[], following, next.ended⟩
          else readPlain? flow indent fuel next following
        some { more with text := gap.fold ++ word ++ more.text }

/-! ## Scalars in quotes -/

/-- The character with a hexadecimal number; half a surrogate pair is none. -/
def hexCharacter? (cs : List Char) : Option Char := do
  let n ← digitsIn? 16 cs
  if n.isValidChar then some (Char.ofNat n) else none

/-- The character that an escape in double quotes stands for, and the number of characters after the backslash. -/
def escape? : List Char → Option (Char × Nat)
  | '0' :: _ => some ('\x00', 1)
  | 'a' :: _ => some ('\x07', 1)
  | 'b' :: _ => some ('\x08', 1)
  | 't' :: _ => some ('\t', 1)
  | '\t' :: _ => some ('\t', 1)
  | 'n' :: _ => some ('\n', 1)
  | 'v' :: _ => some ('\x0b', 1)
  | 'f' :: _ => some ('\x0c', 1)
  | 'r' :: _ => some ('\r', 1)
  | 'e' :: _ => some ('\x1b', 1)
  | ' ' :: _ => some (' ', 1)
  | '"' :: _ => some ('"', 1)
  | '/' :: _ => some ('/', 1)
  | '\\' :: _ => some ('\\', 1)
  | 'N' :: _ => some ('\u0085', 1)
  | '_' :: _ => some ('\u00a0', 1)
  | 'L' :: _ => some ('\u2028', 1)
  | 'P' :: _ => some ('\u2029', 1)
  | 'x' :: rest => (hexCharacter? (rest.take 2)).map (·, 3)
  | 'u' :: rest => (hexCharacter? (rest.take 4)).map (·, 5)
  | 'U' :: rest => (hexCharacter? (rest.take 8)).map (·, 9)
  | _ => none

/-- The next piece of a scalar in quotes: the characters it stands for, and the place behind it. In single quotes a
quote is written twice. In double quotes a backslash begins an escape, and at the end of a line it takes the line end
away. -/
def quotedPiece? (quote : Char) (c : Cursor) : Option (List Char × Cursor) :=
  match c.rest with
  | [] => none
  | ch :: rest =>
    if ch = quote then some ([quote], c.skip 2)
    else if quote = '"' && ch = '\\' then
      if rest.head?.any isLineEnd then c.step.newLine.lineEnds? 0 (rest.length + 1)
      else (escape? rest).map fun (escaped, n) => ([escaped], c.skip (n + 1))
    else if isBlank ch then (c.gap? 0).map fun (gap, stop) => (gap.fold, stop)
    else some ([ch], c.step)

def atClosing (quote : Char) : List Char → Bool
  | [] => false
  | c :: rest => c = quote && !(quote = '\'' && rest.head? = some '\'')

/-- The rest of a scalar in quotes, which no document edge interrupts. -/
def readQuoted? (quote : Char) : Nat → Cursor → Option (List Char × Cursor)
  | 0, _ => none
  | fuel + 1, c =>
    if c.atDocumentEdge then none
    else if atClosing quote c.rest then some ([], c.step)
    else do
      let (piece, stop) ← quotedPiece? quote c
      let (more, stop) ← readQuoted? quote fuel stop
      some (piece ++ more, stop)

end Blueprint.Yaml
