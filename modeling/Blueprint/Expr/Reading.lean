import Blueprint.Expr.Token

/-!
# Reading arithmetic expressions

A row is a chain of operands with operators between them, each operand behind any number of minus signs; which operator
binds tighter is left to evaluation. Alternatives are tried in order and the first that fits is kept, repetitions take
all they can, and a piece that fails gives back what it has read. Blanks may stand between any two pieces.
-/

namespace Blueprint.Expr

/-- What a piece of a text was read as. -/
inductive Kind where
  | number
  | constant
  | function
  | neg
  | add
  | sub
  | mul
  | div
  | pow
  | ending
deriving DecidableEq, Repr

/-- A node of a text that was read: a token, a call with its function and its argument, or the row of a whole
expression. -/
inductive Node where
  | token (kind : Kind) (text : List Char)
  | call (parts : List Node)
  | row (nodes : List Node)

/-- Reads something at the beginning of a text, and returns it with the rest. -/
abbrev Reader (α : Type) : Type := List Char → Option (α × List Char)

/-- The rest of a text that begins with a character. -/
def readChar? (c : Char) : List Char → Option (List Char)
  | [] => none
  | d :: cs => if d = c then some cs else none

/-- As many pieces as there are, at most `n`, with blanks in front of each; blanks that no piece follows are left. -/
def readMany (piece : Reader (List Node)) : Nat → List Char → List Node × List Char
  | 0, cs => ([], cs)
  | n + 1, cs =>
    match piece (skipBlanks cs) with
    | none => ([], cs)
    | some (nodes, rest) =>
      let (more, rest) := readMany piece n rest
      (nodes ++ more, rest)

/-- An operator between operands. Two stars are tried before one. -/
def readOperator? : Reader Node
  | '+' :: cs => some (.token .add ['+'], cs)
  | '-' :: cs => some (.token .sub ['-'], cs)
  | '*' :: '*' :: cs => some (.token .pow ['*', '*'], cs)
  | '^' :: cs => some (.token .pow ['^'], cs)
  | '*' :: cs => some (.token .mul ['*'], cs)
  | '/' :: cs => some (.token .div ['/'], cs)
  | _ => none

def readSign? : Reader (List Node)
  | '-' :: cs => some ([.token .neg ['-']], cs)
  | _ => none

def readNumber? : Reader Node := fun cs => (readLiteral? cs).map fun (l, rest) => (.token .number l.chars, rest)

def readConstant? : Reader Node := fun cs => (readName? cs).map fun (name, rest) => (.token .constant name, rest)

section
variable (inner : Reader (List Node))

def readGroup? : Reader Node := fun cs => do
  let cs ← readChar? '(' cs
  let (nodes, cs) ← inner (skipBlanks cs)
  let cs ← readChar? ')' (skipBlanks cs)
  some (.row nodes, cs)

def readCall? : Reader Node := fun cs => do
  let (name, cs) ← readName? cs
  let (argument, cs) ← readGroup? inner (skipBlanks cs)
  some (.call [.token .function name, argument], cs)

/-- A call, a number, a constant or a row in parentheses, in this order. -/
def readPrimary? : Reader Node := fun cs =>
  readCall? inner cs <|> readNumber? cs <|> readConstant? cs <|> readGroup? inner cs

def readOperand? : Reader (List Node) := fun cs => do
  let (signs, cs) := readMany readSign? cs.length cs
  let (operand, cs) ← readPrimary? inner (skipBlanks cs)
  some (signs ++ [operand], cs)

def readLink? : Reader (List Node) := fun cs => do
  let (operator, cs) ← readOperator? cs
  let (operand, cs) ← readOperand? inner (skipBlanks cs)
  some (operator :: operand, cs)

/-- A row in which parentheses hold what `inner` reads. -/
def readRowOver? : Reader (List Node) := fun cs => do
  let (first, cs) ← readOperand? inner cs
  let (links, cs) := readMany (readLink? inner) cs.length cs
  some (first ++ links, cs)

end

/-- A row with less than `depth` parentheses open at once. -/
def readRow? : Nat → Reader (List Node)
  | 0 => fun _ => none
  | depth + 1 => readRowOver? (readRow? depth)

/-- The nodes of a text that is one expression and nothing else. No more parentheses are open in it than it has
characters. -/
def parse? (cs : List Char) : Option (List Node) := do
  let (nodes, rest) ← readRow? (cs.length + 1) (skipBlanks cs)
  if (skipBlanks rest).isEmpty then some [.row nodes, .token .ending []] else none

end Blueprint.Expr
