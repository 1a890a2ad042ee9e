/-!
# Parts of a text

A text is cut at every occurrence of a separator; there is one part more than there are separators.
-/

namespace Blueprint.Text

/-- The parts of a text between separators. -/
def parts (separator : Char) : List Char → List (List Char)
  | [] => [[]]
  | c :: cs =>
    match parts separator cs with
    | [] => [[c]]
    | first :: others => if c = separator then [] :: first :: others else (c :: first) :: others

end Blueprint.Text
