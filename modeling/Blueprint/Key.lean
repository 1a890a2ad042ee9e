import Blueprint.Text.Blank
import Blueprint.Text.Lowercase

/-!
# Category keys

Users may spell a category name with capitals, hyphens and blanks. Its key is the one spelling that the registry
compares: lowercase words joined by underscores, with no hyphen and no blank.
-/

namespace Blueprint.Key

/-- A hyphen is as good as an underscore. -/
def unhyphen (c : Char) : Char := if c = '-' then '_' else c

/-- The key of a list of characters. -/
def cleanChars (cs : List Char) : List Char :=
  Text.lowercase ((['_'].intercalate (Text.words cs)).map unhyphen)

/-- The key that a spelling stands for. -/
def clean (name : String) : String := String.ofList (cleanChars name.toList)

end Blueprint.Key
