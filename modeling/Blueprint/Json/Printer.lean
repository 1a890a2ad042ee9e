import Blueprint.Decimal.Layout
import Blueprint.Json.Basic

/-!
# Writing JSON text

The compact form has no space at all. The indented form puts each item and member on a line of its own, two spaces
further in than its container. NaN and the infinities are written as null.
-/

namespace Blueprint.Json

def numberChars : Number → List Char
  | .integer n => (toString n).toList
  | .float x => if x.isFinite then (Decimal.jsonText.render x).toList else "null".toList

def hexChar (n : Nat) : Char :=
  if n < 10 then Char.ofNat (48 + n) else Char.ofNat (87 + n)

/-- A character inside a string: quotes, backslashes and control characters are escaped, nothing else. -/
def charChars (c : Char) : List Char :=
  match c with
  | '"' => ['\\', '"']
  | '\\' => ['\\', '\\']
  | '\x08' => ['\\', 'b']
  | '\x0c' => ['\\', 'f']
  | '\n' => ['\\', 'n']
  | '\r' => ['\\', 'r']
  | '\t' => ['\\', 't']
  | c => if c.toNat < 0x20 then ['\\', 'u', '0', '0', hexChar (c.toNat / 16), hexChar (c.toNat % 16)] else [c]

def stringChars (s : String) : List Char :=
  '"' :: (s.toList.flatMap charChars ++ ['"'])

mutual
/-- The compact form. -/
def chars : Json → List Char
  | .null => "null".toList
  | .bool true => "true".toList
  | .bool false => "false".toList
  | .num n => numberChars n
  | .str s => stringChars s
  | .arr items => '[' :: (itemChars items ++ [']'])
  | .obj members => '{' :: (memberChars members ++ ['}'])

def itemChars : List Json → List Char
  | [] => []
  | [item] => chars item
  | item :: items => chars item ++ ',' :: itemChars items

def memberChars : List (String × Json) → List Char
  | [] => []
  | [(key, value)] => stringChars key ++ ':' :: chars value
  | (key, value) :: members => stringChars key ++ ':' :: (chars value ++ ',' :: memberChars members)
end

/-- The compact text of a value. -/
def compact (json : Json) : String := String.ofList json.chars

/-- A line end and the indentation of a line. -/
def newLine (indent : Nat) : List Char := '\n' :: List.replicate (2 * indent) ' '

mutual
/-- The indented form, inside `indent` containers. -/
def indentedChars (indent : Nat) : Json → List Char
  | .arr [] => ['[', ']']
  | .arr items => '[' :: (indentedItems (indent + 1) items ++ newLine indent ++ [']'])
  | .obj [] => ['{', '}']
  | .obj members => '{' :: (indentedMembers (indent + 1) members ++ newLine indent ++ ['}'])
  | scalar => chars scalar

def indentedItems (indent : Nat) : List Json → List Char
  | [] => []
  | [item] => newLine indent ++ indentedChars indent item
  | item :: items => newLine indent ++ indentedChars indent item ++ ',' :: indentedItems indent items

def indentedMembers (indent : Nat) : List (String × Json) → List Char
  | [] => []
  | [(key, value)] => newLine indent ++ stringChars key ++ ':' :: ' ' :: indentedChars indent value
  | (key, value) :: members =>
    newLine indent ++ stringChars key ++ ':' :: ' ' ::
      (indentedChars indent value ++ ',' :: indentedMembers indent members)
end

/-- The indented text of a value. -/
def indented (json : Json) : String := String.ofList (indentedChars 0 json)

end Blueprint.Json
