/-!
# Commands of the program

`Invocation` is what the arguments amount to: a command, a question about the program itself, or a misuse.
-/

namespace Blueprint

inductive Command where
  /-- Compile a document and list its objects. -/
  | compile (file : String) (config : Option String) (order : List String) (strict : Bool)
  /-- Print the schema of documents. -/
  | schema
  /-- Print the manual of one category, or of all. -/
  | manual (category : Option String)
  /-- List the categories and their tags. -/
  | list
deriving Repr, DecidableEq

inductive Invocation where
  | command (c : Command)
  | help
  | version
  | misuse
deriving Repr, DecidableEq

end Blueprint
