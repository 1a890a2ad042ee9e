import Blueprint.Command.Options
import Blueprint.Diagnostic.Basic
import Blueprint.Document.Basic
import Blueprint.Document.Manual
import Blueprint.Document.Schema
import Blueprint.Json.Printer
import Blueprint.Sampling.Plugins
import Blueprint.Yaml.Document

/-!
# Running a command

`Command.run` carries a command out over given files. The exit code tells success, failure of the command, and misuse
apart.
-/

namespace Blueprint

/-- What a run of the program shows. -/
structure Report where
  exit : Nat
  output : String := ""
  error : Option String := none
deriving Repr, DecidableEq

namespace Report

def success (output : String) : Report := { exit := 0, output }

def failure (message : String) : Report := { exit := 1, error := some s!"Error: {message}" }

end Report

namespace Command

/-- The files of a run: the text of each, by path. -/
abbrev Files := String → Option String

/-- The part of a file name after its last point, if there is a name before it. -/
def extension (path : String) : String :=
  let component := ((path.toList.reverse.dropWhile (· = '/')).takeWhile (· ≠ '/'))
  let after := component.takeWhile (· ≠ '.')
  let before := component.drop (after.length + 1)
  if before.isEmpty || component = ['.', '.'] then "" else String.ofList after.reverse

/-- The value of a document, by the extension of its file; capitals do not matter. -/
def parseDocument? (path text : String) : Option Json :=
  match (extension path).toLower with
  | "json" => Json.parse? .scaled text
  | "yaml" | "yml" => Yaml.parse? text
  | _ => none

def readFile (files : Files) (path : String) : Except String String :=
  match files path with
  | some text => .ok text
  | none => .error s!"reading {path}"

/-- The compile order: from the configuration file if one is given, overridden by the options. -/
def compileOrder (files : Files) (config : Option String) (order : List String) (strict : Bool) :
    Except String CompileOrder := do
  let base ← match config with
    | some path => (CompileOrder.parse (← readFile files path)).mapError OrderError.message
    | none => .ok CompileOrder.standard
  let ordered := if order.isEmpty then base else { base with order }
  let final := if strict then { ordered with unknown := .reject } else ordered
  (final.validate.map fun _ => final).mapError OrderError.message

/-- One line of the list of objects: category, kind and name. -/
def objectLine (o : Object) : String :=
  let category := o.category.getD "-"
  let name := o.name.getD "-"
  s!"{category} {o.kind} {name}\n"

def compileFile (files : Files) (file : String) (order : CompileOrder) : Except String String := do
  let text ← readFile files file
  let document ← match parseDocument? file text with
    | some document => .ok document
    | none => .error s!"parsing {file}"
  match (Document.compile order document).run Sampling.standardRegistry with
  | (.ok handles, r) => .ok (String.join ((handles.filterMap r.store.get?).map objectLine))
  | (.error e, _) => .error e.display

/-- A category with its aliases, and its tags one to a line. -/
def categoryLines (r : Registry) (key : String) (c : Category) : String :=
  let aliases := r.aliasesFor key
  let listed := ", ".intercalate aliases
  let head := if aliases.isEmpty then s!"{key}\n" else s!"{key} (aliases: {listed})\n"
  head ++ String.join (c.tags.map fun tag => s!"  {tag}\n")

def runWith (files : Files) : Command → Except String String
  | .compile file config order strict => do
    compileFile files file (← compileOrder files config order strict)
  | .schema => .ok ((Schema.document Sampling.standardRegistry).indented ++ "\n")
  | .manual category =>
    (Manual.render Manual.standardTitle Sampling.standardRegistry category).mapError Diagnostic.display
  | .list =>
    let r := Sampling.standardRegistry
    .ok (String.join (r.categories.entries.map fun (key, c) => categoryLines r key c))

def run (files : Files) (c : Command) : Report :=
  match c.runWith files with
  | .ok output => .success output
  | .error message => .failure message

def files : Command → List String
  | .compile file config _ _ => config.toList ++ [file]
  | _ => []

end Command

def versionLine : String := "kiln 0.1.0\n"

def usage : String :=
  "Usage: kiln [-v] <command>\n\nCommands:\n" ++
  "  compile <file> [--config <file>] [--order <categories>] [--strict]\n" ++
  "  schema\n  docs [<category>]\n  list\n"

def Invocation.run (files : Command.Files) : Invocation → Report
  | .command c => c.run files
  | .help => .success usage
  | .version => .success versionLine
  | .misuse => { exit := 2 }

end Blueprint
