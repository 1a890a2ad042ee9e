import Blueprint.Command.Run

/-!
# The program

Reads the files of the command, carries it out, and writes its report.
-/

open Blueprint

/-- The text of a file, if it can be read. -/
def readText (path : String) : IO (String × Option String) := do
  try
    return (path, some (← IO.FS.readFile path))
  catch _ => return (path, none)

def main (args : List String) : IO UInt32 := do
  let invocation := Invocation.ofArgs args
  let paths := match invocation with
    | .command c => c.files
    | _ => []
  let texts ← paths.mapM readText
  let report := invocation.run fun path => (texts.lookup path).join
  IO.print report.output
  if let some message := report.error then
    IO.eprintln message
  if report.exit = 2 then
    IO.eprint usage
  return report.exit.toUInt32
