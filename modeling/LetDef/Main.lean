import LetDef.CommandLine.Run

/-!
# The command

The command reads the files that the arguments name, lets `LetDef.CommandLine.run` do the work and
prints the report.  Its exit code is zero if no error was met, one if there was an error, and two if
the arguments make no sense.
-/

namespace LetDef.CommandLine

/-- Reads a file; there is no text if it cannot be read or is no UTF-8. -/
def readSource (path : String) : IO Source := do
  try
    let text ← IO.FS.readFile path
    pure ⟨path, some text⟩
  catch _ => pure ⟨path, none⟩

/-- Prints a report and gives the exit code. -/
def printReport (report : Report) : IO UInt32 := do
  IO.print report.output
  IO.eprint report.errors
  pure (if report.succeeded then 0 else 1)

end LetDef.CommandLine

open LetDef.CommandLine in
/-- Runs the program with the given arguments. -/
def main (arguments : List String) : IO UInt32 := do
  match Request.ofArguments arguments with
  | .version =>
    IO.print versionText
    pure 0
  | .help =>
    IO.print usageText
    pure 0
  | .misuse =>
    IO.eprint usageText
    pure 2
  | .run config =>
    let sources ← config.paths.mapM readSource
    printReport (run config.stage config.format config.limit sources)
