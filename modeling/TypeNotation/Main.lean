import TypeNotation.CommandLine.Run

/-!
# The program

Reads the files that the arguments may name, runs the command line on them, and delivers the report.
-/

open TypeNotation

/-- The contents of a file, if there is one that can be read. -/
def readIfPresent (path : String) : IO (Option (String × String)) := do
  try
    return some (path, ← IO.FS.readFile path)
  catch _ => return none

/-- Run the command line. -/
def main (args : List String) : IO UInt32 := do
  let contents ← args.filterMapM readIfPresent
  match CommandLine.run (fun path => contents.lookup path) args with
  | .ok report =>
    IO.print report.stdout
    IO.eprint report.stderr
    for (path, document) in report.files do
      IO.FS.writeFile path document
    return report.code.toUInt32
  | .error crash =>
    IO.eprintln crash.message
    return 1
