import PenMath.CommandLine

/-!
# The program

Reads the files that the arguments name, and prints the report.
-/

namespace PenMath.CommandLine

/-- The text of a file, none if there is no such file or it is no text. -/
def fileText (path : String) : IO (Option String) := do
  try return some (← IO.FS.readFile path)
  catch _ => return none

/-- The files that a command reads, with their texts. -/
def filesOf : Command → IO (List (String × Option String))
  | .replay recording thresholds =>
    (thresholds.toList ++ [recording]).mapM fun path => do return (path, ← fileText path)
  | _ => return []

end PenMath.CommandLine

open PenMath.CommandLine

/-- Replays the recording that the arguments name. -/
def main (args : List String) : IO UInt32 := do
  let command := Command.ofArgs args
  let files ← filesOf command
  let result := report (fun path => (files.lookup path).join) command
  for line in result.lines do
    IO.println line
  for complaint in result.complaint do
    IO.eprintln complaint
  return result.exitCode.toUInt32
