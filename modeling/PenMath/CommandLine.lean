import PenMath.Stored.Formula

/-!
# The command line

The program replays a recording in one session and prints one line for each formula: what it asks
for, or why it is rejected. Thresholds other than the standard ones can be given in a file.

Arguments are looked at from left to right. An option for help or for the version is obeyed as soon
as it is met, if nothing before it was wrong.
-/

namespace PenMath

namespace CommandLine

/-- The name of the program. -/
def program : String := "ink-formula"

/-- The version of the program. -/
def version : String := "0.1.0"

/-- The files that a run reads, by their paths. -/
structure Inputs where
  recording : Option String
  thresholds : Option String
deriving DecidableEq

/-- What the arguments ask for. -/
inductive Command where
  | replay (recording : String) (thresholds : Option String)
  | help
  | version
  /-- The arguments are wrong. -/
  | misuse
deriving DecidableEq

/-! ## Arguments -/

/-- Whether an argument is an option. A single "-" is not. -/
def isOption (arg : String) : Bool := arg.startsWith "-" && arg ≠ "-"

/-- The value in an argument that is the option for thresholds with its value. -/
def attached? (arg : String) : Option String :=
  let start := "--config="
  if start.toList.isPrefixOf arg.toList then some (.ofList (arg.toList.drop start.length)) else none

/-- The inputs with a recording; there is one, and its path is not empty. -/
def Inputs.withRecording? (i : Inputs) (path : String) : Option Inputs :=
  if path.isEmpty || i.recording.isSome then none else some { i with recording := some path }

/-- The inputs with thresholds, under the same conditions. -/
def Inputs.withThresholds? (i : Inputs) (path : String) : Option Inputs :=
  if path.isEmpty || i.thresholds.isSome then none else some { i with thresholds := some path }

/-- The command of complete inputs. -/
def Inputs.command (i : Inputs) : Command :=
  match i.recording with
  | some recording => .replay recording i.thresholds
  | none => .misuse

/-- The command of arguments of which none is an option any more. -/
def plain (i : Inputs) : List String → Command
  | [] => i.command
  | arg :: rest =>
    match i.withRecording? arg with
    | some i => plain i rest
    | none => .misuse

/-- The command that an option asks for at once, if it is one of those. Options of one letter may
stand together, and the first one counts. -/
def immediate? (arg : String) : Option Command :=
  if arg = "--help" then some .help
  else if arg = "--version" then some .version
  else
    match arg.toList with
    | '-' :: 'h' :: _ => some .help
    | '-' :: 'V' :: _ => some .version
    | _ => none

/-- The command of arguments. -/
def parse (i : Inputs) : List String → Command
  | [] => i.command
  | "--" :: rest => plain i rest
  | ["--config"] => .misuse
  | "--config" :: path :: rest =>
    if isOption path then .misuse
    else
      match i.withThresholds? path with
      | some i => parse i rest
      | none => .misuse
  | arg :: rest =>
    match attached? arg with
    | some path =>
      match i.withThresholds? path with
      | some i => parse i rest
      | none => .misuse
    | none =>
      if isOption arg then (immediate? arg).getD .misuse
      else
        match i.withRecording? arg with
        | some i => parse i rest
        | none => .misuse

/-- The command of the arguments of a run. -/
def Command.ofArgs (args : List String) : Command := parse ⟨none, none⟩ args

/-! ## Answers -/

/-- What a run leaves behind. -/
structure Report where
  exitCode : UInt8
  /-- The lines printed. -/
  lines : List String
  /-- What is said about a failure. -/
  complaint : Option String
deriving DecidableEq

namespace Report

/-- The report of a run that succeeds. -/
def success (lines : List String) : Report := ⟨0, lines, none⟩

/-- The report of a run that fails at a step. -/
def failure (step : String) : Report := ⟨1, [], some ("Error: " ++ step)⟩

/-- The report of wrong arguments. -/
def misused : Report :=
  ⟨2, [], some ("Usage: " ++ program ++ " [OPTIONS] <FORMULAS>")⟩

end Report

/-- How the program is called. -/
def helpLines : List String := [
  "Replay recorded handwritten formulas and print their solver requests",
  "",
  "Usage: " ++ program ++ " [OPTIONS] <FORMULAS>",
  "",
  "Arguments:",
  "  <FORMULAS>  JSON array of recorded formulas (`\x7b \"mode\", \"boxes\" \x7d`)",
  "",
  "Options:",
  "      --config <CONFIG>  Parser configuration JSON overriding the default thresholds",
  "  -h, --help             Print help",
  "  -V, --version          Print version"]

/-- What an answer says in a line. -/
def answerText : Except Fault Outcome → String
  | .ok outcome => outcome.request.text
  | .error fault => "error: " ++ fault.message

/-- The lines for the answers to formulas, numbered from zero. -/
def answerLines (answers : List (Except Fault Outcome)) : List String :=
  answers.mapIdx fun index answer => toString index ++ ": " ++ answerText answer

/-- The thresholds of a run, or the step at which it fails. -/
def thresholdsOf (read : String → Option String) : Option String → Except String Thresholds
  | none => .ok .standard
  | some path =>
    match read path with
    | none => .error ("reading parser config " ++ path)
    | some text => (loadThresholds text).mapError fun _ => "parsing parser config"

/-- The answers to the formulas of a recording, or the step at which the run fails. -/
def replay (read : String → Option String) (recording : String) (thresholds : Option String) :
    Except String (List (Except Fault Outcome)) := do
  let thresholds ← thresholdsOf read thresholds
  let formulas ← (loadFormulas (read recording)).mapError fun _ => "loading " ++ recording
  return ((Session.start thresholds).addAll formulas).1.submitAll.2

/-- What a command leaves behind, when files are read like this. -/
def report (read : String → Option String) : Command → Report
  | .help => .success helpLines
  | .version => .success [program ++ " " ++ version]
  | .misuse => .misused
  | .replay recording thresholds =>
    match replay read recording thresholds with
    | .ok answers => .success (answerLines answers)
    | .error step => .failure step

end CommandLine

end PenMath
