import Prosaic.CommandLine.Run

/-!
The program. It gathers what a run may ask for, and does what the response says.
-/

namespace Prosaic.CommandLine

/-- The obstacle of which the file system tells in some words. -/
def obstacle (reason : String) : Unreadable :=
  ([Unreadable.directory, .notDirectory,
    .nameTooLong].find? (·.reason == reason)).getD (.other reason)

def realFiles : Files IO := fun path => do
  if !path.isNameable then return .unreadable .noName
  try
    return .file (← IO.FS.readFile path.text)
  catch
    | .noFileOrDirectory .. => return .missing
    | .inappropriateType _ _ reason => return .unreadable (obstacle reason)
    | .invalidArgument _ _ reason => return .unreadable (obstacle reason)
    | e => return .unreadable (.other (toString e))

def variableNames : List String :=
  ["SIGIL_MAX_NESTING_DEPTH", "SIGIL_MAX_NODES", "SIGIL_TIME_BUDGET"]

def realEnvironment : IO Settings.Environment := do
  let values ← variableNames.mapM fun name => return (name, ← IO.getEnv name)
  return fun name => (values.lookup name).join

/-- Writes a file, and the directories that it lies in. -/
def writeOutput (output : Option (Path × String)) : IO Unit := do
  match output with
  | some (path, text) =>
    IO.FS.createDirAll path.parent.text
    IO.FS.writeFile path.text text
  | none => return ()

def Breakdown.message : Breakdown → String
  | source path => path.text ++ ": " ++ Unreadable.noName.reason
  | settings .notATable => "the configuration is not a table"
  | settings (.unreadable path why) => path.text ++ ": " ++ why.reason
  | settings _ => "a number in the configuration is out of range"
  | registry (.unreadable path why) => path.text ++ ": " ++ why.reason
  | registry _ => "the registry cannot be loaded"
  | lowering d => d.message

def perform (response : Response) : IO UInt32 := do
  writeOutput response.output
  IO.print response.shown.printed
  match response.error with
  | some _ => IO.eprint response.complaint
  | none => if response.exitCode = misuse then IO.eprint helpText
  return response.exitCode.toUInt32

end Prosaic.CommandLine

open Prosaic Prosaic.CommandLine

def main (arguments : List String) : IO UInt32 := do
  let workingDirectory := Path.ofText (toString (← IO.currentDir))
  let environment ← realEnvironment
  match ← run realFiles workingDirectory environment .still arguments with
  | .ok response => perform response
  | .error breakdown =>
    IO.eprint ("error: " ++ breakdown.message ++ "\n")
    return 1
