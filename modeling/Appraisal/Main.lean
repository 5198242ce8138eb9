import Appraisal.CommandLine.Run

/-!
# The program

The outer layer: it takes the arguments, the environment and a file from the system, runs the
command, and prints or writes its text. There is no network here, so that a command that needs a
server fails as if its request had not been delivered.
-/

namespace Appraisal.CommandLine

/-- The failure that a system error stands for. -/
def fileError : IO.Error → FileError
  | .noFileOrDirectory _ _ _ | .noSuchThing _ _ _ => .notFound
  | .inappropriateType _ _ _ => .isFolder
  | .alreadyExists _ _ _ => .exists
  | _ => .notFolder

/-- Runs a step that may meet a system error. -/
def attempt {α : Type} (action : IO α) : IO (Except FileError α) := do
  match ← action.toBaseIO with
  | .ok value => return .ok value
  | .error error => return .error (fileError error)

/-- What a file holds, for a command that reads one. -/
def loadFile (command : Command) : IO (Except FileError ByteArray) := do
  match command.file? with
  | some path => attempt (IO.FS.readBinFile path)
  | none => return .error .notFound

/-- Prints a text, or writes it to a file after making the folders above it. -/
def deliver (output : OutputOptions) (text : String) : IO (Except FileError Unit) := do
  match output.file with
  | none => return .ok (← IO.print text)
  | some path =>
    let folders := (Path.names path.toList).dropLast.map String.ofList
    let start := if path.startsWith "/" then "/" else ""
    attempt do
      unless folders.isEmpty do IO.FS.createDirAll (start ++ String.intercalate "/" folders)
      IO.FS.writeFile path text

def complain (error : CommandError) : IO UInt32 := do
  IO.eprintln ("Error: " ++ (error.message?).getD (reprStr error))
  return 1

def execute (command : Command) : IO UInt32 := do
  let content ← loadFile command
  match (command.result (fun _ => content) .offline).result with
  | .error error => complain error
  | .ok text => match ← deliver command.output text with
    | .ok _ => return 0
    | .error error => complain (.file error)

end Appraisal.CommandLine

open Appraisal.CommandLine in
def main (arguments : List String) : IO UInt32 := do
  let environment : Environment :=
    ⟨← IO.getEnv "CODEMETER_USER_ID", ← IO.getEnv "CODEMETER_API_URL"⟩
  match parse environment arguments with
  | .ok command => execute command
  | .error .version =>
    IO.println "codemeter 0.0.1"
    return 0
  | .error .help =>
    IO.println "Usage: codemeter <analyze|submit|leaderboard> [OPTIONS]"
    return 0
  | .error error =>
    IO.eprintln ("error: " ++ reprStr error)
    return 2
