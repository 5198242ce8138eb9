import Appraisal.CommandLine.Option
import Appraisal.Text.Search

/-!
# Reading a command line

The arguments are read from left to right. The value of an option follows its name, either in the
same argument or as the next one. An option or file is settled, and its value checked, when the
next one begins or the arguments end; so an unknown argument is reported before a wrong value that
it follows. Options that are not given take their value from the environment or a default.
-/

namespace Appraisal.CommandLine

/-- The values that the environment has for options. -/
structure Environment where
  userId : Option String
  serverUrl : Option String
deriving DecidableEq, Repr

def Default.company : String := "google"

def Default.serverUrl : String := "http://127.0.0.1:8080"

def Default.limit : UInt32 := 10

/-- What has been read but not settled. -/
inductive Pending where
  | nothing
  | name (setting : Setting)
  | value (setting : Setting) (value : String)
  | file (path : String)
deriving DecidableEq, Repr

/-- What has been read of the arguments of a command. Once two hyphens stand alone, no later
argument is an option. -/
structure Progress where
  given : List (Setting × String)
  file : Option String
  pending : Pending
  literal : Bool
deriving DecidableEq, Repr

namespace Progress

def start : Progress := ⟨[], none, .nothing, false⟩

/-- Adds the value of an option, which must not have one yet. -/
def add (p : Progress) (setting : Setting) (value : String) : Except UsageError Progress :=
  if (p.given.lookup setting).isSome then .error .repeated
  else match setting.fault? value with
    | some fault => .error fault
    | none => .ok { p with given := p.given ++ [(setting, value)], pending := .nothing }

/-- Settles what is pending. -/
def settle (p : Progress) : Except UsageError Progress :=
  match p.pending with
  | .nothing => .ok p
  | .name _ => .error .invalidValue
  | .value setting value => p.add setting value
  | .file path =>
    if path.isEmpty then .error .invalidValue
    else .ok { p with file := some path, pending := .nothing }

/-- Takes an option with its value, if that is in the same argument. -/
def takeOption (p : Progress) (setting : Setting) (value : Option String) :
    Except UsageError Progress := do
  let p ← p.settle
  match value with
  | some value => p.add setting value
  | none => return { p with pending := .name setting }

/-- Takes a name after two hyphens, with a value after an equals sign if there is one. -/
def takeName (p : Progress) (verb : Verb) (name : String) (value : Option String) :
    Except UsageError Progress :=
  if name = "help" then
    match value with
    | some _ => .error .unwantedValue
    | none => do
      let _ ← p.settle
      .error .help
  else match Setting.ofName? verb name with
    | some setting => p.takeOption setting value
    | none => .error .unknownArgument

/-- The value that follows a letter in the same argument, perhaps after an equals sign. -/
def attached : List Char → Option String
  | [] => none
  | '=' :: rest => some (String.ofList rest)
  | rest => some (String.ofList rest)

/-- Takes a letter after one hyphen and what follows it in the same argument. -/
def takeLetter (p : Progress) (verb : Verb) (letter : Char) (rest : List Char) :
    Except UsageError Progress :=
  if letter = 'h' then do
    let _ ← p.settle
    .error .help
  else match Setting.ofLetter? verb letter with
    | some setting => p.takeOption setting (attached rest)
    | none => .error .unknownArgument

/-- Whether a file has been read, settled or not. -/
def hasFile (p : Progress) : Bool :=
  p.file.isSome || match p.pending with
    | .file _ => true
    | _ => false

/-- Takes an argument that is no option as the file. -/
def takeFile (p : Progress) (verb : Verb) (path : String) : Except UsageError Progress :=
  if verb.takesFile && !p.hasFile then do
    let p ← p.settle
    return { p with pending := .file path }
  else .error .unknownArgument

/-- Takes an argument that does not look like an option: the value of the option before it, or the
file. -/
def takePlain (p : Progress) (verb : Verb) (argument : String) : Except UsageError Progress :=
  match p.pending with
  | .name setting => .ok { p with pending := .value setting argument }
  | _ => p.takeFile verb argument

/-- The name in an argument with two hyphens, and its value after an equals sign. -/
def splitName (text : List Char) : String × Option String :=
  (String.ofList (text.takeWhile (· != '=')),
    match text.dropWhile (· != '=') with
    | [] => none
    | _ :: value => some (String.ofList value))

/-- Takes one argument. -/
def take (p : Progress) (verb : Verb) (argument : String) : Except UsageError Progress :=
  if p.literal then p.takeFile verb argument
  else match argument.toList with
    | ['-', '-'] => .ok { p with literal := true }
    | '-' :: '-' :: text => p.takeName verb (splitName text).1 (splitName text).2
    | '-' :: letter :: rest => p.takeLetter verb letter rest
    | _ => p.takePlain verb argument

/-- Takes all arguments, and settles what is left. -/
def takeAll (verb : Verb) : Progress → List String → Except UsageError Progress
  | p, [] => p.settle
  | p, argument :: rest => do takeAll verb (← p.take verb argument) rest

/-- The value of an option, if it is given. -/
def value? (p : Progress) (setting : Setting) : Option String := p.given.lookup setting

/-- The file of a command that needs one. -/
def source (p : Progress) : Except UsageError SourceOptions :=
  match p.file with
  | none => .error .missingArgument
  | some file => .ok ⟨file, p.value? .language, (p.value? .company).getD Default.company⟩

def output (p : Progress) : OutputOptions :=
  ⟨((p.value? .format).bind format?).getD .text, p.value? .reportOutput⟩

/-- The address of the server: the one given, that of the environment, or the default. -/
def serverUrl (p : Progress) (environment : Environment) : String :=
  (p.value? .serverUrl).getD (environment.serverUrl.getD Default.serverUrl)

/-- The command with everything that was read. -/
def command (p : Progress) (verb : Verb) (environment : Environment) :
    Except UsageError Command :=
  match verb with
  | .analyze => do return .analyze (← p.source) p.output
  | .submit => do
    match (p.value? .userId).or environment.userId with
    | none => .error .missingArgument
    | some userId =>
      return .submit (← p.source) userId (p.value? .title) (p.serverUrl environment) p.output
  | .leaderboard =>
    .ok (.leaderboard (((p.value? .limit).bind limit?).getD Default.limit)
      (p.serverUrl environment) p.output)

end Progress

/-- The answer to the word `help` and the words after it: help, unless they name no command. -/
def helpFor : List String → UsageError
  | [] => .help
  | [word] => if word = "help" || (Verb.ofWord? word).isSome then .help else .unknownCommand
  | _ => .unknownCommand

/-- The answer to an argument with two hyphens before any command. -/
def topLevelName (text : List Char) : UsageError :=
  let (name, value) := Progress.splitName text
  if name = "help" || name = "version" then
    if value.isSome then .unwantedValue else if name = "help" then .help else .version
  else .unknownArgument

/-- The answer to what follows two hyphens alone before any command. -/
def afterHyphens : List String → UsageError
  | [] => .noArguments
  | word :: _ =>
    if word = "help" || (Verb.ofWord? word).isSome then .unknownArgument else .unknownCommand

/-- The command that arguments make in an environment. -/
def parse (environment : Environment) : List String → Except UsageError Command
  | [] => .error .noArguments
  | word :: rest =>
    match Verb.ofWord? word with
    | some verb => do (← Progress.takeAll verb .start rest).command verb environment
    | none =>
      if word = "help" then .error (helpFor rest)
      else match word.toList with
        | ['-', '-'] => .error (afterHyphens rest)
        | '-' :: '-' :: text => .error (topLevelName text)
        | '-' :: letter :: _ =>
          .error (if letter = 'h' then .help else if letter = 'V' then .version
            else .unknownArgument)
        | _ => .error .unknownCommand

end Appraisal.CommandLine
