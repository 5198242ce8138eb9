import Appraisal.Assessment
import Appraisal.Text.Digits

/-!
# Commands and their options

The three commands, the options that each of them takes, and what a value of an option must look
like.
-/

namespace Appraisal.CommandLine

/-- The file that is assessed, and as what. -/
structure SourceOptions where
  file : String
  language : Option String
  company : String
deriving DecidableEq, Repr

/-- How a result is shown: its format, and a file for it in place of the standard output. -/
structure OutputOptions where
  format : Format
  file : Option String
deriving DecidableEq, Repr

/-- A command with the values of its options. -/
inductive Command where
  | analyze (source : SourceOptions) (output : OutputOptions)
  | submit (source : SourceOptions) (userId : String) (title : Option String) (serverUrl : String)
      (output : OutputOptions)
  | leaderboard (limit : UInt32) (serverUrl : String) (output : OutputOptions)
deriving DecidableEq, Repr

/-- The words that name a command. -/
inductive Verb where
  | analyze
  | submit
  | leaderboard
deriving DecidableEq, Repr

/-- The options that take a value. -/
inductive Setting where
  | language
  | company
  | userId
  | title
  | limit
  | serverUrl
  | format
  | reportOutput
deriving DecidableEq, Repr

/-- Why arguments do not make a command: they ask for help or for the version, or are at fault. -/
inductive UsageError where
  | help
  | version
  | noArguments
  | unknownCommand
  | unknownArgument
  | invalidValue
  | invalidNumber
  | unwantedValue
  | repeated
  | missingArgument
deriving DecidableEq, Repr

namespace Verb

def word : Verb → String
  | .analyze => "analyze"
  | .submit => "submit"
  | .leaderboard => "leaderboard"

def all : List Verb := [.analyze, .submit, .leaderboard]

def ofWord? (word : String) : Option Verb := all.find? fun verb => verb.word == word

@[simp] theorem ofWord?_word (verb : Verb) : ofWord? verb.word = some verb := by
  cases verb <;> decide

def takesFile : Verb → Bool
  | .leaderboard => false
  | _ => true

def settings : Verb → List Setting
  | .analyze => [.language, .company, .format, .reportOutput]
  | .submit => [.language, .company, .userId, .title, .serverUrl, .format, .reportOutput]
  | .leaderboard => [.limit, .serverUrl, .format, .reportOutput]

end Verb

namespace Setting

/-- The name of an option after two hyphens. -/
def name : Setting → String
  | .language => "language"
  | .company => "company"
  | .userId => "user-id"
  | .title => "title"
  | .limit => "limit"
  | .serverUrl => "server-url"
  | .format => "format"
  | .reportOutput => "report-output"

/-- The letter of an option after one hyphen. -/
def letter? : Setting → Option Char
  | .language => some 'l'
  | .company => some 'c'
  | _ => none

def ofName? (verb : Verb) (name : String) : Option Setting :=
  verb.settings.find? fun setting => setting.name == name

def ofLetter? (verb : Verb) (letter : Char) : Option Setting :=
  verb.settings.find? fun setting => setting.letter? == some letter

end Setting

def format? (word : String) : Option Format :=
  if word = "text" then some .text
  else if word = "json" then some .json
  else if word = "markdown" then some .markdown
  else none

/-- A number of 32 bits without a sign, which may be written with one. -/
def limit? (text : String) : Option UInt32 := do
  let n ← Text.readInt text.toList
  if 0 ≤ n ∧ n < 0x100000000 then some (.ofNat n.toNat) else none

/-- What is wrong with the value of an option, if anything. -/
def Setting.fault? (setting : Setting) (value : String) : Option UsageError :=
  match setting with
  | .format => if (format? value).isSome then none else some .invalidValue
  | .limit => if (limit? value).isSome then none else some .invalidNumber
  | .reportOutput => if value.isEmpty then some .invalidValue else none
  | _ => none

end Appraisal.CommandLine
