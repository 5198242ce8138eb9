import Appraisal.Json.Basic

/-!
# Writing JSON

Two layouts: `compact` without any blanks, and `pretty` with one item a line, indented by two
spaces for each level. Both write a string by `quoted`, which escapes quotes, backslashes and
control characters and leaves every other character as it is.
-/

namespace Appraisal.Json

/-- The small hexadecimal digit of a number below sixteen. -/
def hexDigit (n : Nat) : Char := Char.ofNat (if n < 10 then 48 + n else 87 + n)

/-- The characters that stand for a character inside a string literal. -/
def escape (c : Char) : List Char :=
  if c = '"' then ['\\', '"']
  else if c = '\\' then ['\\', '\\']
  else if c = '\x08' then ['\\', 'b']
  else if c = '\x0c' then ['\\', 'f']
  else if c = '\n' then ['\\', 'n']
  else if c = '\r' then ['\\', 'r']
  else if c = '\t' then ['\\', 't']
  else if c.toNat < 32 then ['\\', 'u', '0', '0', hexDigit (c.toNat / 16), hexDigit (c.toNat % 16)]
  else [c]

def quoted (content : List Char) : List Char := '"' :: content.flatMap escape ++ ['"']

/-- The literal of a string; one that denotes no text is written as half of a surrogate pair. -/
def quoted? : Option String → List Char
  | some content => quoted content.toList
  | none => "\"\\ud800\"".toList

def writeBool (value : Bool) : List Char := if value then "true".toList else "false".toList

mutual

/-- A document without blanks. -/
def compact : Json → List Char
  | .null => "null".toList
  | .bool value => writeBool value
  | .number literal => literal.text
  | .string content => quoted? content
  | .array items => '[' :: compactItems items
  | .object fields => '\x7b' :: compactFields fields

/-- The items of an array from here on, with its closing bracket. -/
def compactItems : List Json → List Char
  | [] => [']']
  | [item] => compact item ++ [']']
  | item :: next :: items => compact item ++ ',' :: compactItems (next :: items)

/-- The fields of an object from here on, with its closing brace. -/
def compactFields : List (Option String × Json) → List Char
  | [] => ['\x7d']
  | [(key, value)] => quoted? key ++ ':' :: compact value ++ ['\x7d']
  | (key, value) :: next :: fields =>
    quoted? key ++ ':' :: compact value ++ ',' :: compactFields (next :: fields)

end

/-- A new line at a level of indentation. -/
def newline (level : Nat) : List Char := '\n' :: List.replicate (2 * level) ' '

mutual

/-- A document with one item a line, at a level of indentation. -/
def pretty (level : Nat) : Json → List Char
  | .null => "null".toList
  | .bool value => writeBool value
  | .number literal => literal.text
  | .string content => quoted? content
  | .array [] => "[]".toList
  | .array (item :: items) => '[' :: prettyItems level (item :: items)
  | .object [] => ['\x7b', '\x7d']
  | .object (field :: fields) => '\x7b' :: prettyFields level (field :: fields)

/-- The items of an array from here on, each on a line one level deeper than its brackets. -/
def prettyItems (level : Nat) : List Json → List Char
  | [] => newline level ++ [']']
  | [item] => newline (level + 1) ++ pretty (level + 1) item ++ newline level ++ [']']
  | item :: next :: items =>
    newline (level + 1) ++ pretty (level + 1) item ++ ',' :: prettyItems level (next :: items)

/-- The fields of an object from here on, each on a line one level deeper than its braces. -/
def prettyFields (level : Nat) : List (Option String × Json) → List Char
  | [] => newline level ++ ['\x7d']
  | [(key, value)] =>
    newline (level + 1) ++ quoted? key ++ ':' :: ' ' :: pretty (level + 1) value ++
      newline level ++ ['\x7d']
  | (key, value) :: next :: fields =>
    newline (level + 1) ++ quoted? key ++ ':' :: ' ' :: pretty (level + 1) value ++
      ',' :: prettyFields level (next :: fields)

end

def encode (document : Json) : String := String.ofList (compact document)

def encodePretty (document : Json) : String := String.ofList (pretty 0 document)

end Appraisal.Json
