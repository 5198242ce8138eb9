import Appraisal.Json.Number

/-!
# JSON documents

A document as it is written, with its number literals and the order and repetition of its keys. A
string literal whose escapes name half of a surrogate pair denotes no text and is kept as `none`.
-/

namespace Appraisal

/-- A JSON document. -/
inductive Json where
  | null
  | bool (value : Bool)
  | number (literal : Json.Literal)
  | string (content : Option String)
  | array (items : List Json)
  | object (fields : List (Option String × Json))

namespace Json

def text (content : String) : Json := .string (some content)

def int (n : Int) : Json := .number (.ofInt n)

def texts (contents : List String) : Json := .array (contents.map text)

/-- The document of a text that may be missing. -/
def text? : Option String → Json
  | none => .null
  | some content => text content

def field (key : String) (value : Json) : Option String × Json := (some key, value)

mutual

/-- Whether every string of a document denotes a text, every number a finite one, and arrays and
objects are nested at most so deep. -/
def sound (depth : Nat) : Json → Bool
  | .null => true
  | .bool _ => true
  | .number literal => literal.value?.isSome
  | .string content => content.isSome
  | .array items => match depth with
    | 0 => false
    | depth + 1 => soundItems depth items
  | .object fields => match depth with
    | 0 => false
    | depth + 1 => soundFields depth fields

def soundItems (depth : Nat) : List Json → Bool
  | [] => true
  | item :: items => sound depth item && soundItems depth items

def soundFields (depth : Nat) : List (Option String × Json) → Bool
  | [] => true
  | (key, value) :: fields => key.isSome && sound depth value && soundFields depth fields

end

/-- The nesting that a document may have to be read as a value. -/
def maxDepth : Nat := 127

/-- The value of a key, the last one when the key is repeated. -/
def lookup (fields : List (Option String × Json)) (key : String) : Option Json :=
  (fields.reverse.find? fun field => field.1 == some key).map (·.2)

end Json

end Appraisal
