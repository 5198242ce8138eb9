import Appraisal.Json.Basic

/-!
# Decoding JSON

Readers of single values, and `record?`, which finds the fields of a record in a document. A
record is an object, or an array of all its fields in order. Fields that it does not know are
passed over; one that it knows must not be repeated.
-/

namespace Appraisal.Json

def asText? : Json → Option String
  | .string content => content
  | _ => none

@[simp] theorem asText?_text (content : String) : asText? (text content) = some content := rfl

/-- The integer of a number that is written as one. -/
def asInt? : Json → Option Int
  | .number literal => match literal.value? with
    | some (.integer n) => some n
    | _ => none
  | _ => none

/-- A number between 0 and 255. -/
def asUInt8? (document : Json) : Option UInt8 := do
  let n ← asInt? document
  if 0 ≤ n ∧ n < 0x100 then some (.ofNat n.toNat) else none

/-- A number of 32 bits without a sign. -/
def asUInt32? (document : Json) : Option UInt32 := do
  let n ← asInt? document
  if 0 ≤ n ∧ n < 0x100000000 then some (.ofNat n.toNat) else none

/-- A number of 32 bits with a sign. -/
def asInt32? (document : Json) : Option Int32 := do
  let n ← asInt? document
  if -0x80000000 ≤ n ∧ n < 0x80000000 then some (.ofInt n) else none

def all? {α β : Type} (read : α → Option β) : List α → Option (List β)
  | [] => some []
  | item :: items => do
    let value ← read item
    let values ← all? read items
    return value :: values

theorem all?_map {α β : Type} {read : α → Option β} {write : β → α}
    (h : ∀ value, read (write value) = some value) : ∀ values : List β,
    all? read (values.map write) = some values
  | [] => rfl
  | value :: values => by simp [all?, h, all?_map h values]

/-- A list whose items are all read by the same reader. -/
def asList? {α : Type} (read : Json → Option α) : Json → Option (List α)
  | .array items => all? read items
  | _ => none

def asTexts? : Json → Option (List String) := asList? asText?

@[simp] theorem asTexts?_texts (contents : List String) :
    asTexts? (texts contents) = some contents :=
  all?_map asText?_text contents

/-- The word that a document names: a string, or an object with that one key and the value null. -/
def asWord? : Json → Option String
  | .string content => content
  | .object [(key, .null)] => key
  | _ => none

/-- A field that must be there. -/
def required {α : Type} (read : Json → Option α) (value : Option Json) : Option α :=
  value.bind read

/-- A field that may be missing or null. -/
def optional {α : Type} (read : Json → Option α) : Option Json → Option (Option α)
  | none => some none
  | some .null => some none
  | some value => (read value).map some

theorem optional_text? (content : Option String) :
    optional asText? (some (text? content)) = some content := by
  cases content <;> rfl

/-- The values of one key, in order. -/
def valuesOf (fields : List (Option String × Json)) (key : String) : List Json :=
  (fields.filter fun field => field.1 == some key).map (·.2)

/-- The value of a key that is not repeated. -/
def single? (fields : List (Option String × Json)) (key : String) : Option (Option Json) :=
  match valuesOf fields key with
  | [] => some none
  | [value] => some (some value)
  | _ => none

/-- The fields of a record by their keys, each missing or there; none when the document is no such
record. -/
def record? (keys : List String) : Json → Option (List (Option Json))
  | .object fields =>
    if fields.all fun field => field.1.isSome then all? (single? fields) keys else none
  | .array items => if items.length = keys.length then some (items.map some) else none
  | _ => none

end Appraisal.Json
