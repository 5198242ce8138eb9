import Appraisal.Json.Basic
import Appraisal.Text.Search
import Appraisal.Text.Utf8

/-!
# Reading JSON

A recursive-descent reader of the grammar of RFC 8259. `parse?` reads a whole text, with blanks at
either end; it keeps literals as they are written and leaves to its callers what they denote.
`ofBytes?` reads the bytes of a text in UTF-8.
-/

namespace Appraisal.Json

/-- The blanks of JSON: space, tab, line feed and carriage return. -/
def isBlank (c : Char) : Bool := c == ' ' || c == '\t' || c == '\n' || c == '\r'

def skipBlank (text : List Char) : List Char := text.dropWhile isBlank

/-- A piece of a string literal: a character, or a UTF-16 code unit named by an escape. -/
inductive Piece where
  | char (c : Char)
  | unit (n : Nat)

def hexValue? (c : Char) : Option Nat :=
  if c.isDigit then some (c.toNat - 48)
  else if 'a' ≤ c ∧ c ≤ 'f' then some (c.toNat - 87)
  else if 'A' ≤ c ∧ c ≤ 'F' then some (c.toNat - 55)
  else none

/-- The code unit that four hexadecimal digits name. -/
def codeUnit? (a b c d : Char) : Option Nat := do
  let high := (← hexValue? a) * 16 + (← hexValue? b)
  return (high * 16 + (← hexValue? c)) * 16 + (← hexValue? d)

/-- The character that a short escape stands for. -/
def unescape? (c : Char) : Option Char :=
  if c = '"' then some '"'
  else if c = '\\' then some '\\'
  else if c = '/' then some '/'
  else if c = 'b' then some '\x08'
  else if c = 'f' then some '\x0c'
  else if c = 'n' then some '\n'
  else if c = 'r' then some '\r'
  else if c = 't' then some '\t'
  else none

/-- The pieces of a string literal after its opening quote, and what follows the closing one. -/
def readPieces : List Char → Option (List Piece × List Char)
  | [] => none
  | '"' :: rest => some ([], rest)
  | '\\' :: 'u' :: a :: b :: c :: d :: rest => do
    let unit ← codeUnit? a b c d
    let (pieces, rest) ← readPieces rest
    return (.unit unit :: pieces, rest)
  | '\\' :: c :: rest => do
    let char ← unescape? c
    let (pieces, rest) ← readPieces rest
    return (.char char :: pieces, rest)
  | c :: rest => do
    if c.toNat < 32 ∨ c = '\\' then none
    else
      let (pieces, rest) ← readPieces rest
      return (.char c :: pieces, rest)

/-- The text that pieces denote, none when a code unit is half of a surrogate pair by itself. -/
def joinPieces : List Piece → Option (List Char)
  | [] => some []
  | .char c :: pieces => (joinPieces pieces).map (c :: ·)
  | .unit high :: .unit low :: pieces =>
    if 0xD800 ≤ high ∧ high < 0xDC00 then
      if 0xDC00 ≤ low ∧ low < 0xE000 then
        (joinPieces pieces).map
          (Char.ofNat ((high - 0xD800) * 0x400 + (low - 0xDC00) + 0x10000) :: ·)
      else none
    else if 0xDC00 ≤ high ∧ high < 0xE000 then none
    else (joinPieces (.unit low :: pieces)).map (Char.ofNat high :: ·)
  | .unit n :: pieces =>
    if 0xD800 ≤ n ∧ n < 0xE000 then none
    else (joinPieces pieces).map (Char.ofNat n :: ·)

/-- A string literal after its opening quote. -/
def readString (text : List Char) : Option (Option String × List Char) :=
  (readPieces text).map fun (pieces, rest) => ((joinPieces pieces).map String.ofList, rest)

/-- The digits after a decimal point, at least one; none of them when there is no point. -/
def readFraction : List Char → Option (List Char × List Char)
  | '.' :: text =>
    let (digits, rest) := Text.spanDigits text
    if digits.isEmpty then none else some (digits, rest)
  | text => some ([], text)

/-- An exponent, with a mark for a negative one. -/
def readExponent : List Char → Option (Option (Bool × List Char) × List Char)
  | [] => some (none, [])
  | e :: text =>
    if e = 'e' ∨ e = 'E' then
      let (negative, rest) := Binary64.splitSign text
      let (digits, rest) := Text.spanDigits rest
      if digits.isEmpty then none else some (some (negative, digits), rest)
    else some (none, e :: text)

/-- A number literal. Its digits before the point do not start with a zero, unless that is all. -/
def readNumber (text : List Char) : Option (Literal × List Char) := do
  let (negative, text) := match text with
    | '-' :: text => (true, text)
    | text => (false, text)
  let (whole, rest) := Text.spanDigits text
  if whole.isEmpty || (whole.head? == some '0' && 1 < whole.length) then none
  else
    let (fraction, rest) ← readFraction rest
    let (exponent, rest) ← readExponent rest
    return (⟨negative, whole, fraction, exponent⟩, rest)

mutual

/-- A value, with blanks before it. The number bounds the depth of the recursion. -/
def readValue : Nat → List Char → Option (Json × List Char)
  | 0, _ => none
  | fuel + 1, text => match skipBlank text with
    | [] => none
    | c :: rest =>
      if c = '"' then (readString rest).map fun (content, rest) => (.string content, rest)
      else if c = '[' then
        match skipBlank rest with
        | ']' :: rest => some (.array [], rest)
        | _ => (readItems fuel rest).map fun (items, rest) => (.array items, rest)
      else if c = '\x7b' then
        match skipBlank rest with
        | '\x7d' :: rest => some (.object [], rest)
        | _ => (readFields fuel rest).map fun (fields, rest) => (.object fields, rest)
      else if c = 'n' then (Text.dropStart? "null".toList (c :: rest)).map fun rest => (.null, rest)
      else if c = 't' then
        (Text.dropStart? "true".toList (c :: rest)).map fun rest => (.bool true, rest)
      else if c = 'f' then
        (Text.dropStart? "false".toList (c :: rest)).map fun rest => (.bool false, rest)
      else (readNumber (c :: rest)).map fun (literal, rest) => (.number literal, rest)

/-- The items of an array, at least one, with its closing bracket. -/
def readItems : Nat → List Char → Option (List Json × List Char)
  | 0, _ => none
  | fuel + 1, text => do
    let (item, rest) ← readValue fuel text
    match skipBlank rest with
    | ',' :: rest =>
      let (items, rest) ← readItems fuel rest
      return (item :: items, rest)
    | ']' :: rest => return ([item], rest)
    | _ => none

/-- The fields of an object, at least one, with its closing brace. -/
def readFields : Nat → List Char → Option (List (Option String × Json) × List Char)
  | 0, _ => none
  | fuel + 1, text => match skipBlank text with
    | '"' :: rest => do
      let (key, rest) ← readString rest
      match skipBlank rest with
      | ':' :: rest =>
        let (value, rest) ← readValue fuel rest
        match skipBlank rest with
        | ',' :: rest =>
          let (fields, rest) ← readFields fuel rest
          return ((key, value) :: fields, rest)
        | '\x7d' :: rest => return ([(key, value)], rest)
        | _ => none
      | _ => none
    | _ => none

end

/-- The document that a text holds, none when it is no JSON. Each step of the recursion takes a
character or is the only one to take none before the next does, so that the bound is never met. -/
def parse? (text : List Char) : Option Json :=
  match readValue (2 * text.length + 2) text with
  | some (document, rest) => if (skipBlank rest).isEmpty then some document else none
  | none => none

/-- Stands for bytes that are no UTF-8: half of a surrogate pair, which a string may hold as long as
nothing asks for its text. The letter before it keeps a backslash from taking it for an escape of
its own. -/
def gap : List Char := "x\\ud800".toList

/-- The document that bytes hold. -/
def ofBytes? (bytes : ByteArray) : Option Json := parse? (Text.decodedWith gap bytes)

@[simp] theorem ofBytes?_toUTF8 (text : String) : ofBytes? text.toUTF8 = parse? text.toList := by
  rw [ofBytes?, Text.decodedWith_toUTF8]

end Appraisal.Json
