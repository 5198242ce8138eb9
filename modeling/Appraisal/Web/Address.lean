import Appraisal.Json.Reader
import Appraisal.Text.Digits
import Appraisal.Text.Space

/-!
# Addresses of requests

A request names a path and, after a question mark, the fields of a query. In both, a percent sign
and two hexadecimal digits stand for a byte; in a query a plus sign stands for a space. One field
says how many entries a list is to have.
-/

namespace Appraisal.Web

/-- Puts the bytes in place of their escapes, apart from those that stay as they are written. -/
def unescapeBytes (stays : Nat → Bool) : List Char → Text.Bytes
  | [] => []
  | '%' :: a :: b :: rest =>
    match Json.hexValue? a, Json.hexValue? b with
    | some high, some low =>
      if stays (high * 16 + low) then Text.toBytes ['%', a, b] ++ unescapeBytes stays rest
      else (high * 16 + low) :: unescapeBytes stays rest
    | _, _ => Text.toBytes ['%'] ++ unescapeBytes stays (a :: b :: rest)
  | c :: rest => Text.toBytes [c] ++ unescapeBytes stays rest

/-- The text that escapes stand for. -/
def unescape (text : List Char) : List Char := Text.ofBytes (unescapeBytes (fun _ => false) text)

/-- Whether the escape of a byte stays in a segment until its text is asked for: that of a percent
sign, a plus sign or a slash. -/
def isGuarded (byte : Nat) : Bool := byte == 0x25 || byte == 0x2B || byte == 0x2F

/-- A segment of a path as routes are found by it. -/
def segmentText (segment : List Char) : String :=
  String.ofList (Text.ofBytes (unescapeBytes isGuarded segment))

/-- An address without what follows a hash sign: its path, and its query if there is one. -/
def splitAddress (address : List Char) : List Char × List Char :=
  let address := address.takeWhile (· != '#')
  (address.takeWhile (· != '?'), (address.dropWhile (· != '?')).drop 1)

/-- The text of a key or value in a query. -/
def formText (text : List Char) : String :=
  String.ofList (unescape (text.map fun c => if c = '+' then ' ' else c))

/-- The key and the value in a part of a query; the value is empty where there is none. -/
def formField (part : List Char) : String × String :=
  (formText (part.takeWhile (· != '=')), formText ((part.dropWhile (· != '=')).drop 1))

/-- The fields of a query in order. -/
def formFields (query : List Char) : List (String × String) :=
  ((Text.split '&' query).filter fun part => !part.isEmpty).map formField

/-- The value of a key that is not repeated; none when it is. -/
def formValue? (fields : List (String × String)) (key : String) : Option (Option String) :=
  match fields.filter fun field => field.1 == key with
  | [] => some none
  | [field] => some (some field.2)
  | _ => none

/-- The length of a list for which no limit is given. -/
def usualLimit : Nat := 10

def greatestLimit : Nat := 100

/-- The integer that a numeral in 64 bits denotes, with blanks around it. -/
def readLimit? (text : String) : Option Int :=
  (Text.readInt (Text.trim text.toList)).filter fun n =>
    decide (-0x8000000000000000 ≤ n ∧ n < 0x8000000000000000)

/-- The limit that a query asks for, held between one and the greatest. -/
def limit (text : Option String) : Nat :=
  match text.bind readLimit? with
  | some n => (min (max n 1) greatestLimit).toNat
  | none => usualLimit

end Appraisal.Web
