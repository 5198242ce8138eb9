/-!
# UTF-8

Reading bytes as text. Where bytes are no UTF-8, each longest stretch that begins a character, or
else a single byte, is a gap, and is read as the replacement character.
-/

namespace Appraisal.Text

abbrev Bytes := List Nat

/-- The character for what cannot be read. -/
def replacement : Char := '\uFFFD'

def isContinuation (byte : Nat) : Bool := 0x80 ≤ byte && byte < 0xC0

/-- The length of a character by its first byte, and the bounds of its second byte. -/
def lead? (byte : Nat) : Option (Nat × Nat × Nat) :=
  if 0xC2 ≤ byte ∧ byte < 0xE0 then some (2, 0x80, 0xBF)
  else if byte = 0xE0 then some (3, 0xA0, 0xBF)
  else if byte = 0xED then some (3, 0x80, 0x9F)
  else if 0xE1 ≤ byte ∧ byte < 0xF0 then some (3, 0x80, 0xBF)
  else if byte = 0xF0 then some (4, 0x90, 0xBF)
  else if byte = 0xF4 then some (4, 0x80, 0x8F)
  else if 0xF1 ≤ byte ∧ byte < 0xF4 then some (4, 0x80, 0xBF)
  else none

/-- Joins the continuation bytes of a character to its value. -/
def joinBytes (value : Nat) (bytes : Bytes) : Nat :=
  bytes.foldl (fun value byte => value * 64 + byte % 64) value

/-- Reads a character of several bytes after its first byte: the character, none for a gap, and how
many of the bytes that follow belong to it. -/
def readTail (first : Nat) (rest : Bytes) : Option Char × Nat :=
  match lead? first, rest with
  | some (length, low, high), second :: more =>
    if low ≤ second ∧ second ≤ high then
      let tail := (more.take (length - 2)).takeWhile isContinuation
      if tail.length = length - 2 then
        (some (Char.ofNat (joinBytes (first % Nat.pow 2 (7 - length)) (second :: tail))),
          length - 1)
      else (none, tail.length + 1)
    else (none, 0)
  | _, _ => (none, 0)

/-- The characters and gaps of bytes, leaving out the first `skip` of them. -/
def charsFrom : Nat → Bytes → List (Option Char)
  | _, [] => []
  | skip + 1, _ :: rest => charsFrom skip rest
  | 0, first :: rest =>
    if first < 0x80 then some (Char.ofNat first) :: charsFrom 0 rest
    else
      let (c, used) := readTail first rest
      c :: charsFrom used rest

/-- Reads bytes as text, with this for each gap. -/
def ofBytesWith (gap : List Char) (bytes : Bytes) : List Char :=
  (charsFrom 0 bytes).flatMap fun c => c.elim gap fun c => [c]

/-- Reads bytes as text. -/
def ofBytes (bytes : Bytes) : List Char := ofBytesWith [replacement] bytes

def toBytes (text : List Char) : Bytes :=
  (String.ofList text).toUTF8.toList.map UInt8.toNat

/-- The text of an array of bytes, with this for each gap. -/
def decodedWith (gap : List Char) (bytes : ByteArray) : List Char :=
  match String.fromUTF8? bytes with
  | some text => text.toList
  | none => ofBytesWith gap (bytes.toList.map UInt8.toNat)

@[simp] theorem decodedWith_toUTF8 (gap : List Char) (text : String) :
    decodedWith gap text.toUTF8 = text.toList := by
  have h : String.fromUTF8? text.toUTF8 = some text := dif_pos text.isValidUTF8
  rw [decodedWith, h]

end Appraisal.Text
