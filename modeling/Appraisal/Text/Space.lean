/-!
# White space

A text is trimmed by the Unicode property White_Space. Trimming only ever drops characters of
that property, and `trim_trim` says that one trimming is enough. A document of lines ends every
line, also the last one, with a line feed.
-/

namespace Appraisal.Text

/-- The characters with the Unicode property White_Space. -/
def isSpace (c : Char) : Bool :=
  let n := c.toNat
  (9 ≤ n && n ≤ 13) || n == 0x20 || n == 0x85 || n == 0xA0 || n == 0x1680 ||
    (0x2000 ≤ n && n ≤ 0x200A) || n == 0x2028 || n == 0x2029 || n == 0x202F || n == 0x205F ||
    n == 0x3000

def trimStart (text : List Char) : List Char := text.dropWhile isSpace

def trimEnd (text : List Char) : List Char := (text.reverse.dropWhile isSpace).reverse

def trim (text : List Char) : List Char := trimEnd (trimStart text)

/-- A text is blank when nothing but white space is in it. -/
def isBlank (text : String) : Bool := text.toList.all isSpace

def trimmed (text : String) : String := String.ofList (trim text.toList)

theorem trimStart_of_head {c : Char} {text : List Char} (h : isSpace c = false) :
    trimStart (c :: text) = c :: text := by
  simp [trimStart, List.dropWhile, h]

theorem dropWhile_dropWhile (p : Char → Bool) : ∀ text : List Char,
    (text.dropWhile p).dropWhile p = text.dropWhile p
  | [] => rfl
  | c :: text => by
    by_cases h : p c
    · simp [h, dropWhile_dropWhile p text]
    · simp [h]

@[simp] theorem trimStart_trimStart (text : List Char) :
    trimStart (trimStart text) = trimStart text :=
  dropWhile_dropWhile isSpace text

@[simp] theorem trimEnd_trimEnd (text : List Char) : trimEnd (trimEnd text) = trimEnd text := by
  simp [trimEnd, dropWhile_dropWhile]

theorem trimEnd_cons {c : Char} (text : List Char) (h : isSpace c = false) :
    trimEnd (c :: text) = c :: trimEnd text := by
  rw [trimEnd, List.reverse_cons, List.dropWhile_append]
  split
  · next he =>
    rw [List.isEmpty_iff] at he
    simp [trimEnd, he, h]
  · simp [trimEnd]

theorem trimStart_trimEnd (text : List Char) :
    trimStart (trimEnd (trimStart text)) = trimEnd (trimStart text) := by
  cases h : trimStart text with
  | nil => rfl
  | cons c rest =>
    have hc : isSpace c = false := by
      have := List.head?_dropWhile_not isSpace text
      unfold trimStart at h
      rw [h] at this
      simpa using this
    rw [trimEnd_cons rest hc, trimStart_of_head hc]

@[simp] theorem trim_trim (text : List Char) : trim (trim text) = trim text := by
  simp only [trim, trimStart_trimEnd, trimEnd_trimEnd]

def ofLines (lines : List String) : String := String.join (lines.map (· ++ "\n"))

/-- A text with blanks before it up to a width. -/
def padLeft (width : Nat) (text : String) : String :=
  String.ofList (List.replicate (width - text.length) ' ') ++ text

end Appraisal.Text
