import Appraisal.Text.Search
import Appraisal.Text.Word

/-!
# Evidence of a source text

What the rules know of a submission: counts and marks found by looking for words and characters
in the raw text. The words are those of many languages at once, so a word of one language counts
in every other, and comments and strings are read like code.
-/

namespace Appraisal

/-- The counts and marks of one source text. -/
structure Evidence where
  /-- Lines that are not blank. -/
  lines : Nat := 0
  /-- Length in UTF-16 code units. -/
  length : Nat := 0
  /-- Occurrences of the word `for`. -/
  forLoops : Nat := 0
  /-- Whether the word `while` occurs. -/
  whileLoop : Bool := false
  /-- Whether the characters `for` occur at least twice. -/
  nested : Bool := false
  /-- Whether the value of a call is returned. -/
  recursion : Bool := false
  /-- Whether a map, dictionary, set or object is named. -/
  lookup : Bool := false
  /-- Whether an array or list is named. -/
  sequence : Bool := false
  /-- Whether a function, method or class is introduced. -/
  functions : Bool := false
  /-- Whether a mark of a comment occurs. -/
  comments : Bool := false
  /-- Whether a docstring is opened and closed. -/
  docstrings : Bool := false
  /-- Whether a word of error handling occurs. -/
  errorHandling : Bool := false
  /-- Whether a word of checking occurs. -/
  validation : Bool := false
  /-- Whether a constant is named or declared. -/
  constants : Bool := false
  /-- Whether a text with the word `return` has those characters twice. -/
  earlyReturn : Bool := false
  /-- Whether `break` or `continue` occurs. -/
  loopExit : Bool := false
  /-- Whether there is an ASCII digit. -/
  digits : Bool := false
  /-- Whether a lookup or a binary search is named. -/
  fastSearch : Bool := false
deriving DecidableEq, Repr

namespace Evidence

def loops (e : Evidence) : Bool := decide (0 < e.forLoops) || e.whileLoop

def documented (e : Evidence) : Bool := e.comments || e.docstrings

open Text

/-- Words that introduce a map, dictionary, set or object. -/
def lookupWords : List Pattern :=
  ["map", "hashmap", "dict", "\x7b\x7d", "set", "object"].map anyCase

def sequenceWords : List Pattern := ["array", "list"].map anyCase

def functionWords : List Pattern := ["def", "function", "=>", "func", "class", "method"].map anyCase

def errorWords : List Pattern :=
  ["try", "catch", "except", "finally", "throw", "raise"].map anyCase

def validationWords : List Pattern := ["if", "validate", "check", "assert"].map anyCase

def constantWords : List Pattern := ["const", "final", "readonly"].map exactly

def exitWords : List Pattern := ["break", "continue"].map exactly

/-- The two words of a binary search, with at most one character between them that is no line
feed. -/
def binarySearchWords : List Pattern :=
  [anyCase "binary" ++ anyCase "search", anyCase "binary" ++ (· != '\n') :: anyCase "search"]

def commentMarks : List (List Char) :=
  [['/', '/'], ['/', '*'], ['#'], ['"', '"', '"'], ['\'', '\'', '\'']]

/-- Whether a mark occurs and, after it, occurs again. -/
def closedBy (mark text : List Char) : Bool := (after? mark text).any (contains mark)

/-- A capital letter or an underscore. -/
def isConstantChar (c : Char) : Bool := c.isUpper || c == '_'

/-- Whether a name of at least two capital letters and underscores stands here by itself. -/
def constantHere (before : Option Char) (text : List Char) : Bool :=
  boundary before text.head? &&
    decide (2 ≤ (text.takeWhile isConstantChar).length) &&
    !(text.dropWhile isConstantChar).head?.any isWordChar

/-- Whether the word `return` stands here, followed by white space, a name and a bracket. -/
def returnedCallHere (before : Option Char) (text : List Char) : Bool :=
  boundary before text.head? &&
    match fit (exactly "return") before text with
    | none => false
    | some (_, rest) =>
      let name := trimStart rest
      rest.head?.any isSpace && name.head?.any isWordChar &&
        (trimStart (name.dropWhile isWordChar)).head? == some '('

def ofText (text : List Char) : Evidence :=
  let lookup := boundedAny lookupWords text
  { lines := lineCount text
    length := utf16Length text
    forLoops := positions (boundedHere (exactly "for")) none text
    whileLoop := bounded (exactly "while") text
    nested := decide (2 ≤ occurrences "for".toList text)
    recursion := somewhere returnedCallHere none text
    lookup := lookup
    sequence := contains ['[', ']'] text || boundedAny sequenceWords text
    functions := boundedAny functionWords text
    comments := commentMarks.any fun mark => contains mark text
    docstrings := closedBy ['"', '"', '"'] text || closedBy ['\'', '\'', '\''] text
    errorHandling := boundedAny errorWords text
    validation := boundedAny validationWords text
    constants := boundedAny constantWords text || somewhere constantHere none text
    earlyReturn := bounded (exactly "return") text &&
      decide (2 ≤ occurrences "return".toList text)
    loopExit := boundedAny exitWords text
    digits := text.any Char.isDigit
    fastSearch := lookup || boundedAny binarySearchWords text }

end Evidence

end Appraisal
