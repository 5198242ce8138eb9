/-!
# Words

A word character is an ASCII letter, a digit or an underscore, and a boundary lies between two
neighbours of which exactly one is a word character. A pattern has one condition per character;
`bounded` looks for a stretch that fits it between two boundaries.
-/

namespace Appraisal.Text

/-- An ASCII letter, a digit or an underscore. -/
def isWordChar (c : Char) : Bool := c.isAlphanum || c == '_'

/-- Whether a boundary lies between two neighbours; beyond the ends of a text there is none of
the word characters. -/
def boundary (before after : Option Char) : Bool :=
  before.any isWordChar != after.any isWordChar

/-- One condition for each character of a stretch of text. -/
abbrev Pattern := List (Char → Bool)

/-- The pattern that only the word itself fits. -/
def exactly (word : String) : Pattern := word.toList.map fun w c => c == w

/-- Whether a character equals a small letter under simple case folding, which identifies the
long s with s and the Kelvin sign with k. -/
def foldsTo (w c : Char) : Bool :=
  c == w || c == w.toUpper || (w == 's' && c == 'ſ') || (w == 'k' && c == '\u212A')

/-- The pattern that a word in small letters fits in any case. -/
def anyCase (word : String) : Pattern := word.toList.map foldsTo

/-- The last character of an initial stretch that fits the pattern, and the text after it. -/
def fit : Pattern → Option Char → List Char → Option (Option Char × List Char)
  | [], before, text => some (before, text)
  | _ :: _, _, [] => none
  | p :: pattern, _, c :: text => if p c then fit pattern (some c) text else none

/-- Whether a stretch that fits the pattern starts here and has a boundary at both ends. -/
def boundedHere (pattern : Pattern) (before : Option Char) (text : List Char) : Bool :=
  boundary before text.head? &&
    (fit pattern before text).any fun found => boundary found.1 found.2.head?

/-- Whether the test holds somewhere in the text, of a position given by the character before it
and the text after it. -/
def somewhere (test : Option Char → List Char → Bool) : Option Char → List Char → Bool
  | before, [] => test before []
  | before, c :: text => test before (c :: text) || somewhere test (some c) text

/-- The number of positions of the text at which the test holds. -/
def positions (test : Option Char → List Char → Bool) : Option Char → List Char → Nat
  | before, [] => (test before []).toNat
  | before, c :: text => (test before (c :: text)).toNat + positions test (some c) text

theorem somewhere_eq_positions (test : Option Char → List Char → Bool) :
    ∀ (before : Option Char) (text : List Char),
    somewhere test before text = decide (0 < positions test before text)
  | before, [] => by cases h : test before [] <;> simp [somewhere, positions, h]
  | before, c :: text => by
    rw [somewhere, positions, somewhere_eq_positions test (some c) text]
    cases test before (c :: text)
    · simp
    · simp [Nat.add_comm 1]

/-- Whether a stretch that fits the pattern stands somewhere between two boundaries. -/
def bounded (pattern : Pattern) (text : List Char) : Bool :=
  somewhere (boundedHere pattern) none text

/-- Whether one of the patterns is fitted between two boundaries. -/
def boundedAny (patterns : List Pattern) (text : List Char) : Bool :=
  patterns.any fun pattern => bounded pattern text

end Appraisal.Text
