import Appraisal.Text.Lowercase.Table
import Appraisal.Text.Space

/-!
# Lower case

Full lower-casing of a text: every letter by its own mapping, except that a capital sigma at the
end of a word becomes the final form. The dotted capital I is the one letter that becomes two
characters.
-/

namespace Appraisal.Text

def inRanges (ranges : List (Nat × Nat)) (c : Char) : Bool :=
  ranges.any fun range => range.1 ≤ c.toNat && c.toNat ≤ range.2

def isCased (c : Char) : Bool := inRanges casedRanges c

def isCaseIgnorable (c : Char) : Bool := inRanges caseIgnorableRanges c

def runHolds (n : Nat) (run : Nat × Nat × Nat × Nat) : Bool :=
  run.1 ≤ n && n ≤ run.2.1 && (n - run.1) % run.2.2.1 == 0

/-- The lower-case form of a letter outside any context. -/
def lowerChar (c : Char) : List Char :=
  if c = 'İ' then ['i', '\u0307']
  else match lowercaseRuns.find? (runHolds c.toNat) with
    | some run => [Char.ofNat (run.2.2.2 + (c.toNat - run.1))]
    | none => [c]

/-- Whether a cased letter follows, characters that case ignores aside. -/
def casedNext (text : List Char) : Bool := (text.dropWhile isCaseIgnorable).head?.any isCased

/-- The lower-case form of a sigma: the final one after a cased letter and before none. The text
before it is given backwards. -/
def lowerSigma (before after : List Char) : Char :=
  if casedNext before && !casedNext after then 'ς' else 'σ'

/-- Lower-cases a text, given backwards what stands before it. -/
def lowerFrom (before : List Char) : List Char → List Char
  | [] => []
  | c :: after =>
    (if c = 'Σ' then [lowerSigma before after] else lowerChar c) ++ lowerFrom (c :: before) after

def lower (text : List Char) : List Char := lowerFrom [] text

def lowered (text : String) : String := String.ofList (lower text.toList)

/-- The form under which names are compared: trimmed, then in lower case. -/
def normalName (text : String) : String := lowered (trimmed text)

end Appraisal.Text
