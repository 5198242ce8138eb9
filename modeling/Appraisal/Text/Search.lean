import Appraisal.Text.Space

/-!
# Searching a text

Occurrences of a word as plain characters, lines, and the length in UTF-16 code units. Splitting
loses nothing: `intercalate_split` puts the pieces together again.
-/

namespace Appraisal.Text

def contains (word : List Char) : List Char → Bool
  | [] => word.isEmpty
  | c :: text => word.isPrefixOf (c :: text) || contains word text

/-- Counts occurrences that do not overlap, leaving out the first `skip` characters. -/
def occurrencesFrom (word : List Char) : Nat → List Char → Nat
  | _, [] => 0
  | skip + 1, _ :: text => occurrencesFrom word skip text
  | 0, c :: text =>
    if word.isPrefixOf (c :: text) then occurrencesFrom word (word.length - 1) text + 1
    else occurrencesFrom word 0 text

/-- The number of occurrences of a word, counted from the left without overlap. -/
def occurrences (word : List Char) (text : List Char) : Nat := occurrencesFrom word 0 text

/-- The text after the first occurrence of the word. -/
def after? (word : List Char) : List Char → Option (List Char)
  | [] => if word.isEmpty then some [] else none
  | c :: text =>
    if word.isPrefixOf (c :: text) then some ((c :: text).drop word.length) else after? word text

/-- What follows a word at the start of the text. -/
def dropStart? (word text : List Char) : Option (List Char) :=
  if word.isPrefixOf text then some (text.drop word.length) else none

theorem dropStart?_append (word text : List Char) :
    dropStart? word (word ++ text) = some text := by
  simp [dropStart?]

theorem eq_append_of_dropStart? {word text rest : List Char}
    (h : dropStart? word text = some rest) : text = word ++ rest := by
  unfold dropStart? at h
  split at h
  · next hp =>
    obtain ⟨t, rfl⟩ := List.isPrefixOf_iff_prefix.1 hp
    simp_all
  · simp at h

/-- The text without a word at its end. -/
def dropEnd (word text : List Char) : List Char :=
  if word.isSuffixOf text then text.take (text.length - word.length) else text

theorem dropEnd_append (word text : List Char) : dropEnd word (text ++ word) = text := by
  simp [dropEnd]

/-- The pieces of a text between the occurrences of a character, at least one. -/
def split (separator : Char) : List Char → List (List Char)
  | [] => [[]]
  | c :: text =>
    if c = separator then [] :: split separator text
    else match split separator text with
      | [] => [[c]]
      | piece :: rest => (c :: piece) :: rest

theorem split_ne_nil (separator : Char) (text : List Char) : split separator text ≠ [] := by
  cases text with
  | nil => simp [split]
  | cons c text =>
    rw [split]
    split
    · simp
    · split <;> simp

/-- The pieces with the separator between them make up the text. -/
theorem intercalate_split (separator : Char) : ∀ text : List Char,
    [separator].intercalate (split separator text) = text
  | [] => rfl
  | c :: text => by
    have ih := intercalate_split separator text
    rw [split]
    cases h : split separator text with
    | nil => exact absurd h (split_ne_nil separator text)
    | cons piece rest =>
      rw [h] at ih
      split
      · next hc => rw [hc, ← ih]; simp [List.intercalate, List.intersperse]
      · rw [← ih]; cases rest <;> simp [List.intercalate, List.intersperse]

theorem separator_notMem_of_mem_split {separator : Char} : ∀ {text piece : List Char},
    piece ∈ split separator text → separator ∉ piece
  | [], piece, h => by simp_all [split]
  | c :: text, piece, h => by
    have ih := fun piece h => @separator_notMem_of_mem_split separator text piece h
    rw [split] at h
    cases hs : split separator text with
    | nil => exact absurd hs (split_ne_nil separator text)
    | cons first rest =>
      rw [hs] at h ih
      split at h
      · rcases List.mem_cons.1 h with rfl | h
        · simp
        · exact ih piece h
      · next hc =>
        rcases List.mem_cons.1 h with rfl | h
        · simp [Ne.symm hc, ih first List.mem_cons_self]
        · exact ih piece (List.mem_cons_of_mem _ h)

/-- A separator parts the pieces before it from those after it. -/
theorem split_append_cons (separator : Char) (b : List Char) : ∀ a : List Char,
    split separator (a ++ separator :: b) = split separator a ++ split separator b
  | [] => by simp [split]
  | c :: a => by
    rw [List.cons_append, split, split, split_append_cons separator b a]
    split
    · rfl
    · obtain ⟨piece, rest, hsplit⟩ := List.exists_cons_of_ne_nil (split_ne_nil separator a)
      rw [hsplit]
      rfl

theorem split_of_notMem {separator : Char} : ∀ {text : List Char}, separator ∉ text →
    split separator text = [text]
  | [], _ => rfl
  | c :: text, h => by
    rw [List.mem_cons, not_or] at h
    rw [split, if_neg (Ne.symm h.1), split_of_notMem h.2]

/-- The pieces of a text between the line feeds. -/
def lines (text : List Char) : List (List Char) := split '\n' text

/-- The number of lines that are not blank. -/
def lineCount (text : List Char) : Nat :=
  ((lines text).filter fun line => !line.all isSpace).length

/-- The length of a text in UTF-16 code units. -/
def utf16Length : List Char → Nat
  | [] => 0
  | c :: text => (if c.toNat < 0x10000 then 1 else 2) + utf16Length text

theorem utf16Length_append (s t : List Char) :
    utf16Length (s ++ t) = utf16Length s + utf16Length t := by
  induction s with
  | nil => simp [utf16Length]
  | cons c s ih => simp [utf16Length, ih, Nat.add_assoc]

end Appraisal.Text
