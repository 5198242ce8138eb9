import Appraisal.Proofs.Coherence
import Appraisal.Proofs.Description

/-!
# Which evidence a text can give

Each mark is looked for on its own, but a text cannot have every combination of them. What one mark
looks for may hold what another looks for: a returned call holds the word `return`, a closed
docstring the mark of a comment. Lines that are not blank need a character each, and a line feed
between any two. `Attainable` lists these bounds with what they mean for the grading, and the
evidence of every text keeps to them (`attainable_ofText`).
-/

namespace Appraisal

namespace Text

section Calls

variable {text : List Char}

/-- In a returned call white space bounds the word `return` at its end. -/
theorem ReturnsCall.occurs (h : ReturnsCall text) : Occurs (Word ["return"]) text := by
  obtain ⟨before, gap, name, space, rest, rfl, hstart, ⟨hgap, hspaces⟩, -⟩ := h
  obtain ⟨c, gap, rfl⟩ := List.exists_cons_of_ne_nil hgap
  refine ⟨before.length, before, "return".toList, c :: gap ++ name ++ space ++ '(' :: rest,
    by simp only [List.append_assoc], rfl, ⟨_, List.mem_singleton_self _, rfl⟩, hstart, ?_⟩
  have hlast : ∃ c ∈ (before ++ "return".toList).getLast?, WordChar c :=
    ⟨'n', by simp, isWordChar_iff.1 (by decide)⟩
  rw [boundary_iff_of_last hlast]
  intro d hd hword
  obtain rfl : c = d := Option.some_inj.1 hd
  have hspace := hspaces c List.mem_cons_self
  rw [Evidence.isSpace_of_wordChar hword] at hspace
  cases hspace

end Calls

section Lengths

theorem utf16Length_pos : ∀ {text : List Char}, text ≠ [] → 0 < utf16Length text
  | c :: text, _ => by
    rw [utf16Length]
    split_ifs <;> omega

/-- With a line feed after it, a line that is not blank takes at least two code units. -/
theorem two_mul_filter_le : ∀ pieces : List (List Char),
    2 * (pieces.filter fun piece => !piece.all isSpace).length ≤
      (pieces.map fun piece => utf16Length piece + 1).sum
  | [] => by simp
  | piece :: pieces => by
    have ih := two_mul_filter_le pieces
    rw [List.map_cons, List.sum_cons, List.filter_cons]
    split_ifs with hblank
    · have hpos : 0 < utf16Length piece := utf16Length_pos fun h => by simp [h] at hblank
      rw [List.length_cons]
      omega
    · omega

theorem utf16Length_intercalate : ∀ {pieces : List (List Char)}, pieces ≠ [] →
    utf16Length (['\n'].intercalate pieces) + 1 =
      (pieces.map fun piece => utf16Length piece + 1).sum
  | [piece], _ => by simp
  | piece :: other :: pieces, _ => by
    have ih := utf16Length_intercalate (List.cons_ne_nil other pieces)
    have hfeed : utf16Length ['\n'] = 1 := rfl
    rw [List.intercalate_cons_cons, utf16Length_append, utf16Length_append, hfeed, List.map_cons,
      List.sum_cons, ← ih]
    omega

theorem two_mul_lineCount_le (text : List Char) : 2 * lineCount text ≤ utf16Length text + 1 := by
  have hlength := utf16Length_intercalate (split_ne_nil '\n' text)
  rw [intercalate_split] at hlength
  rw [hlength]
  exact two_mul_filter_le (lines text)

end Lengths

end Text

namespace Evidence

open Text

/-- Whether evidence keeps to the bounds that its marks put on each other in a text. -/
structure Attainable (e : Evidence) (text : List Char) : Prop where
  lookup : e.lookup = true → e.fastSearch = true
  forLoops : e.forLoops ≤ occurrences "for".toList text
  nested : 2 ≤ e.forLoops → e.nested = true
  docstrings : e.docstrings = true → e.comments = true
  documented : e.documented = e.comments
  recursion : e.recursion = true → Occurs (Word ["return"]) text
  length : 1 ≤ e.lines → 2 * e.lines - 1 ≤ e.length
  redundancies : e.redundancies ≠ 1
  structures : e.structures = .good ↔ e.sequence = true ∧ e.fastSearch = false

theorem redundancies_ne_one {e : Evidence} (h : 1 < e.forLoops → e.nested = true) :
    e.redundancies ≠ 1 := by
  rw [redundancies_eq h]
  split_ifs <;> decide

theorem structures_eq_good_iff {e : Evidence} (h : e.lookup = true → e.fastSearch = true) :
    e.structures = .good ↔ e.sequence = true ∧ e.fastSearch = false := by
  unfold structures
  cases hfast : e.fastSearch with
  | true => simp
  | false =>
    have hlookup : e.lookup = false := Bool.eq_false_iff.2 fun hl => by simp [h hl] at hfast
    cases e.sequence <;> simp [hlookup]

theorem fastSearch_ofText {text : List Char} (h : (ofText text).lookup = true) :
    (ofText text).fastSearch = true := by
  have hlookup : boundedAny lookupWords text = true := h
  show (boundedAny lookupWords text || boundedAny binarySearchWords text) = true
  rw [hlookup, Bool.true_or]

/-- The evidence of every text is attainable. -/
theorem attainable_ofText (text : List Char) : (ofText text).Attainable text where
  lookup := fastSearch_ofText
  forLoops := forLoops_ofText_le text
  nested := nested_ofText text
  docstrings := comments_ofText text
  documented := documented_ofText text
  recursion h := (recursion_ofText_iff.1 h).occurs
  length _ := by
    have hle : 2 * (ofText text).lines ≤ (ofText text).length + 1 := two_mul_lineCount_le text
    omega
  redundancies := redundancies_ne_one (nested_ofText text)
  structures := structures_eq_good_iff fastSearch_ofText

/-- Evidence put together by hand need not be attainable. -/
example : ({ forLoops := 2 } : Evidence).redundancies = 1 := by decide

end Evidence

end Appraisal
