import Appraisal.Archive.Basic
import Appraisal.Proofs.Document

/-!
# Written documents are printable

No control character stands in the compact writing of a document, since strings escape them
(`printable_compact`). So an archive can hold what was written, whatever the document says.
-/

namespace Appraisal.Json

/-- Whether no control character is in a text. -/
def printable (text : List Char) : Bool := text.all fun c => decide (32 ≤ c.toNat)

section Parts

theorem printable_append (a b : List Char) : printable (a ++ b) = (printable a && printable b) := by
  simp [printable]

theorem printable_cons (c : Char) (text : List Char) :
    printable (c :: text) = (decide (32 ≤ c.toNat) && printable text) := by
  simp [printable]

theorem printable_hexDigit : ∀ n < 16, 32 ≤ (hexDigit n).toNat := by
  decide

theorem printable_escape (c : Char) : printable (escape c) = true := by
  unfold escape
  split_ifs with _ _ _ _ _ _ _ h
  · decide
  · decide
  · decide
  · decide
  · decide
  · decide
  · decide
  · have h1 := printable_hexDigit (c.toNat / 16) (by omega)
    have h2 := printable_hexDigit (c.toNat % 16) (by omega)
    simp [printable, h1, h2]
  · simpa [printable] using h

theorem printable_quoted (content : List Char) : printable (quoted content) = true := by
  have h : printable (content.flatMap escape) = true := by
    induction content with
    | nil => rfl
    | cons c content ih => rw [List.flatMap_cons, printable_append, printable_escape, ih]; rfl
  rw [quoted, List.cons_append, printable_cons, printable_append, h]
  decide

theorem printable_quoted? : ∀ content : Option String, printable (quoted? content) = true
  | some content => printable_quoted content.toList
  | none => by decide

theorem printable_digits {digits : List Char} (h : digits.all Char.isDigit = true) :
    printable digits = true := by
  rw [List.all_eq_true] at h
  rw [printable, List.all_eq_true]
  intro c hc
  have hd := h c hc
  simp only [Char.isDigit, Bool.and_eq_true, decide_eq_true_eq, UInt32.le_iff_toNat_le] at hd
  have hle : 48 ≤ c.toNat := hd.1
  rw [decide_eq_true_eq]
  omega

end Parts

theorem printable_text {literal : Literal} (h : literal.WellFormed) :
    printable literal.text = true := by
  have hw := printable_digits h.whole_isDigit
  have hf : printable (fractionText literal.fraction) = true := by
    unfold fractionText
    split_ifs
    · rfl
    · rw [printable_cons, printable_digits h.fraction_isDigit]
      decide
  have he : printable (exponentText literal.exponent) = true := by
    cases hx : literal.exponent with
    | none => rfl
    | some exponent =>
      obtain ⟨negative, digits⟩ := exponent
      have hd : printable digits = true := printable_digits (h.exponent_isDigit _ hx).2
      cases negative <;> simp only [exponentText, if_true, Bool.false_eq_true, if_false,
        printable_cons, hd] <;> decide
  have hs : printable (if literal.negative then ['-'] else []) = true := by
    split_ifs <;> decide
  rw [Literal.text_eq, printable_append, printable_append, printable_append, hs, hw, hf, he]
  rfl

mutual

/-- The compact writing of a document has no control characters. -/
theorem printable_compact : ∀ {document : Json}, document.WellFormed →
    printable (compact document) = true
  | .null, _ => by decide
  | .bool value, _ => by cases value <;> decide
  | .number literal, h => by
    rw [WellFormed] at h
    rw [compact]
    exact printable_text h
  | .string content, _ => by
    rw [compact]
    exact printable_quoted? content
  | .array items, h => by
    rw [WellFormed] at h
    rw [compact, printable_cons, printable_compactItems h]
    decide
  | .object fields, h => by
    rw [WellFormed] at h
    rw [compact, printable_cons, printable_compactFields h]
    decide

theorem printable_compactItems : ∀ {items : List Json}, WellFormedItems items →
    printable (compactItems items) = true
  | [], _ => by decide
  | [item], h => by
    rw [WellFormedItems] at h
    rw [compactItems, printable_append, printable_compact h.1]
    decide
  | item :: next :: items, h => by
    rw [WellFormedItems] at h
    rw [compactItems, printable_append, printable_compact h.1, printable_cons,
      printable_compactItems h.2]
    decide

theorem printable_compactFields : ∀ {fields : List (Option String × Json)},
    WellFormedFields fields → printable (compactFields fields) = true
  | [], _ => by decide
  | [(key, value)], h => by
    rw [WellFormedFields] at h
    rw [compactFields, printable_append, printable_append, printable_quoted?, printable_cons,
      printable_compact h.2.1]
    decide
  | (key, value) :: next :: fields, h => by
    rw [WellFormedFields] at h
    rw [compactFields, printable_append, printable_append, printable_quoted?, printable_cons,
      printable_compact h.2.1, printable_cons, printable_compactFields h.2.2]
    decide

end

end Appraisal.Json

namespace Appraisal.Archive

/-- An archive can hold the compact text of a document. -/
theorem holdsTexts_encode {document : Json} (h : document.WellFormed) :
    holdsTexts [document.encode] = true := by
  have hp := Json.printable_compact h
  rw [Json.printable, List.all_eq_true] at hp
  rw [holdsTexts, List.all_cons, List.all_nil, Bool.and_true, Json.encode, String.toList_ofList,
    List.all_eq_true]
  intro c hc
  have hle := hp c hc
  rw [decide_eq_true_eq] at hle
  rw [bne_iff_ne]
  rintro rfl
  revert hle
  decide

end Appraisal.Archive
