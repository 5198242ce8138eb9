import Appraisal.Proofs.Numeral
import Appraisal.Proofs.Quoted

/-!
# Documents read back

A well-formed document is read back from either of its writings (`parse?_compact`,
`parse?_pretty`). What the reader does with one construct is said once, with blanks wherever they
may stand: `Reads` says that a text is read as a document, and its closure lemmas build such texts
from smaller ones. Each writing is then an induction over the document.

The reader's bound counts calls. A text is never longer than the bound when a call starts on it, as
every call but the first is on a text that is shorter by a bracket, a comma or a key.
-/

namespace Appraisal.Json

mutual

/-- Whether every number of a document is a well-formed literal and every string denotes a text. -/
def WellFormed : Json → Prop
  | .number literal => literal.WellFormed
  | .string content => content.isSome = true
  | .array items => WellFormedItems items
  | .object fields => WellFormedFields fields
  | _ => True

def WellFormedItems : List Json → Prop
  | [] => True
  | item :: items => WellFormed item ∧ WellFormedItems items

def WellFormedFields : List (Option String × Json) → Prop
  | [] => True
  | (key, value) :: fields => key.isSome = true ∧ WellFormed value ∧ WellFormedFields fields

end

section Blanks

theorem skipBlank_append {blanks : List Char} (h : blanks.all isBlank = true) (text : List Char) :
    skipBlank (blanks ++ text) = skipBlank text :=
  List.dropWhile_append_of_pos (List.all_eq_true.1 h)

theorem skipBlank_cons {c : Char} (h : isBlank c = false) (text : List Char) :
    skipBlank (c :: text) = c :: text := by
  simp [skipBlank, h]

theorem skipBlank_append_cons {blanks : List Char} (hb : blanks.all isBlank = true) {c : Char}
    (hc : isBlank c = false) (text : List Char) :
    skipBlank (blanks ++ c :: text) = c :: text := by
  rw [skipBlank_append hb, skipBlank_cons hc]

theorem ends_blanks {blanks : List Char} (h : blanks.all isBlank = true) {rest : List Char}
    (hr : Ends rest) : Ends (blanks ++ rest) := by
  cases blanks with
  | nil => exact hr
  | cons b blanks =>
    have hb : isBlank b = true := by simp_all
    simp only [isBlank, Bool.or_eq_true, beq_iff_eq, or_assoc] at hb
    refine ends_cons _ ?_
    rcases hb with rfl | rfl | rfl | rfl <;> decide

theorem readValue_blanks {blanks : List Char} (h : blanks.all isBlank = true) (fuel : Nat)
    (text : List Char) : readValue fuel (blanks ++ text) = readValue fuel text := by
  cases fuel with
  | zero => rfl
  | succ fuel => rw [readValue, readValue, skipBlank_append h]

end Blanks

/-- Whether a text is read as a document, and what follows it is left over unless it continues a
number. -/
def Reads (document : Json) (text : List Char) : Prop :=
  ∀ fuel rest, text.length ≤ fuel → Ends rest →
    readValue fuel (text ++ rest) = some (document, rest)

/-- Whether a text is read as the items of an array with its closing bracket. -/
def ReadsItems (items : List Json) (text : List Char) : Prop :=
  ∀ fuel rest, text.length ≤ fuel → readItems fuel (text ++ rest) = some (items, rest)

/-- Whether a text is read as the fields of an object with its closing brace. -/
def ReadsFields (fields : List (Option String × Json)) (text : List Char) : Prop :=
  ∀ fuel rest, text.length ≤ fuel → readFields fuel (text ++ rest) = some (fields, rest)

section Values

theorem Reads.blanks {blanks text : List Char} {document : Json}
    (hb : blanks.all isBlank = true) (h : Reads document text) :
    Reads document (blanks ++ text) := by
  intro fuel rest hf hr
  rw [List.length_append] at hf
  rw [List.append_assoc, readValue_blanks hb]
  exact h fuel rest (by omega) hr

theorem reads_null : Reads .null "null".toList := by
  intro fuel rest hf _
  obtain ⟨fuel, rfl⟩ : ∃ n, fuel = n + 1 := ⟨fuel - 1, by simp at hf; omega⟩
  simp [readValue, skipBlank, isBlank, Text.dropStart?]

theorem reads_bool (value : Bool) : Reads (.bool value) (writeBool value) := by
  intro fuel rest hf _
  obtain ⟨fuel, rfl⟩ : ∃ n, fuel = n + 1 := by
    refine ⟨fuel - 1, ?_⟩
    cases value <;> simp [writeBool] at hf <;> omega
  cases value <;> simp [readValue, skipBlank, isBlank, Text.dropStart?, writeBool]

theorem ReadsString.reads {content : Option String} {text : List Char}
    (h : ReadsString content text) : Reads (.string content) ('"' :: text) := by
  intro fuel rest hf _
  rw [List.length_cons] at hf
  obtain ⟨fuel, rfl⟩ : ∃ n, fuel = n + 1 := ⟨fuel - 1, by omega⟩
  simp [readValue, skipBlank, isBlank, h rest]

/-- A character that a number literal starts with. -/
def startsNumber (c : Char) : Bool := c == '-' || c.isDigit

theorem readValue_number {c : Char} (h : startsNumber c = true) (fuel : Nat) (text : List Char) :
    readValue (fuel + 1) (c :: text) =
      (readNumber (c :: text)).map fun read => (.number read.1, read.2) := by
  have hne : ∀ d : Char, startsNumber d = false → c ≠ d := by
    rintro d hd rfl
    simp [h] at hd
  have hb : isBlank c = false := by
    simp [isBlank, hne ' ' rfl, hne '\t' rfl, hne '\n' rfl, hne '\r' rfl]
  simp only [readValue, skipBlank_cons hb, hne '"' rfl, hne '[' rfl, hne '\x7b' rfl, hne 'n' rfl,
    hne 't' rfl, hne 'f' rfl, ↓reduceIte]

theorem startsNumber_of_readNumber {c : Char} {text : List Char} {read : Literal × List Char}
    (h : readNumber (c :: text) = some read) : startsNumber c = true := by
  refine Bool.of_not_eq_false fun hc => ?_
  simp only [startsNumber, Bool.or_eq_false_iff, beq_eq_false_iff_ne] at hc
  have hs : numberSign (c :: text) = (false, c :: text) := by
    rw [numberSign]
    rintro rest ⟨⟩
    exact hc.1 rfl
  simp [readNumber_eq, hs, Text.spanDigits, hc.2] at h

theorem ReadsNumber.reads {literal : Literal} {text : List Char} (h : ReadsNumber literal text) :
    Reads (.number literal) text := by
  intro fuel rest hf hr
  cases text with
  | nil => cases h [] ends_nil
  | cons c text =>
    have hread := h rest hr
    obtain ⟨fuel, rfl⟩ : ∃ n, fuel = n + 1 := ⟨fuel - 1, by rw [List.length_cons] at hf; omega⟩
    rw [List.cons_append] at hread ⊢
    rw [readValue_number (startsNumber_of_readNumber hread), hread]
    rfl

end Values

section Arrays

/-- No value starts with a closing bracket. -/
theorem readValue_bracket {text rest : List Char} (h : skipBlank text = ']' :: rest) (fuel : Nat) :
    readValue fuel text = none := by
  cases fuel with
  | zero => rfl
  | succ fuel =>
    have hn : readNumber (']' :: rest) = none := by
      simp [readNumber, Text.spanDigits, Char.isDigit]
    simp [readValue, h, hn]

theorem ReadsItems.skipBlank_ne {items : List Json} {text : List Char} (h : ReadsItems items text)
    (rest more : List Char) : skipBlank (text ++ rest) ≠ ']' :: more := by
  intro hb
  have hread := h (text.length + 1) rest (by omega)
  simp [readItems, readValue_bracket hb] at hread

theorem reads_emptyArray {blanks : List Char} (hb : blanks.all isBlank = true) :
    Reads (.array []) ('[' :: (blanks ++ [']'])) := by
  intro fuel rest hf _
  rw [List.length_cons] at hf
  obtain ⟨fuel, rfl⟩ : ∃ n, fuel = n + 1 := ⟨fuel - 1, by omega⟩
  have hskip := skipBlank_append_cons hb (c := ']') (by decide) rest
  rw [List.cons_append, List.append_assoc, List.singleton_append, readValue,
    skipBlank_cons (by decide)]
  simp only [Char.reduceEq, ↓reduceIte, hskip]

theorem ReadsItems.reads {items : List Json} {text : List Char} (h : ReadsItems items text) :
    Reads (.array items) ('[' :: text) := by
  intro fuel rest hf _
  rw [List.length_cons] at hf
  obtain ⟨fuel, rfl⟩ : ∃ n, fuel = n + 1 := ⟨fuel - 1, by omega⟩
  have hread := h fuel rest (by omega)
  have hne := h.skipBlank_ne rest
  rw [List.cons_append, readValue, skipBlank_cons (by decide)]
  simp only [Char.reduceEq, ↓reduceIte]
  -- the second case of the match is the one taken, as no bracket follows the first
  rw [hread]
  rfl

theorem Reads.last {item : Json} {text blanks : List Char} (h : Reads item text)
    (hb : blanks.all isBlank = true) : ReadsItems [item] (text ++ blanks ++ [']']) := by
  intro fuel rest hf
  simp only [List.length_append, List.length_singleton] at hf
  obtain ⟨fuel, rfl⟩ : ∃ n, fuel = n + 1 := ⟨fuel - 1, by omega⟩
  have hread := h fuel (blanks ++ ']' :: rest) (by omega)
    (ends_blanks hb (ends_cons rest (by decide)))
  have hskip := skipBlank_append_cons hb (c := ']') (by decide) rest
  simp only [List.append_assoc, List.singleton_append, readItems, hread, Option.bind_eq_bind,
    Option.bind_some, hskip]
  rfl

theorem ReadsItems.cons {item : Json} {items : List Json} {text blanks more : List Char}
    (h : Reads item text) (hb : blanks.all isBlank = true) (hm : ReadsItems items more) :
    ReadsItems (item :: items) (text ++ blanks ++ ',' :: more) := by
  intro fuel rest hf
  simp only [List.length_append, List.length_cons] at hf
  obtain ⟨fuel, rfl⟩ : ∃ n, fuel = n + 1 := ⟨fuel - 1, by omega⟩
  have hread := h fuel (blanks ++ ',' :: (more ++ rest)) (by omega)
    (ends_blanks hb (ends_cons _ (by decide)))
  have hmore := hm fuel rest (by omega)
  have hskip := skipBlank_append_cons hb (c := ',') (by decide) (more ++ rest)
  simp only [List.append_assoc, List.cons_append, readItems, hread, Option.bind_eq_bind,
    Option.bind_some, hskip, hmore]
  rfl

end Arrays

section Objects

theorem readFields_brace {text rest : List Char} (h : skipBlank text = '\x7d' :: rest)
    (fuel : Nat) : readFields fuel text = none := by
  cases fuel with
  | zero => rfl
  | succ fuel => simp [readFields, h]

theorem ReadsFields.skipBlank_ne {fields : List (Option String × Json)} {text : List Char}
    (h : ReadsFields fields text) (rest more : List Char) :
    skipBlank (text ++ rest) ≠ '\x7d' :: more := by
  intro hb
  have hread := h text.length rest (Nat.le_refl _)
  simp [readFields_brace hb] at hread

theorem reads_emptyObject {blanks : List Char} (hb : blanks.all isBlank = true) :
    Reads (.object []) ('\x7b' :: (blanks ++ ['\x7d'])) := by
  intro fuel rest hf _
  rw [List.length_cons] at hf
  obtain ⟨fuel, rfl⟩ : ∃ n, fuel = n + 1 := ⟨fuel - 1, by omega⟩
  have hskip := skipBlank_append_cons hb (c := '\x7d') (by decide) rest
  rw [List.cons_append, List.append_assoc, List.singleton_append, readValue,
    skipBlank_cons (by decide)]
  simp only [Char.reduceEq, ↓reduceIte, hskip]

theorem ReadsFields.reads {fields : List (Option String × Json)} {text : List Char}
    (h : ReadsFields fields text) : Reads (.object fields) ('\x7b' :: text) := by
  intro fuel rest hf _
  rw [List.length_cons] at hf
  obtain ⟨fuel, rfl⟩ : ∃ n, fuel = n + 1 := ⟨fuel - 1, by omega⟩
  have hread := h fuel rest (by omega)
  have hne := h.skipBlank_ne rest
  rw [List.cons_append, readValue, skipBlank_cons (by decide)]
  simp only [Char.reduceEq, ↓reduceIte]
  rw [hread]
  rfl

section Fields

variable {key : Option String} {value : Json} {before literal gap text after : List Char}

/-- A field is read with the blanks around its key, whether it is the last one or others follow. -/
theorem readFields_field {rest : List Char} {fuel : Nat} {more : List (Option String × Json)}
    (hb : before.all isBlank = true) (hkey : ReadsString key literal)
    (hg : gap.all isBlank = true) (hread : readValue fuel text = some (value, after))
    (hafter : (skipBlank after = '\x7d' :: rest ∧ more = []) ∨
      ∃ next, skipBlank after = ',' :: next ∧ readFields fuel next = some (more, rest)) :
    readFields (fuel + 1) (before ++ '"' :: (literal ++ (gap ++ ':' :: text))) =
      some ((key, value) :: more, rest) := by
  have hskip := skipBlank_append_cons hb (c := '"') (by decide) (literal ++ (gap ++ ':' :: text))
  have hcolon := skipBlank_append_cons hg (c := ':') (by decide) text
  simp only [readFields, hskip, hkey (gap ++ ':' :: text), Option.bind_eq_bind, Option.bind_some,
    hcolon, hread]
  rcases hafter with ⟨hbrace, rfl⟩ | ⟨next, hcomma, hmore⟩
  · simp only [hbrace]
    rfl
  · simp only [hcomma, hmore, Option.bind_some]
    rfl

theorem Reads.lastField (h : Reads value text) (hb : before.all isBlank = true)
    (hkey : ReadsString key literal) (hg : gap.all isBlank = true)
    (ha : after.all isBlank = true) :
    ReadsFields [(key, value)]
      (before ++ '"' :: (literal ++ (gap ++ ':' :: (text ++ (after ++ ['\x7d']))))) := by
  intro fuel rest hf
  simp only [List.length_append, List.length_cons, List.length_nil] at hf
  obtain ⟨fuel, rfl⟩ : ∃ n, fuel = n + 1 := ⟨fuel - 1, by omega⟩
  have hread := h fuel (after ++ '\x7d' :: rest) (by omega)
    (ends_blanks ha (ends_cons rest (by decide)))
  have hskip := skipBlank_append_cons ha (c := '\x7d') (by decide) rest
  have hfield := readFields_field hb hkey hg hread (.inl ⟨hskip, rfl⟩)
  simp only [List.append_assoc, List.cons_append, List.nil_append] at hfield ⊢
  exact hfield

theorem Reads.consField {fields : List (Option String × Json)} {more : List Char}
    (h : Reads value text) (hm : ReadsFields fields more) (hb : before.all isBlank = true)
    (hkey : ReadsString key literal) (hg : gap.all isBlank = true)
    (ha : after.all isBlank = true) :
    ReadsFields ((key, value) :: fields)
      (before ++ '"' :: (literal ++ (gap ++ ':' :: (text ++ (after ++ ',' :: more))))) := by
  intro fuel rest hf
  simp only [List.length_append, List.length_cons] at hf
  obtain ⟨fuel, rfl⟩ : ∃ n, fuel = n + 1 := ⟨fuel - 1, by omega⟩
  have hread := h fuel (after ++ ',' :: (more ++ rest)) (by omega)
    (ends_blanks ha (ends_cons _ (by decide)))
  have hmore := hm fuel rest (by omega)
  have hskip := skipBlank_append_cons ha (c := ',') (by decide) (more ++ rest)
  have hfield := readFields_field hb hkey hg hread (.inr ⟨_, hskip, hmore⟩)
  simp only [List.append_assoc, List.cons_append] at hfield ⊢
  exact hfield

end Fields

end Objects

section Writings

theorem quoted?_some (content : String) :
    quoted? (some content) = '"' :: (content.toList.flatMap escape ++ ['"']) := rfl

mutual

theorem reads_compact : ∀ document : Json, document.WellFormed → Reads document (compact document)
  | .null, _ => by
    rw [compact]
    exact reads_null
  | .bool value, _ => by
    rw [compact]
    exact reads_bool value
  | .number literal, h => by
    rw [compact]
    rw [WellFormed] at h
    exact (readsNumber_text h).reads
  | .string none, h => by simp [WellFormed] at h
  | .string (some content), _ => by
    rw [compact]
    exact (readsString_quoted content).reads
  | .array [], _ => by
    rw [compact, compactItems]
    exact reads_emptyArray List.all_nil
  | .array (item :: items), h => by
    rw [WellFormed] at h
    rw [compact]
    exact (readsItems_compact (item :: items) (by simp) h).reads
  | .object [], _ => by
    rw [compact, compactFields]
    exact reads_emptyObject List.all_nil
  | .object (field :: fields), h => by
    rw [WellFormed] at h
    rw [compact]
    exact (readsFields_compact (field :: fields) (by simp) h).reads

theorem readsItems_compact : ∀ items : List Json, items ≠ [] → WellFormedItems items →
    ReadsItems items (compactItems items)
  | [], hn, _ => absurd rfl hn
  | [item], _, h => by
    rw [WellFormedItems] at h
    rw [compactItems]
    simpa using (reads_compact item h.1).last List.all_nil
  | item :: next :: items, _, h => by
    rw [WellFormedItems] at h
    rw [compactItems]
    simpa using ReadsItems.cons (reads_compact item h.1) List.all_nil
      (readsItems_compact (next :: items) (by simp) h.2)

theorem readsFields_compact : ∀ fields : List (Option String × Json), fields ≠ [] →
    WellFormedFields fields → ReadsFields fields (compactFields fields)
  | [], hn, _ => absurd rfl hn
  | (none, _) :: _, _, h => by simp [WellFormedFields] at h
  | [(some key, value)], _, h => by
    rw [WellFormedFields] at h
    rw [compactFields]
    simpa [quoted?_some] using (reads_compact value h.2.1).lastField List.all_nil
      (readsString_quoted key) List.all_nil List.all_nil
  | (some key, value) :: next :: fields, _, h => by
    rw [WellFormedFields] at h
    rw [compactFields]
    simpa [quoted?_some] using (reads_compact value h.2.1).consField
      (readsFields_compact (next :: fields) (by simp) h.2.2) List.all_nil
      (readsString_quoted key) List.all_nil List.all_nil

end

theorem newline_blank (level : Nat) : (newline level).all isBlank = true := by
  simp [newline, isBlank]

theorem space_blank : [' '].all isBlank = true := rfl

mutual

theorem reads_pretty (level : Nat) : ∀ document : Json, document.WellFormed →
    Reads document (pretty level document)
  | .null, _ => by
    rw [pretty]
    exact reads_null
  | .bool value, _ => by
    rw [pretty]
    exact reads_bool value
  | .number literal, h => by
    rw [pretty]
    rw [WellFormed] at h
    exact (readsNumber_text h).reads
  | .string none, h => by simp [WellFormed] at h
  | .string (some content), _ => by
    rw [pretty]
    exact (readsString_quoted content).reads
  | .array [], _ => by
    rw [pretty]
    exact reads_emptyArray List.all_nil
  | .array (item :: items), h => by
    rw [WellFormed] at h
    rw [pretty]
    exact (readsItems_pretty level (item :: items) (by simp) h).reads
  | .object [], _ => by
    rw [pretty]
    exact reads_emptyObject List.all_nil
  | .object (field :: fields), h => by
    rw [WellFormed] at h
    rw [pretty]
    exact (readsFields_pretty level (field :: fields) (by simp) h).reads

theorem readsItems_pretty (level : Nat) : ∀ items : List Json, items ≠ [] →
    WellFormedItems items → ReadsItems items (prettyItems level items)
  | [], hn, _ => absurd rfl hn
  | [item], _, h => by
    rw [WellFormedItems] at h
    rw [prettyItems]
    exact ((reads_pretty (level + 1) item h.1).blanks (newline_blank _)).last (newline_blank level)
  | item :: next :: items, _, h => by
    rw [WellFormedItems] at h
    rw [prettyItems]
    simpa using ReadsItems.cons ((reads_pretty (level + 1) item h.1).blanks (newline_blank _))
      List.all_nil (readsItems_pretty level (next :: items) (by simp) h.2)

theorem readsFields_pretty (level : Nat) : ∀ fields : List (Option String × Json), fields ≠ [] →
    WellFormedFields fields → ReadsFields fields (prettyFields level fields)
  | [], hn, _ => absurd rfl hn
  | (none, _) :: _, _, h => by simp [WellFormedFields] at h
  | [(some key, value)], _, h => by
    rw [WellFormedFields] at h
    rw [prettyFields]
    have hvalue := (reads_pretty (level + 1) value h.2.1).blanks space_blank
    simpa [quoted?_some] using hvalue.lastField (newline_blank _) (readsString_quoted key)
      List.all_nil (newline_blank level)
  | (some key, value) :: next :: fields, _, h => by
    rw [WellFormedFields] at h
    rw [prettyFields]
    have hvalue := (reads_pretty (level + 1) value h.2.1).blanks space_blank
    simpa [quoted?_some] using hvalue.consField (readsFields_pretty level (next :: fields)
      (by simp) h.2.2) (newline_blank _) (readsString_quoted key) List.all_nil List.all_nil

end

end Writings

theorem Reads.parse? {document : Json} {text : List Char} (h : Reads document text) :
    parse? text = some document := by
  have hread := h (2 * text.length + 2) [] (by omega) ends_nil
  rw [List.append_nil] at hread
  simp [Json.parse?, hread, skipBlank]

theorem parse?_compact {document : Json} (h : document.WellFormed) :
    Json.parse? document.encode.toList = some document := by
  rw [encode, String.toList_ofList]
  exact (reads_compact document h).parse?

theorem parse?_pretty {document : Json} (h : document.WellFormed) :
    Json.parse? document.encodePretty.toList = some document := by
  rw [encodePretty, String.toList_ofList]
  exact (reads_pretty 0 document h).parse?

end Appraisal.Json
