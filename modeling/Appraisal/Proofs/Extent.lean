import Appraisal.Proofs.Document

/-!
# The text of a document

Where the reader finds a document, the text it takes is read as that document wherever it stands
(`extent_of_readValue`). This is the converse of the closure lemmas of `Reads`: there is one case
for each construct, and each is closed by the lemma for that construct. The text of an object runs
from its brace to its last one, so the blanks around it can be dropped (`object_extent`).
-/

namespace Appraisal

/-- Trimming takes off what is blank around a stretch that starts and ends with no blank. -/
theorem Text.trim_enclosed {before inner after : List Char} {first last : Char}
    (hb : before.all isSpace = true) (ha : after.all isSpace = true)
    (hf : isSpace first = false) (hl : isSpace last = false) :
    trim (before ++ first :: (inner ++ [last]) ++ after) = first :: (inner ++ [last]) := by
  have hstart : trimStart (before ++ first :: (inner ++ [last]) ++ after) =
      first :: (inner ++ [last] ++ after) := by
    rw [List.append_assoc, trimStart, List.dropWhile_append_of_pos (List.all_eq_true.1 hb)]
    exact trimStart_of_head hf
  have hrev : after.reverse.all isSpace = true := by rw [List.all_reverse, ha]
  have hend : trimEnd (inner ++ [last] ++ after) = inner ++ [last] := by
    rw [trimEnd, List.reverse_append, List.dropWhile_append_of_pos (List.all_eq_true.1 hrev),
      List.reverse_append, List.reverse_singleton, List.singleton_append, ← trimStart,
      trimStart_of_head hl]
    simp
  rw [trim, hstart, trimEnd_cons _ hf, hend]

namespace Json

section Blanks

theorem all_isSpace_of_blanks {blanks : List Char} (h : blanks.all isBlank = true) :
    blanks.all Text.isSpace = true := by
  rw [List.all_eq_true] at h ⊢
  intro c hc
  have hb := h c hc
  simp only [isBlank, Bool.or_eq_true, beq_iff_eq, or_assoc] at hb
  rcases hb with rfl | rfl | rfl | rfl <;> rfl

theorem exists_blanks (text : List Char) :
    ∃ blanks, blanks.all isBlank = true ∧ text = blanks ++ skipBlank text :=
  ⟨text.takeWhile isBlank, List.all_takeWhile, List.takeWhile_append_dropWhile.symm⟩

theorem exists_blanks_of_skipBlank {text rest : List Char} (h : skipBlank text = rest) :
    ∃ blanks, blanks.all isBlank = true ∧ text = blanks ++ rest := by
  obtain ⟨blanks, hb, ht⟩ := exists_blanks text
  rw [h] at ht
  exact ⟨blanks, hb, ht⟩

end Blanks

/-- Whether a text is read as a document, and is enclosed in braces if that is an object. -/
structure Extent (document : Json) (text : List Char) : Prop where
  reads : Reads document text
  braces : ∀ fields, document = .object fields → ∃ inner, text = '\x7b' :: (inner ++ ['\x7d'])

theorem Reads.extent {document : Json} {text : List Char} (h : Reads document text)
    (hd : ∀ fields, document ≠ .object fields) : Extent document text :=
  ⟨h, fun fields he => absurd he (hd fields)⟩

theorem extent_object {fields : List (Option String × Json)} {inner : List Char}
    (h : Reads (.object fields) ('\x7b' :: (inner ++ ['\x7d']))) :
    Extent (.object fields) ('\x7b' :: (inner ++ ['\x7d'])) :=
  ⟨h, fun _ _ => ⟨inner, rfl⟩⟩

mutual

/-- What is read as a value, the blanks before it aside, is read as that value wherever it
stands. -/
theorem extent_of_readValue : ∀ (fuel : Nat) {text rest : List Char} {document : Json},
    readValue fuel text = some (document, rest) →
    ∃ blanks read, blanks.all isBlank = true ∧ text = blanks ++ (read ++ rest) ∧
      Extent document read
  | 0, _, _, _, h => by cases h
  | fuel + 1, text, rest, document, h => by
    obtain ⟨blanks, hb, htext⟩ := exists_blanks text
    rw [readValue] at h
    cases hs : skipBlank text with
    | nil => simp [hs] at h
    | cons c inner =>
      rw [hs] at htext h
      suffices hread : ∃ read, c :: inner = read ++ rest ∧ Extent document read by
        obtain ⟨read, hread, hx⟩ := hread
        exact ⟨blanks, read, hb, by rw [htext, hread], hx⟩
      simp only at h
      split_ifs at h with hquote hbracket hbrace hn ht hf
      · subst hquote
        obtain ⟨⟨content, rest⟩, hc, he⟩ := Option.map_eq_some_iff.1 h
        cases he
        obtain ⟨read, rfl, hread⟩ := readsString_of_readString hc
        exact ⟨'"' :: read, rfl, hread.reads.extent nofun⟩
      · subst hbracket
        split at h
        · next hskip =>
          cases h
          obtain ⟨gap, hg, rfl⟩ := exists_blanks_of_skipBlank hskip
          exact ⟨'[' :: (gap ++ [']']), by simp, (reads_emptyArray hg).extent nofun⟩
        · obtain ⟨⟨items, rest⟩, hi, he⟩ := Option.map_eq_some_iff.1 h
          cases he
          obtain ⟨read, rfl, hread⟩ := extent_of_readItems fuel hi
          exact ⟨'[' :: (read ++ [']']), by simp, hread.reads.extent nofun⟩
      · subst hbrace
        split at h
        · next hskip =>
          cases h
          obtain ⟨gap, hg, rfl⟩ := exists_blanks_of_skipBlank hskip
          exact ⟨'\x7b' :: (gap ++ ['\x7d']), by simp, extent_object (reads_emptyObject hg)⟩
        · obtain ⟨⟨fields, rest⟩, hf, he⟩ := Option.map_eq_some_iff.1 h
          cases he
          obtain ⟨read, rfl, hread⟩ := extent_of_readFields fuel hf
          exact ⟨'\x7b' :: (read ++ ['\x7d']), by simp, extent_object hread.reads⟩
      · obtain ⟨rest, hr, he⟩ := Option.map_eq_some_iff.1 h
        cases he
        exact ⟨_, Text.eq_append_of_dropStart? hr, reads_null.extent nofun⟩
      · obtain ⟨rest, hr, he⟩ := Option.map_eq_some_iff.1 h
        cases he
        exact ⟨_, Text.eq_append_of_dropStart? hr, (reads_bool true).extent nofun⟩
      · obtain ⟨rest, hr, he⟩ := Option.map_eq_some_iff.1 h
        cases he
        exact ⟨_, Text.eq_append_of_dropStart? hr, (reads_bool false).extent nofun⟩
      · obtain ⟨⟨literal, rest⟩, hl, he⟩ := Option.map_eq_some_iff.1 h
        cases he
        obtain ⟨read, hread, hx⟩ := readsNumber_of_readNumber hl
        exact ⟨read, hread, hx.reads.extent nofun⟩

theorem extent_of_readItems : ∀ (fuel : Nat) {text rest : List Char} {items : List Json},
    readItems fuel text = some (items, rest) →
    ∃ inner, text = inner ++ ']' :: rest ∧ ReadsItems items (inner ++ [']'])
  | 0, _, _, _, h => by cases h
  | fuel + 1, text, rest, items, h => by
    rw [readItems] at h
    obtain ⟨⟨item, after⟩, hi, hnext⟩ := Option.bind_eq_some_iff.1 h
    clear h
    obtain ⟨blanks, read, hb, rfl, hx⟩ := extent_of_readValue fuel hi
    have hitem := hx.reads.blanks hb
    simp only at hnext
    split at hnext
    · next hskip =>
      obtain ⟨⟨items, rest⟩, hmore, he⟩ := Option.bind_eq_some_iff.1 hnext
      cases he
      obtain ⟨gap, hg, rfl⟩ := exists_blanks_of_skipBlank hskip
      obtain ⟨inner, rfl, hinner⟩ := extent_of_readItems fuel hmore
      refine ⟨blanks ++ read ++ gap ++ ',' :: inner, by simp, ?_⟩
      simpa using ReadsItems.cons hitem hg hinner
    · next hskip =>
      cases hnext
      obtain ⟨gap, hg, rfl⟩ := exists_blanks_of_skipBlank hskip
      exact ⟨blanks ++ read ++ gap, by simp, hitem.last hg⟩
    · cases hnext

theorem extent_of_readFields : ∀ (fuel : Nat) {text rest : List Char}
    {fields : List (Option String × Json)}, readFields fuel text = some (fields, rest) →
    ∃ inner, text = inner ++ '\x7d' :: rest ∧ ReadsFields fields (inner ++ ['\x7d'])
  | 0, _, _, _, h => by cases h
  | fuel + 1, text, rest, fields, h => by
    rw [readFields] at h
    split at h
    · next hquote =>
      obtain ⟨before, hb, rfl⟩ := exists_blanks_of_skipBlank hquote
      obtain ⟨⟨key, afterKey⟩, hk, hcolon⟩ := Option.bind_eq_some_iff.1 h
      clear h
      obtain ⟨literal, rfl, hkey⟩ := readsString_of_readString hk
      simp only at hcolon
      split at hcolon
      · next hskip =>
        obtain ⟨gap, hg, rfl⟩ := exists_blanks_of_skipBlank hskip
        obtain ⟨⟨value, afterValue⟩, hv, hnext⟩ := Option.bind_eq_some_iff.1 hcolon
        clear hcolon
        obtain ⟨blanks, read, hblanks, rfl, hx⟩ := extent_of_readValue fuel hv
        have hvalue := hx.reads.blanks hblanks
        simp only at hnext
        split at hnext
        · next hskip =>
          obtain ⟨⟨fields, rest⟩, hmore, he⟩ := Option.bind_eq_some_iff.1 hnext
          cases he
          obtain ⟨after, ha, rfl⟩ := exists_blanks_of_skipBlank hskip
          obtain ⟨inner, rfl, hinner⟩ := extent_of_readFields fuel hmore
          refine ⟨before ++ '"' :: (literal ++ (gap ++ ':' ::
            (blanks ++ read ++ (after ++ ',' :: inner)))), by simp, ?_⟩
          simpa using hvalue.consField hinner hb hkey hg ha
        · next hskip =>
          cases hnext
          obtain ⟨after, ha, rfl⟩ := exists_blanks_of_skipBlank hskip
          refine ⟨before ++ '"' :: (literal ++ (gap ++ ':' :: (blanks ++ read ++ after))),
            by simp, ?_⟩
          simpa using hvalue.lastField hb hkey hg ha
        · cases hnext
      · cases hcolon
    · cases h

end

/-- The text of an object, blanks aside, is enclosed in braces and read as that object. -/
theorem object_extent {text : List Char} {fields : List (Option String × Json)}
    (h : parse? text = some (.object fields)) :
    ∃ before inner after, before.all isBlank = true ∧ after.all isBlank = true ∧
      text = before ++ '\x7b' :: (inner ++ ['\x7d']) ++ after ∧
      parse? ('\x7b' :: (inner ++ ['\x7d'])) = some (.object fields) := by
  unfold parse? at h
  split at h
  · next document rest hread =>
    split_ifs at h with hrest
    cases h
    obtain ⟨before, read, hb, htext, hx⟩ := extent_of_readValue _ hread
    obtain ⟨inner, rfl⟩ := hx.braces fields rfl
    refine ⟨before, inner, rest, hb, ?_, by simpa using htext, hx.reads.parse?⟩
    obtain ⟨blanks, hblanks, hr⟩ := exists_blanks_of_skipBlank (List.isEmpty_iff.1 hrest)
    rw [hr, List.append_nil]
    exact hblanks
  · cases h

end Json

end Appraisal
