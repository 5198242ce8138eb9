import Appraisal.Json.Reader
import Appraisal.Json.Writer
import Mathlib.Tactic.SplitIfs

/-!
# String literals

Every text is read back from its string literal, whatever follows the closing quote
(`readsString_quoted`). A literal is read in two steps: its characters become pieces, and the pieces
are joined to a text. A control character without a short escape comes back as a code unit, every
other character as itself (`pieceOf`). There are other literals for the same text; each is read in
the same way wherever it stands (`readsString_of_readString`).
-/

namespace Appraisal.Json

theorem hexValue?_hexDigit : ∀ n < 16, hexValue? (hexDigit n) = some n := by
  decide

/-- The two hexadecimal digits of a control character name that character. -/
theorem codeUnit?_hexDigit {n : Nat} (h : n < 256) :
    codeUnit? '0' '0' (hexDigit (n / 16)) (hexDigit (n % 16)) = some n := by
  have hzero : hexValue? '0' = some 0 := rfl
  have hhigh := hexValue?_hexDigit (n / 16) (by omega)
  have hlow := hexValue?_hexDigit (n % 16) (by omega)
  simp only [codeUnit?, hzero, hhigh, hlow, Option.pure_def, Option.bind_eq_bind, Option.bind_some,
    Option.some.injEq]
  omega

/-- The piece that the escape of a character is read as. -/
def pieceOf (c : Char) : Piece :=
  if c.toNat < 32 ∧ c ∉ ['\x08', '\x0c', '\n', '\r', '\t'] then .unit c.toNat else .char c

theorem pieceOf_of_ge {c : Char} (h : ¬ c.toNat < 32) : pieceOf c = .char c := by
  simp [pieceOf, h]

/-- A character that stands for itself in a literal. -/
theorem readPieces_plain {c : Char} (hq : c ≠ '"') (hb : c ≠ '\\') (hc : ¬ c.toNat < 32)
    (rest : List Char) :
    readPieces (c :: rest) = (readPieces rest).map fun read => (.char c :: read.1, read.2) := by
  have h : readPieces (c :: rest) = if c.toNat < 32 ∨ c = '\\' then none else
      (readPieces rest).bind fun read => some (.char c :: read.1, read.2) := by
    rw [readPieces.eq_def]
    split <;> simp_all
  rw [h, if_neg (by simp [hc, hb]), Option.map_eq_bind]
  rfl

/-- A character that a backslash stands before. -/
theorem readPieces_short {e c : Char} (hu : e ≠ 'u') (h : unescape? e = some c)
    (rest : List Char) :
    readPieces ('\\' :: e :: rest) =
      (readPieces rest).map fun read => (.char c :: read.1, read.2) := by
  have he : readPieces ('\\' :: e :: rest) = (unescape? e).bind fun c =>
      (readPieces rest).bind fun read => some (.char c :: read.1, read.2) := by
    rw [readPieces]
    · rfl
    · simp [hu]
  rw [he, h, Option.bind_some, Option.map_eq_bind]
  rfl

/-- A character named by its code unit. -/
theorem readPieces_unit {a b c d : Char} {n : Nat} (h : codeUnit? a b c d = some n)
    (rest : List Char) :
    readPieces ('\\' :: 'u' :: a :: b :: c :: d :: rest) =
      (readPieces rest).map fun read => (.unit n :: read.1, read.2) := by
  rw [readPieces, h]
  cases readPieces rest <;> rfl

theorem readPieces_escape (c : Char) (rest : List Char) :
    readPieces (escape c ++ rest) =
      (readPieces rest).map fun read => (pieceOf c :: read.1, read.2) := by
  unfold escape
  split_ifs with h1 h2 h3 h4 h5 h6 h7 h8
  · subst h1
    exact readPieces_short (by decide) rfl rest
  · subst h2
    exact readPieces_short (by decide) rfl rest
  · subst h3
    exact readPieces_short (by decide) rfl rest
  · subst h4
    exact readPieces_short (by decide) rfl rest
  · subst h5
    exact readPieces_short (by decide) rfl rest
  · subst h6
    exact readPieces_short (by decide) rfl rest
  · subst h7
    exact readPieces_short (by decide) rfl rest
  · have hp : pieceOf c = .unit c.toNat := by simp [pieceOf, h3, h4, h5, h6, h7, h8]
    rw [hp]
    exact readPieces_unit (codeUnit?_hexDigit (by omega)) rest
  · rw [pieceOf_of_ge h8]
    exact readPieces_plain h1 h2 h8 rest

theorem readPieces_content (rest : List Char) : ∀ content : List Char,
    readPieces (content.flatMap escape ++ '"' :: rest) = some (content.map pieceOf, rest)
  | [] => by simp [readPieces]
  | c :: content => by
    rw [List.flatMap_cons, List.append_assoc, readPieces_escape, readPieces_content rest content]
    rfl

/-- A code unit that is no half of a surrogate pair denotes a character by itself. -/
theorem joinPieces_unit {n : Nat} (h : n < 0xD800) : ∀ pieces : List Piece,
    joinPieces (.unit n :: pieces) = (joinPieces pieces).map (Char.ofNat n :: ·)
  | [] => by simp [joinPieces, Nat.not_le.2 h]
  | .char c :: pieces => by simp [joinPieces, Nat.not_le.2 h]
  | .unit low :: pieces => by
    have hl : ¬ 0xDC00 ≤ n := by omega
    simp [joinPieces, Nat.not_le.2 h, hl]

theorem joinPieces_pieceOf (c : Char) (pieces : List Piece) :
    joinPieces (pieceOf c :: pieces) = (joinPieces pieces).map (c :: ·) := by
  unfold pieceOf
  split_ifs with h
  · rw [joinPieces_unit (by omega), Char.ofNat_toNat]
  · rw [joinPieces]

theorem joinPieces_map_pieceOf : ∀ content : List Char,
    joinPieces (content.map pieceOf) = some content
  | [] => rfl
  | c :: content => by
    rw [List.map_cons, joinPieces_pieceOf, joinPieces_map_pieceOf content]
    rfl

/-- Whether the rest of a literal is read as a content, with what follows it left over. -/
def ReadsString (content : Option String) (text : List Char) : Prop :=
  ∀ rest, readString (text ++ rest) = some (content, rest)

/-- A text is read back from its literal, with everything after the closing quote left over. -/
theorem readsString_quoted (content : String) :
    ReadsString (some content) (content.toList.flatMap escape ++ ['"']) := by
  intro rest
  rw [List.append_assoc, List.singleton_append, readString, readPieces_content, Option.map_some]
  simp only [joinPieces_map_pieceOf, Option.map_some, String.ofList_toList]

theorem pieces_of_readPieces : ∀ {text rest : List Char} {pieces : List Piece},
    readPieces text = some (pieces, rest) →
    ∃ read, text = read ++ rest ∧ ∀ more, readPieces (read ++ more) = some (pieces, more) := by
  intro text
  induction text using readPieces.induct with
  | case1 =>
    intro rest pieces h
    cases h
  | case2 rest =>
    intro rest pieces h
    cases h
    exact ⟨['"'], rfl, fun _ => rfl⟩
  | case3 a b c d text ih =>
    intro rest pieces h
    rw [readPieces] at h
    obtain ⟨unit, hu, h⟩ := Option.bind_eq_some_iff.1 h
    obtain ⟨⟨pieces, rest⟩, hp, h⟩ := Option.bind_eq_some_iff.1 h
    cases h
    obtain ⟨read, rfl, hread⟩ := ih hp
    refine ⟨'\\' :: 'u' :: a :: b :: c :: d :: read, rfl, fun more => ?_⟩
    simp only [List.cons_append, readPieces_unit hu, hread, Option.map_some]
  | case4 e text hne ih =>
    intro rest pieces h
    rw [readPieces] at h
    · obtain ⟨c, hc, h⟩ := Option.bind_eq_some_iff.1 h
      obtain ⟨⟨pieces, rest⟩, hp, h⟩ := Option.bind_eq_some_iff.1 h
      cases h
      obtain ⟨read, rfl, hread⟩ := ih hp
      have hu : e ≠ 'u' := by
        rintro rfl
        cases hc
      refine ⟨'\\' :: e :: read, rfl, fun more => ?_⟩
      rw [List.cons_append, List.cons_append, readPieces_short hu hc, hread, Option.map_some]
    · exact hne
  | case5 c text hq hu hs hc =>
    intro rest pieces h
    rw [readPieces, if_pos hc] at h
    · cases h
    all_goals assumption
  | case6 c text hq hu hs hc ih =>
    intro rest pieces h
    rw [not_or] at hc
    rw [readPieces_plain hq hc.2 hc.1] at h
    obtain ⟨⟨pieces, rest⟩, hp, h⟩ := Option.map_eq_some_iff.1 h
    cases h
    obtain ⟨read, rfl, hread⟩ := ih hp
    refine ⟨c :: read, rfl, fun more => ?_⟩
    rw [List.cons_append, readPieces_plain hq hc.2 hc.1, hread, Option.map_some]

/-- What is read as a string is read as that string wherever it stands. -/
theorem readsString_of_readString {text rest : List Char} {content : Option String}
    (h : readString text = some (content, rest)) :
    ∃ read, text = read ++ rest ∧ ReadsString content read := by
  obtain ⟨⟨pieces, rest⟩, hp, he⟩ := Option.map_eq_some_iff.1 h
  cases he
  obtain ⟨read, rfl, hread⟩ := pieces_of_readPieces hp
  exact ⟨read, rfl, fun more => by rw [readString, hread, Option.map_some]⟩

end Appraisal.Json
