import Appraisal.Proofs.Standing
import Mathlib.Data.List.TakeWhile

/-!
# What each mark of a text says

The marks are found by scanning; here each of them is described by what stands in the text, with
no order of search in it (`describes_ofText`). A word of one kind cannot hide another, and a sign
such as an arrow, which has no word character in it, stands between boundaries just where word
characters are on both of its sides.
-/

namespace Appraisal

namespace Text

/-- A run of at least two capital letters and underscores. -/
def Capitals (word : List Char) : Prop :=
  2 ≤ word.length ∧ ∀ c ∈ word, ('A' ≤ c ∧ c ≤ 'Z') ∨ c = '_'

/-- The two words of a binary search in any case, with at most one character between them that is
no line feed. -/
def BinarySearch (word : List Char) : Prop :=
  ∃ first gap second, word = first ++ gap ++ second ∧ first.map folded = "binary".toList ∧
    gap.length ≤ 1 ∧ '\n' ∉ gap ∧ second.map folded = "search".toList

/-- Whether a word is there twice without overlap, as plain characters. -/
def Twice (word text : List Char) : Prop :=
  ∃ before inside rest, text = before ++ word ++ inside ++ word ++ rest

/-- Whether the word `return` is followed by white space, a name and an opening bracket. -/
def ReturnsCall (text : List Char) : Prop :=
  ∃ before gap name space rest,
    text = before ++ ("return".toList ++ gap ++ name ++ space ++ '(' :: rest) ∧
    Boundary before "return".toList ∧
    (gap ≠ [] ∧ ∀ c ∈ gap, isSpace c = true) ∧ (name ≠ [] ∧ ∀ c ∈ name, WordChar c) ∧
    ∀ c ∈ space, isSpace c = true

end Text

namespace Evidence

open Text

/-- What each mark of a text says of it. -/
structure Describes (e : Evidence) (text : List Char) : Prop where
  lines : ∃ pieces, pieces ≠ [] ∧ text = ['\n'].intercalate pieces ∧
    (∀ piece ∈ pieces, '\n' ∉ piece) ∧
    e.lines = (pieces.filter fun piece => piece.any fun c => !isSpace c).length
  length : e.length = (text.map fun c => if c.toNat < 0x10000 then 1 else 2).sum
  forLoops : e.forLoops = {i | Stands (Word ["for"]) text i}.ncard
  whileLoop : e.whileLoop = true ↔ Occurs (Word ["while"]) text
  nested : e.nested = true ↔ Twice "for".toList text
  recursion : e.recursion = true ↔ ReturnsCall text
  lookup : e.lookup = true ↔
    Occurs (AnyCase ["map", "hashmap", "dict", "\x7b\x7d", "set", "object"]) text
  sequence : e.sequence = true ↔ ['[', ']'] <:+: text ∨ Occurs (AnyCase ["array", "list"]) text
  functions : e.functions = true ↔
    Occurs (AnyCase ["def", "function", "=>", "func", "class", "method"]) text
  comments : e.comments = true ↔
    ∃ mark ∈ ["//", "/*", "#", "\"\"\"", "'''"], mark.toList <:+: text
  docstrings : e.docstrings = true ↔ Twice "\"\"\"".toList text ∨ Twice "'''".toList text
  errorHandling : e.errorHandling = true ↔
    Occurs (AnyCase ["try", "catch", "except", "finally", "throw", "raise"]) text
  validation : e.validation = true ↔ Occurs (AnyCase ["if", "validate", "check", "assert"]) text
  constants : e.constants = true ↔
    Occurs (Word ["const", "final", "readonly"]) text ∨ Occurs Capitals text
  earlyReturn : e.earlyReturn = true ↔
    Occurs (Word ["return"]) text ∧ Twice "return".toList text
  loopExit : e.loopExit = true ↔ Occurs (Word ["break", "continue"]) text
  digits : e.digits = true ↔ ∃ c ∈ text, '0' ≤ c ∧ c ≤ '9'
  fastSearch : e.fastSearch = true ↔
    Occurs (AnyCase ["map", "hashmap", "dict", "\x7b\x7d", "set", "object"]) text ∨
      Occurs BinarySearch text

end Evidence

section Runs

variable {p : Char → Bool} {front back : List Char}

theorem takeWhile_append (hfront : ∀ c ∈ front, p c = true)
    (hback : ∀ c ∈ back.head?, p c = false) : (front ++ back).takeWhile p = front := by
  rw [List.takeWhile_append_of_pos hfront]
  cases back with
  | nil => simp
  | cons c back => simp [hback c rfl]

theorem takeWhile_ne_nil {text : List Char} (h : text.head?.any p = true) :
    text.takeWhile p ≠ [] := by
  cases text with
  | nil => cases h
  | cons c text =>
    have hc : p c = true := h
    simp [hc]

theorem dropWhile_append (hfront : ∀ c ∈ front, p c = true)
    (hback : ∀ c ∈ back.head?, p c = false) : (front ++ back).dropWhile p = back := by
  rw [List.dropWhile_append_of_pos hfront]
  cases back with
  | nil => simp
  | cons c back => simp [hback c rfl]

end Runs

namespace Evidence

open Text

section Scans

variable {text word : List Char}

theorem isConstantChar_iff {c : Char} :
    isConstantChar c = true ↔ ('A' ≤ c ∧ c ≤ 'Z') ∨ c = '_' := by
  rw [isConstantChar, Bool.or_eq_true, isUpper_iff, beq_iff_eq]

theorem wordChar_of_isConstantChar {c : Char} (h : isConstantChar c = true) : WordChar c := by
  rcases isConstantChar_iff.1 h with h | h
  · exact .inr (.inl h)
  · exact .inr (.inr (.inr h))

theorem finds_constantHere : Finds constantHere Capitals := by
  refine ⟨fun {before rest} => ?_⟩
  have hhead (after : List Char) : (!after.head?.any isWordChar) = true ↔
      ∀ c ∈ after.head?, ¬ WordChar c := by
    simp [← isWordChar_iff, Option.any_eq_false]
  have hlast {before word : List Char} (hword : ∀ c ∈ word, isConstantChar c = true)
      (hlength : 2 ≤ word.length) : ∃ c ∈ (before ++ word).getLast?, WordChar c := by
    obtain ⟨c, hc⟩ := Option.isSome_iff_exists.1 (List.getLast?_isSome.2
      (List.ne_nil_of_length_pos (Nat.zero_lt_of_lt hlength)))
    refine ⟨c, ?_, wordChar_of_isConstantChar (hword c (List.mem_of_getLast? hc))⟩
    rw [List.getLast?_append, hc]
    rfl
  simp only [constantHere, Bool.and_eq_true, boundary_iff, decide_eq_true_eq, hhead]
  constructor
  · rintro ⟨⟨hstart, hlength⟩, hend⟩
    have hword : ∀ c ∈ rest.takeWhile isConstantChar, isConstantChar c = true :=
      fun c hc => List.mem_takeWhile_imp hc
    exact ⟨rest.takeWhile isConstantChar, rest.dropWhile isConstantChar,
      List.takeWhile_append_dropWhile.symm,
      ⟨hlength, fun c hc => isConstantChar_iff.1 (hword c hc)⟩, hstart,
      (boundary_iff_of_last (hlast hword hlength)).2 hend⟩
  · rintro ⟨word, after, rfl, ⟨hlength, hword⟩, hstart, hend⟩
    have hword' : ∀ c ∈ word, isConstantChar c = true :=
      fun c hc => isConstantChar_iff.2 (hword c hc)
    have hafter := (boundary_iff_of_last (hlast hword' hlength)).1 hend
    have hstop : ∀ c ∈ after.head?, isConstantChar c = false := fun c hc =>
      Bool.eq_false_iff.2 fun h => hafter c hc (wordChar_of_isConstantChar h)
    rw [takeWhile_append hword' hstop, dropWhile_append hword' hstop]
    exact ⟨⟨hstart, hlength⟩, hafter⟩

theorem isSpace_of_wordChar {c : Char} (h : WordChar c) : isSpace c = false := by
  have hcode : (97 ≤ c.toNat ∧ c.toNat ≤ 122) ∨ (65 ≤ c.toNat ∧ c.toNat ≤ 90) ∨
      (48 ≤ c.toNat ∧ c.toNat ≤ 57) ∨ c.toNat = 95 := by
    rcases h with h | h | h | rfl
    · exact .inl h
    · exact .inr (.inl h)
    · exact .inr (.inr (.inl h))
    · exact .inr (.inr (.inr rfl))
  simp only [isSpace, Bool.or_eq_false_iff, Bool.and_eq_false_iff, decide_eq_false_iff_not,
    beq_eq_false_iff_ne]
  omega

theorem returnedCallHere_iff {before rest : List Char} :
    returnedCallHere before.getLast? rest = true ↔ ∃ gap name space tail,
      rest = "return".toList ++ gap ++ name ++ space ++ '(' :: tail ∧
      Boundary before "return".toList ∧
      (gap ≠ [] ∧ ∀ c ∈ gap, isSpace c = true) ∧ (name ≠ [] ∧ ∀ c ∈ name, WordChar c) ∧
      ∀ c ∈ space, isSpace c = true := by
  have hstart (after : List Char) :
      Boundary before ("return".toList ++ after) ↔ Boundary before "return".toList := Iff.rfl
  rw [returnedCallHere, Bool.and_eq_true, boundary_iff]
  constructor
  · rintro ⟨hbefore, hmatch⟩
    split at hmatch
    · cases hmatch
    · next after hfit =>
      obtain ⟨word, rfl, hfits, -⟩ := fit_eq_some_iff.1 hfit
      obtain rfl := fits_exactly_iff.1 hfits
      simp only [Bool.and_eq_true, beq_iff_eq] at hmatch
      obtain ⟨⟨hgap, hname⟩, hbracket⟩ := hmatch
      obtain ⟨tail, htail⟩ := List.head?_eq_some_iff.1 hbracket
      refine ⟨after.takeWhile isSpace, (trimStart after).takeWhile isWordChar,
        ((trimStart after).dropWhile isWordChar).takeWhile isSpace, tail, ?_,
        (hstart _).1 hbefore, ⟨takeWhile_ne_nil hgap, fun c hc => List.mem_takeWhile_imp hc⟩,
        ⟨takeWhile_ne_nil hname, fun c hc => isWordChar_iff.1 (List.mem_takeWhile_imp hc)⟩,
        fun c hc => List.mem_takeWhile_imp hc⟩
      rw [← htail]
      simp only [List.append_assoc]
      rw [trimStart, trimStart, List.takeWhile_append_dropWhile, List.takeWhile_append_dropWhile,
        List.takeWhile_append_dropWhile]
  · rintro ⟨gap, name, space, tail, rfl, hbefore, ⟨hgap, hgaps⟩, ⟨hname, hnames⟩, hspace⟩
    simp only [List.append_assoc]
    -- each run ends where the next one starts
    have hgap' : trimStart (gap ++ (name ++ (space ++ '(' :: tail))) =
        name ++ (space ++ '(' :: tail) := by
      refine dropWhile_append hgaps fun c hc => ?_
      obtain ⟨n, name, rfl⟩ := List.exists_cons_of_ne_nil hname
      obtain rfl : n = c := Option.some_inj.1 hc
      exact isSpace_of_wordChar (hnames n List.mem_cons_self)
    have hname' : (name ++ (space ++ '(' :: tail)).dropWhile isWordChar = space ++ '(' :: tail := by
      refine dropWhile_append (fun c hc => isWordChar_iff.2 (hnames c hc)) fun c hc => ?_
      refine Bool.eq_false_iff.2 fun hword => ?_
      have hnot := isSpace_of_wordChar (isWordChar_iff.1 hword)
      cases space with
      | nil =>
        obtain rfl : '(' = c := Option.some_inj.1 hc
        exact absurd hword (by decide)
      | cons s space =>
        obtain rfl : s = c := Option.some_inj.1 hc
        rw [hspace s List.mem_cons_self] at hnot
        cases hnot
    have hspace' : trimStart (space ++ '(' :: tail) = '(' :: tail := by
      refine dropWhile_append hspace fun c hc => ?_
      obtain rfl : '(' = c := Option.some_inj.1 hc
      decide
    refine ⟨(hstart _).2 hbefore, ?_⟩
    have hfit : fit (exactly "return") before.getLast?
        ("return".toList ++ (gap ++ (name ++ (space ++ '(' :: tail)))) = some (_, _) :=
      fit_eq_some_iff.2 ⟨_, rfl, fits_exactly_iff.2 rfl, rfl⟩
    simp only [hfit, hgap', hname', hspace', Bool.and_eq_true, beq_iff_eq]
    obtain ⟨s, gap, rfl⟩ := List.exists_cons_of_ne_nil hgap
    obtain ⟨n, name, rfl⟩ := List.exists_cons_of_ne_nil hname
    exact ⟨⟨hgaps s List.mem_cons_self, isWordChar_iff.2 (hnames n List.mem_cons_self)⟩, rfl⟩

theorem recursion_ofText_iff : somewhere returnedCallHere none text = true ↔ ReturnsCall text := by
  rw [somewhere_iff]
  constructor
  · rintro ⟨before, rest, rfl, hhere⟩
    obtain ⟨gap, name, space, tail, rfl, hcall⟩ := returnedCallHere_iff.1 hhere
    exact ⟨before, gap, name, space, tail, rfl, hcall⟩
  · rintro ⟨before, gap, name, space, tail, rfl, hcall⟩
    exact ⟨before, _, rfl, returnedCallHere_iff.2 ⟨gap, name, space, tail, rfl, hcall⟩⟩

end Scans

section Occurrences

variable {word : List Char}

theorem occurrencesFrom_eq_drop : ∀ (skip : ℕ) (text : List Char),
    occurrencesFrom word skip text = occurrences word (text.drop skip)
  | 0, _ => rfl
  | _ + 1, [] => by simp [occurrences, occurrencesFrom]
  | skip + 1, c :: text => by
    rw [occurrencesFrom, occurrencesFrom_eq_drop skip text, List.drop_succ_cons]

/-- An occurrence is counted, and those after it. -/
theorem occurrences_eq (hw : word ≠ []) : ∀ text : List Char, occurrences word text =
    match after? word text with
    | none => 0
    | some rest => occurrences word rest + 1
  | [] => by
    rw [after?, if_neg (by simpa using hw)]
    rfl
  | c :: text => by
    rw [occurrences, occurrencesFrom, after?]
    split_ifs with hp
    · obtain ⟨w, rest, rfl⟩ := List.exists_cons_of_ne_nil hw
      rw [occurrencesFrom_eq_drop]
      rfl
    · exact occurrences_eq hw text

theorem occurrences_pos_iff (hw : word ≠ []) {text : List Char} :
    0 < occurrences word text ↔ contains word text = true := by
  rw [occurrences_eq hw, contains_iff_infix]
  constructor
  · intro h
    cases hafter : after? word text with
    | none => simp [hafter] at h
    | some rest =>
      obtain ⟨before, rfl⟩ := append_of_after? hafter
      exact ⟨before, rest, rfl⟩
  · rintro ⟨before, rest, rfl⟩
    obtain ⟨found, hfound, -⟩ := after?_append word rest before
    rw [hfound]
    exact Nat.succ_pos _

theorem two_le_occurrences_iff (hw : word ≠ []) {text : List Char} :
    2 ≤ occurrences word text ↔ Twice word text := by
  have htwice : Twice word text ↔ closedBy word text = true := closedBy_iff.symm
  rw [htwice, occurrences_eq hw, closedBy]
  cases after? word text with
  | none => simp
  | some rest => simp [← occurrences_pos_iff hw, Nat.succ_le_iff]

end Occurrences

section Kinds

variable {text word : List Char}

theorem fits_exactly (w : String) : Fits (exactly w) = Word [w] := by
  funext word
  simp only [fits_exactly_iff, Word, List.mem_singleton, exists_eq_left]

theorem bounded_exactly_iff {w : String} :
    bounded (exactly w) text = true ↔ Occurs (Word [w]) text := by
  rw [bounded, (finds_boundedHere _).somewhere_iff, fits_exactly]

theorem fits_binarySearchWords_iff :
    (∃ pattern ∈ binarySearchWords, Fits pattern word) ↔ BinarySearch word := by
  have hbinary {first : List Char} :
      Fits (anyCase "binary") first ↔ first.map folded = "binary".toList :=
    fits_anyCase_iff (by decide)
  have hsearch {second : List Char} :
      Fits (anyCase "search") second ↔ second.map folded = "search".toList :=
    fits_anyCase_iff (by decide)
  simp only [binarySearchWords, List.mem_cons, List.not_mem_nil, or_false, exists_eq_or_imp,
    exists_eq_left, fits_append_iff]
  constructor
  · rintro (⟨first, second, rfl, hfirst, hsecond⟩ | ⟨first, _, rfl, hfirst, hrest⟩)
    · exact ⟨first, [], second, by simp, hbinary.1 hfirst, by simp, by simp, hsearch.1 hsecond⟩
    · cases hrest with
      | @cons _ c _ second hc hsecond =>
        have hgap : '\n' ∉ [c] := fun h => bne_iff_ne.1 hc (List.mem_singleton.1 h).symm
        exact ⟨first, [c], second, by simp, hbinary.1 hfirst, by simp, hgap, hsearch.1 hsecond⟩
  · rintro ⟨first, gap, second, rfl, hfirst, hlength, hgap, hsecond⟩
    match gap, hlength, hgap with
    | [], _, _ =>
      exact .inl ⟨first, second, by simp, hbinary.2 hfirst, hsearch.2 hsecond⟩
    | [c], _, hgap =>
      have hc : (c != '\n') = true :=
        bne_iff_ne.2 fun h => hgap (List.mem_singleton.2 h.symm)
      exact .inr ⟨first, c :: second, by simp, hbinary.2 hfirst, .cons hc (hsearch.2 hsecond)⟩

end Kinds

/-- Each mark of a text says what it is described to say. -/
theorem describes_ofText (text : List Char) : (ofText text).Describes text where
  lines := by
    refine ⟨Text.lines text, split_ne_nil _ _, (intercalate_split '\n' text).symm,
      fun piece hp => separator_notMem_of_mem_split hp, ?_⟩
    show ((Text.lines text).filter _).length = _
    congr 1
    refine List.filter_congr fun piece _ => ?_
    exact List.not_all_eq_any_not
  length := by
    show utf16Length text = _
    induction text with
    | nil => rfl
    | cons c text ih => rw [utf16Length, ih, List.map_cons, List.sum_cons]
  forLoops := by
    show positions (boundedHere (exactly "for")) none text = _
    rw [(finds_boundedHere _).positions_eq, fits_exactly]
  whileLoop := bounded_exactly_iff
  nested := by
    show decide (2 ≤ occurrences "for".toList text) = true ↔ _
    rw [decide_eq_true_eq, two_le_occurrences_iff (by decide)]
  recursion := recursion_ofText_iff
  lookup := boundedAny_anyCase_iff (by decide)
  sequence := by
    show (contains ['[', ']'] text || boundedAny sequenceWords text) = true ↔ _
    rw [Bool.or_eq_true, contains_iff_infix]
    exact or_congr_right (boundedAny_anyCase_iff (by decide))
  functions := boundedAny_anyCase_iff (by decide)
  comments := by
    show ((["//", "/*", "#", "\"\"\"", "'''"].map String.toList).any fun mark =>
      contains mark text) = true ↔ _
    simp only [List.any_map, List.any_eq_true, Function.comp_apply, contains_iff_infix]
  docstrings := by
    show (closedBy _ text || closedBy _ text) = true ↔ _
    rw [Bool.or_eq_true, closedBy_iff, closedBy_iff]
    rfl
  errorHandling := boundedAny_anyCase_iff (by decide)
  validation := boundedAny_anyCase_iff (by decide)
  constants := by
    show (boundedAny constantWords text || somewhere constantHere none text) = true ↔ _
    rw [Bool.or_eq_true, finds_constantHere.somewhere_iff]
    exact or_congr_left boundedAny_exactly_iff
  earlyReturn := by
    show (bounded (exactly "return") text && decide (2 ≤ occurrences "return".toList text)) =
      true ↔ _
    rw [Bool.and_eq_true, bounded_exactly_iff, decide_eq_true_eq,
      two_le_occurrences_iff (by decide)]
  loopExit := boundedAny_exactly_iff
  digits := by
    show text.any Char.isDigit = true ↔ _
    simp only [List.any_eq_true, Char.isDigit, Bool.and_eq_true, decide_eq_true_eq]
    rfl
  fastSearch := by
    show (boundedAny lookupWords text || boundedAny binarySearchWords text) = true ↔ _
    rw [Bool.or_eq_true]
    exact or_congr (boundedAny_anyCase_iff (by decide))
      (boundedAny_iff.trans (occurs_congr fun _ => fits_binarySearchWords_iff))

/-- An arrow stands between boundaries only where it touches a word on both sides. -/
example : (ofText "x=>y".toList).functions = true ∧ (ofText "x => y".toList).functions = false := by
  decide

end Evidence

end Appraisal
