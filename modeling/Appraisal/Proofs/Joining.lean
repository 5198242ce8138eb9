import Appraisal.Proofs.Description

/-!
# The evidence of joined texts

Two texts are joined with a line feed between them. A scan for words takes the line feed for the end
of the text before it and for the start of the text after it (`LineBound`), so that what it counts
adds up, and what it looks for is found in one of the parts or not at all (`Linewise`). A docstring
or a returned call may begin in one text and end in the other: what is found in a part is found in
the whole (`Growing`), but not the other way round. `joins_ofText` takes all of them together.
-/

namespace Appraisal

namespace Text

/-- Whether a test cannot tell a line feed from the end of the text it stands in. -/
structure LineBound (test : Option Char → List Char → Bool) : Prop where
  after : ∀ before text rest, test before (text ++ '\n' :: rest) = test before text
  before : ∀ text, test (some '\n') text = test none text

/-- Whether joined texts have a mark exactly when one of them has it. -/
def Linewise (mark : List Char → Bool) : Prop :=
  ∀ a b, mark (a ++ '\n' :: b) = (mark a || mark b)

/-- Whether joined texts have a mark when one of them has it. -/
def Growing (mark : List Char → Bool) : Prop :=
  ∀ a b, mark a = true ∨ mark b = true → mark (a ++ '\n' :: b) = true

section Marks

variable {α : Type*} {mark other : List Char → Bool}

theorem Linewise.or (h : Linewise mark) (h' : Linewise other) :
    Linewise fun text => mark text || other text := by
  intro a b
  simp only [h a b, h' a b]
  ac_rfl

theorem Linewise.any {marks : α → List Char → Bool} : ∀ {list : List α},
    (∀ x ∈ list, Linewise (marks x)) → Linewise fun text => list.any fun x => marks x text
  | [], _ => fun _ _ => rfl
  | x :: list, h => by
    obtain ⟨hx, hlist⟩ := List.forall_mem_cons.1 h
    exact hx.or (Linewise.any hlist)

theorem Growing.or (h : Growing mark) (h' : Growing other) :
    Growing fun text => mark text || other text := by
  intro a b hab
  simp only [Bool.or_eq_true] at hab ⊢
  rcases hab with (ha | ha) | hb | hb
  · exact .inl (h a b (.inl ha))
  · exact .inr (h' a b (.inl ha))
  · exact .inl (h a b (.inr hb))
  · exact .inr (h' a b (.inr hb))

theorem Growing.and (h : Growing mark) (h' : Growing other) :
    Growing fun text => mark text && other text := by
  intro a b hab
  simp only [Bool.and_eq_true] at hab ⊢
  rcases hab with ⟨ha, ha'⟩ | ⟨hb, hb'⟩
  · exact ⟨h a b (.inl ha), h' a b (.inl ha')⟩
  · exact ⟨h a b (.inr hb), h' a b (.inr hb')⟩

theorem Linewise.growing (h : Linewise mark) : Growing mark := by
  intro a b hab
  rw [h a b, Bool.or_eq_true]
  exact hab

end Marks

section Scans

variable {test : Option Char → List Char → Bool} {pattern : Pattern} {rest : List Char}

theorem LineBound.positions_newline (h : LineBound test) (text : List Char) :
    positions test (some '\n') text = positions test none text := by
  cases text <;> simp only [positions, h.before]

/-- The positions in joined texts are those in the first text and those in the second. -/
theorem LineBound.positions_append (h : LineBound test) (b : List Char) :
    ∀ (before : Option Char) (a : List Char), positions test before (a ++ '\n' :: b) =
      positions test before a + positions test none b
  | before, [] => by
    have hend : test before ('\n' :: b) = test before [] := h.after before [] b
    rw [List.nil_append, positions, positions, hend, h.positions_newline]
  | before, c :: a => by
    have hhere : test before (c :: (a ++ '\n' :: b)) = test before (c :: a) :=
      h.after before (c :: a) b
    rw [List.cons_append, positions, positions, hhere, h.positions_append b (some c) a,
      Nat.add_assoc]

theorem LineBound.linewise (h : LineBound test) : Linewise (somewhere test none) := by
  intro a b
  simp only [somewhere_eq_positions, h.positions_append]
  rw [← Bool.decide_or, decide_eq_decide]
  omega

theorem any_head?_append (text rest : List Char) :
    (text ++ '\n' :: rest).head?.any isWordChar = text.head?.any isWordChar := by
  cases text <;> rfl

/-- A pattern that no line feed fits is fitted within a line or not at all. -/
theorem fit_append (hp : ∀ p ∈ pattern, p '\n' = false) :
    ∀ (before : Option Char) (text : List Char), fit pattern before (text ++ '\n' :: rest) =
      (fit pattern before text).map fun found => (found.1, found.2 ++ '\n' :: rest) := by
  induction pattern with
  | nil => exact fun _ _ => rfl
  | cons p pattern ih =>
    obtain ⟨hline, hp⟩ := List.forall_mem_cons.1 hp
    intro before text
    cases text with
    | nil => simp [fit, hline]
    | cons c text =>
      rw [List.cons_append, fit, fit, ih hp]
      split_ifs <;> rfl

theorem lineBound_boundedHere (hp : ∀ p ∈ pattern, p '\n' = false) :
    LineBound (boundedHere pattern) where
  after before text rest := by
    simp only [boundedHere, boundary, any_head?_append, fit_append hp, Option.any_map]
  before text := by
    cases pattern with
    | nil => rfl
    | cons p pattern => cases text <;> rfl

theorem linewise_boundedAny {patterns : List Pattern}
    (hp : ∀ pattern ∈ patterns, ∀ p ∈ pattern, p '\n' = false) : Linewise (boundedAny patterns) :=
  Linewise.any fun pattern hpattern => (lineBound_boundedHere (hp pattern hpattern)).linewise

theorem linewise_contains {word : List Char} (hw : '\n' ∉ word) : Linewise (contains word) := by
  intro a b
  rw [Bool.eq_iff_iff, Bool.or_eq_true]
  simp only [infix_append_cons_iff hw, contains_iff_infix]

end Scans

section Lines

theorem lineCount_append (a b : List Char) :
    lineCount (a ++ '\n' :: b) = lineCount a + lineCount b := by
  rw [lineCount, lines, split_append_cons, List.filter_append, List.length_append]
  rfl

end Lines

section Spans

variable {a b word : List Char}

theorem Twice.of_infix (h : Twice word a) (ha : a <:+: b) : Twice word b := by
  obtain ⟨before, inside, after, rfl⟩ := h
  obtain ⟨front, back, rfl⟩ := ha
  exact ⟨front ++ before, inside, after ++ back, by simp only [List.append_assoc]⟩

theorem growing_of_twice {mark : List Char → Bool}
    (h : ∀ text, mark text = true ↔ Twice word text) : Growing mark := by
  intro a b hab
  simp only [h] at hab ⊢
  rcases hab with ha | hb
  · exact ha.of_infix (List.prefix_append _ _).isInfix
  · exact hb.of_infix ((List.suffix_cons _ _).trans (List.suffix_append _ _)).isInfix

/-- What ends in a line feed bounds a word like the start of a text. -/
theorem boundary_newline (a : List Char) {before after : List Char} :
    Boundary (a ++ '\n' :: before) after ↔ Boundary before after := by
  have hlast : (a ++ '\n' :: before).getLast?.any isWordChar =
      before.getLast?.any isWordChar := by
    rw [List.getLast?_append, List.getLast?_cons]
    cases before.getLast? <;> rfl
  rw [← boundary_iff, ← boundary_iff, boundary, boundary, hlast]

theorem ReturnsCall.append (h : ReturnsCall a) (b : List Char) : ReturnsCall (a ++ b) := by
  obtain ⟨before, gap, name, space, rest, rfl, hcall⟩ := h
  refine ⟨before, gap, name, space, rest ++ b, ?_, hcall⟩
  simp only [List.append_assoc, List.cons_append]

theorem ReturnsCall.newline_append (h : ReturnsCall b) (a : List Char) :
    ReturnsCall (a ++ '\n' :: b) := by
  obtain ⟨before, gap, name, space, rest, rfl, hstart, hcall⟩ := h
  refine ⟨a ++ '\n' :: before, gap, name, space, rest, ?_, (boundary_newline a).2 hstart, hcall⟩
  simp only [List.append_assoc, List.cons_append]

end Spans

end Text

namespace Evidence

open Text

/-- Whether the evidence is that of two texts taken together. -/
structure Joins (e first second : Evidence) : Prop where
  lines : e.lines = first.lines + second.lines
  length : e.length = first.length + second.length + 1
  forLoops : e.forLoops = first.forLoops + second.forLoops
  whileLoop : e.whileLoop = (first.whileLoop || second.whileLoop)
  nested : first.nested = true ∨ second.nested = true → e.nested = true
  recursion : first.recursion = true ∨ second.recursion = true → e.recursion = true
  lookup : e.lookup = (first.lookup || second.lookup)
  sequence : e.sequence = (first.sequence || second.sequence)
  functions : e.functions = (first.functions || second.functions)
  comments : e.comments = (first.comments || second.comments)
  docstrings : first.docstrings = true ∨ second.docstrings = true → e.docstrings = true
  errorHandling : e.errorHandling = (first.errorHandling || second.errorHandling)
  validation : e.validation = (first.validation || second.validation)
  constants : e.constants = (first.constants || second.constants)
  earlyReturn : first.earlyReturn = true ∨ second.earlyReturn = true → e.earlyReturn = true
  loopExit : e.loopExit = (first.loopExit || second.loopExit)
  digits : e.digits = (first.digits || second.digits)
  fastSearch : e.fastSearch = (first.fastSearch || second.fastSearch)

theorem lineBound_constantHere : LineBound constantHere where
  after before text rest := by
    have htake : (text ++ '\n' :: rest).takeWhile isConstantChar =
        text.takeWhile isConstantChar := by
      induction text with
      | nil => rfl
      | cons c text ih => rw [List.cons_append, List.takeWhile_cons, List.takeWhile_cons, ih]
    have hdrop : (text ++ '\n' :: rest).dropWhile isConstantChar =
        text.dropWhile isConstantChar ++ '\n' :: rest := by
      clear htake
      induction text with
      | nil => rfl
      | cons c text ih =>
        rw [List.cons_append, List.dropWhile_cons, List.dropWhile_cons, ih]
        split_ifs <;> rfl
    simp only [constantHere, boundary, htake, hdrop, any_head?_append]
  before _ := rfl

theorem growing_closedBy (mark : List Char) : Growing (closedBy mark) :=
  growing_of_twice fun _ => closedBy_iff

theorem growing_occurrences {word : List Char} (hw : word ≠ []) :
    Growing fun text => decide (2 ≤ occurrences word text) :=
  growing_of_twice fun _ => decide_eq_true_iff.trans (two_le_occurrences_iff hw)

theorem growing_recursion : Growing (somewhere returnedCallHere none) := by
  intro a b hab
  simp only [recursion_ofText_iff] at hab ⊢
  rcases hab with ha | hb
  · exact ha.append _
  · exact hb.newline_append a

/-- The evidence of two texts with a line feed between them is theirs taken together. -/
theorem joins_ofText (a b : List Char) :
    (ofText (a ++ '\n' :: b)).Joins (ofText a) (ofText b) where
  lines := lineCount_append a b
  length := by
    have hfeed : utf16Length ('\n' :: b) = 1 + utf16Length b := rfl
    show utf16Length (a ++ '\n' :: b) = utf16Length a + utf16Length b + 1
    rw [utf16Length_append, hfeed]
    omega
  forLoops := (lineBound_boundedHere (by decide)).positions_append b none a
  whileLoop := (lineBound_boundedHere (by decide)).linewise a b
  nested := growing_occurrences (by decide) a b
  recursion := growing_recursion a b
  lookup := linewise_boundedAny (by decide) a b
  sequence := ((linewise_contains (by decide)).or (linewise_boundedAny (by decide))) a b
  functions := linewise_boundedAny (by decide) a b
  comments := by
    have hmarks : ∀ mark ∈ commentMarks, '\n' ∉ mark := by decide
    exact Linewise.any (fun mark hmark => linewise_contains (hmarks mark hmark)) a b
  docstrings := ((growing_closedBy _).or (growing_closedBy _)) a b
  errorHandling := linewise_boundedAny (by decide) a b
  validation := linewise_boundedAny (by decide) a b
  constants := ((linewise_boundedAny (by decide)).or lineBound_constantHere.linewise) a b
  earlyReturn := ((lineBound_boundedHere (by decide)).linewise.growing.and
    (growing_occurrences (by decide))) a b
  loopExit := linewise_boundedAny (by decide) a b
  digits := by
    show (a ++ '\n' :: b).any Char.isDigit = _
    rw [List.any_append]
    rfl
  fastSearch := ((linewise_boundedAny (by decide)).or (linewise_boundedAny (by decide))) a b

/-- A call may be returned across a line feed though it is returned on neither side of it. -/
example : (ofText "return f".toList).recursion = false ∧ (ofText "(x)".toList).recursion = false ∧
    (ofText ("return f".toList ++ '\n' :: "(x)".toList)).recursion = true := by
  decide

end Evidence

end Appraisal
