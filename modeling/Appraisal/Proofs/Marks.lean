import Appraisal.Heuristic
import Mathlib.Tactic.SplitIfs

/-!
# What the marks of a text imply

The marks of a text are found one by one, but not every combination of them can be found. Two loops
by the word are also two by its characters (`nested_ofText`), and a docstring that is closed has the
mark of a comment (`comments_ofText`). The cost is read off the marks in a fixed order, and the
lemmas on it say which marks a growth speaks for.
-/

namespace Appraisal

namespace Text

theorem isPrefixOf_of_fit : ∀ {word text : List Char} {before : Option Char}
    {found : Option Char × List Char},
    fit (word.map fun w c => c == w) before text = some found → word.isPrefixOf text = true
  | [], _, _, _, _ => rfl
  | w :: word, [], _, _, h => by simp [fit] at h
  | w :: word, c :: text, _, _, h => by
    rw [List.map_cons, fit] at h
    split_ifs at h with hc
    rw [List.isPrefixOf, isPrefixOf_of_fit h, eq_of_beq hc, beq_self_eq_true, Bool.and_self]

/-- A word that stands between boundaries also stands there as plain characters. -/
theorem isPrefixOf_of_boundedHere {word : String} {before : Option Char} {text : List Char}
    (h : boundedHere (exactly word) before text = true) : word.toList.isPrefixOf text = true := by
  rw [boundedHere, Bool.and_eq_true, Option.any_eq_true] at h
  obtain ⟨-, found, hfound, -⟩ := h
  exact isPrefixOf_of_fit hfound

/-- Where a word starts with a character that it has no second time, no two of its occurrences
overlap, so that none is passed over in counting. -/
theorem positions_le_occurrencesFrom {first : Char} {rest : List Char} (hf : first ∉ rest)
    {test : Option Char → List Char → Bool}
    (ht : ∀ before text, test before text = true → (first :: rest).isPrefixOf text = true) :
    ∀ (before : Option Char) (text : List Char) (skip : Nat), first ∉ text.take skip →
      positions test before text ≤ occurrencesFrom (first :: rest) skip text
  | before, [], skip, _ => by
    have hnot : test before [] = false := Bool.eq_false_iff.2 fun h => by
      simpa using ht before [] h
    cases skip <;> simp [positions, hnot]
  | before, c :: text, skip + 1, hs => by
    -- inside of an occurrence, where none can start for want of its first character
    rw [List.take_succ_cons, List.mem_cons, not_or] at hs
    have hnot : test before (c :: text) = false := Bool.eq_false_iff.2 fun h => by
      have hp := ht before (c :: text) h
      rw [List.isPrefixOf, Bool.and_eq_true, beq_iff_eq] at hp
      exact hs.1 hp.1
    have ih := positions_le_occurrencesFrom hf ht (some c) text skip hs.2
    rw [positions, occurrencesFrom, hnot]
    simpa using ih
  | before, c :: text, 0, _ => by
    rw [positions, occurrencesFrom]
    by_cases hp : (first :: rest).isPrefixOf (c :: text) = true
    · have hrest : first ∉ text.take ((first :: rest).length - 1) := by
        rw [List.isPrefixOf, Bool.and_eq_true] at hp
        rw [List.length_cons, Nat.add_sub_cancel,
          ← List.prefix_iff_eq_take.1 (List.isPrefixOf_iff_prefix.1 hp.2)]
        exact hf
      have ih := positions_le_occurrencesFrom hf ht (some c) text _ hrest
      have hle : (test before (c :: text)).toNat ≤ 1 := Bool.toNat_le _
      rw [if_pos hp]
      omega
    · have hnot : test before (c :: text) = false := Bool.eq_false_iff.2 fun h => hp (ht _ _ h)
      have ih := positions_le_occurrencesFrom hf ht (some c) text 0 (by simp)
      rw [if_neg hp, hnot]
      simpa using ih

theorem contains_iff_infix {word : List Char} : ∀ {text : List Char},
    contains word text = true ↔ word <:+: text
  | [] => by simp [contains]
  | c :: text => by
    rw [contains, Bool.or_eq_true, List.isPrefixOf_iff_prefix, contains_iff_infix,
      List.infix_cons_iff]

/-- A stretch without the separator lies on one side of it. -/
theorem infix_append_cons_iff {x : Char} {w : List Char} (hx : x ∉ w) {b : List Char} :
    ∀ a : List Char, w <:+: a ++ x :: b ↔ w <:+: a ∨ w <:+: b
  | [] => by
    rw [List.nil_append, List.infix_cons_iff, List.infix_nil]
    refine or_congr ⟨fun h => ?_, fun h => h ▸ List.nil_prefix⟩ Iff.rfl
    rcases w with _ | ⟨y, w⟩
    · rfl
    · rw [(List.cons_prefix_cons.1 h).1] at hx
      exact absurd List.mem_cons_self hx
  | c :: a => by
    have hp : w <+: c :: a ++ x :: b ↔ w <+: c :: a := by
      refine ⟨fun h => ?_, fun h => h.trans (List.prefix_append _ _)⟩
      rcases List.prefix_or_prefix_of_prefix h (List.prefix_append _ _) with h' | ⟨rest, rfl⟩
      · exact h'
      · rcases rest with _ | ⟨y, rest⟩
        · simp
        · have hy := (List.cons_prefix_cons.1 ((List.prefix_append_right_inj _).1 h)).1
          simp [hy] at hx
    rw [List.cons_append, List.infix_cons_iff, ← List.cons_append, hp, infix_append_cons_iff hx a,
      List.infix_cons_iff, or_assoc]

/-- The first occurrence of a word ends no later than any other. -/
theorem after?_append (word rest : List Char) : ∀ before : List Char,
    ∃ found, after? word (before ++ word ++ rest) = some found ∧ rest <:+ found
  | [] => by
    cases word with
    | nil => cases rest <;> exact ⟨_, rfl, List.suffix_rfl⟩
    | cons w word =>
      refine ⟨rest, ?_, List.suffix_rfl⟩
      have hp : (w :: word).isPrefixOf (w :: (word ++ rest)) = true :=
        List.isPrefixOf_iff_prefix.2 ⟨rest, rfl⟩
      rw [List.nil_append, List.cons_append, after?, if_pos hp]
      simp
  | c :: before => by
    rw [List.cons_append, List.cons_append, after?]
    by_cases hp : word.isPrefixOf (c :: (before ++ word ++ rest)) = true
    · refine ⟨_, if_pos hp, ?_⟩
      have hs : rest <:+ c :: (before ++ word ++ rest) := ⟨c :: (before ++ word), rfl⟩
      refine List.suffix_of_suffix_length_le hs (List.drop_suffix _ _) ?_
      simp only [List.length_drop, List.length_cons, List.length_append]
      omega
    · rw [if_neg hp]
      exact after?_append word rest before

theorem append_of_after? {word rest : List Char} : ∀ {text : List Char},
    after? word text = some rest → ∃ before, text = before ++ word ++ rest
  | [], h => by
    rw [after?] at h
    split_ifs at h with he
    obtain rfl := List.isEmpty_iff.1 he
    cases h
    exact ⟨[], rfl⟩
  | c :: text, h => by
    rw [after?] at h
    split_ifs at h with hp
    · cases h
      obtain ⟨tail, ht⟩ := List.isPrefixOf_iff_prefix.1 hp
      refine ⟨[], ?_⟩
      rw [← ht]
      simp
    · obtain ⟨before, rfl⟩ := append_of_after? h
      exact ⟨c :: before, rfl⟩

end Text

theorem Growth.label_injective : ∀ {g h : Growth}, g.label = h.label → g = h := by
  intro g h
  cases g <;> cases h <;> simp [label]

namespace Evidence

open Text

theorem closedBy_iff {mark text : List Char} :
    closedBy mark text = true ↔
      ∃ before inside rest, text = before ++ mark ++ inside ++ mark ++ rest := by
  rw [closedBy, Option.any_eq_true]
  constructor
  · rintro ⟨found, hf, hc⟩
    obtain ⟨before, rfl⟩ := append_of_after? hf
    obtain ⟨inside, rest, rfl⟩ := contains_iff_infix.1 hc
    exact ⟨before, inside, rest, by simp only [List.append_assoc]⟩
  · rintro ⟨before, inside, rest, rfl⟩
    obtain ⟨found, hf, hs⟩ := after?_append mark (inside ++ mark ++ rest) before
    refine ⟨found, ?_, contains_iff_infix.2 (.trans ⟨inside, rest, rfl⟩ hs.isInfix)⟩
    rw [← hf]
    simp only [List.append_assoc]

theorem contains_of_closedBy {mark text : List Char} (h : closedBy mark text = true) :
    contains mark text = true := by
  obtain ⟨before, inside, rest, rfl⟩ := closedBy_iff.1 h
  exact contains_iff_infix.2 ⟨before ++ mark ++ inside, rest, rfl⟩

section OfText

variable (text : List Char)

/-- Every `for` that stands as a word is one by its characters. -/
theorem forLoops_ofText_le : (ofText text).forLoops ≤ occurrences "for".toList text :=
  @positions_le_occurrencesFrom 'f' ['o', 'r'] (by decide) (boundedHere (exactly "for"))
    (fun _ _ ht => @isPrefixOf_of_boundedHere "for" _ _ ht) none text 0 (by simp)

/-- Two loops by the word are two by its characters. -/
theorem nested_ofText (h : 1 < (ofText text).forLoops) : (ofText text).nested = true := by
  show decide (2 ≤ occurrences "for".toList text) = true
  rw [decide_eq_true_eq]
  exact Nat.le_trans h (forLoops_ofText_le text)

/-- A docstring has the mark of a comment. -/
theorem comments_ofText (h : (ofText text).docstrings = true) :
    (ofText text).comments = true := by
  have hd : (closedBy ['"', '"', '"'] text || closedBy ['\'', '\'', '\''] text) = true := h
  show (commentMarks.any fun mark => contains mark text) = true
  rw [List.any_eq_true]
  rcases Bool.or_eq_true_iff.1 hd with hd | hd
  · exact ⟨_, by simp [commentMarks], contains_of_closedBy hd⟩
  · exact ⟨_, by simp [commentMarks], contains_of_closedBy hd⟩

theorem documented_ofText : (ofText text).documented = (ofText text).comments := by
  rw [documented]
  cases hd : (ofText text).docstrings with
  | false => rw [Bool.or_false]
  | true => rw [comments_ofText text hd, Bool.or_true]

end OfText

section Cost

variable {e : Evidence}

theorem time_cost : e.cost.time ∈ [Growth.constant, .linear, .quadratic, .exponential] := by
  unfold cost
  split_ifs <;> simp

theorem space_cost : e.cost.space ∈ [Growth.constant, .linear] := by
  unfold cost Growth.linearWhen
  split_ifs <;> simp

theorem time_cost_eq_exponential_iff :
    e.cost.time = .exponential ↔ e.recursion = true ∧ e.fastSearch = false := by
  rw [← Bool.not_eq_true', ← Bool.and_eq_true]
  unfold cost
  split_ifs with h <;> simp [h]

theorem space_cost_of_exponential (h : e.cost.time = .exponential) : e.cost.space = .linear := by
  unfold cost at h ⊢
  split_ifs at h ⊢
  simp_all

theorem nested_of_quadratic (h : e.cost.time = .quadratic) : e.nested = true := by
  unfold cost at h
  split_ifs at h with h1 h2
  exact h2

end Cost

end Evidence

end Appraisal
