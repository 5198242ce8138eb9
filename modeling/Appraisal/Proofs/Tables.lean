import Appraisal.Leaderboard
import Appraisal.Proofs.Markdown
import Mathlib.Algebra.BigOperators.Group.List.Basic

/-!
# Rows and cells of tables

Texts stand in the tables of Markdown as they are. The leaderboard and the metrics of an assessment
are tables, with one row an entry and one cell a text, exactly if every text in them is solid: it
stands on one line, and all its bars are escaped (`tables_iff_solid`).
-/

namespace Appraisal

namespace Text

/-- The pieces of a text between bars, where the first character may be escaped. A backslash that is
not escaped escapes the next character, and escaped bars part nothing. -/
def pieces : Bool → List Char → List (List Char)
  | _, [] => [[]]
  | escaped, c :: text =>
    if c = '|' ∧ escaped = false then [] :: pieces false text
    else (pieces (c = '\\' ∧ escaped = false) text).modifyHead (c :: ·)

/-- Whether a line is a row of so many cells, with a bar before each and one after the last. -/
def IsRow (columns : Nat) (line : List Char) : Prop :=
  ∃ cells, cells.length = columns ∧ pieces false line = [] :: (cells ++ [[]])

/-- Whether a text stands on one line and all its bars are escaped. -/
structure Solid (text : String) : Prop where
  line : IsLine text
  whole : pieces false text.toList = [text.toList]

/-- The row of these texts, with a blank on either side of each. -/
def row (texts : List String) : String :=
  "|" ++ String.join (texts.map fun text => " " ++ text ++ " |")

instance : DecidablePred Solid := fun text =>
  decidable_of_iff (IsLine text ∧ pieces false text.toList = [text.toList])
    ⟨fun h => ⟨h.1, h.2⟩, fun h => ⟨h.line, h.whole⟩⟩

section Pieces

variable {escaped : Bool} {text rest : List Char} {texts : List String}

theorem pieces_ne_nil (escaped : Bool) (text : List Char) : pieces escaped text ≠ [] := by
  cases text with
  | nil => exact List.cons_ne_nil _ _
  | cons c text =>
    rw [pieces]
    split
    · exact List.cons_ne_nil _ _
    · rw [ne_eq, List.modifyHead_eq_nil_iff]
      exact pieces_ne_nil _ text

theorem length_pieces_pos (escaped : Bool) (text : List Char) : 1 ≤ (pieces escaped text).length :=
  List.length_pos_iff.2 (pieces_ne_nil escaped text)

/-- A bar after a blank is not escaped, whatever stands before the blank. -/
theorem pieces_append_bar (rest : List Char) : ∀ (text : List Char) (escaped : Bool),
    pieces escaped (text ++ ' ' :: '|' :: rest) =
      pieces escaped (text ++ [' ']) ++ pieces false rest
  | [], escaped => by simp [pieces]
  | c :: text, escaped => by
    rw [List.cons_append, List.cons_append, pieces, pieces]
    split
    · rw [pieces_append_bar rest text, List.cons_append]
    · rw [pieces_append_bar rest text]
      obtain ⟨piece, others, hp⟩ := List.exists_cons_of_ne_nil
        (pieces_ne_nil (c = '\\' ∧ escaped = false) (text ++ [' ']))
      rw [hp]
      rfl

theorem length_pieces_blank : ∀ (text : List Char) (escaped : Bool),
    (pieces escaped (text ++ [' '])).length = (pieces escaped text).length
  | [], escaped => by simp [pieces]
  | c :: text, escaped => by
    rw [List.cons_append, pieces, pieces]
    split <;> simp [length_pieces_blank text]

theorem pieces_of_length (text : List Char) (escaped : Bool)
    (h : (pieces escaped text).length = 1) : pieces escaped text = [text] := by
  induction text generalizing escaped with
  | nil => rfl
  | cons c text ih =>
    rw [pieces] at h ⊢
    split at h
    · next hc =>
      have hpos := length_pieces_pos false text
      rw [List.length_cons] at h
      omega
    · next hc =>
      rw [List.length_modifyHead] at h
      rw [if_neg hc, ih _ h]
      rfl

theorem pieces_of_notMem (h : '|' ∉ text) (escaped : Bool) : pieces escaped text = [text] := by
  induction text generalizing escaped with
  | nil => rfl
  | cons c text ih =>
    rw [List.mem_cons, not_or] at h
    rw [pieces, if_neg fun hc => h.1 hc.1.symm, ih h.2]
    rfl

theorem pieces_join (texts : List String) :
    pieces false (String.join (texts.map fun text => " " ++ text ++ " |")).toList =
      texts.flatMap (fun text => pieces false (' ' :: text.toList ++ [' '])) ++ [[]] := by
  induction texts with
  | nil => rfl
  | cons text texts ih =>
    have hbar : (" " ++ text ++ " |" ++
        String.join (texts.map fun text => " " ++ text ++ " |")).toList =
        (' ' :: text.toList) ++ ' ' :: '|' ::
          (String.join (texts.map fun text => " " ++ text ++ " |")).toList := by
      simp
    rw [List.map_cons, String.join_cons, hbar, pieces_append_bar, ih, List.flatMap_cons,
      List.append_assoc]

/-- Parts of at least one piece each are as many as their pieces only if each is one piece. -/
theorem length_flatMap_eq_iff {α β : Type} {f : α → List β} (h : ∀ x, 1 ≤ (f x).length) :
    ∀ xs : List α, (xs.flatMap f).length = xs.length ↔ ∀ x ∈ xs, (f x).length = 1
  | [] => by simp
  | x :: xs => by
    have hone := h x
    have hrest : xs.length ≤ (xs.flatMap f).length := by
      have hsum := List.length_le_sum_of_one_le (xs.map fun x => (f x).length)
        (List.forall_mem_map.2 fun x _ => h x)
      rwa [List.length_map, ← List.length_flatMap] at hsum
    rw [List.flatMap_cons, List.length_append, List.length_cons, List.forall_mem_cons,
      ← length_flatMap_eq_iff h xs]
    omega

theorem length_padded (text : List Char) :
    (pieces false (' ' :: text ++ [' '])).length = (pieces false text).length := by
  simp [pieces, length_pieces_blank]

/-- A row has one cell for each text and one more for each bar that is not escaped. -/
theorem isRow_row_iff : IsRow texts.length (row texts).toList ↔
    ∀ text ∈ texts, pieces false text.toList = [text.toList] := by
  have hrow : pieces false (row texts).toList =
      [] :: (texts.flatMap (fun text => pieces false (' ' :: text.toList ++ [' '])) ++ [[]]) := by
    rw [row, String.toList_append, ← pieces_join]
    rfl
  have hcells : ∀ text : String, 1 ≤ (pieces false (' ' :: text.toList ++ [' '])).length :=
    fun text => length_pieces_pos false _
  simp only [IsRow, hrow, List.cons.injEq, true_and, List.append_left_inj, exists_eq_right']
  rw [length_flatMap_eq_iff hcells]
  refine forall₂_congr fun text _ => ?_
  rw [length_padded]
  exact ⟨pieces_of_length _ _, fun h => by rw [h]; rfl⟩

end Pieces

section Lines

variable {text : String} {texts : List String}

theorem isLine_of_mem_lines {other : List Char} (h : text.toList ∈ lines other) : IsLine text := by
  rintro c hc rfl
  exact separator_notMem_of_mem_split h hc

theorem lines_of_isLine (h : IsLine text) : lines text.toList = [text.toList] :=
  split_of_notMem fun hfeed => h '\n' hfeed rfl

theorem lines_ofLines (texts : List String) :
    lines (ofLines texts).toList = texts.flatMap (fun text => lines text.toList) ++ [[]] := by
  induction texts with
  | nil => rfl
  | cons text texts ih =>
    have hfeed : (ofLines (text :: texts)).toList =
        text.toList ++ '\n' :: (ofLines texts).toList := by
      rw [ofLines_cons, String.toList_append, String.toList_append]
      rfl
    rw [hfeed, lines, split_append_cons, ← lines, ← lines, ih, List.flatMap_cons,
      List.append_assoc]

theorem flatMap_lines (h : ∀ text ∈ texts, IsLine text) :
    texts.flatMap (fun text => lines text.toList) = texts.map String.toList := by
  rw [List.flatMap_congr fun text ht => lines_of_isLine (h text ht), ← List.map_eq_flatMap]

/-- A text made of lines has those lines, and an empty piece at its end, only if each is one. -/
theorem lines_ofLines_eq_iff : lines (ofLines texts).toList = texts.map String.toList ++ [[]] ↔
    ∀ text ∈ texts, IsLine text := by
  constructor
  · intro hlines text ht
    have hmem : text.toList ∈ lines (ofLines texts).toList := by
      rw [hlines]
      exact List.mem_append_left _ (List.mem_map_of_mem ht)
    exact isLine_of_mem_lines hmem
  · intro hlines
    rw [lines_ofLines, flatMap_lines hlines]

theorem isLine_row : IsLine (row texts) ↔ ∀ text ∈ texts, IsLine text := by
  rw [row, isLine_append_iff]
  induction texts with
  | nil => simp +decide
  | cons text texts ih =>
    rw [List.map_cons, String.join_cons, List.forall_mem_cons, ← ih]
    simp +decide only [isLine_append_iff, true_and, and_true]

/-- Rows of solid texts, and no others, stand on one line and have one cell for each text. -/
theorem row_iff_solid : (IsLine (row texts) ∧ IsRow texts.length (row texts).toList) ↔
    ∀ text ∈ texts, Solid text := by
  rw [isLine_row, isRow_row_iff]
  exact ⟨fun h text ht => ⟨h.1 text ht, h.2 text ht⟩,
    fun h => ⟨fun text ht => (h text ht).line, fun text ht => (h text ht).whole⟩⟩

theorem solid_of_notMem (hl : IsLine text) (hb : '|' ∉ text.toList) : Solid text :=
  ⟨hl, pieces_of_notMem hb false⟩

theorem solid_toString (n : Nat) : Solid (toString n) :=
  solid_of_notMem (isLine_toString n) (notMem_toString (by decide) n)

theorem solid_toString_int : ∀ n : Int, Solid (toString n)
  | .ofNat n => solid_toString n
  | .negSucc n => by
    have hsign : toString (Int.negSucc n) = "-" ++ toString (n + 1) := rfl
    rw [hsign]
    refine solid_of_notMem (isLine_append_iff.2 ⟨by decide, isLine_toString _⟩) ?_
    rw [String.toList_append, List.mem_append, not_or]
    exact ⟨by decide, notMem_toString (by decide) _⟩

theorem solid_label {α : Type} [Rating α]
    (h : ∀ grade ∈ (Rating.grades : List α), IsLine (Rating.label grade) ∧
      '|' ∉ (Rating.label grade).toList) (grade : α) : Solid (Rating.label grade) :=
  solid_of_notMem (h grade (Rating.mem_grades grade)).1 (h grade (Rating.mem_grades grade)).2

end Lines

end Text

namespace Leaderboard

open Text (Solid)

/-- The texts of an entry that stand in its row. -/
def texts (entry : RankedAnalysis) : List String :=
  [entry.analysis.title, author entry, entry.analysis.language, entry.analysis.targetCompany]

/-- The lines above the rows of a leaderboard. -/
def headings : List String :=
  ["# CodeMeter Leaderboard", "", "| Rank | Score | Title | User | Language | Company |",
    "| --- | --- | --- | --- | --- | --- |"]

/-- Whether the rendering of entries is the headings and then the row of each entry in its order,
of six cells each. -/
def Tabular (entries : List RankedAnalysis) : Prop :=
  Text.lines (render entries .markdown).toList =
      (headings ++ (entries.zipIdx 1).map markdownRow).map String.toList ++ [[]] ∧
    ∀ ranked ∈ entries.zipIdx 1, Text.IsRow 6 (markdownRow ranked).toList

/-- The texts of a row: the rank, the score, and the texts of the entry. -/
def cells (ranked : RankedAnalysis × Nat) : List String :=
  toString ranked.2 :: toString ranked.1.analysis.overallScore.toInt :: texts ranked.1

variable {entries : List RankedAnalysis}

theorem row_cells (ranked : RankedAnalysis × Nat) :
    markdownRow ranked = Text.row (cells ranked) := by
  obtain ⟨entry, rank⟩ := ranked
  have hopen : "| " = "|" ++ " " := by decide
  have hnext : " | " = " |" ++ " " := by decide
  -- the pattern in the definition makes its equation slow to state
  delta markdownRow
  simp only [cells, texts, Text.row, List.map_cons, List.map_nil, String.join_cons,
    String.join_nil, String.append_assoc, String.append_empty, hopen, hnext]

theorem solid_cells_iff {ranked : RankedAnalysis × Nat} :
    (∀ text ∈ cells ranked, Solid text) ↔ ∀ text ∈ texts ranked.1, Solid text := by
  rw [cells, List.forall_mem_cons, List.forall_mem_cons]
  exact (and_iff_right (Text.solid_toString _)).trans (and_iff_right (Text.solid_toString_int _))

theorem render_of_ne_nil (h : entries ≠ []) : render entries .markdown =
    Text.ofLines (headings ++ (entries.zipIdx 1).map markdownRow) := by
  rw [render, markdownLines, List.isEmpty_eq_false_iff.2 h]
  rfl

theorem tabular_iff (h : entries ≠ []) :
    Tabular entries ↔ ∀ entry ∈ entries, ∀ text ∈ texts entry, Solid text := by
  have hentries : (∀ entry ∈ entries, ∀ text ∈ texts entry, Solid text) ↔
      ∀ ranked ∈ entries.zipIdx 1, Text.IsLine (markdownRow ranked) ∧
        Text.IsRow 6 (markdownRow ranked).toList := by
    conv_lhs => rw [← List.zipIdx_map_fst 1 entries]
    rw [List.forall_mem_map]
    refine forall₂_congr fun ranked _ => ?_
    rw [row_cells, ← solid_cells_iff]
    exact Text.row_iff_solid.symm
  rw [hentries, Tabular, render_of_ne_nil h, Text.lines_ofLines_eq_iff, List.forall_mem_append,
    List.forall_mem_map]
  exact ⟨fun ⟨⟨_, hlines⟩, hrows⟩ ranked hr => ⟨hlines ranked hr, hrows ranked hr⟩,
    fun h => ⟨⟨by decide, fun ranked hr => (h ranked hr).1⟩, fun ranked hr => (h ranked hr).2⟩⟩

end Leaderboard

namespace Assessment

open Text (Solid)

/-- The lines of the table of metrics, with the empty lines around it. -/
def metricTable (report : Report) : List String :=
  ["", "| Metric | Value |", "| --- | --- |"] ++ (metrics report).map metricRow ++ [""]

/-- Whether there is a table in the rendering of an assessment, of a row of two cells for each of
the six metrics. -/
def Tabular (assessment : Assessment) : Prop :=
  (∃ before after, Text.lines (assessment.render .markdown).toList =
      before ++ (metricTable assessment.report).map String.toList ++ after) ∧
    ∀ metric ∈ metrics assessment.report, Text.IsRow 2 (metricRow metric).toList

theorem row_metric (metric : String × String) :
    metricRow metric = Text.row [metric.1, metric.2] := by
  have hopen : "| " = "|" ++ " " := by decide
  have hnext : " | " = " |" ++ " " := by decide
  simp only [metricRow, Text.row, List.map_cons, List.map_nil, String.join_cons, String.join_nil,
    String.append_assoc, String.append_empty, hopen, hnext]

theorem solid_metrics_iff {report : Report} :
    (∀ metric ∈ metrics report, ∀ text ∈ [metric.1, metric.2], Solid text) ↔
      Solid report.timeComplexity ∧ Solid report.spaceComplexity := by
  have hnames : ∀ metric ∈ metrics report, Solid metric.1 := by
    have hall : ∀ name ∈ ["Time complexity", "Space complexity", "Language performance",
        "Data structures", "Code modularity", "Redundant logic"], Solid name := by decide
    exact fun metric hm => hall _ (List.mem_map_of_mem hm)
  have hlanguage := Text.solid_label (by decide) report.languagePerformance
  have hstructures := Text.solid_label (by decide) report.dataStructures
  have hmodularity := Text.solid_label (by decide) report.modularity
  have hredundant := Text.solid_toString report.redundantLogic.toNat
  have hvalues : (∀ metric ∈ metrics report, Solid metric.2) ↔
      Solid report.timeComplexity ∧ Solid report.spaceComplexity := by
    simp only [metrics, List.forall_mem_cons, hlanguage, hstructures, hmodularity, hredundant,
      List.not_mem_nil, false_imp_iff, implies_true, and_true]
  rw [← hvalues]
  refine forall₂_congr fun metric hm => ?_
  rw [List.forall_mem_cons, List.forall_mem_singleton]
  exact and_iff_right (hnames metric hm)

theorem exists_markdownLines (assessment : Assessment) : ∃ before after,
    assessment.markdownLines = before ++ metricTable assessment.report ++ after :=
  ⟨assessment.markdownLines.take 9, assessment.markdownLines.drop 19, rfl⟩

theorem tabular_iff {assessment : Assessment} : assessment.Tabular ↔
    Solid assessment.report.timeComplexity ∧ Solid assessment.report.spaceComplexity := by
  have hrows : (∀ metric ∈ metrics assessment.report, ∀ text ∈ [metric.1, metric.2], Solid text) ↔
      ∀ metric ∈ metrics assessment.report, Text.IsLine (metricRow metric) ∧
        Text.IsRow 2 (metricRow metric).toList := by
    refine forall₂_congr fun metric _ => ?_
    rw [row_metric]
    exact Text.row_iff_solid.symm
  rw [← solid_metrics_iff, hrows]
  constructor
  · rintro ⟨⟨before, after, hlines⟩, hcells⟩ metric hm
    have hrow : metricRow metric ∈ metricTable assessment.report :=
      List.mem_append_left _ (List.mem_append_right _ (List.mem_map_of_mem hm))
    have hmem : (metricRow metric).toList ∈ Text.lines (assessment.render .markdown).toList := by
      rw [hlines]
      exact List.mem_append_left _ (List.mem_append_right _ (List.mem_map_of_mem hrow))
    exact ⟨Text.isLine_of_mem_lines hmem, hcells metric hm⟩
  · intro h
    obtain ⟨before, after, hlines⟩ := exists_markdownLines assessment
    have htable : ∀ line ∈ metricTable assessment.report, Text.IsLine line := by
      simp only [metricTable, List.forall_mem_append, List.forall_mem_map]
      exact ⟨⟨by decide, fun metric hm => (h metric hm).1⟩, by decide⟩
    have hrender : Text.lines (assessment.render .markdown).toList =
        before.flatMap (fun line => Text.lines line.toList) ++
          (metricTable assessment.report).map String.toList ++
          (after.flatMap (fun line => Text.lines line.toList) ++ [[]]) := by
      rw [render, hlines, Text.lines_ofLines, List.flatMap_append, List.flatMap_append,
        Text.flatMap_lines htable, List.append_assoc]
    exact ⟨⟨_, _, hrender⟩, fun metric hm => (h metric hm).2⟩

end Assessment

open Text (Solid)

/-- The leaderboard is a table of one row an entry exactly if every text of the entries is solid,
and an assessment has its table of metrics exactly if both its complexities are. -/
theorem tables_iff_solid {entries : List RankedAnalysis} (h : entries ≠ [])
    (assessment : Assessment) :
    (Leaderboard.Tabular entries ↔
      ∀ entry ∈ entries, ∀ text ∈ Leaderboard.texts entry, Solid text) ∧
    (assessment.Tabular ↔
      Solid assessment.report.timeComplexity ∧ Solid assessment.report.spaceComplexity) :=
  ⟨Leaderboard.tabular_iff h, Assessment.tabular_iff⟩

/-- An assessment of this time complexity. -/
def Assessment.measured (time : String) : Assessment :=
  ⟨"a.py", .python, "google", .ai, ⟨90, time, "O(1)", .high, .good, 0, .fair, .meetsRequirements,
    [], [], [], "b", ⟨"c", "d", "e", "f"⟩⟩⟩

/-- An entry of this title. -/
def Leaderboard.listed (title : String) : RankedAnalysis :=
  ⟨⟨"1", title, "python", "google", 90, (Assessment.measured "O(1)").report, "now"⟩, none⟩

/-- Escaped bars do no harm. -/
theorem tables_iff_solid_escaped :
    Leaderboard.Tabular [Leaderboard.listed "a \\| b", Leaderboard.listed "c\\"] ∧
      (Assessment.measured "O(\\|V\\|)").Tabular := by
  obtain ⟨hboard, hmetrics⟩ := tables_iff_solid
    (List.cons_ne_nil (Leaderboard.listed "a \\| b") [Leaderboard.listed "c\\"])
    (Assessment.measured "O(\\|V\\|)")
  exact ⟨hboard.2 (by decide), hmetrics.2 (by decide)⟩

/-- Bars and line feeds in a title break the leaderboard, and a complexity that is told in bars
breaks the table of metrics. -/
theorem not_tabular :
    ¬ Leaderboard.Tabular [Leaderboard.listed "a|b"] ∧
      ¬ Leaderboard.Tabular [Leaderboard.listed "a\nb"] ∧
      ¬ (Assessment.measured "O(|V|+|E|)").Tabular := by
  rw [Leaderboard.tabular_iff (List.cons_ne_nil _ _),
    Leaderboard.tabular_iff (List.cons_ne_nil _ _), Assessment.tabular_iff]
  decide

end Appraisal
