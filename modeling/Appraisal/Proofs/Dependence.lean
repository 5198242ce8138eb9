import Appraisal.Proofs.Coherence

/-!
# What the company and the language decide

The marks of a text and its cost are found without looking at the company or the language. The
company enters a report through the score alone, and the score reaches the prose in the verdict and
where generic weaknesses are asked for. The language enters through the speed of its programs and,
if it is Python, through the sentence on docstrings. So of two reports on one text the parts that
can differ are few (`apart_heuristic`).
-/

namespace Appraisal

/-- Whether a text has a docstring: a mark, anything, and the same mark again. -/
def Text.HasDocstring (text : List Char) : Prop :=
  ∃ mark ∈ [['"', '"', '"'], ['\'', '\'', '\'']], ∃ before inside rest,
    text = before ++ mark ++ inside ++ mark ++ rest

theorem Evidence.docstrings_ofText_iff {text : List Char} :
    (ofText text).docstrings = true ↔ Text.HasDocstring text := by
  show (closedBy ['"', '"', '"'] text || closedBy ['\'', '\'', '\''] text) = true ↔ _
  rw [Bool.or_eq_true, closedBy_iff, closedBy_iff]
  simp [Text.HasDocstring]

/-- Two reports differ in nothing but what the company may decide: the score and its band, the
explanation, and the weaknesses if just one of them has generic ones. -/
structure Report.CompanyApart (r s : Report) : Prop where
  alike : s = { r with
    overallScore := s.overallScore
    benchmark := s.benchmark
    explanation := s.explanation
    weaknesses := s.weaknesses }
  weaknesses : r.weaknesses ≠ s.weaknesses →
    r.overallScore < 80 ∧ 80 ≤ s.overallScore ∧
        r.weaknesses = genericWeaknesses ∧ s.weaknesses = [] ∨
      s.overallScore < 80 ∧ 80 ≤ r.overallScore ∧
        s.weaknesses = genericWeaknesses ∧ r.weaknesses = []

/-- Two reports differ in nothing but what the languages of one text may decide: the speed of
programs, and the best practices if the text has a docstring and just one language is Python. -/
structure Report.LanguageApart (text : String) (language other : Language) (r s : Report) :
    Prop where
  alike : s = { r with
    languagePerformance := s.languagePerformance
    feedback := { r.feedback with bestPractices := s.feedback.bestPractices } }
  bestPractices : r.feedback.bestPractices ≠ s.feedback.bestPractices ↔
    ¬ (language = .python ↔ other = .python) ∧ Text.HasDocstring text.toList

namespace Findings

/-- The findings agree on all that is found in a text. -/
structure Alike (f g : Findings) : Prop where
  evidence : f.evidence = g.evidence
  cost : f.cost = g.cost

variable {f g : Findings}

/-- No remark looks at the score or the language. -/
theorem Alike.applies (h : f.Alike g) :
    ∀ remark ∈ Remark.suggestions ++ Remark.strengths ++ Remark.weaknesses,
      remark.applies f = remark.applies g := by
  simp [Remark.suggestions, Remark.strengths, Remark.weaknesses, unguarded, uncommented,
    monolithic, linearTime, quadraticScan, h.evidence, h.cost]

theorem Alike.messages (h : f.Alike g) {table : List Remark}
    (ht : table ⊆ Remark.suggestions ++ Remark.strengths ++ Remark.weaknesses) :
    Remark.messages table f = Remark.messages table g := by
  unfold Remark.messages
  rw [List.filter_congr fun remark hr => h.applies remark (ht hr)]

theorem Alike.suggestions (h : f.Alike g) : f.suggestions = g.suggestions := by
  unfold Findings.suggestions
  rw [h.messages (by simp)]

theorem Alike.strengths (h : f.Alike g) : f.strengths = g.strengths := by
  unfold Findings.strengths
  rw [h.messages (by simp)]

theorem Alike.feedback (h : f.Alike g) :
    g.feedback = { f.feedback with bestPractices := g.bestPractices } := by
  simp only [Findings.feedback, algorithmEfficiency, algorithmNote, codeReadability,
    performanceOptimization, memory, h.evidence, h.cost]

/-- Without remarks the score decides on the weaknesses, and with remarks it does not. -/
theorem Alike.weaknesses (h : f.Alike g) :
    f.weaknesses = g.weaknesses ∨
      f.weaknesses = (if f.score < 80 then genericWeaknesses else []) ∧
        g.weaknesses = (if g.score < 80 then genericWeaknesses else []) := by
  have hm : Remark.messages Remark.weaknesses f = Remark.messages Remark.weaknesses g :=
    h.messages (by simp)
  unfold Findings.weaknesses
  rw [hm]
  rcases Remark.messages Remark.weaknesses g with _ | ⟨message, rest⟩
  · have hcut : ∀ score : UInt8,
        (orElse [] (if score < faultlessScore then genericWeaknesses else [])).take
          weaknessLimit = if score < 80 then genericWeaknesses else [] := by
      intro score
      show List.take weaknessLimit (if score < 80 then genericWeaknesses else []) = _
      split_ifs <;> rfl
    exact .inr ⟨hcut f.score, hcut g.score⟩
  · exact .inl rfl

/-- The last sentence alone may differ. -/
theorem Alike.bestPractices_eq_iff (h : f.Alike g) :
    f.bestPractices = g.bestPractices ↔
      ((f.language = .python ↔ g.language = .python) ∨ f.evidence.docstrings = false) := by
  have hlast : ∀ {a b c x y : String}, paragraph [a, b, c, x] = paragraph [a, b, c, y] ↔ x = y := by
    simp [paragraph]
  unfold bestPractices
  rw [h.evidence, hlast]
  by_cases hf : f.language = .python <;> by_cases hg : g.language = .python <;>
    cases hd : g.evidence.docstrings <;> simp [choose, hf, hg]

variable {company other : String}

/-- With one language two reports differ in what the company decides. -/
theorem Alike.companyApart (h : f.Alike g) (hf : f.Grounded company) (hg : g.Grounded other)
    (hl : f.language = g.language) : (f.report company).CompanyApart (g.report other) where
  alike := by
    have hb : f.bestPractices = g.bestPractices := h.bestPractices_eq_iff.2 (.inl (by rw [hl]))
    have hp : f.feedback = g.feedback := by
      rw [h.feedback, ← hb]
      rfl
    simp only [report, prose, Evidence.grading, h.suggestions, h.strengths, h.evidence, h.cost, hl,
      hp]
  weaknesses hne := by
    rw [hf.overallScore_report, hg.overallScore_report]
    show f.score < 80 ∧ 80 ≤ g.score ∧ f.weaknesses = genericWeaknesses ∧ g.weaknesses = [] ∨
      g.score < 80 ∧ 80 ≤ f.score ∧ g.weaknesses = genericWeaknesses ∧ f.weaknesses = []
    have hne : f.weaknesses ≠ g.weaknesses := hne
    obtain he | ⟨hwf, hwg⟩ := h.weaknesses
    · exact absurd he hne
    · rw [hwf, hwg] at hne ⊢
      by_cases h1 : f.score < 80 <;> by_cases h2 : g.score < 80
      · simp [h1, h2] at hne
      · left
        simp [h1, UInt8.not_lt.1 h2, h2]
      · right
        simp [h1, UInt8.not_lt.1 h1, h2]
      · simp [h1, h2] at hne

/-- For one company two reports differ in what the language decides. -/
theorem Alike.languageApart {text : String} (h : f.Alike g) (hf : f.Grounded company)
    (hg : g.Grounded company)
    (hd : f.evidence.docstrings = true ↔ Text.HasDocstring text.toList) :
    (f.report company).LanguageApart text f.language g.language (g.report company) where
  alike := by
    have hs : f.score = g.score := by
      rw [hf.score, hg.score, h.evidence, h.cost]
      rfl
    have hw : f.weaknesses = g.weaknesses := by
      obtain he | ⟨hwf, hwg⟩ := h.weaknesses
      · exact he
      · rw [hwf, hwg, hs]
    have he : f.explanation = g.explanation := by
      simp only [explanation, verdict, h.evidence, h.cost, hs]
    simp only [report, prose, Evidence.grading, h.suggestions, h.strengths, h.evidence, h.cost, hw,
      he]
    rw [h.feedback]
  bestPractices := by
    show f.bestPractices ≠ g.bestPractices ↔ _
    rw [Ne, h.bestPractices_eq_iff, not_or, ← hd, Bool.not_eq_false]

end Findings

/-- Two reports on one text that differ in the company, or in the language, have all else in
common. -/
theorem Report.apart_heuristic (text : String) :
    (∀ language company other, (heuristic text language company).CompanyApart
      (heuristic text language other)) ∧
    ∀ company language other, (heuristic text language company).LanguageApart text language other
      (heuristic text other company) := by
  have hground := Findings.grounded_ofText text.toList
  have halike : ∀ language other company rival, (Findings.ofText text.toList language company).Alike
      (Findings.ofText text.toList other rival) := fun _ _ _ _ => ⟨rfl, rfl⟩
  constructor
  · intro language company other
    exact (halike language language company other).companyApart (hground language company)
      (hground language other) rfl
  · intro company language other
    exact (halike language other company company).languageApart (hground language company)
      (hground other company) Evidence.docstrings_ofText_iff

end Appraisal
