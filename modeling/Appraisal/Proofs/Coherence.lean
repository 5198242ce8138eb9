import Appraisal.Proofs.Marks
import Mathlib.Data.List.Nodup

/-!
# The parts of a report agree

A report of the rules is put together from gradings, growths, lists of remarks and sentences, each
of which looks at the marks of the text for itself. `Coherent` says how these parts hang together,
and every report of the rules is coherent (`coherent_heuristic`). A remark near the head of its
table is never cut off, so that it is listed exactly when it applies (`message_mem_iff`); the rest
is what the marks of one text imply (`Grounded`).
-/

namespace Appraisal

/-- Whether the parts of a report agree with each other. -/
structure Report.Coherent (report : Report) : Prop where
  time : report.timeComplexity ∈ ["O(1)", "O(n)", "O(n²)", "O(2^n)"]
  space : report.spaceComplexity ∈ ["O(1)", "O(n)"]
  exponential_space : report.timeComplexity = "O(2^n)" → report.spaceComplexity = "O(n)"
  exponential_structures : report.timeComplexity = "O(2^n)" → report.dataStructures ≠ .optimal
  exponential_weakness :
    "Exponential time complexity - consider dynamic programming or memoization" ∈
      report.weaknesses ↔ report.timeComplexity = "O(2^n)"
  lookup_strength :
    "Efficient use of hash maps/sets for optimal time complexity" ∈ report.strengths ↔
      report.dataStructures = .optimal
  functions_strength :
    "Good code organization with proper function decomposition" ∈ report.strengths ↔
      report.modularity = .excellent ∨ report.modularity = .good
  documented_strength :
    ("Good code organization with proper function decomposition" ∈ report.strengths ∧
      "Well-documented code with clear explanations" ∈ report.strengths) ↔
      report.modularity = .excellent
  redundant : report.redundantLogic ∈ [0, 2, 3]
  nested_suggestion :
    report.redundantLogic ≠ 0 ↔
      ("Optimize nested loops - consider using hash maps to reduce time complexity " ++
        "from O(n²) to O(n)") ∈ report.suggestions
  quadratic_weakness :
    report.redundantLogic = 3 →
      "Quadratic time complexity due to nested loops - can be optimized" ∈ report.weaknesses
  quadratic_redundant : report.timeComplexity = "O(n²)" → 2 ≤ report.redundantLogic
  benchmark : report.benchmark = .ofScore report.overallScore
  faultless : report.weaknesses = [] → 80 ≤ report.overallScore
  linear_strength :
    "Linear time complexity achieved for the problem" ∈ report.strengths →
      report.timeComplexity = "O(n)"
  explanation : ∃ rest, report.explanation =
    "Code analysis reveals " ++ report.timeComplexity ++ " time complexity and " ++
      report.spaceComplexity ++ " space complexity. Score: " ++
      toString report.overallScore.toNat ++ "/100." ++ rest

/-- Whether findings are those of a text for a company. -/
structure Findings.Grounded (f : Findings) (company : String) : Prop where
  cost : f.cost = f.evidence.cost
  score : f.score = (f.evidence.grading f.cost f.language company).overallScore
  nested : 1 < f.evidence.forLoops → f.evidence.nested = true
  documented : f.evidence.documented = f.evidence.comments

theorem Findings.grounded_ofText (code : List Char) (language : Language) (company : String) :
    (ofText code language company).Grounded company where
  cost := rfl
  score := rfl
  nested := Evidence.nested_ofText code
  documented := Evidence.documented_ofText code

section Remarks

namespace Remark

variable {remarks : List Remark} {remark : Remark} {f : Findings}

theorem mem_messages_iff {message : String} :
    message ∈ messages remarks f ↔
      ∃ remark ∈ remarks, remark.applies f = true ∧ remark.message = message := by
  simp [messages, and_assoc]

/-- A remark that has no more than the limit before it is not cut off. -/
theorem message_mem_take {limit : Nat} (hr : remark ∈ remarks.take limit)
    (ha : remark.applies f = true) : remark.message ∈ (messages remarks f).take limit := by
  have hsplit : messages remarks f =
      messages (remarks.take limit) f ++ messages (remarks.drop limit) f := by
    unfold messages
    rw [← List.map_append, ← List.filter_append, List.take_append_drop]
  have hlength : (messages (remarks.take limit) f).length ≤ limit := by
    unfold messages
    rw [List.length_map]
    exact Nat.le_trans (List.length_filter_le _ _) (List.length_take_le _ _)
  -- all messages of the head are kept, whatever follows them
  rw [hsplit, List.take_append, List.take_of_length_le hlength]
  exact List.mem_append_left _ (mem_messages_iff.2 ⟨remark, hr, ha, rfl⟩)

theorem applies_of_message_mem (hn : (remarks.map (·.message)).Nodup) (hr : remark ∈ remarks)
    (hm : remark.message ∈ messages remarks f) : remark.applies f = true := by
  obtain ⟨other, ho, ha, he⟩ := mem_messages_iff.1 hm
  rwa [List.inj_on_of_nodup_map hn ho hr he] at ha

theorem mem_of_mem_orElse {list generic : List String} {message : String}
    (hm : message ∈ orElse list generic) (hg : message ∉ generic) : message ∈ list := by
  unfold orElse at hm
  split_ifs at hm with he
  · exact absurd hm hg
  · exact hm

/-- A remark near the head of its table is listed exactly when it applies. -/
theorem message_mem_iff {generic : List String} {limit : Nat}
    (hn : (remarks.map (·.message)).Nodup) (hr : remark ∈ remarks.take limit)
    (hg : remark.message ∉ generic) :
    remark.message ∈ (orElse (messages remarks f) generic).take limit ↔
      remark.applies f = true := by
  constructor
  · intro hm
    exact applies_of_message_mem hn (List.mem_of_mem_take hr)
      (mem_of_mem_orElse (List.mem_of_mem_take hm) hg)
  · intro ha
    have hm := message_mem_take hr ha
    have hne : (messages remarks f).isEmpty = false := by
      rw [List.isEmpty_eq_false_iff]
      exact List.ne_nil_of_mem (List.mem_of_mem_take hm)
    rw [orElse, hne]
    exact hm

end Remark

namespace Findings

variable {f : Findings} {remark : Remark}

theorem mem_suggestions_iff (hr : remark ∈ Remark.suggestions.take suggestionLimit)
    (hg : remark.message ∉ genericSuggestions) :
    remark.message ∈ f.suggestions ↔ remark.applies f = true :=
  Remark.message_mem_iff (by decide) hr hg

theorem mem_strengths_iff (hr : remark ∈ Remark.strengths.take strengthLimit)
    (hg : remark.message ∉ genericStrengths) :
    remark.message ∈ f.strengths ↔ remark.applies f = true :=
  Remark.message_mem_iff (by decide) hr hg

theorem mem_weaknesses_iff (hr : remark ∈ Remark.weaknesses.take weaknessLimit)
    (hg : remark.message ∉ genericWeaknesses) :
    remark.message ∈ f.weaknesses ↔ remark.applies f = true := by
  refine Remark.message_mem_iff (by decide) hr ?_
  split_ifs
  · exact hg
  · exact List.not_mem_nil

/-- The last strength may be cut off, but it is listed only when it applies. -/
theorem linearTime_of_mem_strengths
    (hm : "Linear time complexity achieved for the problem" ∈ f.strengths) :
    f.linearTime = true := by
  have hlist : "Linear time complexity achieved for the problem" ∈
      Remark.messages Remark.strengths f :=
    Remark.mem_of_mem_orElse (List.mem_of_mem_take hm) (by decide)
  exact Remark.applies_of_message_mem (by decide)
    (List.mem_of_getElem? (l := Remark.strengths) (i := 5) rfl) hlist

theorem faultlessScore_le_of_weaknesses_eq_nil (h : f.weaknesses = []) :
    faultlessScore ≤ f.score := by
  refine UInt8.not_lt.1 fun hlt => ?_
  have hlist : orElse (Remark.messages Remark.weaknesses f) genericWeaknesses = [] := by
    unfold weaknesses at h
    rw [if_pos hlt] at h
    exact List.take_eq_nil_iff.1 h |>.resolve_left (by decide)
  unfold orElse at hlist
  split_ifs at hlist with he
  · exact absurd hlist (by decide)
  · exact he (List.isEmpty_iff.2 hlist)

theorem explanation_eq (f : Findings) : ∃ rest, f.explanation =
    "Code analysis reveals " ++ f.cost.time.label ++ " time complexity and " ++
      f.cost.space.label ++ " space complexity. Score: " ++ toString f.score.toNat ++ "/100." ++
      rest := by
  refine ⟨" " ++ paragraph [
    choose f.evidence.fastSearch "Excellent algorithmic approach with efficient data structures."
      "Algorithm could be optimized for better performance.",
    choose f.evidence.comments "Good documentation practices observed."
      "Documentation could be improved.",
    choose f.evidence.errorHandling "Proper error handling implemented."
      "Consider adding error handling for robustness."], ?_⟩
  have hjoin : " space complexity. Score: " = " space complexity." ++ " " ++ "Score: " := rfl
  simp only [explanation, verdict, paragraph, List.cons_append, List.nil_append,
    String.intercalate_cons_cons, hjoin, String.append_assoc]

end Findings

end Remarks

section Gradings

namespace Evidence

variable {e : Evidence}

theorem structures_eq_optimal_iff : e.structures = .optimal ↔ e.fastSearch = true := by
  unfold structures
  split_ifs <;> simp_all

theorem modularity_eq_excellent_iff :
    e.modularity = .excellent ↔ e.functions = true ∧ e.comments = true := by
  unfold modularity
  split_ifs <;> simp_all

theorem modularity_of_functions :
    e.modularity = .excellent ∨ e.modularity = .good ↔ e.functions = true := by
  unfold modularity
  split_ifs <;> simp_all

/-- Repeated scans are only counted on top of nested loops. -/
theorem redundancies_eq (h : 1 < e.forLoops → e.nested = true) :
    e.redundancies =
      if e.nested then (if e.fastSearch = false ∧ 1 < e.forLoops then 3 else 2) else 0 := by
  unfold redundancies
  cases hn : e.nested with
  | true => cases e.fastSearch <;> by_cases hl : 1 < e.forLoops <;> simp [hl]
  | false =>
    have hl : ¬ 1 < e.forLoops := fun hl => by simp [h hl] at hn
    simp [hl]

end Evidence

variable {f : Findings} {company : String}

theorem Findings.Grounded.redundancies_ne_zero_iff (h : f.Grounded company) :
    f.evidence.redundancies ≠ 0 ↔ f.evidence.nested = true := by
  rw [Evidence.redundancies_eq h.nested]
  split_ifs with hn <;> simp [hn]

theorem Findings.Grounded.quadraticScan_of_redundancies (h : f.Grounded company)
    (hr : f.evidence.redundancies = 3) : f.quadraticScan = true := by
  rw [Evidence.redundancies_eq h.nested] at hr
  split_ifs at hr with hn hs
  · simp [quadraticScan, hn, hs.1]
  · exact absurd hr (by decide)
  · exact absurd hr (by decide)

end Gradings

section Reports

variable {f : Findings} {company : String}

theorem Findings.timeComplexity_eq_iff {growth : Growth} :
    (f.report company).timeComplexity = growth.label ↔ f.cost.time = growth :=
  ⟨fun h => Growth.label_injective h, fun h => congrArg Growth.label h⟩

theorem Findings.Grounded.overallScore_report (h : f.Grounded company) :
    (f.report company).overallScore = f.score :=
  h.score.symm

/-- A report on findings that are those of a text is coherent. -/
theorem Findings.Grounded.coherent (h : f.Grounded company) : (f.report company).Coherent where
  time := by
    have ht : f.cost.time ∈ _ := h.cost ▸ Evidence.time_cost
    exact List.mem_map_of_mem (f := Growth.label) ht
  space := by
    have hs : f.cost.space ∈ _ := h.cost ▸ Evidence.space_cost
    exact List.mem_map_of_mem (f := Growth.label) hs
  exponential_space ht := by
    have ht : f.cost.time = .exponential := timeComplexity_eq_iff.1 ht
    have hs : f.cost.space = .linear := by
      rw [h.cost] at ht ⊢
      exact Evidence.space_cost_of_exponential ht
    exact congrArg Growth.label hs
  exponential_structures ht := by
    have ht : f.cost.time = .exponential := timeComplexity_eq_iff.1 ht
    rw [h.cost] at ht
    have hfast := (Evidence.time_cost_eq_exponential_iff.1 ht).2
    show f.evidence.structures ≠ .optimal
    rw [Ne, Evidence.structures_eq_optimal_iff, hfast]
    decide
  exponential_weakness := by
    have hm : "Exponential time complexity - consider dynamic programming or memoization" ∈
        f.weaknesses ↔ (f.cost.time == .exponential) = true :=
      mem_weaknesses_iff (List.mem_of_getElem? (i := 3) rfl) (by decide)
    rw [beq_iff_eq] at hm
    exact hm.trans timeComplexity_eq_iff.symm
  lookup_strength := by
    have hm : "Efficient use of hash maps/sets for optimal time complexity" ∈ f.strengths ↔
        f.evidence.fastSearch = true :=
      mem_strengths_iff (List.mem_of_getElem? (i := 0) rfl) (by decide)
    exact hm.trans Evidence.structures_eq_optimal_iff.symm
  functions_strength := by
    have hm : "Good code organization with proper function decomposition" ∈ f.strengths ↔
        f.evidence.functions = true :=
      mem_strengths_iff (List.mem_of_getElem? (i := 1) rfl) (by decide)
    exact hm.trans Evidence.modularity_of_functions.symm
  documented_strength := by
    have hf : "Good code organization with proper function decomposition" ∈ f.strengths ↔
        f.evidence.functions = true :=
      mem_strengths_iff (List.mem_of_getElem? (i := 1) rfl) (by decide)
    have hd : "Well-documented code with clear explanations" ∈ f.strengths ↔
        f.evidence.documented = true :=
      mem_strengths_iff (List.mem_of_getElem? (i := 2) rfl) (by decide)
    rw [h.documented] at hd
    exact (and_congr hf hd).trans Evidence.modularity_eq_excellent_iff.symm
  redundant := by
    show f.evidence.redundancies ∈ [0, 2, 3]
    rw [Evidence.redundancies_eq h.nested]
    split_ifs <;> decide
  nested_suggestion := by
    have hm : _ ∈ f.suggestions ↔ f.evidence.nested = true :=
      mem_suggestions_iff (List.mem_of_getElem? (i := 1) rfl) (by decide)
    exact h.redundancies_ne_zero_iff.trans hm.symm
  quadratic_weakness hr := by
    have hm : "Quadratic time complexity due to nested loops - can be optimized" ∈ f.weaknesses ↔
        f.quadraticScan = true :=
      mem_weaknesses_iff (List.mem_of_getElem? (i := 0) rfl) (by decide)
    exact hm.2 (h.quadraticScan_of_redundancies hr)
  quadratic_redundant ht := by
    have ht : f.cost.time = .quadratic := timeComplexity_eq_iff.1 ht
    rw [h.cost] at ht
    show 2 ≤ f.evidence.redundancies
    rw [Evidence.redundancies_eq h.nested, if_pos (Evidence.nested_of_quadratic ht)]
    split_ifs <;> decide
  benchmark := by
    -- both sides are named before they are compared, as the score must not be evaluated
    simp only [report, Evidence.grading]
  faultless hw := by
    rw [h.overallScore_report]
    exact faultlessScore_le_of_weaknesses_eq_nil hw
  linear_strength hm := by
    have hl := linearTime_of_mem_strengths hm
    rw [linearTime, Bool.and_eq_true, beq_iff_eq] at hl
    exact timeComplexity_eq_iff.2 hl.1
  explanation := by
    rw [h.overallScore_report]
    exact f.explanation_eq

/-- The parts of every report of the rules agree with each other. -/
theorem Report.coherent_heuristic (code : String) (language : Language) (company : String) :
    (Report.heuristic code language company).Coherent :=
  (Findings.grounded_ofText code.toList language company).coherent

end Reports

end Appraisal
