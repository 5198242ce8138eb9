import Appraisal.Proofs.Coherence
import Appraisal.Proofs.Numeral

/-!
# Where the prose contradicts the labels

The growth of a text is decided by the first case that applies, but its prose by the marks one by
one. `Candid` says that the prose keeps to the labels, and a report does so exactly when its text
names a fast search, or returns the value of no call and has a loop (`candid_heuristic_iff`).
-/

namespace Appraisal

/-- Whether a sentence stands somewhere in a text. -/
def Text.Appears (sentence text : String) : Prop := sentence.toList <:+: text.toList

def Report.texts (report : Report) : List String :=
  report.suggestions ++ report.strengths ++ report.weaknesses ++
    [report.timeComplexity, report.spaceComplexity, report.explanation,
      report.feedback.algorithmEfficiency, report.feedback.codeReadability,
      report.feedback.bestPractices, report.feedback.performanceOptimization]

def linearNote : String := "Linear approach is reasonable but could potentially be optimized."

def calmNote : String := "No obvious performance bottlenecks detected."

def quadraticNote : String := "Quadratic time complexity due to nested loops - can be optimized"

open Text (Appears)

/-- Whether the prose of a report keeps to its labels. -/
structure Report.Candid (report : Report) : Prop where
  linear : Appears linearNote report.feedback.algorithmEfficiency → report.timeComplexity = "O(n)"
  calm : report.timeComplexity = "O(2^n)" ∨ report.timeComplexity = "O(n²)" →
    ∀ text ∈ report.texts, ¬ Appears calmNote text
  quadratic : quadraticNote ∈ report.weaknesses → report.timeComplexity = "O(n²)"

section Paragraphs

namespace Text

theorem toList_paragraph_cons (part other : String) (parts : List String) :
    (paragraph (part :: other :: parts)).toList =
      part.toList ++ ' ' :: (paragraph (other :: parts)).toList := by
  simp [paragraph]

theorem appears_paragraph_iff {word : String} (hs : ' ' ∉ word.toList) (hw : word ≠ "") :
    ∀ parts : List String, Appears word (paragraph parts) ↔ ∃ part ∈ parts, Appears word part
  | [] => by simp [paragraph, Appears, hw]
  | [part] => by simp [paragraph]
  | part :: other :: parts => by
    have ih := appears_paragraph_iff hs hw (other :: parts)
    unfold Appears at ih ⊢
    rw [toList_paragraph_cons, infix_append_cons_iff hs, List.exists_mem_cons_iff, ih]

theorem appears_paragraph {part : String} : ∀ {parts : List String},
    part ∈ parts → Appears part (paragraph parts)
  | [other], h => by
    rw [List.mem_singleton.1 h]
    simp [Appears, paragraph]
  | first :: other :: parts, h => by
    unfold Appears
    rw [toList_paragraph_cons]
    rcases List.mem_cons.1 h with rfl | h
    · exact (List.prefix_append _ _).isInfix
    · have hs : (paragraph (other :: parts)).toList <:+
          first.toList ++ ' ' :: (paragraph (other :: parts)).toList :=
        (List.suffix_cons _ _).trans (List.suffix_append _ _)
      exact (appears_paragraph h).trans hs.isInfix

theorem appears_of_append {word text : String} (rest : String) (h : Appears (word ++ rest) text) :
    Appears word text := by
  rw [Appears, String.toList_append] at h
  exact (List.prefix_append _ _).isInfix.trans h

theorem not_appears_choose {sentence yes no : String} {condition : Bool}
    (hy : ¬ Appears sentence yes) (hn : ¬ Appears sentence no) :
    ¬ Appears sentence (choose condition yes no) := by
  unfold choose
  split_ifs
  · exact hy
  · exact hn

/-- A sentence is searched for in a literal by the list of its characters, which the kernel reads
off at once. -/
theorem not_appears_of_eq_ofList {sentence text : String} {word chars : List Char}
    (hs : sentence = String.ofList word) (ht : text = String.ofList chars)
    (hc : contains word chars = false) : ¬ Appears sentence text := by
  rw [Appears, hs, ht, String.toList_ofList, String.toList_ofList, ← contains_iff_infix, hc]
  exact Bool.false_ne_true

theorem notMem_of_eq_ofList {c : Char} {text : String} {chars : List Char}
    (h : text = String.ofList chars) (hc : c ∉ chars) : c ∉ text.toList := by
  rw [h, String.toList_ofList]
  exact hc

theorem not_appears_of_notMem {c : Char} {sentence text : String} (hs : c ∈ sentence.toList)
    (ht : c ∉ text.toList) : ¬ Appears sentence text :=
  fun h => ht (h.subset hs)

end Text

end Paragraphs

section Calm

open Text

variable {f : Findings}

/-- The first word of the calm note, which is found in no other sentence. -/
theorem appears_no {text : String} (h : Appears calmNote text) : Appears "No" text :=
  appears_of_append " obvious performance bottlenecks detected." h

theorem appears_no_paragraph_iff {parts : List String} :
    Appears "No" (paragraph parts) ↔ ∃ part ∈ parts, Appears "No" part :=
  appears_paragraph_iff (by simp) (by simp) parts

theorem not_appears_no {text : String} (h : 'N' ∉ text.toList) : ¬ Appears "No" text :=
  not_appears_of_notMem (by simp) h

theorem Growth.notMem_label (growth : Growth) :
    'N' ∉ growth.label.toList ∧ 'L' ∉ growth.label.toList := by
  cases growth <;>
    exact ⟨notMem_of_eq_ofList rfl (by decide), notMem_of_eq_ofList rfl (by decide)⟩

/-- No remark has the word. The one that is put together of two literals stands apart. -/
theorem not_appears_no_message : ∀ remark ∈ Remark.suggestions ++ Remark.strengths ++
    Remark.weaknesses, ¬ Appears "No" remark.message := by
  simp only [Remark.suggestions, Remark.strengths, Remark.weaknesses, List.cons_append,
    List.nil_append, List.forall_mem_cons, List.not_mem_nil, false_imp_iff, implies_true, and_true]
  refine ⟨?_, not_appears_of_eq_ofList rfl String.ofList_append.symm rfl, ?_⟩
  · exact not_appears_of_eq_ofList rfl rfl rfl
  · and_intros <;> exact not_appears_of_eq_ofList rfl rfl rfl

theorem not_appears_no_generic :
    ∀ message ∈ genericSuggestions ++ genericStrengths ++ genericWeaknesses,
      ¬ Appears "No" message := by
  simp only [genericSuggestions, genericStrengths, genericWeaknesses, List.cons_append,
    List.nil_append, List.forall_mem_cons, List.not_mem_nil, false_imp_iff, implies_true, and_true]
  and_intros <;> exact not_appears_of_eq_ofList rfl rfl rfl

theorem not_appears_no_listed {table : List Remark} {generic : List String} {limit : Nat}
    (ht : table ⊆ Remark.suggestions ++ Remark.strengths ++ Remark.weaknesses)
    (hg : generic ⊆ genericSuggestions ++ genericStrengths ++ genericWeaknesses) :
    ∀ message ∈ (orElse (Remark.messages table f) generic).take limit,
      ¬ Appears "No" message := by
  intro message hm
  by_cases h : message ∈ generic
  · exact not_appears_no_generic message (hg h)
  · have hm := Remark.mem_of_mem_orElse (List.mem_of_mem_take hm) h
    obtain ⟨remark, hr, -, rfl⟩ := Remark.mem_messages_iff.1 hm
    exact not_appears_no_message remark (ht hr)

theorem not_appears_no_explanation : ¬ Appears "No" f.explanation := by
  have ht := (Growth.notMem_label f.cost.time).1
  have hs := (Growth.notMem_label f.cost.space).1
  have hn : 'N' ∉ Nat.toDigits 10 f.score.toNat := Text.notMem_toDigits rfl _
  rw [Findings.explanation, appears_no_paragraph_iff]
  simp only [Findings.verdict, List.cons_append, List.nil_append, List.exists_mem_cons_iff,
    List.not_mem_nil, false_and, exists_false, or_false, not_or]
  refine ⟨not_appears_no (by simp [ht, hs]), not_appears_no (by simp [hn]), ?_⟩
  and_intros <;> exact not_appears_choose (not_appears_of_eq_ofList rfl rfl rfl)
    (not_appears_of_eq_ofList rfl rfl rfl)

theorem not_appears_no_algorithmEfficiency : ¬ Appears "No" f.algorithmEfficiency := by
  have ht := (Growth.notMem_label f.cost.time).1
  have hs := (Growth.notMem_label f.cost.space).1
  rw [Findings.algorithmEfficiency, appears_no_paragraph_iff]
  simp only [List.exists_mem_cons_iff, List.not_mem_nil, false_and, exists_false, or_false, not_or]
  refine ⟨not_appears_no (by simp [ht, hs]), ?_⟩
  unfold Findings.algorithmNote
  split_ifs <;> exact not_appears_of_eq_ofList rfl rfl rfl

theorem not_appears_no_codeReadability : ¬ Appears "No" f.codeReadability := by
  rw [Findings.codeReadability, appears_no_paragraph_iff]
  simp only [List.exists_mem_cons_iff, List.not_mem_nil, false_and, exists_false, or_false, not_or]
  and_intros <;> exact not_appears_choose (not_appears_of_eq_ofList rfl rfl rfl)
    (not_appears_of_eq_ofList rfl rfl rfl)

theorem not_appears_no_bestPractices : ¬ Appears "No" f.bestPractices := by
  rw [Findings.bestPractices, appears_no_paragraph_iff]
  simp only [List.exists_mem_cons_iff, List.not_mem_nil, false_and, exists_false, or_false, not_or]
  and_intros <;> exact not_appears_choose (not_appears_of_eq_ofList rfl rfl rfl)
    (not_appears_of_eq_ofList rfl rfl rfl)

theorem not_appears_no_memory : ¬ Appears "No" ("Memory usage is " ++ f.memory ++ ".") := by
  have hm : 'N' ∉ f.memory.toList := by
    unfold Findings.memory
    split <;> exact notMem_of_eq_ofList rfl (by decide)
  exact not_appears_no (by simp [hm])

theorem not_appears_no_performanceOptimization (hn : f.evidence.nested = true) :
    ¬ Appears "No" f.performanceOptimization := by
  rw [Findings.performanceOptimization, appears_no_paragraph_iff]
  simp only [List.exists_mem_cons_iff, List.not_mem_nil, false_and, exists_false, or_false, not_or,
    hn]
  refine ⟨?_, ?_, not_appears_of_eq_ofList rfl rfl rfl, not_appears_no_memory⟩ <;>
    exact not_appears_choose (not_appears_of_eq_ofList rfl rfl rfl)
      (not_appears_of_eq_ofList rfl rfl rfl)

/-- The calm note stands in a report exactly when no loops are nested. -/
theorem calmNote_appears_iff {company : String} :
    (∃ text ∈ (f.report company).texts, Appears calmNote text) ↔ f.evidence.nested = false := by
  constructor
  · rintro ⟨text, ht, ha⟩
    by_contra hn
    rw [Bool.not_eq_false] at hn
    refine absurd (appears_no ha) ?_
    simp only [Report.texts, List.mem_append, List.mem_cons, List.not_mem_nil, or_false] at ht
    rcases ht with ((ht | ht) | ht) | rfl | rfl | rfl | rfl | rfl | rfl | rfl
    · exact not_appears_no_listed (by simp) (by simp) text ht
    · exact not_appears_no_listed (by simp) (by simp) text ht
    · refine not_appears_no_listed (by simp) ?_ text ht
      split_ifs <;> simp
    · exact not_appears_no (Growth.notMem_label f.cost.time).1
    · exact not_appears_no (Growth.notMem_label f.cost.space).1
    · exact not_appears_no_explanation
    · exact not_appears_no_algorithmEfficiency
    · exact not_appears_no_codeReadability
    · exact not_appears_no_bestPractices
    · exact not_appears_no_performanceOptimization hn
  · intro hn
    refine ⟨f.performanceOptimization, ?_, appears_paragraph ?_⟩
    · exact List.mem_append_right _ (by simp [Findings.report, Findings.prose, Findings.feedback])
    · simp [choose, hn, calmNote]

end Calm

theorem Findings.linearNote_appears_iff {f : Findings} :
    Appears linearNote f.algorithmEfficiency ↔
      f.evidence.fastSearch = false ∧ f.evidence.nested = false := by
  constructor
  · intro h
    have ht := (Growth.notMem_label f.cost.time).2
    have hs := (Growth.notMem_label f.cost.space).2
    have hword : Appears "Linear" f.algorithmEfficiency :=
      Text.appears_of_append " approach is reasonable but could potentially be optimized." h
    have hhead : ¬ Appears "Linear" ("Time complexity: " ++ f.cost.time.label ++
        ", Space complexity: " ++ f.cost.space.label ++ ".") :=
      Text.not_appears_of_notMem (c := 'L') (by simp) (by simp [ht, hs])
    rw [algorithmEfficiency, Text.appears_paragraph_iff (by simp) (by simp)] at hword
    simp only [List.exists_mem_cons_iff, List.not_mem_nil, false_and, exists_false, or_false,
      hhead, false_or] at hword
    unfold algorithmNote at hword
    split_ifs at hword with hf hn
    · exact absurd hword (Text.not_appears_of_eq_ofList rfl rfl rfl)
    · exact absurd hword (Text.not_appears_of_eq_ofList rfl rfl rfl)
    · exact ⟨Bool.eq_false_iff.2 hf, Bool.eq_false_iff.2 hn⟩
  · rintro ⟨hf, hn⟩
    refine Text.appears_paragraph (List.mem_cons_of_mem _ ?_)
    simp [algorithmNote, hf, hn, linearNote]

theorem Findings.quadraticNote_mem_iff {f : Findings} :
    quadraticNote ∈ f.weaknesses ↔ f.evidence.nested = true ∧ f.evidence.fastSearch = false := by
  have hm : quadraticNote ∈ f.weaknesses ↔ f.quadraticScan = true :=
    mem_weaknesses_iff (List.mem_of_getElem? (i := 0) rfl) (by decide)
  rw [hm, quadraticScan, Bool.and_eq_true, Bool.not_eq_true']

/-- A report on findings that are those of a text keeps to its labels exactly when the marks that
the prose looks at follow the cases of the cost. -/
theorem Findings.Grounded.candid_iff {f : Findings} {company : String} (h : f.Grounded company) :
    (f.report company).Candid ↔ f.evidence.fastSearch = true ∨
      f.evidence.recursion = false ∧ (f.evidence.nested = true ∨ f.evidence.loops = true) := by
  have hlabel : ∀ growth : Growth,
      (f.report company).timeComplexity = growth.label ↔ f.evidence.cost.time = growth :=
    fun growth => h.cost ▸ timeComplexity_eq_iff
  have hcalm : (∀ text ∈ (f.report company).texts, ¬ Appears calmNote text) ↔
      f.evidence.nested = true := by
    have hiff : (∃ text ∈ (f.report company).texts, Appears calmNote text) ↔
        f.evidence.nested = false := calmNote_appears_iff
    rw [← Bool.not_eq_false, ← hiff]
    simp
  have hcandid : (f.report company).Candid ↔
      (f.evidence.fastSearch = false ∧ f.evidence.nested = false →
        f.evidence.cost.time = .linear) ∧
      (f.evidence.cost.time = .exponential ∨ f.evidence.cost.time = .quadratic →
        f.evidence.nested = true) ∧
      (f.evidence.nested = true ∧ f.evidence.fastSearch = false →
        f.evidence.cost.time = .quadratic) := by
    rw [← linearNote_appears_iff, ← quadraticNote_mem_iff, ← hcalm, ← hlabel, ← hlabel, ← hlabel]
    exact ⟨fun hc => ⟨hc.linear, hc.calm, hc.quadratic⟩, fun ⟨h1, h2, h3⟩ => ⟨h1, h2, h3⟩⟩
  rw [hcandid]
  unfold Evidence.cost
  cases f.evidence.fastSearch <;> cases f.evidence.recursion <;> cases f.evidence.nested <;>
    cases f.evidence.loops <;> simp

/-- The prose of a report keeps to its labels exactly when the text names a fast search, or returns
the value of no call and has a loop. -/
theorem Report.candid_heuristic_iff (code : String) (language : Language) (company : String) :
    (heuristic code language company).Candid ↔ (Evidence.ofText code.toList).fastSearch = true ∨
      (Evidence.ofText code.toList).recursion = false ∧
        ((Evidence.ofText code.toList).nested = true ∨ (Evidence.ofText code.toList).loops = true) :=
  (Findings.grounded_ofText code.toList language company).candid_iff

/-- A text that returns the value of a call is contradicted with loops and without them. -/
theorem Report.contradicted_by_recursion :
    let plain := heuristic "return f(n)" .python "google"
    let nested := heuristic "for for return f(n)" .python "google"
    (plain.timeComplexity = "O(2^n)" ∧ Appears linearNote plain.feedback.algorithmEfficiency ∧
      ∃ text ∈ plain.texts, Appears calmNote text) ∧
    (nested.timeComplexity = "O(2^n)" ∧ quadraticNote ∈ nested.weaknesses) ∧
    ¬ plain.Candid ∧ ¬ nested.Candid := by
  intro plain nested
  have hp : (Evidence.ofText "return f(n)".toList).recursion = true ∧
      (Evidence.ofText "return f(n)".toList).fastSearch = false ∧
      (Evidence.ofText "return f(n)".toList).nested = false := by decide +kernel
  have hn : (Evidence.ofText "for for return f(n)".toList).recursion = true ∧
      (Evidence.ofText "for for return f(n)".toList).fastSearch = false ∧
      (Evidence.ofText "for for return f(n)".toList).nested = true := by decide +kernel
  have htime : plain.timeComplexity = Growth.exponential.label ∧
      nested.timeComplexity = Growth.exponential.label :=
    ⟨Findings.timeComplexity_eq_iff.2 (Evidence.time_cost_eq_exponential_iff.2 ⟨hp.1, hp.2.1⟩),
      Findings.timeComplexity_eq_iff.2 (Evidence.time_cost_eq_exponential_iff.2 ⟨hn.1, hn.2.1⟩)⟩
  have hcalm : ∃ text ∈ plain.texts, Appears calmNote text := calmNote_appears_iff.2 hp.2.2
  have hquadratic : quadraticNote ∈ nested.weaknesses :=
    Findings.quadraticNote_mem_iff.2 ⟨hn.2.2, hn.2.1⟩
  refine ⟨⟨htime.1, Findings.linearNote_appears_iff.2 hp.2, hcalm⟩, ⟨htime.2, hquadratic⟩, ?_, ?_⟩
  · intro h
    obtain ⟨text, ht, ha⟩ := hcalm
    exact h.calm (.inl htime.1) text ht ha
  · intro h
    have hlabel := h.quadratic hquadratic
    rw [htime.2] at hlabel
    exact absurd hlabel (by decide)

end Appraisal
