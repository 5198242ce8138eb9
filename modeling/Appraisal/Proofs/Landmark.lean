import Appraisal.Proofs.LowerCase

/-!
# Landmarks in front of which a text ends

Where a text ends that is printed without quotes is seen from a word that follows it, if that word
is a landmark: it holds a character that no such text holds, so that it cannot lie within one, and
no end of it starts as the word does, so that it cannot begin in one either
(`Landmark.append_inj`). A line feed is a landmark after a line. The tag of a language may hold line
feeds and the words that are printed around it, but it is in lower case, and a word with a capital
can be a landmark after it (`Landmark.tag_inj`).
-/

namespace Appraisal

namespace Text

/-- Whether a word can neither lie within a text whose characters all meet the condition nor begin
in one that it follows. -/
structure Landmark (P : Char → Prop) (word : List Char) : Prop where
  foreign : ∃ c ∈ word, ¬ P c
  unbordered : ∀ k < word.length, k ≠ 0 → ¬ word.drop k <+: word

variable {P : Char → Prop}

/-- A single character that does not meet the condition is a landmark. -/
theorem landmark_singleton {c : Char} (h : ¬ P c) : Landmark P [c] where
  foreign := ⟨c, List.mem_singleton_self c, h⟩
  unbordered := fun _ hk hne => absurd (Nat.lt_one_iff.1 hk) hne

/-- Nothing that meets the condition stands between two readings of the word. -/
theorem Landmark.eq_nil {word more front rest : List Char} (h : Landmark P word)
    (hf : ∀ c ∈ front, P c) (heq : word ++ more = front ++ (word ++ rest)) : front = [] := by
  obtain ⟨c, hc, hforeign⟩ := h.foreign
  have hword : word <+: front ++ (word ++ rest) := ⟨more, heq⟩
  rcases List.prefix_or_prefix_of_prefix hword (List.prefix_append front _) with hp | ⟨back, hback⟩
  · exact absurd (hf c (hp.subset hc)) hforeign
  · by_contra hne
    have hlength : front.length + back.length = word.length := by
      rw [← List.length_append, hback]
    have hdrop : word.drop front.length = back := by rw [← hback, List.drop_left]
    have hover : back ++ more = word ++ rest :=
      List.append_cancel_left (by rw [← List.append_assoc, hback]; exact heq)
    have hborder : back <+: word :=
      List.prefix_of_prefix_length_le ⟨more, hover⟩ (List.prefix_append word rest) (by omega)
    have hback_ne : back ≠ [] := by
      rintro rfl
      rw [List.append_nil] at hback
      exact hforeign (hf c (by rw [hback]; exact hc))
    refine h.unbordered front.length ?_ (by simpa using hne) (by rwa [hdrop])
    have := List.length_pos_of_ne_nil hback_ne
    omega

/-- What stands before the first landmark is told from it and what follows. -/
theorem Landmark.append_inj {s t word more rest : String} (h : Landmark P word.toList)
    (hs : ∀ c ∈ s.toList, P c) (ht : ∀ c ∈ t.toList, P c)
    (heq : s ++ (word ++ more) = t ++ (word ++ rest)) : s = t ∧ more = rest := by
  have hchars := congrArg String.toList heq
  simp only [String.toList_append] at hchars
  have hst : s.toList = t.toList := by
    rcases List.append_eq_append_iff.1 hchars with ⟨front, htail, hfront⟩ | ⟨front, htail, hfront⟩
    · have hnil := h.eq_nil (fun c hc => ht c (htail ▸ List.mem_append_right _ hc)) hfront
      rw [htail, hnil, List.append_nil]
    · have hnil := h.eq_nil (fun c hc => hs c (htail ▸ List.mem_append_right _ hc)) hfront
      rw [htail, hnil, List.append_nil]
  rw [hst] at hchars
  have hrest := List.append_cancel_left (List.append_cancel_left hchars)
  exact ⟨String.toList_inj.1 hst, String.toList_inj.1 hrest⟩

end Text

namespace Language

variable {name other : String}

theorem isLower_of_mem_tag : ∀ c ∈ (parse name).tag.toList, Text.IsLower c := by
  intro c hc
  rw [parse, tag_ofTag, Text.normalName, Text.lowered, String.toList_ofList] at hc
  exact Text.isLower_of_mem_lowerFrom hc

theorem parse_eq_of_tag_eq (h : (parse name).tag = (parse other).tag) :
    parse name = parse other := by
  rw [← parse_tag_parse name, h, parse_tag_parse]

end Language

/-- A language that is read from a name is known from a text that starts with its tag and goes on
with a landmark. -/
theorem Text.Landmark.tag_inj {name other word more rest : String}
    (h : Landmark IsLower word.toList)
    (heq : (Language.parse name).tag ++ (word ++ more) =
      (Language.parse other).tag ++ (word ++ rest)) :
    Language.parse name = Language.parse other ∧ more = rest := by
  obtain ⟨htag, hmore⟩ :=
    h.append_inj Language.isLower_of_mem_tag Language.isLower_of_mem_tag heq
  exact ⟨Language.parse_eq_of_tag_eq htag, hmore⟩

end Appraisal
