import Appraisal.Proofs.Coherence

/-!
# Which remarks are listed

A table of remarks is read in order, and the list is cut off when it is full. So a remark that
applies is left out only where remarks before it fill the list (`messages_take_of_notMem`), and the
generic messages stand alone, since no remark has the message of one. `Drawn` collects what a reader
can rely on; it holds of the three lists whatever applies together (`Findings.drawn_lists`).
-/

namespace Appraisal

namespace Remark

/-- Whether a list with room for some messages is drawn from a table of remarks, or has generic
messages, where these are wanted, if no remark applies. -/
structure Drawn (remarks : List Remark) (limit : ℕ) (generic : List String) (wanted : Prop)
    (f : Findings) (list : List String) : Prop where
  ordered : (∃ remark ∈ remarks, remark.applies f = true) →
    list.Sublist (remarks.map Remark.message)
  applies : ∀ remark ∈ remarks, remark.message ∈ list → remark.applies f = true
  omitted : ∀ before remark after, remarks = before ++ remark :: after →
    remark.applies f = true → remark.message ∉ list →
    list.length = limit ∧ ∀ message ∈ list, message ∈ before.map Remark.message
  length_le : list.length ≤ limit
  nodup : list.Nodup
  generic_iff : ∀ message ∈ generic,
    message ∈ list ↔ (∀ remark ∈ remarks, remark.applies f = false) ∧ wanted
  alone : (∃ message ∈ generic, message ∈ list) → list = generic
  eq_nil_iff : list = [] ↔ (∀ remark ∈ remarks, remark.applies f = false) ∧ ¬ wanted

variable {remarks before after : List Remark} {remark : Remark} {generic : List String}
  {limit : ℕ} {wanted : Prop} {f : Findings}

theorem messages_sublist (remarks : List Remark) (f : Findings) :
    (messages remarks f).Sublist (remarks.map Remark.message) :=
  List.filter_sublist.map _

theorem messages_append_cons (ha : remark.applies f = true) :
    messages (before ++ remark :: after) f =
      messages before f ++ remark.message :: messages after f := by
  simp [messages, ha]

theorem messages_eq_nil_iff :
    messages remarks f = [] ↔ ∀ remark ∈ remarks, remark.applies f = false := by
  simp [messages]

/-- A remark that applies is left out only when the remarks before it fill the list. -/
theorem messages_take_of_notMem (ha : remark.applies f = true)
    (hm : remark.message ∉ (messages (before ++ remark :: after) f).take limit) :
    limit ≤ (messages before f).length ∧
      (messages (before ++ remark :: after) f).take limit = (messages before f).take limit := by
  have hle : limit ≤ (messages before f).length := by
    by_contra hlt
    obtain ⟨room, hroom⟩ := Nat.exists_eq_add_of_lt (Nat.lt_of_not_le hlt)
    apply hm
    rw [messages_append_cons ha, hroom, Nat.add_assoc, List.take_length_add_append]
    exact List.mem_append_right _ List.mem_cons_self
  exact ⟨hle, by rw [messages_append_cons ha, List.take_append_of_le_length hle]⟩

/-- If a remark applies, the list has messages of remarks alone. -/
theorem drawn_of_applies (hn : (remarks.map Remark.message).Nodup)
    (hg : ∀ message ∈ generic, message ∉ remarks.map Remark.message) (hl : 0 < limit)
    (hr : remark ∈ remarks) (ha : remark.applies f = true) :
    Drawn remarks limit generic wanted f ((messages remarks f).take limit) := by
  have hsub : ((messages remarks f).take limit).Sublist (remarks.map Remark.message) :=
    (List.take_sublist limit _).trans (messages_sublist remarks f)
  have hgeneric : ∀ message ∈ generic, message ∉ (messages remarks f).take limit :=
    fun message hm hmem => hg message hm (hsub.subset hmem)
  have hsome : ¬ ∀ remark ∈ remarks, remark.applies f = false := fun hnone => by
    rw [hnone remark hr] at ha
    cases ha
  refine ⟨fun _ => hsub, fun other ho hm => ?_, ?_, List.length_take_le _ _, hn.sublist hsub,
    fun message hm => ?_, ?_, ?_⟩
  · exact applies_of_message_mem hn ho (List.mem_of_mem_take hm)
  · rintro before other after rfl ho hm
    obtain ⟨hle, heq⟩ := messages_take_of_notMem ho hm
    rw [heq, List.length_take, Nat.min_eq_left hle]
    exact ⟨rfl, fun message hmem => (messages_sublist before f).subset (List.mem_of_mem_take hmem)⟩
  · exact iff_of_false (hgeneric message hm) fun h => hsome h.1
  · rintro ⟨message, hm, hmem⟩
    exact absurd hmem (hgeneric message hm)
  · rw [List.take_eq_nil_iff, messages_eq_nil_iff]
    exact iff_of_false (not_or_intro (Nat.ne_of_gt hl) hsome) fun h => hsome h.1

/-- If no remark applies, the list has the generic messages or none. -/
theorem drawn_of_silent [Decidable wanted] (hg : ∀ message ∈ generic,
    message ∉ remarks.map Remark.message) (hnodup : generic.Nodup) (hne : generic ≠ [])
    (hl : generic.length ≤ limit) (hnone : ∀ remark ∈ remarks, remark.applies f = false) :
    Drawn remarks limit generic wanted f (if wanted then generic else []) := by
  have happlies : ∀ {remark : Remark}, remark ∈ remarks → remark.applies f = true → False :=
    fun hr ha => Bool.false_ne_true ((hnone _ hr).symm.trans ha)
  have hmem : ∀ {message : String},
      message ∈ (if wanted then generic else []) → message ∈ generic := fun h => by
    split_ifs at h
    · exact h
    · cases h
  refine ⟨fun ⟨remark, hr, ha⟩ => (happlies hr ha).elim, fun remark hr hm => ?_, ?_, ?_, ?_,
    fun message hm => ?_, ?_, ?_⟩
  · exact absurd (List.mem_map_of_mem hr) (hg _ (hmem hm))
  · rintro before remark after rfl ha -
    exact (happlies (by simp) ha).elim
  · split_ifs
    · exact hl
    · exact Nat.zero_le _
  · split_ifs
    · exact hnodup
    · exact List.nodup_nil
  · rw [and_iff_right hnone]
    split_ifs with hw <;> simp [hw, hm]
  · rintro ⟨message, -, hm⟩
    split_ifs at hm ⊢
    · rfl
    · cases hm
  · rw [and_iff_right hnone]
    split_ifs with hw <;> simp [hw, hne]

theorem drawn_messages [Decidable wanted] (hn : (remarks.map Remark.message).Nodup)
    (hg : ∀ message ∈ generic, message ∉ remarks.map Remark.message) (hnodup : generic.Nodup)
    (hne : generic ≠ []) (hl : generic.length ≤ limit) :
    Drawn remarks limit generic wanted f
      ((orElse (messages remarks f) (if wanted then generic else [])).take limit) := by
  by_cases h : messages remarks f = []
  · have htake : (if wanted then generic else []).take limit = if wanted then generic else [] := by
      split_ifs
      · exact List.take_of_length_le hl
      · exact List.take_nil
    rw [h, orElse, List.isEmpty_nil, if_pos rfl, htake]
    exact drawn_of_silent hg hnodup hne hl (messages_eq_nil_iff.1 h)
  · obtain ⟨remark, hr, ha⟩ : ∃ remark ∈ remarks, remark.applies f = true := by
      simpa [messages_eq_nil_iff] using h
    have hpos : 0 < limit := Nat.lt_of_lt_of_le (List.length_pos_iff.2 hne) hl
    rw [orElse, List.isEmpty_eq_false_iff.2 h]
    exact drawn_of_applies hn hg hpos hr ha

end Remark

namespace Findings

/-- The three lists are drawn from their tables, whatever the findings are. There is always a
suggestion and a strength, and there is a weakness unless none applies to a faultless score. -/
theorem drawn_lists (f : Findings) :
    Remark.Drawn Remark.suggestions 6 genericSuggestions True f f.prose.suggestions ∧
      Remark.Drawn Remark.strengths 5 genericStrengths True f f.prose.strengths ∧
      Remark.Drawn Remark.weaknesses 5 genericWeaknesses (f.score < 80) f f.prose.weaknesses ∧
      f.prose.suggestions ≠ [] ∧ f.prose.strengths ≠ [] ∧
      (f.prose.weaknesses = [] ↔
        (∀ remark ∈ Remark.weaknesses, remark.applies f = false) ∧ 80 ≤ f.score) := by
  have hsuggestions : Remark.Drawn Remark.suggestions 6 genericSuggestions True f
      f.prose.suggestions :=
    Remark.drawn_messages (by decide) (by decide) (by decide) (by decide) (by decide)
  have hstrengths : Remark.Drawn Remark.strengths 5 genericStrengths True f f.prose.strengths :=
    Remark.drawn_messages (by decide) (by decide) (by decide) (by decide) (by decide)
  have hweaknesses : Remark.Drawn Remark.weaknesses 5 genericWeaknesses (f.score < 80) f
      f.prose.weaknesses :=
    Remark.drawn_messages (by decide) (by decide) (by decide) (by decide) (by decide)
  refine ⟨hsuggestions, hstrengths, hweaknesses, fun h => ?_, fun h => ?_, ?_⟩
  · exact (hsuggestions.eq_nil_iff.1 h).2 trivial
  · exact (hstrengths.eq_nil_iff.1 h).2 trivial
  · rw [hweaknesses.eq_nil_iff, UInt8.not_lt]

end Findings

end Appraisal
