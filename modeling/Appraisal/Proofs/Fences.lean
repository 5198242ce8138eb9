import Appraisal.Proofs.LowerCase
import Appraisal.Reply
import Mathlib.Data.List.TakeWhile

/-!
# Fences around a reply

A fence and the blanks in and around it are taken off, and nothing else is: what is left of a reply
is its payload, trimmed (`body_of_fenced`), and a fence that opens without closing is taken off too.
No mark of a fence is white space, so that trimming a reply leaves the fence as it is
(`trim_append_visible`), and the blanks inside of it are trimmed after it is gone.
-/

namespace Appraisal

namespace Text

variable {before after text word : List Char}

section Blanks

theorem trimStart_blank_append (h : before.all isSpace = true) (text : List Char) :
    trimStart (before ++ text) = trimStart text :=
  List.dropWhile_append_of_pos (List.all_eq_true.1 h)

theorem trimEnd_append_blank (h : after.all isSpace = true) (text : List Char) :
    trimEnd (text ++ after) = trimEnd text := by
  have hrev : after.reverse.all isSpace = true := by rw [List.all_reverse, h]
  rw [trimEnd, List.reverse_append, ← trimStart, trimStart_blank_append hrev]
  rfl

theorem trimStart_eq_nil_iff : trimStart text = [] ↔ text.all isSpace = true := by
  rw [trimStart, List.dropWhile_eq_nil_iff, List.all_eq_true]

theorem trimEnd_eq_nil_iff : trimEnd text = [] ↔ text.all isSpace = true := by
  rw [trimEnd, List.reverse_eq_nil_iff, ← trimStart, trimStart_eq_nil_iff, List.all_reverse]

theorem trimStart_append (h : trimStart text ≠ []) (after : List Char) :
    trimStart (text ++ after) = trimStart text ++ after := by
  rw [trimStart, List.dropWhile_append, ← trimStart, if_neg (mt List.isEmpty_iff.1 h)]

theorem append_trimEnd (h : trimEnd text ≠ []) (before : List Char) :
    trimEnd (before ++ text) = before ++ trimEnd text := by
  have hrev : trimStart text.reverse ≠ [] := fun hnil => h (by rw [trimEnd, ← trimStart, hnil]; rfl)
  rw [trimEnd, List.reverse_append, ← trimStart, trimStart_append hrev, List.reverse_append,
    List.reverse_reverse]
  rfl

theorem trim_padded (hb : before.all isSpace = true) (ha : after.all isSpace = true)
    (text : List Char) : trim (before ++ text ++ after) = trim text := by
  rw [trim, List.append_assoc, trimStart_blank_append hb]
  by_cases h : trimStart text = []
  · rw [trimStart_blank_append (trimStart_eq_nil_iff.1 h), trimStart_eq_nil_iff.2 ha, trim, h]
  · rw [trimStart_append h, trimEnd_append_blank ha, trim]

/-- The blanks at either end may be taken off in any order. -/
theorem trimStart_trimEnd_comm (text : List Char) : trimStart (trimEnd text) = trim text := by
  have hsplit : text.takeWhile isSpace ++ trimStart text = text :=
    List.takeWhile_append_dropWhile
  by_cases h : trimEnd (trimStart text) = []
  · have hblank : text.all isSpace = true := by
      rw [← hsplit, List.all_append, List.all_takeWhile, trimEnd_eq_nil_iff.1 h, Bool.and_self]
    rw [trimEnd_eq_nil_iff.2 hblank, trim, h]
    rfl
  · rw [← hsplit, append_trimEnd h, trimStart_blank_append List.all_takeWhile, trimStart_trimEnd,
      hsplit, trim]

theorem trimEnd_prefix (text : List Char) : trimEnd text <+: text := by
  rw [← List.reverse_suffix, trimEnd, List.reverse_reverse]
  exact List.dropWhile_suffix _

/-- A text that starts with no blank keeps to that when its end is cut off. -/
theorem trimStart_of_prefix {front : List Char} (h : front <+: trimStart text) :
    trimStart front = front := by
  cases front with
  | nil => rfl
  | cons c front =>
    obtain ⟨rest, hrest⟩ := h
    exact trimStart_of_head (head?_trimStart text c (by rw [← hrest]; rfl))

end Blanks

section Visible

theorem trimStart_visible_append (hne : word ≠ []) (h : word.all (!isSpace ·) = true)
    (text : List Char) : trimStart (word ++ text) = word ++ text := by
  cases word with
  | nil => exact absurd rfl hne
  | cons c word =>
    rw [List.all_cons, Bool.and_eq_true, Bool.not_eq_true'] at h
    exact trimStart_of_head h.1

theorem trimEnd_append_visible (hne : word ≠ []) (h : word.all (!isSpace ·) = true)
    (text : List Char) : trimEnd (text ++ word) = text ++ word := by
  have hrev : word.reverse.all (!isSpace ·) = true := by rw [List.all_reverse, h]
  rw [trimEnd, List.reverse_append, ← trimStart,
    trimStart_visible_append (List.reverse_ne_nil_iff.2 hne) hrev, List.reverse_append,
    List.reverse_reverse, List.reverse_reverse]

theorem trim_visible_append (hne : word ≠ []) (h : word.all (!isSpace ·) = true)
    (text : List Char) : trim (word ++ text) = word ++ trimEnd text := by
  rw [trim, trimStart_visible_append hne h]
  by_cases ht : trimEnd text = []
  · rw [trimEnd_append_blank (trimEnd_eq_nil_iff.1 ht), ht, List.append_nil,
      ← List.nil_append word, trimEnd_append_visible hne h, List.nil_append]
  · exact append_trimEnd ht word

theorem trim_append_visible (hne : word ≠ []) (h : word.all (!isSpace ·) = true)
    (text : List Char) : trim (text ++ word) = trimStart text ++ word := by
  rw [← trimStart_trimEnd_comm, trimEnd_append_visible hne h]
  by_cases ht : trimStart text = []
  · rw [trimStart_blank_append (trimStart_eq_nil_iff.1 ht), ht, List.nil_append,
      ← List.append_nil word, trimStart_visible_append hne h]
  · exact trimStart_append ht word

/-- A word does not reach beyond a text if what follows that starts with none of its characters. -/
theorem prefix_of_prefix_append {rest : List Char} (h : word <+: text ++ rest)
    (hrest : ∀ c ∈ rest.head?, c ∉ word) : word <+: text := by
  rcases List.prefix_or_prefix_of_prefix h (List.prefix_append text rest) with hp | ⟨more, rfl⟩
  · exact hp
  · cases more with
    | nil => simp
    | cons c more =>
      obtain ⟨after, rfl⟩ := (List.prefix_append_right_inj text).1 h
      exact absurd (by simp) (hrest c rfl)

end Visible

end Text

namespace Reply

/-- How a fence opens before a payload: with the word `json`, or without it where the payload could
not be taken to start with that word. -/
inductive Opening (payload : List Char) : List Char → Prop
  | named (gap : List Char) (blank : gap.all Text.isSpace = true) :
    Opening payload (fence ++ "json".toList ++ gap)
  | plain (gap : List Char) (blank : gap.all Text.isSpace = true)
    (apart : gap ≠ [] ∨ ¬ "json".toList <+: payload) : Opening payload (fence ++ gap)

/-- A reply that holds a payload in a fence, which need not be closed after a payload that does not
end as a fence does. -/
inductive Fenced (payload : List Char) : List Char → Prop
  | closed (before opening gap after : List Char) (blankBefore : before.all Text.isSpace = true)
    (opens : Opening payload opening) (blankGap : gap.all Text.isSpace = true)
    (blankAfter : after.all Text.isSpace = true) :
    Fenced payload (before ++ opening ++ payload ++ gap ++ fence ++ after)
  | unclosed (before opening after : List Char) (blankBefore : before.all Text.isSpace = true)
    (opens : Opening payload opening) (blankAfter : after.all Text.isSpace = true)
    (ends : ¬ fence <:+ Text.trim payload) :
    Fenced payload (before ++ opening ++ payload ++ after)

variable {before opening payload rest text : List Char}

theorem fence_visible : fence.all (!Text.isSpace ·) = true := by decide

theorem fence_ne_nil : fence ≠ [] := by decide

theorem afterFence?_named (rest : List Char) :
    afterFence? (fence ++ "json".toList ++ rest) = some rest := by
  rw [afterFence?, Text.dropStart?_append]
  rfl

theorem afterFence?_plain (h : ¬ "json".toList <+: rest) :
    afterFence? (fence ++ rest) = some rest := by
  have hnamed : Text.dropStart? (fence ++ "json".toList) (fence ++ rest) = none :=
    if_neg fun hp =>
      h ((List.prefix_append_right_inj fence).1 (List.isPrefixOf_iff_prefix.1 hp))
  rw [afterFence?, hnamed, Text.dropStart?_append]
  rfl

theorem afterFence?_of_not_fence (h : ¬ fence <+: text) : afterFence? text = none := by
  have hdrop : ∀ word, Text.dropStart? (fence ++ word) text = none := fun word =>
    if_neg fun hp => h ((List.prefix_append fence word).trans (List.isPrefixOf_iff_prefix.1 hp))
  have hplain := hdrop []
  rw [List.append_nil] at hplain
  rw [afterFence?, hdrop, hplain]
  rfl

/-- What is left of a text after the fence that opens it. -/
theorem body_of_afterFence? {remains : List Char} (hb : before.all Text.isSpace = true)
    (h : afterFence? (Text.trim text) = some (Text.trimEnd remains)) :
    body (before ++ text) = Text.trimEnd (Text.dropEnd fence (Text.trim remains)) := by
  have htrim : Text.trim (before ++ text) = Text.trim text := by
    rw [Text.trim, Text.trimStart_blank_append hb, ← Text.trim]
  rw [body, htrim, h]
  show Text.trimEnd (Text.dropEnd fence (Text.trimStart (Text.trimEnd remains))) = _
  rw [Text.trimStart_trimEnd_comm]

/-- A plain fence is not taken for one with the word `json`. -/
theorem not_named {gap : List Char} (hg : gap.all Text.isSpace = true)
    (hapart : gap ≠ [] ∨ ¬ "json".toList <+: payload)
    (hrest : ∀ c ∈ rest.head?, c ∉ "json".toList) :
    ¬ "json".toList <+: Text.trimEnd (gap ++ (payload ++ rest)) := by
  intro h
  have h := h.trans (Text.trimEnd_prefix _)
  cases gap with
  | nil =>
    rcases hapart with hne | hnot
    · exact hne rfl
    · exact hnot (Text.prefix_of_prefix_append h hrest)
  | cons c gap =>
    obtain rfl : 'j' = c := (List.cons_prefix_cons.1 h).1
    rw [List.all_cons, Bool.and_eq_true] at hg
    exact absurd hg.1 (by decide)

/-- Whatever follows the payload, the fence is opened by its opening alone. -/
theorem body_opening (hb : before.all Text.isSpace = true) (ho : Opening payload opening)
    (hrest : ∀ c ∈ rest.head?, c ∉ "json".toList) :
    body (before ++ opening ++ payload ++ rest) =
      Text.trimEnd (Text.dropEnd fence (Text.trim (payload ++ rest))) := by
  obtain ⟨gap, hg, htrim⟩ : ∃ gap, gap.all Text.isSpace = true ∧
      afterFence? (Text.trim (opening ++ (payload ++ rest))) =
        some (Text.trimEnd (gap ++ (payload ++ rest))) := by
    cases ho with
    | named gap hg =>
      refine ⟨gap, hg, ?_⟩
      rw [List.append_assoc _ gap, Text.trim_visible_append (by decide) (by decide),
        afterFence?_named]
    | plain gap hg hapart =>
      refine ⟨gap, hg, ?_⟩
      rw [List.append_assoc fence gap, Text.trim_visible_append fence_ne_nil fence_visible,
        afterFence?_plain (not_named hg hapart hrest)]
  rw [List.append_assoc, List.append_assoc, body_of_afterFence? hb htrim, Text.trim,
    Text.trimStart_blank_append hg, ← Text.trim]

theorem head?_of_blank {blanks more : List Char} (h : blanks.all Text.isSpace = true)
    (hmore : ∀ c ∈ more.head?, c ∉ "json".toList) :
    ∀ c ∈ (blanks ++ more).head?, c ∉ "json".toList := by
  cases blanks with
  | nil => exact hmore
  | cons b blanks =>
    rw [List.all_cons, Bool.and_eq_true] at h
    rintro c ⟨⟩ hc
    have hvisible : "json".toList.all (!Text.isSpace ·) = true := by decide
    have hb := List.all_eq_true.1 hvisible b hc
    rw [h.1] at hb
    cases hb

/-- What is left of a fenced reply is its payload, trimmed. -/
theorem body_of_fenced (h : Fenced payload text) : body text = Text.trim payload := by
  cases h with
  | closed before opening gap after hb ho hg ha =>
    have hhead : ∀ c ∈ (gap ++ (fence ++ after)).head?, c ∉ "json".toList :=
      head?_of_blank hg (by rintro c ⟨⟩; decide)
    have htrim : Text.trim (payload ++ (gap ++ (fence ++ after))) =
        Text.trimStart (payload ++ gap) ++ fence := by
      rw [← Text.trim_append_visible fence_ne_nil fence_visible,
        ← Text.trim_padded List.all_nil ha (payload ++ gap ++ fence)]
      simp only [List.nil_append, List.append_assoc]
    rw [List.append_assoc _ fence, List.append_assoc _ gap, body_opening hb ho hhead, htrim,
      Text.dropEnd_append, ← Text.trim, ← List.nil_append (payload ++ gap), ← List.append_assoc,
      Text.trim_padded List.all_nil hg]
  | unclosed before opening after hb ho ha hends =>
    have hhead : ∀ c ∈ (after ++ []).head?, c ∉ "json".toList := head?_of_blank ha (by simp)
    have htrim : Text.trim (payload ++ after) = Text.trim payload :=
      Text.trim_padded List.all_nil ha payload
    have hdrop : Text.dropEnd fence (Text.trim payload) = Text.trim payload :=
      if_neg fun hs => hends (List.isSuffixOf_iff_suffix.1 hs)
    rw [List.append_nil] at hhead
    rw [body_opening hb ho hhead, htrim, hdrop, Text.trim, Text.trimEnd_trimEnd]

/-- A payload that does not look like a fence needs none. -/
theorem body_of_bare {after : List Char} (hb : before.all Text.isSpace = true)
    (ha : after.all Text.isSpace = true) (hstarts : ¬ fence <+: Text.trim payload) :
    body (before ++ payload ++ after) = Text.trim payload := by
  rw [body, Text.trim_padded hb ha, afterFence?_of_not_fence hstarts]

theorem trim_body (text : List Char) : Text.trim (body text) = body text := by
  unfold body
  split
  · exact Text.trim_trim _
  · next rest _ =>
    have hfront : Text.dropEnd fence (Text.trimStart rest) <+: Text.trimStart rest := by
      unfold Text.dropEnd
      split
      · exact List.take_prefix _ _
      · exact List.prefix_rfl
    rw [← Text.trimStart_of_prefix hfront]
    exact Text.trim_trim _

theorem report_congr {reply other : String} (h : body reply.toList = body other.toList) :
    report reply = report other := by
  have hd : document? reply = document? other := by rw [document?, document?, h]
  unfold report
  rw [hd]

/-- A fence around a payload changes nothing about what is read: what is left of the reply is the
trimmed payload, as it is without a fence, and the report or the fault is the same. Whatever a reply
is, no white space is left at its ends. -/
theorem body_fences (payload : List Char) :
    (∀ text, Fenced payload text → body text = Text.trim payload) ∧
      (∀ before after, before.all Text.isSpace = true → after.all Text.isSpace = true →
        ¬ fence <+: Text.trim payload → body (before ++ payload ++ after) = Text.trim payload) ∧
      (∀ text, (∀ c ∈ (body text).head?, Text.isSpace c = false) ∧
        ∀ c ∈ (body text).getLast?, Text.isSpace c = false) ∧
      ∀ text, Fenced payload text → ¬ fence <+: Text.trim payload →
        report (String.ofList text) = report (String.ofList payload) := by
  refine ⟨fun text => body_of_fenced, fun before after => body_of_bare, fun text => ?_,
    fun text hf hstarts => report_congr ?_⟩
  · rw [← trim_body]
    exact ⟨Text.head?_trim _, Text.getLast?_trim _⟩
  · have hbare := @body_of_bare [] payload [] List.all_nil List.all_nil hstarts
    rw [List.nil_append, List.append_nil] at hbare
    rw [String.toList_ofList, String.toList_ofList, body_of_fenced hf, hbare]

/-- A payload that starts with `json` and ends in a fence of its own, in a fence on lines apart. -/
theorem body_fences_nested :
    Fenced "json ```".toList " ```\njson ``````\n".toList ∧
      ¬ fence <+: Text.trim "json ```".toList ∧
      body " ```\njson ``````\n".toList = "json ```".toList ∧
      body " json ```\n".toList = "json ```".toList ∧
      report " ```\njson ``````\n" = report "json ```" := by
  have hfenced : Fenced "json ```".toList " ```\njson ``````\n".toList :=
    .closed [' '] (fence ++ ['\n']) [] ['\n'] (by decide)
      (.plain ['\n'] (by decide) (.inl (by decide))) (by decide) (by decide)
  have hstarts : ¬ fence <+: Text.trim "json ```".toList := by decide
  have htrim : Text.trim "json ```".toList = "json ```".toList := by decide
  obtain ⟨hbody, hbare, -, hreport⟩ := body_fences "json ```".toList
  exact ⟨hfenced, hstarts, (hbody _ hfenced).trans htrim,
    (hbare [' '] ['\n'] (by decide) (by decide) hstarts).trans htrim, hreport _ hfenced hstarts⟩

end Reply

end Appraisal
