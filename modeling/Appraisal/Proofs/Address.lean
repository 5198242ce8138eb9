import Appraisal.Http
import Appraisal.Proofs.Consultation
import Appraisal.Proofs.Fences
import Mathlib.Data.List.DropRight

/-!
# Addresses of servers

An address is trimmed once and then loses the slashes at its end, so that blanks before those
slashes are left at the end of the result, and nothing is left where there are only slashes. The
result is `Normal` exactly when the address is `Tidy`: slashes follow its last other character at
once, and blanks follow the slashes (`normal_iff_tidy`).
-/

namespace Appraisal

namespace Text

variable {text : List Char}

theorem exists_trimEnd (text : List Char) :
    ∃ after, after.all isSpace = true ∧ text = trimEnd text ++ after :=
  ⟨text.rtakeWhile isSpace, List.all_eq_true.2 fun _ => List.mem_rtakeWhile_imp,
    List.rdropWhile_append_rtakeWhile.symm⟩

/-- What trimming takes off is blank. -/
theorem exists_padding (text : List Char) : ∃ before after, before.all isSpace = true ∧
    after.all isSpace = true ∧ text = before ++ trim text ++ after := by
  have hstart : text.takeWhile isSpace ++ trimStart text = text := List.takeWhile_append_dropWhile
  obtain ⟨after, hafter, hend⟩ := exists_trimEnd (trimStart text)
  refine ⟨text.takeWhile isSpace, after, List.all_takeWhile, hafter, ?_⟩
  rw [List.append_assoc, trim, ← hend, hstart]

theorem trimEnd_of_getLast? (h : ∀ c ∈ text.getLast?, isSpace c = false) :
    trimEnd text = text := by
  refine List.rdropWhile_eq_self_iff.2 fun hne => ?_
  rw [h _ (List.getLast_mem_getLast? hne)]
  exact Bool.false_ne_true

/-- Trimming the start of a text that is not blank keeps its last character. -/
theorem getLast?_trimStart (h : text.all isSpace = false) :
    (trimStart text).getLast? = text.getLast? := by
  have hne : trimStart text ≠ [] := fun hnil => by
    rw [trimStart_eq_nil_iff.1 hnil] at h
    exact absurd h (by decide)
  obtain ⟨before, hsplit⟩ := List.dropWhile_suffix (l := text) isSpace
  conv_rhs => rw [← hsplit]
  exact (List.getLast?_append_of_ne_nil before hne).symm

/-- A text that is a part of itself trimmed ends in no blank. -/
theorem getLast?_of_prefix_trim (h : text <+: trim text) :
    ∀ c ∈ text.getLast?, isSpace c = false := by
  have hend : trim text <+: trimStart text := trimEnd_prefix _
  have hstart : trimStart text <:+ text := List.dropWhile_suffix isSpace
  have heq : text = trim text := h.eq_of_length_le (hend.length_le.trans hstart.length_le)
  rw [heq]
  exact getLast?_trim text

end Text

namespace Http

open Text (isSpace isBlank trim trimStart trimEnd)

section Slashes

variable {text slashes : List Char}

theorem dropSlashes_append (h : ∀ c ∈ slashes, c = '/') (text : List Char) :
    dropSlashes (text ++ slashes) = dropSlashes text := by
  have hrev : ∀ c ∈ slashes.reverse, (c == '/') = true := fun c hc =>
    beq_iff_eq.2 (h c (List.mem_reverse.1 hc))
  rw [dropSlashes, List.reverse_append, List.dropWhile_append_of_pos hrev, ← dropSlashes]

theorem dropSlashes_of_getLast? (h : ∀ c ∈ text.getLast?, c ≠ '/') : dropSlashes text = text := by
  refine List.rdropWhile_eq_self_iff.2 fun hne => ?_
  rw [beq_iff_eq]
  exact h _ (List.getLast_mem_getLast? hne)

theorem getLast?_dropSlashes (text : List Char) : ∀ c ∈ (dropSlashes text).getLast?, c ≠ '/' := by
  intro c hc
  obtain ⟨hne, rfl⟩ := List.mem_getLast?_eq_getLast hc
  exact fun hslash => List.rdropWhile_last_not (· == '/') text hne (beq_iff_eq.2 hslash)

theorem dropSlashes_prefix (text : List Char) : dropSlashes text <+: text :=
  List.rdropWhile_prefix _ text

theorem exists_slashes (text : List Char) :
    ∃ slashes, (∀ c ∈ slashes, c = '/') ∧ text = dropSlashes text ++ slashes := by
  refine ⟨text.rtakeWhile (· == '/'), fun c hc => ?_, List.rdropWhile_append_rtakeWhile.symm⟩
  simpa using List.mem_rtakeWhile_imp hc

theorem slashes_visible (h : ∀ c ∈ slashes, c = '/') : slashes.all (!isSpace ·) = true := by
  rw [List.all_eq_true]
  intro c hc
  rw [h c hc]
  decide

end Slashes

/-- An address as requests can use it: there is something to it, and it has neither blanks at its
ends nor a slash at the last. -/
structure Normal (address : String) : Prop where
  ne_empty : address ≠ ""
  head : ∀ c ∈ address.toList.head?, isSpace c = false
  last : ∀ c ∈ address.toList.getLast?, isSpace c = false
  slash : ∀ c ∈ address.toList.getLast?, c ≠ '/'

/-- An address whose last character other than blanks and slashes is followed by slashes, and these
by blanks. -/
inductive Tidy : List Char → Prop
  | intro (front : List Char) (c : Char) (slashes after : List Char) (visible : isSpace c = false)
    (solid : c ≠ '/') (only : ∀ c ∈ slashes, c = '/') (blank : after.all isSpace = true) :
    Tidy (front ++ c :: slashes ++ after)

variable {address normal : String}

theorem normalAddress?_eq_some_iff : normalAddress? address = some normal ↔
    isBlank address = false ∧ normal.toList = dropSlashes (trim address.toList) := by
  unfold normalAddress?
  split_ifs with h
  · simp [h]
  · rw [Option.some.injEq, ← String.toList_inj, String.toList_ofList, eq_comm]
    simp [h]

/-- Blanks at the ends of an address make no difference, whatever the address. -/
theorem normalAddress?_padded {before after : String} (hb : isBlank before = true)
    (ha : isBlank after = true) (address : String) :
    normalAddress? (before ++ address ++ after) = normalAddress? address := by
  have hblank : isBlank (before ++ address ++ after) = isBlank address := by
    rw [Text.isBlank_append, Text.isBlank_append, hb, ha, Bool.true_and, Bool.and_true]
  rw [normalAddress?, normalAddress?, hblank, String.toList_append, String.toList_append,
    Text.trim_padded hb ha]

/-- Slashes after an address keep the blanks before them from being trimmed. -/
theorem normalAddress?_slashed (hv : isBlank address = false) (n : Nat) :
    normalAddress? (address ++ String.ofList (List.replicate (n + 1) '/')) = some normal ↔
      normal.toList = dropSlashes (trimStart address.toList) := by
  have honly : ∀ c ∈ List.replicate (n + 1) '/', c = '/' := fun c => List.eq_of_mem_replicate
  have hne : List.replicate (n + 1) '/' ≠ [] := List.cons_ne_nil _ _
  rw [normalAddress?_eq_some_iff, Text.isBlank_append, hv, Bool.false_and, String.toList_append,
    String.toList_ofList, Text.trim_append_visible hne (slashes_visible honly),
    dropSlashes_append honly]
  exact and_iff_right rfl

section Accepted

variable (h : normalAddress? address = some normal)

include h

theorem toList_of_accepted : normal.toList = dropSlashes (trim address.toList) :=
  (normalAddress?_eq_some_iff.1 h).2

/-- No blank is left at the start of an address that is accepted. -/
theorem head_of_accepted : ∀ c ∈ normal.toList.head?, isSpace c = false := by
  intro c hc
  obtain ⟨rest, hrest⟩ := toList_of_accepted h ▸ dropSlashes_prefix (trim address.toList)
  refine Text.head?_trim address.toList c ?_
  rw [← hrest, List.head?_append, Option.mem_def.1 hc]
  rfl

/-- No slash is left at the end of an address that is accepted. -/
theorem slash_of_accepted : ∀ c ∈ normal.toList.getLast?, c ≠ '/' := by
  rw [toList_of_accepted h]
  exact getLast?_dropSlashes _

theorem tidy_of_normal (hn : Normal normal) : Tidy address.toList := by
  obtain ⟨before, after, -, hafter, hpadded⟩ := Text.exists_padding address.toList
  obtain ⟨slashes, hslashes, htrim⟩ := exists_slashes (trim address.toList)
  rw [← toList_of_accepted h] at htrim
  have hne : normal.toList ≠ [] := fun hnil => hn.ne_empty (String.toList_eq_nil_iff.1 hnil)
  have hlast : normal.toList.getLast hne ∈ normal.toList.getLast? :=
    List.getLast_mem_getLast? hne
  have hsplit : address.toList = (before ++ normal.toList.dropLast) ++
      normal.toList.getLast hne :: slashes ++ after := by
    conv_lhs => rw [hpadded, htrim, ← List.dropLast_append_getLast hne]
    simp only [List.append_assoc, List.cons_append, List.nil_append]
  rw [hsplit]
  exact .intro _ _ _ _ (hn.last _ hlast) (hn.slash _ hlast) hslashes hafter

theorem normal_of_tidy (ht : Tidy address.toList) : Normal normal := by
  generalize haddress : address.toList = text at ht
  obtain ⟨front, c, slashes, after, visible, solid, only, blank⟩ := ht
  -- the word at the end has no blanks, so that trimming the end takes off `after` alone
  have hword : (c :: slashes).all (!isSpace ·) = true := by
    rw [List.all_cons, visible, slashes_visible only]
    rfl
  have htrim : trim address.toList = trimStart front ++ [c] ++ slashes := by
    have hpadded : trim ([] ++ (front ++ c :: slashes) ++ after) = trim (front ++ c :: slashes) :=
      Text.trim_padded rfl blank _
    rw [haddress, ← List.nil_append (front ++ c :: slashes), hpadded,
      Text.trim_append_visible (List.cons_ne_nil c slashes) hword, List.append_cons]
  have hend : ∀ d ∈ (trimStart front ++ [c]).getLast?, d = c := by simp
  have hnormal : normal.toList = trimStart front ++ [c] := by
    rw [toList_of_accepted h, htrim, dropSlashes_append only, dropSlashes_of_getLast?]
    intro d hd
    rw [hend d hd]
    exact solid
  exact
    { ne_empty := fun hempty => by simp [hempty] at hnormal
      head := head_of_accepted h
      last := fun d hd => by
        rw [hnormal] at hd
        rw [hend d hd, visible]
      slash := slash_of_accepted h }

/-- An accepted address is normal exactly when it is accepted as it is. -/
theorem normal_iff_fixed : Normal normal ↔ normalAddress? normal = some normal := by
  rw [normalAddress?_eq_some_iff]
  constructor
  · intro hn
    have htrim : trim normal.toList = normal.toList := Text.trim_of_ends hn.head hn.last
    refine ⟨?_, by rw [htrim, dropSlashes_of_getLast? hn.slash]⟩
    rw [Bool.eq_false_iff]
    intro hblank
    rw [Text.isBlank_iff_trim_eq_nil, htrim] at hblank
    exact hn.ne_empty (String.toList_eq_nil_iff.1 hblank)
  · rintro ⟨hvisible, hfixed⟩
    have hprefix := dropSlashes_prefix (trim normal.toList)
    rw [← hfixed] at hprefix
    exact
      { ne_empty := by
          rintro rfl
          exact absurd hvisible (by decide)
        head := head_of_accepted h
        last := Text.getLast?_of_prefix_trim hprefix
        slash := slash_of_accepted h }

/-- Slashes after an accepted address make no difference unless they part a blank from its end. -/
theorem slashes_iff : (∀ n, normalAddress? (address ++ String.ofList (List.replicate n '/')) =
      some normal) ↔ ∀ c ∈ address.toList.getLast?, isSpace c = false := by
  have hvisible : isBlank address = false := (normalAddress?_eq_some_iff.1 h).1
  constructor
  · intro hall c hc
    by_cases hsolid : c = '/'
    · rw [hsolid]
      decide
    · have hkept : c ∈ (trimStart address.toList).getLast? := by
        rwa [Text.getLast?_trimStart hvisible]
      have hsame : dropSlashes (trimStart address.toList) = trimStart address.toList :=
        dropSlashes_of_getLast? fun d hd => by rwa [Option.mem_unique hd hkept]
      have htrim : trim (trimStart address.toList) = trim address.toList := by
        rw [trim, trim, Text.trimStart_trimStart]
      have hone := (normalAddress?_slashed hvisible 0).1 (hall 1)
      have hprefix := dropSlashes_prefix (trim address.toList)
      rw [← toList_of_accepted h, hone, hsame, ← htrim] at hprefix
      exact Text.getLast?_of_prefix_trim hprefix c hkept
  · intro hlast n
    cases n with
    | zero => rwa [List.replicate_zero, String.ofList_nil, String.append_empty]
    | succ n =>
      rw [normalAddress?_slashed hvisible, toList_of_accepted h, ← Text.trimStart_trimEnd_comm,
        Text.trimEnd_of_getLast? hlast]

end Accepted

/-- What is accepted of an address starts with no blank and ends with no slash. It is normal, and
accepted as it is, exactly when the address is tidy. Blanks around the address make no difference to
it; slashes after the address make none exactly when the address does not end in a blank. -/
theorem normal_iff_tidy (h : normalAddress? address = some normal) :
    ((∀ c ∈ normal.toList.head?, isSpace c = false) ∧ ∀ c ∈ normal.toList.getLast?, c ≠ '/') ∧
    (Normal normal ↔ Tidy address.toList) ∧
    (normalAddress? normal = some normal ↔ Tidy address.toList) ∧
    (∀ before after, isBlank before = true → isBlank after = true →
      normalAddress? (before ++ address ++ after) = some normal) ∧
    ((∀ n, normalAddress? (address ++ String.ofList (List.replicate n '/')) = some normal) ↔
      ∀ c ∈ address.toList.getLast?, isSpace c = false) := by
  have htidy : Normal normal ↔ Tidy address.toList := ⟨tidy_of_normal h, normal_of_tidy h⟩
  refine ⟨⟨head_of_accepted h, slash_of_accepted h⟩, htidy, ?_, ?_, slashes_iff h⟩
  · rw [← normal_iff_fixed h, htidy]
  · intro before after hb ha
    rw [normalAddress?_padded hb ha, h]

/-- An address between blanks, with slashes at its end and a blank inside. -/
theorem normal_iff_tidy_padded :
    normalAddress? "\thttp://a b// " = some "http://a b" ∧ Normal "http://a b" ∧
      normalAddress? "http://a b" = some "http://a b" ∧
      normalAddress? "\n \thttp://a b// \u2003" = some "http://a b" ∧
      ¬ ∀ n, normalAddress? ("\thttp://a b// " ++ String.ofList (List.replicate n '/')) =
        some "http://a b" := by
  have h : normalAddress? "\thttp://a b// " = some "http://a b" := by decide +kernel
  have htidy : Tidy "\thttp://a b// ".toList :=
    .intro "\thttp://a ".toList 'b' ['/', '/'] [' '] (by decide) (by decide) (by simp) (by decide)
  obtain ⟨-, hnormal, hfixed, hpadded, hslashes⟩ := normal_iff_tidy h
  refine ⟨h, hnormal.2 htidy, hfixed.2 htidy,
    hpadded "\n " "\u2003" (by decide +kernel) (by decide +kernel), fun hall => ?_⟩
  exact absurd (hslashes.1 hall ' ' (by decide +kernel)) (by decide)

/-- Slashes alone are accepted and nothing is left of them. A blank before a slash is left at the
end, so that a slash after an accepted address gives another one. Neither result is accepted as it
is. -/
theorem normal_off :
    (normalAddress? "/" = some "" ∧ normalAddress? "" = none) ∧
      normalAddress? "http://a /" = some "http://a " ∧
      normalAddress? "http://a " = some "http://a" := by
  decide +kernel

end Http

end Appraisal
