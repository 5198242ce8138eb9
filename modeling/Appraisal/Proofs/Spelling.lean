import Appraisal.CommandLine.Parse
import Mathlib.Data.List.TakeWhile

/-!
# Spellings of an option

An option and its value have up to five spellings. Each of them is read as the option with the text
of its value, after what stands before it is settled (`takeAll_option`), and the words that follow
do not depend on the spelling.
-/

namespace Appraisal.CommandLine

/-- What is written after the word of a command: an option with the text of its value, or a file. -/
inductive Part where
  | option (setting : Setting) (text : String)
  | file (path : String)

/-- The words that write a part. A value follows the name of its option, or its letter if it has
one, in the same word or as the next. -/
inductive Part.Writes : Part → List String → Prop
  | file {path : String} : Writes (.file path) [path]
  | name {setting : Setting} {text : String} :
    Writes (.option setting text) ["--" ++ setting.name, text]
  | nameEquals {setting : Setting} {text : String} :
    Writes (.option setting text) ["--" ++ setting.name ++ "=" ++ text]
  | letter {setting : Setting} {letter : Char} {text : String}
    (hc : setting.letter? = some letter) :
    Writes (.option setting text) ["-" ++ String.singleton letter, text]
  | letterEquals {setting : Setting} {letter : Char} {text : String}
    (hc : setting.letter? = some letter) :
    Writes (.option setting text) ["-" ++ String.singleton letter ++ "=" ++ text]
  | attached {setting : Setting} {letter : Char} {text : String}
    (hc : setting.letter? = some letter) (he : text.toList.head? ≠ some '=') :
    Writes (.option setting text) ["-" ++ String.singleton letter ++ text]

/-- Whether a text begins with no hyphen, so that it is not taken for an option. -/
def IsPlain (text : String) : Prop := text.toList.head? ≠ some '-'

/-- Whether a command takes a text as the value of an option, however it is spelled. -/
structure Verb.Takes (verb : Verb) (setting : Setting) (text : String) : Prop where
  offered : setting ∈ verb.settings
  faultless : setting.fault? text = none
  ne_empty : text ≠ ""
  plain : IsPlain text

namespace Setting

variable {verb : Verb} {setting : Setting} {letter : Char}

theorem ofName?_name (h : setting ∈ verb.settings) :
    ofName? verb setting.name = some setting := by
  have hall : ∀ other ∈ verb.settings, ofName? verb other.name = some other := by
    cases verb <;> decide
  exact hall setting h

theorem ofLetter?_letter (h : setting ∈ verb.settings) (hc : setting.letter? = some letter) :
    ofLetter? verb letter = some setting := by
  have hall : ∀ other ∈ verb.settings,
      other.letter?.bind (ofLetter? verb) = other.letter?.map fun _ => other := by
    cases verb <;> decide
  simpa [hc] using hall setting h

theorem equals_notMem_name (setting : Setting) : '=' ∉ setting.name.toList := by
  cases setting <;> decide

theorem name_ne_empty (setting : Setting) : setting.name ≠ "" := by
  cases setting <;> decide

theorem name_ne_help (setting : Setting) : setting.name ≠ "help" := by
  cases setting <;> decide

theorem letter_ne (hc : setting.letter? = some letter) : letter ≠ '-' ∧ letter ≠ 'h' := by
  cases setting <;> cases hc <;> decide

end Setting

namespace Progress

section Words

variable {p : Progress} {verb : Verb} {setting : Setting} {letter : Char} {text argument : String}
  {words : List String}

theorem splitName_of_notMem {name : List Char} (h : '=' ∉ name) :
    splitName name = (String.ofList name, none) ∧ ∀ value,
      splitName (name ++ '=' :: value) = (String.ofList name, some (String.ofList value)) := by
  have hplain : ∀ c ∈ name, (c != '=') = true := fun c hc => by
    simpa using ne_of_mem_of_not_mem hc h
  refine ⟨?_, fun value => ?_⟩
  · rw [splitName, List.takeWhile_eq_self_iff.2 hplain, List.dropWhile_eq_nil_iff.2 hplain]
  · rw [splitName, List.takeWhile_append_of_pos hplain, List.dropWhile_append_of_pos hplain]
    simp

theorem takeName_name (hs : setting ∈ verb.settings) (value : Option String) :
    p.takeName verb setting.name value = p.takeOption setting value := by
  unfold takeName
  rw [if_neg setting.name_ne_help, Setting.ofName?_name hs]

theorem take_of_hyphens {name : List Char} (hl : p.literal = false)
    (ha : argument.toList = '-' :: '-' :: name) (hn : name ≠ []) :
    p.take verb argument = p.takeName verb (splitName name).1 (splitName name).2 := by
  obtain ⟨c, rest, rfl⟩ := List.exists_cons_of_ne_nil hn
  simp [take, hl, ha]

theorem take_name (hl : p.literal = false) (hs : setting ∈ verb.settings) :
    p.take verb ("--" ++ setting.name) = p.takeOption setting none := by
  have hne : setting.name.toList ≠ [] := by simpa using setting.name_ne_empty
  rw [take_of_hyphens hl (by simp) hne, (splitName_of_notMem setting.equals_notMem_name).1,
    String.ofList_toList, takeName_name hs]

theorem take_nameEquals (hl : p.literal = false) (hs : setting ∈ verb.settings) (text : String) :
    p.take verb ("--" ++ setting.name ++ "=" ++ text) = p.takeOption setting (some text) := by
  have hword : ("--" ++ setting.name ++ "=" ++ text).toList =
      '-' :: '-' :: (setting.name.toList ++ '=' :: text.toList) := by simp
  rw [take_of_hyphens hl hword (by simp), (splitName_of_notMem setting.equals_notMem_name).2,
    String.ofList_toList, String.ofList_toList, takeName_name hs]

theorem take_letter {rest : List Char} (hl : p.literal = false) (hs : setting ∈ verb.settings)
    (hc : setting.letter? = some letter) (ha : argument.toList = '-' :: letter :: rest) :
    p.take verb argument = p.takeOption setting (attached rest) := by
  obtain ⟨hhyphen, hhelp⟩ := Setting.letter_ne hc
  simp [take, hl, ha, hhyphen, takeLetter, hhelp, Setting.ofLetter?_letter hs hc]

theorem attached_of_ne {rest : List Char} (hn : rest ≠ []) (he : rest.head? ≠ some '=') :
    attached rest = some (String.ofList rest) := by
  obtain ⟨c, tail, rfl⟩ := List.exists_cons_of_ne_nil hn
  rw [attached]
  · simp
  · rintro value h
    simp_all

theorem take_plain (hl : p.literal = false) (ht : IsPlain text) :
    p.take verb text = p.takePlain verb text := by
  rw [take, if_neg (by simp [hl])]
  split
  · next h => simp [IsPlain, h] at ht
  · next h => simp [IsPlain, h] at ht
  · next h => simp [IsPlain, h] at ht
  · rfl

/-- An option is written in one word that has its value, or in a word before its value. -/
theorem take_option (ht : verb.Takes setting text) (hw : (Part.option setting text).Writes words) :
    ∃ word value, (words = [word] ∧ value = some text ∨ words = [word, text] ∧ value = none) ∧
      ∀ p : Progress, p.literal = false → p.take verb word = p.takeOption setting value := by
  have hs := ht.offered
  cases hw with
  | name => exact ⟨_, none, .inr ⟨rfl, rfl⟩, fun p hl => take_name hl hs⟩
  | nameEquals => exact ⟨_, some text, .inl ⟨rfl, rfl⟩, fun p hl => take_nameEquals hl hs text⟩
  | @letter _ letter _ hc =>
    have hword : ("-" ++ String.singleton letter).toList = ['-', letter] := by simp
    exact ⟨_, none, .inr ⟨rfl, rfl⟩, fun p hl => take_letter hl hs hc hword⟩
  | @letterEquals _ letter _ hc =>
    have hword : ("-" ++ String.singleton letter ++ "=" ++ text).toList =
        '-' :: letter :: '=' :: text.toList := by simp
    refine ⟨_, some text, .inl ⟨rfl, rfl⟩, fun p hl => ?_⟩
    rw [take_letter hl hs hc hword, attached, String.ofList_toList]
  | @attached _ letter _ hc he =>
    have hword : ("-" ++ String.singleton letter ++ text).toList =
        '-' :: letter :: text.toList := by simp
    have hne : text.toList ≠ [] := by simpa using ht.ne_empty
    refine ⟨_, some text, .inl ⟨rfl, rfl⟩, fun p hl => ?_⟩
    rw [take_letter hl hs hc hword, attached_of_ne hne he, String.ofList_toList]

end Words

section Settling

variable {p q r : Progress} {verb : Verb} {setting : Setting} {text path : String}
  {words : List String} {fault : UsageError}

theorem add_eq_ok_iff : p.add setting text = .ok q ↔
    p.value? setting = none ∧ setting.fault? text = none ∧
      q = { p with given := p.given ++ [(setting, text)], pending := .nothing } := by
  unfold add value?
  cases p.given.lookup setting <;> cases setting.fault? text <;> simp [eq_comm]

/-- What counts for the words that follow is the same before settling and after it. -/
theorem of_settle (h : p.settle = .ok q) : q.literal = p.literal ∧ q.file.isSome = p.hasFile ∧
    ∀ setting, p.pending ≠ .name setting := by
  unfold settle at h
  unfold hasFile
  cases hp : p.pending with
  | nothing =>
    rw [hp] at h
    cases h
    simp
  | name setting => simp [hp] at h
  | value setting text =>
    rw [hp] at h
    obtain ⟨-, -, rfl⟩ := add_eq_ok_iff.1 h
    simp
  | file path =>
    simp only [hp] at h
    split_ifs at h
    cases h
    simp

theorem settle_of_add (h : q.add setting text = .ok r) : r.settle = .ok r := by
  obtain ⟨-, -, rfl⟩ := add_eq_ok_iff.1 h
  rfl

theorem takeAll_of_take {word : String} (h : p.take verb word = .ok q) (rest : List String) :
    takeAll verb p (word :: rest) = takeAll verb q rest := by
  rw [takeAll, h]
  rfl

/-- The words of an option settle what stands before them and leave the option to be settled. -/
theorem takeAll_option (ht : verb.Takes setting text)
    (hw : (Part.option setting text).Writes words) (hl : p.literal = false)
    (hp : p.settle = .ok q) (ha : q.add setting text = .ok r) :
    ∃ after : Progress, after.settle = .ok r ∧
      ∀ rest, takeAll verb p (words ++ rest) = takeAll verb after rest := by
  have hq : q.literal = false := (of_settle hp).1.trans hl
  obtain ⟨word, value, ⟨rfl, rfl⟩ | ⟨rfl, rfl⟩, htake⟩ := take_option ht hw
  · -- the option is settled with its word
    have hword : p.take verb word = .ok r := by
      rw [htake p hl, takeOption, hp]
      exact ha
    exact ⟨r, settle_of_add ha, takeAll_of_take hword⟩
  · -- the option is settled after the word of its value
    have hword : p.take verb word = .ok { q with pending := .name setting } := by
      rw [htake p hl, takeOption, hp]
      rfl
    have hvalue : take { q with pending := .name setting } verb text =
        .ok { q with pending := .value setting text } := take_plain hq ht.plain
    refine ⟨{ q with pending := .value setting text }, ha, fun rest => ?_⟩
    rw [List.cons_append, takeAll_of_take hword, List.cons_append, takeAll_of_take hvalue,
      List.nil_append]

/-- An option is as far as reading goes where what stands before it cannot be settled. -/
theorem takeAll_option_of_error (ht : verb.Takes setting text)
    (hw : (Part.option setting text).Writes words) (hl : p.literal = false)
    (hp : p.settle = .error fault) (rest : List String) :
    takeAll verb p (words ++ rest) = .error fault := by
  obtain ⟨word, value, hwords, htake⟩ := take_option ht hw
  have hword : p.take verb word = .error fault := by
    rw [htake p hl, takeOption, hp]
    rfl
  rcases hwords with ⟨rfl, -⟩ | ⟨rfl, -⟩
  · rw [List.cons_append, takeAll, hword]
    rfl
  · rw [List.cons_append, takeAll, hword]
    rfl

/-- A file settles what stands before it, and is left to be settled. -/
theorem takeAll_file (hv : verb.takesFile = true) (hl : p.literal = false)
    (hp : p.settle = .ok q) (hf : q.file = none) (hpath : IsPlain path) (rest : List String) :
    takeAll verb p (path :: rest) = takeAll verb { q with pending := .file path } rest := by
  obtain ⟨-, hfile, hname⟩ := of_settle hp
  have hnone : p.hasFile = false := by
    rw [← hfile, hf]
    rfl
  -- no option waits for its value
  have htake : p.takePlain verb path = p.takeFile verb path := by
    rw [takePlain]
    split
    · next h => exact absurd h (hname _)
    · rfl
  apply takeAll_of_take
  rw [take_plain hl hpath, htake, takeFile, hv, hnone, hp]
  rfl

end Settling

end Progress

end Appraisal.CommandLine
