import Appraisal.Proofs.Limits
import Appraisal.Proofs.Spelling
import Mathlib.Data.List.Forall2
import Mathlib.Data.List.Nodup

/-!
# Orders of a command line

What is chosen for a command may be written in any order, and each option in any of its spellings.
The words of one more part add just that part to what has been read (`reads_step`), so that all
arguments which write out a choice make the one command that has its values. What is not chosen is
taken from the environment or is the default (`parse_arranged`).
-/

namespace Appraisal

/-- The word that asks for a format. -/
def Format.word : Format → String
  | .text => "text"
  | .json => "json"
  | .markdown => "markdown"

namespace CommandLine

/-- What is chosen for a command: its file, and the values of the options that are given. -/
structure Choice where
  file : Option String := none
  language : Option String := none
  company : Option String := none
  userId : Option String := none
  title : Option String := none
  limit : Option UInt32 := none
  serverUrl : Option String := none
  format : Option Format := none
  reportOutput : Option String := none

/-- The texts that stand for the value that is chosen for an option. -/
def Choice.Gives (choice : Choice) (text : String) : Setting → Prop
  | .language => choice.language = some text
  | .company => choice.company = some text
  | .userId => choice.userId = some text
  | .title => choice.title = some text
  | .limit => ∃ n, choice.limit = some n ∧ Text.Numeral text.toList n.toNat
  | .serverUrl => choice.serverUrl = some text
  | .format => ∃ format, choice.format = some format ∧ text = format.word
  | .reportOutput => choice.reportOutput = some text

def Choice.Has (choice : Choice) : Part → Prop
  | .option setting text => choice.Gives text setting
  | .file path => choice.file = some path

namespace Part

/-- The option that a part gives, or none for the file. -/
def place : Part → Option Setting
  | .option setting _ => some setting
  | .file _ => none

/-- Whether the text of a part may stand wherever the part can be written. -/
def IsSafe : Part → Prop
  | .option _ text => text ≠ "" ∧ IsPlain text
  | .file path => IsPlain path

/-- Whether a command takes a part. -/
def Belongs (verb : Verb) : Part → Prop
  | .option setting text => verb.Takes setting text
  | .file path => verb.takesFile = true ∧ IsPlain path

end Part

/-- Whether a choice consists of these parts, each of them once, in any order. -/
structure Choice.ConsistsOf (choice : Choice) (parts : List Part) : Prop where
  once : (parts.map Part.place).Nodup
  given : ∀ part ∈ parts, choice.Has part
  all : ∀ part, choice.Has part → part.place ∈ parts.map Part.place
  safe : ∀ part ∈ parts, part.IsSafe

/-- Arguments that write out a choice: its parts one after another, each in any spelling. -/
inductive Arranges (choice : Choice) : List String → Prop
  | intro {parts : List Part} {words : List (List String)} (hc : choice.ConsistsOf parts)
    (hw : List.Forall₂ Part.Writes parts words) : Arranges choice words.flatten

section Values

variable {text : String} {setting : Setting} {choice : Choice} {n : UInt32} {format : Format}

theorem format?_eq_some_iff : format? text = some format ↔ text = format.word := by
  unfold format?
  cases format <;> split_ifs <;> simp_all [Format.word]

theorem limit?_eq_some_iff : limit? text = some n ↔ Text.Numeral text.toList n.toNat := by
  rw [← Text.readInt_eq_some_iff]
  constructor
  · intro h
    obtain ⟨i, hi, hn⟩ := Option.bind_eq_some_iff.1 h
    split_ifs at hn with hrange
    obtain rfl := Option.some.inj hn
    have hlt : i.toNat < UInt32.size := by
      have hsize : UInt32.size = 0x100000000 := rfl
      omega
    rw [hi, UInt32.toNat_ofNat_of_lt' hlt, Int.toNat_of_nonneg hrange.1]
  · intro h
    have hrange : 0 ≤ (n.toNat : ℤ) ∧ (n.toNat : ℤ) < 0x100000000 := by
      have hlt := n.toNat_lt
      omega
    rw [limit?, h, Option.bind_eq_bind, Option.bind_some, if_pos hrange]
    simp

theorem fault?_of_gives (hg : choice.Gives text setting) (hne : text ≠ "") :
    setting.fault? text = none := by
  cases setting with
  | format =>
    obtain ⟨format, -, hword⟩ := hg
    simp [Setting.fault?, format?_eq_some_iff.2 hword]
  | limit =>
    obtain ⟨n, -, hn⟩ := hg
    simp [Setting.fault?, limit?_eq_some_iff.2 hn]
  | reportOutput => simp [Setting.fault?, hne]
  | _ => rfl

end Values

namespace Progress

section Runs

variable {p q : Progress} {verb : Verb} {part : Part} {done parts : List Part}
  {words : List String} {written : List (List String)}

/-- Whether just these parts have been read and settled. -/
structure Holds (p : Progress) (parts : List Part) : Prop where
  literal : p.literal = false
  value_iff : ∀ setting text, p.value? setting = some text ↔ .option setting text ∈ parts
  file_iff : ∀ path, p.file = some path ↔ .file path ∈ parts

/-- Whether settling what is pending leaves just these parts. -/
def Reads (p : Progress) (parts : List Part) : Prop := ∃ q, p.settle = .ok q ∧ q.Holds parts

theorem reads_start : start.Reads [] := by
  refine ⟨start, rfl, rfl, fun _ _ => ?_, fun _ => ?_⟩
  · simp [value?, start]
  · simp [start]

theorem Reads.literal (h : p.Reads parts) : p.literal = false := by
  obtain ⟨q, hp, hq⟩ := h
  exact (of_settle hp).1.symm.trans hq.literal

theorem Holds.value?_eq_none (h : p.Holds parts) {setting : Setting}
    (hn : some setting ∉ parts.map Part.place) : p.value? setting = none := by
  rw [Option.eq_none_iff_forall_ne_some]
  intro text htext
  exact hn (List.mem_map_of_mem ((h.value_iff setting text).1 htext))

theorem Holds.file_eq_none (h : p.Holds parts) (hn : none ∉ parts.map Part.place) :
    p.file = none := by
  rw [Option.eq_none_iff_forall_ne_some]
  intro path hpath
  exact hn (List.mem_map_of_mem ((h.file_iff path).1 hpath))

theorem Holds.option (h : p.Holds parts) {setting : Setting} {text : String}
    (hn : some setting ∉ parts.map Part.place) : Holds
      { p with given := p.given ++ [(setting, text)], pending := .nothing }
      (parts ++ [.option setting text]) where
  literal := h.literal
  value_iff other value := by
    have hnone := h.value?_eq_none hn
    have hold := h.value_iff other value
    rw [value?] at hnone hold
    rw [value?, List.lookup_append, List.mem_append, ← hold]
    by_cases ho : other = setting
    · subst ho
      simp [hnone, eq_comm]
    · have hlast : [(setting, text)].lookup other = none := by simp [ho]
      simp [hlast, ho]
  file_iff path := by simp [h.file_iff path]

theorem Holds.file (h : p.Holds parts) {path : String} (hn : none ∉ parts.map Part.place) : Holds
    { p with file := some path, pending := .nothing } (parts ++ [.file path]) where
  literal := h.literal
  value_iff setting text := by
    rw [List.mem_append, ← h.value_iff setting text]
    simp [value?]
  file_iff other := by
    have hnone := h.file_iff other
    rw [h.file_eq_none hn] at hnone
    rw [List.mem_append, ← hnone]
    simp [eq_comm]

/-- After the words of one more part, that part has been read besides those before it. -/
theorem reads_step (hr : p.Reads done) (hb : part.Belongs verb) (hw : part.Writes words)
    (hn : part.place ∉ done.map Part.place) (hne : part ≠ .file "") :
    ∃ after : Progress, after.Reads (done ++ [part]) ∧
      ∀ rest, takeAll verb p (words ++ rest) = takeAll verb after rest := by
  have hl := hr.literal
  obtain ⟨q, hp, hq⟩ := hr
  cases part with
  | option setting text =>
    have hadd := add_eq_ok_iff.2 ⟨hq.value?_eq_none hn, hb.faultless, rfl⟩
    obtain ⟨after, hafter, hall⟩ := takeAll_option hb hw hl hp hadd
    exact ⟨after, ⟨_, hafter, hq.option hn⟩, hall⟩
  | file path =>
    cases hw with
    | file =>
      have hempty : path ≠ "" := fun h => hne (by rw [h])
      have hafter : settle { q with pending := .file path } =
          .ok { q with file := some path, pending := .nothing } := by
        simp [settle, hempty]
      exact ⟨{ q with pending := .file path }, ⟨_, hafter, hq.file hn⟩,
        takeAll_file hb.1 hl hp (hq.file_eq_none hn) hb.2⟩

theorem place_notMem (h : ((done ++ part :: parts).map Part.place).Nodup) :
    part.place ∉ done.map Part.place ∧ part.place ∉ parts.map Part.place := by
  rw [List.map_append, List.map_cons, List.nodup_middle, List.nodup_cons, List.mem_append,
    not_or] at h
  exact h.1

/-- After the words of all parts, they have been read besides those before them. -/
theorem reads_run (hw : List.Forall₂ Part.Writes parts written) (hr : p.Reads done)
    (hb : ∀ part ∈ parts, part.Belongs verb) (hn : ((done ++ parts).map Part.place).Nodup)
    (hne : .file "" ∉ parts) :
    ∃ q, takeAll verb p written.flatten = .ok q ∧ q.Holds (done ++ parts) := by
  induction hw generalizing p done with
  | nil =>
    obtain ⟨q, hp, hq⟩ := hr
    exact ⟨q, hp, by rwa [List.append_nil]⟩
  | cons hpart _ ih =>
    rw [List.forall_mem_cons] at hb
    rw [List.mem_cons, not_or] at hne
    obtain ⟨after, hafter, hall⟩ := reads_step hr hb.1 hpart (place_notMem hn).1 (Ne.symm hne.1)
    rw [List.append_cons] at hn ⊢
    rw [List.flatten_cons, hall]
    exact ih hafter hb.2 hn hne.2

/-- What cannot be settled is at fault when the next option begins or the arguments end. -/
theorem takeAll_of_error {fault : UsageError} (hw : List.Forall₂ Part.Writes parts written)
    (hp : p.settle = .error fault) (hl : p.literal = false) (hb : ∀ part ∈ parts, part.Belongs verb)
    (hn : none ∉ parts.map Part.place) : takeAll verb p written.flatten = .error fault := by
  cases hw with
  | nil => exact hp
  | @cons part words parts written hpart _ =>
    rw [List.flatten_cons]
    cases part with
    | option setting text =>
      exact takeAll_option_of_error (hb _ List.mem_cons_self) hpart hl hp _
    | file path => exact absurd List.mem_cons_self hn

theorem takeAll_unnamed (hw : List.Forall₂ Part.Writes parts written) (hr : p.Reads done)
    (hb : ∀ part ∈ parts, part.Belongs verb) (hn : ((done ++ parts).map Part.place).Nodup)
    (hmem : .file "" ∈ parts) : takeAll verb p written.flatten = .error .invalidValue := by
  induction hw generalizing p done with
  | nil => exact absurd hmem List.not_mem_nil
  | @cons part words parts written hpart hrest ih =>
    rw [List.forall_mem_cons] at hb
    obtain ⟨hdone, hparts⟩ := place_notMem hn
    by_cases hfile : part = .file ""
    · -- the file is not settled before what follows it is read
      subst hfile
      cases hpart with
      | file =>
        have hl := hr.literal
        obtain ⟨q, hp, hq⟩ := hr
        have hempty : settle { q with pending := .file "" } = .error .invalidValue := rfl
        rw [List.flatten_cons, List.singleton_append,
          takeAll_file hb.1.1 hl hp (hq.file_eq_none hdone) hb.1.2]
        exact takeAll_of_error hrest hempty hq.literal hb.2 hparts
    · obtain ⟨after, hafter, hall⟩ := reads_step hr hb.1 hpart hdone hfile
      rw [List.append_cons] at hn
      rw [List.flatten_cons, hall]
      exact ih hafter hb.2 hn (List.mem_of_ne_of_mem (Ne.symm hfile) hmem)

end Runs

end Progress

section Choices

variable {choice : Choice} {verb : Verb} {arguments : List String} {p : Progress}

theorem exists_numeral (n : ℕ) : ∃ text : String, Text.Numeral text.toList n := by
  obtain ⟨hne, hdigits, hvalue⟩ := Text.readNat_eq_some_iff.1 (Text.readNat_toDigits n)
  have hnumeral := Text.Numeral.plain hne hdigits
  rw [← Text.ofDigits_eq, hvalue] at hnumeral
  exact ⟨String.ofList (Nat.toDigits 10 n), by rwa [String.toList_ofList]⟩

/-- Whether a command has a place for everything that is chosen. -/
def Choice.Suits (choice : Choice) (verb : Verb) : Prop :=
  ∀ part, choice.Has part → match part with
    | .option setting _ => setting ∈ verb.settings
    | .file _ => verb.takesFile = true

/-- Whether just the values that are chosen have been read. -/
structure Choice.Told (choice : Choice) (p : Progress) : Prop where
  file : p.file = choice.file
  gives : ∀ setting text, p.value? setting = some text → choice.Gives text setting
  silent : ∀ setting, p.value? setting = none → ∀ text, ¬ choice.Gives text setting

namespace Choice.Told

theorem bind_value? (h : choice.Told p) {α : Type} {setting : Setting} {read : String → Option α}
    {chosen : Option α} (hread : ∀ text, choice.Gives text setting → read text = chosen)
    (hgives : ∀ value, chosen = some value → ∃ text, choice.Gives text setting) :
    (p.value? setting).bind read = chosen := by
  cases hvalue : p.value? setting with
  | some text => exact hread text (h.gives setting text hvalue)
  | none =>
    cases hchosen : chosen with
    | none => rfl
    | some value =>
      obtain ⟨text, htext⟩ := hgives value hchosen
      exact absurd htext (h.silent setting hvalue text)

theorem value? (h : choice.Told p) {setting : Setting} {chosen : Option String}
    (hgives : ∀ text, choice.Gives text setting ↔ chosen = some text) :
    p.value? setting = chosen := by
  have hbind : (p.value? setting).bind some = chosen :=
    h.bind_value? (fun text ht => ((hgives text).1 ht).symm)
      fun text ht => ⟨text, (hgives text).2 ht⟩
  simpa using hbind

theorem limit (h : choice.Told p) : (p.value? .limit).bind limit? = choice.limit := by
  refine h.bind_value? ?_ fun n hn => ?_
  · rintro text ⟨n, hn, htext⟩
    rw [hn, limit?_eq_some_iff.2 htext]
  · obtain ⟨text, htext⟩ := exists_numeral n.toNat
    exact ⟨text, n, hn, htext⟩

theorem output (h : choice.Told p) :
    p.output = ⟨choice.format.getD .text, choice.reportOutput⟩ := by
  have hformat : (p.value? .format).bind format? = choice.format := by
    refine h.bind_value? ?_ fun format hf => ⟨format.word, format, hf, rfl⟩
    rintro text ⟨format, hf, hword⟩
    rw [hf, format?_eq_some_iff.2 hword]
  rw [Progress.output, hformat, h.value? fun _ => Iff.rfl]

theorem source (h : choice.Told p) : p.source = match choice.file with
    | none => .error .missingArgument
    | some file => .ok ⟨file, choice.language, choice.company.getD Default.company⟩ := by
  have hlanguage : p.value? .language = choice.language := h.value? fun _ => Iff.rfl
  have hcompany : p.value? .company = choice.company := h.value? fun _ => Iff.rfl
  cases hfile : choice.file with
  | none => simp only [Progress.source, h.file, hfile]
  | some file => simp only [Progress.source, h.file, hfile, hlanguage, hcompany]

theorem serverUrl (h : choice.Told p) (environment : Environment) : p.serverUrl environment =
    choice.serverUrl.getD (environment.serverUrl.getD Default.serverUrl) := by
  rw [Progress.serverUrl, h.value? fun _ => Iff.rfl]

theorem analyze (h : choice.Told p) (environment : Environment) :
    p.command .analyze environment = match choice.file with
      | some file => .ok (.analyze
          ⟨file, choice.language, choice.company.getD Default.company⟩
          ⟨choice.format.getD .text, choice.reportOutput⟩)
      | none => .error .missingArgument := by
  rw [Progress.command, h.source, h.output]
  cases choice.file <;> rfl

theorem submit (h : choice.Told p) (environment : Environment) :
    p.command .submit environment = match choice.file, choice.userId.or environment.userId with
      | some file, some userId => .ok (.submit
          ⟨file, choice.language, choice.company.getD Default.company⟩ userId choice.title
          (choice.serverUrl.getD (environment.serverUrl.getD Default.serverUrl))
          ⟨choice.format.getD .text, choice.reportOutput⟩)
      | _, _ => .error .missingArgument := by
  have huser : p.value? .userId = choice.userId := h.value? fun _ => Iff.rfl
  have htitle : p.value? .title = choice.title := h.value? fun _ => Iff.rfl
  rw [Progress.command, h.source, h.output, h.serverUrl, huser, htitle]
  cases choice.userId.or environment.userId <;> cases choice.file <;> rfl

theorem leaderboard (h : choice.Told p) (environment : Environment) :
    p.command .leaderboard environment = .ok (.leaderboard (choice.limit.getD Default.limit)
      (choice.serverUrl.getD (environment.serverUrl.getD Default.serverUrl))
      ⟨choice.format.getD .text, choice.reportOutput⟩) := by
  rw [Progress.command, h.limit, h.serverUrl, h.output]

end Choice.Told

namespace Choice.ConsistsOf

variable {parts : List Part}

theorem belongs (h : choice.ConsistsOf parts) (hs : choice.Suits verb) :
    ∀ part ∈ parts, part.Belongs verb := by
  intro part hpart
  have hhas := h.given part hpart
  have hsafe := h.safe part hpart
  have hplace := hs part hhas
  cases part with
  | option setting text => exact ⟨hplace, fault?_of_gives hhas hsafe.1, hsafe.1, hsafe.2⟩
  | file path => exact ⟨hplace, hsafe⟩

theorem exists_option_mem (h : choice.ConsistsOf parts) {setting : Setting} {text : String}
    (hg : choice.Gives text setting) : ∃ other, .option setting other ∈ parts := by
  obtain ⟨part, hpart, hplace⟩ := List.mem_map.1 (h.all (.option setting text) hg)
  cases part with
  | option other value =>
    obtain rfl : other = setting := Option.some.inj hplace
    exact ⟨value, hpart⟩
  | file path => cases hplace

theorem file_mem_iff (h : choice.ConsistsOf parts) {path : String} :
    .file path ∈ parts ↔ choice.file = some path := by
  refine ⟨h.given (.file path), fun hf => ?_⟩
  obtain ⟨part, hpart, hplace⟩ := List.mem_map.1 (h.all (.file path) hf)
  cases part with
  | option setting text => cases hplace
  | file other =>
    have hother : choice.file = some other := h.given _ hpart
    obtain rfl : other = path := Option.some.inj (hother.symm.trans hf)
    exact hpart

theorem told (h : choice.ConsistsOf parts) (hp : p.Holds parts) : choice.Told p where
  file := Option.ext fun path => (hp.file_iff path).trans h.file_mem_iff
  gives setting text ht := h.given _ ((hp.value_iff setting text).1 ht)
  silent setting hnone text hg := by
    obtain ⟨other, hother⟩ := h.exists_option_mem hg
    rw [(hp.value_iff setting other).2 hother] at hnone
    cases hnone

end Choice.ConsistsOf

theorem parse_word (verb : Verb) (environment : Environment) (arguments : List String) :
    parse environment (verb.word :: arguments) =
      (Progress.takeAll verb .start arguments).bind fun p => p.command verb environment := by
  rw [parse, Verb.ofWord?_word]
  rfl

/-- A choice is read off its arguments, whatever their order and spelling. -/
theorem exists_told (hs : choice.Suits verb) (ha : Arranges choice arguments)
    (hf : choice.file ≠ some "") (environment : Environment) : ∃ p : Progress, choice.Told p ∧
      parse environment (verb.word :: arguments) = p.command verb environment := by
  rcases ha with ⟨hc, hw⟩
  obtain ⟨p, hread, hp⟩ := Progress.reads_run hw Progress.reads_start (hc.belongs hs) hc.once
    (mt hc.file_mem_iff.1 hf)
  refine ⟨p, hc.told hp, ?_⟩
  rw [parse_word, hread]
  rfl

theorem parse_of_unnamed (hs : choice.Suits verb) (ha : Arranges choice arguments)
    (hf : choice.file = some "") (environment : Environment) :
    parse environment (verb.word :: arguments) = .error .invalidValue := by
  rcases ha with ⟨hc, hw⟩
  have hread := Progress.takeAll_unnamed hw Progress.reads_start (hc.belongs hs) hc.once
    (hc.file_mem_iff.2 hf)
  rw [parse_word, hread]
  rfl

end Choices

/-- Options and a file make the command with their values, in whatever order and spelling they are
written: what is not given has its value from the environment if there is one there, and else the
default or none. A command that needs a file is refused without one, a submission without a user as
well, and a file whose name is empty is a wrong value. -/
theorem parse_arranged (environment : Environment) :
    (∀ file language company format reportOutput arguments,
      Arranges { file, language, company, format, reportOutput } arguments →
      parse environment ("analyze" :: arguments) =
        if file = some "" then .error .invalidValue
        else match file with
          | some file =>
            .ok (.analyze ⟨file, language, company.getD "google"⟩ ⟨format.getD .text, reportOutput⟩)
          | none => .error .missingArgument) ∧
    (∀ file language company userId title serverUrl format reportOutput arguments, Arranges
        { file, language, company, userId, title, serverUrl, format, reportOutput } arguments →
      parse environment ("submit" :: arguments) =
        if file = some "" then .error .invalidValue
        else match file, userId.or environment.userId with
          | some file, some userId =>
            .ok (.submit ⟨file, language, company.getD "google"⟩ userId title
              (serverUrl.getD (environment.serverUrl.getD "http://127.0.0.1:8080"))
              ⟨format.getD .text, reportOutput⟩)
          | _, _ => .error .missingArgument) ∧
    ∀ limit serverUrl format reportOutput arguments,
      Arranges { limit, serverUrl, format, reportOutput } arguments →
      parse environment ("leaderboard" :: arguments) =
        .ok (.leaderboard (limit.getD 10)
          (serverUrl.getD (environment.serverUrl.getD "http://127.0.0.1:8080"))
          ⟨format.getD .text, reportOutput⟩) := by
  refine ⟨fun file language company format reportOutput arguments ha => ?_,
    fun file language company userId title serverUrl format reportOutput arguments ha => ?_,
    fun limit serverUrl format reportOutput arguments ha => ?_⟩
  · have hs : Choice.Suits { file, language, company, format, reportOutput } .analyze := by
      rintro (⟨setting, text⟩ | path) h
      · cases setting <;> simp_all [Choice.Has, Choice.Gives, Verb.settings]
      · rfl
    split_ifs with hf
    · exact parse_of_unnamed hs ha hf environment
    · obtain ⟨p, ht, hparse⟩ := exists_told hs ha hf environment
      exact hparse.trans (ht.analyze environment)
  · have hs : Choice.Suits
        { file, language, company, userId, title, serverUrl, format, reportOutput } .submit := by
      rintro (⟨setting, text⟩ | path) h
      · cases setting <;> simp_all [Choice.Has, Choice.Gives, Verb.settings]
      · rfl
    split_ifs with hf
    · exact parse_of_unnamed hs ha hf environment
    · obtain ⟨p, ht, hparse⟩ := exists_told hs ha hf environment
      exact hparse.trans (ht.submit environment)
  · have hs : Choice.Suits { limit, serverUrl, format, reportOutput } .leaderboard := by
      rintro (⟨setting, text⟩ | path) h
      · cases setting <;> simp_all [Choice.Has, Choice.Gives, Verb.settings]
      · cases h
    obtain ⟨p, ht, hparse⟩ := exists_told hs ha nofun environment
    exact hparse.trans (ht.leaderboard environment)

/-- A file among the options, each in another spelling, values that hold an equals sign or look like
numerals, and an environment that the options overrule in part. -/
theorem parse_arranged_scattered :
    parse ⟨some "eve", some "http://e"⟩ ["submit", "-lgo", "--title=a=b", "x.py", "--user-id", "ada",
        "-c=meta", "--format", "json"] =
      .ok (.submit ⟨"x.py", some "go", "meta"⟩ "ada" (some "a=b") "http://e" ⟨.json, none⟩) ∧
    parse ⟨some "eve", none⟩ ["analyze", "-c", "=", "--format=text"] = .error .missingArgument ∧
    parse ⟨none, none⟩ ["leaderboard", "--report-output=o", "--limit", "+007"] =
      .ok (.leaderboard 7 "http://127.0.0.1:8080" ⟨.text, some "o"⟩) := by
  have hfull : Arranges
      { file := some "x.py", language := some "go", company := some "meta", userId := some "ada",
        title := some "a=b", format := some .json }
      ["-lgo", "--title=a=b", "x.py", "--user-id", "ada", "-c=meta", "--format", "json"] := by
    have hwritten : List.Forall₂ Part.Writes
        [.option .language "go", .option .title "a=b", .file "x.py", .option .userId "ada",
          .option .company "meta", .option .format "json"]
        [["-lgo"], ["--title=a=b"], ["x.py"], ["--user-id", "ada"], ["-c=meta"],
          ["--format", "json"]] :=
      .cons (@Part.Writes.attached .language 'l' "go" rfl (by decide)) <|
        .cons .nameEquals <| .cons .file <| .cons .name <|
        .cons (@Part.Writes.letterEquals .company 'c' "meta" rfl) <| .cons .name .nil
    refine .intro ⟨by decide, by simp [Choice.Has, Choice.Gives, Format.word], ?_,
      by simp [Part.IsSafe, IsPlain]⟩ hwritten
    rintro (⟨setting, text⟩ | path) h
    · cases setting <;> simp_all [Choice.Has, Choice.Gives, Part.place]
    · simp [Part.place]
  have hfileless : Arranges { company := some "=", format := some .text }
      ["-c", "=", "--format=text"] := by
    have hwritten : List.Forall₂ Part.Writes [.option .company "=", .option .format "text"]
        [["-c", "="], ["--format=text"]] :=
      .cons (@Part.Writes.letter .company 'c' "=" rfl) (.cons .nameEquals .nil)
    refine .intro ⟨by decide, by simp [Choice.Has, Choice.Gives, Format.word], ?_,
      by simp [Part.IsSafe, IsPlain]⟩ hwritten
    rintro (⟨setting, text⟩ | path) h
    · cases setting <;> simp_all [Choice.Has, Choice.Gives, Part.place]
    · cases h
  have hranked : Arranges { limit := some 7, reportOutput := some "o" }
      ["--report-output=o", "--limit", "+007"] := by
    have hnumeral : Text.Numeral ['+', '0', '0', '7'] 7 := Text.readInt_eq_some_iff.1 (by decide)
    have hwritten : List.Forall₂ Part.Writes [.option .reportOutput "o", .option .limit "+007"]
        [["--report-output=o"], ["--limit", "+007"]] := .cons .nameEquals (.cons .name .nil)
    refine .intro ⟨by decide, by simp [Choice.Has, Choice.Gives, hnumeral], ?_,
      by simp [Part.IsSafe, IsPlain]⟩ hwritten
    rintro (⟨setting, text⟩ | path) h
    · cases setting <;> simp_all [Choice.Has, Choice.Gives, Part.place]
    · cases h
  exact ⟨(parse_arranged _).2.1 _ _ _ _ _ _ _ _ _ hfull,
    (parse_arranged _).1 _ _ _ _ _ _ hfileless, (parse_arranged _).2.2 _ _ _ _ _ hranked⟩

/-- An empty text begins with no hyphen, but is no file. -/
theorem unnamed_refused :
    Arranges { file := some "" } [""] ∧
      parse ⟨none, none⟩ ["analyze", ""] = .error .invalidValue := by
  have hwritten : List.Forall₂ Part.Writes [.file ""] [[""]] := .cons .file .nil
  refine ⟨.intro ⟨by decide, by simp [Choice.Has], ?_, by simp [Part.IsSafe, IsPlain]⟩ hwritten,
    by decide⟩
  rintro (⟨setting, text⟩ | path) h
  · cases setting <;> simp [Choice.Has, Choice.Gives] at h
  · simp [Part.place]

end CommandLine

end Appraisal
