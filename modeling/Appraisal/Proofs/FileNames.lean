import Appraisal.CommandLine.Run
import Mathlib.Data.List.Basic
import Mathlib.Data.List.TakeWhile
import Mathlib.Tactic.SplitIfs

/-!
# What a path says of a file

A path leads to a name through a folder before it and past the slashes and single dots that trail.
The name alone decides what the file is called and, by its extension, which language it is in,
unless another is named for it (`subject_language_of_leadsTo`).
-/

namespace Appraisal

namespace Text

/-- A text with a character in it is parted by the last one. -/
theorem exists_last {c : Char} {text : List Char} (h : c ∈ text) :
    ∃ before after, text = before ++ c :: after ∧ c ∉ after := by
  obtain ⟨after, before, hsplit, hafter⟩ := List.eq_append_cons_of_mem (List.mem_reverse.2 h)
  refine ⟨before.reverse, after.reverse, ?_, by simpa using hafter⟩
  rw [← List.reverse_reverse text, hsplit]
  simp

end Text

theorem Language.parse_trimmed (name : String) : parse (Text.trimmed name) = parse name := by
  simp [parse, Text.normalName, Text.trimmed]

namespace Path

/-- Slashes, each with a single dot after it or none. -/
inductive Trail : List Char → Prop
  | nil : Trail []
  | slash {rest : List Char} (h : Trail rest) : Trail ('/' :: rest)
  | dot {rest : List Char} (h : Trail rest) : Trail ('/' :: '.' :: rest)

/-- Whether a text may be the name of a file. -/
structure IsName (name : List Char) : Prop where
  ne_nil : name ≠ []
  slash : '/' ∉ name
  ne_here : name ≠ ['.']
  ne_above : name ≠ ['.', '.']

/-- Paths that lead to a name: a folder before it, if there is any, ends in a slash, and what
follows it only trails. -/
inductive LeadsTo (name : List Char) : List Char → Prop
  | intro (folder trail : List Char) (hf : ∀ c ∈ folder.getLast?, c = '/') (ht : Trail trail) :
    LeadsTo name (folder ++ name ++ trail)

/-- Names with this extension: what follows their last dot, which is not their first character. -/
inductive Extended (extension : List Char) : List Char → Prop
  | intro (stem : List Char) (hs : stem ≠ []) (he : '.' ∉ extension) :
    Extended extension (stem ++ '.' :: extension)

section Names

variable {path name trail other a : List Char}

theorem Trail.append (h : Trail trail) (ho : Trail other) : Trail (trail ++ other) := by
  induction h with
  | nil => exact ho
  | slash _ ih => exact .slash ih
  | dot _ ih => exact .dot ih

theorem names_append_slash (a b : List Char) : names (a ++ '/' :: b) = names a ++ names b := by
  rw [names, pieces, Text.split_append_cons, List.filter_append]
  rfl

theorem names_of_piece (h : '/' ∉ a) : names a = if a = [] ∨ a = ['.'] then [] else [a] := by
  rw [names, pieces, Text.split_of_notMem h]
  split_ifs with ha
  · rcases ha with rfl | rfl <;> rfl
  · simpa using ha

/-- What trails adds no name. -/
theorem names_append_trail (h : Trail trail) : ∀ a : List Char, names (a ++ trail) = names a := by
  induction h with
  | nil => exact fun a => by rw [List.append_nil]
  | @slash rest _ ih =>
    intro a
    have hrest : names rest = [] := ih []
    rw [names_append_slash, hrest, List.append_nil]
  | @dot rest _ ih =>
    intro a
    have hrest : names ('.' :: rest) = [] := ih ['.']
    rw [names_append_slash, hrest, List.append_nil]

theorem fileName?_of_leadsTo (hn : IsName name) (h : LeadsTo name path) :
    fileName? path = some name := by
  rcases h with ⟨folder, trail, hf, ht⟩
  have hname : names name = [name] := by
    rw [names_of_piece hn.slash, if_neg]
    simp [hn.ne_nil, hn.ne_here]
  have hlast : (names (folder ++ name)).getLast? = some name := by
    rcases List.eq_nil_or_concat' folder with rfl | ⟨front, c, rfl⟩
    · rw [List.nil_append, hname]
      rfl
    · obtain rfl : c = '/' := hf c (by simp)
      rw [List.append_assoc, List.singleton_append, names_append_slash, hname]
      simp
  rw [fileName?, names_append_trail ht, hlast]
  simp [hn.ne_above]

theorem leadsTo_of_folder {folder : List Char} (h : ∀ c ∈ folder.getLast?, c = '/')
    (name : List Char) : LeadsTo name (folder ++ name) := by
  rw [← List.append_nil (folder ++ name)]
  exact .intro folder [] h .nil

theorem leadsTo_self (name : List Char) : LeadsTo name name :=
  @leadsTo_of_folder [] (by simp) name

/-- The last name of a path is one that the path leads to. -/
theorem leadsTo_of_fileName? (path : List Char) (h : fileName? path = some name) :
    IsName name ∧ LeadsTo name path := by
  by_cases hslash : '/' ∈ path
  · obtain ⟨front, last, rfl, hlast⟩ := Text.exists_last hslash
    have hlt : front.length < (front ++ '/' :: last).length := by simp
    by_cases hempty : last = [] ∨ last = ['.']
    · -- the piece at the end does not count, and the path trails
      rw [fileName?, names_append_slash, names_of_piece hlast, if_pos hempty, List.append_nil,
        ← fileName?] at h
      obtain ⟨hn, hleads⟩ := leadsTo_of_fileName? front h
      rcases hleads with ⟨folder, trail, hf, ht⟩
      have hlasts : Trail ('/' :: last) := by
        rcases hempty with rfl | rfl
        · exact .slash .nil
        · exact .dot .nil
      rw [List.append_assoc]
      exact ⟨hn, .intro folder _ hf (ht.append hlasts)⟩
    · rw [fileName?, names_append_slash, names_of_piece hlast, if_neg hempty,
        List.getLast?_concat, Option.filter_eq_some_iff] at h
      obtain ⟨rfl, habove⟩ : last = name ∧ _ := ⟨Option.some.inj h.1, h.2⟩
      rw [not_or] at hempty
      have hfolder : ∀ c ∈ (front ++ ['/']).getLast?, c = '/' := by simp
      rw [List.append_cons]
      exact ⟨⟨hempty.1, hlast, hempty.2, by simpa using habove⟩, leadsTo_of_folder hfolder _⟩
  · rw [fileName?, names_of_piece hslash] at h
    split_ifs at h with hempty
    · cases h
    · rw [not_or] at hempty
      obtain ⟨hname, habove⟩ := Option.filter_eq_some_iff.1 h
      obtain rfl : path = name := Option.some.inj hname
      exact ⟨⟨hempty.1, hslash, hempty.2, by simpa using habove⟩, leadsTo_self _⟩
termination_by path.length

end Names

section Extensions

variable {name extension : List Char} {language : Language}

theorem nameExtension?_append (he : '.' ∉ extension) (stem : List Char) :
    nameExtension? (stem ++ '.' :: extension) = if stem = [] then none else some extension := by
  have hrev : ∀ c ∈ extension.reverse, (c != '.') = true := fun c hc => by
    simpa using ne_of_mem_of_not_mem (List.mem_reverse.1 hc) he
  have hname : (stem ++ '.' :: extension).reverse = extension.reverse ++ '.' :: stem.reverse := by
    simp
  unfold nameExtension?
  rw [hname, List.dropWhile_append_of_pos hrev, List.takeWhile_append_of_pos hrev]
  rcases List.eq_nil_or_concat' stem with rfl | ⟨front, c, rfl⟩ <;> simp

theorem nameExtension?_of_notMem (h : '.' ∉ name) : nameExtension? name = none := by
  have hdrop : name.reverse.dropWhile (· != '.') = [] := by
    rw [List.dropWhile_eq_nil_iff]
    exact fun c hc => by simpa using ne_of_mem_of_not_mem (List.mem_reverse.1 hc) h
  rw [nameExtension?, hdrop]

theorem nameExtension?_eq_some_iff :
    nameExtension? name = some extension ↔ Extended extension name := by
  constructor
  · intro h
    by_cases hdot : '.' ∈ name
    · obtain ⟨stem, after, rfl, ha⟩ := Text.exists_last hdot
      rw [nameExtension?_append ha] at h
      split_ifs at h with hs
      obtain rfl := Option.some.inj h
      exact .intro stem hs ha
    · rw [nameExtension?_of_notMem hdot] at h
      cases h
  · rintro ⟨stem, hs, he⟩
    rw [nameExtension?_append he, if_neg hs]

/-- No extension stands twice in the table. -/
theorem extensionLanguage?_eq_some_iff : extensionLanguage? extension = some language ↔
    (String.ofList (extension.map Char.toLower), language) ∈ extensions := by
  have hfind : ∀ entry ∈ extensions,
      extensions.find? (fun other => other.1.toList == entry.1.toList) = some entry := by decide
  unfold extensionLanguage?
  rw [Option.map_eq_some_iff]
  constructor
  · rintro ⟨entry, hentry, rfl⟩
    have hkey := List.find?_some hentry
    rw [← eq_of_beq hkey, String.ofList_toList]
    exact List.mem_of_find?_eq_some hentry
  · intro h
    have hentry := hfind _ h
    rw [String.toList_ofList] at hentry
    exact ⟨_, hentry, rfl⟩

theorem language?_eq_some_iff {path : String} : language? path = some language ↔
    ∃ name, fileName? path.toList = some name ∧ ∃ extension, Extended extension name ∧
      (String.ofList (extension.map Char.toLower), language) ∈ extensions := by
  simp only [language?, extension?, Option.bind_eq_some_iff, nameExtension?_eq_some_iff,
    extensionLanguage?_eq_some_iff]
  constructor
  · rintro ⟨extension, ⟨name, hname, he⟩, hl⟩
    exact ⟨name, hname, extension, he, hl⟩
  · rintro ⟨name, hname, extension, he, hl⟩
    exact ⟨extension, ⟨name, hname, he⟩, hl⟩

end Extensions

end Path

namespace CommandLine

open Appraisal.Path (IsName LeadsTo Extended)

section Resolution

variable {source : SourceOptions} {name : String} {language : Language}

theorem sourceLanguage_eq_of_named (hn : name ∈ source.language) (hb : Text.isBlank name = false) :
    sourceLanguage source = .ok (.parse (Text.trimmed name)) := by
  have hfilter : source.language.filter (fun name => !Text.isBlank name) = some name :=
    Option.filter_eq_some_iff.2 ⟨hn, by simp [hb]⟩
  rw [sourceLanguage, Path.languageOf?, hfilter, Language.parse_trimmed]

theorem sourceLanguage_of_blank (h : ∀ name ∈ source.language, Text.isBlank name = true) :
    sourceLanguage source = .ok language ↔ Path.language? source.file = some language := by
  have hfilter : source.language.filter (fun name => !Text.isBlank name) = none :=
    Option.filter_eq_none_iff.2 fun name hn => by simp [h name hn]
  rw [sourceLanguage, Path.languageOf?, hfilter]
  cases Path.language? source.file <;> simp

/-- A language is missing only where neither the options nor the path have one. -/
theorem sourceLanguage_eq_error_iff : (∃ error, sourceLanguage source = .error error) ↔
    (∀ name ∈ source.language, Text.isBlank name = true) ∧ Path.language? source.file = none := by
  constructor
  · rintro ⟨error, herror⟩
    have hblank : ∀ name ∈ source.language, Text.isBlank name = true := by
      intro name hn
      by_contra hb
      rw [sourceLanguage_eq_of_named hn (by simpa using hb)] at herror
      cases herror
    refine ⟨hblank, Option.eq_none_iff_forall_ne_some.2 fun language hl => ?_⟩
    rw [(sourceLanguage_of_blank hblank).2 hl] at herror
    cases herror
  · rintro ⟨hblank, hnone⟩
    cases hs : sourceLanguage source with
    | error error => exact ⟨error, rfl⟩
    | ok language =>
      rw [sourceLanguage_of_blank hblank, hnone] at hs
      cases hs

end Resolution

/-- Where a path leads to a name, the file is called by it, and its language is the one that the
table has for its extension in small letters, wherever the file is. A path that leads to none is its
own subject and has no language. A language that the options name goes before the one of the path,
and there is no language only where neither gives one. -/
theorem subject_language_of_leadsTo :
    (∀ path name : String, IsName name.toList → LeadsTo name.toList path.toList →
      Path.subject path = name ∧ Path.language? path = Path.language? name ∧
      ∀ language, Path.language? path = some language ↔ ∃ extension,
        Extended extension name.toList ∧
        (String.ofList (extension.map Char.toLower), language) ∈ Path.extensions) ∧
    (∀ path : String, (∀ name, IsName name → ¬ LeadsTo name path.toList) →
      Path.subject path = path ∧ Path.language? path = none) ∧
    ∀ source : SourceOptions,
      (∀ name ∈ source.language, Text.isBlank name = false →
        sourceLanguage source = .ok (.parse (Text.trimmed name))) ∧
      ((∀ name ∈ source.language, Text.isBlank name = true) → ∀ language,
        sourceLanguage source = .ok language ↔ Path.language? source.file = some language) ∧
      ((∃ error, sourceLanguage source = .error error) ↔
        (∀ name ∈ source.language, Text.isBlank name = true) ∧
          Path.language? source.file = none) := by
  refine ⟨fun path name hn hl => ?_, fun path hnot => ?_, fun source =>
    ⟨fun _ => sourceLanguage_eq_of_named, fun hblank _ => sourceLanguage_of_blank hblank,
      sourceLanguage_eq_error_iff⟩⟩
  · have hpath : Path.fileName? path.toList = some name.toList := Path.fileName?_of_leadsTo hn hl
    have hself : Path.fileName? name.toList = some name.toList :=
      Path.fileName?_of_leadsTo hn (Path.leadsTo_self _)
    refine ⟨?_, ?_, fun language => ?_⟩
    · simp [Path.subject, hpath]
    · simp [Path.language?, Path.extension?, hpath, hself]
    · simp [Path.language?_eq_some_iff, hpath]
  · have hnone : Path.fileName? path.toList = none := by
      rw [Option.eq_none_iff_forall_ne_some]
      intro name hname
      obtain ⟨hn, hl⟩ := Path.leadsTo_of_fileName? path.toList hname
      exact hnot name hn hl
    simp [Path.subject, Path.language?, Path.extension?, hnone]

/-- A path through the folder above and a folder with an extension of its own, with slashes and dots
behind the name. -/
theorem subject_language_of_leadsTo_trailing :
    Path.subject "../b.go//.a.b.PY/.//" = ".a.b.PY" ∧
      Path.language? "../b.go//.a.b.PY/.//" = some .python ∧
      Path.subject "x/.py" = ".py" ∧ Path.language? "x/.py" = none := by
  obtain ⟨hleads, -⟩ := subject_language_of_leadsTo
  have htrail : LeadsTo ".a.b.PY".toList "../b.go//.a.b.PY/.//".toList :=
    .intro "../b.go//".toList "/.//".toList (by simp) (.dot (.slash (.slash .nil)))
  have hhidden : LeadsTo ".py".toList "x/.py".toList := .intro "x/".toList [] (by simp) .nil
  obtain ⟨hsubject, -, hlanguage⟩ := hleads _ ".a.b.PY" ⟨by decide, by decide, by decide, by decide⟩
    htrail
  obtain ⟨hhiddenSubject, hsame, -⟩ := hleads _ ".py" ⟨by decide, by decide, by decide, by decide⟩
    hhidden
  refine ⟨hsubject, (hlanguage _).2 ⟨"PY".toList, .intro ".a.b".toList (by decide) (by decide),
    by decide⟩, hhiddenSubject, ?_⟩
  rw [hsame]
  decide

end CommandLine

end Appraisal
