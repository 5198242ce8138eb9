import Appraisal.Proofs.Fences
import Appraisal.Proofs.Significand

/-!
# Numbers in a reply

A reply gives a number as a literal or as a text. What is read from a text is a numeral or the name
of an infinity or of no number (`isSome_read?_iff`). An integer comes out of either form as it went
in, held between zero and the bound of its field, however many digits it is written with
(`count_of_gives`), and whatever is no number counts as zero (`count_of_mute`).
-/

namespace Appraisal

namespace Text

theorem toLower_of_isDigit {c : Char} (h : c.isDigit = true) : c.toLower = c := by
  obtain ⟨-, hle⟩ := code_of_isDigit h
  unfold Char.toLower
  split
  · next hupper =>
    have hge : 65 ≤ c.toNat := UInt32.le_iff_toNat_le.1 hupper.1
    omega
  · rfl

theorem isSpace_of_isDigit {c : Char} (h : c.isDigit = true) : isSpace c = false := by
  obtain ⟨hge, hle⟩ := code_of_isDigit h
  simp only [isSpace, Bool.or_eq_false_iff, Bool.and_eq_false_iff, decide_eq_false_iff_not,
    beq_eq_false_iff_ne]
  omega

theorem trim_digits {sign digits : List Char} (hs : sign ∈ [[], ['+'], ['-']]) (hn : digits ≠ [])
    (hd : digits.all Char.isDigit = true) : trim (sign ++ digits) = sign ++ digits := by
  have hsign : ∀ sign ∈ [[], ['+'], ['-']], sign.all (!isSpace ·) = true := by decide
  have hdigits : digits.all (!isSpace ·) = true := by
    rw [List.all_eq_true] at hd ⊢
    exact fun c hc => by rw [isSpace_of_isDigit (hd c hc), Bool.not_false]
  have hvisible : (sign ++ digits).all (!isSpace ·) = true := by
    rw [List.all_append, hsign sign hs, hdigits, Bool.and_self]
  have hne : sign ++ digits ≠ [] := List.append_ne_nil_of_right_ne_nil sign hn
  rw [← List.append_nil (sign ++ digits), trim_visible_append hne hvisible]
  rfl

end Text

namespace Binary64

/-- Digits with a point among them or without, and at least one digit. -/
inductive Mantissa : List Char → Prop
  | whole {digits : List Char} (hn : digits ≠ []) (hd : digits.all Char.isDigit = true) :
    Mantissa digits
  | pointed {whole fraction : List Char} (hn : whole ++ fraction ≠ [])
    (hw : whole.all Char.isDigit = true) (hf : fraction.all Char.isDigit = true) :
    Mantissa (whole ++ '.' :: fraction)

/-- The names of what is no finite number. -/
def names : List (List Char) := ["inf".toList, "infinity".toList, "nan".toList]

/-- What is read as a number: a name in any case, or digits and perhaps an exponent, after a sign or
none. -/
inductive Numeral : List Char → Prop
  | name {sign word : List Char} (hs : sign ∈ [[], ['+'], ['-']])
    (hw : word.map Char.toLower ∈ names) :
    Numeral (sign ++ word)
  | decimal {sign mantissa spelled : List Char} {exponent : Option (Bool × List Char)}
    (hs : sign ∈ [[], ['+'], ['-']]) (hm : Mantissa mantissa)
    (he : Json.SpellsExponent exponent spelled) : Numeral (sign ++ (mantissa ++ spelled))

section Reading

variable {negative : Bool} {text sign body : List Char} {x : Binary64}

theorem spells_of_readExponent {i : ℤ} (h : readExponent text = some i) :
    ∃ exponent, Json.SpellsExponent exponent text := by
  rw [readExponent.eq_def] at h
  split at h
  · exact ⟨none, .missing⟩
  · next e rest =>
    obtain ⟨sign, hs, hrest, -⟩ := Json.exists_sign rest
    split_ifs at h with he
    rw [Bool.or_eq_true, decide_eq_true_eq, decide_eq_true_eq] at he
    obtain ⟨_, hread, -⟩ := Option.map_eq_some_iff.1 h
    obtain ⟨_, hn, -⟩ := Option.bind_eq_some_iff.1 hread
    obtain ⟨hne, hd, -⟩ := Text.readNat_eq_some_iff.1 hn
    rw [hrest]
    exact ⟨_, .present he hs hne hd⟩

theorem isSome_readExponent {exponent : Option (Bool × List Char)}
    (h : Json.SpellsExponent exponent text) : (readExponent text).isSome = true := by
  cases h with
  | missing => rfl
  | @present e sign digits he hs hn hd =>
    have hsign := Json.splitSign_append hs hn hd []
    rw [List.append_nil] at hsign
    have hread : Text.readNat digits = some (Text.ofDigits digits) :=
      Text.readNat_eq_some_iff.2 ⟨hn, hd, rfl⟩
    have hletter : (decide (e = 'e') || decide (e = 'E')) = true := by
      rw [Bool.or_eq_true, decide_eq_true_eq, decide_eq_true_eq]
      exact he
    rw [readExponent, if_pos hletter]
    simp only [hsign, hread]
    rfl

theorem mantissa_of_readUnsigned (h : readUnsigned negative text = some x) :
    ∃ mantissa exponent spelled, text = mantissa ++ spelled ∧ Mantissa mantissa ∧
      Json.SpellsExponent exponent spelled := by
  have hsplit := Text.spanDigits_append text
  have hw := Text.all_isDigit_spanDigits text
  rw [readUnsigned] at h
  generalize Text.spanDigits text = span at h hsplit hw
  obtain ⟨whole, rest⟩ := span
  simp only at h hsplit hw
  split at h
  · next rest =>
    split_ifs at h with hn
    obtain ⟨i, hi, -⟩ := Option.map_eq_some_iff.1 h
    obtain ⟨exponent, he⟩ := spells_of_readExponent hi
    have hne : whole ++ (Text.spanDigits rest).1 ≠ [] := by
      rw [ne_eq, List.append_eq_nil_iff, ← List.isEmpty_iff, ← List.isEmpty_iff, ← Bool.and_eq_true]
      exact hn
    refine ⟨_, _, _, ?_, .pointed hne hw (Text.all_isDigit_spanDigits rest), he⟩
    rw [List.append_assoc, List.cons_append, Text.spanDigits_append, hsplit]
  · split_ifs at h with hn
    obtain ⟨i, hi, -⟩ := Option.map_eq_some_iff.1 h
    obtain ⟨exponent, he⟩ := spells_of_readExponent hi
    rw [List.isEmpty_nil, Bool.and_true, List.isEmpty_iff] at hn
    exact ⟨_, _, _, hsplit.symm, .whole hn hw, he⟩

theorem isSome_readUnsigned {mantissa spelled : List Char} {exponent : Option (Bool × List Char)}
    (hm : Mantissa mantissa) (he : Json.SpellsExponent exponent spelled) :
    (readUnsigned negative (mantissa ++ spelled)).isSome = true := by
  have hread := isSome_readExponent he
  have hhead := Json.head?_append_of_spells he Json.ends_nil
  rw [List.append_nil] at hhead
  cases hm with
  | whole hn hd =>
    have hspan := Text.spanDigits_append_of_head hd fun c hc => (hhead c hc).1
    rw [readUnsigned]
    simp only [hspan]
    split
    · next rest => exact absurd rfl (hhead '.' rfl).2
    · simp [hn, hread]
  | @pointed whole fraction hn hw hf =>
    have hpoint : ∀ c ∈ ('.' :: (fraction ++ spelled)).head?, c.isDigit = false := by
      rintro c ⟨⟩
      rfl
    have hspan := Text.spanDigits_append_of_head hw hpoint
    have hspan' := Text.spanDigits_append_of_head hf fun c hc => (hhead c hc).1
    rw [readUnsigned, List.append_assoc, List.cons_append]
    simp only [hspan, hspan']
    rw [ne_eq, List.append_eq_nil_iff, ← List.isEmpty_iff, ← List.isEmpty_iff,
      ← Bool.and_eq_true] at hn
    rw [if_neg hn, Option.isSome_map, hread]

theorem numeral_of_read? (h : read? text = some x) : Numeral text := by
  obtain ⟨sign, hs, htext, -⟩ := Json.exists_sign text
  rw [read?] at h
  generalize splitSign text = split at h htext
  obtain ⟨negative, body⟩ := split
  simp only at h htext
  rw [htext]
  split_ifs at h with hinfinite hnan
  · rw [Bool.or_eq_true, decide_eq_true_eq, decide_eq_true_eq] at hinfinite
    exact .name hs (by rw [names, List.mem_cons, List.mem_cons]; exact hinfinite.imp_right .inl)
  · exact .name hs (by rw [hnan]; decide)
  · obtain ⟨mantissa, exponent, spelled, rfl, hm, he⟩ := mantissa_of_readUnsigned h
    exact .decimal hs hm he

theorem head?_mantissa {mantissa : List Char} (h : Mantissa mantissa) (rest : List Char) :
    ∀ c ∈ (mantissa ++ rest).head?, c ≠ '+' ∧ c ≠ '-' := by
  cases h with
  | whole hn hd => exact Json.head?_digits_append hn hd rest
  | @pointed whole fraction hn hw hf =>
    rw [List.append_assoc]
    by_cases hwhole : whole = []
    · subst hwhole
      rintro c ⟨⟩
      decide
    · exact Json.head?_digits_append hwhole hw _

theorem head?_name {word : List Char} (h : word.map Char.toLower ∈ names) :
    ∀ c ∈ word.head?, c.toLower ∈ ['i', 'n'] := by
  have hhead : ∀ name ∈ names, ∀ c ∈ name.head?, c ∈ ['i', 'n'] := by simp [names]
  intro c hc
  refine hhead _ h _ ?_
  rw [List.head?_map]
  exact Option.mem_map_of_mem _ hc

theorem ne_sign_of_toLower {c : Char} (h : c.toLower ∈ ['i', 'n']) : c ≠ '+' ∧ c ≠ '-' := by
  constructor
  · rintro rfl
    revert h
    decide
  · rintro rfl
    revert h
    decide

theorem digits_notMem_names {digits : List Char} (hn : digits ≠ [])
    (hd : digits.all Char.isDigit = true) : digits.map Char.toLower ∉ names := by
  intro h
  cases digits with
  | nil => exact hn rfl
  | cons d digits =>
    have hdigit : d.isDigit = true := List.all_eq_true.1 hd d List.mem_cons_self
    have hname := head?_name h d rfl
    rw [Text.toLower_of_isDigit hdigit, List.mem_cons, List.mem_singleton] at hname
    rcases hname with rfl | rfl
    · cases hdigit
    · cases hdigit

theorem isSome_read? (h : Numeral text) : (read? text).isSome = true := by
  -- a numeral that happens to spell a name would be read as well, so no case excludes the other
  cases h with
  | @name sign word hs hw =>
    rw [read?, Json.splitSign_append_of_head hs fun c hc => ne_sign_of_toLower (head?_name hw c hc)]
    rw [names, List.mem_cons, List.mem_cons, List.mem_singleton] at hw
    simp only
    split_ifs with hinfinite hnan
    · rfl
    · rfl
    · rw [Bool.or_eq_true, decide_eq_true_eq, decide_eq_true_eq] at hinfinite
      exact absurd (hw.imp_right fun h => h.resolve_right hnan) hinfinite
  | @decimal sign mantissa spelled exponent hs hm he =>
    rw [read?, Json.splitSign_append_of_head hs (head?_mantissa hm spelled)]
    simp only
    split_ifs
    · rfl
    · rfl
    · exact isSome_readUnsigned hm he

theorem isSome_read?_iff : (read? text).isSome = true ↔ Numeral text := by
  refine ⟨fun h => ?_, isSome_read?⟩
  obtain ⟨x, hx⟩ := Option.isSome_iff_exists.1 h
  exact numeral_of_read? hx

theorem ofDecimal_whole (negative : Bool) (n : ℕ) :
    ofDecimal negative n 0 = ofRatio negative (n * one) 1 := by
  rcases Nat.eq_zero_or_pos n with rfl | hpos
  · rw [ofRatio_mul_one negative (pow2_pos 53), Nat.zero_mul]
    rfl
  · rw [ofDecimal, if_neg hpos.ne', if_neg (by decide), if_neg (by omega), if_pos le_rfl]
    show ofRatio negative (n * 1 * one) 1 = _
    rw [Nat.mul_one]

/-- Digits after a sign or none are read as the number nearest to the integer they denote. -/
theorem read?_digits {digits : List Char} (hs : sign ∈ [[], ['+'], ['-']]) (hn : digits ≠ [])
    (hd : digits.all Char.isDigit = true) :
    read? (sign ++ digits) = some (ofRatio (sign == ['-']) (Text.ofDigits digits * one) 1) := by
  have hsign := Json.splitSign_append hs hn hd []
  have hname := digits_notMem_names hn hd
  have hspan := @Text.spanDigits_append_of_head digits [] hd nofun
  rw [List.append_nil] at hsign hspan
  rw [names, List.mem_cons, List.mem_cons, List.mem_singleton, not_or, not_or] at hname
  obtain ⟨hinf, hinfinity, hnan⟩ := hname
  rw [read?, hsign]
  simp only [hinf, hinfinity, hnan, decide_false, Bool.or_self, Bool.false_eq_true, if_false]
  rw [readUnsigned]
  simp only [hspan]
  rw [if_neg (by simp [hn]), List.append_nil, ← ofDecimal_whole]
  rfl

end Reading

end Binary64

namespace Reply

open Binary64

/-- The values that give an integer: a literal of it, if it has at most 308 digits, and a text of its
digits, however many, after a sign or none and with white space around. -/
inductive Gives (i : ℤ) : Json → Prop
  | literal {literal : Json.Literal} (formed : literal.WellFormed) (value : literal.rational = i)
    (small : i.natAbs < 10 ^ 308) : Gives i (.number literal)
  | digits {content : String} {before sign digits after : List Char}
    (spelled : content.toList = before ++ (sign ++ digits) ++ after)
    (blankBefore : before.all Text.isSpace = true) (signed : sign ∈ [[], ['+'], ['-']])
    (someDigit : digits ≠ []) (allDigits : digits.all Char.isDigit = true)
    (blankAfter : after.all Text.isSpace = true)
    (value : i = if sign = ['-'] then -(Text.ofDigits digits : ℤ) else Text.ofDigits digits) :
    Gives i (.text content)

/-- What gives no number: no value, a value of another kind, and a text that is no numeral when the
white space around it is off. -/
inductive Mute : Option Json → Prop
  | missing : Mute none
  | null : Mute (some .null)
  | bool (value : Bool) : Mute (some (.bool value))
  | array (items : List Json) : Mute (some (.array items))
  | object (fields : Fields) : Mute (some (.object fields))
  | text (content : String) (unread : ¬ Numeral (Text.trim content.toList)) :
    Mute (some (.text content))

section Count

variable {fields : Fields} {key : String} {i : ℤ} {value : Json} {bound : ℕ}

theorem sound_of_gives (h : Gives i value) (depth : ℕ) : value.sound depth = true := by
  cases h with
  | literal formed hvalue small =>
    obtain ⟨number, hnumber, -⟩ := Json.Literal.exists_value formed small.le hvalue (Nat.zero_le _)
    rw [Json.sound, hnumber]
    rfl
  | digits => rfl

theorem count_of_gives (h : Gives i value) (hl : Json.lookup fields key = some value)
    (hbound : bound ≤ 2 ^ 32) : (count fields key bound : ℤ) = min (max i 0) bound := by
  cases h with
  | literal formed hvalue small =>
    obtain ⟨number, hnumber, hcount⟩ :=
      Json.Literal.exists_value formed small.le hvalue hbound
    rw [count, amount?, hl, Option.bind_some]
    simp only [hnumber, Option.map_some]
    exact hcount
  | @digits content before sign digits after hspelled hb hs hn hd ha hvalue =>
    have hamount : amount? fields key =
        some (ofRatio (sign == ['-']) (Text.ofDigits digits * one) 1) := by
      rw [amount?, hl, Option.bind_some]
      show read? (Text.trim content.toList) = _
      rw [hspelled, Text.trim_padded hb ha, Text.trim_digits hs hn hd, read?_digits hs hn hd]
    have hsign : if sign == ['-'] then i ≤ 0 else 0 ≤ i := by
      rw [hvalue]
      split_ifs <;> simp_all
    have habs : i.natAbs = Text.ofDigits digits := by
      rw [hvalue]
      split_ifs <;> omega
    rw [count, hamount, ← habs]
    exact clampNat_round_ofRatio_signed hsign hbound

theorem count_of_mute (h : Mute (Json.lookup fields key)) : count fields key bound = 0 := by
  have hnone : amount? fields key = none := by
    rw [amount?]
    generalize Json.lookup fields key = found at h
    cases h with
    | text content unread =>
      show read? (Text.trim content.toList) = none
      rwa [← isSome_read?_iff, Bool.not_eq_true, Option.isSome_eq_false_iff,
        Option.isNone_iff_eq_none] at unread
    | _ => rfl
  rw [count, hnone]

end Count

/-- An integer that a reply gives for its score or for its redundant parts is in the report, held
between zero and the bound of the field, and the reply is not refused for it. A value that gives no
number counts as zero. -/
theorem integers_survive (fields : Fields) :
    (∀ i value, Gives i value → (∀ depth, value.sound depth = true) ∧
      (Json.lookup fields "overallScore" = some value →
        ((ofFields fields).overallScore.toNat : ℤ) = min (max i 0) 100) ∧
      (Json.lookup fields "redundantLogic" = some value →
        ((ofFields fields).redundantLogic.toNat : ℤ) = min (max i 0) 4294967295)) ∧
    (Mute (Json.lookup fields "overallScore") → (ofFields fields).overallScore = 0) ∧
    (Mute (Json.lookup fields "redundantLogic") → (ofFields fields).redundantLogic = 0) := by
  refine ⟨fun i value h => ⟨sound_of_gives h, fun hl => ?_, fun hl => ?_⟩, fun h => ?_, fun h => ?_⟩
  · have hcount := count_of_gives h hl (show 100 ≤ 2 ^ 32 by decide)
    show ((UInt8.ofNat (count fields "overallScore" 100)).toNat : ℤ) = _
    rw [UInt8.toNat_ofNat', Nat.mod_eq_of_lt (by omega), hcount]
    rfl
  · have hcount := count_of_gives h hl (show 0xFFFFFFFF ≤ 2 ^ 32 by decide)
    show ((UInt32.ofNat (count fields "redundantLogic" 0xFFFFFFFF)).toNat : ℤ) = _
    rw [UInt32.toNat_ofNat', Nat.mod_eq_of_lt (by omega), hcount]
    rfl
  · show UInt8.ofNat (count fields "overallScore" 100) = 0
    rw [count_of_mute h]
    rfl
  · show UInt32.ofNat (count fields "redundantLogic" 0xFFFFFFFF) = 0
    rw [count_of_mute h]
    rfl

/-- A score in a text, with zeros before its digits, and a literal that is no plain integer, the
first one beyond its field. -/
def edge : Fields :=
  [Json.field "overallScore" (.text " +00042\n"),
    Json.field "redundantLogic" (.number ⟨false, "42949672960".toList, [], some (true, ['1'])⟩)]

/-- A score in a text that is no numeral, and no other field. -/
def silent : Fields := [Json.field "overallScore" (.text "12 of 100")]

theorem integers_survive_edge :
    ((ofFields edge).overallScore.toNat : ℤ) = 42 ∧
      ((ofFields edge).redundantLogic.toNat : ℤ) = 4294967295 ∧
      (ofFields silent).overallScore = 0 ∧ (ofFields silent).redundantLogic = 0 := by
  have hscore : Gives 42 (.text " +00042\n") :=
    @Gives.digits 42 " +00042\n" [' '] ['+'] "00042".toList ['\n'] (by decide) (by decide)
      (by decide) (by decide) (by decide) (by decide) (by decide)
  have hredundant :
      Gives 4294967296 (.number ⟨false, "42949672960".toList, [], some (true, ['1'])⟩) := by
    have hsmall : (10 : ℕ) ^ 10 ≤ 10 ^ 308 := pow_le_pow_right₀ (by decide) (by decide)
    have hdigits : Text.ofDigits ("42949672960".toList ++ []) = 42949672960 := by decide
    refine .literal ⟨by decide, by decide, by decide, by decide, by decide⟩ ?_
      (lt_of_lt_of_le (by decide) hsmall)
    show ((Text.ofDigits ("42949672960".toList ++ []) : ℕ) : ℚ) * 10 ^ (-1 - 0 : ℤ) = _
    rw [hdigits]
    norm_num
  have hmute : Mute (Json.lookup silent "overallScore") :=
    .text "12 of 100" (by rw [← Binary64.isSome_read?_iff]; decide)
  -- both values are given in `edge`, none in `silent`
  obtain ⟨hedge, -, -⟩ := integers_survive edge
  obtain ⟨-, hsilent, hmissing⟩ := integers_survive silent
  exact ⟨(hedge _ _ hscore).2.1 rfl, (hedge _ _ hredundant).2.2 rfl, hsilent hmute,
    hmissing .missing⟩

end Reply

end Appraisal
