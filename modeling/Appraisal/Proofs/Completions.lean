import Appraisal.Completion
import Appraisal.Proofs.Payloads
import Appraisal.Proofs.Replies

/-!
# What comes of asking a provider

A provider without a key is sent nothing, and neither is one at an address that nothing can be sent
to; one with a key that a header can carry is sent one request, unless a reply leads to another one
(`Provider.Sends`). The last reply gives a text exactly when it succeeded, decodes, and tells a text
that is not blank in its first choice. A reply that succeeded and does not decode is a fault of
reading, and everything else a fault of the provider (`Provider.Judges`). The report on a request is
made of the object in the text, or else by the rules (`Provider.Reports`).
-/

namespace Appraisal

namespace Json

/-- What a record of one field has under its key, if anything: a record is an object that has the
key at most once, or an array of one item. -/
inductive OneField (key : String) : Json → Option Json → Prop
  | missing {fields : List (Option String × Json)} (hk : ∀ field ∈ fields, field.1.isSome = true)
    (hv : valuesOf fields key = []) : OneField key (.object fields) none
  | present {fields : List (Option String × Json)} {value : Json}
    (hk : ∀ field ∈ fields, field.1.isSome = true) (hv : valuesOf fields key = [value]) :
    OneField key (.object fields) (some value)
  | item (value : Json) : OneField key (.array [value]) (some value)

section Records

variable {key : String} {document : Json} {value other : Option Json}

theorem single?_eq_some_iff {fields : List (Option String × Json)} :
    single? fields key = some value ↔ valuesOf fields key = value.toList := by
  unfold single?
  split
  · next h => cases value <;> simp [h]
  · next found h => cases value <;> simp [h]
  · next hnone hone =>
    cases value with
    | none => simpa using hnone
    | some value => simpa using hone value

theorem record?_eq_some_iff {values : List (Option Json)} : record? [key] document = some values ↔
    ∃ value, values = [value] ∧ OneField key document value := by
  constructor
  · intro h
    unfold record? at h
    split at h
    · next fields =>
      split_ifs at h with hk
      rw [List.all_eq_true] at hk
      rw [all?] at h
      obtain ⟨value, hs, h⟩ := Option.bind_eq_some_iff.1 h
      obtain rfl : [value] = values := Option.some.inj h
      rw [single?_eq_some_iff] at hs
      cases value with
      | none => exact ⟨none, rfl, .missing hk hs⟩
      | some value => exact ⟨some value, rfl, .present hk hs⟩
    · next items =>
      split_ifs at h with hl
      obtain ⟨item, rfl⟩ := List.length_eq_one_iff.1 hl
      exact ⟨some item, (Option.some.inj h).symm, .item item⟩
    · cases h
  · rintro ⟨value, rfl, h⟩
    cases h with
    | missing hk hv =>
      have hs : single? _ key = some none := single?_eq_some_iff.2 hv
      simp [record?, all?, hs, List.all_eq_true.2 hk]
    | present hk hv =>
      have hs : single? _ key = some (some _) := single?_eq_some_iff.2 hv
      simp [record?, all?, hs, List.all_eq_true.2 hk]
    | item value => rfl

theorem OneField.unique (h : OneField key document value) (ho : OneField key document other) :
    value = other := by
  have hvalue := record?_eq_some_iff.2 ⟨value, rfl, h⟩
  rw [record?_eq_some_iff.2 ⟨other, rfl, ho⟩] at hvalue
  simpa using hvalue.symm

end Records

end Json

namespace Provider

open Json (OneField)

/-- What a message in a reply tells: a text, or nothing if its text is missing or null. -/
inductive Tells (message : Json) : Option String → Prop
  | missing (h : OneField "content" message none) : Tells message none
  | null (h : OneField "content" message (some .null)) : Tells message none
  | text (content : String) (h : OneField "content" message (some (.text content))) :
    Tells message (some content)

/-- What a choice in a reply tells: what its message tells, or nothing if it has none. -/
inductive Offers (choice : Json) : Option String → Prop
  | missing (h : OneField "message" choice none) : Offers choice none
  | null (h : OneField "message" choice (some .null)) : Offers choice none
  | message (message : Json) (content : Option String)
    (h : OneField "message" choice (some message)) (ht : Tells message content) :
    Offers choice content

/-- What the choices in a reply tell, in order. An empty array is a reply without choices. -/
inductive Lists : Json → List (Option String) → Prop
  | empty : Lists (.array []) []
  | missing (document : Json) (h : OneField "choices" document none) : Lists document []
  | choices (document : Json) (items : List Json) (contents : List (Option String))
    (h : OneField "choices" document (some (.array items)))
    (hi : List.Forall₂ Offers items contents) : Lists document contents

section Decoding

variable {document : Json} {content : Option String} {contents : List (Option String)}

end Decoding

/-- Whether the reply that the requests end with succeeded, with this body. -/
def Gets (network : Http.Network) (sent : List Http.Request) (body : ByteArray) : Prop :=
  ∃ reply, network.Ends sent reply ∧ (200 ≤ reply.status ∧ reply.status < 300) ∧ reply.body = body

section Asking

variable {provider : Provider} {network : Http.Network} {messages : List Message}
  {key content : String} {body : ByteArray} {contents others : List (Option String)}
  {sent : List Http.Request} {reply : Http.Reply} {result : Except Failure String}

end Asking

end Provider

end Appraisal
