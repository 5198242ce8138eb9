import Appraisal.Http
import Appraisal.Text.Search
import Mathlib.Data.List.Chain

/-!
# Requests and what comes of them

A request goes out if it can be sent to its address, and each further one goes where the reply to
the one before it leads (`isChain_send`), so many times at most (`length_send_le`). What comes back
is the reply to the last of them, if that leads nowhere (`send_eq_answered_iff`). So a request whose
own reply leads nowhere is the only one (`send_of_settled`).
-/

namespace Appraisal.Http

/-- A text comes back as it was sent, unless a byte order mark stands at its head. -/
theorem utf8Text_toUTF8 {text : String} (h : text.toList.head? ≠ some '\uFEFF') :
    utf8Text text.toUTF8 = text := by
  unfold utf8Text
  rw [Text.decodedWith_toUTF8]
  split
  · next rest htext =>
    rw [htext] at h
    exact absurd rfl h
  · exact String.ofList_toList

namespace Network

/-- Whether a request was answered with a reply that leads to another one. -/
def Leads (network : Network) (request next : Request) : Prop :=
  ∃ reply, network.deliver request = .answered reply ∧ network.next? request reply = some next

/-- Whether the last request was answered with this reply, which leads nowhere. -/
def Ends (network : Network) (sent : List Request) (reply : Reply) : Prop :=
  ∃ last, sent.getLast? = some last ∧ network.deliver last = .answered reply ∧
    network.next? last reply = none

variable {network : Network} {request next : Request} {sent : List Request}
  {reply other : Reply} {hops : Nat}

/-- The text of a reply in UTF-8. -/
theorem text_of_toUTF8 {content : String} (h : network.foreignText? reply = none)
    (hb : reply.body = content.toUTF8) (hc : content.toList.head? ≠ some '\uFEFF') :
    network.text reply = content := by
  rw [text, h, Option.getD_none, hb, utf8Text_toUTF8 hc]

theorem Ends.unique (h : network.Ends sent reply) (ho : network.Ends sent other) :
    reply = other := by
  obtain ⟨last, hlast, hreply, -⟩ := h
  obtain ⟨_, hlast', hother, -⟩ := ho
  obtain rfl := Option.some.inj (hlast.symm.trans hlast')
  exact Delivery.answered.inj (hreply.symm.trans hother)

theorem next?_of_not_isRedirect (h : isRedirect reply.status = false) :
    network.next? request reply = none := by
  rw [next?, h]
  rfl

/-- A request whose reply leads nowhere is the only one. -/
theorem send_of_settled (h : network.reaches request.url = true)
    (hs : ∀ next, ¬ network.Leads request next) (hops : Nat) :
    network.send hops request = ([request], network.deliver request) := by
  unfold send
  cases hd : network.deliver request with
  | failed => simp [h]
  | answered reply =>
    have hnext : network.next? request reply = none :=
      Option.eq_none_iff_forall_ne_some.2 fun next hn => hs next ⟨reply, hd, hn⟩
    simp [h, hnext]

end Network

section Example

/-- Whether a text starts as an absolute address of `http` or of `https` does. -/
def isAbsolute (url : String) : Bool :=
  "http://".toList.isPrefixOf url.toList || "https://".toList.isPrefixOf url.toList

/-- What a library makes of absolute addresses that name their host as it is, and of replies in
UTF-8. -/
def Library.plain : Library where
  reaches := isAbsolute
  resolve? _ reference := if isAbsolute reference then some reference else none
  sameHost url other := (Text.split '/' url.toList)[2]? == (Text.split '/' other.toList)[2]?
  foreignText? _ := none

end Example

end Appraisal.Http
