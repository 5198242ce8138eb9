import Appraisal.Text.Search

/-!
# Media types

What a request says of its body: a kind, and a subtype with an optional suffix after its last plus
sign. Parameters may follow; only their form matters, which `Parameters.step` checks character by
character.
-/

namespace Appraisal.Web

/-- A media type in small letters, without its parameters. -/
structure MediaType where
  kind : List Char
  subtype : List Char
  suffix : Option (List Char)
deriving DecidableEq, Repr

/-- The signs that may stand in a token besides ASCII letters and digits. -/
def tokenSigns : List Char :=
  ['!', '#', '$', '%', '&', '\'', '+', '-', '.', '^', '_', '\x60', '|', '~']

def isTokenChar (c : Char) : Bool := c.isAlphanum || tokenSigns.contains c

/-- How far a list of parameters has been read. -/
inductive Parameters where
  | start
  | name
  | equals
  | token
  | opened
  | quoted
  | closed
deriving DecidableEq, Repr

namespace Parameters

/-- Whether a character may stand between quotation marks. -/
def isQuotable (c : Char) : Bool := 32 ≤ c.toNat && c.toNat < 127

/-- Reads one character. Spaces stand before a name or after a closing quotation mark, and what is
quoted is not empty. -/
def step : Parameters → Char → Option Parameters
  | .start, c => if c = ' ' then some .start else if isTokenChar c then some .name else none
  | .name, c => if c = '=' then some .equals else if isTokenChar c then some .name else none
  | .equals, c => if c = '"' then some .opened else if isTokenChar c then some .token else none
  | .token, c => if c = ';' then some .start else if isTokenChar c then some .token else none
  | .opened, c => if isQuotable c then some .quoted else none
  | .quoted, c => if c = '"' then some .closed else if isQuotable c then some .quoted else none
  | .closed, c => if c = ';' then some .start else if c = ' ' then some .closed else none

def mayEnd : Parameters → Bool
  | .start | .equals | .token | .closed => true
  | _ => false

def fit (text : List Char) : Bool := (text.foldlM step .start).any mayEnd

end Parameters

namespace MediaType

/-- The media type of a subtype with its suffix. -/
def ofNames (kind name : List Char) : MediaType :=
  match (name.drop 1).reverse.dropWhile (· != '+') with
  | [] => ⟨kind, name, none⟩
  | _ :: front =>
    ⟨kind, name.take (front.length + 1), some (name.drop (front.length + 2))⟩

/-- The media type that a header names. -/
def parse? (header : String) : Option MediaType :=
  let text := header.toList.map Char.toLower
  let (kind, rest) := (text.takeWhile isTokenChar, text.dropWhile isTokenChar)
  match rest with
  | '/' :: rest =>
    let (name, rest) := (rest.takeWhile isTokenChar, rest.dropWhile isTokenChar)
    if kind.isEmpty then none
    else match rest with
      | [] => some (ofNames kind name)
      | ';' :: parameters =>
        if !name.isEmpty && Parameters.fit parameters then some (ofNames kind name) else none
      | _ => none
  | _ => none

/-- Whether a body of this type is JSON. -/
def isJson (type : MediaType) : Bool :=
  type.subtype == "json".toList || type.suffix == some "json".toList

end MediaType

end Appraisal.Web
