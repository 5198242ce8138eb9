import Appraisal.Web.Address
import Appraisal.Web.MediaType

/-!
# Routes

What a request asks of the server, found from its method and address. An address that is not
served, or not with this method, leads nowhere.
-/

namespace Appraisal.Web

structure Request where
  method : String
  address : String
  contentType : Option String := none
  body : Option ByteArray := none

inductive Route where
  | probe
  | submit
  | lookup (id : String)
  | listing (query : List (String × String))
  | ranking (query : List (String × String))
  | document
deriving DecidableEq, Repr

/-- The segments of a path after its first slash, as they are written. -/
def segments (path : List Char) : Option (List (List Char)) :=
  match Text.split '/' path with
  | [] :: segments => some segments
  | _ => none

/-- The route of a method and the segments of a path. An id is unescaped once more, for escapes that
come out of the first time. -/
def routeOf (method : String) (segments : List String) (query : List (String × String)) :
    Option Route :=
  match method, segments with
  | "GET", ["api", "analyze"] => some .probe
  | "POST", ["api", "analyze"] => some .submit
  | "GET", ["api", "analysis", id] =>
    if id.isEmpty then none else some (.lookup (String.ofList (unescape id.toList)))
  | "GET", ["api", "user", "analyses"] => some (.listing query)
  | "GET", ["api", "leaderboard"] => some (.ranking query)
  | "GET", ["api", "openapi.json"] => some .document
  | _, _ => none

def route? (request : Request) : Option Route :=
  let (path, query) := splitAddress request.address.toList
  (segments path).bind fun pieces =>
    routeOf request.method (pieces.map segmentText) (formFields query)

/-- Whether a content type stands for JSON. -/
def isJsonType (contentType : String) : Bool := (MediaType.parse? contentType).any MediaType.isJson

/-- The number of bytes that a body of JSON may have. -/
def bodyLimit : Nat := 2097152

/-- The body of a request, if its type is that of JSON. -/
def jsonBody? (request : Request) : Option ByteArray := do
  let contentType ← request.contentType
  if isJsonType contentType then request.body else none

/-- Whether the body of a request is too long to be read. -/
def isOverlong (request : Request) : Bool :=
  (jsonBody? request).any fun body => decide (bodyLimit < body.size)

/-- The document in the body of a request, if its type is that of JSON. -/
def bodyDocument? (request : Request) : Option Json :=
  if isOverlong request then none else (jsonBody? request).bind Json.ofBytes?

/-- The status for a request whose body is not what it should be. -/
def refusalStatus (request : Request) : Nat := if isOverlong request then 413 else 400

end Appraisal.Web
