import Appraisal.Text.Space
import Appraisal.Text.Utf8

/-!
# HTTP exchanges

What a client sends and what comes back. A delivery is the reply to one request, or the news that
there was none. A reply may lead elsewhere: `Network.send` follows it there, up to a number of
times, and what it sent on the way is part of its result.
-/

namespace Appraisal.Http

inductive Method where
  | get
  | post
deriving DecidableEq, Repr

/-- A request, with the token that authorizes it if it has one. -/
structure Request where
  method : Method
  url : String
  token : Option String := none
  body : String := ""
deriving DecidableEq, Repr

/-- A reply with its status code and the headers that clients look at. -/
structure Reply where
  status : Nat
  location : Option String := none
  contentType : Option String := none
  body : ByteArray

/-- What became of a request. -/
inductive Delivery where
  | answered (reply : Reply)
  | failed

/-- What a library makes of addresses and of encodings. -/
structure Library where
  /-- Whether requests can be sent to an address: it is absolute, of `http` or of `https`. -/
  reaches : String → Bool
  /-- The address that a reference stands for in a reply from an address, if it stands for one. -/
  resolve? : String → String → Option String
  /-- Whether two addresses have the host and the port in common. -/
  sameHost : String → String → Bool
  /-- The text of a reply in another encoding than UTF-8; none for a reply in UTF-8. -/
  foreignText? : Reply → Option String

/-- The other side of every request, and the library that sends it. -/
structure Network extends Library where
  deliver : Request → Delivery

/-- Whether a status code says that a request succeeded. -/
def isSuccess (status : Nat) : Bool := 200 ≤ status && status < 300

def reasons : List (Nat × String) := [
  (100, "Continue"), (101, "Switching Protocols"), (102, "Processing"), (200, "OK"),
  (201, "Created"), (202, "Accepted"), (203, "Non Authoritative Information"),
  (204, "No Content"), (205, "Reset Content"), (206, "Partial Content"), (207, "Multi-Status"),
  (208, "Already Reported"), (226, "IM Used"), (300, "Multiple Choices"),
  (301, "Moved Permanently"), (302, "Found"), (303, "See Other"), (304, "Not Modified"),
  (305, "Use Proxy"), (307, "Temporary Redirect"), (308, "Permanent Redirect"),
  (400, "Bad Request"), (401, "Unauthorized"), (402, "Payment Required"), (403, "Forbidden"),
  (404, "Not Found"), (405, "Method Not Allowed"), (406, "Not Acceptable"),
  (407, "Proxy Authentication Required"), (408, "Request Timeout"), (409, "Conflict"),
  (410, "Gone"), (411, "Length Required"), (412, "Precondition Failed"),
  (413, "Payload Too Large"), (414, "URI Too Long"), (415, "Unsupported Media Type"),
  (416, "Range Not Satisfiable"), (417, "Expectation Failed"), (418, "I'm a teapot"),
  (421, "Misdirected Request"), (422, "Unprocessable Entity"), (423, "Locked"),
  (424, "Failed Dependency"), (426, "Upgrade Required"), (428, "Precondition Required"),
  (429, "Too Many Requests"), (431, "Request Header Fields Too Large"),
  (451, "Unavailable For Legal Reasons"), (500, "Internal Server Error"),
  (501, "Not Implemented"), (502, "Bad Gateway"), (503, "Service Unavailable"),
  (504, "Gateway Timeout"), (505, "HTTP Version Not Supported"),
  (506, "Variant Also Negotiates"), (507, "Insufficient Storage"), (508, "Loop Detected"),
  (510, "Not Extended"), (511, "Network Authentication Required")]

def statusLine (status : Nat) : String :=
  toString status ++ " " ++ (reasons.lookup status).getD "<unknown status code>"

/-- Whether a status code asks for the same request at another address. -/
def isRepeat (status : Nat) : Bool := status == 307 || status == 308

/-- Whether a status code asks for a request at another address. -/
def isRedirect (status : Nat) : Bool :=
  status == 301 || status == 302 || status == 303 || isRepeat status

/-- How often a request follows replies to other addresses. -/
def redirectLimit : Nat := 10

/-- The text of a body in UTF-8, without a byte order mark. -/
def utf8Text (body : ByteArray) : String :=
  match Text.decodedWith [Text.replacement] body with
  | '\uFEFF' :: text => String.ofList text
  | text => String.ofList text

namespace Network

/-- A network over which nothing can be sent. -/
def offline : Network where
  reaches _ := false
  resolve? _ _ := none
  sameHost _ _ := false
  foreignText? _ := none
  deliver _ := .failed

/-- The text of a reply. -/
def text (network : Network) (reply : Reply) : String :=
  (network.foreignText? reply).getD (utf8Text reply.body)

/-- A request as it goes on to another address. Unless the status asks for the same request, what
was posted is only asked for; and another host is not given the token. -/
def moved (network : Network) (request : Request) (status : Nat) (url : String) : Request where
  method := if isRepeat status then request.method else .get
  url := url
  token := if network.sameHost request.url url then request.token else none
  body := if isRepeat status then request.body else ""

/-- The request that a reply leads to, if it leads anywhere. -/
def next? (network : Network) (request : Request) (reply : Reply) : Option Request :=
  if isRedirect reply.status then
    (reply.location.bind (network.resolve? request.url)).map (network.moved request reply.status)
  else none

/-- Sends a request and those that replies lead to, at most so many: what was sent, in order, and
what became of the last. -/
def send (network : Network) : Nat → Request → List Request × Delivery
  | hops, request =>
    if !network.reaches request.url then ([], .failed)
    else match network.deliver request with
      | .failed => ([request], .failed)
      | .answered reply =>
        match network.next? request reply, hops with
        | none, _ => ([request], .answered reply)
        | some _, 0 => ([request], .failed)
        | some next, hops + 1 =>
          let (sent, delivery) := send network hops next
          (request :: sent, delivery)

end Network

/-- Whether a text may stand in a header: no control characters other than tabs. -/
def isHeaderText (text : String) : Bool :=
  text.toList.all fun c => c == '\t' || (32 ≤ c.toNat && c.toNat != 127)

/-- A text without the slashes at its end. -/
def dropSlashes (text : List Char) : List Char := (text.reverse.dropWhile (· == '/')).reverse

/-- The address of a server as requests use it: trimmed and without slashes at its end. None when
it is blank. -/
def normalAddress? (address : String) : Option String :=
  if Text.isBlank address then none
  else some (String.ofList (dropSlashes (Text.trim address.toList)))

end Appraisal.Http
