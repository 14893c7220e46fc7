import RustXhttp.Lib.Text
import RustXhttp.Lib.Word

/-!
# HTTP messages

The parts of the `http` crate that the origin uses. Names of headers are in lower case, as the
crate keeps them. A body is what hyper delivers: its frames, and the upper bound of its size hint.
-/

namespace Xhttp.Http

inductive Method where
  | get | head | post | put | delete | options | connect | patch | trace
  | extension (name : Bytes)
  deriving DecidableEq

def Method.asStr : Method → Bytes
  | .get => ascii "GET"
  | .head => ascii "HEAD"
  | .post => ascii "POST"
  | .put => ascii "PUT"
  | .delete => ascii "DELETE"
  | .options => ascii "OPTIONS"
  | .connect => ascii "CONNECT"
  | .patch => ascii "PATCH"
  | .trace => ascii "TRACE"
  | .extension name => name

structure PathAndQuery where
  path : Bytes
  query : Option Bytes
  deriving DecidableEq

/-- `path_and_query().as_str().len()`. -/
def PathAndQuery.len (p : PathAndQuery) : Nat :=
  p.path.length + (p.query.map fun q => 1 + q.length).getD 0

/-- A `Uri`: the host of its authority, and no path in the authority form. -/
structure Uri where
  host : Option Bytes
  pathAndQuery : Option PathAndQuery
  deriving DecidableEq

def Uri.path (u : Uri) : Bytes := (u.pathAndQuery.map PathAndQuery.path).getD []

def Uri.query (u : Uri) : Option Bytes := u.pathAndQuery.bind PathAndQuery.query

/-! ## Headers -/

abbrev HeaderMap := List (Bytes × Bytes)

namespace HeaderMap

variable (headers : HeaderMap)

/-- `get`: the first value. -/
def get (name : Bytes) : Option Bytes := headers.lookup (lowercase name)

def getAll (name : Bytes) : List Bytes :=
  (headers.filter (·.1 == lowercase name)).map (·.2)

/-- `insert`: the value replaces those of the same name. -/
def insert (name value : Bytes) : HeaderMap :=
  headers.filter (·.1 != name) ++ [(name, value)]

end HeaderMap

/-- `HeaderValue::to_str`: visible ASCII, blanks and tabs. -/
def toStr (value : Bytes) : Option Bytes :=
  if value.all fun b => (32 ≤ b && b < 127) || b == 9 then some value else none

/-! ## Requests and responses -/

inductive BodyFrame where
  | data (bytes : Bytes)
  | trailers
  /-- The connection fails. -/
  | failed
  deriving DecidableEq

structure Body where
  /-- `size_hint().upper()`. -/
  upper : Option Nat
  frames : List BodyFrame
  deriving DecidableEq

structure Request where
  method : Method
  uri : Uri
  headers : HeaderMap
  body : Body
  deriving DecidableEq

inductive ResponseBody where
  | empty
  | full (bytes : Bytes)
  /-- What the session sends to its download. -/
  | download (sessionId : Bytes)
  deriving DecidableEq

structure Response where
  status : Nat
  headers : HeaderMap
  body : ResponseBody
  deriving DecidableEq

/-- `response`. -/
def response (status : Nat) (body : ResponseBody) : Response :=
  ⟨status, [(ascii "server", ascii "nginx")], body⟩

/-- `empty`. -/
def emptyResponse (status : Nat) : Response := response status .empty

/-- `headers_mut().insert`. -/
def Response.insert (r : Response) (name : String) (value : Bytes) : Response :=
  { r with headers := r.headers.insert (ascii name) value }

/-- Several inserts, one after the other. -/
def Response.insertAll (r : Response) (headers : List (String × Bytes)) : Response :=
  headers.foldl (fun r h => r.insert h.1 h.2) r

def requestHeaderBytes (r : Request) : Nat :=
  let target := match r.uri.pathAndQuery with
    | some p => p.len
    | none => r.uri.path.length
  r.headers.foldl
    (fun total h => saturatingAdd (saturatingAdd (saturatingAdd total h.1.length) h.2.length) 4)
    (r.method.asStr.length + target)

end Xhttp.Http
