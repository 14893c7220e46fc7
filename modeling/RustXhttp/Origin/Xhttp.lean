import RustXhttp.Origin.Http

/-!
# XHTTP requests (`src/xhttp/mod.rs`, `src/xhttp/padding.rs`)

Which requests belong to the transport: the path and the host are the configured ones, and the
padding, from the query of the Referer or of the request itself, has a length in the configured
range. The rest of the path has the session id and the sequence number.
-/

namespace Xhttp.Http

/-! ## Padding -/

/-- `query_param_ref`. -/
def queryParamRef (query key : Bytes) : Option Bytes :=
  (query.splitOn 38).findSome? fun pair =>
    let (k, v) := (splitOnce 61 pair).getD (pair, [])
    if k = key then some v else none

/-- `query_value_ref`: the query is between the question mark and the fragment. -/
def queryValueRef (url key : Bytes) : Option Bytes :=
  (splitOnce 63 url).bind fun (_, query) => queryParamRef (firstSegment 35 query) key

def hexValue (b : UInt8) : Option UInt8 :=
  if 48 ≤ b ∧ b ≤ 57 then some (b - 48)
  else if 97 ≤ b ∧ b ≤ 102 then some (b - 97 + 10)
  else if 65 ≤ b ∧ b ≤ 70 then some (b - 65 + 10)
  else none

/-- `percent_decoded_len`: a percent sign with two hexadecimal digits counts as one. -/
def percentDecodedLen : Bytes → Nat
  | [] => 0
  | b :: h :: l :: rest =>
    if b = 37 ∧ (hexValue h).isSome ∧ (hexValue l).isSome then 1 + percentDecodedLen rest
    else 1 + percentDecodedLen (h :: l :: rest)
  | _ :: rest => 1 + percentDecodedLen rest

def extractPaddingLen (headers : HeaderMap) (uri : Uri) : Option Nat :=
  match (headers.get (ascii "referer")).bind toStr with
  | some (b :: referer) =>
    (queryValueRef (b :: referer) (ascii "x_padding")).map percentDecodedLen
  | _ =>
    -- no Referer, or an empty one
    (uri.query.bind fun query => queryParamRef query (ascii "x_padding")).map percentDecodedLen

def isPaddingLenValid (value : Option Nat) (paddingFrom paddingTo : Nat) : Bool :=
  value.any fun len => len != 0 && paddingFrom ≤ len && len ≤ paddingTo

/-! ## Path and host -/

def pathMatches (base : Bytes) (uri : Uri) : Bool := base.isPrefixOf uri.path

/-- `host_matches`: without the port, and any host if none is configured. -/
def hostMatches (configured : Bytes) (headers : HeaderMap) (uri : Uri) : Bool :=
  if configured = [] then true
  else
    let host := (((headers.get (ascii "host")).bind toStr).or uri.host).getD []
    eqIgnoreAsciiCase (firstSegment 58 host) (firstSegment 58 configured)

structure Meta where
  sessionId : Bytes
  seqStr : Bytes
  deriving DecidableEq

/-- `extract_meta_from_path_borrowed`. -/
def extractMetaFromPath (base : Bytes) (uri : Uri) : Meta :=
  let segs := ((stripPrefix base uri.path).getD []).splitOn 47
  ⟨segs.headD [], segs.tail.headD []⟩

inductive RequestKind where
  | packetUpload (sessionId : Bytes) (seq : Nat)
  | streamDownload (sessionId : Bytes)
  | streamUp (sessionId : Bytes)
  | streamOne
  | options
  | unsupported
  deriving DecidableEq

/-- `classify_borrowed`. -/
def classify (method : Method) (m : Meta) : RequestKind :=
  if method = .options then .options
  else
    let hasSession := !m.sessionId.isEmpty
    let hasSeq := !m.seqStr.isEmpty
    let isUplink := if method = .get then hasSeq else true
    if isUplink && hasSession then
      if hasSeq then
        match parseU64 m.seqStr with
        | some seq => .packetUpload m.sessionId seq
        | none => .unsupported
      else .streamUp m.sessionId
    else if method = .get || !hasSession then
      if hasSession then .streamDownload m.sessionId else .streamOne
    else .unsupported

end Xhttp.Http
