import RustXhttp.Lib.Program
import RustXhttp.Origin.Site
import RustXhttp.Origin.Xhttp
import RustXhttp.Session.Reorder

/-!
# The request handler (`src/origin.rs`)

`Origin.handle` is a program: what it asks of the session table, of the metrics and of the random
generator are its requests. A request of a client that does not belong to the transport is
answered by the website.

The base64 decoder of the payloads in headers and cookies is a parameter.
-/

namespace Xhttp.Http

open Reorder (PushResult)

inductive UplinkDataPlacement where
  | body | header | cookie | auto
  deriving DecidableEq, Repr

/-- The part of `XhttpConfig` that the handler reads. -/
structure XhttpConfig where
  path : Bytes
  host : Bytes
  maxEachPostBytes : Nat
  sseHeader : Bool
  maxHeaderBytes : Nat
  paddingFrom : Nat
  paddingTo : Nat
  uplinkDataPlacement : UplinkDataPlacement
  uplinkDataKey : Bytes
  deriving DecidableEq

/-! ## What the handler asks for -/

inductive Metric where
  | requestHeaderRejections | requestBodyRejections | uploadBytes | memoryLimitRejections
  deriving DecidableEq, Repr

/-- The result of `open_download`. -/
inductive OpenDownload where
  | opened | conflict | capacity
  deriving DecidableEq, Repr

/-- `randomLength`: `gen_range` of the response padding. The last three are the operations of the
session table. -/
inductive Effect where
  | count (m : Metric) (n : Nat)
  | randomLength (lo hi : Nat)
  | pushUplink (sessionId : Bytes) (seq : Nat) (payload : Bytes)
  | remove (sessionId : Bytes)
  | openDownload (sessionId : Bytes)

def Reply : Effect → Type
  | .count _ _ => Unit
  | .randomLength lo hi => { n : Nat // lo ≤ n ∧ n ≤ hi }
  | .pushUplink _ _ _ => Option PushResult
  | .remove _ => Unit
  | .openDownload _ => OpenDownload

/-- A handler makes requests and does not fail. -/
abbrev Handler := Prog Effect Reply Empty

def count (m : Metric) (n : Nat) : Handler Unit := Prog.perform (Effect.count m n)

def pushUplink (sessionId : Bytes) (seq : Nat) (payload : Bytes) : Handler (Option PushResult) :=
  Prog.perform (Effect.pushUplink sessionId seq payload)

def removeSession (sessionId : Bytes) : Handler Unit := Prog.perform (Effect.remove sessionId)

def openDownload (sessionId : Bytes) : Handler OpenDownload :=
  Prog.perform (Effect.openDownload sessionId)

/-- `random_length`. -/
def randomLength (lo hi : Nat) : Handler Nat :=
  if lo ≥ hi then pure lo
  else .call (.randomLength lo hi) fun n => pure n.val

structure Origin where
  xhttp : XhttpConfig
  site : StaticSite

/-! ## Payloads -/

inductive UploadPayloadError where
  | invalidBase64
  | tooLarge
  deriving DecidableEq, Repr

def encodedLenLimit (decodedLimit : Nat) : Nat :=
  saturatingAdd (saturatingMul decodedLimit 4) 2 / 3 + 4

/-- `cookie_value`: the first cookie of that name, over all Cookie headers. -/
def cookieValue (headers : HeaderMap) (key : Bytes) : Option Bytes :=
  (headers.getAll (ascii "cookie")).findSome? fun value =>
    (toStr value).bind fun raw =>
      (raw.splitOn 59).findSome? fun part =>
        (splitOnce 61 (trimBlank part)).bind fun (name, value) =>
          if name = key then some value else none

/-- The loop over the chunks `i`, `i + 1`, .. that `get` finds: their concatenation after
`encoded`. A chunk has its own header or cookie, so there are not more than `fuel` of them. -/
def collectChunks (get : Nat → Option (Except UploadPayloadError Bytes)) (limit : Nat) :
    Nat → Nat → Bytes → Except UploadPayloadError Bytes
  | 0, _, encoded => .ok encoded
  | fuel + 1, i, encoded =>
    match get i with
    | none => .ok encoded
    | some (.error e) => .error e
    | some (.ok chunk) =>
      if (encoded ++ chunk).length > encodedLenLimit limit then .error .tooLarge
      else collectChunks get limit fuel (i + 1) (encoded ++ chunk)

/-- The loop of `read_body_payload`: the bytes so far are in `first` while there is one frame with
data, and in `combined` from the second one on. -/
def readFrames (limit : Nat) :
    List BodyFrame → Option Bytes → Option Bytes → Nat → Except UploadPayloadError Bytes
  | [], first, combined, _ => .ok (combined.getD (first.getD []))
  | .failed :: _, _, _, _ => .error .invalidBase64
  | .trailers :: rest, first, combined, total => readFrames limit rest first combined total
  | .data [] :: rest, first, combined, total => readFrames limit rest first combined total
  | .data bytes :: rest, first, combined, total =>
    let next := total + bytes.length
    if next > u64Max ∨ next > limit then .error .tooLarge
    else
      match combined, first with
      | some payload, _ => readFrames limit rest first (some (payload ++ bytes)) next
      | none, some initial => readFrames limit rest none (some (initial ++ bytes)) next
      | none, none => readFrames limit rest (some bytes) none next

section

variable (decode : Bytes → Option Bytes)

def decodePayloadChunks (encoded : Bytes) (limit : Nat) : Except UploadPayloadError Bytes :=
  if encoded = [] then .ok []
  else
    match decode encoded with
    | none => .error .invalidBase64
    | some decoded => if decoded.length > limit then .error .tooLarge else .ok decoded

namespace Origin

variable (o : Origin)

def decodeHeaderPayload (headers : HeaderMap) : Except UploadPayloadError Bytes :=
  if o.xhttp.uplinkDataPlacement = .header ∨ o.xhttp.uplinkDataPlacement = .auto then do
    let chunk := fun i => (headers.get (o.xhttp.uplinkDataKey ++ ascii "-" ++ decimal i)).map
      fun value => match toStr value with
        | some text => .ok text
        | none => .error .invalidBase64
    let encoded ← collectChunks chunk o.xhttp.maxEachPostBytes (headers.length + 1) 0 []
    decodePayloadChunks decode encoded o.xhttp.maxEachPostBytes
  else .ok []

def decodeCookiePayload (headers : HeaderMap) : Except UploadPayloadError Bytes :=
  if o.xhttp.uplinkDataPlacement = .cookie ∨ o.xhttp.uplinkDataPlacement = .auto then do
    let chunk := fun i =>
      (cookieValue headers (o.xhttp.uplinkDataKey ++ ascii "_" ++ decimal i)).map .ok
    -- every cookie but the first of its header has a semicolon in front of it
    let fuel := (headers.map fun h => h.2.length + 1).foldl (· + ·) 1
    let encoded ← collectChunks chunk o.xhttp.maxEachPostBytes fuel 0 []
    decodePayloadChunks decode encoded o.xhttp.maxEachPostBytes
  else .ok []

def readBodyPayload (body : Body) : Except UploadPayloadError Bytes :=
  readFrames o.xhttp.maxEachPostBytes body.frames none none 0

/-! ## Uploads and downloads -/

def rejectUploadTooLarge : Handler Response := do
  count .requestBodyRejections 1
  pure (emptyResponse 413)

/-- Goes on with a payload, or answers with the status of its error. -/
def withPayload (payload : Except UploadPayloadError Bytes) (f : Bytes → Handler Response) :
    Handler Response :=
  match payload with
  | .ok bytes => f bytes
  | .error .invalidBase64 => pure (emptyResponse 400)
  | .error .tooLarge => rejectUploadTooLarge

def finishUpload (sessionId : Bytes) (seq : Nat) (payload : Bytes) : Handler Response :=
  if payload.length > o.xhttp.maxEachPostBytes then rejectUploadTooLarge
  else do
    count .uploadBytes payload.length
    match ← pushUplink sessionId seq payload with
    | some .accepted | some .duplicate =>
      if o.xhttp.uplinkDataPlacement = .body then pure (emptyResponse 200)
      else pure ((emptyResponse 200).insert "cache-control" (ascii "no-store"))
    | some .tooManyPending | some .tooManyPendingBytes => do
      removeSession sessionId
      pure (emptyResponse 500)
    | some .closed => pure (emptyResponse 409)
    | some .globalBufferExceeded | none => do
      count .memoryLimitRejections 1
      pure (emptyResponse 503)

def upload (headers : HeaderMap) (body : Body) (sessionId : Bytes) (seq : Nat) : Handler Response :=
  withPayload (o.decodeHeaderPayload decode headers) fun headerPayload =>
  withPayload (o.decodeCookiePayload decode headers) fun cookiePayload =>
    let payload := headerPayload ++ cookiePayload
    if o.xhttp.uplinkDataPlacement = .body ∨ o.xhttp.uplinkDataPlacement = .auto then
      if body.upper.any (· > o.xhttp.maxEachPostBytes) then rejectUploadTooLarge
      else withPayload (o.readBodyPayload body) fun bodyPayload =>
        if payload = [] then o.finishUpload sessionId seq bodyPayload
        else o.finishUpload sessionId seq (payload ++ bodyPayload)
    else o.finishUpload sessionId seq payload

def download (sessionId : Bytes) : Handler Response := do
  match ← openDownload sessionId with
  | .conflict => pure (emptyResponse 409)
  | .capacity => pure (emptyResponse 503)
  | .opened =>
    let r := (response 200 (.download sessionId)).insert "x-accel-buffering" (ascii "no")
    let r := r.insert "cache-control" (ascii "no-store")
    pure (if o.xhttp.sseHeader then r.insert "content-type" (ascii "text/event-stream") else r)

/-! ## The handler -/

/-- `add_xhttp_response_padding`. -/
def addXhttpResponsePadding (r : Response) : Handler Response := do
  let len ← randomLength o.xhttp.paddingFrom o.xhttp.paddingTo
  pure (r.insert "x-padding" (List.replicate len 88))

/-- `site_response`. -/
def siteResponse (r : Request) : Response :=
  o.site.respond r.method r.uri.path (r.headers.get (ascii "if-none-match"))

/-- The `match` on the kind of a request that belongs to the transport. -/
def transport (r : Request) : Handler Response :=
  match classify r.method (extractMetaFromPath o.xhttp.path r.uri) with
  | .packetUpload sessionId seq => o.upload decode r.headers r.body sessionId seq
  | .streamDownload sessionId => o.download sessionId
  | .unsupported => pure (emptyResponse 500)
  | .streamUp _ | .streamOne => pure (emptyResponse 400)
  | .options => pure (emptyResponse 200)

def handle (r : Request) : Handler Response :=
  if requestHeaderBytes r > o.xhttp.maxHeaderBytes then do
    count .requestHeaderRejections 1
    pure (emptyResponse 431)
  else if r.uri.path = ascii "/healthz" then pure (response 200 (.full (ascii "ok\n")))
  else if r.uri.path = ascii "/readyz" then pure (response 200 (.full (ascii "ready\n")))
  else if !pathMatches o.xhttp.path r.uri || !hostMatches o.xhttp.host r.headers r.uri then
    pure (o.siteResponse r)
  else if r.method = .options then o.addXhttpResponsePadding (emptyResponse 200)
  else if !isPaddingLenValid (extractPaddingLen r.headers r.uri) o.xhttp.paddingFrom
      o.xhttp.paddingTo then
    pure (o.siteResponse r)
  else o.transport decode r >>= o.addXhttpResponsePadding

end Origin

end

end Xhttp.Http
