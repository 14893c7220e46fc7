import RustXhttp.Tls.KeySchedule
import RustXhttp.Tls.Messages

/-!
# The server's flight (`src/tls/tls13/flight.rs`, `src/tls/tls13/keyshare.rs`)

The ServerHello is made from a template: it gets a new random, the session id of the client and
the key share of the server. The other messages of the flight are sealed in one record.

The random and the secret of the key share are drawn from the operating system: arguments.
-/

namespace Xhttp.Tls

open Exec (okOr)

/-! ## The key share of the server -/

def groupX25519 : UInt16 := 0x001d

structure ServerKeyShare where
  group : UInt16
  publicKey : Bytes
  sharedSecret : Bytes

inductive KeyShareError where
  | unsupportedGroup (group : UInt16)
  | invalidLength (group : UInt16) (expected actual : Nat)
  | nonContributory
  deriving DecidableEq, Repr

section

variable (P : Primitives)

def x25519WithSecret (peerKey : Bytes) (secret : ByteArr 32) :
    Except KeyShareError ServerKeyShare :=
  if h : peerKey.length = 32 then
    let shared := P.x25519 secret ⟨peerKey, h⟩
    if P.wasContributory shared then .ok ⟨groupX25519, (P.x25519Public secret).val, shared.val⟩
    else .error .nonContributory
  else .error (.invalidLength groupX25519 32 peerKey.length)

def generateServerKeyshare (group : UInt16) (peerKey : Bytes) (secret : ByteArr 32) :
    Except KeyShareError ServerKeyShare :=
  if group = groupX25519 then x25519WithSecret P peerKey secret
  else .error (.unsupportedGroup group)

end

/-! ## The ServerHello -/

inductive FlightError where
  | malformedServerHello
  | tls13NotOffered
  | sessionIdTooLong
  | unsupportedCipherSuite (id : UInt16)
  | cipherNotOffered (id : UInt16)
  | keyShareGroupNotOffered (group : UInt16)
  | keyShareLengthMismatch (group : UInt16) (expected actual : Nat)
  | cipherHashMismatch
  deriving DecidableEq, Repr

def CipherSuite.fromU16 (id : UInt16) : Option CipherSuite :=
  if id = 0x1301 then some .aes128GcmSha256
  else if id = 0x1302 then some .aes256GcmSha384
  else if id = 0x1303 then some .chaCha20Poly1305Sha256
  else none

def CipherSuite.toU16 : CipherSuite → UInt16
  | .aes128GcmSha256 => 0x1301
  | .aes256GcmSha384 => 0x1302
  | .chaCha20Poly1305Sha256 => 0x1303

structure SynthesizedServerHello where
  message : Bytes
  suite : CipherSuite
  keyShareGroup : UInt16

/-- `bytes[offset..offset + new.len()].copy_from_slice(new)`. -/
def overwrite (bytes : Bytes) (offset : Nat) (new : Bytes) : Bytes :=
  bytes.take offset ++ new ++ bytes.drop (offset + new.length)

/-- `bytes[offset..offset + len].copy_from_slice(new)`, which panics unless the lengths agree. -/
def copyInto (bytes : Bytes) (offset len : Nat) (new : Bytes) : Option Bytes :=
  if len = new.length then some (overwrite bytes offset new) else none

def serverHelloBodyLen (template : Bytes) : Exec FlightError Nat :=
  match template with
  | t :: a :: b :: c :: _ =>
    if t ≠ hsServerHello then throw .malformedServerHello else pure (ofBe24 a b c)
  | _ => throw .malformedServerHello

def validateServerHelloTemplate (template : Bytes) : Exec FlightError Unit := do
  let bodyLen ← serverHelloBodyLen template
  failIf (bodyLen ≠ template.length - 4) .malformedServerHello
  let _ ← okOr (findServerKeyshare template) .malformedServerHello
  let _ ← okOr (some (serverHelloCipherSuite template)) .malformedServerHello

/-- The ServerHello with the new random and session id, before its length is set. -/
def spliceSessionId (template sessionId : Bytes) (random : ByteArr 32) (oldSidEnd : Nat) : Bytes :=
  template.take 6 ++ random.val ++ UInt8.ofNat sessionId.length :: sessionId ++
    template.drop oldSidEnd

def rewriteRandomAndSessionId (template sessionId : Bytes) (random : ByteArr 32) :
    Exec FlightError Bytes := do
  let _ ← serverHelloBodyLen template
  let oldSidLen ← okOr (some template[38]?) .malformedServerHello
  let oldSidEnd := 38 + (1 + oldSidLen.toNat)
  failIf (oldSidEnd > template.length) .malformedServerHello
  let out := spliceSessionId template sessionId random oldSidEnd
  return overwrite out 1 (be24 (out.length - 4))

def synthesizeServerHello (template : Bytes) (client : ClientHello) (serverKeyshare : Bytes)
    (random : ByteArr 32) : Exec FlightError SynthesizedServerHello := do
  validateServerHelloTemplate template
  failIf (client.offersTls13 = false) .tls13NotOffered
  failIf (client.sessionId.length > 32) .sessionIdTooLong
  let cipherId ← okOr (some (serverHelloCipherSuite template)) .malformedServerHello
  let suite ← okOr (some (CipherSuite.fromU16 cipherId)) (.unsupportedCipherSuite cipherId)
  failIf (client.cipherOffered cipherId = false) (.cipherNotOffered cipherId)
  let found ← okOr (findServerKeyshare template) .malformedServerHello
  let group := found.1
  let templateKeyshareLen := found.2.2
  failIf (client.keyshareGroupOffered group = false) (.keyShareGroupNotOffered group)
  failIf (templateKeyshareLen ≠ serverKeyshare.length)
    (.keyShareLengthMismatch group templateKeyshareLen serverKeyshare.length)
  let message ← rewriteRandomAndSessionId template client.sessionId random
  let found ← okOr (findServerKeyshare message) .malformedServerHello
  let message ← (copyInto message found.2.1 found.2.2 serverKeyshare : Option Bytes)
  return ⟨message, suite, group⟩

/-! ## The flight -/

structure ServerHandshakeFlight where
  serverHello : Bytes
  changeCipherSpec : Bytes
  encryptedHandshakePlaintext : Bytes
  encryptedHandshakeRecord : Bytes
  serverFinished : Bytes
  transcriptHashToServerFinished : Bytes

def changeCipherSpecRecord : Bytes := [0x14, 0x03, 0x03, 0x00, 0x01, 0x01]

/-- The keys of a suite, from a schedule for its hash. -/
def KeySchedule.recordKeys (P : Primitives) (s : KeySchedule) (secret : Secret s.hash)
    (suite : CipherSuite) : RecordKeys :=
  let keys := s.trafficKeys P secret suite.keyLen
  .new suite keys.key keys.iv

def buildServerHandshakeFlight (P : Primitives) (A : Aead) (selected : SynthesizedServerHello)
    (schedule : KeySchedule) (transcriptBeforeServerHello encryptedExtensions certificate
      certificateVerify : Bytes) : Exec FlightError ServerHandshakeFlight := do
  failIf (schedule.hash ≠ selected.suite.hash) .cipherHashMismatch
  let transcript := transcriptBeforeServerHello ++ selected.message ++ encryptedExtensions ++
    certificate ++ certificateVerify
  let transcriptHash := (P.hash schedule.hash transcript).val
  let verifyData := schedule.finishedVerifyData P schedule.serverHsTraffic transcriptHash
  let serverFinished := finishedMessage verifyData.val
  let plaintext := encryptedExtensions ++ certificate ++ certificateVerify ++ serverFinished
  let recordKeys := schedule.recordKeys P schedule.serverHsTraffic selected.suite
  let r ← (recordKeys.seal A recordHandshake plaintext : Option (RecordKeys × Bytes))
  return {
    serverHello := selected.message
    changeCipherSpec := changeCipherSpecRecord
    encryptedHandshakePlaintext := plaintext
    encryptedHandshakeRecord := r.2
    serverFinished := serverFinished
    transcriptHashToServerFinished := transcriptHash }

end Xhttp.Tls
