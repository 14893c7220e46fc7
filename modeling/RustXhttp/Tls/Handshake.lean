import RustXhttp.Tls.Flight

/-!
# The server's handshake (`src/tls/tls13/handshake.rs`, `src/tls/nginx_backend.rs`)

`prepareServerHandshake` answers a ClientHello: it makes the flight, and the keys and the Finished
that it expects from the client.
-/

namespace Xhttp.Tls

open Exec (okOr)

inductive PrepareError where
  | clientHello (e : ParseError)
  | missingTemplateKeyShare
  | missingClientKeyShare (group : UInt16)
  | missingSignatureAlgorithms
  | keyShare (e : KeyShareError)
  | flight (e : FlightError)
  | certificateVerify (e : CertificateVerifyError)
  deriving DecidableEq, Repr

structure PreparedServerHandshake where
  client : ClientHello
  selectedAlpn : Option Bytes
  serverHello : SynthesizedServerHello
  flight : ServerHandshakeFlight
  clientHandshakeRead : RecordKeys
  transcriptHashToClientFinished : Bytes
  schedule : KeySchedule
  expectedClientFinished : Bytes

def selectAlpn (client : ClientHello) (alpnProtocols : List Bytes) : Option Bytes :=
  alpnProtocols.find? fun candidate => client.alpn.any fun offered => offered = candidate

/-- `?` with the conversion of the error. -/
def mapError {E E' α : Type} (f : E → E') (x : Exec E α) : Exec E' α := ExceptT.adapt f x

def prepareServerHandshake (P : Primitives) (A : Aead) (identity : CertifiedIdentity)
    (secret random : ByteArr 32) (clientHelloMessage serverHelloTemplate : Bytes)
    (alpnProtocols : List Bytes) : Exec PrepareError PreparedServerHandshake := do
  let client ← mapError .clientHello (liftM (ClientHello.parseMessage clientHelloMessage))
  failIf (client.signatureSchemes = []) .missingSignatureAlgorithms
  let found ← okOr (findServerKeyshare serverHelloTemplate) .missingTemplateKeyShare
  let group := found.1
  let clientKeyshare ← okOr (some (client.keyShares.find? fun share => share.group = group))
    (.missingClientKeyShare group)
  let keyshare ← mapError .keyShare
    (liftM (generateServerKeyshare P group clientKeyshare.data secret))
  let serverHello ← mapError .flight
    (synthesizeServerHello serverHelloTemplate client keyshare.publicKey random)
  let selectedAlpn := selectAlpn client alpnProtocols
  let encryptedExtensions := encryptedExtensionsWithAlpn selectedAlpn
  let certificate := identity.message
  let transcriptToCertificate := client.rawMessage ++ serverHello.message ++
    encryptedExtensions ++ certificate
  let hash := serverHello.suite.hash
  let transcriptHashToCertificate := P.hash hash transcriptToCertificate
  let certificateVerify ← mapError .certificateVerify
    (liftM (identity.signCertificateVerify transcriptHashToCertificate.val
      client.signatureSchemes))
  let transcriptChSh := client.rawMessage ++ serverHello.message
  let schedule := KeySchedule.new P hash keyshare.sharedSecret (P.hash hash transcriptChSh).val
  let clientHandshakeRead := schedule.recordKeys P schedule.clientHsTraffic serverHello.suite
  let flight ← mapError .flight
    (buildServerHandshakeFlight P A serverHello schedule client.rawMessage encryptedExtensions
      certificate certificateVerify)
  let transcriptToClientFinished :=
    transcriptToCertificate ++ certificateVerify ++ flight.serverFinished
  let transcriptHashToClientFinished := (P.hash hash transcriptToClientFinished).val
  return {
    client := client
    selectedAlpn := selectedAlpn
    serverHello := serverHello
    flight := flight
    clientHandshakeRead := clientHandshakeRead
    transcriptHashToClientFinished := transcriptHashToClientFinished
    schedule := schedule
    expectedClientFinished :=
      (schedule.finishedVerifyData P schedule.clientHsTraffic transcriptHashToClientFinished).val }

/-! ## The choices of `NginxProfileBackend::handshake` -/

def chooseCipher (client : ClientHello) : Option CipherSuite :=
  [CipherSuite.aes256GcmSha384, .chaCha20Poly1305Sha256, .aes128GcmSha256].find? fun suite =>
    client.cipherOffered suite.toU16

def pushExt (extType : UInt16) (body : Bytes) : Bytes :=
  be16 extType.toNat ++ be16 body.length ++ body

def serverHelloTemplate (cipher : CipherSuite) (group : UInt16) : Bytes :=
  let supportedVersions := be16 0x0304
  let keyShare := be16 group.toNat ++ be16 32 ++ (zeros 32).val
  let extensions := pushExt 0x002b supportedVersions ++ pushExt 0x0033 keyShare
  handshakeMessage hsServerHello
    (be16 0x0303 ++ (zeros 32).val ++ 0 :: be16 cipher.toU16.toNat ++ 0 ::
      be16 extensions.length ++ extensions)

/-! ## The client's Finished and the application keys -/

inductive ClientFinishedError where
  | malformed | verifyDataMismatch
  deriving DecidableEq, Repr

structure ApplicationRecordKeys where
  clientRead : RecordKeys
  serverWrite : RecordKeys

namespace PreparedServerHandshake

def verifyClientFinishedMessage (p : PreparedServerHandshake) (message : Bytes) :
    Except ClientFinishedError Unit :=
  match message with
  | t :: a :: b :: c :: rest =>
    if message.length ≠ 4 + p.expectedClientFinished.length ∨ t ≠ hsFinished then
      .error .malformed
    else if ofBe24 a b c ≠ p.expectedClientFinished.length then .error .malformed
    else if rest ≠ p.expectedClientFinished then .error .verifyDataMismatch
    else .ok ()
  -- shorter than a header
  | _ => .error .malformed

def applicationRecordKeys (P : Primitives) (p : PreparedServerHandshake) : ApplicationRecordKeys :=
  let secrets := p.schedule.applicationTrafficSecrets P p.transcriptHashToClientFinished
  let suite := p.serverHello.suite
  { clientRead := p.schedule.recordKeys P secrets.1 suite
    serverWrite := p.schedule.recordKeys P secrets.2 suite }

end PreparedServerHandshake

end Xhttp.Tls
