import RustXhttp.Tls.ClientHello

/-!
# Handshake messages (`src/tls/tls13/messages.rs`, `src/tls/cert.rs`)

The messages of the server's flight, and the scans of a ServerHello. Certificates are their DER
bytes, protocol names the bytes of their text. `find_server_keyshare` indexes the extensions
without a check: its outer `none` is the panic.
-/

namespace Xhttp.Tls

def hsServerHello : UInt8 := 2
def hsEncryptedExtensions : UInt8 := 8
def hsCertificate : UInt8 := 11
def hsCertificateVerify : UInt8 := 15
def hsFinished : UInt8 := 20

def handshakeMessage (msgType : UInt8) (body : Bytes) : Bytes := msgType :: be24 body.length ++ body

def encryptedExtensions : Bytes := handshakeMessage hsEncryptedExtensions [0x00, 0x00]

def encryptedExtensionsWithAlpn : Option Bytes → Bytes
  | none => encryptedExtensions
  | some protocol =>
    let protocolNameList := UInt8.ofNat protocol.length :: protocol
    let alpnBody := be16 protocolNameList.length ++ protocolNameList
    let extensions := be16 extAlpn.toNat ++ be16 alpnBody.length ++ alpnBody
    handshakeMessage hsEncryptedExtensions (be16 extensions.length ++ extensions)

def finishedMessage (verifyData : Bytes) : Bytes := handshakeMessage hsFinished verifyData

def certificateMessage (certChain : List Bytes) : Bytes :=
  let certList := certChain.flatMap fun cert => be24 cert.length ++ cert ++ be16 0
  handshakeMessage hsCertificate (0 :: be24 certList.length ++ certList)

def serverCertVerifyContext : Bytes := ascii "TLS 1.3, server CertificateVerify"

def certificateVerifyContent (transcriptHash : Bytes) : Bytes :=
  List.replicate 64 0x20 ++ serverCertVerifyContext ++ 0 :: transcriptHash

def certificateVerifyMessage (scheme : UInt16) (signature : Bytes) : Bytes :=
  handshakeMessage hsCertificateVerify
    (be16 scheme.toNat ++ be16 signature.length ++ signature)

/-! ## Scanning a ServerHello -/

/-- The `u16` at a position. -/
def u16At (bytes : Bytes) (pos : Nat) : Option UInt16 :=
  match bytes[pos]?, bytes[pos + 1]? with
  | some a, some b => some (u16 a b)
  | _, _ => none

/-- The key share at a position: its group, offset and length. -/
def keyshareAt (serverHello : Bytes) (extData : Nat) : Option (UInt16 × Nat × Nat) :=
  (u16At serverHello extData).bind fun group =>
    (u16At serverHello (extData + 2)).bind fun kxLen =>
      if extData + 4 + kxLen.toNat ≤ serverHello.length then
        some (group, extData + 4, kxLen.toNat)
      else none

/-- The loop over the extensions. -/
def scanExtensions (serverHello : Bytes) (extEnd : Nat) :
    Nat → Nat → Option (Option (UInt16 × Nat × Nat))
  | 0, _ => some none
  | fuel + 1, pos =>
    if pos + 4 ≤ extEnd then
      (u16At serverHello pos).bind fun extType =>
        (u16At serverHello (pos + 2)).bind fun extLen =>
          if extType = extKeyShare then some (keyshareAt serverHello (pos + 4))
          else scanExtensions serverHello extEnd fuel (pos + 4 + extLen.toNat)
    else some none

/-- Where the fields after the session id start. -/
def afterSessionId (serverHello : Bytes) : Option Nat :=
  (serverHello[38]?).map fun sidLen => 39 + sidLen.toNat

def findServerKeyshare (serverHello : Bytes) : Option (Option (UInt16 × Nat × Nat)) :=
  match afterSessionId serverHello with
  | none => some none
  | some pos =>
    let pos := pos + 3
    match u16At serverHello pos with
    | none => some none
    | some extTotal =>
      -- every iteration skips at least four bytes
      let fuel := extTotal.toNat + 1
      scanExtensions serverHello (pos + 2 + extTotal.toNat) fuel (pos + 2)

def serverHelloCipherSuite (serverHello : Bytes) : Option UInt16 :=
  (afterSessionId serverHello).bind fun pos => u16At serverHello pos

/-! ## Certified identities -/

inductive SignError where
  | unsupportedPrivateKey
  | unsupportedSignatureScheme (scheme : UInt16)
  | signingFailed
  deriving DecidableEq, Repr

inductive CertificateVerifyError where
  | noSupportedSignatureScheme
  | signing (e : SignError)
  deriving DecidableEq, Repr

/-- `Signer`: one signature, with the randomness that it draws. -/
structure Signer where
  scheme : UInt16
  sign : Bytes → Except SignError Bytes

/-- `CertifiedIdentity`; `choose_scheme` is that of its `SigningKey`. -/
structure CertifiedIdentity where
  certChain : List Bytes
  chooseScheme : List UInt16 → Option Signer
  nonempty : certChain ≠ []

namespace CertifiedIdentity

def message (identity : CertifiedIdentity) : Bytes := certificateMessage identity.certChain

def signCertificateVerify (identity : CertifiedIdentity) (transcriptHash : Bytes)
    (offeredSchemes : List UInt16) : Except CertificateVerifyError Bytes :=
  match identity.chooseScheme offeredSchemes with
  | none => .error .noSupportedSignatureScheme
  | some signer =>
    match signer.sign (certificateVerifyContent transcriptHash) with
    | .error e => .error (.signing e)
    | .ok signature => .ok (certificateVerifyMessage signer.scheme signature)

end CertifiedIdentity

end Xhttp.Tls
