import RustXhttp.Tls.Flight

/-!
# A TLS 1.3 client (RFC 8446)

What a client computes from the messages that it sees and its ECDHE secret, in the terms of the
RFC: the key schedule of section 7.1 over lists of messages, the traffic keys of section 7.3, and
the signature content and the Finished of section 4.4. There is no PSK and no client certificate.
-/

namespace Xhttp.Tls.Rfc8446

open List

/-- The messages of the handshake, up to the server's Finished. -/
structure Messages where
  clientHello : Bytes
  serverHello : Bytes
  encryptedExtensions : Bytes
  certificate : Bytes
  certificateVerify : Bytes
  finished : Bytes

namespace Messages

variable (m : Messages)

def toServerHello : List Bytes := [m.clientHello, m.serverHello]

def toCertificate : List Bytes := m.toServerHello ++ [m.encryptedExtensions, m.certificate]

def toCertificateVerify : List Bytes := m.toCertificate ++ [m.certificateVerify]

def toFinished : List Bytes := m.toCertificateVerify ++ [m.finished]

/-- What the server sends after its ServerHello. -/
def flight : List Bytes :=
  [m.encryptedExtensions, m.certificate, m.certificateVerify, m.finished]

theorem flatten_toServerHello : m.toServerHello.flatten = m.clientHello ++ m.serverHello := by
  simp [toServerHello]

theorem flatten_toCertificate : m.toCertificate.flatten =
    m.clientHello ++ m.serverHello ++ m.encryptedExtensions ++ m.certificate := by
  simp [toCertificate, toServerHello]

theorem flatten_toCertificateVerify : m.toCertificateVerify.flatten =
    m.toCertificate.flatten ++ m.certificateVerify := by
  simp [toCertificateVerify]

theorem flatten_toFinished : m.toFinished.flatten =
    m.toCertificateVerify.flatten ++ m.finished := by
  simp [toFinished]

end Messages

/-! ## Reading the messages -/

/-- The messages of a byte string, by the lengths in their headers. -/
def splitHandshake : Nat → Bytes → Option (List Bytes)
  | 0, _ => none
  | fuel + 1, bytes =>
    match bytes with
    | [] => some []
    | _ :: a :: b :: c :: rest =>
      if rest.length < ofBe24 a b c then none
      else
        (splitHandshake fuel (rest.drop (ofBe24 a b c))).map fun messages =>
          bytes.take (4 + ofBe24 a b c) :: messages
    | _ => none

/-- A message is found at the front of a stream. -/
theorem splitHandshake_cons (msgType : UInt8) {body : Bytes} (h : body.length < 16777216)
    (fuel : Nat) (more : Bytes) :
    splitHandshake (fuel + 1) (handshakeMessage msgType body ++ more) =
      (splitHandshake fuel more).map fun messages => handshakeMessage msgType body :: messages := by
  have hlen := ofBe24_ofNat h
  have hfull : ¬ (body ++ more).length < body.length := by
    rw [length_append]
    omega
  have htake : (handshakeMessage msgType body ++ more).take (4 + body.length) =
      handshakeMessage msgType body := by
    apply take_left'
    simp only [handshakeMessage, cons_append, length_cons, length_append, length_be24]
    omega
  simp only [handshakeMessage, be24, cons_append, nil_append] at htake ⊢
  simp only [splitHandshake, hlen, if_neg hfull, drop_left, htake]

/-- The suite in a ServerHello: after the version, the random and the session id. -/
def selectedSuite (serverHello : Bytes) : Option CipherSuite :=
  match serverHello.drop 38 with
  | sidLen :: rest =>
    match rest.drop sidLen.toNat with
    | a :: b :: _ => CipherSuite.fromU16 (u16 a b)
    | _ => none
  | [] => none

/-! ## Key schedule -/

/-- A vector with a length of one byte. -/
def vector8 (bytes : Bytes) : Bytes := UInt8.ofNat bytes.length :: bytes

/-- The two ends of a connection. -/
inductive Side where
  | client | server
  deriving DecidableEq, Repr

section

variable (P : Primitives) (alg : HashAlg)

def transcriptHash (messages : List Bytes) : Secret alg := P.hash alg messages.flatten

def expandLabel (secret : Secret alg) (label : String) (context : Bytes) (length : Nat) :
    ByteArr length :=
  P.hkdfExpand alg secret
    (be16 length ++ vector8 (ascii "tls13 " ++ ascii label) ++ vector8 context) length

def deriveSecret (secret : Secret alg) (label : String) (messages : List Bytes) : Secret alg :=
  expandLabel P alg secret label (transcriptHash P alg messages).val alg.outputLen

def zero : Bytes := (zeros alg.outputLen).val

def earlySecret : Secret alg := P.hkdfExtract alg (zero alg) (zero alg)

def handshakeSecret (ecdhe : Bytes) : Secret alg :=
  P.hkdfExtract alg (deriveSecret P alg (earlySecret P alg) "derived" []).val ecdhe

def masterSecret (ecdhe : Bytes) : Secret alg :=
  P.hkdfExtract alg (deriveSecret P alg (handshakeSecret P alg ecdhe) "derived" []).val (zero alg)

def handshakeTraffic (ecdhe : Bytes) (m : Messages) : Side → Secret alg
  | .client => deriveSecret P alg (handshakeSecret P alg ecdhe) "c hs traffic" m.toServerHello
  | .server => deriveSecret P alg (handshakeSecret P alg ecdhe) "s hs traffic" m.toServerHello

def applicationTraffic (ecdhe : Bytes) (m : Messages) : Side → Secret alg
  | .client => deriveSecret P alg (masterSecret P alg ecdhe) "c ap traffic" m.toFinished
  | .server => deriveSecret P alg (masterSecret P alg ecdhe) "s ap traffic" m.toFinished

end

/-- The traffic keys of a secret. -/
def trafficKeys (P : Primitives) (suite : CipherSuite) (secret : Secret suite.hash) : RecordKeys :=
  .new suite (expandLabel P suite.hash secret "key" [] suite.keyLen)
    (expandLabel P suite.hash secret "iv" [] 12)

/-! ## Authentication messages -/

section

variable (P : Primitives) (alg : HashAlg)

/-- What the server signs in its CertificateVerify. -/
def signatureContent (m : Messages) : Bytes :=
  List.replicate 64 0x20 ++ ascii "TLS 1.3, server CertificateVerify" ++ [0] ++
    (transcriptHash P alg m.toCertificate).val

def verifyData (baseKey : Secret alg) (messages : List Bytes) : Secret alg :=
  P.hmac alg (expandLabel P alg baseKey "finished" [] alg.outputLen).val
    (transcriptHash P alg messages).val

/-- The Finished message after `messages`. -/
def finished (baseKey : Secret alg) (messages : List Bytes) : Bytes :=
  20 :: be24 (verifyData P alg baseKey messages).val.length ++
    (verifyData P alg baseKey messages).val

end

end Xhttp.Tls.Rfc8446
