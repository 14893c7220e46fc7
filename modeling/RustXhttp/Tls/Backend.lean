import RustXhttp.Tls.Agreement
import RustXhttp.Tls.RecordBuffer

/-!
# The answer to a ClientHello (`src/tls/nginx_backend.rs`, `src/tls/cert.rs`)

`NginxProfileBackend::handshake` from the ClientHello to the records that it writes, and the
`RingSigningKey` that signs. The key pairs of `ring` are parameters: what signing a message gives,
with the randomness that it draws.

`negotiation_sound`: everything that the server selects was offered by the client.
-/

namespace Xhttp.Tls

open Exec List

/-! ## Signing keys -/

def ecdsaNistp256Sha256 : UInt16 := 0x0403
def ecdsaNistp384Sha384 : UInt16 := 0x0503
def rsaPssSha256 : UInt16 := 0x0804
def rsaPssSha384 : UInt16 := 0x0805
def rsaPssSha512 : UInt16 := 0x0806
def ed25519 : UInt16 := 0x0807

/-- The encodings of `ring` that an RSA key signs with. -/
inductive RsaPss where
  | sha256 | sha384 | sha512
  deriving DecidableEq, Repr

inductive RingSigningKey where
  | rsa (sign : RsaPss → Bytes → Option Bytes)
  | ecdsaP256 (sign : Bytes → Option Bytes)
  | ecdsaP384 (sign : Bytes → Option Bytes)
  | ed25519 (sign : Bytes → Bytes)

def orSigningFailed : Option Bytes → Except SignError Bytes
  | none => .error .signingFailed
  | some signature => .ok signature

def rsaSigner (sign : RsaPss → Bytes → Option Bytes) (scheme : UInt16) : Signer where
  scheme := scheme
  sign message :=
    if scheme = rsaPssSha256 then orSigningFailed (sign .sha256 message)
    else if scheme = rsaPssSha384 then orSigningFailed (sign .sha384 message)
    else if scheme = rsaPssSha512 then orSigningFailed (sign .sha512 message)
    else .error (.unsupportedSignatureScheme scheme)

def ecdsaSigner (sign : Bytes → Option Bytes) (scheme : UInt16) : Signer where
  scheme := scheme
  sign message := orSigningFailed (sign message)

def ed25519Signer (sign : Bytes → Bytes) : Signer where
  scheme := ed25519
  sign message := .ok (sign message)

def chooseFirst (offered allowed : List UInt16) : Option UInt16 :=
  offered.find? fun scheme => allowed.contains scheme

namespace RingSigningKey

def chooseScheme (key : RingSigningKey) (offered : List UInt16) : Option Signer :=
  match key with
  | .rsa sign =>
    (chooseFirst offered [rsaPssSha256, rsaPssSha384, rsaPssSha512]).map (rsaSigner sign)
  | .ecdsaP256 sign =>
    if offered.contains ecdsaNistp256Sha256 then some (ecdsaSigner sign ecdsaNistp256Sha256)
    else none
  | .ecdsaP384 sign =>
    if offered.contains ecdsaNistp384Sha384 then some (ecdsaSigner sign ecdsaNistp384Sha384)
    else none
  | .ed25519 sign => if offered.contains Tls.ed25519 then some (ed25519Signer sign) else none

/-- A key signs with a scheme that was offered. -/
theorem scheme_mem {key : RingSigningKey} {offered : List UInt16} {signer : Signer}
    (h : key.chooseScheme offered = some signer) : signer.scheme ∈ offered := by
  cases key with
  | rsa sign =>
    obtain ⟨scheme, hscheme, rfl⟩ := Option.map_eq_some_iff.mp h
    exact mem_of_find?_eq_some hscheme
  | ecdsaP256 sign | ecdsaP384 sign | ed25519 sign =>
    obtain ⟨hmem, ⟨⟩⟩ := Option.ite_none_right_eq_some.mp h
    exact contains_iff_mem.mp hmem

end RingSigningKey

/-! ## The handshake -/

inductive BackendError where
  | clientHello (e : ParseError)
  | noSharedCipherSuite
  | prepare (e : PrepareError)
  deriving DecidableEq, Repr

/-- `handshake`, from the ClientHello that was read to the prepared flight. -/
def answerClientHello (P : Primitives) (A : Aead) (identity : CertifiedIdentity)
    (alpn : List Bytes) (secret random : ByteArr 32) (clientHello : Bytes) :
    Exec BackendError PreparedServerHandshake := do
  let parsed ← Tls.mapError .clientHello (liftM (ClientHello.parseMessage clientHello))
  let cipher ← okOr (some (chooseCipher parsed)) .noSharedCipherSuite
  let template := serverHelloTemplate cipher groupX25519
  Tls.mapError .prepare
    (prepareServerHandshake P A identity secret random clientHello template alpn)

def plainRecord (recordType : UInt8) (payload : Bytes) : Bytes :=
  recordType :: [0x03, 0x03] ++ be16 payload.length ++ payload

/-- What `handshake` writes before it reads the client's Finished. -/
def PreparedServerHandshake.records (p : PreparedServerHandshake) : List Bytes :=
  [plainRecord tlsRecordHandshake p.flight.serverHello, p.flight.changeCipherSpec,
    p.flight.encryptedHandshakeRecord]

section

variable {P : Primitives} {A : Aead} {identity : CertifiedIdentity} {alpn : List Bytes}
  {random secret : ByteArr 32} {clientHello : Bytes} {p : PreparedServerHandshake}

/-! ## Negotiation -/

/-- `x` is the first of `xs` that was offered. -/
def FirstOffered {α : Type} (offered : α → Prop) (xs : List α) (x : α) : Prop :=
  offered x ∧ ∃ before after, xs = before ++ x :: after ∧ ∀ y ∈ before, ¬ offered y

theorem firstOffered_of_find? {α : Type} {offered : α → Prop} {p : α → Bool}
    (hp : ∀ x, p x = true ↔ offered x) {xs : List α} {x : α} (h : xs.find? p = some x) :
    FirstOffered offered xs x := by
  obtain ⟨hx, before, after, hxs, hbefore⟩ := find?_eq_some_iff_append.mp h
  refine ⟨(hp x).mp hx, before, after, hxs, ?_⟩
  intro y hy hoffered
  have hfalse := hbefore y hy
  rw [(hp y).mpr hoffered] at hfalse
  cases hfalse

theorem serverHelloCipherSuite_template (cipher : CipherSuite) :
    serverHelloCipherSuite (serverHelloTemplate cipher groupX25519) = some cipher.toU16 := by
  cases cipher <;> decide

theorem CipherSuite.toU16_inj {a b : CipherSuite} (h : a.toU16 = b.toU16) : a = b := by
  have ha := fromU16_toU16 a
  rw [h, fromU16_toU16] at ha
  exact (Option.some.inj ha).symm

/-- An answer is a handshake prepared with the template for the suite that is chosen. -/
theorem answerClientHello_agreed
    (h : Returns (answerClientHello P A identity alpn secret random clientHello) p) :
    chooseCipher p.client = some p.serverHello.suite ∧
      ∃ (share : KeyShare) (hlen : share.data.length = 32) (m : Rfc8446.Messages),
        Agreed P A identity secret random clientHello
          (serverHelloTemplate p.serverHello.suite groupX25519) alpn p share
          (P.x25519 secret ⟨share.data, hlen⟩).val m := by
  unfold answerClientHello at h
  obtain ⟨parsed, hparsed, h⟩ := returns_bind.mp h
  obtain ⟨cipher, hcipher, h⟩ := returns_bind.mp h
  obtain ⟨share, hlen, m, hm⟩ := prepareServerHandshake_agreed (returns_mapError.mp h)
  have hclient : parsed = p.client :=
    Except.ok.inj ((returns_except.mp (returns_mapError.mp hparsed)).symm.trans hm.parsed)
  have hsuite : cipher = p.serverHello.suite := by
    obtain ⟨_, _, _, _, _, _, _, -, -, -, -, -, -, -, -, -, htemplate, -⟩ := hm.synthesized.frame
    rw [serverHelloCipherSuite_template] at htemplate
    exact CipherSuite.toU16_inj (Option.some.inj htemplate)
  subst hclient hsuite
  exact ⟨Option.some.inj (returns_okOr.mp hcipher), share, hlen, m, hm⟩

end

/-- **Negotiation is sound.** -/
theorem negotiation_sound (P : Primitives) (A : Aead) (identity : CertifiedIdentity)
    (alpn : List Bytes) (secret random : ByteArr 32) (clientHello : Bytes)
    (p : PreparedServerHandshake)
    (h : Returns (answerClientHello P A identity alpn secret random clientHello) p) :
    ClientHello.parseMessage clientHello = .ok p.client ∧
      p.client.offersTls13 = true ∧
      -- the suite of the ServerHello
      (∃ suite : CipherSuite, serverHelloCipherSuite p.flight.serverHello = some suite.toU16 ∧
        FirstOffered (fun s : CipherSuite => s.toU16 ∈ p.client.cipherSuites)
          [.aes256GcmSha384, .chaCha20Poly1305Sha256, .aes128GcmSha256] suite) ∧
      -- its group
      (∃ share ∈ p.client.keyShares, ∃ offset len,
        findServerKeyshare p.flight.serverHello = some (some (share.group, offset, len)) ∧
        share.data.length = 32) ∧
      -- the scheme of the CertificateVerify
      (∀ key : RingSigningKey, identity.chooseScheme = key.chooseScheme →
        ∃ scheme ∈ p.client.signatureSchemes, ∃ signature finished,
          p.flight.encryptedHandshakePlaintext =
            encryptedExtensionsWithAlpn p.selectedAlpn ++ identity.message ++
              certificateVerifyMessage scheme signature ++ finished) ∧
      -- the protocol
      (∀ protocol, p.selectedAlpn = some protocol →
        FirstOffered (fun a => a ∈ p.client.alpn) alpn protocol) ∧
      (p.selectedAlpn = none → ∀ protocol ∈ alpn, protocol ∉ p.client.alpn) ∧
      -- the session id of the ServerHello
      p.client.sessionId.length ≤ 32 ∧
      ∃ len version tail : Bytes, len.length = 3 ∧ version.length = 2 ∧
        p.flight.serverHello = helloFront len version random.val p.client.sessionId ++ tail := by
  obtain ⟨hcipher, share, hlen, m, hm⟩ := answerClientHello_agreed h
  obtain ⟨len, version, _, _, before, _, after, hlen3, hversion, -, -, -, -, hmessage, -, hfound,
    -, hsuite⟩ := hm.synthesized.frame
  have hsh : p.flight.serverHello = p.serverHello.message := hm.serverHello.symm.trans hm.message
  rw [hsh]
  refine ⟨hm.parsed, hm.synthesized.offersTls13, ⟨_, hsuite, ?_⟩, ?_, ?_, ?_, ?_,
    hm.synthesized.sessionId_le, _, version, _, length_be24 _, hversion, hmessage⟩
  · exact firstOffered_of_find? (fun s => contains_iff_mem) hcipher
  · have hgroup : share.group = p.serverHello.keyShareGroup := by
      simpa using find?_some hm.share
    rw [← hgroup] at hfound
    exact ⟨share, mem_of_find?_eq_some hm.share, _, _, hfound, hlen⟩
  · intro key hkey
    obtain ⟨signer, signature, hsigner, -, hverify⟩ := hm.certificateVerify
    rw [hkey] at hsigner
    refine ⟨signer.scheme, key.scheme_mem hsigner, signature, m.finished, ?_⟩
    rw [hm.plaintext, ← hm.encryptedExtensions, ← hm.certificate, ← hverify]
    simp [Rfc8446.Messages.flight]
  · intro protocol hprotocol
    rw [hm.alpn, selectAlpn] at hprotocol
    exact firstOffered_of_find? (fun a => by simp) hprotocol
  · intro hnone protocol hprotocol hoffered
    rw [hm.alpn, selectAlpn, find?_eq_none] at hnone
    exact hnone protocol hprotocol (by simpa using hoffered)

/-- An identity that signs with an ECDSA key. -/
def ecdsaIdentity : CertifiedIdentity where
  certChain := [[6, 7, 8]]
  chooseScheme := (RingSigningKey.ecdsaP256 fun _ => some [4, 5]).chooseScheme
  nonempty := cons_ne_nil _ _

/-- The server supports `h3` and `h2`, prefers the second of the suites, and has a key for the
second of the schemes and a group for the second of the shares. -/
theorem negotiation_sound_sample :
    ∃ p, Returns (answerClientHello .sized .tagged ecdsaIdentity [[0x68, 0x33], [0x68, 0x32]]
        (filled 32 5) (zeros 32) sampleHello) p ∧
      p.client.cipherSuites = [0x1301, 0x1303] ∧ p.serverHello.suite = .chaCha20Poly1305Sha256 ∧
      p.client.signatureSchemes = [rsaPssSha256, ecdsaNistp256Sha256] ∧
      FirstOffered (fun a => a ∈ p.client.alpn) [[0x68, 0x33], [0x68, 0x32]] [0x68, 0x32] := by
  obtain ⟨p, hp, hobs⟩ := Option.map_eq_some_iff.mp (show
    ((answerClientHello .sized .tagged ecdsaIdentity [[0x68, 0x33], [0x68, 0x32]] (filled 32 5)
      (zeros 32) sampleHello).value?.map fun p => (p.client.cipherSuites, p.serverHello.suite,
        p.client.signatureSchemes, p.selectedAlpn)) =
      some ([0x1301, 0x1303], .chaCha20Poly1305Sha256, [rsaPssSha256, ecdsaNistp256Sha256],
        some [0x68, 0x32]) by decide +kernel)
  simp only [Prod.mk.injEq] at hobs
  obtain ⟨hsuites, hsuite, hschemes, halpn⟩ := hobs
  have hreturns := returns_of_value? hp
  obtain ⟨-, -, -, -, -, hprotocol, -⟩ := negotiation_sound .sized .tagged ecdsaIdentity
    [[0x68, 0x33], [0x68, 0x32]] (filled 32 5) (zeros 32) sampleHello p hreturns
  exact ⟨p, hreturns, hsuites, hsuite, hschemes, hprotocol _ halpn⟩

end Xhttp.Tls
