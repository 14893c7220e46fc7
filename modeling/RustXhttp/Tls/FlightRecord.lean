import RustXhttp.Tls.Backend

/-!
# The records of the handshake

RFC 8446 allows 2¹⁴ bytes of plaintext in a record, and 256 more of ciphertext. `handshake` writes
the ServerHello in one record, which always fits, and the flight in one record whatever its size:
it fits exactly when the certificates leave the flight within the limit
(`handshake_records_fit`).
-/

namespace Xhttp.Tls

open Exec List

/-- The limit of RFC 8446 for the plaintext of a record. -/
def maxPlaintext : Nat := 16384

/-- The limit of RFC 8446 for the ciphertext of a record. -/
def maxCiphertext : Nat := maxPlaintext + 256

/-- The header of a record announces the number of bytes that follow it. -/
def Framed (record : Bytes) : Prop := recordLen record + 5 = record.length

theorem length_plainRecord (recordType : UInt8) (payload : Bytes) :
    (plainRecord recordType payload).length = 5 + payload.length := by
  simp only [plainRecord, cons_append, nil_append, length_cons, length_append, length_be16]
  omega

theorem framed_plainRecord (recordType : UInt8) {payload : Bytes} (h : payload.length < 65536) :
    Framed (plainRecord recordType payload) := by
  have hlen : recordLen (plainRecord recordType payload) = payload.length := ofBe16_ofNat h
  rw [Framed, hlen, length_plainRecord]
  omega

/-! ## Sizes of the messages -/

@[simp] theorem length_handshakeMessage (msgType : UInt8) (body : Bytes) :
    (handshakeMessage msgType body).length = 4 + body.length := by
  rw [handshakeMessage, length_append, length_cons, length_be24]

/-- The size of the certificates of a chain, each with its length and no extensions. -/
def chainSize : List Bytes → Nat
  | [] => 0
  | cert :: chain => cert.length + 5 + chainSize chain

theorem length_certList (chain : List Bytes) :
    (chain.flatMap fun cert => be24 cert.length ++ cert ++ be16 0).length = chainSize chain := by
  induction chain with
  | nil => rfl
  | cons cert chain ih =>
    rw [flatMap_cons, length_append, ih, length_append, length_append,
      length_be24, length_be16, chainSize]
    omega

theorem length_certificateMessage (chain : List Bytes) :
    (certificateMessage chain).length = 8 + chainSize chain := by
  rw [certificateMessage, length_handshakeMessage, length_append, length_cons,
    length_be24, length_certList]
  omega

theorem length_certificateVerifyMessage (scheme : UInt16) (signature : Bytes) :
    (certificateVerifyMessage scheme signature).length = 8 + signature.length := by
  rw [certificateVerifyMessage, length_handshakeMessage, length_append, length_append,
    length_be16, length_be16]
  omega

theorem length_finished (P : Primitives) (alg : HashAlg) (baseKey : Secret alg)
    (messages : List Bytes) :
    (Rfc8446.finished P alg baseKey messages).length = 4 + alg.outputLen := by
  rw [Rfc8446.finished, length_append, length_cons, length_be24, ByteArr.length_val]

theorem length_serverHelloTemplate (cipher : CipherSuite) :
    (serverHelloTemplate cipher groupX25519).length = 90 := by
  cases cipher <;> decide

/-- A ServerHello for one of the templates is small. -/
theorem length_serverHello_le {P : Primitives} {secret : ByteArr 32} {client : ClientHello}
    {random : ByteArr 32} {cipher : CipherSuite} {r : SynthesizedServerHello}
    (h : Synthesized (serverHelloTemplate cipher groupX25519) (P.x25519Public secret).val client
      random r) : r.message.length ≤ 122 := by
  have hsid := h.sessionId_le
  obtain ⟨len, version, oldRandom, oldSid, before, oldShare, after, hlen, hversion, hrandom, -,
    hshare, ht, hm, -⟩ := h.frame
  have htl := congrArg List.length ht
  have hml := congrArg List.length hm
  rw [length_serverHelloTemplate, length_append, length_helloFront hlen hversion hrandom,
    length_append, length_append] at htl
  rw [length_append, length_helloFront (length_be24 _) hversion random.length_val,
    length_append, length_append] at hml
  omega

/-- The size of a flight with the protocol and the suite that are chosen for a ClientHello. -/
def flightSize (identity : CertifiedIdentity) (protocol : Option Bytes) (cipher : CipherSuite)
    (signature : Bytes) : Nat :=
  (encryptedExtensionsWithAlpn protocol).length + (8 + chainSize identity.certChain) +
    (8 + signature.length) + (4 + cipher.hash.outputLen)

section

variable {P : Primitives} {A : Aead} {identity : CertifiedIdentity} {secret random : ByteArr 32}
  {clientHelloMessage template : Bytes} {alpn : List Bytes} {p : PreparedServerHandshake}
  {share : KeyShare} {ecdhe : Bytes} {m : Rfc8446.Messages}

theorem Agreed.length_plaintext
    (h : Agreed P A identity secret random clientHelloMessage template alpn p share ecdhe m) :
    ∃ scheme signature, m.certificateVerify = certificateVerifyMessage scheme signature ∧
      p.flight.encryptedHandshakePlaintext.length =
        flightSize identity p.selectedAlpn p.serverHello.suite signature := by
  obtain ⟨signer, signature, -, -, hverify⟩ := h.certificateVerify
  refine ⟨signer.scheme, signature, hverify, ?_⟩
  have hcert : m.certificate.length = 8 + chainSize identity.certChain := by
    rw [h.certificate]
    exact length_certificateMessage identity.certChain
  have hcv : m.certificateVerify.length = 8 + signature.length := by
    rw [hverify, length_certificateVerifyMessage]
  have hfin : m.finished.length = 4 + p.serverHello.suite.hash.outputLen := by
    rw [h.finished, length_finished]
  rw [h.plaintext, flightSize, ← hcert, ← hcv, ← hfin, ← h.encryptedExtensions]
  simp only [Rfc8446.Messages.flight, flatten_cons, flatten_nil, length_append, length_nil]
  omega

/-- A record that was sealed within the limits of `unseal_sealInto` is framed and opens. -/
theorem framed_seal (hA : A.Lawful) {keys k : RecordKeys} {contentType : UInt8}
    (ht : contentType ≠ 0) {plaintext record : Bytes} (hlen : plaintext.length + 17 ≤ 65535)
    (h : keys.seal A contentType plaintext = some (k, record)) :
    Framed record ∧ recordLen record = plaintext.length + 17 ∧
      keys.unseal A record = (keys.next, some (contentType, plaintext)) := by
  obtain ⟨record', hseal, hsize, hrl, hopen⟩ := unseal_sealInto hA keys ht plaintext 0 hlen
  obtain ⟨-, rfl⟩ : k = keys.next ∧ record = record' := by
    have hsame := h.symm.trans hseal
    cases hsame
    exact ⟨rfl, rfl⟩
  exact ⟨by rw [Framed, hsize, hrl]; omega, hrl, hopen⟩

end

/-- **The records of a handshake.** The ServerHello always fits in its record. The record of the
flight has the format of a TLS record, and a client with the keys of the RFC opens it and finds the
four messages, exactly when the flight has at most 2¹⁴ bytes. Its size comes from the certificates,
the choices for the ClientHello and the signature. -/
theorem handshake_records_fit (P : Primitives) (A : Aead) (hA : A.Lawful)
    (identity : CertifiedIdentity) (alpn : List Bytes) (secret random : ByteArr 32)
    (clientHello : Bytes) (p : PreparedServerHandshake)
    (h : Returns (answerClientHello P A identity alpn secret random clientHello) p) :
    ∃ hello record parsed cipher, p.records = [hello, p.flight.changeCipherSpec, record] ∧
      hello = plainRecord tlsRecordHandshake p.flight.serverHello ∧ Framed hello ∧
      p.flight.serverHello.length ≤ maxPlaintext ∧
      ClientHello.parseMessage clientHello = .ok parsed ∧ chooseCipher parsed = some cipher ∧
      ∃ (share : KeyShare) (hlen : share.data.length = 32) (m : Rfc8446.Messages)
        (scheme : UInt16) (signature : Bytes),
        share ∈ parsed.keyShares ∧
        m.clientHello = clientHello ∧ m.serverHello = p.flight.serverHello ∧
        m.encryptedExtensions = encryptedExtensionsWithAlpn (selectAlpn parsed alpn) ∧
        m.certificate = identity.message ∧
        m.certificateVerify = certificateVerifyMessage scheme signature ∧
        p.flight.encryptedHandshakePlaintext.length =
          flightSize identity (selectAlpn parsed alpn) cipher signature ∧
        let keys := Rfc8446.trafficKeys P cipher (Rfc8446.handshakeTraffic P
          cipher.hash (P.x25519 secret ⟨share.data, hlen⟩).val m .server)
        (Framed record ∧
          p.flight.encryptedHandshakePlaintext.length ≤ maxPlaintext ∧
          recordLen record ≤ maxCiphertext ∧
          keys.unseal A record =
            (keys.next, some (recordHandshake, p.flight.encryptedHandshakePlaintext)) ∧
          Rfc8446.splitHandshake 5 p.flight.encryptedHandshakePlaintext = some
            [m.encryptedExtensions, m.certificate, m.certificateVerify, m.finished]) ↔
          flightSize identity (selectAlpn parsed alpn) cipher signature ≤ maxPlaintext := by
  obtain ⟨hcipher, share, hlen, m, hm⟩ := answerClientHello_agreed h
  obtain ⟨scheme, signature, hverify, hsize⟩ := hm.length_plaintext
  rw [hm.alpn] at hsize
  have hsh : p.flight.serverHello.length ≤ 122 := by
    rw [← hm.serverHello, hm.message]
    exact length_serverHello_le hm.synthesized
  refine ⟨_, _, p.client, p.serverHello.suite, rfl, rfl, framed_plainRecord _ (by omega),
    by unfold maxPlaintext; omega, hm.parsed, hcipher, share, hlen, m, scheme, signature,
    mem_of_find?_eq_some hm.share, hm.clientHello, hm.serverHello,
    hm.alpn ▸ hm.encryptedExtensions, hm.certificate, hverify, hsize, ?_⟩
  constructor
  · rintro ⟨-, hle, -⟩
    rw [← hsize]
    exact hle
  · intro hle
    rw [← hsize] at hle
    have hfits : p.flight.encryptedHandshakePlaintext.length + 17 ≤ 65535 := by
      unfold maxPlaintext at hle
      omega
    obtain ⟨k, hseal⟩ := hm.sealed
    obtain ⟨hframed, hrl, hopen⟩ := framed_seal hA (by decide) hfits hseal
    refine ⟨hframed, hle, ?_, hopen, hm.splitHandshake ?_ 0⟩
    · rw [hrl]
      unfold maxCiphertext
      omega
    · intro message hmem
      have hpart : message.length ≤ p.flight.encryptedHandshakePlaintext.length := by
        rw [hm.plaintext]
        exact (sublist_flatten_of_mem hmem).length_le
      omega

theorem handshake_records_fit_sample :
    ∃ p, Returns (answerClientHello .sized .tagged ecdsaIdentity [] (filled 32 5) (zeros 32)
      sampleHello) p ∧ Framed p.flight.encryptedHandshakeRecord := by
  obtain ⟨p, hp, hsize⟩ := Option.map_eq_some_iff.mp (show
    ((answerClientHello .sized .tagged ecdsaIdentity [] (filled 32 5) (zeros 32)
      sampleHello).value?.map fun p => p.flight.encryptedHandshakePlaintext.length) = some 68 by
        decide +kernel)
  have hreturns := returns_of_value? hp
  obtain ⟨_, _, _, _, ⟨⟩, -, -, -, -, -, _, _, _, _, _, -, -, -, -, -, -, hflight, hiff⟩ :=
    handshake_records_fit .sized .tagged Aead.tagged_lawful ecdsaIdentity [] (filled 32 5)
      (zeros 32) sampleHello p hreturns
  have hle : p.flight.encryptedHandshakePlaintext.length ≤ maxPlaintext := by
    rw [hsize]
    decide
  exact ⟨p, hreturns, (hiff.mpr (hflight ▸ hle)).1⟩

/-! ## A large certificate -/

theorem chainSize_replicate (n : Nat) : chainSize [List.replicate n 0] = n + 5 := by
  rw [chainSize, length_replicate, chainSize, Nat.add_zero]

/-- The identity with a certificate of 65536 bytes. -/
def largeIdentity : CertifiedIdentity where
  certChain := [List.replicate 65536 0]
  chooseScheme := ecdsaIdentity.chooseScheme
  nonempty := cons_ne_nil _ _

theorem length_seal {A : Aead} (hA : A.Lawful) {keys k : RecordKeys} {contentType : UInt8}
    {plaintext record : Bytes} (h : keys.seal A contentType plaintext = some (k, record)) :
    record.length = plaintext.length + 22 := by
  obtain ⟨⟨ct, tag⟩, henc, hrecord⟩ := Option.map_eq_some_iff.mp h
  cases hrecord
  have hct := hA.length_encrypt henc
  simp only [replicate_zero, length_append, length_cons, length_nil] at hct
  rw [length_append, length_append, length_header, hct, tag.length_val]
  omega

/-- With a large certificate the server writes a record beyond the limit, whose header does not
even announce its length. -/
theorem flight_record_too_large :
    ∃ p, Returns (answerClientHello .sized .tagged largeIdentity [] (filled 32 5) (zeros 32)
        sampleHello) p ∧
      maxPlaintext < p.flight.encryptedHandshakePlaintext.length ∧
      ¬ Framed p.flight.encryptedHandshakeRecord := by
  obtain ⟨p, hp⟩ := Option.isSome_iff_exists.mp (show (answerClientHello .sized .tagged
    largeIdentity [] (filled 32 5) (zeros 32) sampleHello).value?.isSome = true by decide +kernel)
  have hreturns := returns_of_value? hp
  obtain ⟨-, _, _, m, hm⟩ := answerClientHello_agreed hreturns
  obtain ⟨_, signature, -, hsize⟩ := hm.length_plaintext
  have hchain : chainSize largeIdentity.certChain = 65536 + 5 := chainSize_replicate 65536
  rw [flightSize, hchain] at hsize
  obtain ⟨k, hsealed⟩ := hm.sealed
  have hlen := length_seal Aead.tagged_lawful hsealed
  have hlt : recordLen p.flight.encryptedHandshakeRecord < 65536 := ofBe16_lt _ _
  exact ⟨p, hreturns, by unfold maxPlaintext; omega, by unfold Framed; omega⟩

end Xhttp.Tls
