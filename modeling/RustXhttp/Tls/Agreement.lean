import RustXhttp.Tls.Handshake
import RustXhttp.Tls.Rfc8446
import RustXhttp.Tls.Synthesis

/-!
# Client and server agree

`handshake_agreement`: when the server has prepared its handshake, a client that follows the RFC on
the messages that it sees has the same keys, and each accepts the Finished of the other.
-/

namespace Xhttp.Tls

open Exec List

/-! ## The key schedule -/

section Schedule

variable {P : Primitives} {alg : HashAlg}

theorem ascii_append (s t : String) : ascii (s ++ t) = ascii s ++ ascii t := by
  simp only [ascii, String.toList_append, map_append]

theorem expandLabel_eq (secret : Secret alg) (label : String) (context : Bytes) (length : Nat) :
    alg.expandLabel P secret label context length =
      Rfc8446.expandLabel P alg secret label context length := by
  simp only [HashAlg.expandLabel, Rfc8446.expandLabel, hkdfLabel, Rfc8446.vector8, ascii_append,
    append_assoc, cons_append]

theorem deriveSecretWithHash_eq (secret : Secret alg) (label : String) (messages : List Bytes) :
    alg.deriveSecretWithHash P secret label (P.hash alg messages.flatten).val =
      Rfc8446.deriveSecret P alg secret label messages := expandLabel_eq _ _ _ _

theorem deriveSecret_nil (secret : Secret alg) (label : String) :
    alg.deriveSecret P secret label [] = Rfc8446.deriveSecret P alg secret label [] :=
  expandLabel_eq _ _ _ _

/-- The secrets of the server's schedule. -/
theorem keySchedule_new (ecdhe : Bytes) (m : Rfc8446.Messages) :
    KeySchedule.new P alg ecdhe (P.hash alg m.toServerHello.flatten).val =
      { hash := alg
        masterSecret := Rfc8446.masterSecret P alg ecdhe
        clientHsTraffic := Rfc8446.handshakeTraffic P alg ecdhe m .client
        serverHsTraffic := Rfc8446.handshakeTraffic P alg ecdhe m .server } := by
  simp only [KeySchedule.new, deriveSecretWithHash_eq, deriveSecret_nil]
  rfl

end Schedule

/-! ## What a returned result says -/

theorem returns_mapError {E E' α : Type} {f : E → E'} {x : Exec E α} {a : α} :
    Returns (mapError f x) a ↔ Returns x a := by
  unfold Returns mapError
  rcases hx : x.run with _ | e | b
  all_goals
    have hx' : x = _ := hx
    subst hx'
  · exact ⟨nofun, nofun⟩
  · exact ⟨nofun, nofun⟩
  · exact ⟨fun h => by cases h; rfl, fun h => by cases h; rfl⟩

section

variable {clientHelloMessage message template : Bytes} {c : ClientHello}
  {random secret : ByteArr 32} {p : PreparedServerHandshake} {P : Primitives} {s : KeySchedule}
  {identity : CertifiedIdentity} {A : Aead} {m : Rfc8446.Messages} {alpnProtocols : List Bytes}

theorem parseBody_raw {body : Bytes} (h : ClientHello.parseBody message body = .ok c) :
    c.rawMessage = message := by
  unfold ClientHello.parseBody at h
  iterate 8 obtain ⟨_, -, h⟩ := except_bind_ok.mp h
  split at h
  · cases h
    rfl
  · cases h

/-- The message goes into the transcript as it came. -/
theorem parseMessage_raw (h : ClientHello.parseMessage message = .ok c) :
    c.rawMessage = message := by
  unfold ClientHello.parseMessage at h
  iterate 4 obtain ⟨_, -, h⟩ := except_bind_ok.mp h
  exact parseBody_raw h

/-! ## The suite in the ServerHello -/

/-- A client finds the suite where the server looks for it. -/
theorem selectedSuite_eq (serverHello : Bytes) :
    Rfc8446.selectedSuite serverHello =
      (serverHelloCipherSuite serverHello).bind CipherSuite.fromU16 := by
  have h0 : ∀ pos, serverHello[pos]? = (serverHello.drop pos)[0]? := by simp
  have h1 : ∀ pos, serverHello[pos + 1]? = (serverHello.drop pos)[1]? := by simp
  have hsid : serverHello[38]? = (serverHello.drop 38)[0]? := by simp
  unfold Rfc8446.selectedSuite serverHelloCipherSuite afterSessionId
  rw [hsid]
  rcases hd : serverHello.drop 38 with _ | ⟨sidLen, rest⟩
  · rfl
  · have hrest : rest.drop sidLen.toNat = serverHello.drop (39 + sidLen.toNat) := by
      rw [show 39 + sidLen.toNat = 38 + (1 + sidLen.toNat) by omega, ← drop_drop, hd,
        Nat.add_comm 1, drop_succ_cons]
    simp only [hrest]
    show _ = (u16At serverHello (39 + sidLen.toNat)).bind CipherSuite.fromU16
    rw [u16At, h0, h1]
    rcases serverHello.drop (39 + sidLen.toNat) with _ | ⟨a, _ | ⟨b, rest⟩⟩ <;> rfl

theorem CipherSuite.fromU16_toU16 (suite : CipherSuite) :
    CipherSuite.fromU16 suite.toU16 = some suite := by
  cases suite <;> rfl

/-- **The ServerHello carries the suite of the server's choice.** -/
theorem Synthesized.selectedSuite {keyshare : Bytes} {client : ClientHello}
    {r : SynthesizedServerHello} (h : Synthesized template keyshare client random r) :
    Rfc8446.selectedSuite r.message = some r.suite := by
  obtain ⟨_, _, _, _, _, _, _, -, -, -, -, -, -, -, -, -, -, hsuite⟩ := h.frame
  rw [selectedSuite_eq, hsuite, Option.bind_some, CipherSuite.fromU16_toU16]

/-! ## The Finished messages -/

/-- The server accepts exactly one message: the header for its length and the data it expects. -/
theorem verifyClientFinishedMessage_iff (p : PreparedServerHandshake)
    (hlen : p.expectedClientFinished.length < 16777216) (message : Bytes) :
    p.verifyClientFinishedMessage message = .ok () ↔
      message = handshakeMessage hsFinished p.expectedClientFinished := by
  constructor
  · intro h
    unfold PreparedServerHandshake.verifyClientFinishedMessage at h
    split at h
    case h_1 t a b c rest =>
      split at h
      · cases h
      case isFalse hmal =>
        split at h
        · cases h
        case isFalse hfield =>
          split at h
          · cases h
          case isFalse hdata =>
            obtain ⟨-, ht⟩ := not_or.mp hmal
            obtain rfl : t = hsFinished := Classical.not_not.mp ht
            obtain rfl : rest = p.expectedClientFinished := Classical.not_not.mp hdata
            rw [handshakeMessage, ← Classical.not_not.mp hfield, be24_ofBe24]
            rfl
    case h_2 => cases h
  · rintro rfl
    have hbe := ofBe24_ofNat hlen
    have hfull : (handshakeMessage hsFinished p.expectedClientFinished).length =
        4 + p.expectedClientFinished.length := by
      simp only [handshakeMessage, cons_append, length_cons, length_append, length_be24]
      omega
    simp only [handshakeMessage, be24, cons_append, nil_append] at hfull ⊢
    simp only [PreparedServerHandshake.verifyClientFinishedMessage, hfull, hbe, ne_eq,
      not_true_eq_false, or_self, if_false]

theorem outputLen_lt (alg : HashAlg) : alg.outputLen < 16777216 := by
  cases alg <;> decide

/-- What the server sends as its Finished, and expects as that of the client. -/
theorem finished_eq (s : KeySchedule) (base : Secret s.hash) (messages : List Bytes) :
    handshakeMessage hsFinished
        (s.finishedVerifyData P base (P.hash s.hash messages.flatten).val).val =
      Rfc8446.finished P s.hash base messages := by
  simp only [KeySchedule.finishedVerifyData, expandLabel_eq]
  rfl

theorem recordKeys_eq {suite : CipherSuite} (hs : s.hash = suite.hash) (secret : Secret s.hash) :
    s.recordKeys P secret suite = Rfc8446.trafficKeys P suite (hs ▸ secret) := by
  obtain ⟨hash, _, _, _⟩ := s
  cases hs
  simp only [KeySchedule.recordKeys, KeySchedule.trafficKeys, expandLabel_eq]
  rfl

/-! ## Agreement -/

theorem generateServerKeyshare_ok {group : UInt16} {peerKey : Bytes} {r : ServerKeyShare}
    (h : generateServerKeyshare P group peerKey secret = .ok r) :
    ∃ hlen : peerKey.length = 32, r.sharedSecret = (P.x25519 secret ⟨peerKey, hlen⟩).val ∧
      r.publicKey = (P.x25519Public secret).val := by
  unfold generateServerKeyshare at h
  split at h
  · unfold x25519WithSecret at h
    split at h
    case isTrue hlen =>
      simp only at h
      split at h
      · cases h
        exact ⟨hlen, rfl, rfl⟩
      · cases h
    case isFalse => cases h
  · cases h

theorem signCertificateVerify_ok {hash : Bytes} {offered : List UInt16}
    (h : identity.signCertificateVerify hash offered = .ok message) :
    ∃ signer signature, identity.chooseScheme offered = some signer ∧
      signer.sign (certificateVerifyContent hash) = .ok signature ∧
      message = certificateVerifyMessage signer.scheme signature := by
  unfold CertifiedIdentity.signCertificateVerify at h
  split at h
  · cases h
  case h_2 signer hsigner =>
    split at h
    · cases h
    case h_2 signature hsign =>
      cases h
      exact ⟨signer, signature, hsigner, hsign, rfl⟩

/-- The flight consists of the four messages, under the keys of the server. -/
theorem buildServerHandshakeFlight_ok {selected : SynthesizedServerHello}
    {r : ServerHandshakeFlight} (m : Rfc8446.Messages) (hsh : m.serverHello = selected.message)
    (h : Returns (buildServerHandshakeFlight P A selected s m.clientHello m.encryptedExtensions
      m.certificate m.certificateVerify) r) :
    r.serverHello = selected.message ∧
      r.serverFinished = Rfc8446.finished P s.hash s.serverHsTraffic m.toCertificateVerify ∧
      r.encryptedHandshakePlaintext =
        m.encryptedExtensions ++ m.certificate ++ m.certificateVerify ++ r.serverFinished ∧
      ∃ k, (s.recordKeys P s.serverHsTraffic selected.suite).seal A recordHandshake
        r.encryptedHandshakePlaintext = some (k, r.encryptedHandshakeRecord) := by
  unfold buildServerHandshakeFlight at h
  obtain ⟨_, -, h⟩ := returns_bind.mp h
  obtain ⟨⟨k, record⟩, hseal, h⟩ := returns_bind.mp h
  obtain rfl := returns_pure.mp h
  refine ⟨rfl, ?_, rfl, k, returns_option.mp hseal⟩
  rw [← finished_eq, m.flatten_toCertificateVerify, m.flatten_toCertificate, hsh]
  rfl

/-- `message` is a handshake message of type `msgType`. -/
def IsMessage (msgType : UInt8) (message : Bytes) : Prop :=
  ∃ body, message = handshakeMessage msgType body

theorem isMessage_encryptedExtensions (alpn : Option Bytes) :
    IsMessage hsEncryptedExtensions (encryptedExtensionsWithAlpn alpn) := by
  cases alpn <;> exact ⟨_, rfl⟩

/-- A client finds the messages of the flight by their headers, if their lengths fit in them. -/
theorem splitHandshake_flight (hee : IsMessage hsEncryptedExtensions m.encryptedExtensions)
    (hcert : IsMessage hsCertificate m.certificate)
    (hcv : IsMessage hsCertificateVerify m.certificateVerify)
    (hfin : IsMessage hsFinished m.finished)
    (hlen : ∀ message ∈ m.flight, message.length < 16777220) (fuel : Nat) :
    Rfc8446.splitHandshake (fuel + 5) (m.encryptedExtensions ++ m.certificate ++
      m.certificateVerify ++ m.finished) = some m.flight := by
  have hbody : ∀ {t body}, handshakeMessage t body ∈ m.flight → body.length < 16777216 := by
    intro t body hmem
    have := hlen _ hmem
    simp only [handshakeMessage, cons_append, length_cons, length_append, length_be24] at this
    omega
  obtain ⟨b₁, h₁⟩ := hee
  obtain ⟨b₂, h₂⟩ := hcert
  obtain ⟨b₃, h₃⟩ := hcv
  obtain ⟨b₄, h₄⟩ := hfin
  have hl₁ : b₁.length < 16777216 := hbody (by rw [← h₁]; simp [Rfc8446.Messages.flight])
  have hl₂ : b₂.length < 16777216 := hbody (by rw [← h₂]; simp [Rfc8446.Messages.flight])
  have hl₃ : b₃.length < 16777216 := hbody (by rw [← h₃]; simp [Rfc8446.Messages.flight])
  have hl₄ : b₄.length < 16777216 := hbody (by rw [← h₄]; simp [Rfc8446.Messages.flight])
  have hend : Rfc8446.splitHandshake (fuel + 1) [] = some [] := rfl
  have hfour := Rfc8446.splitHandshake_cons hsFinished hl₄ (fuel + 1) []
  rw [append_nil, hend] at hfour
  rw [Rfc8446.Messages.flight, h₁, h₂, h₃, h₄, append_assoc, append_assoc,
    Rfc8446.splitHandshake_cons _ hl₁, Rfc8446.splitHandshake_cons _ hl₂,
    Rfc8446.splitHandshake_cons _ hl₃, hfour]
  rfl

/-- What holds of a prepared handshake, the key share `share` of the client and the messages `m`. -/
structure Agreed (P : Primitives) (A : Aead) (identity : CertifiedIdentity)
    (secret random : ByteArr 32) (clientHelloMessage template : Bytes) (alpnProtocols : List Bytes)
    (p : PreparedServerHandshake) (share : KeyShare) (ecdhe : Bytes) (m : Rfc8446.Messages) :
    Prop where
  parsed : ClientHello.parseMessage clientHelloMessage = .ok p.client
  alpn : p.selectedAlpn = selectAlpn p.client alpnProtocols
  share : p.client.keyShares.find? (fun share => share.group = p.serverHello.keyShareGroup) =
    some share
  synthesized : Synthesized template (P.x25519Public secret).val p.client random p.serverHello
  clientHello : m.clientHello = clientHelloMessage
  message : m.serverHello = p.serverHello.message
  serverHello : m.serverHello = p.flight.serverHello
  encryptedExtensions : m.encryptedExtensions = encryptedExtensionsWithAlpn p.selectedAlpn
  certificate : m.certificate = identity.message
  plaintext : p.flight.encryptedHandshakePlaintext = m.flight.flatten
  clientRead : p.clientHandshakeRead = Rfc8446.trafficKeys P p.serverHello.suite
    (Rfc8446.handshakeTraffic P p.serverHello.suite.hash ecdhe m .client)
  sealed : ∃ k, (Rfc8446.trafficKeys P p.serverHello.suite
      (Rfc8446.handshakeTraffic P p.serverHello.suite.hash ecdhe m .server)).seal A recordHandshake
    p.flight.encryptedHandshakePlaintext = some (k, p.flight.encryptedHandshakeRecord)
  application : p.applicationRecordKeys P =
    ⟨Rfc8446.trafficKeys P p.serverHello.suite
      (Rfc8446.applicationTraffic P p.serverHello.suite.hash ecdhe m .client),
    Rfc8446.trafficKeys P p.serverHello.suite
      (Rfc8446.applicationTraffic P p.serverHello.suite.hash ecdhe m .server)⟩
  certificateVerify : ∃ signer signature,
    identity.chooseScheme p.client.signatureSchemes = some signer ∧
    signer.sign (Rfc8446.signatureContent P p.serverHello.suite.hash m) = .ok signature ∧
    m.certificateVerify = certificateVerifyMessage signer.scheme signature
  finished : m.finished = Rfc8446.finished P p.serverHello.suite.hash
    (Rfc8446.handshakeTraffic P p.serverHello.suite.hash ecdhe m .server) m.toCertificateVerify
  clientFinished : ∀ message, p.verifyClientFinishedMessage message = .ok () ↔
    message = Rfc8446.finished P p.serverHello.suite.hash
      (Rfc8446.handshakeTraffic P p.serverHello.suite.hash ecdhe m .client) m.toFinished

/-- A client finds the messages of the flight, if their lengths fit in their headers. -/
theorem Agreed.splitHandshake {share : KeyShare} {ecdhe : Bytes}
    (h : Agreed P A identity secret random clientHelloMessage template alpnProtocols p share ecdhe
      m) (hlen : ∀ message ∈ m.flight, message.length < 16777220) (fuel : Nat) :
    Rfc8446.splitHandshake (fuel + 5) p.flight.encryptedHandshakePlaintext = some m.flight := by
  obtain ⟨signer, signature, -, -, hcv⟩ := h.certificateVerify
  have hplain : p.flight.encryptedHandshakePlaintext = m.encryptedExtensions ++ m.certificate ++
      m.certificateVerify ++ m.finished := by
    rw [h.plaintext]
    simp [Rfc8446.Messages.flight]
  rw [hplain]
  exact splitHandshake_flight (h.encryptedExtensions ▸ isMessage_encryptedExtensions _)
    ⟨_, h.certificate⟩ ⟨_, hcv⟩ ⟨_, h.finished⟩ hlen fuel

theorem prepareServerHandshake_agreed
    (h : Returns (prepareServerHandshake P A identity secret random clientHelloMessage template
      alpnProtocols) p) :
    ∃ (share : KeyShare) (hlen : share.data.length = 32) (m : Rfc8446.Messages),
      Agreed P A identity secret random clientHelloMessage template alpnProtocols p share
        (P.x25519 secret ⟨share.data, hlen⟩).val m := by
  unfold prepareServerHandshake at h
  obtain ⟨client, hclient, h⟩ := returns_bind.mp h
  obtain ⟨_, -, h⟩ := returns_bind.mp h
  obtain ⟨found, hfound, h⟩ := returns_bind.mp h
  obtain ⟨share, hshare, h⟩ := returns_bind.mp h
  obtain ⟨keyshare, hkeyshare, h⟩ := returns_bind.mp h
  obtain ⟨serverHello, hserverHello, h⟩ := returns_bind.mp h
  obtain ⟨certificateVerify, hverify, h⟩ := returns_bind.mp h
  obtain ⟨flight, hflight, h⟩ := returns_bind.mp h
  obtain rfl := returns_pure.mp h
  have hclient := returns_except.mp (returns_mapError.mp hclient)
  have hfound := returns_okOr.mp hfound
  have hshare := Option.some.inj (returns_okOr.mp hshare)
  have hs := synthesizeServerHello_ok (returns_mapError.mp hserverHello)
  obtain ⟨hlen, hsecret, hpublic⟩ :=
    generateServerKeyshare_ok (returns_except.mp (returns_mapError.mp hkeyshare))
  rw [hpublic] at hs
  have hgroup : found.1 = serverHello.keyShareGroup := by
    obtain ⟨_, _, _, _, _, hfound', -⟩ := hs.message
    rw [hfound] at hfound'
    cases hfound'
    rfl
  obtain ⟨signer, signature, hsigner, hsign, hcv⟩ :=
    signCertificateVerify_ok (returns_except.mp (returns_mapError.mp hverify))
  let m : Rfc8446.Messages :=
    { clientHello := client.rawMessage
      serverHello := serverHello.message
      encryptedExtensions := encryptedExtensionsWithAlpn (selectAlpn client alpnProtocols)
      certificate := identity.message
      certificateVerify := certificateVerify
      finished := flight.serverFinished }
  have hschedule : KeySchedule.new P serverHello.suite.hash keyshare.sharedSecret
      (P.hash serverHello.suite.hash (client.rawMessage ++ serverHello.message)).val = _ :=
    m.flatten_toServerHello ▸ keySchedule_new keyshare.sharedSecret m
  rw [hschedule] at hflight ⊢
  obtain ⟨hsh, hfin, hplain, hseal⟩ :=
    buildServerHandshakeFlight_ok m rfl (returns_mapError.mp hflight)
  -- the transcript to the server's Finished, as the server builds it
  have hfinished : client.rawMessage ++ serverHello.message ++
      encryptedExtensionsWithAlpn (selectAlpn client alpnProtocols) ++ identity.message ++
      certificateVerify ++ flight.serverFinished = m.toFinished.flatten := by
    rw [m.flatten_toFinished, m.flatten_toCertificateVerify, m.flatten_toCertificate]
  rw [hfinished, hsecret] at *
  exact ⟨share, hlen, m, {
    parsed := hclient
    alpn := rfl
    share := by rw [← hgroup]; exact hshare
    synthesized := hs
    clientHello := parseMessage_raw hclient
    message := rfl
    serverHello := hsh.symm
    encryptedExtensions := rfl
    certificate := rfl
    plaintext := by
      rw [hplain]
      simp [Rfc8446.Messages.flight, m]
    clientRead := recordKeys_eq rfl _
    sealed := by
      obtain ⟨k, hk⟩ := hseal
      exact ⟨k, by rw [recordKeys_eq rfl _] at hk; exact hk⟩
    application := by
      simp only [PreparedServerHandshake.applicationRecordKeys,
        KeySchedule.applicationTrafficSecrets, deriveSecretWithHash_eq]
      rw [recordKeys_eq rfl _, recordKeys_eq rfl _]
      rfl
    certificateVerify := by
      refine ⟨signer, signature, hsigner, ?_, hcv⟩
      rw [← hsign, Rfc8446.signatureContent, Rfc8446.transcriptHash, m.flatten_toCertificate]
      simp [certificateVerifyContent, serverCertVerifyContext, m]
    finished := hfin
    clientFinished := by
      intro message
      rw [verifyClientFinishedMessage_iff _ ?_, finished_eq]
      rw [ByteArr.length_val]
      exact outputLen_lt _ }⟩

end

/-- **Client and server agree.** When the server has prepared a handshake, a client that follows
the RFC on its ClientHello `m.clientHello`, the ServerHello and the four messages of the encrypted
flight, with the ECDHE secret of the key shares, takes the suite of the server, derives its
handshake keys (of the client, and of the server, under which the flight is sealed) and its
application keys, reconstructs the content that was signed, finds the server's Finished valid, and
its own Finished is the one message that the server accepts. -/
theorem handshake_agreement (P : Primitives) (A : Aead) (identity : CertifiedIdentity)
    (secret random : ByteArr 32) (clientHelloMessage template : Bytes) (alpnProtocols : List Bytes)
    (p : PreparedServerHandshake)
    (h : Returns (prepareServerHandshake P A identity secret random clientHelloMessage template
      alpnProtocols) p) :
    ∃ (share : KeyShare) (hlen : share.data.length = 32) (m : Rfc8446.Messages),
      p.client.keyShares.find? (fun share => share.group = p.serverHello.keyShareGroup) =
        some share ∧
      m.clientHello = clientHelloMessage ∧ m.serverHello = p.flight.serverHello ∧
      p.flight.encryptedHandshakePlaintext = m.flight.flatten ∧
      ((∀ message ∈ m.flight, message.length < 16777220) → ∀ fuel,
        Rfc8446.splitHandshake (fuel + 5) p.flight.encryptedHandshakePlaintext = some m.flight) ∧
      let suite := p.serverHello.suite
      let ecdhe := (P.x25519 secret ⟨share.data, hlen⟩).val
      let handshake := Rfc8446.handshakeTraffic P suite.hash ecdhe m
      let application := Rfc8446.applicationTraffic P suite.hash ecdhe m
      Rfc8446.selectedSuite m.serverHello = some suite ∧
      p.clientHandshakeRead = Rfc8446.trafficKeys P suite (handshake .client) ∧
      (∃ k, (Rfc8446.trafficKeys P suite (handshake .server)).seal A recordHandshake
        p.flight.encryptedHandshakePlaintext = some (k, p.flight.encryptedHandshakeRecord)) ∧
      p.applicationRecordKeys P = ⟨Rfc8446.trafficKeys P suite (application .client),
        Rfc8446.trafficKeys P suite (application .server)⟩ ∧
      (∃ signer signature, identity.chooseScheme p.client.signatureSchemes = some signer ∧
        signer.sign (Rfc8446.signatureContent P suite.hash m) = .ok signature ∧
        m.certificateVerify = certificateVerifyMessage signer.scheme signature) ∧
      m.finished = Rfc8446.finished P suite.hash (handshake .server) m.toCertificateVerify ∧
      ∀ message, p.verifyClientFinishedMessage message = .ok () ↔
        message = Rfc8446.finished P suite.hash (handshake .client) m.toFinished := by
  obtain ⟨share, hlen, m, hm⟩ := prepareServerHandshake_agreed h
  have hsuite : Rfc8446.selectedSuite m.serverHello = some p.serverHello.suite := by
    rw [hm.message, hm.synthesized.selectedSuite]
  exact ⟨share, hlen, m, hm.share, hm.clientHello, hm.serverHello, hm.plaintext,
    hm.splitHandshake, hsuite, hm.clientRead, hm.sealed, hm.application, hm.certificateVerify,
    hm.finished, hm.clientFinished⟩

/-- A ClientHello that offers TLS 1.3 with two suites, signature schemes, key shares and
protocols, `h2` and `h`. -/
def sampleHello : Bytes :=
  let extensions := pushExt extSupportedVersions [2, 3, 4] ++
    pushExt extSignatureAlgorithms (be16 4 ++ be16 0x0804 ++ be16 0x0403) ++
    pushExt extAlpn (be16 5 ++ [2, 0x68, 0x32, 1, 0x68]) ++
    pushExt extKeyShare (be16 42 ++ be16 0x0017 ++ be16 2 ++ [4, 9] ++
      be16 groupX25519.toNat ++ be16 32 ++ (filled 32 7).val)
  handshakeMessage handshakeTypeClientHello
    (be16 0x0303 ++ (zeros 32).val ++ 0 :: be16 4 ++ be16 0x1301 ++ be16 0x1303 ++ 1 :: 0 ::
      be16 extensions.length ++ extensions)

def sampleIdentity : CertifiedIdentity where
  certChain := [[1, 2, 3]]
  chooseScheme offered :=
    if offered.contains 0x0403 then some ⟨0x0403, fun _ => .ok [4, 5]⟩ else none
  nonempty := cons_ne_nil _ _

theorem handshake_agreement_sample :
    ∃ p, Returns (prepareServerHandshake .sized .tagged sampleIdentity (filled 32 5) (zeros 32)
        sampleHello (serverHelloTemplate .aes128GcmSha256 groupX25519) []) p ∧
      ∃ m : Rfc8446.Messages, m.clientHello = sampleHello ∧
        p.flight.encryptedHandshakePlaintext = m.flight.flatten ∧
        Rfc8446.selectedSuite m.serverHello = some .aes128GcmSha256 := by
  obtain ⟨p, hp, hsuite⟩ := Option.map_eq_some_iff.mp (show
    ((prepareServerHandshake .sized .tagged sampleIdentity (filled 32 5) (zeros 32) sampleHello
      (serverHelloTemplate .aes128GcmSha256 groupX25519) []).value?.map
        fun p => p.serverHello.suite) = some .aes128GcmSha256 by decide +kernel)
  have hreturns := returns_of_value? hp
  obtain ⟨_, _, m, -, hhello, -, hplain, -, hselected, -⟩ := handshake_agreement .sized .tagged
    sampleIdentity (filled 32 5) (zeros 32) sampleHello
    (serverHelloTemplate .aes128GcmSha256 groupX25519) [] p hreturns
  exact ⟨p, hreturns, m, hhello, hplain, hsuite ▸ hselected⟩

end Xhttp.Tls
