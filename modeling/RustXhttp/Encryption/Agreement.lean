import RustXhttp.Encryption.Relays

/-!
# Client and server agree

The reference client of the tests (`src/vless/encryption/handshake.rs`), for any padding and any
mode: it exchanges a key with the server's X25519 key, sends a fresh key exchange and its padding,
and opens the server's hello. After one round trip both ends hold the same record ciphers.

* `Client.flight` and `Client.openServerHello`: the two halves of the client.
* `exec_handshakeOneRtt`, `exec_handshake`: what the server does with the client's flight.
* `handshake_agrees`: the server consumes exactly the flight, and the ends agree.
-/

namespace Xhttp.Encryption

open List Option

/-! ## The client -/

/-- The secrets and choices of a client. -/
structure Client where
  iv : ByteArr 16
  relaySecret : ByteArr 32
  mlkemSecret : ByteArr 64
  x25519Secret : ByteArr 32
  kind : CipherKind
  padding : Bytes

/-- `assert!`. -/
def ensure (p : Prop) [Decidable p] : Option Unit := if p then some () else none

namespace Client

variable (C : Crypto) (K : KeyExchange) (client : Client) (serverPublic : ByteArr 32)

def nfsKey : ByteArr 32 := K.diffieHellman client.relaySecret serverPublic

def pfsPlain : Bytes := (K.mlkemPublic client.mlkemSecret).val ++
  (K.x25519Public client.x25519Secret).val

/-- The state of the messages of the handshake. -/
def nfsAead : AeadState :=
  .new client.iv.val (client.nfsKey K serverPublic).val client.kind

/-- The client's half of the exchange with the server's key, under the keystream of that key unless
the mode is native. -/
def relay (mode : EncryptionMode) : Bytes :=
  let relayPublic := (K.x25519Public client.relaySecret).val
  if mode ≠ .native then ((newCtr serverPublic.val client.iv).applyKeystream C relayPublic).2
  else relayPublic

/-- `ClientHandshake::new`: the bytes of the client, unless one of its assertions fails. -/
def flight (mode : EncryptionMode) : Option Bytes := do
  ensure (K.wasContributory (client.nfsKey K serverPublic) = true)
  let pfsPlain := client.pfsPlain K
  let r₁ := (client.nfsAead K serverPublic).sealRaw C (be16 (pfsPlain.length + 16)) [] none
  let encryptedPfsLength ← r₁.2.toOption
  let r₂ := r₁.1.sealRaw C pfsPlain [] none
  let encryptedPfs ← r₂.2.toOption
  let r₃ := r₂.1.sealRaw C (be16 (client.padding.length + 16)) [] none
  let encryptedPaddingLength ← r₃.2.toOption
  let r₄ := r₃.1.sealRaw C client.padding [] none
  let encryptedPadding ← r₄.2.toOption
  return client.iv.val ++ client.relay C K serverPublic mode ++ encryptedPfsLength ++
    encryptedPfs ++ encryptedPaddingLength ++ encryptedPadding

/-- The keys that the client computes from the server's half of the exchange. -/
def unitedKey (pfsResponse : Bytes) : Option Bytes :=
  if h : pfsResponse.length = 1120 then do
    let mlkemShared ← K.decapsulate client.mlkemSecret ⟨pfsResponse.take 1088, by
      rw [length_take, h]; rfl⟩
    let x25519Shared := K.diffieHellman client.x25519Secret ⟨pfsResponse.drop 1088, by
      rw [length_drop, h]⟩
    ensure (K.wasContributory x25519Shared = true)
    return mlkemShared.val ++ x25519Shared.val ++ (client.nfsKey K serverPublic).val
  else none

/-- `open_server_hello`: the united key, the state of the server's records and the ticket, unless
an assertion fails. -/
def openServerHello (hello : Bytes) : Option (Bytes × AeadState × ByteArr 16) := do
  ensure (hello.length = 1279)
  let response := (client.nfsAead K serverPublic).openRaw C (hello.take 1136) [] (some maxNonce)
  let pfsResponse ← response.2.toOption
  let unitedKey ← client.unitedKey K serverPublic pfsResponse
  let rest := hello.drop 1136
  let r₁ := (AeadState.new pfsResponse unitedKey client.kind).openRaw C (rest.take 32) [] none
  let ticket ← r₁.2.toOption
  let r₂ := r₁.1.openRaw C ((rest.drop 32).take 18) [] none
  let paddingLenBytes ← r₂.2.toOption
  ensure (paddingLenBytes = be16 93)
  let r₃ := r₂.1.openRaw C ((rest.drop 50).take 93) [] none
  let padding ← r₃.2.toOption
  ensure (padding = List.replicate 77 0)
  if h : ticket.length = 16 then return (unitedKey, r₃.1, ⟨ticket, h⟩) else none

end Client

/-! ## Running the server alone -/

section

variable {α : Type} {c : Connection}

theorem exec_read {n : Nat} {stage : String} {bytes rest : Bytes} {f : ByteArr n → Handshake α}
    (hc : c.input = bytes ++ rest) (hn : bytes.length = n) :
    Prog.exec Connection.serve c (readExactStage n stage >>= f) =
      Prog.exec Connection.serve { c with input := rest } (f ⟨bytes, hn⟩) := by
  have hle : n ≤ (bytes ++ rest).length := by
    rw [length_append]
    omega
  have hserve : c.serve (.read n stage) = (.ok ⟨bytes, hn⟩, { c with input := rest }) := by
    simp only [Connection.serve, hc, dif_pos hle, take_left' hn, drop_left' hn]
  refine Prog.exec_bind ?_ f
  show Prog.exec Connection.serve (c.serve (.read n stage)).2 _ = _
  rw [hserve]
  rfl

theorem exec_send {bytes : Bytes} {f : Unit → Handshake α} :
    Prog.exec Connection.serve c (sendBytes bytes >>= f) =
      Prog.exec Connection.serve { c with sent := c.sent ++ [bytes] } (f ()) :=
  rfl

theorem exec_ofExcept {β : Type} {r : Except HandshakeError β} {b : β} {f : β → Handshake α}
    (h : r = .ok b) : Prog.exec Connection.serve c (Prog.ofExcept r >>= f) =
      Prog.exec Connection.serve c (f b) := by
  rw [h]
  rfl

/-- `create_ticket` changes only the tickets. -/
theorem exec_createTicket (config : EncryptionConfig) (draws : Draws) (pfsKey : ByteArr 64)
    (c : Connection) : ∃ tickets, ∀ f : ByteArr 16 × Nat → Handshake α,
      Prog.exec Connection.serve c (createTicket config draws pfsKey >>= f) =
        Prog.exec Connection.serve { c with tickets := tickets }
          (f (newTicket (config.lifetime draws) draws, config.lifetime draws)) := by
  simp only [createTicket]
  split
  · exact ⟨_, fun f => rfl⟩
  · exact ⟨c.tickets, fun f => rfl⟩

end

/-! ## The messages -/

section

variable {C : Crypto} {K : KeyExchange}

/-- A message that is sealed opens under the same state, to the same next state. -/
theorem sealRaw_openRaw (hC : C.Lawful) (s : AeadState) (msg : Bytes)
    (nonce : Option (ByteArr 12)) (h : msg.length ≤ 65535) :
    ∃ ct, s.sealRaw C msg [] nonce = ((s.next nonce).2, .ok ct) ∧
      s.openRaw C ct [] nonce = ((s.next nonce).2, .ok msg) ∧ ct.length = msg.length + 16 := by
  obtain ⟨ct, hct⟩ := sealRaw_ok hC s msg [] nonce h (by simp)
  exact ⟨ct, hct, openRaw_sealRaw hC hct⟩

/-- The server's half of the hello, message by message. -/
theorem sealHello_spec (hC : C.Lawful) (s : AeadState) (ticket : ByteArr 16) :
    ∃ s₁ s₂ s₃ a b p, sealHello C s ticket = .ok (s₃, a ++ b ++ p) ∧
      s.openRaw C a [] none = (s₁, .ok ticket.val) ∧ a.length = 32 ∧
      s₁.openRaw C b [] none = (s₂, .ok (be16 93)) ∧ b.length = 18 ∧
      s₂.openRaw C p [] none = (s₃, .ok (List.replicate 77 0)) ∧ p.length = 93 := by
  have hticket := ticket.property
  obtain ⟨a, hseal₁, hopen₁, hlen₁⟩ := sealRaw_openRaw hC s ticket.val none (by omega)
  obtain ⟨b, hseal₂, hopen₂, hlen₂⟩ := sealRaw_openRaw hC (s.next none).2 (be16 93) none (by simp)
  obtain ⟨p, hseal₃, hopen₃, hlen₃⟩ := sealRaw_openRaw hC ((s.next none).2.next none).2
    (List.replicate 77 0) none (by simp)
  refine ⟨_, _, _, a, b, p, ?_, hopen₁, by omega, hopen₂, by simpa using hlen₂, hopen₃,
    by simpa using hlen₃⟩
  simp only [sealHello, helloPaddingLen, hseal₁, hseal₂, hseal₃, bind, Except.bind, pure,
    Except.pure]

/-! ## The exchanges -/

variable (mode : EncryptionMode) (client : Client) (seed : ByteArr 32)

/-- The client's exchange with the server's key is a chain of one hop. -/
def Client.hop : Hop K where
  seed := .x25519 seed
  random := client.relaySecret
  bytes := (K.x25519Public client.relaySecret).val
  shared := client.nfsKey K (K.x25519Public seed)
  encapsulated := rfl

theorem Client.relay_eq : client.relay C K (K.x25519Public seed) mode =
    (client.hop (K := K) seed).relay C mode client.iv none := rfl

theorem Client.length_relay : (client.relay C K (K.x25519Public seed) mode).length = 32 := by
  rw [client.relay_eq, Hop.length_relay]
  rfl

theorem processRelays_client (hK : K.Lawful) (nfsKey : ByteArr 32) :
    processRelays C K mode client.iv [.x25519 seed (K.x25519Public seed)] none nfsKey
      (client.relay C K (K.x25519Public seed) mode) =
      .ok (client.nfsKey K (K.x25519Public seed)) := by
  rw [client.relay_eq, ← append_nil ((client.hop seed).relay C mode client.iv none)]
  exact processRelays_last hK (client.hop seed) none nfsKey []

/-- AES-256-GCM does not accept the first length of a client that uses the other cipher. -/
def Client.KindIsTold (C : Crypto) (K : KeyExchange) (client : Client)
    (serverPublic : ByteArr 32) : Prop :=
  client.kind = .chaCha20Poly1305 → ∀ s ct,
    (client.nfsAead K serverPublic).sealRaw C (be16 1232) [] none = (s, .ok ct) →
    ((AeadState.new client.iv.val (client.nfsKey K serverPublic).val .aes256Gcm).openRaw
      C ct [] none).2 = .error .authentication

variable {s s' s₁ s₂ s₃ : AeadState} {ct pfsResponse rest sealedResponse : Bytes}
  {serverPublic shared : ByteArr 32} {ciphertext : ByteArr 1088} {α β : Type} {c : Connection}
  {b : β} {f : β → Handshake α} {config : EncryptionConfig}

theorem openFirstLength_told (hC : C.Lawful) {iv : ByteArr 16} {nfsKey : ByteArr 32}
    {kind : CipherKind} {msg : Bytes}
    (h : (AeadState.new iv.val nfsKey.val kind).sealRaw C msg [] none = (s, .ok ct))
    (htold : kind = .chaCha20Poly1305 →
      ((AeadState.new iv.val nfsKey.val .aes256Gcm).openRaw C ct [] none).2 =
        .error .authentication) : openFirstLength C iv nfsKey ct = .ok (s, kind, msg) := by
  have hopen := (openRaw_sealRaw hC h).1
  unfold openFirstLength
  cases kind with
  | aes256Gcm => rw [hopen]
  | chaCha20Poly1305 =>
    have haes := htold rfl
    split
    case h_1 aead plain haead =>
      rw [haead] at haes
      cases haes
    case h_2 => rw [hopen]

theorem openFirstLength_client (hC : C.Lawful) (hkind : client.KindIsTold C K serverPublic)
    (h : (client.nfsAead K serverPublic).sealRaw C (be16 1232) [] none = (s, .ok ct)) :
    openFirstLength C client.iv (client.nfsKey K serverPublic) ct =
      .ok (s, client.kind, be16 1232) :=
  openFirstLength_told hC h fun hk => hkind hk s ct h

/-- The server's half of the fresh exchange, and the secret. -/
theorem generatePfsResponse_client (hK : K.Lawful) (draws : Draws)
    (he : K.encapsulate (K.mlkemPublic client.mlkemSecret) draws.encapsulation =
      some (ciphertext, shared)) :
    ∃ pfsKey, generatePfsResponse K draws ((client.pfsPlain K).take 1184)
        (((client.pfsPlain K).drop 1184).take 32) =
        .ok (ciphertext.val ++ (K.x25519Public draws.x25519Secret).val, pfsKey) ∧
      pfsKey.val = shared.val ++
        (K.diffieHellman draws.x25519Secret (K.x25519Public client.x25519Secret)).val := by
  have hm := (K.mlkemPublic client.mlkemSecret).property
  have hx := (K.x25519Public client.x25519Secret).property
  have htake : (client.pfsPlain K).take 1184 = (K.mlkemPublic client.mlkemSecret).val :=
    take_left' hm
  have hdrop : ((client.pfsPlain K).drop 1184).take 32 =
      (K.x25519Public client.x25519Secret).val := by
    rw [Client.pfsPlain, drop_left' hm, take_of_length_le (Nat.le_of_eq hx)]
  rw [htake, hdrop]
  refine ⟨⟨_, by rw [length_append, ByteArr.length_val, ByteArr.length_val]⟩, ?_, rfl⟩
  simp only [generatePfsResponse, dif_pos hm, dif_pos hx, he, hK.contributory, if_true]

/-- The client computes the same secret. -/
theorem Client.unitedKey_response (hK : K.Lawful) (serverPublic secret : ByteArr 32)
    (hd : K.decapsulate client.mlkemSecret ciphertext = some shared) :
    client.unitedKey K serverPublic (ciphertext.val ++ (K.x25519Public secret).val) =
      some (shared.val ++ (K.diffieHellman secret (K.x25519Public client.x25519Secret)).val ++
        (client.nfsKey K serverPublic).val) := by
  have hlen : (ciphertext.val ++ (K.x25519Public secret).val).length = 1120 := by
    rw [length_append, ByteArr.length_val, ByteArr.length_val]
  have htake : (ciphertext.val ++ (K.x25519Public secret).val).take 1088 = ciphertext.val :=
    take_left' ciphertext.property
  have hdrop : (ciphertext.val ++ (K.x25519Public secret).val).drop 1088 =
      (K.x25519Public secret).val :=
    drop_left' ciphertext.property
  simp only [Client.unitedKey, dif_pos hlen, htake, hdrop, hd,
    hK.diffieHellman_comm client.x25519Secret secret, hK.contributory]
  rfl

/-! ## The server -/

theorem exec_ofRecord {r : Except RecordError β} (h : r = .ok b) :
    Prog.exec Connection.serve c (ofRecord r >>= f) = Prog.exec Connection.serve c (f b) := by
  rw [h]
  rfl

theorem exec_ofKey {r : Except KeyError β} (h : r = .ok b) :
    Prog.exec Connection.serve c (ofKey r >>= f) = Prog.exec Connection.serve c (f b) := by
  rw [h]
  rfl

/-- The result of the handshake with one round trip. -/
def oneRttResult (config : EncryptionConfig) (draws : Draws) (iv : ByteArr 16)
    (pfsPlain unitedKey : Bytes) (kind : CipherKind) (encryptState : AeadState) : HandshakeResult :=
  let xors := config.mode.headerXors unitedKey iv (newTicket (config.lifetime draws) draws)
  ⟨.new pfsPlain unitedKey kind, ⟨encryptState⟩, xors.1, xors.2, false⟩

theorem exec_handshakeOneRtt (server : Server) (draws : Draws) (iv : ByteArr 16)
    (nfsKey : ByteArr 32) (kind : CipherKind) {s₄ : AeadState}
    {pfsPlain ct₂ ct₃ ct₄ padding sealedHello : Bytes} {pfsKey : ByteArr 64}
    (hplain : pfsPlain.length = 1216) (hpadding : padding.length ≤ 65519)
    (hopen₂ : s₁.openRaw C ct₂ [] none = (s₂, .ok pfsPlain)) (hlen₂ : ct₂.length = 1232)
    (hopen₃ : s₂.openRaw C ct₃ [] none = (s₃, .ok (be16 (padding.length + 16))))
    (hlen₃ : ct₃.length = 18) (hopen₄ : s₃.openRaw C ct₄ [] none = (s₄, .ok padding))
    (hlen₄ : ct₄.length = padding.length + 16)
    (hpfs : generatePfsResponse K draws (pfsPlain.take 1184) ((pfsPlain.drop 1184).take 32) =
      .ok (pfsResponse, pfsKey))
    (hresponse : s₂.sealRaw C pfsResponse [] (some maxNonce) = (s₂, .ok sealedResponse))
    (hhello : sealHello C (.new pfsResponse (pfsKey.val ++ nfsKey.val) kind)
      (newTicket (server.config.lifetime draws) draws) = .ok (s', sealedHello))
    (hc : c.input = ct₂ ++ (ct₃ ++ (ct₄ ++ rest))) :
    ∃ tickets, Prog.exec Connection.serve c
        (server.handshakeOneRtt C K draws iv nfsKey s₁ kind 1232) =
      (.ok (oneRttResult server.config draws iv pfsPlain (pfsKey.val ++ nfsKey.val) kind s'),
        { c with
          input := rest
          sent := c.sent ++ [sealedResponse ++ sealedHello]
          tickets := tickets }) := by
  have hlen : ofBe16 ((be16 (padding.length + 16)).getD 0 0)
      ((be16 (padding.length + 16)).getD 1 0) = padding.length + 16 :=
    ofBe16_ofNat (by omega)
  obtain ⟨tickets, hticket⟩ := exec_createTicket (α := HandshakeResult) server.config draws pfsKey
    { c with input := ct₃ ++ (ct₄ ++ rest) }
  refine ⟨tickets, ?_⟩
  unfold Server.handshakeOneRtt
  rw [exec_read hc hlen₂]
  simp only [hopen₂]
  rw [exec_ofRecord rfl, if_neg (by omega), exec_ofKey hpfs]
  simp only [hresponse]
  rw [exec_ofRecord rfl, hticket]
  simp only
  rw [exec_ofRecord hhello]
  simp only
  rw [exec_send, exec_read rfl hlen₃]
  simp only [hopen₃]
  rw [exec_ofRecord rfl]
  simp only [length_be16, ne_eq, not_true_eq_false, if_false]
  rw [exec_read rfl (hlen₄.trans hlen.symm)]
  simp only [hopen₄]
  rw [exec_ofRecord rfl, take_of_length_le (Nat.le_of_eq hplain)]
  rfl

/-- The handshake up to the key exchange that the client's first length announces. -/
theorem exec_handshake (hC : C.Lawful) (hK : K.Lawful) (hkeys : config.keys = [.x25519 seed])
    (draws : Draws) (hkind : client.KindIsTold C K (K.x25519Public seed))
    (hseal : (client.nfsAead K (K.x25519Public seed)).sealRaw C (be16 1232) [] none = (s, .ok ct))
    (hc : c.input = (client.iv.val ++
      client.relay C K (K.x25519Public seed) config.mode) ++ (ct ++ rest)) :
    Prog.exec Connection.serve c ((Server.new K config).handshake C K draws) =
      Prog.exec Connection.serve { c with input := rest }
        ((Server.new K config).handshakeOneRtt C K draws client.iv
          (client.nfsKey K (K.x25519Public seed)) s client.kind 1232) := by
  have hserver : (Server.new K config).keys = [.x25519 seed (K.x25519Public seed)] := by
    rw [Server.new, hkeys]
    rfl
  have hrelay := client.length_relay (C := C) (K := K) config.mode seed
  have hfirst : (client.iv.val ++ client.relay C K (K.x25519Public seed) config.mode).length =
      16 + relayLen (Server.new K config).keys := by
    rw [hserver, length_append, hrelay, client.iv.property]
    rfl
  have hct : ct.length = 18 := (openRaw_sealRaw hC hseal).2
  have hiv : ∀ h, (⟨(client.iv.val ++ client.relay C K (K.x25519Public seed) config.mode).take 16,
      h⟩ : ByteArr 16) = client.iv :=
    fun _ => Subtype.ext (take_left' client.iv.property)
  have hdrop : (client.iv.val ++ client.relay C K (K.x25519Public seed) config.mode).drop 16 =
      client.relay C K (K.x25519Public seed) config.mode :=
    drop_left' client.iv.property
  unfold Server.handshake
  rw [exec_read hc hfirst]
  simp only [hiv, hdrop, hserver, show (Server.new K config).config = config from rfl]
  rw [exec_ofExcept (processRelays_client config.mode client seed hK _), exec_read rfl hct,
    exec_ofExcept (openFirstLength_client client hC hkind hseal)]
  have hlength : ofBe16 ((be16 1232).getD 0 0) ((be16 1232).getD 1 0) = 1232 :=
    ofBe16_ofNat (by decide)
  simp only [hlength]
  rw [if_neg (by decide), if_neg (by decide)]

/-- The client opens a hello whose messages are sealed with its keys. -/
theorem Client.openServerHello_spec {ticket : ByteArr 16} {unitedKey a b p : Bytes}
    (hresponse : (client.nfsAead K serverPublic).openRaw C sealedResponse [] (some maxNonce) =
      (s, .ok pfsResponse)) (hlen : sealedResponse.length = 1136)
    (hunited : client.unitedKey K serverPublic pfsResponse = some unitedKey)
    (hopen₁ : (AeadState.new pfsResponse unitedKey client.kind).openRaw C a [] none =
      (s₁, .ok ticket.val)) (hlen₁ : a.length = 32)
    (hopen₂ : s₁.openRaw C b [] none = (s₂, .ok (be16 93))) (hlen₂ : b.length = 18)
    (hopen₃ : s₂.openRaw C p [] none = (s₃, .ok (List.replicate 77 0))) (hlen₃ : p.length = 93) :
    client.openServerHello C K serverPublic (sealedResponse ++ (a ++ b ++ p)) =
      some (unitedKey, s₃, ticket) := by
  have htotal : (sealedResponse ++ (a ++ b ++ p)).length = 1279 := by
    simp only [length_append]
    omega
  have htake₂ : ((a ++ b ++ p).drop 32).take 18 = b := by
    rw [append_assoc, drop_left' hlen₁, take_left' hlen₂]
  have htake₃ : ((a ++ b ++ p).drop 50).take 93 = p := by
    rw [drop_left' (by rw [length_append]; omega), take_of_length_le (Nat.le_of_eq hlen₃)]
  have htake₁ : (a ++ b ++ p).take 32 = a := by
    rw [append_assoc, take_left' hlen₁]
  unfold Client.openServerHello
  simp only [htotal, take_left' hlen, drop_left' hlen, hresponse, hunited, htake₁, hopen₁,
    htake₂, hopen₂, htake₃, hopen₃, ensure, if_true, Except.toOption, Option.pure_def,
    bind_eq_bind, bind_some, dif_pos ticket.property]

/-! ## Agreement -/

theorem Client.length_pfsPlain : (client.pfsPlain K).length = 1216 := by
  rw [Client.pfsPlain, length_append, ByteArr.length_val, ByteArr.length_val]

/-- The messages of the flight, each sealed with the state after the one before. -/
theorem Client.flight_spec (hC : C.Lawful) (hK : K.Lawful)
    (hpadding : client.padding.length ≤ 65519) :
    ∃ s₁ s₂ s₃ s₄ ct₁ ct₂ ct₃ ct₄,
      client.flight C K (K.x25519Public seed) mode = some (client.iv.val ++
        client.relay C K (K.x25519Public seed) mode ++ ct₁ ++ ct₂ ++ ct₃ ++ ct₄) ∧
      (client.nfsAead K (K.x25519Public seed)).sealRaw C (be16 1232) [] none = (s₁, .ok ct₁) ∧
      s₁.openRaw C ct₂ [] none = (s₂, .ok (client.pfsPlain K)) ∧ ct₂.length = 1232 ∧
      s₂.openRaw C ct₃ [] none = (s₃, .ok (be16 (client.padding.length + 16))) ∧
      ct₃.length = 18 ∧ s₃.openRaw C ct₄ [] none = (s₄, .ok client.padding) ∧
      ct₄.length = client.padding.length + 16 ∧
      s₂.kind = client.kind ∧ s₂.key = (client.nfsAead K (K.x25519Public seed)).key := by
  have hplain := client.length_pfsPlain (K := K)
  have hcontributory : K.wasContributory (client.nfsKey K (K.x25519Public seed)) = true :=
    hK.contributory _ _
  obtain ⟨ct₁, hseal₁, hopen₁, hlen₁⟩ := sealRaw_openRaw hC
    (client.nfsAead K (K.x25519Public seed)) (be16 1232) none (by simp)
  obtain ⟨ct₂, hseal₂, hopen₂, hlen₂⟩ := sealRaw_openRaw hC
    ((client.nfsAead K (K.x25519Public seed)).next none).2 (client.pfsPlain K) none (by omega)
  obtain ⟨ct₃, hseal₃, hopen₃, hlen₃⟩ := sealRaw_openRaw hC
    (((client.nfsAead K (K.x25519Public seed)).next none).2.next none).2
    (be16 (client.padding.length + 16)) none (by simp)
  obtain ⟨ct₄, hseal₄, hopen₄, hlen₄⟩ := sealRaw_openRaw hC
    ((((client.nfsAead K (K.x25519Public seed)).next none).2.next none).2.next none).2
    client.padding none (by omega)
  refine ⟨_, _, _, _, ct₁, ct₂, ct₃, ct₄, ?_, hseal₁, hopen₂, by omega, hopen₃,
    by simpa using hlen₃, hopen₄, hlen₄, rfl, rfl⟩
  simp only [Client.flight, ensure, hcontributory, if_true, hplain, hseal₁, hseal₂, hseal₃, hseal₄,
    Except.toOption, Option.pure_def, bind_eq_bind, bind_some]

/-- With a nonce of its own, a message opens under every state with the same key. -/
theorem openRaw_explicit {pt : Bytes} {nonce : ByteArr 12} (hk : s'.kind = s.kind)
    (hkey : s'.key = s.key) (h : s.openRaw C ct [] (some nonce) = (s, .ok pt)) :
    s'.openRaw C ct [] (some nonce) = (s', .ok pt) := by
  simp only [AeadState.openRaw, AeadState.next] at h ⊢
  rw [hk, hkey]
  split at h
  case h_1 pt' hdec =>
    cases h
    rfl
  case h_2 => cases h

/-- The server's answer to the client's flight, and what the client makes of it. -/
theorem server_answers (hC : C.Lawful) (hK : K.Lawful) (hkeys : config.keys = [.x25519 seed])
    (hpadding : client.padding.length ≤ 65519)
    (hkind : client.KindIsTold C K (K.x25519Public seed)) (draws : Draws) (c : Connection)
    (rest : Bytes) :
    ∃ flight hello unitedKey state tickets,
      client.flight C K (K.x25519Public seed) config.mode = some flight ∧
      Prog.exec Connection.serve { c with input := flight ++ rest }
          ((Server.new K config).handshake C K draws) =
        (.ok (oneRttResult config draws client.iv (client.pfsPlain K) unitedKey client.kind state),
          { c with input := rest, sent := c.sent ++ [hello], tickets := tickets }) ∧
      hello.length = 1279 ∧
      client.openServerHello C K (K.x25519Public seed) hello =
        some (unitedKey, state, newTicket (config.lifetime draws) draws) := by
  obtain ⟨s₁, s₂, s₃, s₄, ct₁, ct₂, ct₃, ct₄, hflight, hseal₁, hopen₂, hlen₂, hopen₃, hlen₃, hopen₄,
    hlen₄, hk, hkey⟩ := client.flight_spec config.mode seed hC hK hpadding
  obtain ⟨ciphertext, shared, henc, hdec⟩ :=
    hK.decapsulate_encapsulate client.mlkemSecret draws.encapsulation
  obtain ⟨pfsKey, hpfs, hpfsKey⟩ := generatePfsResponse_client client hK draws henc
  have hunited := client.unitedKey_response hK (K.x25519Public seed) draws.x25519Secret hdec
  rw [← hpfsKey] at hunited
  have hresponseLen :
      (ciphertext.val ++ (K.x25519Public draws.x25519Secret).val).length = 1120 := by
    rw [length_append, ByteArr.length_val, ByteArr.length_val]
  obtain ⟨sealedResponse, hresponse, hopenResponse, hresponseSealed⟩ := sealRaw_openRaw hC s₂
    (ciphertext.val ++ (K.x25519Public draws.x25519Secret).val) (some maxNonce) (by omega)
  obtain ⟨t₁, t₂, t₃, a, b, p, hhello, hopenTicket, hlenTicket, hopenLength, hlenLength,
    hopenPadding, hlenPadding⟩ := sealHello_spec hC (.new (ciphertext.val ++
      (K.x25519Public draws.x25519Secret).val)
      (pfsKey.val ++ (client.nfsKey K (K.x25519Public seed)).val) client.kind)
      (newTicket (config.lifetime draws) draws)
  obtain ⟨tickets, hexec⟩ := exec_handshakeOneRtt (Server.new K config) draws client.iv
    (client.nfsKey K (K.x25519Public seed)) client.kind (c := { c with input := ct₂ ++ (ct₃ ++
      (ct₄ ++ rest)) }) client.length_pfsPlain hpadding hopen₂ hlen₂ hopen₃ hlen₃ hopen₄ hlen₄ hpfs
      hresponse hhello rfl
  refine ⟨_, sealedResponse ++ (a ++ b ++ p),
    pfsKey.val ++ (client.nfsKey K (K.x25519Public seed)).val, t₃, tickets, hflight, ?_, ?_, ?_⟩
  · refine (exec_handshake client seed hC hK hkeys draws hkind hseal₁ ?_).trans hexec
    simp only [append_assoc]
  · simp only [length_append]
    omega
  · exact client.openServerHello_spec
      (openRaw_explicit hk.symm hkey.symm hopenResponse) (by omega) hunited hopenTicket hlenTicket
      hopenLength hlenLength hopenPadding hlenPadding

end

/-- **Agreement.** For every client, mode and padding of up to 65519 bytes, whatever is drawn and
whatever tickets the server holds: the server consumes exactly the client's flight, sends one hello
of 1279 bytes that the client opens, and the two ends have equal record ciphers in each direction;
in the random mode, each header transform is the mirror of the one at the other end. -/
theorem handshake_agrees (C : Crypto) (K : KeyExchange) (hC : C.Lawful) (hK : K.Lawful)
    (config : EncryptionConfig) (seed : ByteArr 32) (hkeys : config.keys = [.x25519 seed])
    (client : Client) (hpadding : client.padding.length ≤ 65519)
    (hkind : client.KindIsTold C K (K.x25519Public seed)) (draws : Draws) (c : Connection)
    (rest : Bytes) :
    ∃ flight hello result tickets unitedKey state ticket,
      client.flight C K (K.x25519Public seed) config.mode = some flight ∧
      Prog.exec Connection.serve { c with input := flight ++ rest }
          ((Server.new K config).handshake C K draws) =
        (.ok result, { c with input := rest, sent := c.sent ++ [hello], tickets := tickets }) ∧
      hello.length = 1279 ∧
      client.openServerHello C K (K.x25519Public seed) hello = some (unitedKey, state, ticket) ∧
      result.decrypt = .new (client.pfsPlain K) unitedKey client.kind ∧
      result.encrypt = ⟨state⟩ ∧
      (config.mode = .random →
        result.inboundXor = some (HeaderXor.outbound unitedKey client.iv 0).mirror ∧
        result.outboundXor.map HeaderXor.mirror = some (.inbound unitedKey ticket 0)) := by
  obtain ⟨flight, hello, unitedKey, state, tickets, hflight, hexec, hlen, hopen⟩ :=
    server_answers client seed hC hK hkeys hpadding hkind draws c rest
  refine ⟨flight, hello, _, tickets, unitedKey, state, _, hflight, hexec, hlen, hopen, rfl, rfl, ?_⟩
  intro hmode
  simp only [oneRttResult, EncryptionMode.headerXors, if_pos hmode]
  exact ⟨rfl, rfl⟩

/-- A client with zero secrets and three bytes of padding. -/
def zeroClient (kind : CipherKind) : Client where
  iv := zeros 16
  relaySecret := zeros 32
  mlkemSecret := zeros 64
  x25519Secret := zeros 32
  kind := kind
  padding := [1, 2, 3]

/-- The tag of `Crypto.tagged` tells the ciphers apart. -/
theorem zeroClient_kindIsTold (kind : CipherKind) :
    (zeroClient kind).KindIsTold .tagged .zero
      (KeyExchange.zero.x25519Public (zeros 32)) := by
  rintro rfl s ct h
  cases h
  rfl

theorem handshake_agrees_chaCha : ∃ flight hello result tickets unitedKey state ticket,
    (zeroClient .chaCha20Poly1305).flight .tagged .zero
        (KeyExchange.zero.x25519Public (zeros 32)) .random = some flight ∧
      Prog.exec Connection.serve ⟨flight ++ [7], [], 0, fun _ => none⟩
          ((Server.new .zero (zeroConfig .random)).handshake .tagged .zero .zero) =
        (.ok result, ⟨[7], [hello], 0, tickets⟩) ∧
      (zeroClient .chaCha20Poly1305).openServerHello .tagged .zero
        (KeyExchange.zero.x25519Public (zeros 32)) hello =
        some (unitedKey, state, ticket) ∧
      result.encrypt = ⟨state⟩ := by
  obtain ⟨flight, hello, result, tickets, unitedKey, state, ticket, hflight, hexec, _, hopen, _,
    hencrypt, _⟩ := handshake_agrees .tagged .zero Crypto.tagged_lawful KeyExchange.zero_lawful
      (zeroConfig .random) (zeros 32) rfl (zeroClient .chaCha20Poly1305)
      (by decide) (zeroClient_kindIsTold _) .zero ⟨[], [], 0, fun _ => none⟩ [7]
  exact ⟨flight, hello, result, tickets, unitedKey, state, ticket, hflight, hexec, hopen, hencrypt⟩

end Xhttp.Encryption
