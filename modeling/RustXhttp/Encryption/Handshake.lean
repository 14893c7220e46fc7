import RustXhttp.Encryption.Xor
import RustXhttp.Lib.Program
import Mathlib.Logic.Function.Basic

/-!
# The server handshake (`src/vless/encryption/handshake.rs`, `keys.rs`)

The client sends an iv, its half of a key exchange with each of the server's long-term keys (the
relay chain, which gives the key `nfs`), and either a fresh key exchange (one round trip) or a
ticket of an earlier one (none). `Server::handshake` is a program whose requests are the reads and
writes of the connection, the clock, and the three sections that hold the lock of the tickets.

X25519, ML-KEM-768 and the hash are those of their crates: parameters (`KeyExchange`). So are the
values that a handshake draws (`Draws`).

* `Server.handshake`: the program; `Server.handshakeZeroRtt`: its branch without a round trip.
* `Tickets`: the tickets behind the lock.
* `Connection.serve`: the replies to one handshake that has the server for itself.
-/

namespace Xhttp.Encryption

/-! ## Keys -/

/-- The primitives of the key-exchange crates. A secret of ML-KEM is the seed it is made of. -/
structure KeyExchange where
  x25519Public : ByteArr 32 → ByteArr 32
  diffieHellman : (secret peer : ByteArr 32) → ByteArr 32
  wasContributory : ByteArr 32 → Bool
  mlkemPublic : ByteArr 64 → ByteArr 1184
  encapsulate : (peer : ByteArr 1184) → (random : ByteArr 32) → Option (ByteArr 1088 × ByteArr 32)
  decapsulate : ByteArr 64 → ByteArr 1088 → Option (ByteArr 32)
  hash : Bytes → ByteArr 32

/-- An exchange in which every value is zero. -/
def KeyExchange.zero : KeyExchange where
  x25519Public _ := zeros 32
  diffieHellman _ _ := zeros 32
  wasContributory _ := true
  mlkemPublic _ := zeros 1184
  encapsulate _ _ := some ((zeros 1088),
    (zeros 32))
  decapsulate _ _ := some (zeros 32)
  hash _ := zeros 32

inductive KeyError where
  | peerKey | x25519HighBit | nonContributory | decapsulation | encapsulation
  deriving DecidableEq, Repr

inductive KeySeed where
  | x25519 (seed : ByteArr 32)
  | mlKem768 (seed : ByteArr 64)

inductive ServerKey where
  | x25519 (secret pk : ByteArr 32)
  | mlKem768 (secret : ByteArr 64) (pk : ByteArr 1184)

section

variable (K : KeyExchange)

def ServerKey.ofSeed : KeySeed → ServerKey
  | .x25519 seed => .x25519 seed (K.x25519Public seed)
  | .mlKem768 seed => .mlKem768 seed (K.mlkemPublic seed)

def ServerKey.publicKey : ServerKey → Bytes
  | .x25519 _ pk => pk.val
  | .mlKem768 _ pk => pk.val

def ServerKey.relayLen : ServerKey → Nat
  | .x25519 _ _ => 32
  | .mlKem768 _ _ => 1088

def ServerKey.decapsulate (key : ServerKey) (peer : Bytes) : Except KeyError (ByteArr 32) :=
  match key with
  | .x25519 secret _ =>
    if h : peer.length = 32 then
      if peer.getD 31 0 > 127 then .error .x25519HighBit
      else
        let shared := K.diffieHellman secret ⟨peer, h⟩
        if K.wasContributory shared then .ok shared else .error .nonContributory
    else .error .peerKey
  | .mlKem768 secret _ =>
    if h : peer.length = 1088 then
      match K.decapsulate secret ⟨peer, h⟩ with
      | some shared => .ok shared
      | none => .error .decapsulation
    else .error .peerKey

/-- The length of the relay chain: the halves of the exchanges with a hash between them. -/
def relayLen (keys : List ServerKey) : Nat :=
  keys.foldr (fun key total => key.relayLen + 32 + total) 0 - 32

/-! ## Configuration, errors and results -/

inductive EncryptionMode where
  | native | xorPublic | random
  deriving DecidableEq, Repr

structure EncryptionConfig where
  mode : EncryptionMode
  lifetimeFrom : Nat
  lifetimeTo : Nat
  keys : List KeySeed

/-- The zero X25519 key, and tickets that live for at most a minute. -/
def zeroConfig (mode : EncryptionMode) : EncryptionConfig :=
  ⟨mode, 0, 60, [.x25519 (zeros 32)]⟩

structure Server where
  config : EncryptionConfig
  keys : List ServerKey

def Server.new (config : EncryptionConfig) : Server :=
  ⟨config, config.keys.map (ServerKey.ofSeed K)⟩

inductive HandshakeError where
  | io (text : String)
  | record (e : RecordError)
  | key (e : KeyError)
  | relay | relayHash | authentication
  | pfsLength (length : Nat)
  | padding | zeroRttDisabled | ticket | expiredTicket | replay | send
  deriving DecidableEq, Repr

structure HandshakeResult where
  decrypt : RecordCipher
  encrypt : RecordCipher
  inboundXor : Option HeaderXor
  outboundXor : Option HeaderXor
  zeroRtt : Bool
  deriving DecidableEq

/-- The values of `OsRng` in one handshake. `genRange lo hi` is the draw from `lo..=hi`. -/
structure Draws where
  genRange : Nat → Nat → Nat
  ticket : ByteArr 16
  serverRandom : ByteArr 16
  decoy : (n : Nat) → ByteArr n
  encapsulation : ByteArr 32
  x25519Secret : ByteArr 32

/-- The highest of every range, and zero bytes. -/
def Draws.zero : Draws where
  genRange _ hi := hi
  ticket := zeros 16
  serverRandom := zeros 16
  decoy n := zeros n
  encapsulation := zeros 32
  x25519Secret := zeros 32

end

/-! ## Requests -/

structure TicketSession where
  pfsKey : ByteArr 64
  replayKeys : List (ByteArr 32)
  expires : Nat
  deriving DecidableEq

/-- The map behind the lock. -/
abbrev Tickets := ByteArr 16 → Option TicketSession

namespace Tickets

variable (tickets : Tickets)

/-- The section of `create_ticket`; the clock, in nanoseconds, is read under the lock. -/
def insert (clock : Nat) (ticket : ByteArr 16) (pfsKey : ByteArr 64) (lifetime : Nat) : Tickets :=
  Function.update tickets ticket (some ⟨pfsKey, [], clock + lifetime * 1000000000⟩)

/-- The section of `cleanup_tickets`. -/
def retain (now : Nat) : Tickets :=
  fun ticket => (tickets ticket).filter fun session => session.expires > now

/-- The section of `handshake_zero_rtt`: the key of the ticket, unless `nfs_key` is already in its
replay set. -/
def lookup (ticket : ByteArr 16) (nfsKey : ByteArr 32) :
    Option (Except HandshakeError (ByteArr 64)) × Tickets :=
  match tickets ticket with
  | none => (none, tickets)
  | some session =>
    if nfsKey ∈ session.replayKeys then (some (.error .replay), tickets)
    else
      (some (.ok session.pfsKey), Function.update tickets ticket
        (some { session with replayKeys := nfsKey :: session.replayKeys }))

end Tickets

inductive Effect where
  | read (n : Nat) (stage : String)
  | send (bytes : Bytes)
  | now
  | insertTicket (ticket : ByteArr 16) (pfsKey : ByteArr 64) (lifetime : Nat)
  | retainTickets (now : Nat)
  | lookupTicket (ticket : ByteArr 16) (nfsKey : ByteArr 32)

/-- A read replies with its bytes or the text of an I/O error. -/
abbrev Effect.Reply : Effect → Type
  | .read n _ => Except String (ByteArr n)
  | .send _ => Except HandshakeError Unit
  | .now => Nat
  | .insertTicket _ _ _ => Unit
  | .retainTickets _ => Unit
  | .lookupTicket _ _ => Option (Except HandshakeError (ByteArr 64))

abbrev Handshake := Prog Effect Effect.Reply HandshakeError

def request (e : Effect) : Handshake e.Reply := Prog.perform e

def readExactStage (n : Nat) (stage : String) : Handshake (ByteArr n) := do
  let r : Except String (ByteArr n) ← request (.read n stage)
  .ofExcept (r.mapError fun e => .io (stage ++ ": " ++ e))

def sendBytes (bytes : Bytes) : Handshake Unit := do
  let r : Except HandshakeError Unit ← request (.send bytes)
  .ofExcept r

def ofRecord {α : Type} (r : Except RecordError α) : Handshake α :=
  .ofExcept (r.mapError .record)

def ofKey {α : Type} (r : Except KeyError α) : Handshake α :=
  .ofExcept (r.mapError .key)

/-! ## The relay chain -/

/-- An AES-256-CTR cipher at a position of its keystream. -/
structure Ctr where
  key : ByteArr 32
  iv : ByteArr 16
  pos : Nat
  deriving DecidableEq

def newCtr (key : Bytes) (iv : ByteArr 16) : Ctr := ⟨deriveKey vless key, iv, 0⟩

section

variable (C : Crypto) (K : KeyExchange)

def Ctr.applyKeystream (ctr : Ctr) (bytes : Bytes) : Ctr × Bytes :=
  ({ ctr with pos := ctr.pos + bytes.length }, xorStream (C.keystream ctr.key ctr.iv) ctr.pos bytes)

/-- The bytes of a relay after the keystreams on them: that of the previous hop on the first 32,
and that of the key itself unless the mode is native. -/
def relayPlain (mode : EncryptionMode) (iv : ByteArr 16) (key : ServerKey) (previous : Option Ctr)
    (relay : Bytes) : Bytes :=
  let relay := match previous with
    | none => relay
    | some ctr => (ctr.applyKeystream C (relay.take 32)).2 ++ relay.drop 32
  if mode ≠ .native then ((newCtr key.publicKey iv).applyKeystream C relay).2 else relay

/-- The loop of `process_relays`, from a key on. -/
def processRelays (mode : EncryptionMode) (iv : ByteArr 16) :
    List ServerKey → Option Ctr → ByteArr 32 → Bytes → Except HandshakeError (ByteArr 32)
  | [], _, nfsKey, _ => .ok nfsKey
  | key :: rest, previous, _, relays =>
    if relays.length < key.relayLen then .error .relay
    else
      match key.decapsulate K (relayPlain C mode iv key previous (relays.take key.relayLen)) with
      | .error e => .error (.key e)
      | .ok nfsKey =>
        match rest with
        | [] => .ok nfsKey
        | next :: _ =>
          let relays := relays.drop key.relayLen
          if relays.length < 32 then .error .relay
          else
            let hash := (newCtr nfsKey.val iv).applyKeystream C (relays.take 32)
            if hash.2 ≠ (K.hash next.publicKey).val then .error .relayHash
            else processRelays mode iv rest (some hash.1) nfsKey (relays.drop 32)

/-! ## The handshake -/

/-- The plaintext of the first length and the cipher that opens it. -/
def openFirstLength (iv : ByteArr 16) (nfsKey : ByteArr 32) (ciphertext : Bytes) :
    Except HandshakeError (AeadState × CipherKind × Bytes) :=
  match (AeadState.new iv.val nfsKey.val .aes256Gcm).openRaw C ciphertext [] none with
  | (aead, .ok plain) => .ok (aead, .aes256Gcm, plain)
  | (_, .error _) =>
    match (AeadState.new iv.val nfsKey.val .chaCha20Poly1305).openRaw C ciphertext [] none with
    | (aead, .ok plain) => .ok (aead, .chaCha20Poly1305, plain)
    | (_, .error _) => .error .authentication

def generatePfsResponse (draws : Draws) (clientMlkemPublic clientX25519Public : Bytes) :
    Except KeyError (Bytes × ByteArr 64) :=
  if hm : clientMlkemPublic.length = 1184 then
    match K.encapsulate ⟨clientMlkemPublic, hm⟩ draws.encapsulation with
    | none => .error .encapsulation
    | some (ciphertext, mlkemShared) =>
      if hx : clientX25519Public.length = 32 then
        let x25519Shared := K.diffieHellman draws.x25519Secret ⟨clientX25519Public, hx⟩
        if K.wasContributory x25519Shared then
          .ok (ciphertext.val ++ (K.x25519Public draws.x25519Secret).val,
            ⟨mlkemShared.val ++ x25519Shared.val, by
              rw [List.length_append, mlkemShared.property, x25519Shared.property]⟩)
        else .error .nonContributory
      else .error .peerKey
  else .error .peerKey

/-- The lifetime of a new ticket. -/
def EncryptionConfig.lifetime (config : EncryptionConfig) (draws : Draws) : Nat :=
  if config.lifetimeTo ≠ 0 then draws.genRange config.lifetimeFrom config.lifetimeTo
  else if config.lifetimeFrom ≠ 0 then draws.genRange (config.lifetimeFrom / 2) config.lifetimeFrom
  else 0

/-- A ticket: its lifetime and fourteen random bytes. -/
def newTicket (lifetime : Nat) (draws : Draws) : ByteArr 16 :=
  ⟨be16 lifetime ++ draws.ticket.val.drop 2, by
    rw [List.length_append, List.length_drop, draws.ticket.property, length_be16]⟩

def createTicket (config : EncryptionConfig) (draws : Draws) (pfsKey : ByteArr 64) :
    Handshake (ByteArr 16 × Nat) :=
  let lifetime := config.lifetime draws
  let ticket := newTicket lifetime draws
  if lifetime ≠ 0 then do
    request (.insertTicket ticket pfsKey lifetime)
    return (ticket, lifetime)
  else return (ticket, lifetime)

def cleanupTickets : Handshake Unit := do
  let now : Nat ← request .now
  request (.retainTickets now)

def sendExpiredDecoy (draws : Draws) : Handshake Unit :=
  sendBytes (draws.decoy (draws.genRange 1279 2279)).val

/-- The transforms of the record headers, in the random mode only. -/
def EncryptionMode.headerXors (mode : EncryptionMode) (unitedKey : Bytes)
    (inboundIv outboundIv : ByteArr 16) : Option HeaderXor × Option HeaderXor :=
  if mode = .random then
    (some (.inbound unitedKey inboundIv 0), some (.outbound unitedKey outboundIv 0))
  else (none, none)

def Server.handshakeZeroRtt (server : Server) (draws : Draws) (iv : ByteArr 16)
    (nfsKey : ByteArr 32) (nfsAead : AeadState) (kind : CipherKind) :
    Handshake HandshakeResult := do
  if server.config.lifetimeFrom = 0 ∧ server.config.lifetimeTo = 0 then
    .fail .zeroRttDisabled
  else
    let encryptedTicket ← readExactStage 32 "0-RTT ticket"
    let ticketPlain ← ofRecord (nfsAead.openRaw C encryptedTicket.val [] none).2
    if h : ticketPlain.length = 16 then
      cleanupTickets
      let pfsKey : Option (Except HandshakeError (ByteArr 64)) ←
        request (.lookupTicket ⟨ticketPlain, h⟩ nfsKey)
      match pfsKey with
      | none =>
        sendExpiredDecoy draws
        .fail .expiredTicket
      | some (.error e) => .fail e
      | some (.ok pfsKey) =>
        let unitedKey := pfsKey.val ++ nfsKey.val
        sendBytes draws.serverRandom.val
        let xors := server.config.mode.headerXors unitedKey iv draws.serverRandom
        return {
          decrypt := .new encryptedTicket.val unitedKey kind
          encrypt := .new draws.serverRandom.val unitedKey kind
          inboundXor := xors.1
          outboundXor := xors.2
          zeroRtt := true }
    else .fail .ticket

def helloPaddingLen : Nat := 111

/-- The part of the server's hello that is sealed with the state of the records: the ticket, the
length of the padding, and the padding. -/
def sealHello (encryptState : AeadState) (ticket : ByteArr 16) :
    Except RecordError (AeadState × Bytes) := do
  let r₁ := encryptState.sealRaw C ticket.val [] none
  let sealedTicket ← r₁.2
  let r₂ := r₁.1.sealRaw C (be16 (helloPaddingLen - 18)) [] none
  let sealedLength ← r₂.2
  let r₃ := r₂.1.sealRaw C (List.replicate (helloPaddingLen - 34) 0) [] none
  let sealedPadding ← r₃.2
  return (r₃.1, sealedTicket ++ sealedLength ++ sealedPadding)

/-- The rest of `handshake` when the first length announces a key exchange. -/
def Server.handshakeOneRtt (server : Server) (draws : Draws) (iv : ByteArr 16)
    (nfsKey : ByteArr 32) (nfsAead : AeadState) (kind : CipherKind) (length : Nat) :
    Handshake HandshakeResult := do
  let encryptedPfs ← readExactStage length "PFS payload"
  let pfs := nfsAead.openRaw C encryptedPfs.val [] none
  let nfsAead := pfs.1
  let pfsPlain ← ofRecord pfs.2
  if pfsPlain.length < 1216 then .fail (.pfsLength pfsPlain.length)
  else
    let (pfsResponse, pfsKey) ← ofKey (generatePfsResponse K draws (pfsPlain.take 1184)
      ((pfsPlain.drop 1184).take 32))
    let unitedKey := pfsKey.val ++ nfsKey.val
    let response := nfsAead.sealRaw C pfsResponse [] (some maxNonce)
    let nfsAead := response.1
    let sealedResponse ← ofRecord response.2
    let (ticket, _) ← createTicket server.config draws pfsKey
    let (encryptState, sealedHello) ← ofRecord
      (sealHello C (.new pfsResponse unitedKey kind) ticket)
    sendBytes (sealedResponse ++ sealedHello)
    let clientPaddingLength ← readExactStage 18 "client padding length"
    let padding := nfsAead.openRaw C clientPaddingLength.val [] none
    let nfsAead := padding.1
    let lengthBytes ← ofRecord padding.2
    if lengthBytes.length ≠ 2 then .fail .padding
    else
      let encryptedPadding ← readExactStage (ofBe16 (lengthBytes.getD 0 0) (lengthBytes.getD 1 0))
        "client padding body"
      let _ ← ofRecord (nfsAead.openRaw C encryptedPadding.val [] none).2
      let xors := server.config.mode.headerXors unitedKey iv ticket
      return {
        decrypt := .new (pfsPlain.take 1216) unitedKey kind
        encrypt := ⟨encryptState⟩
        inboundXor := xors.1
        outboundXor := xors.2
        zeroRtt := false }

def Server.handshake (server : Server) (draws : Draws) : Handshake HandshakeResult := do
  let ivAndRelays ← readExactStage (16 + relayLen server.keys) "iv and relay chain"
  let iv : ByteArr 16 := ⟨ivAndRelays.val.take 16, by
    rw [List.length_take, ivAndRelays.property, Nat.min_eq_left (Nat.le_add_right 16 _)]⟩
  let nfsKey ← Prog.ofExcept (processRelays C K server.config.mode iv server.keys none
    (zeros 32) (ivAndRelays.val.drop 16))
  let encryptedLength ← readExactStage 18 "PFS payload length"
  let (nfsAead, kind, lengthBytes) ← Prog.ofExcept (openFirstLength C iv nfsKey encryptedLength.val)
  -- an AEAD plaintext is sixteen bytes shorter than its ciphertext: two bytes
  let length := ofBe16 (lengthBytes.getD 0 0) (lengthBytes.getD 1 0)
  if length = 32 then server.handshakeZeroRtt C draws iv nfsKey nfsAead kind
  else if length < 1184 + 32 + 16 then .fail (.pfsLength length)
  else server.handshakeOneRtt C K draws iv nfsKey nfsAead kind length

end

/-! ## Rules for the requests of the connection -/

section

variable {S α : Type} {P : Prog.Protocol Effect Effect.Reply S} {s : S}
  {Q : Except HandshakeError α → S → Prop}

/-- A read under a protocol that does not care about reads. -/
theorem obeys_read {n : Nat} {stage : String} {f : ByteArr n → Handshake α}
    (hg : P.guard s (.read n stage)) (hn : ∀ r s', P.next s (.read n stage) r s' → s' = s)
    (herr : ∀ x, Q (.error x) s) (h : ∀ bytes, Prog.Obeys P s (f bytes) Q) :
    Prog.Obeys P s (readExactStage n stage >>= f) Q := by
  refine Prog.obeys_bind (Prog.obeys_perform hg ?_)
  intro r s' hs'
  obtain rfl := hn r s' hs'
  cases r with
  | error e => exact herr _
  | ok bytes => exact h bytes

/-- A write that takes the protocol to `s'`. -/
theorem obeys_send {bytes : Bytes} {f : Unit → Handshake α} {s₁ : S}
    (hg : P.guard s (.send bytes)) (hn : ∀ r s', P.next s (.send bytes) r s' → s' = s₁)
    (herr : ∀ x, Q (.error x) s₁) (h : Prog.Obeys P s₁ (f ()) Q) :
    Prog.Obeys P s (sendBytes bytes >>= f) Q := by
  refine Prog.obeys_bind (Prog.obeys_perform hg ?_)
  intro r s' hs'
  obtain rfl := hn r s' hs'
  cases r with
  | error e => exact herr e
  | ok u => exact h

end

/-! ## One handshake alone -/

/-- A connection and the tickets of its server. -/
structure Connection where
  input : Bytes
  sent : List Bytes
  clock : Nat
  tickets : Tickets

/-- The replies when no other handshake runs, the clock stands and every write succeeds. -/
def Connection.serve (c : Connection) : (e : Effect) → e.Reply × Connection
  | .read n _ =>
    if h : n ≤ c.input.length then
      (.ok ⟨c.input.take n, by rw [List.length_take, Nat.min_eq_left h]⟩,
        { c with input := c.input.drop n })
    else (.error "early eof", { c with input := [] })
  | .send bytes => (.ok (), { c with sent := c.sent ++ [bytes] })
  | .now => (c.clock, c)
  | .insertTicket ticket pfsKey lifetime =>
    ((), { c with tickets := c.tickets.insert c.clock ticket pfsKey lifetime })
  | .retainTickets now => ((), { c with tickets := c.tickets.retain now })
  | .lookupTicket ticket nfsKey =>
    ((c.tickets.lookup ticket nfsKey).1,
      { c with tickets := (c.tickets.lookup ticket nfsKey).2 })

end Xhttp.Encryption
