import RustXhttp.Encryption.Kdf

/-!
# Encrypted records (`src/vless/encryption/record.rs`)

A record is a five-byte header in the style of TLS (`17 03 03` and the length of the rest) and an
AEAD ciphertext with the header as associated data. Both ends count records in a 96-bit nonce,
and the record sealed after the all-ones nonce derives the next key.

The AEAD and the CTR keystream are those of the crates `aes-gcm`, `chacha20poly1305` and `ctr`:
parameters (`Crypto`), with what the crates document as `Crypto.Lawful`.

* `open_seal`: a record opens under the state that sealed it, and both ends move to the same
  state.
-/

namespace Xhttp.Encryption

inductive CipherKind where
  | aes256Gcm | chaCha20Poly1305
  deriving DecidableEq, Repr

/-- The primitives of the crypto crates. `keystream key iv i` is byte `i` of the AES-256-CTR
keystream. -/
structure Crypto where
  encrypt : CipherKind → ByteArr 32 → ByteArr 12 → (msg aad : Bytes) → Option Bytes
  decrypt : CipherKind → ByteArr 32 → ByteArr 12 → (msg aad : Bytes) → Option Bytes
  keystream : ByteArr 32 → ByteArr 16 → Nat → UInt8

/-- What the AEAD crates document: the ciphertext has a tag of sixteen bytes, decryption inverts
encryption, and encryption fails only for messages that are far too long for a record. -/
structure Crypto.Lawful (C : Crypto) : Prop where
  length_encrypt : ∀ {kind key nonce msg aad ct},
    C.encrypt kind key nonce msg aad = some ct → ct.length = msg.length + 16
  decrypt_encrypt : ∀ {kind key nonce msg aad ct},
    C.encrypt kind key nonce msg aad = some ct → C.decrypt kind key nonce ct aad = some msg
  encrypt_isSome : ∀ kind key nonce {msg aad : Bytes}, msg.length ≤ 65535 → aad.length ≤ 65535 →
    (C.encrypt kind key nonce msg aad).isSome = true

/-- The sixteen bytes that `Crypto.tagged` appends. -/
def CipherKind.tag (kind : CipherKind) (nonce : ByteArr 12) : Bytes :=
  nonce.val ++ if kind = .aes256Gcm then [1, 1, 1, 1] else [2, 2, 2, 2]

/-- A cipher that only appends its nonce and its kind as tag: the laws have an instance. -/
def Crypto.tagged : Crypto where
  encrypt kind _ nonce msg _ := some (msg ++ kind.tag nonce)
  decrypt kind _ nonce ct _ :=
    if ct.drop (ct.length - 16) = kind.tag nonce then some (ct.take (ct.length - 16)) else none
  keystream _ _ i := UInt8.ofNat i

theorem CipherKind.length_tag (kind : CipherKind) (nonce : ByteArr 12) :
    (kind.tag nonce).length = 16 := by
  rw [CipherKind.tag, List.length_append, nonce.property]
  split <;> rfl

theorem Crypto.tagged_lawful : Crypto.tagged.Lawful where
  length_encrypt := by
    rintro kind key nonce msg aad ct ⟨⟩
    rw [List.length_append, kind.length_tag]
  decrypt_encrypt := by
    rintro kind key nonce msg aad ct ⟨⟩
    simp [Crypto.tagged, kind.length_tag]
  encrypt_isSome _ _ _ _ _ _ _ := rfl

inductive RecordError where
  | invalidHeader (header : Bytes)
  | invalidLength (length : Nat)
  | plaintextTooLarge (length : Nat)
  | lengthMismatch
  | authentication
  deriving DecidableEq, Repr

def RecordError.message : RecordError → String
  | .invalidHeader header => "invalid record header: " ++ toString header
  | .invalidLength length => "invalid record length: " ++ toString length
  | .plaintextTooLarge length => "record plaintext exceeds 8192 bytes: " ++ toString length
  | .lengthMismatch => "record length does not match ciphertext"
  | .authentication => "record authentication failed"

def maxNonce : ByteArr 12 := ⟨List.replicate 12 0xff, rfl⟩

def tagLen : Nat := 16

/-! ## The nonce counter -/

/-- The loop of `increment_nonce`, on the bytes from the last one on. -/
def incrementRev : Bytes → Bytes
  | [] => []
  | b :: bs => if b + 1 ≠ 0 then (b + 1) :: bs else (b + 1) :: incrementRev bs

theorem length_incrementRev (bs : Bytes) : (incrementRev bs).length = bs.length := by
  induction bs with
  | nil => rfl
  | cons b bs ih => unfold incrementRev; split <;> simp [ih]

def incrementNonce (nonce : ByteArr 12) : ByteArr 12 :=
  ⟨(incrementRev nonce.val.reverse).reverse, by
    rw [List.length_reverse, length_incrementRev, List.length_reverse, nonce.property]⟩

/-! ## AEAD states -/

structure AeadState where
  kind : CipherKind
  key : ByteArr 32
  unitedKey : Bytes
  nonce : ByteArr 12
  deriving DecidableEq

def AeadState.new (context unitedKey : Bytes) (kind : CipherKind) : AeadState where
  kind := kind
  key := deriveKey context unitedKey
  unitedKey := unitedKey
  nonce := zeros 12

section

variable (C : Crypto)

/-- The nonce of the next AEAD call and the state after it was chosen. -/
def AeadState.next (s : AeadState) : Option (ByteArr 12) → ByteArr 12 × AeadState
  | some nonce => (nonce, s)
  | none => (incrementNonce s.nonce, { s with nonce := incrementNonce s.nonce })

def AeadState.sealRaw (s : AeadState) (plaintext aad : Bytes)
    (explicitNonce : Option (ByteArr 12)) : AeadState × Except RecordError Bytes :=
  let n := s.next explicitNonce
  match C.encrypt n.2.kind n.2.key n.1 plaintext aad with
  | some ct => (n.2, .ok ct)
  | none => (n.2, .error .authentication)

def AeadState.openRaw (s : AeadState) (ciphertext aad : Bytes)
    (explicitNonce : Option (ByteArr 12)) : AeadState × Except RecordError Bytes :=
  let n := s.next explicitNonce
  match C.decrypt n.2.kind n.2.key n.1 ciphertext aad with
  | some pt => (n.2, .ok pt)
  | none => (n.2, .error .authentication)

end

/-! ## Headers -/

def headerStart : Bytes := [0x17, 0x03, 0x03]

def encodeHeader (length : Nat) : Except RecordError Bytes :=
  if ¬ (17 ≤ length ∧ length ≤ 16640) then .error (.invalidLength length)
  else .ok (headerStart ++ be16 length)

def decodeHeader (header : Bytes) : Except RecordError Nat :=
  let length := ofBe16 (header.getD 3 0) (header.getD 4 0)
  if header.take 3 ≠ headerStart ∨ ¬ (17 ≤ length ∧ length ≤ 16640) then
    .error (.invalidHeader header)
  else .ok length

/-- A header that was encoded has five bytes and decodes to its length. -/
theorem encodeHeader_spec (length : Nat) (h : 17 ≤ length ∧ length ≤ 16640) :
    ∃ header, encodeHeader length = .ok header ∧ header.length = 5 ∧
      decodeHeader header = .ok length := by
  have hbe : ofBe16 (UInt8.ofNat (length / 256)) (UInt8.ofNat length) = length :=
    ofBe16_ofNat (by omega)
  refine ⟨headerStart ++ be16 length, by rw [encodeHeader, if_neg (not_not_intro h)], rfl, ?_⟩
  have hlen : ofBe16 ((headerStart ++ be16 length).getD 3 0)
      ((headerStart ++ be16 length).getD 4 0) = length := hbe
  have htake : (headerStart ++ be16 length).take 3 = headerStart := rfl
  simp only [decodeHeader, hlen, htake]
  rw [if_neg (by simp [h])]

/-! ## Records -/

structure RecordCipher where
  state : AeadState
  deriving DecidableEq

section

variable (C : Crypto)

def RecordCipher.new (context unitedKey : Bytes) (kind : CipherKind) : RecordCipher :=
  ⟨.new context unitedKey kind⟩

/-- The state after a record: the record after the all-ones nonce derives a new key. -/
def AeadState.rekeyed (s : AeadState) (rekey : Bool) (record : Bytes) : AeadState :=
  if rekey then { s with key := deriveKey record s.unitedKey } else s

def RecordCipher.seal (c : RecordCipher) (plaintext : Bytes) :
    RecordCipher × Except RecordError Bytes :=
  if plaintext.length > 8192 then (c, .error (.plaintextTooLarge plaintext.length))
  else
    match encodeHeader (plaintext.length + tagLen) with
    | .error e => (c, .error e)
    | .ok header =>
      let rekey := decide (c.state.nonce = maxNonce)
      match c.state.sealRaw C plaintext header none with
      | (s, .error e) => (⟨s⟩, .error e)
      | (s, .ok ciphertext) =>
        (⟨s.rekeyed rekey (header ++ ciphertext)⟩, .ok (header ++ ciphertext))

/-- `open` of a record with the given header. -/
def RecordCipher.unseal (c : RecordCipher) (header ciphertext : Bytes) :
    RecordCipher × Except RecordError Bytes :=
  match decodeHeader header with
  | .error e => (c, .error e)
  | .ok len =>
    if len ≠ ciphertext.length then (c, .error .lengthMismatch)
    else
      let rekey := decide (c.state.nonce = maxNonce)
      match c.state.openRaw C ciphertext header none with
      | (s, .error e) => (⟨s⟩, .error e)
      | (s, .ok plaintext) => (⟨s.rekeyed rekey (header ++ ciphertext)⟩, .ok plaintext)

variable {C}

/-- A raw ciphertext opens under the state that sealed it, to the same next state. -/
theorem openRaw_sealRaw (hC : C.Lawful) {s s' : AeadState} {pt aad ct : Bytes}
    {nonce : Option (ByteArr 12)} (h : s.sealRaw C pt aad nonce = (s', .ok ct)) :
    s.openRaw C ct aad nonce = (s', .ok pt) ∧ ct.length = pt.length + 16 := by
  simp only [AeadState.sealRaw] at h
  simp only [AeadState.openRaw]
  split at h
  case h_1 ct' henc =>
    cases h
    rw [hC.decrypt_encrypt henc]
    exact ⟨rfl, hC.length_encrypt henc⟩
  case h_2 => cases h

theorem sealRaw_ok (hC : C.Lawful) (s : AeadState) (pt aad : Bytes) (nonce : Option (ByteArr 12))
    (hp : pt.length ≤ 65535) (ha : aad.length ≤ 65535) :
    ∃ ct, s.sealRaw C pt aad nonce = ((s.next nonce).2, .ok ct) := by
  obtain ⟨ct, hct⟩ := Option.isSome_iff_exists.mp
    (hC.encrypt_isSome (s.next nonce).2.kind (s.next nonce).2.key (s.next nonce).1 hp ha)
  refine ⟨ct, ?_⟩
  simp only [AeadState.sealRaw, hct]

/-- **A record opens.** Sealing a chunk of one to 8192 bytes gives a header and a ciphertext of
the length it announces, which open to the chunk, and sealing and opening end in one state. -/
theorem open_seal (hC : C.Lawful) (c : RecordCipher) {pt : Bytes} (h0 : 0 < pt.length)
    (h : pt.length ≤ 8192) :
    ∃ c' header ct, c.seal C pt = (c', .ok (header ++ ct)) ∧ header.length = 5 ∧
      decodeHeader header = .ok ct.length ∧ c.unseal C header ct = (c', .ok pt) := by
  obtain ⟨header, henc, hlen, hdec⟩ := encodeHeader_spec (pt.length + tagLen)
    ⟨by unfold tagLen; omega, by unfold tagLen; omega⟩
  obtain ⟨ct, hct⟩ := sealRaw_ok hC c.state pt header none (by omega) (by omega)
  obtain ⟨hopen, hctlen⟩ := openRaw_sealRaw hC hct
  have hdec' : decodeHeader header = .ok ct.length := by rw [hdec, hctlen]; rfl
  refine ⟨⟨(c.state.next none).2.rekeyed (c.state.nonce = maxNonce) (header ++ ct)⟩, header, ct,
    ?_, hlen, hdec', ?_⟩
  · rw [RecordCipher.seal, if_neg (by omega), henc]
    simp only [hct]
  · rw [RecordCipher.unseal, hdec']
    simp only [ne_eq, not_true_eq_false, if_false, hopen]

end

end Xhttp.Encryption
