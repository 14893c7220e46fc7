import RustXhttp.Lib.Bytes

/-!
# TLS 1.3 records (`src/tls/tls13/record.rs`)

A record is a five-byte header and an AEAD ciphertext with the header as associated data. Its
plaintext is the content, the type of the content and zeros as padding. Both ends count their
records in `seq`, which is mixed into the nonce; in the release profile the count wraps around.

The AEADs are those of the crates `aes-gcm` and `chacha20poly1305`: parameters (`Aead`), with what
the crates document as `Aead.Lawful`. `none` as the result of `sealInto` is the panic of its
`expect`.

* `unseal_sealInto`: a record opens under the keys that sealed it, to its type and content, and
  both ends move to the same keys.
-/

namespace Xhttp.Tls

open List

inductive CipherSuite where
  | aes128GcmSha256 | aes256GcmSha384 | chaCha20Poly1305Sha256
  deriving DecidableEq, Repr

def CipherSuite.keyLen : CipherSuite → Nat
  | .aes128GcmSha256 => 16
  | .aes256GcmSha384 | .chaCha20Poly1305Sha256 => 32

def recordHandshake : UInt8 := 22
def recordApplicationData : UInt8 := 23
def recordAlert : UInt8 := 21

def outerType : UInt8 := 0x17
def outerVersion : Bytes := [0x03, 0x03]
def tagLen : Nat := 16

/-- The primitives of the AEAD crates: `encrypt_in_place_detached`, with the ciphertext and the
tag, and `decrypt_in_place_detached`. -/
structure Aead where
  encrypt : (suite : CipherSuite) → ByteArr suite.keyLen → ByteArr 12 → (aad msg : Bytes) →
    Option (Bytes × ByteArr 16)
  decrypt : (suite : CipherSuite) → ByteArr suite.keyLen → ByteArr 12 → (aad body tag : Bytes) →
    Option Bytes

/-- What the crates document: encryption is in place, decryption inverts it, and it fails only
for messages that are far too long for a record. -/
structure Aead.Lawful (A : Aead) : Prop where
  length_encrypt : ∀ {suite key nonce aad msg ct tag},
    A.encrypt suite key nonce aad msg = some (ct, tag) → ct.length = msg.length
  decrypt_encrypt : ∀ {suite key nonce aad msg ct tag},
    A.encrypt suite key nonce aad msg = some (ct, tag) →
      A.decrypt suite key nonce aad ct tag.val = some msg
  encrypt_isSome : ∀ suite key nonce {aad msg : Bytes}, aad.length ≤ 65535 → msg.length ≤ 65535 →
    (A.encrypt suite key nonce aad msg).isSome = true

/-- The tag of `Aead.tagged`: the nonce and the size of the key. -/
def Aead.tag (suite : CipherSuite) (nonce : ByteArr 12) : ByteArr 16 :=
  ⟨nonce.val ++ [0, 0, 0, UInt8.ofNat suite.keyLen], by simp [nonce.property]⟩

/-- A cipher that only appends a tag: the laws have an instance. -/
def Aead.tagged : Aead where
  encrypt suite _ nonce _ msg := some (msg, tag suite nonce)
  decrypt suite _ nonce _ body t := if t = (tag suite nonce).val then some body else none

theorem Aead.tagged_lawful : Aead.tagged.Lawful where
  length_encrypt := by
    rintro suite key nonce aad msg ct t ⟨⟩
    rfl
  decrypt_encrypt := by
    rintro suite key nonce aad msg ct t ⟨⟩
    simp [Aead.tagged]
  encrypt_isSome _ _ _ _ _ _ _ := rfl

/-! ## Keys -/

structure RecordKeys where
  suite : CipherSuite
  key : ByteArr suite.keyLen
  iv : ByteArr 12
  seq : UInt64

namespace RecordKeys

def new (suite : CipherSuite) (key : ByteArr suite.keyLen) (iv : ByteArr 12) : RecordKeys where
  suite := suite
  key := key
  iv := iv
  seq := 0

/-- `seq.to_be_bytes()`. -/
def seqBytes (seq : UInt64) : ByteArr 8 :=
  ⟨([56, 48, 40, 32, 24, 16, 8, 0] : List UInt64).map fun k => (seq >>> k).toUInt8, rfl⟩

/-- The last eight bytes of the nonce are mixed with `seq`. -/
def nonce (k : RecordKeys) : ByteArr 12 :=
  ⟨k.iv.val.take 4 ++ List.zipWith (· ^^^ ·) (k.iv.val.drop 4) (seqBytes k.seq).val, by
    simp [k.iv.property, (seqBytes k.seq).property]⟩

/-- `self.seq += 1`. -/
def next (k : RecordKeys) : RecordKeys := { k with seq := k.seq + 1 }

end RecordKeys

/-! ## Sealing and opening -/

/-- The header of a record with a ciphertext of `ctLen` bytes. -/
def header (ctLen : Nat) : Bytes := outerType :: outerVersion ++ be16 ctLen

/-- The length that the header of a record announces. -/
def recordLen (record : Bytes) : Nat := ofBe16 (record.getD 3 0) (record.getD 4 0)

/-- The loop of `open_in_place` that goes back over the padding, and the type before it. -/
def splitInner (inner : Bytes) : Option (UInt8 × Bytes) :=
  match inner.reverse.dropWhile (· = 0) with
  | [] => none
  | contentType :: rest => some (contentType, rest.reverse)

section

variable (A : Aead)

def RecordKeys.sealInto (k : RecordKeys) (contentType : UInt8) (plaintext : Bytes) (padLen : Nat) :
    Option (RecordKeys × Bytes) :=
  let inner := plaintext ++ contentType :: List.replicate padLen 0
  let hd := header (inner.length + tagLen)
  (A.encrypt k.suite k.key k.nonce hd inner).map fun r => (k.next, hd ++ r.1 ++ r.2.val)

def RecordKeys.sealWithPadding (k : RecordKeys) (contentType : UInt8) (plaintext : Bytes)
    (padLen : Nat) : Option (RecordKeys × Bytes) :=
  k.sealInto A contentType plaintext padLen

def RecordKeys.seal (k : RecordKeys) (contentType : UInt8) (plaintext : Bytes) :
    Option (RecordKeys × Bytes) :=
  k.sealWithPadding A contentType plaintext 0

/-- `open`. The count goes on as soon as the record is authenticated. -/
def RecordKeys.unseal (k : RecordKeys) (record : Bytes) : RecordKeys × Option (UInt8 × Bytes) :=
  if record.length < 5 then (k, none)
  else
    let len := recordLen record
    if record.length < 5 + len ∨ len < tagLen then (k, none)
    else
      let split := len - tagLen
      let body := (record.drop 5).take split
      let tag := (record.drop (5 + split)).take tagLen
      match A.decrypt k.suite k.key k.nonce (record.take 5) body tag with
      | none => (k, none)
      | some inner => (k.next, splitInner inner)

end

@[simp] theorem length_header (ctLen : Nat) : (header ctLen).length = 5 := rfl

/-- The length in a header is the one that it was made for. -/
theorem recordLen_header {ctLen : Nat} (h : ctLen < 65536) (more : Bytes) :
    recordLen (header ctLen ++ more) = ctLen := ofBe16_ofNat h

/-- The length is read from the first five bytes. -/
theorem recordLen_append {bs : Bytes} (h : 5 ≤ bs.length) (more : Bytes) :
    recordLen (bs ++ more) = recordLen bs := by
  simp only [recordLen, getD_eq_getElem?_getD]
  rw [getElem?_append_left (by omega), getElem?_append_left (by omega)]

/-- A type that is not zero is found before the padding. -/
theorem splitInner_pad {contentType : UInt8} (h : contentType ≠ 0) (plaintext : Bytes)
    (padLen : Nat) :
    splitInner (plaintext ++ contentType :: List.replicate padLen 0) =
      some (contentType, plaintext) := by
  have hrev : (plaintext ++ contentType :: List.replicate padLen 0).reverse =
      List.replicate padLen 0 ++ contentType :: plaintext.reverse := by simp
  have hdrop : (List.replicate padLen (0 : UInt8) ++ contentType :: plaintext.reverse).dropWhile
      (· = 0) = contentType :: plaintext.reverse := by
    induction padLen with
    | zero => simp [h]
    | succ n ih => simpa [replicate_succ] using ih (by simp)
  simp only [splitInner, hrev, hdrop, reverse_reverse]

variable {A : Aead}

/-- **A record opens.** Content that fits in a record is sealed into a header and the ciphertext of
the length it announces, which opens to the content, and sealing and opening end in the same
keys. -/
theorem unseal_sealInto (hA : A.Lawful) (k : RecordKeys) {contentType : UInt8}
    (ht : contentType ≠ 0) (plaintext : Bytes) (padLen : Nat)
    (hl : plaintext.length + padLen + 17 ≤ 65535) :
    ∃ record, k.sealInto A contentType plaintext padLen = some (k.next, record) ∧
      record.length = 5 + (plaintext.length + padLen + 17) ∧
      recordLen record = plaintext.length + padLen + 17 ∧
      k.unseal A record = (k.next, some (contentType, plaintext)) := by
  have hinner : (plaintext ++ contentType :: List.replicate padLen 0).length =
      plaintext.length + padLen + 1 := by
    simp only [length_append, length_cons, length_replicate]
    omega
  have hsome : (A.encrypt k.suite k.key k.nonce (header (plaintext.length + padLen + 1 + tagLen))
      (plaintext ++ contentType :: List.replicate padLen 0)).isSome = true :=
    hA.encrypt_isSome _ _ _ (by rw [length_header]; omega) (by omega)
  obtain ⟨⟨ct, tag⟩, henc⟩ := Option.isSome_iff_exists.mp hsome
  have hct : ct.length = plaintext.length + padLen + 1 := (hA.length_encrypt henc).trans hinner
  have hlen : (header (plaintext.length + padLen + 1 + tagLen) ++ ct ++ tag.val).length =
      5 + (plaintext.length + padLen + 17) := by
    simp only [length_append, length_header, hct, tag.property]
    omega
  have hrl : recordLen (header (plaintext.length + padLen + 1 + tagLen) ++ ct ++ tag.val) =
      plaintext.length + padLen + 17 := by
    rw [append_assoc]
    exact recordLen_header (by unfold tagLen; omega) _
  refine ⟨header (plaintext.length + padLen + 1 + tagLen) ++ ct ++ tag.val, ?_, hlen, hrl, ?_⟩
  · simp only [RecordKeys.sealInto, hinner, henc, Option.map_some]
  · have hsplit : plaintext.length + padLen + 17 - tagLen = ct.length := by
      rw [hct]
      unfold tagLen
      omega
    have hdrop : (header (plaintext.length + padLen + 1 + tagLen) ++ ct ++ tag.val).drop
        (5 + ct.length) = tag.val := by
      apply drop_left'
      rw [length_append, length_header]
    have htag : tag.val.take tagLen = tag.val := take_of_length_le (Nat.le_of_eq tag.property)
    have hbody : ((header (plaintext.length + padLen + 1 + tagLen) ++ ct ++ tag.val).drop 5).take
        ct.length = ct := by
      rw [append_assoc, drop_left' (length_header _), take_left]
    have htake : (header (plaintext.length + padLen + 1 + tagLen) ++ ct ++ tag.val).take 5 =
        header (plaintext.length + padLen + 1 + tagLen) := by
      rw [append_assoc, take_left' (length_header _)]
    have h16 : ¬ (5 + (plaintext.length + padLen + 17) < 5 + (plaintext.length + padLen + 17) ∨
        plaintext.length + padLen + 17 < tagLen) := by
      unfold tagLen
      omega
    unfold RecordKeys.unseal
    rw [if_neg (by omega)]
    simp only [hrl, hlen, if_neg h16, hsplit, hdrop, hbody, htag, htake, hA.decrypt_encrypt henc,
      splitInner_pad ht]

end Xhttp.Tls
