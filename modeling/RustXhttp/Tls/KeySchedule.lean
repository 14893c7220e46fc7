import RustXhttp.Tls.Record

/-!
# The TLS 1.3 key schedule (`src/tls/tls13/keyschedule.rs`)

SHA-2, HKDF and HMAC are those of the crates `sha2`, `hkdf` and `hmac`, X25519 is that of
`x25519-dalek`: parameters (`Primitives`) with the lengths of their results in the types. HKDF
fails only for a PRK shorter than the hash and for more than 255 blocks of output, and neither can
occur here.
-/

namespace Xhttp.Tls

inductive HashAlg where
  | sha256 | sha384
  deriving DecidableEq, Repr

def HashAlg.outputLen : HashAlg → Nat
  | .sha256 => 32
  | .sha384 => 48

def CipherSuite.hash : CipherSuite → HashAlg
  | .aes256GcmSha384 => .sha384
  | .aes128GcmSha256 | .chaCha20Poly1305Sha256 => .sha256

/-- A digest or a secret of the key schedule. -/
abbrev Secret (alg : HashAlg) := ByteArr alg.outputLen

/-- The primitives of the crypto crates. -/
structure Primitives where
  hash : (alg : HashAlg) → Bytes → Secret alg
  hkdfExtract : (alg : HashAlg) → (salt ikm : Bytes) → Secret alg
  hkdfExpand : (alg : HashAlg) → Secret alg → (info : Bytes) → (length : Nat) → ByteArr length
  hmac : (alg : HashAlg) → (key data : Bytes) → Secret alg
  x25519Public : ByteArr 32 → ByteArr 32
  x25519 : (secret peer : ByteArr 32) → ByteArr 32
  wasContributory : ByteArr 32 → Bool

/-- `n` copies of a byte. -/
def filled (n : Nat) (b : UInt8) : ByteArr n := ⟨List.replicate n b, List.length_replicate⟩

/-- Primitives that only depend on the sizes of their inputs. -/
def Primitives.sized : Primitives where
  hash alg data := filled alg.outputLen (UInt8.ofNat data.length)
  hkdfExtract alg salt ikm := filled alg.outputLen (UInt8.ofNat (salt.length + ikm.length))
  hkdfExpand _ _ info length := filled length (UInt8.ofNat info.length)
  hmac alg key data := filled alg.outputLen (UInt8.ofNat (key.length + data.length))
  x25519Public secret := secret
  x25519 secret _ := secret
  wasContributory _ := true

def hkdfLabel (label : String) (context : Bytes) (length : Nat) : Bytes :=
  let fullLabel := ascii ("tls13 " ++ label)
  be16 length ++ UInt8.ofNat fullLabel.length :: fullLabel ++
    UInt8.ofNat context.length :: context

namespace HashAlg

variable (P : Primitives)

def expandLabel (alg : HashAlg) (secret : Secret alg) (label : String) (context : Bytes)
    (length : Nat) : ByteArr length :=
  P.hkdfExpand alg secret (hkdfLabel label context length) length

def deriveSecretWithHash (alg : HashAlg) (secret : Secret alg) (label : String)
    (transcriptHash : Bytes) : Secret alg :=
  alg.expandLabel P secret label transcriptHash alg.outputLen

def deriveSecret (alg : HashAlg) (secret : Secret alg) (label : String) (transcript : Bytes) :
    Secret alg :=
  let context := P.hash alg transcript
  alg.expandLabel P secret label context.val alg.outputLen

end HashAlg

structure TrafficKeys (keyLen : Nat) where
  key : ByteArr keyLen
  iv : ByteArr 12

structure KeySchedule where
  hash : HashAlg
  masterSecret : Secret hash
  clientHsTraffic : Secret hash
  serverHsTraffic : Secret hash

namespace KeySchedule

variable (P : Primitives)

def new (hash : HashAlg) (ecdhe transcriptHashChSh : Bytes) : KeySchedule :=
  let zero := (zeros hash.outputLen).val
  let earlySecret := P.hkdfExtract hash zero zero
  let derived := hash.deriveSecret P earlySecret "derived" []
  let handshakeSecret := P.hkdfExtract hash derived.val ecdhe
  let derived2 := hash.deriveSecret P handshakeSecret "derived" []
  { hash := hash
    masterSecret := P.hkdfExtract hash derived2.val zero
    clientHsTraffic :=
      hash.deriveSecretWithHash P handshakeSecret "c hs traffic" transcriptHashChSh
    serverHsTraffic :=
      hash.deriveSecretWithHash P handshakeSecret "s hs traffic" transcriptHashChSh }

def trafficKeys (s : KeySchedule) (secret : Secret s.hash) (keyLen : Nat) : TrafficKeys keyLen where
  key := s.hash.expandLabel P secret "key" [] keyLen
  iv := s.hash.expandLabel P secret "iv" [] 12

def finishedVerifyData (s : KeySchedule) (baseTrafficSecret : Secret s.hash)
    (transcriptHash : Bytes) : Secret s.hash :=
  let finishedKey := s.hash.expandLabel P baseTrafficSecret "finished" [] s.hash.outputLen
  P.hmac s.hash finishedKey.val transcriptHash

/-- The secrets of the client and of the server. -/
def applicationTrafficSecrets (s : KeySchedule) (transcriptHashToServerFinished : Bytes) :
    Secret s.hash × Secret s.hash :=
  (s.hash.deriveSecretWithHash P s.masterSecret "c ap traffic" transcriptHashToServerFinished,
    s.hash.deriveSecretWithHash P s.masterSecret "s ap traffic" transcriptHashToServerFinished)

end KeySchedule

end Xhttp.Tls
