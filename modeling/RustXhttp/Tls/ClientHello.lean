import RustXhttp.Lib.Utf8
import RustXhttp.Lib.Exec

/-!
# The ClientHello (`src/tls/client_hello.rs`)

`parse_message` and the parsers of the extensions. A `Reader` is what it has not read yet. The
loops consume at least one byte in each iteration, so the number of bytes is enough fuel.
`alpn_offer_hash`, which nothing calls, is left out.
-/

namespace Xhttp.Tls

def handshakeTypeClientHello : UInt8 := 0x01

def extServerName : UInt16 := 0x0000
def extSignatureAlgorithms : UInt16 := 0x000d
def extAlpn : UInt16 := 0x0010
def extSupportedVersions : UInt16 := 0x002b
def extKeyShare : UInt16 := 0x0033

structure KeyShare where
  group : UInt16
  data : Bytes
  deriving DecidableEq, Repr

structure ClientHello where
  serverName : Option Bytes
  random : ByteArr 32
  sessionId : Bytes
  cipherSuites : List UInt16
  keyShares : List KeyShare
  signatureSchemes : List UInt16
  offersTls13 : Bool
  alpn : List Bytes
  rawMessage : Bytes
  deriving DecidableEq

inductive ParseError where
  | truncated | notHandshakeRecord | notClientHello | malformed
  deriving DecidableEq, Repr

/-! ## Reading -/

/-- `u16::from_be_bytes([a, b])`. -/
def u16 (a b : UInt8) : UInt16 := UInt16.ofNat (ofBe16 a b)

/-- A reader of the bytes that are left. -/
abbrev Reader (α : Type) := Bytes → Except ParseError (α × Bytes)

namespace Reader

def take (len : Nat) : Reader Bytes := fun bytes =>
  if bytes.length < len then .error .truncated else .ok (bytes.take len, bytes.drop len)

def readU8 : Reader UInt8 := fun bytes =>
  match bytes with
  | a :: rest => .ok (a, rest)
  | [] => .error .truncated

def readU16 : Reader UInt16 := fun bytes =>
  match bytes with
  | a :: b :: rest => .ok (u16 a b, rest)
  | _ => .error .truncated

def readU24 : Reader Nat := fun bytes =>
  match bytes with
  | a :: b :: c :: rest => .ok (ofBe24 a b c, rest)
  | _ => .error .truncated

/-- A field with its length in the two bytes before it. -/
def vec16 : Reader Bytes := fun bytes => do
  let (len, bytes) ← readU16 bytes
  take len.toNat bytes

/-- A field with its length in the byte before it. -/
def vec8 : Reader Bytes := fun bytes => do
  let (len, bytes) ← readU8 bytes
  take len.toNat bytes

end Reader

open Reader

/-- `chunks_exact(2)` as `u16`. -/
def u16s : Bytes → List UInt16
  | a :: b :: rest => u16 a b :: u16s rest
  | _ => []

/-! ## Extensions -/

def parseSignatureSchemes (data : Bytes) : Except ParseError (List UInt16) := do
  let (listLen, rest) ← readU16 data
  rejectIf (listLen.toNat % 2 ≠ 0) .malformed
  let (list, rest) ← take listLen.toNat rest
  rejectIf (rest ≠ []) .malformed
  return u16s list

/-- The loop over the names of `parse_sni`. -/
def sniNames : Nat → Bytes → Option Bytes
  | 0, _ => none
  | fuel + 1, names =>
    if names = [] then none
    else
      match (do
        let (nameType, names) ← readU8 names
        let (name, names) ← vec16 names
        return (nameType, name, names) : Except ParseError (UInt8 × Bytes × Bytes)) with
      | .error _ => none
      | .ok (nameType, name, names) =>
        if nameType = 0 then (if validUtf8 name then some name else none) else sniNames fuel names

def parseSni (data : Bytes) : Option Bytes :=
  match vec16 data with
  | .error _ => none
  | .ok (list, _) => sniNames list.length list

/-- The loop over the versions of `parse_supported_versions`. -/
def offersVersion13 : Bytes → Bool
  | a :: b :: rest => if u16 a b = 0x0304 then true else offersVersion13 rest
  | _ => false

def parseSupportedVersions (data : Bytes) : Bool :=
  match vec8 data with
  | .error _ => false
  | .ok (list, _) => offersVersion13 list

/-- The loop over the protocols of `parse_alpn`. A name that is not UTF-8 is skipped. -/
def alpnNames : Nat → Bytes → List Bytes
  | 0, _ => []
  | fuel + 1, names =>
    if names = [] then []
    else
      match vec8 names with
      | .error _ => []
      | .ok (name, names) =>
        if validUtf8 name then name :: alpnNames fuel names else alpnNames fuel names

def parseAlpn (data : Bytes) : List Bytes :=
  match vec16 data with
  | .error _ => []
  | .ok (list, _) => alpnNames list.length list

/-- The loop over the entries of `parse_key_shares`. -/
def keyShareEntries : Nat → Bytes → Except ParseError (List KeyShare)
  | 0, _ => .ok []
  | fuel + 1, entries =>
    if entries = [] then .ok []
    else do
      let (group, entries) ← readU16 entries
      let (data, entries) ← vec16 entries
      let shares ← keyShareEntries fuel entries
      return ⟨group, data⟩ :: shares

def parseKeyShares (data : Bytes) : Except ParseError (List KeyShare) := do
  let (list, _) ← vec16 data
  keyShareEntries list.length list

/-- What `parse_extensions` collects. -/
structure Extensions where
  serverName : Option Bytes
  keyShares : List KeyShare
  signatureSchemes : List UInt16
  offersTls13 : Bool
  alpn : List Bytes
  deriving DecidableEq

def Extensions.empty : Extensions := ⟨none, [], [], false, []⟩

/-- One extension. A later one replaces an earlier one of the same type, except that the key
shares of all are kept. -/
def Extensions.add (e : Extensions) (extType : UInt16) (data : Bytes) :
    Except ParseError Extensions :=
  if extType = extServerName then .ok { e with serverName := parseSni data }
  else if extType = extSupportedVersions then
    .ok { e with offersTls13 := parseSupportedVersions data }
  else if extType = extSignatureAlgorithms then
    (parseSignatureSchemes data).map fun signatureSchemes => { e with signatureSchemes }
  else if extType = extAlpn then .ok { e with alpn := parseAlpn data }
  else if extType = extKeyShare then
    (parseKeyShares data).map fun shares => { e with keyShares := e.keyShares ++ shares }
  else .ok e

def parseExtensions : Nat → Bytes → Extensions → Except ParseError Extensions
  | 0, _, e => .ok e
  | fuel + 1, bytes, e =>
    if bytes = [] then .ok e
    else do
      let (extType, bytes) ← readU16 bytes
      let (data, bytes) ← vec16 bytes
      let e ← e.add extType data
      parseExtensions fuel bytes e

/-! ## The message -/

namespace ClientHello

/-- The extensions are optional. -/
def parseTail (bytes : Bytes) : Except ParseError Extensions :=
  if bytes = [] then .ok .empty
  else do
    let (extensions, bytes) ← vec16 bytes
    let e ← parseExtensions extensions.length extensions .empty
    rejectIf (bytes ≠ []) .malformed
    return e

/-- The body of the message, after its type and length. -/
def parseBody (message body : Bytes) : Except ParseError ClientHello := do
  let (_, bytes) ← readU16 body
  let (random, bytes) ← take 32 bytes
  let (sessionId, bytes) ← vec8 bytes
  let (cipherLen, bytes) ← readU16 bytes
  rejectIf (cipherLen.toNat % 2 ≠ 0) .malformed
  let (cipherBytes, bytes) ← take cipherLen.toNat bytes
  let (_, bytes) ← vec8 bytes
  let e ← parseTail bytes
  if h : random.length = 32 then
    return {
      serverName := e.serverName
      random := ⟨random, h⟩
      sessionId := sessionId
      cipherSuites := u16s cipherBytes
      keyShares := e.keyShares
      signatureSchemes := e.signatureSchemes
      offersTls13 := e.offersTls13
      alpn := e.alpn
      rawMessage := message }
  else throw .truncated

def parseMessage (message : Bytes) : Except ParseError ClientHello := do
  let (msgType, bytes) ← readU8 message
  rejectIf (msgType ≠ handshakeTypeClientHello) .notClientHello
  let (len, bytes) ← readU24 bytes
  rejectIf (len ≠ message.length - 4) .malformed
  parseBody message bytes

def cipherOffered (c : ClientHello) (id : UInt16) : Bool := c.cipherSuites.contains id

end ClientHello

def isGrease (value : UInt16) : Bool :=
  (value &&& 0x0f0f) = 0x0a0a ∧ (value >>> 8) = (value &&& 0x00ff)

def ClientHello.keyshareGroupOffered (c : ClientHello) (group : UInt16) : Bool :=
  c.keyShares.any fun share => share.group = group && !isGrease group

end Xhttp.Tls
