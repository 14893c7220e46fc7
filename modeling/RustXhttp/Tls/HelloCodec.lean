import RustXhttp.Tls.Rfc8446

/-!
# The encoding of a ClientHello (RFC 8446, section 4.1.2)

`Hello` is a ClientHello in the terms of the RFC, with what has to fit its length fields as fields
of the structure. `parse_message` reads exactly the encoded fields back (`parse_encode`).

- **Vectors**: a reader at a vector reads its content and leaves what follows (`vec16_vector16`,
  `vec8_vector8`).
- **Lists**: each loop of the extension parsers reads the items of its list, by induction on the
  list (`u16s_encode`, `alpnNames_encode`, `keyShareEntries_encode`, `parseExtensions_encode`).
- **Extensions**: `put` is the effect of one extension. With each known one at most once, the
  order of the extensions does not matter (`foldl_put`).
-/

namespace Xhttp.Tls

namespace Rfc8446

/-- A vector with a length of two bytes. -/
def vector16 (bytes : Bytes) : Bytes := be16 bytes.length ++ bytes

/-- A list of numbers of two bytes each. -/
def encodeU16s (values : List UInt16) : Bytes := values.flatMap fun v => be16 v.toNat

def encodeKeyShare (share : KeyShare) : Bytes := be16 share.group.toNat ++ vector16 share.data

/-- An extension of a ClientHello: one of those that the server reads, or another one. -/
inductive Extension where
  | serverName (host : Bytes)
  | supportedVersions (versions : List UInt16)
  | signatureAlgorithms (schemes : List UInt16)
  | alpn (protocols : List Bytes)
  | keyShare (shares : List KeyShare)
  | other (extType : UInt16) (data : Bytes)
  deriving DecidableEq, Repr

namespace Extension

/-- The types of the extensions that the server reads. -/
def known : List UInt16 :=
  [extServerName, extSupportedVersions, extSignatureAlgorithms, extAlpn, extKeyShare]

def extType : Extension → UInt16
  | serverName _ => extServerName
  | supportedVersions _ => extSupportedVersions
  | signatureAlgorithms _ => extSignatureAlgorithms
  | alpn _ => extAlpn
  | keyShare _ => extKeyShare
  | other extType _ => extType

/-- The name type of a host name is 0. -/
def data : Extension → Bytes
  | serverName host => vector16 (0 :: vector16 host)
  | supportedVersions versions => vector8 (encodeU16s versions)
  | signatureAlgorithms schemes => vector16 (encodeU16s schemes)
  | alpn protocols => vector16 (protocols.flatMap vector8)
  | keyShare shares => vector16 (shares.flatMap encodeKeyShare)
  | other _ data => data

def encode (e : Extension) : Bytes := be16 e.extType.toNat ++ vector16 e.data

/-- The lists of an extension fit their length fields and names are UTF-8. The length of the data
bounds the vectors of two-byte length inside it. -/
def Fits (e : Extension) : Prop :=
  e.data.length ≤ 65535 ∧
    match e with
    | serverName host => validUtf8 host
    | supportedVersions versions => 2 * versions.length ≤ 255
    | signatureAlgorithms _ => True
    | alpn protocols => ∀ p ∈ protocols, p ≠ [] ∧ p.length ≤ 255 ∧ validUtf8 p
    | keyShare _ => True
    | other extType _ => extType ∉ known

@[simp] def host? : Extension → Option Bytes
  | serverName host => some host
  | _ => none

@[simp] def versions? : Extension → Option (List UInt16)
  | supportedVersions versions => some versions
  | _ => none

@[simp] def schemes? : Extension → Option (List UInt16)
  | signatureAlgorithms schemes => some schemes
  | _ => none

@[simp] def protocols? : Extension → Option (List Bytes)
  | alpn protocols => some protocols
  | _ => none

@[simp] def shares? : Extension → Option (List KeyShare)
  | keyShare shares => some shares
  | _ => none

end Extension

/-- A ClientHello within its length fields. -/
structure Hello where
  legacyVersion : UInt16
  random : ByteArr 32
  sessionId : Bytes
  cipherSuites : List UInt16
  compressionMethods : Bytes
  extensions : List Extension
  sessionId_le : sessionId.length ≤ 255
  cipherSuites_le : 2 * cipherSuites.length ≤ 65535
  compressionMethods_le : compressionMethods.length ≤ 255
  extensions_fit : ∀ e ∈ extensions, e.Fits
  extensions_le : (extensions.flatMap Extension.encode).length ≤ 65535
  known_once : ∀ t ∈ Extension.known, extensions.countP (fun e => e.extType = t) ≤ 1

namespace Hello

variable (h : Hello)

def body : Bytes :=
  be16 h.legacyVersion.toNat ++ (h.random.val ++ (vector8 h.sessionId ++
    (vector16 (encodeU16s h.cipherSuites) ++ (vector8 h.compressionMethods ++
      vector16 (h.extensions.flatMap Extension.encode)))))

def encode : Bytes := handshakeMessage handshakeTypeClientHello h.body

/-- What a server should know of the ClientHello. -/
def fields : ClientHello where
  serverName := h.extensions.findSome? Extension.host?
  random := h.random
  sessionId := h.sessionId
  cipherSuites := h.cipherSuites
  keyShares := (h.extensions.findSome? Extension.shares?).getD []
  signatureSchemes := (h.extensions.findSome? Extension.schemes?).getD []
  offersTls13 := ((h.extensions.findSome? Extension.versions?).getD []).contains 0x0304
  alpn := (h.extensions.findSome? Extension.protocols?).getD []
  rawMessage := h.encode

end Hello

end Rfc8446

open Rfc8446 Reader

/-! ## Vectors -/

theorem take_append (bytes rest : Bytes) :
    take bytes.length (bytes ++ rest) = .ok (bytes, rest) := by
  have hlen : ¬ (bytes ++ rest).length < bytes.length := by
    rw [List.length_append]
    omega
  rw [take, if_neg hlen, List.take_left, List.drop_left]

theorem readU16_be16 (v : UInt16) (rest : Bytes) : readU16 (be16 v.toNat ++ rest) = .ok (v, rest) :=
  congrArg (fun w => Except.ok (w, rest)) (word16_be16 v)

/-- The length field of a vector. -/
theorem readU16_length {n : Nat} (h : n ≤ 65535) (rest : Bytes) :
    readU16 (be16 n ++ rest) = .ok (UInt16.ofNat n, rest) ∧ (UInt16.ofNat n).toNat = n := by
  have hn : (UInt16.ofNat n).toNat = n := by
    rw [UInt16.toNat_ofNat']
    omega
  have hread := readU16_be16 (UInt16.ofNat n) rest
  rw [hn] at hread
  exact ⟨hread, hn⟩

theorem readU24_be24 {n : Nat} (h : n < 16777216) (rest : Bytes) :
    readU24 (be24 n ++ rest) = .ok (n, rest) := by
  show Except.ok (ofBe24 _ _ _, rest) = _
  rw [ofBe24_ofNat h]

theorem vec16_vector16 {bytes : Bytes} (h : bytes.length ≤ 65535) (rest : Bytes) :
    vec16 (vector16 bytes ++ rest) = .ok (bytes, rest) := by
  obtain ⟨hread, hn⟩ := readU16_length h (bytes ++ rest)
  rw [vec16, vector16, List.append_assoc, hread]
  show take (UInt16.ofNat bytes.length).toNat (bytes ++ rest) = _
  rw [hn, take_append]

theorem vec8_vector8 {bytes : Bytes} (h : bytes.length ≤ 255) (rest : Bytes) :
    vec8 (vector8 bytes ++ rest) = .ok (bytes, rest) := by
  have hn : (UInt8.ofNat bytes.length).toNat = bytes.length := by
    rw [UInt8.toNat_ofNat']
    omega
  show take (UInt8.ofNat bytes.length).toNat (bytes ++ rest) = _
  rw [hn, take_append]

@[simp] theorem length_vector16 (bytes : Bytes) : (vector16 bytes).length = bytes.length + 2 := by
  rw [vector16, List.length_append, length_be16, Nat.add_comm]

@[simp] theorem length_vector8 (bytes : Bytes) : (vector8 bytes).length = bytes.length + 1 := rfl

/-- A whole field that is one vector. -/
theorem vec16_whole {bytes : Bytes} (h : bytes.length ≤ 65535) :
    vec16 (vector16 bytes) = .ok (bytes, []) := by
  have hread := vec16_vector16 h []
  rwa [List.append_nil] at hread

/-! ## Lists -/

@[simp] theorem length_encodeU16s (values : List UInt16) :
    (encodeU16s values).length = 2 * values.length := by
  induction values with
  | nil => rfl
  | cons v values ih =>
    rw [encodeU16s, List.flatMap_cons, List.length_append, ← encodeU16s, ih, length_be16,
      List.length_cons]
    omega

theorem u16s_encode (values : List UInt16) : u16s (encodeU16s values) = values := by
  induction values with
  | nil => rfl
  | cons v values ih =>
    have hv : u16 (UInt8.ofNat (v.toNat / 256)) (UInt8.ofNat v.toNat) = v := word16_be16 v
    rw [encodeU16s, List.flatMap_cons, ← encodeU16s]
    show u16 _ _ :: u16s (encodeU16s values) = _
    rw [hv, ih]

theorem offersVersion13_encode (versions : List UInt16) :
    offersVersion13 (encodeU16s versions) = versions.contains 0x0304 := by
  induction versions with
  | nil => rfl
  | cons v versions ih =>
    have hv : u16 (UInt8.ofNat (v.toNat / 256)) (UInt8.ofNat v.toNat) = v := word16_be16 v
    rw [encodeU16s, List.flatMap_cons, ← encodeU16s]
    show (if u16 _ _ = 0x0304 then true else offersVersion13 (encodeU16s versions)) = _
    rw [hv, ih, List.contains_cons]
    by_cases h : v = 0x0304
    · simp [h]
    · have hne : ((0x0304 : UInt16) == v) = false := by simp [Ne.symm h]
      rw [if_neg h, hne, Bool.false_or]

/-- Each name takes at least one byte, so the fuel lasts. -/
theorem alpnNames_encode {protocols : List Bytes}
    (h : ∀ p ∈ protocols, p ≠ [] ∧ p.length ≤ 255 ∧ validUtf8 p) {fuel : Nat}
    (hfuel : (protocols.flatMap vector8).length ≤ fuel) :
    alpnNames fuel (protocols.flatMap vector8) = protocols := by
  induction protocols generalizing fuel with
  | nil => cases fuel <;> rfl
  | cons p protocols ih =>
    rw [List.flatMap_cons] at hfuel ⊢
    rw [List.length_append, length_vector8] at hfuel
    obtain ⟨-, hlen, hvalid⟩ := h p (by simp)
    cases fuel with
    | zero => omega
    | succ fuel =>
      have hrest : (protocols.flatMap vector8).length ≤ fuel := by omega
      have htail := ih (fun q hq => h q (by simp [hq])) hrest
      rw [alpnNames, if_neg (by simp [vector8]), vec8_vector8 hlen]
      simp only [hvalid, if_true, htail]

theorem length_encodeKeyShare (share : KeyShare) :
    (encodeKeyShare share).length = share.data.length + 4 := by
  rw [encodeKeyShare, List.length_append, length_be16, length_vector16]
  omega

theorem keyShareEntries_encode {shares : List KeyShare}
    (hlen : (shares.flatMap encodeKeyShare).length ≤ 65535) {fuel : Nat}
    (hfuel : (shares.flatMap encodeKeyShare).length ≤ fuel) :
    keyShareEntries fuel (shares.flatMap encodeKeyShare) = .ok shares := by
  induction shares generalizing fuel with
  | nil => cases fuel <;> rfl
  | cons share shares ih =>
    rw [List.flatMap_cons] at hlen hfuel ⊢
    rw [List.length_append, length_encodeKeyShare] at hlen hfuel
    cases fuel with
    | zero => omega
    | succ fuel =>
      have hrest : (shares.flatMap encodeKeyShare).length ≤ fuel := by omega
      have htail := ih (by omega) hrest
      rw [keyShareEntries, if_neg (by simp [encodeKeyShare, be16]), encodeKeyShare,
        List.append_assoc, readU16_be16]
      show (vec16 (vector16 share.data ++ _) >>= _) = _
      rw [vec16_vector16 (by omega)]
      show (keyShareEntries fuel _ >>= _) = _
      rw [htail]
      rfl

/-! ## Extensions -/

namespace Extensions

/-- The effect of an extension on what has been collected. -/
def put (e : Extensions) : Extension → Extensions
  | .serverName host => { e with serverName := some host }
  | .supportedVersions versions => { e with offersTls13 := versions.contains 0x0304 }
  | .signatureAlgorithms schemes => { e with signatureSchemes := schemes }
  | .alpn protocols => { e with alpn := protocols }
  | .keyShare shares => { e with keyShares := e.keyShares ++ shares }
  | .other _ _ => e

end Extensions

theorem parseSni_data {host : Bytes} (hfit : (Extension.serverName host).Fits) :
    parseSni (Extension.serverName host).data = some host := by
  obtain ⟨hlen, hvalid⟩ := hfit
  simp only [Extension.data, length_vector16, List.length_cons] at hlen
  have hname : vec16 (vector16 host) = .ok (host, []) := vec16_whole (by omega)
  have hnil : (0 :: vector16 host : Bytes) ≠ [] := List.cons_ne_nil _ _
  rw [parseSni, Extension.data, vec16_whole (by rw [List.length_cons, length_vector16]; omega)]
  show sniNames (List.length (0 :: vector16 host)) (0 :: vector16 host) = _
  rw [List.length_cons, sniNames, if_neg hnil]
  simp only [readU8, hname, bind, Except.bind, pure, Except.pure, if_pos]
  rw [if_pos hvalid]

theorem parseSupportedVersions_data {versions : List UInt16}
    (hfit : (Extension.supportedVersions versions).Fits) :
    parseSupportedVersions (Extension.supportedVersions versions).data =
      versions.contains 0x0304 := by
  have hlen : (encodeU16s versions).length ≤ 255 := by
    rw [length_encodeU16s]
    exact hfit.2
  have hread := vec8_vector8 hlen []
  rw [List.append_nil] at hread
  rw [parseSupportedVersions, Extension.data, hread]
  exact offersVersion13_encode versions

theorem parseSignatureSchemes_data {schemes : List UInt16}
    (hfit : (Extension.signatureAlgorithms schemes).Fits) :
    parseSignatureSchemes (Extension.signatureAlgorithms schemes).data = .ok schemes := by
  have hlen := hfit.1
  simp only [Extension.data, length_vector16, length_encodeU16s] at hlen
  have hlist : (encodeU16s schemes).length ≤ 65535 := by
    rw [length_encodeU16s]
    omega
  obtain ⟨hread, hn⟩ := readU16_length hlist (encodeU16s schemes)
  have htake := take_append (encodeU16s schemes) []
  rw [List.append_nil] at htake
  have heven : ¬ (encodeU16s schemes).length % 2 ≠ 0 := by
    rw [length_encodeU16s]
    omega
  rw [parseSignatureSchemes, Extension.data, vector16, hread]
  show (rejectIf ((UInt16.ofNat (encodeU16s schemes).length).toNat % 2 ≠ 0) _ >>= fun _ =>
    take (UInt16.ofNat (encodeU16s schemes).length).toNat (encodeU16s schemes) >>= _) = _
  rw [hn, rejectIf_neg heven, htake]
  exact congrArg Except.ok (u16s_encode schemes)

theorem parseAlpn_data {protocols : List Bytes} (hfit : (Extension.alpn protocols).Fits) :
    parseAlpn (Extension.alpn protocols).data = protocols := by
  obtain ⟨hlen, hnames⟩ := hfit
  simp only [Extension.data, length_vector16] at hlen
  rw [parseAlpn, Extension.data, vec16_whole (by omega)]
  exact alpnNames_encode hnames (Nat.le_refl _)

theorem parseKeyShares_data {shares : List KeyShare} (hfit : (Extension.keyShare shares).Fits) :
    parseKeyShares (Extension.keyShare shares).data = .ok shares := by
  have hlen := hfit.1
  simp only [Extension.data, length_vector16] at hlen
  rw [parseKeyShares, Extension.data, vec16_whole (by omega)]
  exact keyShareEntries_encode (by omega) (Nat.le_refl _)

theorem Extensions.add_encode (e : Extensions) {x : Extension} (hfit : x.Fits) :
    e.add x.extType x.data = .ok (e.put x) := by
  cases x with
  | serverName host =>
    rw [Extensions.add, Extension.extType, if_pos rfl, parseSni_data hfit]
    rfl
  | supportedVersions versions =>
    rw [Extensions.add, Extension.extType, if_neg (by decide), if_pos rfl,
      parseSupportedVersions_data hfit]
    rfl
  | signatureAlgorithms schemes =>
    rw [Extensions.add, Extension.extType, if_neg (by decide), if_neg (by decide), if_pos rfl,
      parseSignatureSchemes_data hfit]
    rfl
  | alpn protocols =>
    rw [Extensions.add, Extension.extType, if_neg (by decide), if_neg (by decide),
      if_neg (by decide), if_pos rfl, parseAlpn_data hfit]
    rfl
  | keyShare shares =>
    rw [Extensions.add, Extension.extType, if_neg (by decide), if_neg (by decide),
      if_neg (by decide), if_neg (by decide), if_pos rfl, parseKeyShares_data hfit]
    rfl
  | other extType data =>
    have hother : extType ∉ Extension.known := hfit.2
    simp only [Extension.known, List.mem_cons, List.not_mem_nil, or_false, not_or] at hother
    obtain ⟨h₁, h₂, h₃, h₄, h₅⟩ := hother
    rw [Extensions.add, Extension.extType, if_neg h₁, if_neg h₂, if_neg h₃, if_neg h₄, if_neg h₅]
    rfl

theorem Rfc8446.Extension.length_encode (x : Extension) : x.encode.length = x.data.length + 4 := by
  rw [Extension.encode, List.length_append, length_be16, length_vector16]
  omega

/-- The loop over the extensions puts them in their order. -/
theorem parseExtensions_encode {xs : List Extension} (hfit : ∀ x ∈ xs, x.Fits) {fuel : Nat}
    (hfuel : (xs.flatMap Extension.encode).length ≤ fuel) (e : Extensions) :
    parseExtensions fuel (xs.flatMap Extension.encode) e = .ok (xs.foldl Extensions.put e) := by
  induction xs generalizing fuel e with
  | nil => cases fuel <;> rfl
  | cons x xs ih =>
    have hx := hfit x (by simp)
    rw [List.flatMap_cons] at hfuel ⊢
    rw [List.length_append, x.length_encode] at hfuel
    cases fuel with
    | zero => omega
    | succ fuel =>
      rw [parseExtensions, if_neg (by simp [Extension.encode, be16]), Extension.encode,
        List.append_assoc, readU16_be16]
      show (vec16 (vector16 x.data ++ _) >>= _) = _
      rw [vec16_vector16 hx.1]
      show (e.add x.extType x.data >>= _) = _
      rw [e.add_encode hx]
      exact ih (fun y hy => hfit y (by simp [hy])) (by omega) (e.put x)

/-! ## Each known extension at most once -/

/-- Each selector picks extensions of one type. -/
theorem Rfc8446.Extension.extType_of_select (x : Extension) :
    (x.host?.isSome → x.extType = extServerName) ∧
      (x.versions?.isSome → x.extType = extSupportedVersions) ∧
      (x.schemes?.isSome → x.extType = extSignatureAlgorithms) ∧
      (x.protocols?.isSome → x.extType = extAlpn) ∧
      (x.shares?.isSome → x.extType = extKeyShare) := by
  cases x <;>
    simp [Extension.host?, Extension.versions?, Extension.schemes?, Extension.protocols?,
      Extension.shares?, Extension.extType]

/-- A selector of one type of extension finds nothing where there is none. -/
theorem Rfc8446.Extension.findSome?_of_countP {α : Type} {select : Extension → Option α}
    {t : UInt16} {xs : List Extension} (h : xs.countP (fun x => x.extType = t) = 0)
    (hselect : ∀ x : Extension, (select x).isSome → x.extType = t) :
    xs.findSome? select = none := by
  rw [List.findSome?_eq_none_iff]
  intro x hx
  have hne := List.countP_eq_zero.mp h x hx
  rw [← Option.not_isSome_iff_eq_none]
  intro hsome
  exact hne (decide_eq_true (hselect x hsome))

/-- What is collected, when no known extension occurs twice. -/
theorem Extensions.foldl_put {xs : List Extension}
    (honce : ∀ t ∈ Extension.known, xs.countP (fun x => x.extType = t) ≤ 1) (e : Extensions) :
    xs.foldl Extensions.put e =
      { serverName := (xs.findSome? Extension.host?).or e.serverName
        keyShares := e.keyShares ++ (xs.findSome? Extension.shares?).getD []
        signatureSchemes := (xs.findSome? Extension.schemes?).getD e.signatureSchemes
        offersTls13 := ((xs.findSome? Extension.versions?).map
          fun versions => versions.contains 0x0304).getD e.offersTls13
        alpn := (xs.findSome? Extension.protocols?).getD e.alpn } := by
  induction xs generalizing e with
  | nil => simp
  | cons x xs ih =>
    have htail : ∀ t ∈ Extension.known, xs.countP (fun x => x.extType = t) ≤ 1 := by
      intro t ht
      have hcount := honce t ht
      rw [List.countP_cons] at hcount
      omega
    -- what has the type of `x` does not occur again
    have hlast : ∀ t ∈ Extension.known, x.extType = t → xs.countP (fun y => y.extType = t) = 0 := by
      intro t ht hx
      have hcount := honce t ht
      rw [List.countP_cons, if_pos (decide_eq_true hx)] at hcount
      omega
    rw [List.foldl_cons, ih htail]
    cases x with
    | serverName host =>
      have hnone := Extension.findSome?_of_countP (hlast extServerName (by decide) rfl)
        fun y => y.extType_of_select.1
      simp [put, List.findSome?_cons, hnone]
    | supportedVersions versions =>
      have hnone := Extension.findSome?_of_countP (hlast extSupportedVersions (by decide) rfl)
        fun y => y.extType_of_select.2.1
      simp [put, List.findSome?_cons, hnone]
    | signatureAlgorithms schemes =>
      have hnone := Extension.findSome?_of_countP (hlast extSignatureAlgorithms (by decide) rfl)
        fun y => y.extType_of_select.2.2.1
      simp [put, List.findSome?_cons, hnone]
    | alpn protocols =>
      have hnone := Extension.findSome?_of_countP (hlast extAlpn (by decide) rfl)
        fun y => y.extType_of_select.2.2.2.1
      simp [put, List.findSome?_cons, hnone]
    | keyShare shares =>
      have hnone := Extension.findSome?_of_countP (hlast extKeyShare (by decide) rfl)
        fun y => y.extType_of_select.2.2.2.2
      simp [put, List.findSome?_cons, hnone]
    | other extType data =>
      simp [put, List.findSome?_cons]

/-! ## The message -/

namespace Rfc8446.Hello

variable (h : Hello)

theorem length_body_lt : h.body.length < 16777216 := by
  have hrandom := h.random.length_val
  have hsid := h.sessionId_le
  have hciphers := h.cipherSuites_le
  have hcompression := h.compressionMethods_le
  have hextensions := h.extensions_le
  simp only [body, List.length_append, length_be16, length_vector8, length_vector16,
    length_encodeU16s]
  omega

theorem parseTail_encode :
    ClientHello.parseTail (vector16 (h.extensions.flatMap Extension.encode)) =
      .ok (h.extensions.foldl Extensions.put .empty) := by
  rw [ClientHello.parseTail, if_neg (by simp [vector16, be16]), vec16_whole h.extensions_le]
  show (parseExtensions _ (h.extensions.flatMap Extension.encode) .empty >>= _) = _
  rw [parseExtensions_encode h.extensions_fit (Nat.le_refl _)]
  rfl

theorem parseBody_encode (message : Bytes) :
    ClientHello.parseBody message h.body = .ok { h.fields with rawMessage := message } := by
  have hciphers : (encodeU16s h.cipherSuites).length ≤ 65535 := by
    rw [length_encodeU16s]
    exact h.cipherSuites_le
  obtain ⟨hread, hn⟩ := readU16_length hciphers (encodeU16s h.cipherSuites ++
    (vector8 h.compressionMethods ++ vector16 (h.extensions.flatMap Extension.encode)))
  rw [← List.append_assoc, ← vector16] at hread
  have heven : ¬ (encodeU16s h.cipherSuites).length % 2 ≠ 0 := by
    rw [length_encodeU16s]
    omega
  have hrandom := take_append h.random.val (vector8 h.sessionId ++
    (vector16 (encodeU16s h.cipherSuites) ++ (vector8 h.compressionMethods ++
      vector16 (h.extensions.flatMap Extension.encode))))
  rw [h.random.length_val] at hrandom
  unfold ClientHello.parseBody body
  refine except_bind_ok.mpr ⟨_, readU16_be16 _ _, ?_⟩
  refine except_bind_ok.mpr ⟨_, hrandom, ?_⟩
  refine except_bind_ok.mpr ⟨_, vec8_vector8 h.sessionId_le _, ?_⟩
  refine except_bind_ok.mpr ⟨_, hread, ?_⟩
  refine except_bind_ok.mpr ⟨(), (by rw [hn]; exact rejectIf_neg heven _), ?_⟩
  refine except_bind_ok.mpr ⟨_, (by rw [hn]; exact take_append _ _), ?_⟩
  refine except_bind_ok.mpr ⟨_, vec8_vector8 h.compressionMethods_le _, ?_⟩
  refine except_bind_ok.mpr ⟨_, h.parseTail_encode, ?_⟩
  rw [dif_pos h.random.length_val, Extensions.foldl_put h.known_once, u16s_encode]
  have hversions : ((h.extensions.findSome? Extension.versions?).map
      fun versions => versions.contains 0x0304).getD false =
        ((h.extensions.findSome? Extension.versions?).getD []).contains 0x0304 := by
    rcases h.extensions.findSome? Extension.versions? with _ | versions <;> rfl
  rw [Extensions.empty, hversions, Option.or_none, List.nil_append]
  rfl

theorem length_encode : h.encode.length = h.body.length + 4 := by
  rw [encode, handshakeMessage, List.length_append, List.length_cons, length_be24]
  omega

/-- A message that starts like the encoding is read only if it has its length. -/
theorem parseMessage_header {message rest : Bytes}
    (hm : message = handshakeTypeClientHello :: (be24 h.body.length ++ rest)) :
    ClientHello.parseMessage message =
      if h.body.length ≠ message.length - 4 then .error .malformed
      else ClientHello.parseBody message rest := by
  have htype : readU8 message = .ok (handshakeTypeClientHello, be24 h.body.length ++ rest) := by
    rw [hm]
    rfl
  have hclient : ¬ handshakeTypeClientHello ≠ handshakeTypeClientHello := not_not_intro rfl
  unfold ClientHello.parseMessage
  rw [htype, except_ok_bind]
  dsimp only
  rw [rejectIf_neg hclient, except_ok_bind, readU24_be24 h.length_body_lt, except_ok_bind]
  dsimp only
  by_cases hlen : h.body.length ≠ message.length - 4
  · rw [rejectIf_pos hlen, if_pos hlen]
    rfl
  · rw [rejectIf_neg hlen, if_neg hlen, except_ok_bind]

end Rfc8446.Hello

/-- `parse_message` inverts the encoding, and reads no message with a byte more or less. -/
theorem parse_encode (h : Hello) :
    ClientHello.parseMessage h.encode = .ok h.fields ∧
      (∀ b : UInt8, ∃ e, ClientHello.parseMessage (h.encode ++ [b]) = .error e) ∧
      ∃ e, ClientHello.parseMessage h.encode.dropLast = .error e := by
  have hlen := h.length_encode
  refine ⟨?_, ?_, ?_⟩
  · have hm : h.encode = handshakeTypeClientHello :: (be24 h.body.length ++ h.body) := rfl
    rw [h.parseMessage_header hm, if_neg (by omega)]
    exact h.parseBody_encode h.encode
  · intro b
    have hm : h.encode ++ [b] =
        handshakeTypeClientHello :: (be24 h.body.length ++ (h.body ++ [b])) := by
      simp [Hello.encode, handshakeMessage]
    have hlen' : (h.encode ++ [b]).length = h.encode.length + 1 := by simp
    exact ⟨_, by rw [h.parseMessage_header hm, if_pos (by omega)]⟩
  · have hbody : h.body ≠ [] := by simp [Hello.body, be16]
    have hm : h.encode.dropLast =
        handshakeTypeClientHello :: (be24 h.body.length ++ h.body.dropLast) := by
      rw [Hello.encode, handshakeMessage, List.dropLast_append_of_ne_nil hbody]
      rfl
    have hlen' : h.encode.dropLast.length = h.encode.length - 1 := List.length_dropLast
    have hpos := List.length_pos_iff.mpr hbody
    exact ⟨_, by rw [h.parseMessage_header hm, if_pos (by omega)]⟩

/-- Extensions in any order, with one that the server does not read in front. -/
theorem parse_encode_extensions : ∃ h : Hello, h.extensions =
    [.other 0x0a0a [], .keyShare [⟨0x001d, [1, 2]⟩], .alpn [[0x68, 0x32]],
      .supportedVersions [0x0304], .serverName [0x61], .signatureAlgorithms [0x0403]] ∧
    ClientHello.parseMessage h.encode = .ok h.fields := by
  refine ⟨⟨0x0303, zeros 32, [], [0x1301], [0], _, by decide, by decide, by decide, ?_, by decide,
    ?_⟩, rfl, (parse_encode _).1⟩
  · intro e he
    simp only [List.mem_cons, List.not_mem_nil, or_false] at he
    rcases he with rfl | rfl | rfl | rfl | rfl | rfl
    all_goals exact ⟨by decide, by decide⟩
  · intro t ht
    simp only [Extension.known, List.mem_cons, List.not_mem_nil, or_false] at ht
    rcases ht with rfl | rfl | rfl | rfl | rfl
    all_goals decide

end Xhttp.Tls
