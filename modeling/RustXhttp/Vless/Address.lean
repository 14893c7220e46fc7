import RustXhttp.Dispatch.Xudp
import RustXhttp.Lib.Exec
import RustXhttp.Lib.Reader
import RustXhttp.Vless.Addons

/-!
# Ports and addresses (`src/vless/address.rs`, `src/vless/header.rs`)

A port and an address on the wire are the port, a type byte, and the address, which is four or
sixteen bytes, or a length byte and a domain. There are two parsers: `parse_port_then_address` of
a slice, which checks the lengths before it indexes, and `read_address_port` of a stream.

* `addressAt`: the address behind a type byte, with the number of its bytes. Both parsers compute
  it (`parsePortThenAddress_cons`, `readAddressPort_cons`).
* `address_parsers_agree`: the two parsers agree on every input, and the slice one reads what
  `write_port_then_address` writes.
-/

namespace Xhttp.Vless

open List
open Xudp (Address AddrError)
open AsyncRead

def addrTypeIpv4 : UInt8 := 1
def addrTypeDomain : UInt8 := 2
def addrTypeIpv6 : UInt8 := 3

/-- `HeaderError`. -/
inductive HeaderError where
  | io
  | badVersion (v : UInt8)
  | authFailed
  | badCommand (b : UInt8)
  | reverseUnsupported
  | addons (e : AddonsError)
  | address (e : AddrError)
  deriving DecidableEq, Repr

/-! ## The two parsers and the writer -/

/-- `copy_from_slice` into `[u8; n]`. -/
def toArr? (n : Nat) (bs : Bytes) : Option (ByteArr n) :=
  if h : bs.length = n then some ⟨bs, h⟩ else none

/-- `Address::Domain(..)` of bytes that must be UTF-8. -/
def domain? (bs : Bytes) : Except AddrError Address :=
  if utf8 : validUtf8 bs = true then .ok (.domain bs utf8) else .error .badDomainUtf8

/-- The address, with the offset after it. -/
def parseAddress (buf : Bytes) (atype : UInt8) (off : Nat) : Exec AddrError (Address × Nat) := do
  if atype = addrTypeIpv4 then
    failIf (buf.length < off + 4) .underrun
    let a ← Exec.index buf off
    let b ← Exec.index buf (off + 1)
    let c ← Exec.index buf (off + 2)
    let d ← Exec.index buf (off + 3)
    return (.ipv4 ⟨[a, b, c, d], rfl⟩, off + 4)
  else if atype = addrTypeIpv6 then
    failIf (buf.length < off + 16) .underrun
    let o ← Exec.orPanic ((slice? buf off (off + 16)).bind (toArr? 16))
    return (.ipv6 o, off + 16)
  else if atype = addrTypeDomain then
    failIf (buf.length < off + 1) .underrun
    let dlen ← Exec.index buf off
    failIf (dlen.toNat = 0) .emptyDomain
    failIf (buf.length < off + 1 + dlen.toNat) .underrun
    let name ← Exec.orPanic (slice? buf (off + 1) (off + 1 + dlen.toNat))
    let d ← Exec.ofExcept (domain? name)
    return (d, off + 1 + dlen.toNat)
  else throw (.unknownType atype)

def parsePortThenAddress (buf : Bytes) : Exec AddrError (UInt16 × Address × Nat) := do
  failIf (buf.length < 3) .underrun
  let a ← Exec.index buf 0
  let b ← Exec.index buf 1
  let atype ← Exec.index buf 2
  let (addr, off) ← parseAddress buf atype 3
  return (word16 a b, addr, off)

def readAddressPort (w : Bytes) : Except HeaderError ((UInt16 × Address) × Bytes) := do
  let (head, w) ← readArr .io 3 w
  match head with
  | ⟨[a, b, atype], _⟩ =>
    let port := word16 a b
    if atype = addrTypeIpv4 then
      let (octets, w) ← readArr .io 4 w
      return ((port, .ipv4 octets), w)
    else if atype = addrTypeIpv6 then
      let (octets, w) ← readArr .io 16 w
      return ((port, .ipv6 octets), w)
    else if atype = addrTypeDomain then
      let (dlen, w) ← readU8 .io w
      rejectIf (dlen.toNat = 0) (.address .emptyDomain)
      let (name, w) ← readExact .io dlen.toNat w
      let d ← (domain? name).mapError .address
      return ((port, d), w)
    else throw (.address (.unknownType atype))

/-- The type byte and the address. The length of a domain is cut to a byte. -/
def writeAddress : Address → Bytes
  | .ipv4 octets => addrTypeIpv4 :: octets.val
  | .ipv6 octets => addrTypeIpv6 :: octets.val
  | .domain d _ => addrTypeDomain :: UInt8.ofNat d.length :: d

def writePortThenAddress (port : UInt16) (addr : Address) : Bytes :=
  be16 port.toNat ++ writeAddress addr

/-! ## What both parsers compute -/

/-- A domain with its length in front. -/
def domainAt : Bytes → Except AddrError (Address × Nat)
  | [] => .error .underrun
  | dlen :: name =>
    if dlen.toNat = 0 then .error .emptyDomain
    else if name.length < dlen.toNat then .error .underrun
    else (domain? (name.take dlen.toNat)).map fun d => (d, 1 + dlen.toNat)

/-- The address behind its type byte, with the number of its bytes. -/
def addressAt (atype : UInt8) (rest : Bytes) : Except AddrError (Address × Nat) :=
  if atype = addrTypeIpv4 then
    if short : rest.length < 4 then .error .underrun
    else .ok (.ipv4 ⟨rest.take 4, length_take_of_le (Nat.le_of_not_lt short)⟩, 4)
  else if atype = addrTypeIpv6 then
    if short : rest.length < 16 then .error .underrun
    else .ok (.ipv6 ⟨rest.take 16, length_take_of_le (Nat.le_of_not_lt short)⟩, 16)
  else if atype = addrTypeDomain then domainAt rest
  else .error (.unknownType atype)

theorem toArr?_eq {n : Nat} {bs : Bytes} (h : bs.length = n) : toArr? n bs = some ⟨bs, h⟩ :=
  dif_pos h

section

variable (a b : UInt8) (rest : Bytes)

/-- The result of `addressAt`, with the offset of the slice. -/
def shifted (r : Except AddrError (Address × Nat)) : Exec AddrError (Address × Nat) :=
  Exec.ofExcept (r.map fun r => (r.1, 3 + r.2))

theorem parseAddress_ipv4 :
    parseAddress (a :: b :: addrTypeIpv4 :: rest) addrTypeIpv4 3 =
      shifted (addressAt addrTypeIpv4 rest) := by
  rw [parseAddress, addressAt, if_pos rfl, if_pos rfl]
  match rest with
  | [] | [_] | [_, _] | [_, _, _] => rfl
  | w :: x :: y :: z :: rest =>
    have hlong : ¬ (a :: b :: addrTypeIpv4 :: w :: x :: y :: z :: rest).length < 3 + 4 := by
      simp only [length_cons]
      omega
    have hlong' : ¬ (w :: x :: y :: z :: rest).length < 4 := by
      simp only [length_cons]
      omega
    rw [Exec.failIf_neg hlong, dif_neg hlong']
    rfl

theorem parseAddress_ipv6 :
    parseAddress (a :: b :: addrTypeIpv6 :: rest) addrTypeIpv6 3 =
      shifted (addressAt addrTypeIpv6 rest) := by
  have hlen : (a :: b :: addrTypeIpv6 :: rest).length = rest.length + 3 := rfl
  have h4 : ¬ addrTypeIpv6 = addrTypeIpv4 := by decide
  rw [parseAddress, addressAt, if_neg h4, if_neg h4, if_pos rfl, if_pos rfl]
  by_cases hs : rest.length < 16
  · rw [Exec.failIf_pos (by omega), dif_pos hs]
    rfl
  · rw [Exec.failIf_neg (by omega), dif_neg hs, slice?_add (by omega)]
    simp only [Option.bind_some, drop_succ_cons, drop_zero]
    rw [toArr?_eq (length_take_of_le (Nat.le_of_not_lt hs))]
    rfl

theorem parseAddress_domain :
    parseAddress (a :: b :: addrTypeDomain :: rest) addrTypeDomain 3 =
      shifted (addressAt addrTypeDomain rest) := by
  have h4 : ¬ addrTypeDomain = addrTypeIpv4 := by decide
  have h6 : ¬ addrTypeDomain = addrTypeIpv6 := by decide
  rw [parseAddress, addressAt, if_neg h4, if_neg h4, if_neg h6, if_neg h6, if_pos rfl, if_pos rfl]
  cases rest with
  | nil => rfl
  | cons dlen name =>
    have hlen : (a :: b :: addrTypeDomain :: dlen :: name).length = name.length + 4 := rfl
    rw [Exec.failIf_neg (by omega), domainAt]
    simp only [pure_bind, Exec.index, getElem?_cons_succ, getElem?_cons_zero, Exec.orPanic_some]
    by_cases h0 : dlen.toNat = 0
    · rw [Exec.failIf_pos h0, if_pos h0]
      rfl
    · rw [Exec.failIf_neg h0, if_neg h0]
      by_cases hs : name.length < dlen.toNat
      · rw [Exec.failIf_pos (by omega), if_pos hs]
        rfl
      · rw [Exec.failIf_neg (by omega), if_neg hs, slice?_add (by omega)]
        simp only [pure_bind, Exec.orPanic_some, drop_succ_cons, drop_zero]
        cases domain? (name.take dlen.toNat) with
        | error e => rfl
        | ok d =>
          have : 3 + 1 + dlen.toNat = 3 + (1 + dlen.toNat) := by omega
          rw [this]
          rfl

/-- The checks of lengths come before the indices and slices, so none of these panics. -/
theorem parseAddress_eq (atype : UInt8) :
    parseAddress (a :: b :: atype :: rest) atype 3 = shifted (addressAt atype rest) := by
  by_cases h4 : atype = addrTypeIpv4
  · subst h4
    exact parseAddress_ipv4 a b rest
  by_cases h6 : atype = addrTypeIpv6
  · subst h6
    exact parseAddress_ipv6 a b rest
  by_cases hd : atype = addrTypeDomain
  · subst hd
    exact parseAddress_domain a b rest
  · rw [parseAddress, addressAt, if_neg h4, if_neg h4, if_neg h6, if_neg h6, if_neg hd, if_neg hd]
    rfl

theorem parsePortThenAddress_short {buf : Bytes} (h : buf.length < 3) :
    (parsePortThenAddress buf).run = some (.error .underrun) := by
  rw [parsePortThenAddress, Exec.failIf_pos h]
  rfl

theorem parsePortThenAddress_cons (atype : UInt8) :
    (parsePortThenAddress (a :: b :: atype :: rest)).run =
      some ((addressAt atype rest).map fun r => (word16 a b, r.1, 3 + r.2)) := by
  have hlong : ¬ (a :: b :: atype :: rest).length < 3 := by
    simp only [length_cons]
    omega
  rw [parsePortThenAddress, Exec.failIf_neg hlong]
  simp only [pure_bind, Exec.index, getElem?_cons_succ, getElem?_cons_zero,
    Exec.orPanic_some, parseAddress_eq]
  cases addressAt atype rest with
  | error e => rfl
  | ok r => rfl

/-- The errors of the stream parser. -/
def streamError : AddrError → HeaderError
  | .underrun => .io
  | e => .address e

theorem readAddressPort_short {w : Bytes} (h : w.length < 3) : readAddressPort w = .error .io := by
  rw [readAddressPort, readArr, dif_pos h]
  rfl

theorem readAddressPort_cons (atype : UInt8) :
    readAddressPort (a :: b :: atype :: rest) =
      ((addressAt atype rest).mapError streamError).map fun r =>
        ((word16 a b, r.1), rest.drop r.2) := by
  have hhead : readArr HeaderError.io 3 (a :: b :: atype :: rest) =
      .ok (⟨[a, b, atype], rfl⟩, rest) := readArr_append ⟨[a, b, atype], rfl⟩ rest
  rw [readAddressPort, hhead]
  show (if atype = addrTypeIpv4 then _ else _) = _
  rw [addressAt]
  by_cases h4 : atype = addrTypeIpv4
  · rw [if_pos h4, if_pos h4]
    by_cases hs : rest.length < 4
    · rw [readArr, dif_pos hs, dif_pos hs]
      rfl
    · rw [readArr, dif_neg hs, dif_neg hs]
      rfl
  by_cases h6 : atype = addrTypeIpv6
  · rw [if_neg h4, if_neg h4, if_pos h6, if_pos h6]
    by_cases hs : rest.length < 16
    · rw [readArr, dif_pos hs, dif_pos hs]
      rfl
    · rw [readArr, dif_neg hs, dif_neg hs]
      rfl
  by_cases hd : atype = addrTypeDomain
  · rw [if_neg h4, if_neg h4, if_neg h6, if_neg h6, if_pos hd, if_pos hd]
    cases rest with
    | nil => rfl
    | cons dlen name =>
      rw [domainAt]
      show (do
        rejectIf (dlen.toNat = 0) (.address .emptyDomain)
        let (name, w) ← readExact .io dlen.toNat name
        let d ← (domain? name).mapError .address
        return ((word16 a b, d), w) : Except HeaderError _) = _
      rw [rejectIf, readExact]
      by_cases h0 : dlen.toNat = 0
      · rw [if_pos h0, if_pos h0]
        rfl
      · rw [if_neg h0, if_neg h0]
        by_cases hs : name.length < dlen.toNat
        · rw [if_pos hs, if_pos hs]
          rfl
        · rw [if_neg hs, if_neg hs]
          show (do
            let d ← (domain? (name.take dlen.toNat)).mapError .address
            return ((word16 a b, d), name.drop dlen.toNat) : Except HeaderError _) = _
          unfold domain?
          by_cases hu : validUtf8 (name.take dlen.toNat) = true
          · have hdrop : (dlen :: name).drop (1 + dlen.toNat) = name.drop dlen.toNat := by
              rw [Nat.add_comm, drop_succ_cons]
            rw [dif_pos hu]
            show _ = Except.ok (_, (dlen :: name).drop (1 + dlen.toNat))
            rw [hdrop]
            rfl
          · rw [dif_neg hu]
            rfl
  · rw [if_neg h4, if_neg h4, if_neg h6, if_neg h6, if_neg hd, if_neg hd]
    rfl

end

/-! ## Agreement -/

/-- The two parsers have the same result on the bytes `b`. -/
def Agrees (b : Bytes) : Except AddrError (UInt16 × Address × Nat) →
    Except HeaderError ((UInt16 × Address) × Bytes) → Prop
  | .ok (port, addr, n), .ok (r, rest) => r = (port, addr) ∧ n ≤ b.length ∧ rest = b.drop n
  | .error .underrun, .error .io => True
  | .error e, .error (.address e') => e = e' ∧ e ≠ .underrun
  | _, _ => False

/-- An address that the writer does not cut. -/
def Writable : Address → Prop
  | .ipv4 _ | .ipv6 _ => True
  | .domain d _ => 1 ≤ d.length ∧ d.length ≤ 255

instance (addr : Address) : Decidable (Writable addr) := by
  unfold Writable
  split <;> infer_instance

section

variable {addr : Address} {rest : Bytes} {n : Nat} {port : UInt16}

/-- What is written is read, whatever is behind it. -/
theorem addressAt_write (h : Writable addr) (rest : Bytes) :
    ∃ atype body, writeAddress addr = atype :: body ∧
      addressAt atype (body ++ rest) = .ok (addr, body.length) := by
  match addr, h with
  | .ipv4 ⟨octets, hlen⟩, _ =>
    refine ⟨addrTypeIpv4, octets, rfl, ?_⟩
    rw [addressAt, if_pos rfl, dif_neg (by rw [length_append]; omega)]
    simp only [← hlen, take_left]
  | .ipv6 ⟨octets, hlen⟩, _ =>
    refine ⟨addrTypeIpv6, octets, rfl, ?_⟩
    rw [addressAt, if_neg (by decide), if_pos rfl, dif_neg (by rw [length_append]; omega)]
    simp only [← hlen, take_left]
  | .domain d utf8, h =>
    refine ⟨addrTypeDomain, UInt8.ofNat d.length :: d, rfl, ?_⟩
    have hlen : (UInt8.ofNat d.length).toNat = d.length := by
      rw [UInt8.toNat_ofNat']
      have : d.length ≤ 255 := h.2
      omega
    have hpos : 1 ≤ d.length := h.1
    rw [addressAt, if_neg (by decide), if_neg (by decide), if_pos rfl, cons_append, domainAt,
      hlen, if_neg (by omega), if_neg (by rw [length_append]; omega), take_left, domain?,
      dif_pos utf8, length_cons, Nat.add_comm d.length]
    rfl

theorem domainAt_ok (h : domainAt rest = .ok (addr, n)) :
    Writable addr ∧ n ≤ rest.length ∧ writeAddress addr = addrTypeDomain :: rest.take n := by
  cases rest with
  | nil => cases h
  | cons dlen name =>
    rw [domainAt] at h
    by_cases h0 : dlen.toNat = 0
    · rw [if_pos h0] at h
      cases h
    by_cases hs : name.length < dlen.toNat
    · rw [if_neg h0, if_pos hs] at h
      cases h
    rw [if_neg h0, if_neg hs, domain?] at h
    by_cases hu : validUtf8 (name.take dlen.toNat) = true
    · rw [dif_pos hu] at h
      cases h
      have hlen : (name.take dlen.toNat).length = dlen.toNat :=
        length_take_of_le (Nat.le_of_not_lt hs)
      have hlt := dlen.toNat_lt
      refine ⟨⟨by omega, by omega⟩, by rw [length_cons]; omega, ?_⟩
      rw [writeAddress, hlen, UInt8.ofNat_toNat, Nat.add_comm, take_succ_cons]
    · rw [dif_neg hu] at h
      cases h

/-- What is read was written. -/
theorem addressAt_ok {atype : UInt8} (h : addressAt atype rest = .ok (addr, n)) :
    Writable addr ∧ n ≤ rest.length ∧ writeAddress addr = atype :: rest.take n := by
  rw [addressAt] at h
  by_cases h4 : atype = addrTypeIpv4
  · rw [if_pos h4] at h
    by_cases hs : rest.length < 4
    · rw [dif_pos hs] at h
      cases h
    · rw [dif_neg hs] at h
      cases h
      exact ⟨trivial, by omega, by rw [h4]; rfl⟩
  by_cases h6 : atype = addrTypeIpv6
  · rw [if_neg h4, if_pos h6] at h
    by_cases hs : rest.length < 16
    · rw [dif_pos hs] at h
      cases h
    · rw [dif_neg hs] at h
      cases h
      exact ⟨trivial, by omega, by rw [h6]; rfl⟩
  by_cases hd : atype = addrTypeDomain
  · rw [if_neg h4, if_neg h6, if_pos hd] at h
    rw [hd]
    exact domainAt_ok h
  · rw [if_neg h4, if_neg h6, if_neg hd] at h
    cases h

theorem parsePortThenAddress_noPanic (b : Bytes) : (parsePortThenAddress b).NoPanic := by
  unfold Exec.NoPanic
  match b with
  | [] | [_] | [_, _] =>
    rw [parsePortThenAddress_short (by simp)]
    nofun
  | x :: y :: atype :: rest =>
    rw [parsePortThenAddress_cons]
    nofun

/-- What is parsed was written. -/
theorem parsePortThenAddress_ok {b : Bytes} (h : (parsePortThenAddress b).Returns (port, addr, n)) :
    Writable addr ∧ n ≤ b.length := by
  unfold Exec.Returns at h
  match b with
  | [] | [_] | [_, _] =>
    rw [parsePortThenAddress_short (by simp)] at h
    cases h
  | x :: y :: atype :: rest =>
    rw [parsePortThenAddress_cons] at h
    cases hat : addressAt atype rest with
    | error e =>
      rw [hat] at h
      cases h
    | ok r =>
      rw [hat] at h
      cases h
      obtain ⟨hw, hle, _⟩ := addressAt_ok hat
      exact ⟨hw, by simp only [length_cons]; omega⟩

/-- What is written with a port is parsed, whatever is behind it. -/
theorem parsePortThenAddress_write (port : UInt16) (h : Writable addr) (rest : Bytes) :
    (parsePortThenAddress (writePortThenAddress port addr ++ rest)).run =
      some (.ok (port, addr, (writePortThenAddress port addr).length)) := by
  obtain ⟨atype, body, hw, hread⟩ := addressAt_write h rest
  rw [writePortThenAddress, hw, be16]
  simp only [cons_append, nil_append]
  have hlen : ∀ x y : UInt8, 3 + body.length = (x :: y :: atype :: body).length := by
    intro x y
    simp only [length_cons]
    omega
  rw [parsePortThenAddress_cons, hread, word16_be16, ← hlen]
  rfl

theorem readAddressPort_write (port : UInt16) (h : Writable addr) (rest : Bytes) :
    readAddressPort (writePortThenAddress port addr ++ rest) = .ok ((port, addr), rest) := by
  obtain ⟨atype, body, hw, hread⟩ := addressAt_write h rest
  rw [writePortThenAddress, hw, be16]
  simp only [cons_append, nil_append]
  rw [readAddressPort_cons, hread, word16_be16]
  show Except.ok ((port, addr), (body ++ rest).drop body.length) = _
  rw [drop_left]

theorem readAddressPort_ok {w : Bytes} (h : readAddressPort w = .ok ((port, addr), rest)) :
    Writable addr ∧ w = writePortThenAddress port addr ++ rest := by
  match w with
  | [] | [_] | [_, _] =>
    rw [readAddressPort_short (by simp)] at h
    cases h
  | x :: y :: atype :: w =>
    rw [readAddressPort_cons] at h
    cases ha : addressAt atype w with
    | error e =>
      rw [ha] at h
      cases h
    | ok r =>
      rw [ha] at h
      cases h
      obtain ⟨hw, _, hwrite⟩ := addressAt_ok ha
      refine ⟨hw, ?_⟩
      rw [writePortThenAddress, hwrite, be16_word16]
      simp only [cons_append, nil_append, take_append_drop]

end

/-- **The two parsers.** They agree on every input, on the result and on how much is consumed, on
the error, and on running out of bytes; and the slice parser reads what the writer writes. -/
theorem address_parsers_agree :
    (∀ b : Bytes, ∃ r, (parsePortThenAddress b).run = some r ∧ Agrees b r (readAddressPort b)) ∧
    ∀ (port : UInt16) (addr : Address) (rest : Bytes), Writable addr →
      (parsePortThenAddress (writePortThenAddress port addr ++ rest)).run =
        some (.ok (port, addr, (writePortThenAddress port addr).length)) := by
  refine ⟨fun b => ?_, fun port addr rest h => parsePortThenAddress_write port h rest⟩
  match b with
  | [] | [_] | [_, _] => exact ⟨_, parsePortThenAddress_short (by simp), trivial⟩
  | x :: y :: atype :: rest =>
    refine ⟨_, parsePortThenAddress_cons x y rest atype, ?_⟩
    rw [readAddressPort_cons]
    cases h : addressAt atype rest with
    | ok r =>
      have hle := (addressAt_ok h).2.1
      refine ⟨rfl, ?_, ?_⟩
      · simp only [length_cons]
        omega
      · rw [Nat.add_comm]
        rfl
    | error e =>
      cases e with
      | underrun => trivial
      | unknownType t | emptyDomain | badDomainUtf8 => exact ⟨rfl, nofun⟩

theorem address_parsers_agree_domain :
    Writable (.domain (ascii "example.com") (by decide)) ∧
    (parsePortThenAddress (writePortThenAddress 443 (.domain (ascii "example.com") (by decide)) ++
      [7, 7])).run = some (.ok (443, .domain (ascii "example.com") (by decide), 15)) :=
  ⟨by decide, address_parsers_agree.2 443 (.domain (ascii "example.com") (by decide)) [7, 7]
    (by decide)⟩

end Xhttp.Vless
