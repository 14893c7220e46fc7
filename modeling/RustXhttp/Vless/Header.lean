import RustXhttp.Vless.Address
import RustXhttp.Vless.Grammar

/-!
# Request headers (`src/vless/header.rs`, `src/vless/validator.rs`)

A request starts with a version, the id of a user, addons with their length, a command, and, for
TCP and UDP, a port and an address. The user is looked up under the id with its bytes 6 and 7
zeroed, which carry a route.

* `Validator`: the table of users; each user is stored under their own id.
* `decodeRequestHeaderShared turns`: the decoder, where the loop over the addons makes at most
  `turns` turns.
* `decodeAddons_encode`: the addons that `encode_addons` writes are decoded after three turns.
* `request_header_exact`: the decoder reads exactly the headers of the grammar, and nothing behind
  them.
-/

namespace Xhttp.Vless

open List
open Exec (returns_bind returns_ofExcept returns_pure)
open Xudp (Address)
open AsyncRead Protobuf

/-! ## Users -/

structure User where
  id : ByteArr 16
  email : Str
  flow : Str
  deriving DecidableEq

/-- Zero the bytes 6 and 7. -/
def processUuid (id : ByteArr 16) : ByteArr 16 :=
  ⟨(id.val.set 6 0).set 7 0, by simp [id.property]⟩

structure Validator where
  byId : ByteArr 16 → Option User
  keyed : ∀ key user, byId key = some user → user.id = key

namespace Validator

def empty : Validator := ⟨fun _ => none, nofun⟩

/-- One turn of the loop of `new`. -/
def insert (v : Validator) (u : User) : Validator where
  byId key := if key = processUuid u.id then some { u with id := processUuid u.id } else v.byId key
  keyed key user h := by
    by_cases hkey : key = processUuid u.id
    · rw [if_pos hkey] at h
      cases h
      exact hkey.symm
    · rw [if_neg hkey] at h
      exact v.keyed key user h

/-- `new`, which is also what `replace` stores. -/
def new (users : List User) : Validator := users.foldl insert empty

/-- The table that is stored in the place of `_v`. -/
def replace (_v : Validator) (users : List User) : Validator := users.foldl insert empty

/-- The lookup, with the comparison in constant time. -/
def getShared (v : Validator) (rawId : ByteArr 16) : Option User :=
  match v.byId (processUuid rawId) with
  | none => none
  | some candidate => if candidate.id = processUuid rawId then some candidate else none

/-- The comparison never fails. -/
theorem getShared_eq (v : Validator) (rawId : ByteArr 16) :
    v.getShared rawId = v.byId (processUuid rawId) := by
  unfold getShared
  cases h : v.byId (processUuid rawId) with
  | none => rfl
  | some candidate => exact if_pos (v.keyed _ _ h)

theorem byId_foldl_insert (users : List User) (v : Validator) (key : ByteArr 16) :
    (users.foldl insert v).byId key =
      ((users.reverse.find? (processUuid ·.id = key)).map ({ · with id := key })).or
        (v.byId key) := by
  induction users generalizing v with
  | nil => rfl
  | cons u users ih =>
    rw [foldl_cons, ih, reverse_cons, find?_append, insert]
    cases users.reverse.find? (processUuid ·.id = key) with
    | some found => rfl
    | none =>
      by_cases hkey : key = processUuid u.id
      · subst hkey
        simp
      · simp [if_neg hkey, Ne.symm hkey]

/-- The last of the users with an id is the one that counts. -/
theorem byId_new (users : List User) (key : ByteArr 16) :
    (new users).byId key =
      (users.reverse.find? (processUuid ·.id = key)).map ({ · with id := key }) := by
  rw [new, byId_foldl_insert]
  exact Option.or_none

end Validator

/-! ## The addons on the wire -/

def writeVarint (v : Nat) : Bytes :=
  let b := UInt8.ofNat (v % 128)
  if v / 128 ≠ 0 then (b ||| 0x80) :: writeVarint (v / 128) else [b]

/-- The fields of a message with the flow. -/
def encodeBody (addons : Addons) : Bytes :=
  ((1 : UInt8) <<< 3 ||| 2) :: (writeVarint addons.flow.val.length ++ addons.flow.val) ++
    if addons.seed = [] then []
    else ((2 : UInt8) <<< 3 ||| 2) :: (writeVarint addons.seed.length ++ addons.seed)

/-- The body with its length, or a zero if the flow is not that of Vision. -/
def encodeAddons (addons : Addons) : Except AddonsError Bytes :=
  if addons.flow.val ≠ xrv then .ok [0]
  else if (encodeBody addons).length > 255 then .error (.tooLong (encodeBody addons).length)
  else .ok (UInt8.ofNat (encodeBody addons).length :: encodeBody addons)

/-! ## The decoder -/

inductive Command where
  | tcp
  | udp
  | mux
  | reverse
  deriving DecidableEq, Repr

def Command.fromByte (b : UInt8) : Option Command :=
  if b = 0x01 then some .tcp
  else if b = 0x02 then some .udp
  else if b = 0x03 then some .mux
  else if b = 0x04 then some .reverse
  else none

structure RequestHeader where
  version : UInt8
  rawId : ByteArr 16
  command : Command
  address : Option Address
  port : UInt16
  deriving DecidableEq

def version : UInt8 := 0

/-- `decode_addons_body(&body)?`; it does not return if the loop panics or makes more turns. -/
def decodeBody (turns : Nat) (body : Bytes) : Exec HeaderError Addons :=
  match decodeAddonsBody turns body with
  | some (.returned r) => Exec.ofExcept (r.mapError .addons)
  | some .panicked | none => Exec.orPanic none

def readAddons (turns : Nat) (w : Bytes) : Exec HeaderError (Addons × Bytes) := do
  let (addonsLen, w) ← Exec.ofExcept (readU8 .io w)
  if addonsLen.toNat ≠ 0 then
    let (body, w) ← Exec.ofExcept (readExact .io addonsLen.toNat w)
    let addons ← decodeBody turns body
    return (addons, w)
  else return (.default, w)

def readCommand (w : Bytes) : Exec HeaderError (Command × Bytes) := do
  let (cmdByte, w) ← Exec.ofExcept (readU8 .io w)
  let command ← Exec.okOr (some (Command.fromByte cmdByte)) (.badCommand cmdByte)
  failIf (command = .reverse) .reverseUnsupported
  return (command, w)

/-- The address and the port of the command. -/
def readDestination (command : Command) (w : Bytes) :
    Exec HeaderError ((Option Address × UInt16) × Bytes) :=
  match command with
  | .tcp | .udp => do
    let ((port, addr), w) ← Exec.ofExcept (readAddressPort w)
    return ((some addr, port), w)
  | .mux | .reverse => return ((none, 0), w)

def decodeRequestHeaderShared (turns : Nat) (validator : Validator) (w : Bytes) :
    Exec HeaderError ((User × RequestHeader × Addons) × Bytes) := do
  let (v, w) ← Exec.ofExcept (readU8 .io w)
  failIf (v ≠ version) (.badVersion v)
  let (rawId, w) ← Exec.ofExcept (readArr .io 16 w)
  let user ← Exec.okOr (some (validator.getShared rawId)) .authFailed
  let (addons, w) ← readAddons turns w
  let (command, w) ← readCommand w
  let ((address, port), w) ← readDestination command w
  return ((user, ⟨v, rawId, command, address, port⟩, addons), w)

/-! ## Addons that are written are read -/

theorem toNat_ofNat_lt {n : Nat} (h : n < 128) : (UInt8.ofNat n).toNat = n :=
  UInt8.toNat_ofNat_of_lt' (Nat.lt_trans h (by decide))

theorem toNat_or_80 {n : Nat} (h : n < 128) : (UInt8.ofNat n ||| 0x80).toNat = n + 128 := by
  have hor : ∀ n : Fin 128, n.val ||| 128 = n.val + 128 := by decide +kernel
  rw [UInt8.toNat_or, toNat_ofNat_lt h]
  exact hor ⟨n, h⟩

theorem writeVarint_of_lt {v : Nat} (h : v < 128) : writeVarint v = [UInt8.ofNat v] := by
  rw [writeVarint, if_neg (by omega), Nat.mod_eq_of_lt h]

theorem writeVarint_of_le {v : Nat} (h : 128 ≤ v) :
    writeVarint v = (UInt8.ofNat (v % 128) ||| 0x80) :: writeVarint (v / 128) := by
  rw [writeVarint, if_pos (by omega)]

theorem delimited_writeVarint (v : Nat) : delimited (writeVarint v) = true := by
  induction v using Nat.strongRecOn with
  | ind v ih =>
    by_cases hv : v < 128
    · rw [writeVarint_of_lt hv]
      have : UInt8.ofNat v < 128 := by
        rw [UInt8.lt_iff_toNat_lt, toNat_ofNat_lt hv]
        exact hv
      exact delimited_cons.mpr (.inl ⟨this, rfl⟩)
    · rw [writeVarint_of_le (by omega)]
      refine delimited_cons.mpr (.inr ⟨?_, ih (v / 128) (by omega)⟩)
      rw [UInt8.le_iff_toNat_le, toNat_or_80 (by omega)]
      exact Nat.le_add_left 128 _

theorem varintValue_writeVarint (v : Nat) : varintValue (writeVarint v) = v := by
  induction v using Nat.strongRecOn with
  | ind v ih =>
    by_cases hv : v < 128
    · rw [writeVarint_of_lt hv, varintValue, varintValue, toNat_ofNat_lt hv]
      omega
    · rw [writeVarint_of_le (by omega), varintValue, ih (v / 128) (by omega),
        toNat_or_80 (by omega)]
      omega

/-- Seven bits go into each byte. -/
theorem length_writeVarint {k v : Nat} (h : v < 128 ^ (k + 1)) :
    (writeVarint v).length ≤ k + 1 := by
  induction k generalizing v with
  | zero =>
    rw [writeVarint_of_lt (by omega)]
    exact Nat.le_refl 1
  | succ k ih =>
    by_cases hv : v < 128
    · rw [writeVarint_of_lt hv]
      exact Nat.le_add_left 1 _
    · rw [writeVarint_of_le (by omega), length_cons]
      refine Nat.succ_le_succ (ih (Nat.div_lt_of_lt_mul ?_))
      rw [← Nat.pow_succ']
      exact h

theorem isVarint_writeVarint {v : Nat} (h : v < 2 ^ 64) : IsVarint (writeVarint v) v :=
  ⟨delimited_writeVarint v, length_writeVarint (Nat.lt_of_lt_of_le h (by decide)),
    varintValue_writeVarint v, h⟩

/-- A length-delimited field with a tag of one byte. -/
def bytesField (number : Nat) (content : Bytes) : Field :=
  ⟨number, [UInt8.ofNat (number * 8 + 2)], .bytes (writeVarint content.length) content⟩

theorem bytesField_wellFormed {number : Nat} {content : Bytes} (hpos : 0 < number)
    (hnumber : number < 15) (hlen : content.length < 2 ^ 64) :
    (bytesField number content).WellFormed where
  positive := hpos
  number := show number < 2 ^ 29 by omega
  tag := by
    have htag := isVarint_writeVarint (show number * 8 + 2 < 2 ^ 64 by omega)
    rw [writeVarint_of_lt (by omega)] at htag
    exact htag
  value := isVarint_writeVarint hlen

/-- The fields that are written. -/
def addonsFields (addons : Addons) : List Field :=
  bytesField 1 addons.flow.val ::
    if addons.seed = [] then [] else [bytesField 2 addons.seed]

section

variable {addons : Addons}

theorem encodeFields_addonsFields : encodeFields (addonsFields addons) = encodeBody addons := by
  unfold encodeFields addonsFields encodeBody
  by_cases hs : addons.seed = []
  · simp only [if_pos hs, flatMap_cons, flatMap_nil]
    rfl
  · simp only [if_neg hs, flatMap_cons, flatMap_nil, append_nil]
    rfl

variable {f : Field} {turns : Nat} {rest w : Bytes}

theorem mem_addonsFields (h : f ∈ addonsFields addons) :
    f = bytesField 1 addons.flow.val ∨ f = bytesField 2 addons.seed ∧ addons.seed ≠ [] := by
  rcases mem_cons.mp h with rfl | h
  · exact .inl rfl
  · by_cases hs : addons.seed = []
    · rw [if_pos hs] at h
      cases h
    · rw [if_neg hs] at h
      exact .inr ⟨mem_singleton.mp h, hs⟩

theorem isAddonsField_addonsFields (hlen : (encodeBody addons).length ≤ 255)
    (h : f ∈ addonsFields addons) : IsAddonsField f := by
  rcases mem_addonsFields h with rfl | ⟨rfl, hs⟩
  · have hflow : addons.flow.val.length < 2 ^ 64 := by
      simp only [encodeBody, length_append, length_cons] at hlen
      omega
    exact ⟨bytesField_wellFormed (by decide) (by decide) hflow,
      fun _ => ⟨_, _, rfl, addons.flow.property⟩, nofun⟩
  · have hseed : addons.seed.length < 2 ^ 64 := by
      simp only [encodeBody, if_neg hs, length_append, length_cons] at hlen
      omega
    exact ⟨bytesField_wellFormed (by decide) (by decide) hseed, nofun, fun _ => ⟨_, _, rfl⟩⟩

theorem foldl_store_addonsFields : (addonsFields addons).foldl store .default = addons := by
  have hfirst : store .default (bytesField 1 addons.flow.val) = ⟨addons.flow, []⟩ := by
    simp only [store, bytesField, if_true, dif_pos addons.flow.property]
    rfl
  rw [addonsFields, foldl_cons, hfirst]
  by_cases hs : addons.seed = []
  · rw [if_pos hs, ← hs]
    rfl
  · rw [if_neg hs]
    rfl

/-- The addons that `encode_addons` writes are decoded after three turns. -/
theorem decodeAddons_encode (hlen : (encodeBody addons).length ≤ 255) (hturns : 3 ≤ turns) :
    decodeAddonsBody turns (encodeBody addons) = some (.returned (.ok addons)) := by
  have htags : ∀ f ∈ addonsFields addons, f.tag.length = 1 := by
    intro f hf
    rcases mem_addonsFields hf with rfl | ⟨rfl, _⟩ <;> rfl
  have hfixed : (addonsFields addons).any isFixed = false := by
    rw [any_eq_false]
    intro f hf
    rcases mem_addonsFields hf with rfl | ⟨rfl, _⟩ <;> exact Bool.false_ne_true
  have hcount : (addonsFields addons).length ≤ 2 := by
    unfold addonsFields
    split
    · exact Nat.le_succ 1
    · exact Nat.le_refl 2
  have hread : ∀ f ∈ addonsFields addons, IsRead f := fun f hf =>
    (isAddonsField_addonsFields hlen hf).isRead (htags f hf)
  have hdec := decode_message (encodeFields_addonsFields ▸ hlen) hread
    (Nat.lt_of_le_of_lt hcount hturns)
  rwa [hfixed, if_neg Bool.false_ne_true, foldl_store_addonsFields,
    encodeFields_addonsFields] at hdec

theorem decodeBody_returns {body : Bytes} :
    (decodeBody turns body).Returns addons ↔
      decodeAddonsBody turns body = some (.returned (.ok addons)) := by
  unfold decodeBody
  rcases decodeAddonsBody turns body with _ | _ | e | a
  · exact ⟨nofun, nofun⟩
  · exact ⟨nofun, nofun⟩
  · exact ⟨nofun, nofun⟩
  · refine returns_ofExcept.trans ⟨fun h => ?_, fun h => ?_⟩ <;> cases h <;> rfl

theorem readAddons_encode {e : Bytes} (h : encodeAddons addons = .ok e) (hturns : 3 ≤ turns)
    (rest : Bytes) :
    (readAddons turns (e ++ rest)).Returns
      (if addons.flow.val = xrv then addons else .default, rest) := by
  unfold encodeAddons at h
  by_cases hflow : addons.flow.val = xrv
  · rw [if_neg (Classical.not_not.mpr hflow)] at h
    by_cases hlen : (encodeBody addons).length > 255
    · rw [if_pos hlen] at h
      cases h
    rw [if_neg hlen] at h
    cases h
    have hbyte : (UInt8.ofNat (encodeBody addons).length).toNat = (encodeBody addons).length :=
      UInt8.toNat_ofNat_of_lt' (show _ < 256 by omega)
    rw [if_pos hflow]
    refine returns_bind.mpr ⟨(_, encodeBody addons ++ rest), rfl, ?_⟩
    simp only [hbyte]
    rw [if_pos (by simp [encodeBody])]
    refine returns_bind.mpr ⟨_, returns_ofExcept.mpr (readExact_append rfl rest), ?_⟩
    exact returns_bind.mpr ⟨addons, decodeBody_returns.mpr
      (decodeAddons_encode (Nat.le_of_not_lt hlen) hturns), returns_pure.mpr rfl⟩
  · rw [if_pos hflow] at h
    cases h
    rw [if_neg hflow]
    rfl

/-- What the body of the addons is read as; an empty one is not decoded. -/
def ReadsAs (turns : Nat) (body : Bytes) (addons : Addons) : Prop :=
  if body = [] then addons = .default else (decodeBody turns body).Returns addons

theorem readAddons_iff :
    (readAddons turns w).Returns (addons, rest) ↔
      ∃ body : Bytes, body.length ≤ 255 ∧ ReadsAs turns body addons ∧
        w = UInt8.ofNat body.length :: body ++ rest := by
  constructor
  · intro h
    obtain ⟨⟨len, w'⟩, hlen, h⟩ := returns_bind.mp h
    dsimp only at h
    rw [readU8_ok (returns_ofExcept.mp hlen)]
    have hlt := len.toNat_lt
    by_cases h0 : len.toNat ≠ 0
    · rw [if_pos h0] at h
      obtain ⟨⟨body, w''⟩, hbody, h⟩ := returns_bind.mp h
      obtain ⟨a, ha, h⟩ := returns_bind.mp h
      cases returns_pure.mp h
      obtain ⟨rfl, hl⟩ := readExact_ok (returns_ofExcept.mp hbody)
      have hne : body ≠ [] := by
        rintro rfl
        exact h0 hl.symm
      refine ⟨body, by omega, by rwa [ReadsAs, if_neg hne], ?_⟩
      rw [hl, UInt8.ofNat_toNat]
      rfl
    · rw [if_neg h0] at h
      cases returns_pure.mp h
      obtain rfl : len = 0 := UInt8.toNat_inj.mp (Classical.not_not.mp h0)
      exact ⟨[], Nat.zero_le _, rfl, rfl⟩
  · rintro ⟨body, hlen, hbody, rfl⟩
    refine returns_bind.mpr ⟨(_, body ++ rest), rfl, ?_⟩
    simp only [UInt8.toNat_ofNat_of_lt' (show body.length < 256 by omega)]
    unfold ReadsAs at hbody
    by_cases hne : body = []
    · rw [if_pos hne] at hbody
      subst hne hbody
      rfl
    · rw [if_neg hne] at hbody
      rw [if_pos (fun h => hne (length_eq_zero_iff.mp h))]
      refine returns_bind.mpr ⟨_, returns_ofExcept.mpr (readExact_append rfl rest), ?_⟩
      exact returns_bind.mpr ⟨addons, hbody, returns_pure.mpr rfl⟩

end

/-! ## Commands and their destinations -/

/-- What is asked for. -/
inductive Request where
  | tcp (port : UInt16) (addr : Address)
  | udp (port : UInt16) (addr : Address)
  | mux

namespace Request

def command : Request → Command
  | .tcp _ _ => .tcp
  | .udp _ _ => .udp
  | .mux => .mux

def address : Request → Option Address
  | .tcp _ addr | .udp _ addr => some addr
  | .mux => none

def port : Request → UInt16
  | .tcp port _ | .udp port _ => port
  | .mux => 0

def encode : Request → Bytes
  | .tcp port addr => 0x01 :: writePortThenAddress port addr
  | .udp port addr => 0x02 :: writePortThenAddress port addr
  | .mux => [0x03]

/-- A domain has 1 to 255 bytes. -/
def Encodable (r : Request) : Prop := ∀ addr, r.address = some addr → Writable addr

variable {r : Request}

/-- The request is read, and nothing behind it. -/
theorem read_encode (h : r.Encodable) (rest : Bytes) : ∃ w,
    (readCommand (r.encode ++ rest)).Returns (r.command, w) ∧
    (readDestination r.command w).Returns ((r.address, r.port), rest) := by
  have hdest : ∀ port addr, Writable addr →
      (readDestination .tcp (writePortThenAddress port addr ++ rest)).Returns
        ((some addr, port), rest) := by
    intro port addr hw
    exact returns_bind.mpr
      ⟨_, returns_ofExcept.mpr (readAddressPort_write port hw rest), returns_pure.mpr rfl⟩
  cases r with
  | tcp port addr | udp port addr => exact ⟨_, rfl, hdest port addr (h addr rfl)⟩
  | mux => exact ⟨_, rfl, rfl⟩

theorem fromByte_ok {b : UInt8} {c : Command} (h : Command.fromByte b = some c)
    (hc : c ≠ .reverse) :
    (b = 0x01 ∧ c = .tcp) ∨ (b = 0x02 ∧ c = .udp) ∨ (b = 0x03 ∧ c = .mux) := by
  unfold Command.fromByte at h
  grind

/-- Only requests are read. -/
theorem read_ok {w w' rest : Bytes} {c : Command} {address : Option Address} {port : UInt16}
    (hc : (readCommand w).Returns (c, w'))
    (hd : (readDestination c w').Returns ((address, port), rest)) :
    ∃ r : Request, r.Encodable ∧ w = r.encode ++ rest ∧ c = r.command ∧ address = r.address ∧
      port = r.port := by
  obtain ⟨⟨b, w₁⟩, hb, hc⟩ := returns_bind.mp hc
  obtain ⟨c', hbyte, hc⟩ := returns_bind.mp hc
  obtain ⟨_, hrev, hc⟩ := returns_bind.mp hc
  cases returns_pure.mp hc
  have hbyte := Option.some.inj (Exec.returns_okOr.mp hbyte)
  rw [readU8_ok (returns_ofExcept.mp hb)]
  have hdest : ∀ c, (c = .tcp ∨ c = .udp) →
      (readDestination c w').Returns ((address, port), rest) →
      ∃ addr, address = some addr ∧ Writable addr ∧
        w' = writePortThenAddress port addr ++ rest := by
    rintro c (rfl | rfl) hd
    all_goals
      obtain ⟨⟨⟨p, addr⟩, w₂⟩, hread, hd⟩ := returns_bind.mp hd
      cases returns_pure.mp hd
      exact ⟨addr, rfl, readAddressPort_ok (returns_ofExcept.mp hread)⟩
  rcases fromByte_ok hbyte (Exec.returns_failIf.mp hrev) with ⟨rfl, rfl⟩ | ⟨rfl, rfl⟩ | ⟨rfl, rfl⟩
  · obtain ⟨addr, rfl, hw, rfl⟩ := hdest .tcp (.inl rfl) hd
    exact ⟨.tcp port addr, by rintro _ ⟨⟩; exact hw, rfl, rfl, rfl, rfl⟩
  · obtain ⟨addr, rfl, hw, rfl⟩ := hdest .udp (.inr rfl) hd
    exact ⟨.udp port addr, by rintro _ ⟨⟩; exact hw, rfl, rfl, rfl, rfl⟩
  · cases returns_pure.mp hd
    exact ⟨.mux, nofun, rfl, rfl, rfl, rfl⟩

end Request

/-- The header of a request. -/
def Request.header (r : Request) (id : ByteArr 16) : RequestHeader :=
  ⟨version, id, r.command, r.address, r.port⟩

/-- The decoder takes exactly the headers of the grammar, whatever their addons. -/
theorem decodeRequestHeaderShared_iff {turns : Nat} {v : Validator} {w rest : Bytes} {user : User}
    {header : RequestHeader} {addons : Addons} :
    (decodeRequestHeaderShared turns v w).Returns ((user, header, addons), rest) ↔
      ∃ (id : ByteArr 16) (body : Bytes) (r : Request),
        w = version :: (id.val ++ (UInt8.ofNat body.length :: body ++ (r.encode ++ rest))) ∧
        body.length ≤ 255 ∧ ReadsAs turns body addons ∧ r.Encodable ∧
        v.byId (processUuid id) = some user ∧ header = r.header id := by
  constructor
  · intro h
    obtain ⟨⟨ver, w₁⟩, hver, h⟩ := returns_bind.mp h
    obtain ⟨_, hv, h⟩ := returns_bind.mp h
    obtain ⟨⟨id, w₂⟩, hid, h⟩ := returns_bind.mp h
    obtain ⟨u, hu, h⟩ := returns_bind.mp h
    obtain ⟨⟨a, w₃⟩, ha, h⟩ := returns_bind.mp h
    obtain ⟨⟨c, w₄⟩, hc, h⟩ := returns_bind.mp h
    obtain ⟨⟨⟨address, port⟩, w₅⟩, hd, h⟩ := returns_bind.mp h
    cases returns_pure.mp h
    cases Classical.not_not.mp (Exec.returns_failIf.mp hv)
    have hu := Option.some.inj (Exec.returns_okOr.mp hu)
    rw [v.getShared_eq] at hu
    obtain ⟨body, hlen, hbody, rfl⟩ := readAddons_iff.mp ha
    obtain ⟨r, hr, rfl, rfl, rfl, rfl⟩ := Request.read_ok hc hd
    refine ⟨id, body, r, ?_, hlen, hbody, hr, hu, rfl⟩
    rw [readU8_ok (returns_ofExcept.mp hver), readArr_ok (returns_ofExcept.mp hid)]
  · rintro ⟨id, body, r, rfl, hlen, hbody, hr, hu, rfl⟩
    obtain ⟨w, hcommand, hdest⟩ := Request.read_encode hr rest
    rw [← v.getShared_eq] at hu
    refine returns_bind.mpr ⟨(version, _), rfl, ?_⟩
    refine returns_bind.mpr ⟨(), Exec.returns_failIf.mpr (Classical.not_not.mpr rfl), ?_⟩
    refine returns_bind.mpr ⟨_, returns_ofExcept.mpr (readArr_append id _), ?_⟩
    refine returns_bind.mpr ⟨user, Exec.returns_okOr.mpr (congrArg some hu), ?_⟩
    refine returns_bind.mpr ⟨_, readAddons_iff.mpr ⟨body, hlen, hbody, rfl⟩, ?_⟩
    refine returns_bind.mpr ⟨_, hcommand, ?_⟩
    exact returns_bind.mpr ⟨_, hdest, returns_pure.mpr rfl⟩

/-- **Exactness.** A version 0, the id of a registered user with any bytes 6 and 7, addons that
`encode_addons` writes, and a request are read as these, with everything behind them unread.
Conversely, what is read consists of these parts, with a body of addons of any kind. -/
theorem request_header_exact (v : Validator) :
    (∀ (turns : Nat) (id : ByteArr 16) (user : User) (a : Addons) (e : Bytes) (r : Request)
        (payload : Bytes), 3 ≤ turns → v.byId (processUuid id) = some user →
        encodeAddons a = .ok e → r.Encodable →
      (decodeRequestHeaderShared turns v
        (version :: (id.val ++ (e ++ (r.encode ++ payload))))).Returns
        ((user, r.header id, if a.flow.val = xrv then a else .default), payload)) ∧
    ∀ turns w user header addons rest,
      (decodeRequestHeaderShared turns v w).Returns ((user, header, addons), rest) →
      ∃ (id : ByteArr 16) (body : Bytes) (r : Request), body.length ≤ 255 ∧ r.Encodable ∧
        w = version :: (id.val ++ (UInt8.ofNat body.length :: body ++ (r.encode ++ rest))) ∧
        v.byId (processUuid id) = some user ∧ header = r.header id := by
  constructor
  · intro turns id user a e r payload hturns huser he hr
    obtain ⟨body, hlen, hbody, he⟩ :=
      readAddons_iff.mp (readAddons_encode he hturns (r.encode ++ payload))
    rw [he]
    exact decodeRequestHeaderShared_iff.mpr ⟨id, body, r, rfl, hlen, hbody, hr, huser, rfl⟩
  · intro turns w user header addons rest h
    obtain ⟨id, body, r, hw, hlen, -, hr, hu, hheader⟩ := decodeRequestHeaderShared_iff.mp h
    exact ⟨id, body, r, hlen, hr, hw, hu, hheader⟩

/-- One user, a client with a route of theirs, and addons with a seed. -/
def sampleUser : User := ⟨⟨[1, 2, 3, 4, 5, 6, 0, 0, 9, 10, 11, 12, 13, 14, 15, 16], rfl⟩,
  ⟨ascii "a@b", by decide⟩, ⟨xrv, by decide⟩⟩

def sampleId : ByteArr 16 := ⟨[1, 2, 3, 4, 5, 6, 0xAA, 0xBB, 9, 10, 11, 12, 13, 14, 15, 16], rfl⟩

def sampleAddons : Addons := ⟨⟨xrv, by decide⟩, [7]⟩

def sampleRequest : Request := .tcp 443 (.domain (ascii "example.com") (by decide))

theorem request_header_exact_sample :
    (decodeRequestHeaderShared 3 (.new [sampleUser])
      (version :: (sampleId.val ++ ((21 :: ([0x0a, 16] ++ xrv ++ [0x12, 1, 7])) ++
        (sampleRequest.encode ++ ascii "hi"))))).Returns
      ((sampleUser, sampleRequest.header sampleId, sampleAddons), ascii "hi") := by
  have hbody : encodeBody sampleAddons = [0x0a, 16] ++ xrv ++ [0x12, 1, 7] := by
    rw [encodeBody, writeVarint_of_lt (by decide), writeVarint_of_lt (by decide)]
    rfl
  refine (request_header_exact (.new [sampleUser])).1 3 sampleId sampleUser sampleAddons _
    sampleRequest (ascii "hi") (Nat.le_refl 3) rfl ?_ ?_
  · rw [encodeAddons, hbody]
    rfl
  · rintro addr ⟨⟩
    decide

end Xhttp.Vless
