import RustXhttp.Encryption.Handshake
import RustXhttp.Lib.Exec
import RustXhttp.Lib.Text

/-!
# The decryption setting (`src/vless/encryption/config.rs`)

The setting is a text of parts with dots between them: the scheme, the mode, the lifetime of tickets
in seconds (`600s`, or a range `300-600s`), padding, and the seeds of the server's keys in Base64.
The validation of a configuration parses it and does nothing else with it. `create_ticket` later
draws a lifetime with `gen_range`, which panics on an empty range.

* `EncryptionConfig.parse`: the parser.
* `createTicket?`: `create_ticket` with its panic.
* `create_ticket_safe_iff`: which accepted settings give tickets as they say.
-/

namespace Xhttp.Encryption

inductive ConfigError where
  | scheme | mode | lifetime | key | paddingAfterKey
  deriving DecidableEq, Repr

/-! ## The parser -/

/-- The option or the error: `ok_or`. -/
def okOr {α : Type} (o : Option α) (e : ConfigError) : Except ConfigError α :=
  match o with
  | some a => .ok a
  | none => .error e

theorem okOr_eq_ok {α : Type} {o : Option α} {e : ConfigError} {a : α} (h : okOr o e = .ok a) :
    o = some a := by
  cases o with
  | none => cases h
  | some b => exact congrArg some (Except.ok.inj h)

def parseLifetime (value : Bytes) : Except ConfigError Nat := okOr (parseU16 value) .lifetime

def EncryptionMode.parse (part : Option Bytes) : Except ConfigError EncryptionMode :=
  if part = some (ascii "native") then .ok .native
  else if part = some (ascii "xorpub") then .ok .xorPublic
  else if part = some (ascii "random") then .ok .random
  else .error .mode

/-- The part of the lifetime, without its `s`. -/
def lifetimePart (value : Bytes) : Option Bytes :=
  ((value.splitOn 46)[2]?).bind (stripSuffix 115)

/-- `lifetime_from` and `lifetime_to`; the latter is `0` for a single value. -/
def parseLifetimes (lifetime : Bytes) : Except ConfigError (Nat × Nat) :=
  match splitOnce 45 lifetime with
  | some (lo, hi) => do
    let lifetimeFrom ← parseLifetime lo
    let lifetimeTo ← parseLifetime hi
    return (lifetimeFrom, lifetimeTo)
  | none => do
    let lifetimeFrom ← parseLifetime lifetime
    return (lifetimeFrom, 0)

section Parse

-- `URL_SAFE_NO_PAD.decode` of the `base64` crate
variable (decode : Bytes → Option Bytes)

/-- The loop over the parts behind the lifetime: padding, then keys. -/
def parseParts : List Bytes → List Bytes → List KeySeed →
    Except ConfigError (List Bytes × List KeySeed)
  | [], padding, keys => .ok (padding, keys)
  | part :: parts, padding, keys =>
    if part.length < 20 then
      if keys.isEmpty then parseParts parts (padding ++ [part]) keys else .error .paddingAfterKey
    else
      match decode part with
      | none => .error .key
      | some decoded =>
        if h : decoded.length = 32 then parseParts parts padding (keys ++ [.x25519 ⟨decoded, h⟩])
        else if h : decoded.length = 64 then
          parseParts parts padding (keys ++ [.mlKem768 ⟨decoded, h⟩])
        else .error .key

/-- The configuration, and the padding, which the server does not use. -/
def EncryptionConfig.parse (value : Bytes) : Except ConfigError (EncryptionConfig × Bytes) :=
  let parts := value.splitOn 46
  if parts.head? ≠ some (ascii "mlkem768x25519plus") then .error .scheme
  else do
    let mode ← EncryptionMode.parse parts[1]?
    let lifetime ← okOr (lifetimePart value) .lifetime
    let (lifetimeFrom, lifetimeTo) ← parseLifetimes lifetime
    let (padding, keys) ← parseParts decode (parts.drop 3) [] []
    if keys.isEmpty then .error .key
    else return (⟨mode, lifetimeFrom, lifetimeTo, keys⟩, List.intercalate [46] padding)

end Parse

/-- The setting gives a range of lifetimes. -/
def rangeGiven (value : Bytes) : Bool := ((lifetimePart value).bind (splitOnce 45)).isSome

/-! ## The draw of a lifetime -/

/-- `gen_range(lo..=hi)`; `none` is its panic on an empty range. -/
def Draws.genRange? (draws : Draws) (lo hi : Nat) : Option Nat :=
  if lo ≤ hi then some (draws.genRange lo hi) else none

/-- What is drawn from a range lies in it. -/
def Draws.InRange (draws : Draws) : Prop :=
  ∀ lo hi, lo ≤ hi → lo ≤ draws.genRange lo hi ∧ draws.genRange lo hi ≤ hi

theorem Draws.zero_inRange : Draws.zero.InRange := fun _ hi h => ⟨h, Nat.le_refl hi⟩

section Draw

variable (config : EncryptionConfig) (draws : Draws)

def EncryptionConfig.lifetime? : Option Nat :=
  if config.lifetimeTo ≠ 0 then draws.genRange? config.lifetimeFrom config.lifetimeTo
  else if config.lifetimeFrom ≠ 0 then draws.genRange? (config.lifetimeFrom / 2) config.lifetimeFrom
  else some 0

/-- `create_ticket`, unless the draw panics. -/
def createTicket? (pfsKey : ByteArr 64) : Option (Handshake (ByteArr 16 × Nat)) :=
  (config.lifetime? draws).map fun _ => createTicket config draws pfsKey

variable {config draws}

theorem lifetime?_eq {lifetime : Nat} (h : config.lifetime? draws = some lifetime) :
    config.lifetime draws = lifetime := by
  simp only [EncryptionConfig.lifetime?, Draws.genRange?] at h
  unfold EncryptionConfig.lifetime
  grind

/-- The draw panics exactly on a range that ends before it starts. -/
theorem lifetime?_eq_none : config.lifetime? draws = none ↔
    0 < config.lifetimeTo ∧ config.lifetimeTo < config.lifetimeFrom := by
  simp only [EncryptionConfig.lifetime?, Draws.genRange?]
  grind

/-- A lifetime from a range, and one from a single value or a range that ends at `0`. -/
theorem lifetime_bounds (hd : draws.InRange) {lifetime : Nat}
    (h : config.lifetime? draws = some lifetime) :
    (config.lifetimeTo ≠ 0 → config.lifetimeFrom ≤ lifetime ∧ lifetime ≤ config.lifetimeTo) ∧
    (config.lifetimeTo = 0 →
      config.lifetimeFrom / 2 ≤ lifetime ∧ lifetime ≤ config.lifetimeFrom) := by
  have hto := hd config.lifetimeFrom config.lifetimeTo
  have hfrom := hd (config.lifetimeFrom / 2) config.lifetimeFrom
  simp only [EncryptionConfig.lifetime?, Draws.genRange?] at h
  grind

/-- The connection after `create_ticket`: a ticket is stored if it has a lifetime. -/
def Connection.withTicket (c : Connection) (ticket : ByteArr 16) (pfsKey : ByteArr 64)
    (lifetime : Nat) : Connection :=
  { c with tickets :=
      if lifetime ≠ 0 then c.tickets.insert c.clock ticket pfsKey lifetime else c.tickets }

theorem exec_createTicket_stores (pfsKey : ByteArr 64) (c : Connection) :
    Prog.exec Connection.serve c (createTicket config draws pfsKey) =
      (.ok (newTicket (config.lifetime draws) draws, config.lifetime draws),
        c.withTicket (newTicket (config.lifetime draws) draws) pfsKey (config.lifetime draws)) := by
  simp only [createTicket, Connection.withTicket]
  split
  · rfl
  · rfl

end Draw

/-! ## Accepted settings -/

section Accepted

variable {decode : Bytes → Option Bytes} {value padding : Bytes} {config : EncryptionConfig}

/-- The lifetimes of an accepted setting are those of its third part. -/
theorem parse_lifetimes (h : EncryptionConfig.parse decode value = .ok (config, padding)) :
    ∃ lifetime, lifetimePart value = some lifetime ∧
      parseLifetimes lifetime = .ok (config.lifetimeFrom, config.lifetimeTo) := by
  simp only [EncryptionConfig.parse] at h
  split at h
  · cases h
  obtain ⟨mode, -, h⟩ := except_bind_ok.mp h
  obtain ⟨lifetime, hpart, h⟩ := except_bind_ok.mp h
  obtain ⟨⟨lo, hi⟩, hlife, h⟩ := except_bind_ok.mp h
  obtain ⟨⟨pads, keys⟩, -, h⟩ := except_bind_ok.mp h
  dsimp only at h
  split at h
  · cases h
  · cases h
    exact ⟨lifetime, okOr_eq_ok hpart, hlife⟩

/-- Without a range there is no second lifetime. -/
theorem lifetimeTo_of_single (h : EncryptionConfig.parse decode value = .ok (config, padding))
    (hr : rangeGiven value = false) : config.lifetimeTo = 0 := by
  obtain ⟨lifetime, hpart, hlife⟩ := parse_lifetimes h
  have hsplit : splitOnce 45 lifetime = none := by
    simpa [rangeGiven, hpart] using hr
  rw [parseLifetimes, hsplit] at hlife
  obtain ⟨n, -, hn⟩ := except_bind_ok.mp hlife
  exact (Prod.mk.inj (Except.ok.inj hn)).2.symm

end Accepted

/-- `create_ticket` does as the setting says: it does not panic, the lifetime lies in the range of
the setting, or between half of its single value and that value, and a ticket is stored exactly if
its lifetime is not zero. -/
def TicketAsConfigured (value : Bytes) (config : EncryptionConfig) (draws : Draws)
    (pfsKey : ByteArr 64) (c : Connection) : Prop :=
  ∃ prog ticket lifetime, createTicket? config draws pfsKey = some prog ∧
    Prog.exec Connection.serve c prog =
      (.ok (ticket, lifetime), c.withTicket ticket pfsKey lifetime) ∧
    if rangeGiven value then config.lifetimeFrom ≤ lifetime ∧ lifetime ≤ config.lifetimeTo
    else config.lifetimeFrom / 2 ≤ lifetime ∧ lifetime ≤ config.lifetimeFrom

/-- **Tickets of an accepted setting.** They are as configured for every draw, unless the setting
gives a range that ends before it starts. Then, if the range does not end at zero, every draw
panics. -/
theorem create_ticket_safe_iff (decode : Bytes → Option Bytes) (value padding : Bytes)
    (config : EncryptionConfig) (h : EncryptionConfig.parse decode value = .ok (config, padding))
    (pfsKey : ByteArr 64) (c : Connection) :
    ((∀ draws : Draws, draws.InRange → TicketAsConfigured value config draws pfsKey c) ↔
      ¬ (rangeGiven value = true ∧ config.lifetimeTo < config.lifetimeFrom)) ∧
    (∀ draws, createTicket? config draws pfsKey = none ↔
      rangeGiven value = true ∧ 0 < config.lifetimeTo ∧
        config.lifetimeTo < config.lifetimeFrom) := by
  have hrange : 0 < config.lifetimeTo → rangeGiven value = true := by
    intro hpos
    by_contra hr
    have := lifetimeTo_of_single h (eq_false_of_ne_true hr)
    omega
  refine ⟨⟨?_, ?_⟩, fun draws => ?_⟩
  · rintro hall ⟨hr, hlt⟩
    obtain ⟨prog, ticket, lifetime, -, -, hbounds⟩ := hall .zero Draws.zero_inRange
    rw [if_pos hr] at hbounds
    omega
  · intro hok draws hd
    rcases hlife : config.lifetime? draws with _ | lifetime
    · have hempty := lifetime?_eq_none.mp hlife
      exact absurd ⟨hrange hempty.1, hempty.2⟩ hok
    · obtain ⟨hto, hfrom⟩ := lifetime_bounds hd hlife
      refine ⟨createTicket config draws pfsKey, _, lifetime, by rw [createTicket?, hlife]; rfl,
        (lifetime?_eq hlife) ▸ exec_createTicket_stores pfsKey c, ?_⟩
      split
      case isTrue hr =>
        by_cases hzero : config.lifetimeTo = 0
        · -- the range `0-0`
          have hle : ¬ config.lifetimeTo < config.lifetimeFrom := fun hlt => hok ⟨hr, hlt⟩
          have := hfrom hzero
          omega
        · exact hto hzero
      case isFalse hr => exact hfrom (lifetimeTo_of_single h (eq_false_of_ne_true hr))
  · rw [createTicket?, Option.map_eq_none_iff, lifetime?_eq_none]
    exact ⟨fun hempty => ⟨hrange hempty.1, hempty⟩, And.right⟩

/-- The setting with the zero X25519 key and a lifetime. -/
def zeroSetting (lifetime : String) : Bytes :=
  ascii "mlkem768x25519plus.native." ++ ascii lifetime ++ ascii "." ++ List.replicate 43 65

/-- The text of that key; no other one is decoded. -/
def decodeZero (text : Bytes) : Option Bytes :=
  if text = List.replicate 43 65 then some (List.replicate 32 0) else none

/-- A range in the right order, and a draw of its end. -/
theorem create_ticket_safe_iff_range : ∃ config padding,
    EncryptionConfig.parse decodeZero (zeroSetting "300-600s") = .ok (config, padding) ∧
    ∀ c, TicketAsConfigured (zeroSetting "300-600s") config .zero (zeros 64) c := by
  refine ⟨⟨.native, 300, 600, [.x25519 (zeros 32)]⟩, [], by rfl, fun c => ?_⟩
  exact (create_ticket_safe_iff decodeZero _ [] _ (by rfl) (zeros 64) c).1.mpr (by decide) .zero
    Draws.zero_inRange

/-- `600-300s` is accepted, and the first ticket panics whatever is drawn. `300-0s` is accepted, and
its tickets live longer than its range says. -/
theorem reversed_range_accepted :
    (∃ config padding,
      EncryptionConfig.parse decodeZero (zeroSetting "600-300s") = .ok (config, padding) ∧
      ∀ draws pfsKey, createTicket? config draws pfsKey = none) ∧
    (∃ config padding,
      EncryptionConfig.parse decodeZero (zeroSetting "300-0s") = .ok (config, padding) ∧
      rangeGiven (zeroSetting "300-0s") = true ∧ config.lifetimeTo = 0 ∧
      config.lifetime? .zero = some 300) :=
  ⟨⟨⟨.native, 600, 300, [.x25519 (zeros 32)]⟩, [], by rfl, fun _ _ => rfl⟩,
    ⟨⟨.native, 300, 0, [.x25519 (zeros 32)]⟩, [], by rfl, by decide, rfl, rfl⟩⟩

end Xhttp.Encryption
