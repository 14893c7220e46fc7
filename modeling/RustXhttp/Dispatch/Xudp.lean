import RustXhttp.Lib.Utf8

/-!
# XUDP frames (`src/xudp.rs`, `src/vless/address.rs`)

The data that a mux connection carries: a frame names an association by its session id, says
what is to be done with it (`status`), and has a target and a payload.

* `Frame.WellFormed`: the frames that `read_frame` returns. `WireFrame` is the type of them.
-/

namespace Xhttp.Xudp

/-- `Address`; a domain is a Rust `String`. -/
inductive Address where
  | ipv4 (octets : ByteArr 4)
  | ipv6 (octets : ByteArr 16)
  | domain (name : Bytes) (utf8 : validUtf8 name = true)
  deriving DecidableEq

structure Target where
  address : Address
  port : UInt16
  deriving DecidableEq

def statusNew : UInt8 := 1
def statusKeep : UInt8 := 2
def statusEnd : UInt8 := 3
def statusKeepAlive : UInt8 := 4
def optionData : UInt8 := 1

structure Frame where
  sessionId : UInt16
  status : UInt8
  option : UInt8
  target : Option Target
  globalId : Option (ByteArr 8)
  payload : Bytes
  deriving DecidableEq

/-- `AddrError`. -/
inductive AddrError where
  | underrun
  | unknownType (t : UInt8)
  | emptyDomain
  | badDomainUtf8
  deriving DecidableEq, Repr

/-- `XudpError`. -/
inductive FrameError where
  | io
  | metadataLength (n : Nat)
  | payloadLength (n : Nat)
  | status (s : UInt8)
  | network (n : UInt8)
  | address (e : AddrError)
  deriving DecidableEq, Repr

namespace Frame

variable (f : Frame)

/-- `frame.option & OPTION_DATA != 0`. -/
def hasData : Bool := f.option &&& optionData != 0

/-- The frames that make sense on the wire, with a target and a payload of any length: `read_frame`
knows four statuses, reads a target for each NEW and for a KEEP that has one, a global id for a NEW
with data, and a payload if there is data. -/
structure Sendable : Prop where
  status : f.status ∈ [statusNew, statusKeep, statusEnd, statusKeepAlive]
  targetNew : f.status = statusNew → f.target.isSome
  targetOnly : f.target.isSome → f.status ∈ [statusNew, statusKeep]
  globalId : f.globalId.isSome → f.status = statusNew ∧ f.hasData
  payload : f.hasData = false → f.payload = []

/-- The frames of the wire. -/
structure WellFormed : Prop extends Sendable f where
  payloadLen : f.payload.length < 65536

instance : Decidable f.WellFormed :=
  decidable_of_iff
    (f.status ∈ [statusNew, statusKeep, statusEnd, statusKeepAlive] ∧
      (f.status = statusNew → f.target.isSome) ∧
      (f.target.isSome → f.status ∈ [statusNew, statusKeep]) ∧
      (f.globalId.isSome → f.status = statusNew ∧ f.hasData) ∧
      (f.hasData = false → f.payload = []) ∧ f.payload.length < 65536)
    ⟨fun ⟨h₁, h₂, h₃, h₄, h₅, h₆⟩ => ⟨⟨h₁, h₂, h₃, h₄, h₅⟩, h₆⟩,
      fun ⟨⟨h₁, h₂, h₃, h₄, h₅⟩, h₆⟩ => ⟨h₁, h₂, h₃, h₄, h₅, h₆⟩⟩

end Frame

/-- What `read_frame` returns. -/
abbrev WireFrame := { f : Frame // f.WellFormed }

end Xhttp.Xudp
