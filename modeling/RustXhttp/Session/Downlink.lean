import RustXhttp.Lib.Bytes

/-!
# The downlink (`src/session/downlink.rs`)

A bounded channel of chunks between the dispatcher of a session and the handler of its `GET`. `send`
waits while the channel is full and fails once the reader is gone; an empty chunk is not sent.
-/

namespace Xhttp.Session

structure Downlink where
  capacity : Nat
  queue : List Bytes
  /-- The `DownlinkReader` exists. -/
  reader : Bool
  deriving DecidableEq, Repr

namespace Downlink

/-- `channel`. -/
def new (capacity : Nat) : Downlink := ⟨max capacity 1, [], true⟩

/-- `DownlinkSink::send`; `none` while it waits. -/
def send (d : Downlink) (b : Bytes) : Option (Downlink × Except Unit Unit) :=
  if b = [] then some (d, .ok ())
  else if d.reader = false then some (d, .error ())
  else if d.queue.length < d.capacity then some ({ d with queue := d.queue ++ [b] }, .ok ())
  else none

/-- `DownlinkReader::recv`; `none` while it waits. -/
def recv (d : Downlink) : Option (Downlink × Bytes) :=
  match d.reader, d.queue with
  | true, b :: queue => some ({ d with queue }, b)
  | _, _ => none

/-- The reader is dropped, and with it what is in the channel. -/
def close (d : Downlink) : Downlink := { d with queue := [], reader := false }

variable {d d' : Downlink} {b : Bytes}

theorem send_cases {r : Except Unit Unit} (hb : b ≠ []) (h : d.send b = some (d', r)) :
    (d.reader = false ∧ d' = d ∧ r = .error ()) ∨
      (d.reader = true ∧ d' = { d with queue := d.queue ++ [b] } ∧ r = .ok ()) := by
  rw [send, if_neg hb] at h
  split at h
  case isTrue hr =>
    cases h
    exact .inl ⟨hr, rfl, rfl⟩
  case isFalse hr =>
    split at h
    · cases h
      exact .inr ⟨by simpa using hr, rfl, rfl⟩
    · cases h

theorem recv_cases (h : d.recv = some (d', b)) : d.reader = true ∧ d.queue = b :: d'.queue := by
  unfold recv at h
  split at h
  case h_1 hr hq =>
    cases h
    exact ⟨hr, hq⟩
  case h_2 => cases h

end Downlink

end Xhttp.Session
