import RustXhttp.Tls.ClientHello

/-!
# Reassembly of the ClientHello (`src/tls/client_hello.rs`)

`ClientHelloRecordBuffer` collects the bodies of handshake records until they hold one message.

- `appendRecord_ok`: a record within the limit appends its body; any other leaves the buffer as it
  is (`appendRecord_error`).
- `appendRecords_inv`: the payload is the concatenation of the bodies appended so far.
- `tryMessage_fragment`: what a buffer that holds the first bytes of a message answers.
-/

namespace Xhttp.Tls

open List

def tlsRecordHandshake : UInt8 := 0x16

inductive ClientHelloBufferError where
  | truncatedRecord | notHandshakeRecord | trailingRecordBytes | notClientHello | payloadTooLarge
  | trailingHandshakeBytes
  deriving DecidableEq, Repr

structure ClientHelloRecordBuffer where
  payload : Bytes
  maxPayload : Nat
  deriving DecidableEq, Repr

/-- The body of a handshake record, as `append_record` checks it. -/
def recordBody : Bytes → Except ClientHelloBufferError Bytes
  | recordType :: _ :: _ :: a :: b :: rest =>
    if recordType ≠ tlsRecordHandshake then .error .notHandshakeRecord
    else if rest.length < ofBe16 a b then .error .truncatedRecord
    else if rest.length ≠ ofBe16 a b then .error .trailingRecordBytes
    else .ok (rest.take (ofBe16 a b))
  | _ => .error .truncatedRecord

namespace ClientHelloRecordBuffer

def new (maxPayload : Nat) : ClientHelloRecordBuffer := ⟨[], maxPayload⟩

def default : ClientHelloRecordBuffer := new 65536

def tryMessage (buffer : ClientHelloRecordBuffer) : Except ClientHelloBufferError (Option Bytes) :=
  match buffer.payload with
  | msgType :: a :: b :: c :: _ =>
    if msgType ≠ handshakeTypeClientHello then .error .notClientHello
    else
      let total := 4 + ofBe24 a b c
      if buffer.maxPayload < total then .error .payloadTooLarge
      else if buffer.payload.length < total then .ok none
      else if buffer.payload.length ≠ total then .error .trailingHandshakeBytes
      else .ok (some buffer.payload)
  | _ => .ok none

def appendRecord (buffer : ClientHelloRecordBuffer) (record : Bytes) :
    Except ClientHelloBufferError (Option Bytes) × ClientHelloRecordBuffer :=
  match recordBody record with
  | .error e => (.error e, buffer)
  | .ok body =>
    if buffer.maxPayload < buffer.payload.length + body.length then
      (.error .payloadTooLarge, buffer)
    else
      let buffer := { buffer with payload := buffer.payload ++ body }
      (buffer.tryMessage, buffer)

/-- The buffer after a sequence of records, whatever it answered to them. -/
def appendRecords (buffer : ClientHelloRecordBuffer) (records : List Bytes) :
    ClientHelloRecordBuffer :=
  records.foldl (fun buffer record => (buffer.appendRecord record).2) buffer

end ClientHelloRecordBuffer

/-! ## Records -/

/-- A ClientHello message: its type, and its length in the three bytes after it. -/
def IsClientHello (m : Bytes) : Prop :=
  ∃ a b c rest, m = handshakeTypeClientHello :: a :: b :: c :: rest ∧ ofBe24 a b c = rest.length

/-- A handshake record with part of a message as its body. -/
structure Fragment where
  version : UInt8 × UInt8
  body : Bytes
  body_le : body.length ≤ 65535

namespace Fragment

def record (f : Fragment) : Bytes :=
  tlsRecordHandshake :: f.version.1 :: f.version.2 :: (be16 f.body.length ++ f.body)

/-- The bytes of a message that fragments carry. -/
def bodies (fragments : List Fragment) : Bytes := fragments.flatMap body

end Fragment

/-- The bodies that have been appended: those of the handshake records that fit when they come. -/
def appended (maxPayload : Nat) (bodies : List Bytes) : List Bytes → List Bytes
  | [] => bodies
  | record :: records =>
    match recordBody record with
    | .error _ => appended maxPayload bodies records
    | .ok body =>
      if bodies.flatten.length + body.length ≤ maxPayload then
        appended maxPayload (bodies ++ [body]) records
      else appended maxPayload bodies records

theorem recordBody_record (f : Fragment) : recordBody f.record = .ok f.body := by
  have hlen : ofBe16 (UInt8.ofNat (f.body.length / 256)) (UInt8.ofNat f.body.length) =
      f.body.length := ofBe16_ofNat (by have := f.body_le; omega)
  simp only [Fragment.record, be16, cons_append, nil_append, recordBody, hlen,
    Nat.lt_irrefl, ne_eq, not_true, if_false, take_length]

namespace ClientHelloRecordBuffer

variable {buffer : ClientHelloRecordBuffer} {record body : Bytes}

theorem appendRecord_ok (h : recordBody record = .ok body)
    (hfits : buffer.payload.length + body.length ≤ buffer.maxPayload) :
    buffer.appendRecord record =
      (tryMessage { buffer with payload := buffer.payload ++ body },
        { buffer with payload := buffer.payload ++ body }) := by
  rw [appendRecord, h]
  exact if_neg (by omega)

/-- A record that is not appended is answered with an error. -/
theorem appendRecord_error
    (h : ∀ body, recordBody record = .ok body →
      buffer.maxPayload < buffer.payload.length + body.length) :
    ∃ e, buffer.appendRecord record = (.error e, buffer) := by
  unfold appendRecord
  split
  case h_1 e he => exact ⟨e, rfl⟩
  case h_2 body hbody => exact ⟨_, if_pos (h body hbody)⟩

/-! ## The payload -/

/-- The buffer after the records `records`, of which `bodies` had been appended before. -/
theorem appendRecords_inv {maxPayload : Nat} {bodies : List Bytes} (records : List Bytes)
    (hbuffer : buffer = ⟨bodies.flatten, maxPayload⟩) (hlen : bodies.flatten.length ≤ maxPayload) :
    buffer.appendRecords records = ⟨(appended maxPayload bodies records).flatten, maxPayload⟩ ∧
      (appended maxPayload bodies records).flatten.length ≤ maxPayload := by
  induction records generalizing buffer bodies with
  | nil => exact ⟨hbuffer, hlen⟩
  | cons record records ih =>
    subst hbuffer
    rw [appendRecords, foldl_cons, ← appendRecords]
    rcases hbody : recordBody record with e | body
    · have hreject : ∃ e, appendRecord ⟨bodies.flatten, maxPayload⟩ record =
          (.error e, ⟨bodies.flatten, maxPayload⟩) :=
        appendRecord_error fun body h => by rw [hbody] at h; cases h
      obtain ⟨e', herror⟩ := hreject
      simp only [appended, hbody, herror]
      exact ih rfl hlen
    · by_cases hfits : bodies.flatten.length + body.length ≤ maxPayload
      · have hok : appendRecord ⟨bodies.flatten, maxPayload⟩ record =
            (tryMessage ⟨bodies.flatten ++ body, maxPayload⟩,
              ⟨bodies.flatten ++ body, maxPayload⟩) :=
          appendRecord_ok hbody hfits
        have hflat : bodies.flatten ++ body = (bodies ++ [body]).flatten := by simp
        simp only [appended, hbody, if_pos hfits, hok, hflat]
        refine ih rfl ?_
        rw [← hflat, length_append]
        exact hfits
      · have hreject : ∃ e, appendRecord ⟨bodies.flatten, maxPayload⟩ record =
            (.error e, ⟨bodies.flatten, maxPayload⟩) :=
          appendRecord_error fun body' h => by
            rw [hbody] at h
            cases h
            exact Nat.lt_of_not_le hfits
        obtain ⟨e', herror⟩ := hreject
        simp only [appended, hbody, if_neg hfits, herror]
        exact ih rfl hlen

/-- A message that `try_message` returns is the whole payload. -/
theorem tryMessage_some {x : Bytes} (h : buffer.tryMessage = .ok (some x)) :
    x = buffer.payload ∧ IsClientHello x := by
  unfold tryMessage at h
  split at h
  case h_1 msgType a b c rest hpayload =>
    split at h
    · cases h
    case isFalse htype =>
      simp only at h
      split at h
      · cases h
      split at h
      · cases h
      split at h
      · cases h
      case isFalse hlen =>
        cases h
        rw [hpayload] at hlen ⊢
        rw [length_cons, length_cons, length_cons, length_cons] at hlen
        exact ⟨rfl, a, b, c, rest, by rw [Decidable.not_not.mp htype], by omega⟩
  case h_2 => cases h

theorem appendRecord_some {x : Bytes} (h : (buffer.appendRecord record).1 = .ok (some x)) :
    x = (buffer.appendRecord record).2.payload ∧ IsClientHello x := by
  unfold appendRecord at h ⊢
  split
  case h_1 e he =>
    rw [he] at h
    cases h
  case h_2 body hbody =>
    rw [hbody] at h
    split
    case isTrue hlarge =>
      simp only [if_pos hlarge] at h
      cases h
    case isFalse hfits =>
      simp only [if_neg hfits] at h
      exact tryMessage_some h

/-! ## Fragments of a message -/

/-- What the buffer answers when it holds the first bytes of a message. -/
theorem tryMessage_fragment {m rest : Bytes} (hm : IsClientHello m)
    (hmax : m.length ≤ buffer.maxPayload) (hpayload : buffer.payload ++ rest = m) :
    buffer.tryMessage = .ok (if buffer.payload = m then some m else none) := by
  obtain ⟨a, b, c, tail, rfl, hlen⟩ := hm
  rcases hp : buffer.payload with _ | ⟨msgType, _ | ⟨a', _ | ⟨b', _ | ⟨c', body⟩⟩⟩⟩
  -- the header is not complete
  · simp [tryMessage, hp]
  · simp [tryMessage, hp]
  · simp [tryMessage, hp]
  · simp [tryMessage, hp]
  · rw [hp] at hpayload
    simp only [cons_append, List.cons.injEq] at hpayload
    obtain ⟨rfl, rfl, rfl, rfl, rfl⟩ := hpayload
    simp only [length_cons, length_append] at hmax hlen
    simp only [tryMessage, hp, ne_eq, not_true, if_false, length_cons, hlen]
    rw [if_neg (by omega)]
    by_cases hrest : rest = []
    · subst hrest
      rw [length_nil, Nat.add_zero, if_neg (by omega), if_neg (by omega), append_nil, if_pos rfl]
    · have hpos := length_pos_iff.mpr hrest
      rw [if_pos (by omega), if_neg]
      simp [hrest]

/-- The buffer after some fragments of a message. -/
theorem appendRecords_fragments {m rest : Bytes}
    (hmax : m.length ≤ buffer.maxPayload) (fragments : List Fragment)
    (hpayload : buffer.payload ++ (Fragment.bodies fragments ++ rest) = m) :
    buffer.appendRecords (fragments.map Fragment.record) =
      { buffer with payload := buffer.payload ++ Fragment.bodies fragments } := by
  induction fragments generalizing buffer with
  | nil => simp [appendRecords, Fragment.bodies]
  | cons f fragments ih =>
    have hlen := congrArg List.length hpayload
    simp only [Fragment.bodies, flatMap_cons, length_append] at hlen
    have hfits : buffer.payload.length + f.body.length ≤ buffer.maxPayload := by omega
    have htail : buffer.payload ++ f.body ++ (Fragment.bodies fragments ++ rest) = m := by
      rw [← hpayload]
      simp [Fragment.bodies]
    rw [map_cons, appendRecords, foldl_cons, ← appendRecords,
      appendRecord_ok (recordBody_record f) hfits]
    refine (@ih ⟨buffer.payload ++ f.body, buffer.maxPayload⟩ hmax htail).trans ?_
    simp [Fragment.bodies]

end ClientHelloRecordBuffer

open ClientHelloRecordBuffer in
/-- Reassembly does not depend on the boundaries of the records, and never returns anything but
one ClientHello message that the records carried. -/
theorem reassembly (maxPayload : Nat) :
    (∀ m, IsClientHello m → m.length ≤ maxPayload →
      ∀ (before : List Fragment) (f : Fragment) (after : List Fragment),
        Fragment.bodies (before ++ f :: after) = m →
          (((new maxPayload).appendRecords (before.map Fragment.record)).appendRecord f.record).1 =
            .ok (if Fragment.bodies (before ++ [f]) = m then some m else none)) ∧
      ∀ records : List Bytes,
        ((new maxPayload).appendRecords records).payload.length ≤ maxPayload ∧
          ∀ record x, (((new maxPayload).appendRecords records).appendRecord record).1 =
              .ok (some x) →
            x = (appended maxPayload [] (records ++ [record])).flatten ∧ IsClientHello x := by
  have hpayload : ∀ records,
      (new maxPayload).appendRecords records =
          ⟨(appended maxPayload [] records).flatten, maxPayload⟩ ∧
        (appended maxPayload [] records).flatten.length ≤ maxPayload :=
    fun records => appendRecords_inv records rfl (Nat.zero_le _)
  refine ⟨?_, fun records => ⟨?_, ?_⟩⟩
  · intro m hm hmax before f after hsplit
    have hbefore : (new maxPayload).payload ++
        (Fragment.bodies before ++ (f.body ++ Fragment.bodies after)) = m := by
      rw [← hsplit]
      simp [Fragment.bodies, new]
    have hlast : Fragment.bodies before ++ f.body ++ Fragment.bodies after = m := by
      rw [← hbefore]
      simp [new]
    have hlen := congrArg List.length hlast
    simp only [length_append] at hlen
    have hbodies : Fragment.bodies (before ++ [f]) = Fragment.bodies before ++ f.body := by
      simp [Fragment.bodies]
    rw [appendRecords_fragments hmax before hbefore,
      appendRecord_ok (recordBody_record f) (by simp [new]; omega), hbodies]
    exact tryMessage_fragment hm hmax hlast
  · rw [(hpayload records).1]
    exact (hpayload records).2
  · intro record x hx
    have hnext : (((new maxPayload).appendRecords records).appendRecord record).2 =
        (new maxPayload).appendRecords (records ++ [record]) := by
      rw [appendRecords, appendRecords, foldl_append]
      rfl
    obtain ⟨hxp, hclient⟩ := appendRecord_some hx
    rw [hnext, (hpayload _).1] at hxp
    exact ⟨hxp, hclient⟩

end Xhttp.Tls
