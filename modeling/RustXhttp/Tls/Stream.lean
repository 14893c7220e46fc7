import RustXhttp.Tls.Record
import RustXhttp.Lib.Source

/-!
# The reading half of `TlsStream` (`src/tls/nginx_backend.rs`)

`TlsStream::poll_read` reassembles records from whatever the transport delivers, opens them and
serves their content. An alert ends the stream. `pollStep` is one iteration of its loop.

* `openStream`: what a stream of records reads as.
* `TlsReader.readToEnd_new`: over a transport with nothing after an alert, a caller reads exactly
  that, for every fragmentation and every sequence of buffers.
-/

namespace Xhttp.Tls

open List

def maxTlsRecord : Nat := 18 * 1024

def recordTruncated : IoError := ⟨.unexpectedEof, "TLS record truncated"⟩

def recordTooLarge : IoError := ⟨.invalidData, "TLS record is too large"⟩

def authenticationFailed : IoError := ⟨.invalidData, "TLS record authentication failed"⟩

def unexpectedType (other : UInt8) : IoError :=
  ⟨.invalidData, "unexpected TLS inner content type " ++ toString other⟩

/-- The fields of `TlsStream` that `poll_read` uses. -/
structure TlsReader (R : Type) where
  inner : R
  readKeys : RecordKeys
  encrypted : Bytes
  plaintext : Bytes
  expectedRecordLen : Option Nat

namespace TlsReader

section Reader

variable {R : Type} [AsyncRead R] (A : Aead)

def new (inner : R) (readKeys : RecordKeys) : TlsReader R where
  inner := inner
  readKeys := readKeys
  encrypted := []
  plaintext := []
  expectedRecordLen := none

/-- The length of the record at hand, read once its header is complete. -/
def expect (r : TlsReader R) : Except IoError (Option Nat) :=
  match r.expectedRecordLen with
  | some len => .ok (some len)
  | none =>
    if r.encrypted.length ≥ 5 then
      if recordLen r.encrypted > maxTlsRecord then .error recordTooLarge
      else .ok (some (recordLen r.encrypted))
    else .ok none

/-- A complete record is opened. -/
def openRecord (r : TlsReader R) (len : Nat) : Loop (TlsReader R) PollRead :=
  let record := r.encrypted.take (5 + len)
  let r := { r with encrypted := r.encrypted.drop (5 + len), expectedRecordLen := none }
  match r.readKeys.unseal A record with
  | (readKeys, none) => .done { r with readKeys } (.ready (.error authenticationFailed))
  | (readKeys, some (contentType, plaintext)) =>
    if contentType = recordApplicationData then
      if plaintext = [] then .next { r with readKeys } else .next { r with readKeys, plaintext }
    else if contentType = recordAlert then .done { r with readKeys } (.ready (.ok []))
    else .done { r with readKeys } (.ready (.error (unexpectedType contentType)))

/-- More bytes are read. -/
def readMore (r : TlsReader R) : Loop (TlsReader R) PollRead :=
  match AsyncRead.pollRead r.inner 8192 with
  | (inner, .pending) => .done { r with inner } .pending
  | (inner, .ready (.error e)) => .done { r with inner } (.ready (.error e))
  | (inner, .ready (.ok [])) =>
    if r.encrypted = [] then .done { r with inner } (.ready (.ok []))
    else .done { r with inner } (.ready (.error recordTruncated))
  | (inner, .ready (.ok (b :: got))) => .next { r with inner, encrypted := r.encrypted ++ b :: got }

/-- One iteration of the loop of `poll_read`, with `n` bytes left in `output`. -/
def pollStep (r : TlsReader R) (n : Nat) : Loop (TlsReader R) PollRead :=
  if r.plaintext ≠ [] then
    .done { r with plaintext := r.plaintext.drop n } (.ready (.ok (r.plaintext.take n)))
  else
    match r.expect with
    | .error e => .done r (.ready (.error e))
    | .ok none => readMore r
    | .ok (some len) =>
      let r := { r with expectedRecordLen := some len }
      if r.encrypted.length ≥ 5 + len then openRecord A r len else readMore r

end Reader

end TlsReader

/-! ## Streams of records -/

/-- What a stream of records reads as, and the bytes that follow the alert that ended it. -/
structure Reading where
  read : Bytes × ReadEnd
  left : Bytes

/-- The content of a record comes before the rest. -/
def Reading.after (r : Reading) (bs : Bytes) : Reading := { r with read := prepend bs r.read }

def Reading.failed (e : IoError) : Reading := ⟨([], .error e), []⟩

/-- What a stream of records reads as: the content of the records up to an alert, the end of the
stream or the first error. -/
def openStream (A : Aead) (k : RecordKeys) (bs : Bytes) : Reading :=
  if bs = [] then ⟨([], .eof), []⟩
  else if _h : bs.length < 5 then .failed recordTruncated
  else if recordLen bs > maxTlsRecord then .failed recordTooLarge
  else if bs.length < 5 + recordLen bs then .failed recordTruncated
  else
    match k.unseal A (bs.take (5 + recordLen bs)) with
    | (_, none) => .failed authenticationFailed
    | (k, some (contentType, plaintext)) =>
      if contentType = recordApplicationData then
        (openStream A k (bs.drop (5 + recordLen bs))).after plaintext
      else if contentType = recordAlert then ⟨([], .eof), bs.drop (5 + recordLen bs)⟩
      else .failed (unexpectedType contentType)
termination_by bs.length
decreasing_by rw [length_drop]; omega

section OpenStream

variable {A : Aead} {k : RecordKeys} {bs : Bytes}

theorem openStream_nil : openStream A k [] = ⟨([], .eof), []⟩ := by
  rw [openStream, if_pos rfl]

/-- The rest of a record is missing. -/
theorem openStream_truncated (hne : bs ≠ [])
    (h : 5 ≤ bs.length → recordLen bs ≤ maxTlsRecord ∧ bs.length < 5 + recordLen bs) :
    openStream A k bs = .failed recordTruncated := by
  rw [openStream, if_neg hne]
  by_cases hl : bs.length < 5
  · rw [dif_pos hl]
  · obtain ⟨hmax, hlt⟩ := h (by omega)
    rw [dif_neg hl, if_neg (by omega), if_pos hlt]

theorem openStream_tooLarge (hl : 5 ≤ bs.length) (h : recordLen bs > maxTlsRecord) :
    openStream A k bs = .failed recordTooLarge := by
  have hne : bs ≠ [] := ne_nil_of_length_pos (by omega)
  rw [openStream, if_neg hne, dif_neg (by omega), if_pos h]

/-- The first record is complete. -/
theorem openStream_record (hmax : recordLen bs ≤ maxTlsRecord) (hl : 5 + recordLen bs ≤ bs.length) :
    openStream A k bs =
      match k.unseal A (bs.take (5 + recordLen bs)) with
      | (_, none) => .failed authenticationFailed
      | (k, some (contentType, plaintext)) =>
        if contentType = recordApplicationData then
          (openStream A k (bs.drop (5 + recordLen bs))).after plaintext
        else if contentType = recordAlert then ⟨([], .eof), bs.drop (5 + recordLen bs)⟩
        else .failed (unexpectedType contentType) := by
  have hne : bs ≠ [] := ne_nil_of_length_pos (by omega)
  rw [openStream, if_neg hne, dif_neg (by omega), if_neg (by omega), if_neg (by omega)]

end OpenStream

/-! ## What the reader reads -/

namespace TlsReader

variable (A : Aead)

/-- The bytes that are not opened yet. -/
def unopened (r : TlsReader Source) : Bytes := r.encrypted ++ r.inner.bytes

def reading (r : TlsReader Source) : Reading := openStream A r.readKeys r.unopened

/-- The states of a reader whose transport has nothing after an alert. A caller without room in
its buffer may poll past the alert without noticing it. -/
structure Ok (r : TlsReader Source) : Prop where
  left : (r.reading A).left = []
  expected : ∀ len, r.expectedRecordLen = some len →
    5 ≤ r.encrypted.length ∧ recordLen r.encrypted = len ∧ len ≤ maxTlsRecord

/-- What a caller still reads. -/
def rest (r : TlsReader Source) : Bytes × ReadEnd := prepend r.plaintext (r.reading A).read

def measure (r : TlsReader Source) : Nat :=
  (r.rest A).1.length + 2 * r.inner.bytes.length + r.encrypted.length + r.inner.cuts.length

variable {A}

section

variable {r : TlsReader Source}

theorem follows_output (hr : r.Ok A) (hp : r.plaintext ≠ []) (n : Nat) :
    Follows (Ok A) (rest A) (measure A) r n
      (.done { r with plaintext := r.plaintext.drop n } (.ready (.ok (r.plaintext.take n)))) := by
  have hrest : r.rest A =
      prepend (r.plaintext.take n) (rest A { r with plaintext := r.plaintext.drop n }) := by
    simp only [rest, prepend_prepend, take_append_drop]
    rfl
  refine Follows.serve hp ⟨hr.left, hr.expected⟩ hrest ?_
  simp only [measure, hrest, prepend, length_append]
  omega

/-- The state after a record, which the rest of the stream follows. -/
def opened (r : TlsReader Source) (len : Nat) (readKeys : RecordKeys) (plaintext : Bytes) :
    TlsReader Source :=
  { r with
    encrypted := r.encrypted.drop (5 + len)
    expectedRecordLen := none
    readKeys := readKeys
    plaintext := plaintext }

theorem follows_openRecord {len : Nat} (hr : r.Ok A) (hp : r.plaintext = [])
    (hd : recordLen r.encrypted = len) (hmax : len ≤ maxTlsRecord)
    (hl : 5 + len ≤ r.encrypted.length) (n : Nat) :
    Follows (Ok A) (rest A) (measure A) r n (openRecord A r len) := by
  have hrl : recordLen r.unopened = len := (recordLen_append (by omega) _).trans hd
  have htake : r.unopened.take (5 + len) = r.encrypted.take (5 + len) :=
    take_append_of_le_length hl
  have hdrop : r.unopened.drop (5 + len) = r.encrypted.drop (5 + len) ++ r.inner.bytes :=
    drop_append_of_le_length hl
  have hlen : 5 + len ≤ r.unopened.length := by
    rw [unopened, length_append]
    omega
  have hrest : r.rest A = (r.reading A).read := by rw [rest, hp, prepend_nil]
  have hreading := openStream_record (A := A) (k := r.readKeys) (hrl ▸ hmax) (hrl ▸ hlen)
  rw [hrl, htake, hdrop] at hreading
  -- the record is gone from the buffer
  have hmeasure : ∀ k pt, rest A (r.opened len k pt) = r.rest A →
      measure A (r.opened len k pt) < measure A r := by
    intro k pt hsame
    simp only [measure, hsame]
    simp only [opened, length_drop]
    omega
  simp only [openRecord]
  rcases hu : r.readKeys.unseal A (r.encrypted.take (5 + len)) with ⟨k, _ | ⟨contentType, pt⟩⟩
  · rw [hu] at hreading
    exact hrest.trans (congrArg Reading.read hreading)
  · rw [hu] at hreading
    simp only at hreading ⊢
    by_cases hdata : contentType = recordApplicationData
    · simp only [if_pos hdata] at hreading ⊢
      have hnext : (if pt = [] then Loop.next (r.opened len k r.plaintext)
          else .next (r.opened len k pt)) =
          (.next (r.opened len k pt) : Loop (TlsReader Source) PollRead) := by
        by_cases hpt : pt = []
        · rw [if_pos hpt, hp, hpt]
        · rw [if_neg hpt]
      have hsame : rest A (r.opened len k pt) = r.rest A := by
        rw [hrest]
        exact (congrArg Reading.read hreading).symm
      have hleft : (reading A (r.opened len k pt)).left = [] := by
        rw [← hr.left]
        exact (congrArg Reading.left hreading).symm
      have hfol : Follows (Ok A) (rest A) (measure A) r n (.next (r.opened len k pt)) :=
        ⟨⟨hleft, nofun⟩, hsame, hmeasure k pt hsame⟩
      rw [← hnext] at hfol
      exact hfol
    · by_cases halert : contentType = recordAlert
      · simp only [if_neg hdata, if_pos halert] at hreading ⊢
        have heof : r.rest A = ([], .eof) := hrest.trans (congrArg Reading.read hreading)
        refine ⟨fun _ => heof, fun _ => ?_⟩
        -- nothing follows the alert
        have hnil : r.encrypted.drop (5 + len) ++ r.inner.bytes = [] := by
          rw [← hr.left]
          exact (congrArg Reading.left hreading).symm
        have hread : reading A (r.opened len k r.plaintext) = ⟨([], .eof), []⟩ := by
          unfold reading unopened
          rw [show (r.opened len k r.plaintext).encrypted ++
            (r.opened len k r.plaintext).inner.bytes = [] from hnil, openStream_nil]
        have hsame : rest A (r.opened len k r.plaintext) = r.rest A := by
          rw [heof, rest, hread, show (r.opened len k r.plaintext).plaintext = [] from hp]
          rfl
        exact ⟨⟨congrArg Reading.left hread, nofun⟩, hsame, Nat.le_of_lt (hmeasure k _ hsame)⟩
      · simp only [if_neg hdata, if_neg halert] at hreading ⊢
        exact hrest.trans (congrArg Reading.read hreading)

/-- Only the source has moved, and none of its bytes were taken. -/
theorem Ok.moved (hr : r.Ok A) {s : Source} (hbytes : s.bytes = r.inner.bytes) :
    Ok A { r with inner := s } ∧ rest A { r with inner := s } = r.rest A ∧
      measure A { r with inner := s } + r.inner.cuts.length = r.measure A + s.cuts.length := by
  have hread : reading A { r with inner := s } = r.reading A := by
    simp only [reading, unopened, hbytes]
  have hsame : rest A { r with inner := s } = r.rest A := by simp only [rest, hread]
  refine ⟨⟨by rw [hread, hr.left], hr.expected⟩, hsame, ?_⟩
  simp only [measure, hsame, hbytes]
  omega

theorem follows_readMore (hr : r.Ok A) (hp : r.plaintext = [])
    (hshort : 5 ≤ r.encrypted.length →
      recordLen r.encrypted ≤ maxTlsRecord ∧ r.encrypted.length < 5 + recordLen r.encrypted)
    (n : Nat) : Follows (Ok A) (rest A) (measure A) r n (readMore r) := by
  have hrest : r.rest A = (r.reading A).read := by rw [rest, hp, prepend_nil]
  have hroom : 8192 ≠ 0 := by decide
  obtain ⟨s, hpoll, hbytes, hcuts⟩ | ⟨s, hpoll, hempty, hempty', hcuts⟩ |
    ⟨s, b, got, hpoll, hbytes, -, hcuts⟩ := Source.pollRead_room r.inner hroom
  · simp only [readMore, hpoll]
    obtain ⟨hok, hsame, hmeasure⟩ := hr.moved hbytes
    exact ⟨hok, hsame, by omega⟩
  · have hun : r.unopened = r.encrypted := by rw [unopened, hempty, append_nil]
    simp only [readMore, hpoll]
    by_cases he : r.encrypted = []
    · rw [if_pos he]
      have heof : r.rest A = ([], .eof) := by rw [hrest, reading, hun, he, openStream_nil]
      obtain ⟨hok, hsame, hmeasure⟩ := hr.moved (hempty'.trans hempty.symm)
      exact ⟨fun _ => heof, fun _ => ⟨hok, hsame, by omega⟩⟩
    · rw [if_neg he]
      show r.rest A = _
      rw [hrest, reading, hun, openStream_truncated he hshort]
      rfl
  · simp only [readMore, hpoll]
    have hread : reading A { r with inner := s, encrypted := r.encrypted ++ b :: got } =
        r.reading A := by
      simp only [reading, unopened, hbytes, append_assoc]
    have hsame : rest A { r with inner := s, encrypted := r.encrypted ++ b :: got } =
        r.rest A := by
      simp only [rest, hread]
    refine ⟨⟨by rw [hread, hr.left], fun len he => ?_⟩, hsame, ?_⟩
    · obtain ⟨hl, hd, hmax⟩ := hr.expected len he
      rw [length_append, recordLen_append hl]
      exact ⟨by omega, hd, hmax⟩
    · simp only [measure, hsame, hbytes, length_append, length_cons]
      omega

/-- What the reader knows about the record at hand. -/
theorem expect_cases (hr : r.Ok A) :
    (r.expect = .error recordTooLarge ∧ 5 ≤ r.encrypted.length ∧
      recordLen r.encrypted > maxTlsRecord) ∨
    (r.expect = .ok none ∧ r.encrypted.length < 5) ∨
    (r.expect = .ok (some (recordLen r.encrypted)) ∧ 5 ≤ r.encrypted.length ∧
      recordLen r.encrypted ≤ maxTlsRecord) := by
  unfold expect
  split
  case h_1 len he =>
    obtain ⟨hl, rfl, hmax⟩ := hr.expected len he
    exact .inr (.inr ⟨rfl, hl, hmax⟩)
  case h_2 =>
    by_cases hl : r.encrypted.length ≥ 5
    · rw [if_pos hl]
      by_cases hmax : recordLen r.encrypted > maxTlsRecord
      · rw [if_pos hmax]
        exact .inl ⟨rfl, hl, hmax⟩
      · rw [if_neg hmax]
        exact .inr (.inr ⟨rfl, hl, Nat.le_of_not_lt hmax⟩)
    · rw [if_neg hl]
      exact .inr (.inl ⟨rfl, Nat.lt_of_not_le hl⟩)

end

/-- Every iteration agrees with `rest`. -/
theorem follows_pollStep (r : TlsReader Source) (n : Nat) (hr : r.Ok A) :
    Follows (Ok A) (rest A) (measure A) r n (pollStep A r n) := by
  unfold pollStep
  by_cases hp : r.plaintext ≠ []
  · rw [if_pos hp]
    exact follows_output hr hp n
  rw [if_neg hp]
  have hp : r.plaintext = [] := Classical.not_not.mp hp
  obtain ⟨he, hl, hmax⟩ | ⟨he, hl⟩ | ⟨he, hl, hmax⟩ := expect_cases hr
  · rw [he]
    have hlen : 5 ≤ r.unopened.length := by
      rw [unopened, length_append]
      omega
    have hbig : recordLen r.unopened > maxTlsRecord := (recordLen_append hl _).symm ▸ hmax
    show r.rest A = _
    rw [rest, hp, prepend_nil, reading, openStream_tooLarge hlen hbig]
    rfl
  · rw [he]
    exact follows_readMore hr hp (fun h5 => absurd hl (by omega)) n
  · simp only [he]
    have hr' : Ok A { r with expectedRecordLen := some (recordLen r.encrypted) } :=
      ⟨hr.left, by rintro _ ⟨⟩; exact ⟨hl, rfl, hmax⟩⟩
    have hsame : rest A { r with expectedRecordLen := some (recordLen r.encrypted) } =
        r.rest A := rfl
    by_cases hfull : r.encrypted.length ≥ 5 + recordLen r.encrypted
    · simp only [if_pos hfull]
      exact (follows_openRecord hr' hp rfl hmax hfull n).of_later hsame (Nat.le_refl _)
    · simp only [if_neg hfull]
      exact (follows_readMore hr' hp (fun _ => ⟨hmax, Nat.lt_of_not_le hfull⟩) n).of_later hsame
        (Nat.le_refl _)

/-- The specification of the reader. -/
def spec (A : Aead) : ReadSpec (σ := TlsReader Source) (pollStep A) where
  ok := Ok A
  rest := rest A
  measure := measure A
  follows := follows_pollStep

/-- A caller reads what the stream of records reads as, for every fragmentation and every sequence
of buffers. -/
theorem readToEnd_new {keys : RecordKeys} {wire : Bytes}
    (hleft : (openStream A keys wire).left = []) (cuts sizes : List Nat) {fuel : Nat}
    (hf : (openStream A keys wire).read.1.length + 2 * wire.length + cuts.length + sizes.length <
      fuel) :
    readToEnd (pollStep A) fuel (new (Source.mk wire cuts) keys) sizes =
      some (openStream A keys wire).read := by
  have hread : reading A (new (Source.mk wire cuts) keys) = openStream A keys wire := rfl
  have hok : Ok A (new (Source.mk wire cuts) keys) := ⟨hleft, nofun⟩
  have hfuel : (spec A).measure (new (Source.mk wire cuts) keys) + sizes.length < fuel := by
    change measure A _ + _ < _
    simp only [measure, rest, hread]
    simp only [new, prepend_nil, length_nil]
    omega
  rw [(spec A).readToEnd_eq hok hfuel]
  rfl

end TlsReader

end Xhttp.Tls
