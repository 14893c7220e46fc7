import RustXhttp.Encryption.Xor
import RustXhttp.Lib.Source

/-!
# The decrypting reader (`src/vless/encryption/stream.rs`)

`EncryptedReader` reassembles records from whatever the transport delivers, undoes the header
transform, opens the records and serves their plaintext. `pollStep` is one iteration of the loop of
its `poll_read`.

* `openStream`: what a stream of records without header transform reads as.
* `EncryptedReader.readToEnd_new`: over a transport whose bytes pass the header transform, a caller
  reads exactly that, for every fragmentation and every sequence of buffers.
-/

namespace Xhttp.Encryption

open List

def recordTruncated : IoError := ⟨.unexpectedEof, "encrypted record truncated"⟩

/-- `io::Error::new(InvalidData, error)` of a `RecordError`. -/
def RecordError.toIo (e : RecordError) : IoError := ⟨.invalidData, e.message⟩

/-- `io::Error::new(InvalidData, error)` of an `XorError`. -/
def RecordError.toXorIo (e : RecordError) : IoError := ⟨.invalidData, "record: " ++ e.message⟩

structure EncryptedReader (R : Type) where
  inner : R
  cipher : RecordCipher
  xor : Option HeaderXor
  encrypted : Bytes
  plaintext : Bytes
  expected : Option Nat

namespace EncryptedReader

section Reader

variable {R : Type} [AsyncRead R] (C : Crypto)

def new (inner : R) (cipher : RecordCipher) (xor : Option HeaderXor) : EncryptedReader R where
  inner := inner
  cipher := cipher
  xor := xor
  encrypted := []
  plaintext := []
  expected := none

/-- The length of the record at hand, decoded once its header is complete. -/
def expect (r : EncryptedReader R) : Except RecordError (Option Nat) :=
  match r.expected with
  | some length => .ok (some length)
  | none =>
    if r.encrypted.length ≥ 5 then (decodeHeader (r.encrypted.take 5)).map some else .ok none

/-- A complete record is opened. -/
def openRecord (r : EncryptedReader R) (length : Nat) : Loop (EncryptedReader R) PollRead :=
  let record := r.encrypted.take (5 + length)
  let r := { r with encrypted := r.encrypted.drop (5 + length) }
  match r.cipher.unseal C (record.take 5) (record.drop 5) with
  | (cipher, .error e) => .done { r with cipher } (.ready (.error e.toIo))
  | (cipher, .ok plaintext) => .next { r with cipher, plaintext, expected := none }

/-- More bytes are read, through the header transform. -/
def readMore (r : EncryptedReader R) : Loop (EncryptedReader R) PollRead :=
  match AsyncRead.pollRead r.inner 8192 with
  | (inner, .pending) => .done { r with inner } .pending
  | (inner, .ready (.error e)) => .done { r with inner } (.ready (.error e))
  | (inner, .ready (.ok [])) =>
    if r.encrypted = [] then .done { r with inner } (.ready (.ok []))
    else .done { r with inner } (.ready (.error recordTruncated))
  | (inner, .ready (.ok (b :: got))) =>
    match r.xor with
    | none => .next { r with inner, encrypted := r.encrypted ++ b :: got }
    | some x =>
      match x.apply C (b :: got) with
      | (x, .error e) => .done { r with inner, xor := some x } (.ready (.error e.toXorIo))
      | (x, .ok bytes) => .next { r with inner, xor := some x, encrypted := r.encrypted ++ bytes }

/-- One iteration of the loop of `poll_read`, with `n` bytes left in `output`. -/
def pollStep (r : EncryptedReader R) (n : Nat) : Loop (EncryptedReader R) PollRead :=
  if r.plaintext ≠ [] then
    .done { r with plaintext := r.plaintext.drop n } (.ready (.ok (r.plaintext.take n)))
  else
    match r.expect with
    | .error e => .done r (.ready (.error e.toIo))
    | .ok none => readMore C r
    | .ok (some length) =>
      let r := { r with expected := some length }
      if r.encrypted.length ≥ 5 + length then openRecord C r length else readMore C r

end Reader

end EncryptedReader

/-! ## Streams of records -/

/-- What a stream of records reads as: the plaintext of the records up to the end of the stream or
the first error. -/
def openStream (C : Crypto) (c : RecordCipher) (bs : Bytes) : Bytes × ReadEnd :=
  if bs = [] then ([], .eof)
  else if _h : bs.length < 5 then ([], .error recordTruncated)
  else
    match decodeHeader (bs.take 5) with
    | .error e => ([], .error e.toIo)
    | .ok length =>
      if bs.length < 5 + length then ([], .error recordTruncated)
      else
        match c.unseal C ((bs.take (5 + length)).take 5) ((bs.take (5 + length)).drop 5) with
        | (_, .error e) => ([], .error e.toIo)
        | (c, .ok plaintext) => prepend plaintext (openStream C c (bs.drop (5 + length)))
termination_by bs.length
decreasing_by rw [length_drop]; omega

section OpenStream

variable {C : Crypto} {c : RecordCipher} {bs : Bytes}

theorem openStream_nil : openStream C c [] = ([], .eof) := by
  rw [openStream, if_pos rfl]

/-- The rest of a record is missing. -/
theorem openStream_truncated (hne : bs ≠ []) (h : 5 ≤ bs.length →
    ∃ length, decodeHeader (bs.take 5) = .ok length ∧ bs.length < 5 + length) :
    openStream C c bs = ([], .error recordTruncated) := by
  rw [openStream, if_neg hne]
  by_cases hl : bs.length < 5
  · rw [dif_pos hl]
  · obtain ⟨length, hd, hlt⟩ := h (by omega)
    rw [dif_neg hl, hd]
    simp only [if_pos hlt]

theorem openStream_invalid {e : RecordError} (hl : 5 ≤ bs.length)
    (hd : decodeHeader (bs.take 5) = .error e) : openStream C c bs = ([], .error e.toIo) := by
  have hne : bs ≠ [] := by
    rintro rfl
    simp at hl
  rw [openStream, if_neg hne, dif_neg (by omega), hd]

/-- The first record is complete. -/
theorem openStream_record {length : Nat} (hl : 5 + length ≤ bs.length)
    (hd : decodeHeader (bs.take 5) = .ok length) :
    openStream C c bs =
      match c.unseal C ((bs.take (5 + length)).take 5) ((bs.take (5 + length)).drop 5) with
      | (_, .error e) => ([], .error e.toIo)
      | (c, .ok plaintext) => prepend plaintext (openStream C c (bs.drop (5 + length))) := by
  have hne : bs ≠ [] := by
    rintro rfl
    simp at hl
  rw [openStream, if_neg hne, dif_neg (by omega), hd]
  simp only [if_neg (show ¬ bs.length < 5 + length by omega)]

end OpenStream

/-! ## What the reader reads -/

/-- The bytes still to come with the header transform undone; `none` if it fails on them. -/
def unXor (C : Crypto) (xor : Option HeaderXor) (bytes : Bytes) : Option Bytes :=
  match xor with
  | none => some bytes
  | some x => (x.applyBytes C bytes).2.toOption

/-- The bytes of the transport pass the header transform. -/
theorem unXor_some {C : Crypto} {x : HeaderXor} {bytes out : Bytes}
    (h : unXor C (some x) bytes = some out) : ∃ y, x.applyBytes C bytes = (y, .ok out) := by
  simp only [unXor] at h
  rcases hb : x.applyBytes C bytes with ⟨y, e | os⟩
  · rw [hb] at h
    cases h
  · rw [hb] at h
    cases h
    exact ⟨y, rfl⟩

namespace EncryptedReader

variable (C : Crypto)

/-- The states of a reader whose transport passes the header transform. -/
structure Ok (r : EncryptedReader Source) : Prop where
  wire : (unXor C r.xor r.inner.bytes).isSome = true
  header : ∀ x, r.xor = some x → x.header.length < 5
  expected : ∀ length, r.expected = some length →
    5 ≤ r.encrypted.length ∧ decodeHeader (r.encrypted.take 5) = .ok length

/-- The bytes that are not opened yet. -/
def unopened (r : EncryptedReader Source) : Bytes :=
  r.encrypted ++ (unXor C r.xor r.inner.bytes).getD []

/-- What a caller still reads. -/
def rest (r : EncryptedReader Source) : Bytes × ReadEnd :=
  prepend r.plaintext (openStream C r.cipher (r.unopened C))

def measure (r : EncryptedReader Source) : Nat :=
  (r.rest C).1.length + 2 * r.inner.bytes.length + r.encrypted.length + r.inner.cuts.length

variable {C}

section

variable {r : EncryptedReader Source} {length : Nat}

theorem follows_output (hr : r.Ok C) (hp : r.plaintext ≠ []) (n : Nat) :
    Follows (Ok C) (rest C) (measure C) r n
      (.done { r with plaintext := r.plaintext.drop n } (.ready (.ok (r.plaintext.take n)))) := by
  have hrest : r.rest C =
      prepend (r.plaintext.take n) (rest C { r with plaintext := r.plaintext.drop n }) := by
    simp only [rest, prepend_prepend, take_append_drop]
    rfl
  refine Follows.serve hp ⟨hr.wire, hr.header, hr.expected⟩ hrest ?_
  simp only [measure, hrest, prepend, length_append]
  omega

theorem follows_openRecord (hr : r.Ok C) (hp : r.plaintext = [])
    (hd : decodeHeader (r.encrypted.take 5) = .ok length) (hl : 5 + length ≤ r.encrypted.length)
    (n : Nat) : Follows (Ok C) (rest C) (measure C) r n (openRecord C r length) := by
  have htake : (r.unopened C).take (5 + length) = r.encrypted.take (5 + length) :=
    take_append_of_le_length hl
  have hdrop : (r.unopened C).drop (5 + length) =
      r.encrypted.drop (5 + length) ++ (unXor C r.xor r.inner.bytes).getD [] :=
    drop_append_of_le_length hl
  have hd' : decodeHeader ((r.unopened C).take 5) = .ok length := by
    rw [unopened, take_append_of_le_length (by omega)]
    exact hd
  have hlen : 5 + length ≤ (r.unopened C).length := by
    rw [unopened, length_append]
    omega
  have hrest : r.rest C = openStream C r.cipher (r.unopened C) := by rw [rest, hp, prepend_nil]
  rw [openStream_record hlen hd', htake, hdrop] at hrest
  simp only [openRecord]
  rcases hu : r.cipher.unseal C ((r.encrypted.take (5 + length)).take 5)
    ((r.encrypted.take (5 + length)).drop 5) with ⟨c, e | pt⟩
  · rw [hu] at hrest
    exact hrest
  · rw [hu] at hrest
    refine ⟨⟨hr.wire, hr.header, by simp⟩, hrest.symm, ?_⟩
    have hm : rest C { r with
        encrypted := r.encrypted.drop (5 + length), cipher := c, plaintext := pt,
        expected := none } = r.rest C := hrest.symm
    simp only [measure, hm, length_drop]
    omega

/-- Only the source has moved, and none of its bytes were taken. -/
theorem Ok.moved (hr : r.Ok C) {s : Source} (hbytes : s.bytes = r.inner.bytes) :
    Ok C { r with inner := s } ∧ rest C { r with inner := s } = r.rest C ∧
      measure C { r with inner := s } + r.inner.cuts.length = r.measure C + s.cuts.length := by
  have hsame : rest C { r with inner := s } = r.rest C := by simp only [rest, unopened, hbytes]
  refine ⟨⟨hbytes ▸ hr.wire, hr.header, hr.expected⟩, hsame, ?_⟩
  simp only [measure, hsame, hbytes]
  omega

theorem follows_readMore (hr : r.Ok C) (hp : r.plaintext = [])
    (hshort : 5 ≤ r.encrypted.length →
      ∃ length, decodeHeader (r.encrypted.take 5) = .ok length ∧
        r.encrypted.length < 5 + length) (n : Nat) :
    Follows (Ok C) (rest C) (measure C) r n (readMore C r) := by
  have hrest : r.rest C = openStream C r.cipher (r.unopened C) := by rw [rest, hp, prepend_nil]
  have hroom : 8192 ≠ 0 := by decide
  obtain ⟨s, hpoll, hbytes, hcuts⟩ | ⟨s, hpoll, hempty, hempty', hcuts⟩ |
    ⟨s, b, got, hpoll, hbytes, -, hcuts⟩ := Source.pollRead_room r.inner hroom
  · simp only [readMore, hpoll]
    obtain ⟨hok, hsame, hmeasure⟩ := hr.moved hbytes
    exact ⟨hok, hsame, by omega⟩
  · have hun : r.unopened C = r.encrypted := by
      rw [unopened, hempty]
      cases r.xor <;> simp [unXor, HeaderXor.applyBytes, Except.toOption]
    rw [hun] at hrest
    simp only [readMore, hpoll]
    by_cases he : r.encrypted = []
    · rw [if_pos he]
      rw [he, openStream_nil] at hrest
      refine ⟨fun _ => hrest, fun _ => ?_⟩
      obtain ⟨hok, hsame, hmeasure⟩ := hr.moved (hempty'.trans hempty.symm)
      exact ⟨hok, hsame, by omega⟩
    · rw [if_neg he]
      exact hrest.trans (openStream_truncated he hshort)
  · have hexp : ∀ more length, r.expected = some length → 5 ≤ (r.encrypted ++ more).length ∧
        decodeHeader ((r.encrypted ++ more).take 5) = .ok length := by
      intro more length he
      obtain ⟨hl, hd⟩ := hr.expected length he
      rw [take_append_of_le_length hl, length_append]
      exact ⟨by omega, hd⟩
    rcases hx : r.xor with _ | x
    · simp only [readMore, hpoll, hx]
      have hsame :
          rest C { r with inner := s, xor := none, encrypted := r.encrypted ++ b :: got } =
          r.rest C := by
        simp only [rest, unopened, hx, unXor, hbytes, Option.getD_some, append_assoc]
      refine ⟨⟨rfl, by simp, hexp _⟩, hsame, ?_⟩
      simp only [measure, hsame, hbytes, length_append, length_cons]
      omega
    · obtain ⟨out, hout⟩ := Option.isSome_iff_exists.mp hr.wire
      rw [hx] at hout
      obtain ⟨y, hy⟩ := unXor_some hout
      rw [hbytes] at hy
      obtain ⟨z, out₁, out₂, h₁, h₂, rfl⟩ := HeaderXor.applyBytes_append_inv hy
      have hh := hr.header x hx
      have happly : x.apply C (b :: got) = (z, .ok out₁) := (x.apply_eq _ hh).trans h₁
      simp only [readMore, hpoll, hx, happly]
      have hun : unXor C (some z) s.bytes = some out₂ := by simp only [unXor, h₂]; rfl
      have hsame : rest C { r with inner := s, xor := some z, encrypted := r.encrypted ++ out₁ } =
          r.rest C := by
        simp only [rest, unopened, hx, hout, hun, Option.getD_some, append_assoc]
      refine ⟨⟨by simp [hun], ?_, hexp _⟩, hsame, ?_⟩
      · rintro _ ⟨⟩
        exact HeaderXor.applyBytes_ok_header hh h₁
      · have hl := HeaderXor.length_applyBytes h₁
        simp only [measure, hsame, hbytes, hl, length_append, length_cons]
        omega

/-- A length that is expected was decoded from the header in the buffer. -/
theorem expect_decoded
    (hr : ∀ length, r.expected = some length →
      5 ≤ r.encrypted.length ∧ decodeHeader (r.encrypted.take 5) = .ok length)
    (he : r.expect = .ok (some length)) :
    5 ≤ r.encrypted.length ∧ decodeHeader (r.encrypted.take 5) = .ok length := by
  unfold expect at he
  split at he
  case h_1 l hl =>
    cases he
    exact hr length hl
  case h_2 =>
    split at he
    case isTrue h5 =>
      rcases hd : decodeHeader (r.encrypted.take 5) with e | l
      · rw [hd] at he; cases he
      · rw [hd] at he; cases he; exact ⟨h5, rfl⟩
    case isFalse => cases he

end

/-- Every iteration agrees with `rest`. -/
theorem follows_pollStep (r : EncryptedReader Source) (n : Nat) (hr : r.Ok C) :
    Follows (Ok C) (rest C) (measure C) r n (pollStep C r n) := by
  unfold pollStep
  by_cases hp : r.plaintext ≠ []
  · rw [if_pos hp]
    exact follows_output hr hp n
  rw [if_neg hp]
  have hp : r.plaintext = [] := Classical.not_not.mp hp
  have hrest : r.rest C = openStream C r.cipher (r.unopened C) := by rw [rest, hp, prepend_nil]
  rcases he : r.expect with e | _ | length
  · unfold expect at he
    split at he
    · cases he
    · split at he
      case isTrue h5 =>
        have hd : decodeHeader (r.encrypted.take 5) = .error e := by
          rcases hd : decodeHeader (r.encrypted.take 5) with e' | l
          · rw [hd] at he; cases he; rfl
          · rw [hd] at he; cases he
        refine hrest.trans (openStream_invalid ?_ ?_)
        · rw [unopened, length_append]; omega
        · rw [unopened, take_append_of_le_length h5, hd]
      case isFalse => cases he
  · refine follows_readMore hr hp (fun h5 => ?_) n
    unfold expect at he
    split at he
    · cases he
    · rw [if_pos h5] at he
      rcases hd : decodeHeader (r.encrypted.take 5) with e' | l
      · rw [hd] at he; cases he
      · rw [hd] at he; cases he
  · obtain ⟨h5, hd⟩ := expect_decoded hr.expected he
    have hr' : Ok C { r with expected := some length } :=
      ⟨hr.wire, hr.header, by rintro _ ⟨⟩; exact ⟨h5, hd⟩⟩
    have hsame : rest C { r with expected := some length } = r.rest C := rfl
    by_cases hl : r.encrypted.length ≥ 5 + length
    · simp only [if_pos hl]
      exact (follows_openRecord hr' hp hd hl n).of_later hsame (Nat.le_refl _)
    · simp only [if_neg hl]
      exact (follows_readMore hr' hp (fun _ => ⟨length, hd, Nat.lt_of_not_le hl⟩) n).of_later
        hsame (Nat.le_refl _)

/-- The specification of the reader. -/
def spec (C : Crypto) : ReadSpec (σ := EncryptedReader Source) (pollStep C) where
  ok := Ok C
  rest := rest C
  measure := measure C
  follows := follows_pollStep

/-- A caller reads what the stream of records reads as once the header transform is undone, for
every fragmentation and every sequence of buffers. -/
theorem readToEnd_new {xor : Option HeaderXor} {wire plain : Bytes}
    (hw : unXor C xor wire = some plain) (hh : ∀ x, xor = some x → x.header.length < 5)
    (cipher : RecordCipher) (cuts sizes : List Nat) {fuel : Nat}
    (hf : (openStream C cipher plain).1.length + 2 * wire.length + cuts.length + sizes.length <
      fuel) :
    readToEnd (pollStep C) fuel (new (Source.mk wire cuts) cipher xor) sizes =
      some (openStream C cipher plain) := by
  have hrest : rest C (new (Source.mk wire cuts) cipher xor) = openStream C cipher plain := by
    simp [rest, unopened, new, hw]
  have hok : Ok C (new (Source.mk wire cuts) cipher xor) :=
    ⟨by simp [new, hw], hh, by simp [new]⟩
  have hm : measure C (new (Source.mk wire cuts) cipher xor) =
      (openStream C cipher plain).1.length + 2 * wire.length + cuts.length := by
    simp only [measure, hrest]
    rfl
  have hfuel : (spec C).measure (new (Source.mk wire cuts) cipher xor) + sizes.length < fuel := by
    change measure C _ + _ < _
    omega
  rw [(spec C).readToEnd_eq hok hfuel]
  exact congrArg some hrest

end EncryptedReader

end Xhttp.Encryption
