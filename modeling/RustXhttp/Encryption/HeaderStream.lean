import RustXhttp.Encryption.Xor

/-!
# Streams of records through the header transform

`Encryption.Xor` follows one record. Here a whole stream goes through `HeaderXor`: what is skipped
at its start, records, and a last record that may be incomplete, given to `apply` in any pieces.

* `RecordStream.masked`: the stream with its headers XORed, one keystream over all of them.
* `calls_ok`, `calls_error`: the pieces do not matter. A call that fails leaves the bad header
  behind, so that every later call fails on it again (`Stuck`).
* `header_xor_spec`: the result for both directions.
-/

namespace Xhttp.Encryption

open List

/-- A record whose header announces the length of its body. -/
structure WireRecord where
  header : Bytes
  body : Bytes
  length_header : header.length = 5
  announces : decodeHeader header = .ok body.length

/-- The last record, cut in its header or in its body. -/
inductive LastRecord where
  | inHeader (header : Bytes) (short : header.length < 5)
  | inBody (header body : Bytes) (length : Nat) (length_header : header.length = 5)
      (announces : decodeHeader header = .ok length) (short : body.length < length)

def LastRecord.header : LastRecord → Bytes
  | .inHeader header _ => header
  | .inBody header _ _ _ _ _ => header

def LastRecord.body : LastRecord → Bytes
  | .inHeader _ _ => []
  | .inBody _ body _ _ _ _ => body

/-- What the transform is told to skip, and records. -/
structure RecordStream where
  front : Bytes
  records : List WireRecord
  last : LastRecord

namespace RecordStream

variable (s : RecordStream) (ks : Nat → UInt8)

/-- The stream up to its last record. -/
def whole : Bytes := s.front ++ s.records.flatMap fun r => r.header ++ r.body

def bytes : Bytes := s.whole ++ (s.last.header ++ s.last.body)

/-- The records with their headers XORed with the keystream from `pos` on. -/
def maskRecords : Nat → List WireRecord → Bytes
  | _, [] => []
  | pos, r :: rs => xorStream ks pos r.header ++ r.body ++ maskRecords (pos + 5) rs

def maskedWhole : Bytes := s.front ++ maskRecords ks 0 s.records

/-- The stream with its headers XORed and its other bytes as they are. -/
def masked : Bytes :=
  s.maskedWhole ks ++ (xorStream ks (5 * s.records.length) s.last.header ++ s.last.body)

end RecordStream

namespace HeaderXor

variable (C : Crypto)

/-- Successive calls of `apply`: their results, and the state after them. -/
def calls (x : HeaderXor) : List Bytes → List (Except RecordError Bytes) × HeaderXor
  | [] => ([], x)
  | piece :: pieces =>
    let r := x.apply C piece
    let rs := r.1.calls pieces
    (r.2 :: rs.1, rs.2)

/-- The calls succeed up to one that fails, and after it every call with bytes fails. -/
def Breaks (x : HeaderXor) (pieces : List Bytes) : Prop :=
  ∃ (pre : List Bytes) (piece : Bytes) (post outs : List Bytes) (y : HeaderXor) (e : RecordError),
    pieces = pre ++ piece :: post ∧ x.calls C pre = (outs.map .ok, y) ∧
    (y.apply C piece).2 = .error e ∧
    ∀ later bytes, bytes ≠ [] →
      ∃ e', (((y.apply C piece).1.calls C later).2.apply C bytes).2 = .error e'

/-! ## Pieces -/

section Pieces

variable {C} {x y : HeaderXor}

variable {pieces : List Bytes} {e : RecordError}

theorem calls_ok {os : Bytes} (hh : x.header.length < 5)
    (h : x.applyBytes C pieces.flatten = (y, .ok os)) :
    ∃ outs : List Bytes, x.calls C pieces = (outs.map .ok, y) ∧ outs.flatten = os := by
  induction pieces generalizing x os with
  | nil =>
    cases h
    exact ⟨[], rfl, rfl⟩
  | cons piece pieces ih =>
    rw [flatten_cons] at h
    obtain ⟨z, os₁, os₂, hz, hy, rfl⟩ := applyBytes_append_inv h
    obtain ⟨outs, hcalls, hflat⟩ := ih (applyBytes_ok_header hh hz) hy
    refine ⟨os₁ :: outs, ?_, by rw [flatten_cons, hflat]⟩
    simp only [calls, apply_eq x piece hh, hz, hcalls, map_cons]

/-- A header that does not decode is left in the state. -/
structure Stuck (x : HeaderXor) : Prop where
  skip : x.skip = 0
  header : x.header.length = 5
  bad : ∃ e, decodeHeader x.header = .error e

theorem stuck_of_endHeader (hs : x.skip = 0) (h : x.endHeader = .error e) : Stuck x := by
  unfold endHeader at h
  split at h
  case isTrue hl =>
    refine ⟨hs, hl, ?_⟩
    rcases hd : decodeHeader x.header with e' | n
    · exact ⟨e', rfl⟩
    · rw [hd] at h
      cases h
  case isFalse => cases h

theorem stuck_of_applyBytes {bs : Bytes} (h : x.applyBytes C bs = (y, .error e)) : Stuck y := by
  induction bs generalizing x with
  | nil => cases h
  | cons b bs ih =>
    rcases hb : x.applyByte C b with ⟨z, e' | o⟩
    · rw [applyBytes_cons_error hb] at h
      cases h
      simp only [applyByte] at hb
      split at hb
      · cases hb
      case isFalse hs =>
        split at hb
        case h_1 he =>
          cases hb
          exact stuck_of_endHeader (Classical.not_not.mp hs) he
        case h_2 => cases hb
    · rw [applyBytes_cons_ok hb] at h
      rcases hz : z.applyBytes C bs with ⟨w, e' | os⟩
      · rw [hz] at h
        cases h
        exact ih hz
      · rw [hz] at h
        cases h

/-- No byte of the next call is needed for the header, which is decoded again. -/
theorem Stuck.apply (h : Stuck x) {bytes : Bytes} (hb : bytes ≠ []) :
    ∃ e, x.apply C bytes = (x, .error e) := by
  obtain ⟨key, iv, pos, skip, header, decrypt⟩ := x
  obtain ⟨rfl, hl, e, he⟩ := h
  have hend : endHeader ⟨key, iv, pos, 0, header, decrypt⟩ = .error e := by
    rw [endHeader, if_pos hl, he]
    rfl
  refine ⟨e, ?_⟩
  rw [HeaderXor.apply, applyLoop, if_neg hb]
  simp only [Nat.zero_min, drop_zero, if_neg hb, hl, Nat.sub_self, take_zero,
    applyKeystream, xorStream, length_nil, Nat.add_zero, ite_self, append_nil, hend]

theorem Stuck.calls (h : Stuck x) (pieces : List Bytes) : (x.calls C pieces).2 = x := by
  induction pieces with
  | nil => rfl
  | cons piece pieces ih =>
    have hx : (x.apply C piece).1 = x := by
      by_cases hb : piece = []
      · subst hb
        rfl
      · obtain ⟨e, he⟩ := h.apply (C := C) hb
        rw [he]
    simp only [HeaderXor.calls, hx, ih]

theorem calls_error (hh : x.header.length < 5) (h : x.applyBytes C pieces.flatten = (y, .error e)) :
    x.Breaks C pieces := by
  induction pieces generalizing x with
  | nil => cases h
  | cons piece pieces ih =>
    rw [flatten_cons] at h
    rcases hp : x.applyBytes C piece with ⟨z, e' | os⟩
    · have hstuck := stuck_of_applyBytes hp
      rw [← apply_eq x piece hh] at hp
      refine ⟨[], piece, pieces, [], x, e', rfl, rfl, by rw [hp], fun later bytes hb => ?_⟩
      rw [hp, hstuck.calls later]
      obtain ⟨e'', he⟩ := hstuck.apply (C := C) hb
      exact ⟨e'', by rw [he]⟩
    · rw [applyBytes_append hp] at h
      have hz : z.applyBytes C pieces.flatten = (y, .error e) := by
        rcases hrest : z.applyBytes C pieces.flatten with ⟨w, e' | ts⟩
        · rw [hrest] at h
          exact h
        · rw [hrest] at h
          cases h
      obtain ⟨pre, piece', post, outs, v, e'', rfl, hcalls, hfail, hlater⟩ :=
        ih (applyBytes_ok_header hh hp) hz
      refine ⟨piece :: pre, piece', post, os :: outs, v, e'', rfl, ?_, hfail, hlater⟩
      simp only [HeaderXor.calls, apply_eq x piece hh, hp, hcalls, map_cons]

end Pieces

/-! ## Records -/

section Records

variable {C} {x : HeaderXor}

theorem applyBytes_records (hd : x.decrypt = false) (hs : x.skip = 0) (hh : x.header = [])
    (records : List WireRecord) :
    x.applyBytes C (records.flatMap fun r => r.header ++ r.body) =
      ({ x with pos := x.pos + 5 * records.length },
        .ok (RecordStream.maskRecords (C.keystream x.key x.iv) x.pos records)) := by
  induction records generalizing x with
  | nil => rfl
  | cons r records ih =>
    rw [flatMap_cons, applyBytes_append (applyBytes_record hd hs hh r.length_header r.announces),
      ih (x := { x with pos := x.pos + 5 }) hd hs hh]
    simp only [Except.map, RecordStream.maskRecords, length_cons]
    congr 2
    omega

/-- The start of a record. -/
theorem applyBytes_last (hd : x.decrypt = false) (hs : x.skip = 0) (hh : x.header = [])
    (last : LastRecord) :
    ∃ y, x.applyBytes C (last.header ++ last.body) =
      (y, .ok (xorStream (C.keystream x.key x.iv) x.pos last.header ++ last.body)) := by
  cases last with
  | inHeader header short =>
    simp only [LastRecord.header, LastRecord.body, append_nil]
    by_cases hne : header = []
    · subst hne
      exact ⟨x, rfl⟩
    · rw [applyBytes_header x header hs hne (by rw [hh, length_nil]; omega)]
      have hend : (x.applyKeystream C header).1.endHeader = .ok (x.applyKeystream C header).1 := by
        rw [endHeader, if_neg]
        simp only [applyKeystream, hd, hh, Bool.false_eq_true, if_false, nil_append]
        omega
      exact ⟨_, by rw [hend]; rfl⟩
  | inBody header body length length_header announces short =>
    simp only [LastRecord.header, LastRecord.body]
    have hskip := applyBytes_skip (C := C) { x with pos := x.pos + 5, skip := length } body
      (Nat.le_of_lt short)
    have hrecord := applyBytes_append
      (applyBytes_whole_header (C := C) hd hs hh length_header announces) body
    rw [hskip] at hrecord
    exact ⟨_, hrecord⟩

/-- Five bytes whose plain text is no header. -/
theorem applyBytes_bad (piece : Bytes) {e : RecordError} (hs : x.skip = 0) (hh : x.header = [])
    (hl : piece.length = 5)
    (hbad : decodeHeader (if x.decrypt then xorStream (C.keystream x.key x.iv) x.pos piece
      else piece) = .error e) (after : Bytes) :
    ∃ y, x.applyBytes C (piece ++ after) = (y, .error e) := by
  have hne : piece ≠ [] := by
    rintro rfl
    cases hl
  have hlen : (x.applyKeystream C piece).1.header.length = 5 := by
    simp only [applyKeystream, hh, nil_append]
    split
    · rw [length_xorStream, hl]
    · exact hl
  have hend : (x.applyKeystream C piece).1.endHeader = .error e := by
    rw [endHeader, if_pos hlen]
    simp only [applyKeystream, hh, nil_append, hbad]
    rfl
  have hfail := applyBytes_header (C := C) x piece hs hne (by rw [hh, hl]; exact Nat.le_refl _)
  rw [hend] at hfail
  exact ⟨_, applyBytes_append_error hfail after⟩

end Records

/-! ## Streams -/

/-- The keystream of the headers. -/
def headerStream (unitedKey : Bytes) (iv : ByteArr 16) : Nat → UInt8 :=
  C.keystream (deriveKey vless unitedKey) iv

section Streams

variable {C} (unitedKey : Bytes) (iv : ByteArr 16) (s : RecordStream)

theorem outbound_whole :
    (outbound unitedKey iv s.front.length).applyBytes C s.whole =
      ({ outbound unitedKey iv 0 with pos := 5 * s.records.length },
        .ok (s.maskedWhole (headerStream C unitedKey iv))) := by
  have hfront := applyBytes_skip (C := C) (outbound unitedKey iv s.front.length) s.front
    (Nat.le_refl _)
  have hskip : ({ outbound unitedKey iv s.front.length with
      skip := (outbound unitedKey iv s.front.length).skip - s.front.length } : HeaderXor) =
        outbound unitedKey iv 0 := by
    simp [outbound, new]
  rw [hskip] at hfront
  rw [RecordStream.whole, applyBytes_append hfront, applyBytes_records rfl rfl rfl]
  simp only [outbound, new, Nat.zero_add]
  rfl

theorem outbound_bytes : ∃ y, (outbound unitedKey iv s.front.length).applyBytes C s.bytes =
    (y, .ok (s.masked (headerStream C unitedKey iv))) := by
  have hwhole := outbound_whole (C := C) unitedKey iv s
  obtain ⟨y, hlast⟩ := applyBytes_last (C := C)
    (x := { outbound unitedKey iv 0 with pos := 5 * s.records.length }) rfl rfl rfl s.last
  refine ⟨y, ?_⟩
  rw [RecordStream.bytes, applyBytes_append hwhole, hlast]
  rfl

theorem outbound_bad {header : Bytes} {e : RecordError} (hl : header.length = 5)
    (hbad : decodeHeader header = .error e) (after : Bytes) :
    ∃ y, (outbound unitedKey iv s.front.length).applyBytes C (s.whole ++ (header ++ after)) =
      (y, .error e) := by
  obtain ⟨y, h⟩ := applyBytes_bad (C := C)
    (x := { outbound unitedKey iv 0 with pos := 5 * s.records.length }) header rfl rfl hl hbad after
  refine ⟨y, ?_⟩
  rw [applyBytes_append (outbound_whole unitedKey iv s), h]
  rfl

/-- The keystream cancels: the same header is refused on the other side. -/
theorem inbound_bad {header : Bytes} {e : RecordError} (hl : header.length = 5)
    (hbad : decodeHeader header = .error e) (after : Bytes) :
    ∃ y, (inbound unitedKey iv s.front.length).applyBytes C
      (s.maskedWhole (headerStream C unitedKey iv) ++
        (xorStream (headerStream C unitedKey iv) (5 * s.records.length) header ++ after)) =
      (y, .error e) := by
  have hwhole := applyBytes_mirror rfl (outbound_whole (C := C) unitedKey iv s)
  obtain ⟨y, h⟩ := applyBytes_bad (C := C)
    (x := mirror { outbound unitedKey iv 0 with pos := 5 * s.records.length })
    (xorStream (headerStream C unitedKey iv) (5 * s.records.length) header) rfl rfl
    (by rw [length_xorStream, hl]) ((congrArg decodeHeader (xorStream_xorStream ..)).trans hbad)
    after
  refine ⟨y, ?_⟩
  change (outbound unitedKey iv s.front.length).mirror.applyBytes C _ = _
  rw [applyBytes_append hwhole, h]
  rfl

end Streams

end HeaderXor

section

open HeaderXor

/-- **The header transform.** A stream of records goes through the outbound transform in any
pieces: every call succeeds, the headers are XORed with one keystream, the other bytes are as they
were, and the state is that after one call with the whole stream. The inbound transform, on any
pieces of the result, gives the stream back. A header that does not decode makes the call that
completes it fail, on either side, and every later call. -/
theorem header_xor_spec (C : Crypto) (unitedKey : Bytes) (iv : ByteArr 16) (s : RecordStream) :
    (∀ pieces : List Bytes, pieces.flatten = s.bytes →
      ∃ (outs : List Bytes) (y : HeaderXor),
        (outbound unitedKey iv s.front.length).calls C pieces = (outs.map .ok, y) ∧
        outs.flatten = s.masked (headerStream C unitedKey iv) ∧
        (outbound unitedKey iv s.front.length).apply C s.bytes = (y, .ok outs.flatten)) ∧
    (∀ pieces : List Bytes, pieces.flatten = s.masked (headerStream C unitedKey iv) →
      ∃ (outs : List Bytes) (y : HeaderXor),
        (inbound unitedKey iv s.front.length).calls C pieces = (outs.map .ok, y) ∧
        outs.flatten = s.bytes ∧
        (inbound unitedKey iv s.front.length).apply C pieces.flatten = (y, .ok s.bytes)) ∧
    (∀ (header after : Bytes) (e : RecordError), header.length = 5 →
      decodeHeader header = .error e →
      (∀ pieces : List Bytes, pieces.flatten = s.whole ++ (header ++ after) →
        (outbound unitedKey iv s.front.length).Breaks C pieces) ∧
      (∀ pieces : List Bytes, pieces.flatten = s.maskedWhole (headerStream C unitedKey iv) ++
          (xorStream (headerStream C unitedKey iv) (5 * s.records.length) header ++ after) →
        (inbound unitedKey iv s.front.length).Breaks C pieces)) := by
  have hnew : ∀ d, (HeaderXor.new unitedKey iv s.front.length d).header.length < 5 :=
    fun _ => Nat.succ_pos 4
  obtain ⟨y, hout⟩ := outbound_bytes (C := C) unitedKey iv s
  refine ⟨fun pieces hp => ?_, fun pieces hp => ?_, fun header after e hl hbad => ⟨?_, ?_⟩⟩
  · obtain ⟨outs, hcalls, hflat⟩ := calls_ok (hnew false) (hp ▸ hout)
    refine ⟨outs, y, hcalls, hflat, (apply_eq _ _ (hnew false)).trans ?_⟩
    rw [hflat]
    exact hout
  · have hin := applyBytes_mirror rfl hout
    obtain ⟨outs, hcalls, hflat⟩ := calls_ok (hnew true) (hp ▸ hin)
    refine ⟨outs, y.mirror, hcalls, hflat, (apply_eq _ _ (hnew true)).trans ?_⟩
    rw [hp]
    exact hin
  · intro pieces hp
    obtain ⟨z, hz⟩ := outbound_bad (C := C) unitedKey iv s hl hbad after
    exact calls_error (hnew false) (hp ▸ hz)
  · intro pieces hp
    obtain ⟨z, hz⟩ := inbound_bad (C := C) unitedKey iv s hl hbad after
    exact calls_error (hnew true) (hp ▸ hz)

/-- One record of 17 bytes. -/
def sampleStream : RecordStream where
  front := []
  records := [⟨[0x17, 3, 3, 0, 0x11], (List.range 17).map UInt8.ofNat, rfl, rfl⟩]
  last := .inHeader [] (by decide)

/-- The record in two pieces, and zeros in the place of the next header. -/
theorem header_xor_spec_sample :
    (∃ (outs : List Bytes) (y : HeaderXor),
      (outbound [] (zeros 16) 0).calls .tagged
        [sampleStream.bytes.take 2, sampleStream.bytes.drop 2] = (outs.map .ok, y) ∧
      outs.flatten = sampleStream.masked (headerStream .tagged [] (zeros 16))) ∧
    (outbound [] (zeros 16) 0).Breaks .tagged [sampleStream.whole, (zeros 5).val] := by
  obtain ⟨hok, -, hbad⟩ := header_xor_spec .tagged [] (zeros 16) sampleStream
  refine ⟨?_, ?_⟩
  · obtain ⟨outs, y, hcalls, hflat, -⟩ := hok
      [sampleStream.bytes.take 2, sampleStream.bytes.drop 2] (by decide)
    exact ⟨outs, y, hcalls, hflat⟩
  · exact (hbad (zeros 5).val [] (.invalidHeader (zeros 5).val) rfl rfl).1
      [sampleStream.whole, (zeros 5).val] (by decide)

end

end Xhttp.Encryption
