import RustXhttp.Tls.Writer
import RustXhttp.Tls.Stream

/-!
# TLS application data is transparent

What one `TlsStream` was told to write is what its peer reads, over transports that cut the bytes
as they like on both sides.

* `openStream_take`: a part of a stream of records reads as the content of the records that are
  complete; it ends cleanly at a record boundary only.
* `tls_stream_transparent`: the writing calls, the bytes on the wire and the reader at the other
  end.
-/

namespace Xhttp.Tls

open List

variable {A : Aead}

section

variable {k k' : RecordKeys} {r : Sealed} {n : Nat} {records rs : List Sealed} {content : Bytes}

/-- A record that `TlsStream` seals, with the keys before and after it. -/
structure SealedBy (A : Aead) (k : RecordKeys) (r : Sealed) (k' : RecordKeys) : Prop where
  eq : k.seal A r.contentType r.plaintext = some (k', r.record)
  type : r.contentType ≠ 0
  fits : r.plaintext.length ≤ maxAppPlaintext

theorem Sealed.IsData.sealedBy (hr : r.IsData)
    (h : k.seal A r.contentType r.plaintext = some (k', r.record)) : SealedBy A k r k' :=
  ⟨h, by rw [hr.1]; decide, hr.2⟩

theorem Sealed.IsClose.sealedBy (hr : r.IsClose)
    (h : k.seal A r.contentType r.plaintext = some (k', r.record)) : SealedBy A k r k' :=
  ⟨h, by rw [hr.1]; decide, by rw [hr.2]; decide⟩

/-- It is complete, and opens under the keys that sealed it. -/
theorem sealed_spec (hA : A.Lawful) (h : SealedBy A k r k') :
    5 ≤ r.record.length ∧ r.record.length = 5 + recordLen r.record ∧
      recordLen r.record ≤ maxTlsRecord ∧
      k.unseal A r.record = (k', some (r.contentType, r.plaintext)) := by
  have hl := h.fits
  unfold maxAppPlaintext at hl
  obtain ⟨record, hseal, hlen, hrl, hopen⟩ :=
    unseal_sealInto hA k h.type r.plaintext 0 (by omega)
  have heq : some (k.next, record) = some (k', r.record) := hseal.symm.trans h.eq
  cases heq
  rw [hrl, hlen]
  exact ⟨by omega, rfl, by unfold maxTlsRecord; omega, hopen⟩

/-- The first record of a stream is complete. -/
theorem openStream_append (hA : A.Lawful) (h : SealedBy A k r k') (more : Bytes) :
    openStream A k (r.record ++ more) =
      if r.contentType = recordApplicationData then (openStream A k' more).after r.plaintext
      else if r.contentType = recordAlert then ⟨([], .eof), more⟩
      else .failed (unexpectedType r.contentType) := by
  obtain ⟨h5, hlen, hmax, hopen⟩ := sealed_spec hA h
  have hrl : recordLen (r.record ++ more) = recordLen r.record := recordLen_append h5 more
  have hle : 5 + recordLen (r.record ++ more) ≤ (r.record ++ more).length := by
    rw [hrl, length_append]
    omega
  rw [openStream_record (by rw [hrl]; exact hmax) hle, hrl, ← hlen, take_left, drop_left, hopen]

/-- Part of a record is missing. -/
theorem openStream_take_record (hA : A.Lawful) {k₀ : RecordKeys} (h : SealedBy A k r k')
    (h0 : n ≠ 0) (hn : n < r.record.length) :
    openStream A k₀ (r.record.take n) = .failed recordTruncated := by
  obtain ⟨-, hlen, hmax, -⟩ := sealed_spec hA h
  have htake : (r.record.take n).length = n := length_take_of_le (Nat.le_of_lt hn)
  apply openStream_truncated
  · exact ne_nil_of_length_pos (by omega)
  · intro h5
    have hrl : recordLen (r.record.take n) = recordLen r.record := by
      rw [← recordLen_append h5 (r.record.drop n), take_append_drop]
    rw [hrl, htake]
    exact ⟨hmax, by omega⟩

/-- The bytes of records. -/
def wireOf (records : List Sealed) : Bytes := (records.map Sealed.record).flatten

theorem wireOf_cons (r : Sealed) (rs : List Sealed) : wireOf (r :: rs) = r.record ++ wireOf rs :=
  rfl

/-- `n` bytes of the records end with one of them. -/
def Boundary (records : List Sealed) (n : Nat) : Prop := ∃ j, n = (wireOf (records.take j)).length

theorem boundary_zero (records : List Sealed) : Boundary records 0 := ⟨0, rfl⟩

theorem length_wireOf_take_succ (r : Sealed) (rs : List Sealed) (j : Nat) :
    (wireOf ((r :: rs).take (j + 1))).length = r.record.length + (wireOf (rs.take j)).length := by
  rw [take_succ_cons, wireOf_cons, length_append]

theorem not_boundary_cons (h0 : n ≠ 0) (hn : n < r.record.length) : ¬ Boundary (r :: rs) n := by
  rintro ⟨j, hj⟩
  cases j with
  | zero => exact h0 hj
  | succ j =>
    rw [length_wireOf_take_succ] at hj
    omega

theorem boundary_cons (h5 : 5 ≤ r.record.length) (hn : r.record.length ≤ n) :
    Boundary (r :: rs) n ↔ Boundary rs (n - r.record.length) := by
  constructor
  · rintro ⟨j, hj⟩
    cases j with
    | zero =>
      have : n = 0 := hj
      omega
    | succ j =>
      rw [length_wireOf_take_succ] at hj
      exact ⟨j, by omega⟩
  · rintro ⟨j, hj⟩
    exact ⟨j + 1, by rw [length_wireOf_take_succ]; omega⟩

/-- What a reader gets from the first `n` bytes of records with the content `content`. -/
structure Reads (A : Aead) (k : RecordKeys) (records : List Sealed) (content : Bytes) (n : Nat)
    (got : Bytes) (fin : ReadEnd) : Prop where
  opens : openStream A k ((wireOf records).take n) = ⟨(got, fin), []⟩
  part : ∃ more, content = got ++ more
  all : n = (wireOf records).length → got = content ∧ fin = .eof
  eof : fin = .eof ↔ Boundary records n
  error : fin ≠ .eof → fin = .error recordTruncated

theorem reads_zero (k : RecordKeys) (h : (wireOf records).length = 0 → content = []) :
    Reads A k records content 0 [] .eof where
  opens := openStream_nil
  part := ⟨content, rfl⟩
  all hn := ⟨(h hn.symm).symm, rfl⟩
  eof := ⟨fun _ => boundary_zero records, fun _ => rfl⟩
  error h := absurd rfl h

/-- The first record is not complete. -/
theorem reads_part (hA : A.Lawful) (h : SealedBy A k r k') (h0 : n ≠ 0)
    (hn : n < r.record.length) : Reads A k (r :: rs) content n [] (.error recordTruncated) where
  opens := by
    rw [wireOf_cons, take_append_of_le_length (Nat.le_of_lt hn)]
    exact openStream_take_record hA h h0 hn
  part := ⟨content, rfl⟩
  all hlen := by
    rw [wireOf_cons, length_append] at hlen
    omega
  eof := ⟨nofun, fun hb => absurd hb (not_boundary_cons h0 hn)⟩
  error _ := rfl

/-- The first record is complete, and the rest of the stream is read after it. -/
theorem reads_cons (hA : A.Lawful) {got : Bytes} {fin : ReadEnd} (h : SealedBy A k r k')
    (hr : r.IsData) (hn : r.record.length ≤ n)
    (hrs : Reads A k' rs content (n - r.record.length) got fin) :
    Reads A k (r :: rs) (r.plaintext ++ content) n (r.plaintext ++ got) fin where
  opens := by
    rw [wireOf_cons, List.take_append, take_of_length_le hn, openStream_append hA h, if_pos hr.1,
      hrs.opens]
    rfl
  part := by
    obtain ⟨more, hmore⟩ := hrs.part
    exact ⟨more, by rw [hmore, append_assoc]⟩
  all hlen := by
    rw [wireOf_cons, length_append] at hlen
    obtain ⟨hgot, hfin⟩ := hrs.all (by omega)
    exact ⟨by rw [hgot], hfin⟩
  eof := by rw [hrs.eof, boundary_cons (sealed_spec hA h).1 hn]
  error := hrs.error

/-- A `close_notify` at the end of the stream. -/
theorem reads_close (hA : A.Lawful) (h : SealedBy A k r k') (hr : r.IsClose)
    (hn : n = r.record.length) : Reads A k [r] [] n [] .eof where
  opens := by
    have hopen := openStream_append hA h []
    rw [append_nil, hr.1, if_neg (by decide), if_pos rfl] at hopen
    rw [hn, wireOf_cons, take_left]
    exact hopen
  part := ⟨[], rfl⟩
  all _ := ⟨rfl, rfl⟩
  eof := ⟨fun _ => ⟨1, by simp [wireOf, hn]⟩, fun _ => rfl⟩
  error h := absurd rfl h

/-- **A part of a stream of records.** The content of the complete records is read, and the stream
ends cleanly exactly at a record boundary. -/
theorem reads_take (hA : A.Lawful) {data close : List Sealed}
    (hchain : Chain A k (data ++ close) k') (hdata : ∀ r ∈ data, r.IsData)
    (hclose : close = [] ∨ ∃ r, close = [r] ∧ r.IsClose) (n : Nat)
    (hn : n ≤ (wireOf (data ++ close)).length) :
    ∃ got fin, Reads A k (data ++ close) (data.flatMap Sealed.plaintext) n got fin := by
  induction data generalizing k n with
  | nil =>
    obtain rfl | ⟨r, rfl, hr⟩ := hclose
    · obtain rfl : n = 0 := Nat.le_zero.mp hn
      exact ⟨[], .eof, reads_zero k fun _ => rfl⟩
    · cases hchain with
      | cons h _ =>
        have hs := hr.sealedBy h
        have hlen : (wireOf ([] ++ [r])).length = r.record.length := by simp [wireOf]
        by_cases h0 : n = 0
        · subst h0
          exact ⟨[], .eof, reads_zero k fun _ => rfl⟩
        · by_cases hfull : n < r.record.length
          · exact ⟨[], _, reads_part hA hs h0 hfull⟩
          · exact ⟨[], .eof, reads_close hA hs hr (by omega)⟩
  | cons r data ih =>
    have hr : r.IsData := hdata r (by simp)
    rw [cons_append] at hchain hn ⊢
    cases hchain with
    | cons h hrest =>
      have hs := hr.sealedBy h
      have h5 := (sealed_spec hA hs).1
      rw [wireOf_cons, length_append] at hn
      by_cases hfull : r.record.length ≤ n
      · obtain ⟨got, fin, hreads⟩ := ih hrest (fun r' hr' => hdata r' (by simp [hr']))
          (n - r.record.length) (by omega)
        exact ⟨_, fin, reads_cons hA hs hr hfull hreads⟩
      · by_cases h0 : n = 0
        · subst h0
          refine ⟨[], .eof, reads_zero k fun hzero => ?_⟩
          rw [wireOf_cons, length_append] at hzero
          omega
        · exact ⟨[], _, reads_part hA hs h0 (Nat.lt_of_not_le hfull)⟩

end

/-- **TLS application data is transparent.** After any calls in which no `poll_write` follows a
`poll_shutdown`, over a transport that answers as it likes, what the transport took is a prefix of
the records sealed so far. The records hold the bytes that `poll_write` reported, once and in order
and at most 16384 in each, and after them at most one `close_notify`. A `poll_flush` that succeeds
leaves nothing unsent. From any part `pre` of the records, in every fragmentation and with every
sequence of buffers, a peer with the same keys reads a part of what was written, and all of it and
then EOF when `pre` is everything. -/
theorem tls_stream_transparent (A : Aead) (hA : A.Lawful) (keys : RecordKeys) (calls : List Call)
    (horder : calls.Pairwise fun c d => c.isShutdown = true → d.isWrite = false) :
    ∃ w, (tlsWriter A keys).run calls = some w ∧
      (∃ unsent, w.wire = w.accepted ++ unsent) ∧
      (∃ data close, w.records = data ++ close ∧
        (∀ r ∈ data, r.contentType = recordApplicationData ∧ r.plaintext.length ≤ 16384) ∧
        data.flatMap Sealed.plaintext = w.written ∧
        (close = [] ∨ ∃ r, close = [r] ∧ r.contentType = recordAlert ∧ r.plaintext = [1, 0])) ∧
      (∀ answers, (w.pollFlush answers).2 = .ready (.ok ()) →
        (w.pollFlush answers).1.accepted = (w.pollFlush answers).1.wire) ∧
      ∀ (pre suf : Bytes) (cuts sizes : List Nat), w.wire = pre ++ suf →
        ∃ got fin,
          (∀ fuel, w.written.length + 2 * pre.length + cuts.length + sizes.length < fuel →
            readToEnd (TlsReader.pollStep A) fuel (TlsReader.new (Source.mk pre cuts) keys) sizes =
              some (got, fin)) ∧
          (∃ more, w.written = got ++ more) ∧
          (suf = [] → got = w.written ∧ fin = .eof) ∧
          (fin = .eof ↔ ∃ j, pre = ((w.records.take j).map Sealed.record).flatten) ∧
          (fin ≠ .eof → fin = .error recordTruncated) := by
  have hinit : TlsWriter.Inv A keys (TlsWriter.new keys).written (.new keys) :=
    TlsWriter.inv_new A keys
  obtain ⟨w, hrun, hinv⟩ := hinit.run hA (fun h => by cases h) horder
  obtain ⟨data, close, hrecords, hdata, hwritten, hopen, hclosed⟩ := hinv.shape.split
  have hclose : close = [] ∨ ∃ r, close = [r] ∧ r.IsClose := by
    cases hc : w.closeSent with
    | false => exact .inl (hopen hc)
    | true => exact .inr (hclosed hc)
  refine ⟨w, hrun, ⟨_, hinv.sent⟩, ⟨data, close, hrecords, hdata, hwritten, hclose⟩, ?_, ?_⟩
  · intro answers hready
    obtain ⟨hflushed, hnil⟩ := w.flushed_pollFlush answers
    rw [(hinv.flushed hflushed).sent, hnil hready, append_nil]
  · intro pre suf cuts sizes hwire
    have hwire' : wireOf w.records = pre ++ suf := hwire
    have hchain := hinv.chain
    rw [hrecords] at hchain
    obtain ⟨got, fin, hreads⟩ := reads_take hA hchain hdata hclose pre.length (by
      rw [← hrecords, hwire', length_append]
      omega)
    rw [← hrecords, hwritten] at hreads
    have hopens := hreads.opens
    rw [hwire', take_left] at hopens
    refine ⟨got, fin, fun fuel hf => ?_, hreads.part, fun hs => hreads.all ?_, ?_, hreads.error⟩
    · obtain ⟨more, hmore⟩ := hreads.part
      have hleft : (openStream A keys pre).left = [] := by rw [hopens]
      rw [TlsReader.readToEnd_new hleft cuts sizes, hopens]
      rw [hopens]
      rw [hmore, length_append] at hf
      show got.length + _ + _ + _ < _
      omega
    · rw [hwire', hs, append_nil]
    · rw [hreads.eof]
      simpa only [Boundary, wireOf, map_take] using length_eq_take_iff hwire'

/-- A write of three bytes of which the transport takes ten at once, a write that finds it pending,
a flush and a shutdown. -/
def writesThenShutdown : List Call :=
  [.write [1, 2, 3] [.accept 10], .write [4] [.pending], .flush [.accept 9, .accept 99],
    .write [4] [], .shutdown [.accept 99, .accept 99]]

/-- The reader gets the wire in pieces, into buffers of which the first has no room. -/
theorem tls_stream_transparent_tagged :
    let keys : RecordKeys := .new .aes128GcmSha256 (zeros 16) (zeros 12)
    ∃ w, (tlsWriter .tagged keys).run writesThenShutdown = some w ∧ w.written = [1, 2, 3, 4] ∧
      ∀ fuel, 4 + 2 * w.wire.length + 3 + 2 < fuel →
        readToEnd (TlsReader.pollStep .tagged) fuel
          (TlsReader.new (Source.mk w.wire [1, 0, 7]) keys) [0, 1] =
            some ([1, 2, 3, 4], .eof) := by
  intro keys
  obtain ⟨w, hrun, -, -, -, hread⟩ := tls_stream_transparent .tagged Aead.tagged_lawful keys
    writesThenShutdown (by decide)
  have hwritten : ((tlsWriter .tagged keys).run writesThenShutdown).map TlsWriter.written =
      some [1, 2, 3, 4] := by decide +kernel
  rw [hrun] at hwritten
  replace hwritten : w.written = [1, 2, 3, 4] := Option.some.inj hwritten
  obtain ⟨got, fin, hfuel, -, hall, -⟩ := hread w.wire [] [1, 0, 7] [0, 1] (append_nil _).symm
  obtain ⟨rfl, rfl⟩ := hall rfl
  rw [hwritten] at hfuel
  exact ⟨w, hrun, hwritten, hfuel⟩

end Xhttp.Tls
