import RustXhttp.Encryption.Stream
import RustXhttp.Dispatch.Writer

/-!
# The record stream is transparent

The four layers between `ProtocolWriter::send` and `EncryptedReader` are chunking, records with
their nonce counter and rekeying, the header transform, and reassembly.

* `openStream_take`: a part of a stream of records reads as the chunks of the records that
  are complete; it ends cleanly at a record boundary only.
* `encrypted_stream_transparent`: what a reader gets from any part of what a writer sent.
-/

namespace Xhttp.Encryption

open Dispatch List

section

variable {C : Crypto}

/-- The first record of a stream is complete. -/
theorem openStream_append {c d : RecordCipher} {header ct chunk : Bytes}
    (hl : header.length = 5) (hd : decodeHeader header = .ok ct.length)
    (hu : c.unseal C header ct = (d, .ok chunk)) (more : Bytes) :
    openStream C c (header ++ ct ++ more) = prepend chunk (openStream C d more) := by
  have hlen : (header ++ ct).length = 5 + ct.length := by rw [length_append, hl]
  have h5 : (header ++ ct ++ more).take 5 = header := by
    rw [append_assoc]
    exact take_left' hl
  have hrec : (header ++ ct ++ more).take (5 + ct.length) = header ++ ct := take_left' hlen
  have hd' : decodeHeader ((header ++ ct ++ more).take 5) = .ok ct.length := by rw [h5, hd]
  have hle : 5 + ct.length ≤ (header ++ ct ++ more).length := by
    rw [length_append, hlen]
    omega
  rw [openStream_record hle hd', hrec, take_left' hl, drop_left' hl, hu, drop_left' hlen]

/-- Part of a record is missing. -/
theorem openStream_take_record {c : RecordCipher} {header ct : Bytes} (hl : header.length = 5)
    (hd : decodeHeader header = .ok ct.length) {n : Nat} (h0 : n ≠ 0) (hn : n < 5 + ct.length) :
    openStream C c ((header ++ ct).take n) = ([], .error recordTruncated) := by
  have hlen : ((header ++ ct).take n).length = n := by
    rw [length_take, length_append, hl]
    omega
  apply openStream_truncated
  · intro he
    rw [he] at hlen
    exact h0 hlen.symm
  · intro h5
    refine ⟨ct.length, ?_, by omega⟩
    rw [take_take, Nat.min_eq_left (by omega), take_left' hl, hd]

/-- **A part of a stream of records.** The chunks of the complete records are read, and the stream
ends cleanly exactly at a record boundary. -/
theorem openStream_take {c c' : RecordCipher} {plain chunks : List Bytes}
    (h : Opens C c plain chunks c') (n : Nat) (hn : n ≤ plain.flatten.length) :
    ∃ got fin, openStream C c (plain.flatten.take n) = (got, fin) ∧
      (∃ more, chunks.flatten = got ++ more) ∧
      (n = plain.flatten.length → got = chunks.flatten) ∧
      (fin = .eof ↔ ∃ k, n = (plain.take k).flatten.length) ∧
      (fin ≠ .eof → fin = .error recordTruncated) := by
  induction h generalizing n with
  | nil c =>
    obtain rfl : n = 0 := by simpa using hn
    exact ⟨[], .eof, openStream_nil, ⟨[], rfl⟩, fun _ => rfl, ⟨fun _ => ⟨0, rfl⟩, fun _ => rfl⟩,
      fun hne => absurd rfl hne⟩
  | @cons c d c' header ct chunk records chunks hl hd hu _ ih =>
    have hlen : (header ++ ct).length = 5 + ct.length := by rw [length_append, hl]
    rw [flatten_cons, length_append, hlen] at hn
    have hbound : ∀ k, (((header ++ ct) :: records).take (k + 1)).flatten.length =
        5 + ct.length + (records.take k).flatten.length := by
      intro k
      rw [take_succ_cons, flatten_cons, length_append, hlen]
    by_cases hfull : 5 + ct.length ≤ n
    · -- the first record is complete: read it, and go on with the rest
      obtain ⟨got, fin, hopen, ⟨more, hmore⟩, hall, heof, herr⟩ :=
        ih (n - (5 + ct.length)) (by omega)
      have htake : (((header ++ ct) :: records).flatten).take n =
          header ++ ct ++ records.flatten.take (n - (5 + ct.length)) := by
        rw [flatten_cons, take_append, hlen, take_of_length_le (by omega)]
      refine ⟨chunk ++ got, fin, ?_, ⟨more, ?_⟩, ?_, ?_, herr⟩
      · rw [htake, openStream_append hl hd hu, hopen]
        rfl
      · rw [flatten_cons, hmore, append_assoc]
      · intro hn'
        rw [flatten_cons, length_append, hlen] at hn'
        rw [flatten_cons, hall (by omega)]
      · rw [heof]
        constructor
        · rintro ⟨k, hk⟩
          exact ⟨k + 1, by rw [hbound]; omega⟩
        · rintro ⟨k, hk⟩
          cases k with
          | zero => simp at hk; omega
          | succ k => exact ⟨k, by rw [hbound] at hk; omega⟩
    · have htake : (((header ++ ct) :: records).flatten).take n = (header ++ ct).take n := by
        rw [flatten_cons, take_append_of_le_length (by omega)]
      rw [htake]
      have hne : n ≠ (((header ++ ct) :: records).flatten).length := by
        rw [flatten_cons, length_append, hlen]
        omega
      by_cases h0 : n = 0
      · subst h0
        exact ⟨[], .eof, openStream_nil, ⟨_, rfl⟩, fun h => absurd h hne,
          ⟨fun _ => ⟨0, rfl⟩, fun _ => rfl⟩, fun h => absurd rfl h⟩
      · refine ⟨[], _, openStream_take_record hl hd h0 (by omega), ⟨_, rfl⟩, fun h => absurd h hne,
          ⟨fun h => (by cases h), ?_⟩, fun _ => rfl⟩
        rintro ⟨k, hk⟩
        cases k with
        | zero => exact absurd hk h0
        | succ k =>
          rw [hbound] at hk
          omega

/-- The inbound transform recovers every part of what the outbound one sent. -/
theorem unXor_take {xor xor' : Option HeaderXor} {plain out : Bytes}
    (h : Transforms C xor plain xor' out) (hx : AtHeader xor) (n : Nat) :
    unXor C (xor.map HeaderXor.mirror) (out.take n) = some (plain.take n) := by
  match xor, xor', h with
  | none, none, h =>
    simp only [Transforms] at h
    rw [h]
    rfl
  | some x, some _, h =>
    obtain ⟨z, hz⟩ := HeaderXor.applyBytes_take h n
    have hm := HeaderXor.applyBytes_mirror (hx x rfl).1 hz
    simp only [unXor, Option.map_some, hm]
    rfl

end

theorem length_flatten_take {as bs : List Bytes} (h : as.map List.length = bs.map List.length)
    (k : Nat) : (as.take k).flatten.length = (bs.take k).flatten.length := by
  rw [length_flatten, length_flatten, map_take, map_take, h]

/-- **The record stream is transparent.** Whatever is passed to `send`, no call fails, and from any
part `pre` of what was sent, in every fragmentation and with every sequence of buffers, the reader
gets a part of the messages: all of them when `pre` is everything. It ends with a clean EOF exactly
when `pre` ends at a record boundary, and with `UnexpectedEof` otherwise. -/
theorem encrypted_stream_transparent (C : Crypto) (hC : C.Lawful) (cipher : RecordCipher)
    (xor : Option (Bytes × ByteArr 16)) (ms : List Bytes) :
    ∃ st records, EncryptState.sendAll C
        ⟨cipher, xor.map fun k => HeaderXor.outbound k.1 k.2 0⟩ ms = (st, records, .ok ()) ∧
      ∀ (pre suf : Bytes) (cuts sizes : List Nat), records.flatten = pre ++ suf →
        ∃ got fin,
          (∀ fuel, ms.flatten.length + 2 * pre.length + cuts.length + sizes.length < fuel →
            readToEnd (EncryptedReader.pollStep C) fuel
              (EncryptedReader.new (Source.mk pre cuts) cipher
                (xor.map fun k => HeaderXor.inbound k.1 k.2 0)) sizes = some (got, fin)) ∧
          (∃ more, ms.flatten = got ++ more) ∧
          (suf = [] → got = ms.flatten) ∧
          (fin = .eof ↔ ∃ k, pre = (records.take k).flatten) ∧
          (fin ≠ .eof → fin = .error recordTruncated) := by
  have hx := atHeader_outbound xor
  obtain ⟨st, plain, records, hsend, hopens, htr, -, hlen⟩ := sendAll_spec hC
    ⟨cipher, xor.map fun k => HeaderXor.outbound k.1 k.2 0⟩ ms hx
  refine ⟨st, records, hsend, ?_⟩
  intro pre suf cuts sizes hw
  have hms : (ms.flatMap (chunks 8192)).flatten = ms.flatten := by
    rw [flatMap_def, flatten_flatten, map_map]
    congr 1
    exact (map_congr_left fun m _ => flatten_chunks (by decide) m).trans (map_id ms)
  have htotal : plain.flatten.length = records.flatten.length := by
    rw [length_flatten, length_flatten, hlen]
  obtain ⟨got, fin, hopen, hmore, hall, heof, herr⟩ := openStream_take hopens pre.length (by
    rw [htotal, hw, length_append]
    omega)
  rw [hms] at hmore hall
  have hpre : records.flatten.take pre.length = pre := by rw [hw, take_left]
  have hwire := unXor_take htr hx pre.length
  rw [hpre, mirror_outbound] at hwire
  refine ⟨got, fin, fun fuel hf => ?_, hmore, fun hs => ?_, ?_, herr⟩
  · obtain ⟨more, hmore⟩ := hmore
    rw [← hopen]
    refine EncryptedReader.readToEnd_new hwire ?_ cipher cuts sizes ?_
    · intro x hx
      obtain ⟨k, -, rfl⟩ := Option.map_eq_some_iff.mp hx
      exact Nat.succ_pos 4
    · rw [hopen]
      rw [hmore, length_append] at hf
      simp only
      omega
  · refine hall ?_
    rw [htotal, hw, hs, append_nil]
  · rw [heof]
    simpa only [length_flatten_take hlen] using length_eq_take_iff hw

/-- The stream of a cipher at the all-ones nonce, which rekeys at once. -/
theorem encrypted_stream_tagged :
    let cipher : RecordCipher := ⟨⟨.aes256Gcm, zeros 32, [], maxNonce⟩⟩
    ∃ st records, EncryptState.sendAll Crypto.tagged
        ⟨cipher, some (HeaderXor.outbound [] (zeros 16) 0)⟩ [[1, 2], [], [3]] =
          (st, records, .ok ()) ∧
      ∀ fuel, 3 + 2 * records.flatten.length + 3 + 2 < fuel →
        readToEnd (EncryptedReader.pollStep Crypto.tagged) fuel
          (EncryptedReader.new (Source.mk records.flatten [1, 0, 7]) cipher
            (some (HeaderXor.inbound [] (zeros 16) 0))) [0, 1] = some ([1, 2, 3], .eof) := by
  intro cipher
  obtain ⟨st, records, hsend, h⟩ := encrypted_stream_transparent Crypto.tagged
    Crypto.tagged_lawful cipher (some ([], zeros 16)) [[1, 2], [], [3]]
  obtain ⟨got, fin, hread, -, hall, heof, -⟩ :=
    h records.flatten [] [1, 0, 7] [0, 1] (append_nil _).symm
  obtain rfl := heof.mpr ⟨records.length, by rw [take_length]⟩
  obtain rfl := hall rfl
  exact ⟨st, records, hsend, hread⟩

end Xhttp.Encryption
