import RustXhttp.Encryption.Nonce
import RustXhttp.Encryption.Transparent

/-!
# A stream of records cannot be altered

Between a sender and a reader the network may drop, repeat, reorder, cut and change bytes. What
the reader hands on is nevertheless a part of what was sent, record by record, as long as the
network does not forge: every piece of the wire that opens in a state of the stream was sealed by
the sender under the key and the nonce of that state (`Unforged`). The sender never uses a key and
a nonce twice, so such a piece is the record of that state and no other.

* `genuine_record`: a piece of the wire that opens after `i` records is the record `i`.
* `Genuine`: what a reader has handed on, against its state; `guards_pollStep` is one iteration.
* `stream_integrity`: every read of every wire.
-/

namespace Xhttp.Encryption

open Dispatch List

/-! ## What a sender sealed -/

section

variable (C : Crypto)

/-- What the next record uses. -/
def RecordCipher.next (c : RecordCipher) : Use := (c.state.key, incrementNonce c.state.nonce)

/-- The bytes of the first `n` records. -/
def RecordCipher.wire (c : RecordCipher) (cs : List Bytes) (n : Nat) : Bytes :=
  (((c.sealed C cs).take n).map Sealed.record).flatten

/-- Every piece of `plain` that opens after `i` of the records was sealed for that place. -/
def Unforged (c : RecordCipher) (cs : List Bytes) (plain : Bytes) : Prop :=
  ∀ i ≤ cs.length, ∀ header ct m, header.length = 5 → header ++ ct <:+: plain →
    ((c.after C (cs.take i)).unseal C header ct).2 = .ok m →
    ∃ s ∈ c.sealed C cs, s.use = (c.after C (cs.take i)).next ∧ s.record = header ++ ct

end

section

variable {C : Crypto}

variable {c d : RecordCipher} {m record : Bytes} {cs : List Bytes} {i : Nat}

theorem RecordCipher.sealed_cons_ok (h : c.seal C m = (d, .ok record)) (ms : List Bytes) :
    c.sealed C (m :: ms) =
      ⟨c.state.key, incrementNonce c.state.nonce, m, record⟩ :: d.sealed C ms := by
  simp only [RecordCipher.sealed, h, AeadState.log, singleton_append]

/-- Chunks that `send` makes. -/
def Chunked (cs : List Bytes) : Prop := ∀ chunk ∈ cs, 0 < chunk.length ∧ chunk.length ≤ 8192

theorem RecordCipher.length_seal (hC : C.Lawful) (h : c.seal C m = (d, .ok record)) :
    record.length = m.length + 21 := by
  unfold RecordCipher.seal at h
  split at h
  · cases h
  split at h
  · cases h
  case h_2 header hheader =>
    have hlen : header.length = 5 := by
      unfold encodeHeader at hheader
      split at hheader
      · cases hheader
      · cases hheader
        rfl
    dsimp only at h
    split at h
    · cases h
    case h_2 s ct hseal =>
      cases h
      rw [length_append, hlen, (openRaw_sealRaw hC hseal).2]
      omega

/-- The record of a chunk: it opens in the state before it, to the state after it. -/
theorem RecordCipher.sealed_getElem (hC : C.Lawful) (c : RecordCipher) (hcs : Chunked cs)
    (hi : i < cs.length) :
    ∃ header ct, header.length = 5 ∧ ct.length = (cs[i]).length + 16 ∧
      (c.sealed C cs)[i]? = some ⟨(c.after C (cs.take i)).state.key,
        incrementNonce (c.after C (cs.take i)).state.nonce, cs[i], header ++ ct⟩ ∧
      (c.after C (cs.take i)).unseal C header ct = (c.after C (cs.take (i + 1)), .ok cs[i]) := by
  induction cs generalizing c i with
  | nil => cases hi
  | cons chunk cs ih =>
    obtain ⟨h0, h8192⟩ := hcs chunk mem_cons_self
    obtain ⟨d, header, ct, hseal, hl, hdec, hopen⟩ := open_seal hC c h0 h8192
    have hafter : ∀ rest, c.after C (chunk :: rest) = d.after C rest := by
      intro rest
      rw [RecordCipher.after, hseal]
    cases i with
    | zero =>
      have hct : ct.length = chunk.length + 16 := by
        have hlen := RecordCipher.length_seal hC hseal
        rw [length_append, hl] at hlen
        omega
      refine ⟨header, ct, hl, hct, ?_, ?_⟩
      · rw [RecordCipher.sealed_cons_ok hseal]
        rfl
      · rw [take_succ_cons, take_zero, hafter]
        exact hopen
    | succ i =>
      have hi' : i < cs.length := Nat.lt_of_succ_lt_succ hi
      obtain ⟨header', ct', hl', hct', hlog, hopen'⟩ :=
        ih d (fun m hm => hcs m (mem_cons_of_mem _ hm)) hi'
      refine ⟨header', ct', hl', hct', ?_, ?_⟩
      · rw [RecordCipher.sealed_cons_ok hseal, take_succ_cons, hafter]
        exact hlog
      · rw [take_succ_cons, take_succ_cons, hafter, hafter]
        exact hopen'

/-! ## Pieces of the wire -/

theorem RecordCipher.wire_succ (c : RecordCipher) {s : Sealed} (hs : (c.sealed C cs)[i]? = some s) :
    c.wire C cs (i + 1) = c.wire C cs i ++ s.record := by
  simp only [RecordCipher.wire, take_add_one, hs, Option.toList_some, map_append,
    flatten_append, map_singleton, flatten_singleton]

/-- The parts of the wire, without the header transform, are not forged. -/
def UnforgedWire (C : Crypto) (c : RecordCipher) (xor : Option HeaderXor) (cs : List Bytes)
    (wire : Bytes) : Prop :=
  ∀ pre out, pre <+: wire → unXor C xor pre = some out → Unforged C c cs out

/-- The chunks of a sender, and a wire on which none of their records is forged. -/
structure Network (C : Crypto) where
  lawful : C.Lawful
  c : RecordCipher
  used : List Use
  keys : List (ByteArr 32)
  nonces : NonceInv c.state used keys
  cs : List Bytes
  chunked : Chunked cs
  distinct : (keys ++ c.newKeys C cs).Nodup
  xor : Option HeaderXor
  wire : Bytes
  unforged : UnforgedWire C c xor cs wire

variable {N : Network C}

/-- **Genuine records.** A piece of the wire that opens after `i` records is the record `i`. -/
theorem genuine_record {plain : Bytes} (hplain : Unforged C N.c N.cs plain) {i : Nat}
    (hi : i ≤ N.cs.length) {header ct m : Bytes} {d : RecordCipher} (hl : header.length = 5)
    (hpiece : header ++ ct <:+: plain)
    (hopen : (N.c.after C (N.cs.take i)).unseal C header ct = (d, .ok m)) :
    i < N.cs.length ∧ N.cs[i]? = some m ∧ d = N.c.after C (N.cs.take (i + 1)) ∧
      ct.length = m.length + 16 ∧
      N.c.wire C N.cs (i + 1) = N.c.wire C N.cs i ++ (header ++ ct) := by
  obtain ⟨s, hs, huse, hrecord⟩ := hplain i hi header ct m hl hpiece (by rw [hopen])
  have hall := N.nonces.after N.lawful N.distinct
  have hnodup := (nodup_append.mp hall.once).2.1
  have hmem : (N.c.after C (N.cs.take i)).next ∈
      N.used ++ (N.c.sealed C N.cs).map Sealed.use := by
    rw [← huse]
    exact mem_append_right _ (mem_map.mpr ⟨s, hs, rfl⟩)
  have hlt : i < N.cs.length := by
    refine Nat.lt_of_le_of_ne hi fun he => ?_
    subst he
    rw [take_length] at hmem
    exact hall.next_unused hmem
  obtain ⟨header', ct', hl', hct', hlog, hopen'⟩ := N.c.sealed_getElem N.lawful N.chunked hlt
  -- the log has one entry for the key and the nonce of this place
  obtain ⟨j, hj, rfl⟩ := mem_iff_getElem.mp hs
  have hij : j = i := by
    refine (getElem?_inj (by rw [length_map]; exact hj) hnodup).mp ?_
    rw [getElem?_map, getElem?_map, hlog, getElem?_eq_getElem hj]
    exact congrArg some huse
  subst hij
  rw [getElem?_eq_getElem hj] at hlog
  have hsame := hrecord.symm.trans (congrArg Sealed.record (Option.some.inj hlog))
  obtain ⟨rfl, rfl⟩ := append_inj hsame (hl.trans hl'.symm)
  rw [hopen'] at hopen
  cases hopen
  refine ⟨hlt, getElem?_eq_getElem hlt, rfl, hct', ?_⟩
  rw [N.c.wire_succ (getElem?_eq_getElem hj), hrecord]

/-! ## The reader -/

/-- After `i` records: `sofar` is what the caller has read of their chunks, and `pre` the part of
the wire that the reader has taken. -/
structure Genuine (N : Network C) (sofar : Bytes) (r : EncryptedReader Source) (i : Nat)
    (pre : Bytes) : Prop where
  bound : i ≤ N.cs.length
  wire_eq : N.wire = pre ++ r.inner.bytes
  undone : Transforms C N.xor pre r.xor (N.c.wire C N.cs i ++ r.encrypted)
  header : ∀ x, r.xor = some x → x.header.length < 5
  cipher : r.cipher = N.c.after C (N.cs.take i)
  read : sofar ++ r.plaintext = (N.cs.take i).flatten
  expected : ∀ length, r.expected = some length →
    5 ≤ r.encrypted.length ∧ decodeHeader (r.encrypted.take 5) = .ok length

/-- What a caller can end with. -/
def Delivered (N : Network C) (r : Bytes × ReadEnd) : Prop :=
  ∃ k ≤ N.cs.length, r.1 = (N.cs.take k).flatten ∧
    (r.2 = .eof → unXor C N.xor N.wire = some (N.c.wire C N.cs k))

/-- What is left to do for a reader. -/
def EncryptedReader.work (r : EncryptedReader Source) : Nat :=
  r.plaintext.length + r.encrypted.length + 2 * r.inner.bytes.length + r.inner.cuts.length

theorem unXor_of_transforms {xor xor' : Option HeaderXor} {bs out : Bytes}
    (h : Transforms C xor bs xor' out) : unXor C xor bs = some out := by
  match xor, xor', h with
  | none, none, h =>
    simp only [Transforms] at h
    rw [h]
    rfl
  | some x, some y, h =>
    simp only [Transforms] at h
    simp only [unXor, h]
    rfl

theorem take_succ_flatten {cs : List Bytes} {i : Nat} {m : Bytes} (h : cs[i]? = some m) :
    (cs.take (i + 1)).flatten = (cs.take i).flatten ++ m := by
  rw [take_add_one, h, flatten_append, Option.toList_some, flatten_singleton]

section Reader

variable {sofar : Bytes} {r : EncryptedReader Source} {i : Nat} {pre : Bytes}
  (h : Genuine N sofar r i pre)

include h

/-- Everything read so far was handed on. -/
theorem Genuine.read_nil (hp : r.plaintext = []) :
    sofar = (N.cs.take i).flatten := by
  rw [← h.read, hp, append_nil]

theorem Genuine.delivered_error (hp : r.plaintext = [])
    (e : IoError) : Delivered N (sofar, .error e) :=
  ⟨i, h.bound, h.read_nil hp, fun he => by cases he⟩

abbrev Guarded (N : Network C) (sofar : Bytes) (r : EncryptedReader Source) (n : Nat)
    (l : Loop (EncryptedReader Source) PollRead) : Prop :=
  Guards (fun sofar r => ∃ i pre, Genuine N sofar r i pre) (Delivered N) EncryptedReader.work sofar
    r n l

theorem guards_output (hp : r.plaintext ≠ []) (n : Nat) :
    Guarded N sofar r n
      (.done { r with plaintext := r.plaintext.drop n } (.ready (.ok (r.plaintext.take n)))) := by
  have hstep : ∀ got, r.plaintext.take n = got →
      Genuine N (sofar ++ got) { r with plaintext := r.plaintext.drop n } i pre := by
    rintro _ rfl
    refine ⟨h.bound, h.wire_eq, h.undone, h.header, h.cipher, ?_, h.expected⟩
    rw [append_assoc, take_append_drop, h.read]
  have hlen : (r.plaintext.take n).length + (r.plaintext.drop n).length = r.plaintext.length := by
    rw [← length_append, take_append_drop]
  match hgot : r.plaintext.take n with
  | [] =>
    have hn : n = 0 := (take_eq_nil_iff.mp hgot).resolve_right hp
    have hnil := hstep [] hgot
    rw [append_nil] at hnil
    rw [hgot] at hlen
    refine ⟨fun hne => absurd hn hne, fun _ => ⟨⟨i, pre, hnil⟩, ?_⟩⟩
    simp only [EncryptedReader.work]
    simp only [length_nil] at hlen
    omega
  | b :: got =>
    rw [hgot] at hlen
    refine ⟨⟨i, pre, hstep _ hgot⟩, ?_⟩
    simp only [EncryptedReader.work]
    simp only [length_cons] at hlen
    omega

/-- More bytes of the wire, through the header transform. -/
theorem Genuine.more {inner : Source} {got bytes : Bytes}
    {xor' : Option HeaderXor} (hin : r.inner.bytes = got ++ inner.bytes)
    (htr : Transforms C r.xor got xor' bytes) (hheader : ∀ x, xor' = some x → x.header.length < 5) :
    Genuine N sofar
      { r with inner := inner, xor := xor', encrypted := r.encrypted ++ bytes } i (pre ++ got) where
  bound := h.bound
  wire_eq := by
    rw [h.wire_eq, hin, append_assoc]
  undone := by
    have := h.undone.append htr
    rw [append_assoc] at this
    exact this
  header := hheader
  cipher := h.cipher
  read := h.read
  expected length hlength := by
    obtain ⟨h5, hdec⟩ := h.expected length hlength
    refine ⟨?_, ?_⟩
    · simp only [length_append]
      omega
    · simp only [take_append_of_le_length h5]
      exact hdec

theorem guards_readMore (hp : r.plaintext = []) (n : Nat) :
    Guarded N sofar r n (r.readMore C) := by
  unfold EncryptedReader.readMore
  rcases Source.pollRead_room r.inner (n := 8192) (by decide) with
    ⟨inner, hpoll, hb, hc⟩ | ⟨inner, hpoll, hb, hb', hc⟩ | ⟨inner, b, got, hpoll, hb, hl, hc⟩
  · simp only [hpoll]
    refine ⟨⟨i, pre, h.bound, ?_, h.undone, h.header, h.cipher, h.read, h.expected⟩, ?_⟩
    · rw [hb]
      exact h.wire_eq
    · simp only [EncryptedReader.work, hb]
      omega
  · simp only [hpoll]
    by_cases henc : r.encrypted = []
    · rw [if_pos henc]
      refine ⟨fun _ => ⟨i, h.bound, h.read_nil hp, fun _ => ?_⟩, fun _ => ⟨⟨i, pre, h.bound, ?_,
        h.undone, h.header, h.cipher, h.read, h.expected⟩, ?_⟩⟩
      · have hall := unXor_of_transforms h.undone
        rw [henc, append_nil] at hall
        rw [h.wire_eq, hb, append_nil, hall]
      · rw [hb', ← hb]
        exact h.wire_eq
      · simp only [EncryptedReader.work, hb, hb']
        omega
    · rw [if_neg henc]
      exact h.delivered_error hp _
  · simp only [hpoll]
    have hshrink : r.inner.bytes.length = (b :: got).length + inner.bytes.length := by
      rw [hb, length_append]
    have hgot : (b :: got).length = got.length + 1 := rfl
    cases hx : r.xor with
    | none =>
      have htr : Transforms C r.xor (b :: got) none (b :: got) := by
        rw [hx]
        rfl
      refine ⟨⟨i, _, h.more hb htr (by rintro _ ⟨⟩)⟩, ?_⟩
      simp only [EncryptedReader.work, length_append]
      omega
    | some x =>
      have hxlen := h.header x hx
      simp only [x.apply_eq (b :: got) hxlen]
      rcases happly : x.applyBytes C (b :: got) with ⟨y, e | bytes⟩
      · exact h.delivered_error hp _
      · have hlen := HeaderXor.length_applyBytes happly
        have htr : Transforms C r.xor (b :: got) (some y) bytes := by
          rw [hx]
          exact happly
        refine ⟨⟨i, _, h.more hb htr ?_⟩, ?_⟩
        · rintro _ ⟨⟩
          exact HeaderXor.applyBytes_ok_header hxlen happly
        · simp only [EncryptedReader.work, length_append]
          omega

/-- What the unopened bytes start with is a piece of the wire. -/
theorem Genuine.piece (n : Nat) :
    ∃ plain, Unforged C N.c N.cs plain ∧ r.encrypted.take n <:+: plain := by
  refine ⟨_, N.unforged pre _ ⟨r.inner.bytes, h.wire_eq.symm⟩ (unXor_of_transforms h.undone),
    N.c.wire C N.cs i, r.encrypted.drop n, ?_⟩
  rw [append_assoc, take_append_drop]

/-- **A record.** One that opens is the next of the sender's, and its chunk is handed on next. -/
theorem guards_openRecord (hp : r.plaintext = []) {length : Nat}
    (hl : 5 + length ≤ r.encrypted.length) (n : Nat) :
    Guarded N sofar r n (r.openRecord C length) := by
  have hlen : (r.encrypted.take (5 + length)).length = 5 + length :=
    length_take_of_le hl
  have hsplit : (r.encrypted.take (5 + length)).take 5 ++ (r.encrypted.take (5 + length)).drop 5 =
      r.encrypted.take (5 + length) := take_append_drop 5 _
  unfold EncryptedReader.openRecord
  dsimp only
  generalize hopen : r.cipher.unseal C ((r.encrypted.take (5 + length)).take 5)
    ((r.encrypted.take (5 + length)).drop 5) = opened
  obtain ⟨d, e | m⟩ := opened
  · exact h.delivered_error hp _
  · rw [h.cipher] at hopen
    obtain ⟨plain, hplain, hpiece⟩ := h.piece (5 + length)
    rw [← hsplit] at hpiece
    obtain ⟨hlt, hchunk, rfl, hct, hwire⟩ := genuine_record hplain h.bound
      (by rw [length_take, hlen]; omega) hpiece hopen
    rw [hsplit] at hwire
    refine ⟨⟨i + 1, pre, hlt, h.wire_eq, ?_, h.header, rfl, ?_, ?_⟩, ?_⟩
    · simp only [hwire, append_assoc, take_append_drop]
      exact h.undone
    · rw [take_succ_flatten hchunk, h.read_nil hp]
    · rintro _ ⟨⟩
    · rw [length_drop, hlen] at hct
      simp only [EncryptedReader.work, hp, length_nil, length_drop]
      omega

/-- **One iteration** of the loop of `poll_read`. -/
theorem guards_pollStep (n : Nat) :
    Guarded N sofar r n (r.pollStep C n) := by
  unfold EncryptedReader.pollStep
  by_cases hp : r.plaintext = []
  · rw [if_neg (not_not_intro hp)]
    rcases he : r.expect with e | _ | length
    · exact h.delivered_error hp _
    · exact guards_readMore h hp n
    · have h' : Genuine N sofar { r with expected := some length } i pre := by
        refine ⟨h.bound, h.wire_eq, h.undone, h.header, h.cipher, h.read, ?_⟩
        rintro _ ⟨⟩
        exact EncryptedReader.expect_decoded (r := r) h.expected he
      dsimp only
      by_cases hl : r.encrypted.length ≥ 5 + length
      · rw [if_pos hl]
        exact guards_openRecord h' hp hl n
      · rw [if_neg hl]
        exact guards_readMore h' hp n
  · rw [if_pos hp]
    exact guards_output h hp n

/-- **A whole read.** -/
theorem Genuine.readToEnd {sizes : List Nat} {fuel : Nat}
    (hfuel : r.work + sizes.length < fuel) :
    ∃ got, readToEnd (EncryptedReader.pollStep C) fuel r sizes = some got ∧
      Delivered N (prepend sofar got) := by
  have hbody : ∀ sofar r n, True → (∃ i pre, Genuine N sofar r i pre) →
      Guarded N sofar r n (r.pollStep C n) := by
    rintro sofar r n - ⟨i, pre, h⟩
    exact guards_pollStep h n
  exact readToEnd_inv trivial hbody ⟨i, pre, h⟩ (fun _ _ => trivial) hfuel

end Reader

end

/-- **Integrity.** Whatever the network makes of the records of a sender, as long as it forges none,
every read of it ends, in every fragmentation and with every sequence of buffers, and gives exactly
the chunks of the first `k` records for some `k`. It ends with a clean EOF only if the wire is, with
the header transform undone, these `k` records and nothing else. -/
theorem stream_integrity (C : Crypto) (hC : C.Lawful) (c : RecordCipher) (used : List Use)
    (keys : List (ByteArr 32)) (hinv : NonceInv c.state used keys) (cs : List Bytes)
    (hcs : Chunked cs) (hkeys : (keys ++ c.newKeys C cs).Nodup)
    (xor : Option (Bytes × ByteArr 16)) (wire : Bytes)
    (hwire : UnforgedWire C c (xor.map fun k => HeaderXor.inbound k.1 k.2 0) cs wire)
    (cuts sizes : List Nat) (fuel : Nat)
    (hfuel : 2 * wire.length + cuts.length + sizes.length < fuel) :
    ∃ k ≤ cs.length, ∃ fin, readToEnd (EncryptedReader.pollStep C) fuel
        (EncryptedReader.new (Source.mk wire cuts) c
          (xor.map fun k => HeaderXor.inbound k.1 k.2 0)) sizes =
        some ((cs.take k).flatten, fin) ∧
      (fin = .eof → unXor C (xor.map fun k => HeaderXor.inbound k.1 k.2 0) wire =
        some (c.wire C cs k)) := by
  let N : Network C := ⟨hC, c, used, keys, hinv, cs, hcs, hkeys, _, wire, hwire⟩
  have hstart : Genuine N [] (EncryptedReader.new (Source.mk wire cuts) c N.xor) 0 [] := by
    refine ⟨Nat.zero_le _, rfl, .refl, ?_, rfl, rfl, by rintro _ ⟨⟩⟩
    intro x hx
    obtain ⟨k, -, rfl⟩ := Option.map_eq_some_iff.mp hx
    exact Nat.succ_pos 4
  have hwork : (EncryptedReader.new (Source.mk wire cuts) c N.xor).work =
      2 * wire.length + cuts.length := by
    simp only [EncryptedReader.work, EncryptedReader.new, length_nil]
    omega
  obtain ⟨⟨got, fin⟩, hread, k, hk, hgot, heof⟩ :=
    hstart.readToEnd (by rw [hwork]; exact hfuel)
  dsimp only [prepend] at hgot heof
  rw [nil_append] at hgot
  subst hgot
  exact ⟨k, hk, fin, hread, heof⟩

/-- The records of the messages `[1]` and `[2]` under `Crypto.tagged`, the second one alone. -/
def secondRecord : Bytes :=
  [0x17, 0x03, 0x03, 0, 17, 2] ++ CipherKind.aes256Gcm.tag ⟨List.replicate 11 0 ++ [2], rfl⟩

theorem length_of_unseal {C : Crypto} {d : RecordCipher} {header ct m : Bytes}
    (h : (d.unseal C header ct).2 = .ok m) : 17 ≤ ct.length := by
  unfold RecordCipher.unseal at h
  split at h
  · cases h
  case h_2 len hlen =>
    simp only [decodeHeader] at hlen
    split at hlen
    · cases hlen
    case isFalse hvalid =>
      cases hlen
      split at h
      · cases h
      case isFalse heq =>
        have hle := (Classical.not_not.mp (not_or.mp hvalid).2).1
        rw [Classical.not_not.mp heq] at hle
        exact hle

/-- A wire of the length of a record with one byte of content has one piece that can open. -/
theorem unforgedWire_of_length {C : Crypto} {c : RecordCipher} {cs : List Bytes} {wire : Bytes}
    (hlen : wire.length = 22) (h : ∀ i ≤ cs.length, ∀ m,
      ((c.after C (cs.take i)).unseal C (wire.take 5) (wire.drop 5)).2 = .ok m →
      ∃ s ∈ c.sealed C cs, s.use = (c.after C (cs.take i)).next ∧ s.record = wire) :
    UnforgedWire C c none cs wire := by
  rintro pre out hpre ⟨⟩ i hi header ct m hl hpiece hopen
  have h17 := length_of_unseal hopen
  have hin : header ++ ct <:+: wire := hpiece.trans hpre.isInfix
  have hall : header ++ ct = wire := by
    refine hin.eq_of_length ?_
    have hle := hin.length_le
    rw [length_append] at hle ⊢
    omega
  subst hall
  rw [take_left' hl, drop_left' hl] at h
  exact h i hi m hopen

/-- A network that drops the first of two records. -/
theorem stream_integrity_dropped : ∃ k fin, readToEnd (EncryptedReader.pollStep Crypto.tagged) 100
    (EncryptedReader.new (Source.mk secondRecord [3, 0]) (.new [] [] .aes256Gcm) none) [7] =
      some ((([[1], [2]] : List Bytes).take k).flatten, fin) := by
  have hwire : UnforgedWire Crypto.tagged (.new [] [] .aes256Gcm) none [[1], [2]] secondRecord := by
    refine unforgedWire_of_length rfl fun i hi m hm => ?_
    match i, hi with
    | 0, _ => cases hm
    | 1, _ => exact ⟨_, mem_cons_of_mem _ mem_cons_self, rfl, rfl⟩
    | 2, _ => cases hm
  obtain ⟨k, -, fin, hread, -⟩ := stream_integrity Crypto.tagged Crypto.tagged_lawful
    (.new [] [] .aes256Gcm) [] _ (NonceInv.new [] [] .aes256Gcm) [[1], [2]] (by simp [Chunked]) (by
      rw [show (RecordCipher.new [] [] .aes256Gcm).newKeys Crypto.tagged [[1], [2]] = [] from rfl]
      simp) none
    secondRecord hwire [3, 0] [7] 100 (by decide)
  exact ⟨k, fin, hread⟩

end Xhttp.Encryption
