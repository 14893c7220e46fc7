import RustXhttp.Tls.Record

/-!
# Sealed records as a channel (`src/tls/tls13/record.rs`)

`open_in_place`, and what a sequence of sealed records is for the other end.

- **In place** (`unseal_eq_openInPlace`): `open` and `open_in_place` agree on every byte string.
- **Authentication** (`unseal_of_not_seals`): what was not sealed under the current nonce leaves the
  keys as they are. That the AEAD accepts nothing else is assumed (`Aead.Authentic`).
- **Runs** (`SealRun`): each record of a run opens, its header announces its length, and no nonce
  occurs twice as long as the count does not wrap around (`SealRun.nodup`).
-/

namespace Xhttp.Tls

open List

/-- An AEAD that accepts only what was encrypted under the same key and nonce and with the same
associated data. -/
structure Aead.Authentic (A : Aead) : Prop extends Aead.Lawful A where
  encrypt_decrypt : ∀ {suite key nonce aad body tag msg},
    A.decrypt suite key nonce aad body tag = some msg →
      ∃ t : ByteArr 16, A.encrypt suite key nonce aad msg = some (body, t) ∧ t.val = tag

theorem Aead.tagged_authentic : Aead.tagged.Authentic where
  toLawful := tagged_lawful
  encrypt_decrypt := by
    intro suite key nonce aad body tag msg h
    simp only [tagged, Option.ite_none_right_eq_some, Option.some.injEq] at h
    obtain ⟨rfl, rfl⟩ := h
    exact ⟨_, rfl, rfl⟩

/-! ## Opening in place -/

/-- The loop that goes back over the padding, from `stop` on. -/
def endOfContent (buf : Bytes) : Nat → Nat
  | 0 => 0
  | stop + 1 =>
    if 5 < stop + 1 ∧ buf[stop]? = some 0 then endOfContent buf stop else stop + 1

/-- The type of the content and where the content ends, in a buffer decrypted up to `stop`. -/
def contentEnd (buf : Bytes) (stop : Nat) : Option (UInt8 × Nat) :=
  let stop := endOfContent buf stop
  if stop = 5 then none else (buf[stop - 1]?).map fun contentType => (contentType, stop - 1)

/-- `open_in_place`: the keys, the buffer and the type with the end of the content. The AEADs check
the tag first, so that a buffer that is not authentic is not changed. -/
def RecordKeys.openInPlace (A : Aead) (k : RecordKeys) (buf : Bytes) :
    RecordKeys × Bytes × Option (UInt8 × Nat) :=
  if buf.length < 5 then (k, buf, none)
  else
    let len := recordLen buf
    if buf.length < 5 + len ∨ len < tagLen then (k, buf, none)
    else
      let split := len - tagLen
      let body := (buf.drop 5).take split
      let tag := (buf.drop (5 + split)).take tagLen
      match A.decrypt k.suite k.key k.nonce (buf.take 5) body tag with
      | none => (k, buf, none)
      | some inner =>
        let buf := buf.take 5 ++ inner ++ buf.drop (5 + split)
        (k.next, buf, contentEnd buf (5 + split))

/-- The last byte of the plaintext is padding or the type of the content. -/
theorem splitInner_snoc (inner : Bytes) (b : UInt8) :
    splitInner (inner ++ [b]) = if b = 0 then splitInner inner else some (b, inner) := by
  rw [splitInner, reverse_append, reverse_singleton, singleton_append, dropWhile_cons]
  by_cases hb : b = 0
  · rw [if_pos (by simp [hb]), if_pos hb, splitInner]
  · rw [if_neg (by simp [hb]), if_neg hb]
    exact congrArg (fun rest => some (b, rest)) (reverse_reverse inner)

/-- One round of the loop, behind the header. -/
theorem endOfContent_succ (buf : Bytes) (n : Nat) :
    endOfContent buf (5 + (n + 1)) =
      if buf[5 + n]? = some 0 then endOfContent buf (5 + n) else 5 + n + 1 := by
  have hround : endOfContent buf (5 + n + 1) =
      if 5 < 5 + n + 1 ∧ buf[5 + n]? = some 0 then endOfContent buf (5 + n) else 5 + n + 1 := rfl
  have hbehind : 5 < 5 + n + 1 := by omega
  rw [← Nat.add_assoc, hround]
  simp only [hbehind, true_and]

/-- The loop finds the content that `splitInner` finds in the first `n` bytes. -/
theorem splitInner_take {hd : Bytes} (h5 : hd.length = 5) (inner more : Bytes) {n : Nat}
    (hn : n ≤ inner.length) :
    splitInner (inner.take n) = (contentEnd (hd ++ inner ++ more) (5 + n)).map fun r =>
      (r.1, ((hd ++ inner ++ more).take r.2).drop 5) := by
  induction n with
  | zero => rfl
  | succ n ih =>
    have hbyte : (hd ++ inner ++ more)[5 + n]? = some inner[n] := by
      rw [append_assoc, getElem?_append_right (by omega), h5, Nat.add_sub_cancel_left,
        getElem?_append_left hn, getElem?_eq_getElem hn]
    have hround := endOfContent_succ (hd ++ inner ++ more) n
    rw [hbyte] at hround
    rw [take_succ_eq_append_getElem hn, splitInner_snoc]
    by_cases hb : inner[n] = 0
    · rw [if_pos (by rw [hb])] at hround
      rw [if_pos hb, ih (by omega), contentEnd, contentEnd, hround]
    · have htake : ((hd ++ inner ++ more).take (5 + n)).drop 5 = inner.take n := by
        rw [drop_take, append_assoc, drop_left' h5, Nat.add_sub_cancel_left,
          take_append_of_le_length (by omega)]
      rw [if_neg (by simp [hb])] at hround
      simp only [contentEnd, hround]
      rw [if_neg hb, if_neg (by omega), Nat.add_sub_cancel, hbyte, Option.map_some,
        Option.map_some, htake]

/-- `open` copies the record and opens the copy in place. -/
theorem unseal_eq_openInPlace {A : Aead} (hA : A.Authentic) (k : RecordKeys) (record : Bytes) :
    k.unseal A record =
      ((k.openInPlace A record).1, (k.openInPlace A record).2.2.map fun r =>
        (r.1, ((k.openInPlace A record).2.1.take r.2).drop 5)) := by
  unfold RecordKeys.unseal RecordKeys.openInPlace
  split
  case isTrue => rfl
  case isFalse h5 =>
    simp only
    split
    case isTrue => rfl
    case isFalse hlen =>
      rcases hdec : A.decrypt k.suite k.key k.nonce (record.take 5)
        ((record.drop 5).take (recordLen record - tagLen))
        ((record.drop (5 + (recordLen record - tagLen))).take tagLen) with _ | inner
      · rfl
      · -- decryption in place keeps the length
        obtain ⟨t, henc, -⟩ := hA.encrypt_decrypt hdec
        have hsize := hA.length_encrypt henc
        rw [length_take, length_drop] at hsize
        have h5' : (record.take 5).length = 5 := by
          rw [length_take]
          omega
        have hn : recordLen record - tagLen ≤ inner.length := by omega
        have hwhole := splitInner_take h5' inner
          (record.drop (5 + (recordLen record - tagLen))) hn
        rw [take_of_length_le (by omega)] at hwhole
        exact congrArg (Prod.mk k.next) hwhole

/-! ## Authentication -/

/-- The body of a record is an encryption under the keys and the current nonce, with the header as
associated data. -/
def Seals (A : Aead) (k : RecordKeys) (record : Bytes) : Prop :=
  ∃ msg ct tag, A.encrypt k.suite k.key k.nonce (record.take 5) msg = some (ct, tag) ∧
    ct ++ tag.val = (record.drop 5).take (recordLen record)

/-- A record that fails authentication is rejected and leaves the keys as they are. -/
theorem unseal_of_not_seals {A : Aead} (hA : A.Authentic) {k : RecordKeys} {record : Bytes}
    (h : ¬ Seals A k record) : k.unseal A record = (k, none) := by
  unfold RecordKeys.unseal
  split
  case isTrue => rfl
  case isFalse h5 =>
    simp only
    split
    case isTrue => rfl
    case isFalse hlen =>
      rcases hdec : A.decrypt k.suite k.key k.nonce (record.take 5)
        ((record.drop 5).take (recordLen record - tagLen))
        ((record.drop (5 + (recordLen record - tagLen))).take tagLen) with _ | inner
      · rfl
      · obtain ⟨t, henc, htag⟩ := hA.encrypt_decrypt hdec
        refine absurd ⟨inner, _, t, henc, ?_⟩ h
        have hsplit : recordLen record - tagLen + tagLen = recordLen record := by omega
        rw [htag, ← drop_drop, ← take_add, hsplit]

/-! ## Nonces -/

theorem RecordKeys.seqBytes_inj {a b : UInt64} (h : seqBytes a = seqBytes b) : a = b := by
  have hbytes := congrArg Subtype.val h
  simp only [seqBytes, map_cons, map_nil, List.cons.injEq, and_true, ← UInt8.toNat_inj,
    UInt64.toNat_toUInt8, UInt64.toNat_shiftRight, Nat.shiftRight_eq_div_pow] at hbytes
  have ha := a.toNat_lt
  have hb := b.toNat_lt
  apply UInt64.toNat_inj.mp
  simp at hbytes
  omega

theorem zipWith_xor_cancel {as bs cs : Bytes} (hb : bs.length ≤ as.length)
    (hlen : bs.length = cs.length)
    (h : List.zipWith (· ^^^ ·) as bs = List.zipWith (· ^^^ ·) as cs) : bs = cs := by
  induction as generalizing bs cs with
  | nil =>
    obtain rfl := length_eq_zero_iff.mp (Nat.le_zero.mp hb)
    exact (length_eq_zero_iff.mp hlen.symm).symm
  | cons a as ih =>
    cases bs with
    | nil => exact (length_eq_zero_iff.mp hlen.symm).symm
    | cons b bs =>
      cases cs with
      | nil => simp at hlen
      | cons c cs =>
        simp only [zipWith_cons_cons, List.cons.injEq, UInt8.xor_right_inj] at h
        simp only [length_cons] at hb hlen
        rw [h.1, ih (by omega) (by omega) h.2]

/-- Under one key and IV, the nonce tells the count. -/
theorem RecordKeys.nonce_inj {k : RecordKeys} {seq : UInt64}
    (h : k.nonce = { k with seq := seq }.nonce) : k.seq = seq := by
  have hval := append_cancel_left (congrArg Subtype.val h)
  have hiv : (seqBytes k.seq).val.length ≤ (k.iv.val.drop 4).length := by
    have hseq := (seqBytes k.seq).length_val
    have hiv := k.iv.length_val
    rw [length_drop]
    omega
  have hlen : (seqBytes k.seq).val.length = (seqBytes seq).val.length := by
    rw [(seqBytes k.seq).length_val, (seqBytes seq).length_val]
  have hbytes := zipWith_xor_cancel hiv hlen hval
  exact seqBytes_inj (Subtype.ext hbytes)

/-! ## Runs -/

/-- The arguments of a call of `seal_with_padding` that fit in a record. -/
structure Sealing where
  contentType : UInt8
  plaintext : Bytes
  padLen : Nat
  type_ne : contentType ≠ 0
  fits : plaintext.length + padLen + 17 ≤ 65535

section

variable (A : Aead)

/-- The calls one after the other: the keys before each of them, and the record. -/
def RecordKeys.sealCalls (k : RecordKeys) : List Sealing → Option (List (RecordKeys × Bytes))
  | [] => some []
  | c :: calls =>
    (k.sealWithPadding A c.contentType c.plaintext c.padLen).bind fun sealed =>
      (sealCalls sealed.1 calls).map fun run => (k, sealed.2) :: run

/-- `open` of one record after the other. -/
def RecordKeys.unsealAll (k : RecordKeys) : List Bytes → RecordKeys × List (Option (UInt8 × Bytes))
  | [] => (k, [])
  | record :: records =>
    let opened := k.unseal A record
    let rest := unsealAll opened.1 records
    (rest.1, opened.2 :: rest.2)

/-- The records that the calls give from the keys `k` on. -/
inductive SealRun : RecordKeys → List Sealing → List (RecordKeys × Bytes) → Prop where
  | nil (k : RecordKeys) : SealRun k [] []
  | cons {k : RecordKeys} {c : Sealing} {record : Bytes} {calls : List Sealing}
      {run : List (RecordKeys × Bytes)}
      (hseal : k.sealWithPadding A c.contentType c.plaintext c.padLen = some (k.next, record))
      (hlen : recordLen record + 5 = record.length)
      (hopen : k.unseal A record = (k.next, some (c.contentType, c.plaintext)))
      (htail : SealRun k.next calls run) : SealRun k (c :: calls) ((k, record) :: run)

end

variable {A : Aead} {k : RecordKeys} {calls : List Sealing} {run : List (RecordKeys × Bytes)}

theorem SealRun.exists (hA : A.Lawful) (k : RecordKeys) (calls : List Sealing) :
    ∃ run, SealRun A k calls run := by
  induction calls generalizing k with
  | nil => exact ⟨[], .nil k⟩
  | cons c calls ih =>
    obtain ⟨run, hrun⟩ := ih k.next
    obtain ⟨record, hseal, hlen, hrl, hopen⟩ :=
      unseal_sealInto hA k c.type_ne c.plaintext c.padLen c.fits
    exact ⟨(k, record) :: run, .cons hseal (by omega) hopen hrun⟩

namespace SealRun

theorem sealCalls (h : SealRun A k calls run) : k.sealCalls A calls = some run := by
  induction h with
  | nil k => rfl
  | cons hseal _ _ _ ih => rw [RecordKeys.sealCalls, hseal, Option.bind_some, ih, Option.map_some]

theorem recordLen_eq (h : SealRun A k calls run) :
    ∀ s ∈ run, recordLen s.2 + 5 = s.2.length := by
  induction h with
  | nil k => exact nofun
  | cons _ hlen _ _ ih => exact forall_mem_cons.mpr ⟨hlen, ih⟩

/-- The keys of a call differ from the first ones only in their count. -/
theorem keys (h : SealRun A k calls run) :
    ∀ s ∈ run, ∃ i < calls.length, s.1 = { k with seq := k.seq + UInt64.ofNat i } := by
  induction h with
  | nil k => exact nofun
  | @cons k c record calls run _ _ _ _ ih =>
    refine forall_mem_cons.mpr ⟨⟨0, by simp, by simp⟩, ?_⟩
    intro s hs
    obtain ⟨i, hi, hkeys⟩ := ih s hs
    have hseq : k.seq + 1 + UInt64.ofNat i = k.seq + UInt64.ofNat (i + 1) := by
      rw [UInt64.ofNat_add, UInt64.add_comm (UInt64.ofNat i), ← UInt64.add_assoc]
      rfl
    refine ⟨i + 1, by simpa using hi, ?_⟩
    rw [hkeys, ← hseq]
    rfl

/-- As long as the count does not wrap around, no nonce is used twice. -/
theorem nodup (h : SealRun A k calls run) (hcount : calls.length ≤ 18446744073709551616) :
    (run.map fun s => s.1.nonce).Nodup := by
  induction h with
  | nil k => exact nodup_nil
  | @cons k c record calls run _ _ _ htail ih =>
    rw [length_cons] at hcount
    rw [map_cons, nodup_cons]
    refine ⟨?_, ih (by omega)⟩
    intro hmem
    obtain ⟨s, hs, hnonce⟩ := mem_map.mp hmem
    obtain ⟨i, hi, hkeys⟩ := htail.keys s hs
    rw [hkeys] at hnonce
    have hseq : k.seq = k.seq + 1 + UInt64.ofNat i := RecordKeys.nonce_inj hnonce.symm
    have hnat := congrArg UInt64.toNat hseq
    rw [UInt64.toNat_add, UInt64.toNat_add, UInt64.toNat_ofNat'] at hnat
    have hlt := k.seq.toNat_lt
    have hone : (1 : UInt64).toNat = 1 := rfl
    omega

/-- What fails authentication is answered with nothing, and the next record still opens. -/
theorem unsealAll_forged (hA : A.Authentic) {forged : List Bytes}
    (hforged : ∀ x ∈ forged, ¬ Seals A k x) (records : List Bytes) :
    k.unsealAll A (forged ++ records) =
      ((k.unsealAll A records).1,
        List.replicate forged.length none ++ (k.unsealAll A records).2) := by
  induction forged with
  | nil => rfl
  | cons x forged ih =>
    have hx := unseal_of_not_seals hA (hforged x (by simp))
    rw [cons_append, RecordKeys.unsealAll, hx, ih fun y hy => hforged y (by simp [hy])]
    rfl

/-- Opening the records in order gives what was sealed, whatever comes between them that fails
authentication. -/
theorem unsealAll (h : SealRun A k calls run) (hA : A.Authentic) {forged : List (List Bytes)}
    (hlen : forged.length = run.length)
    (hforged : ∀ f ∈ forged.zip run, ∀ x ∈ f.1, ¬ Seals A f.2.1 x) :
    (k.unsealAll A ((forged.zip run).flatMap fun f => f.1 ++ [f.2.2])).2 =
      (forged.zip calls).flatMap fun f =>
        List.replicate f.1.length none ++ [some (f.2.contentType, f.2.plaintext)] := by
  induction h generalizing forged with
  | nil k =>
    obtain rfl := length_eq_zero_iff.mp hlen
    rfl
  | @cons k c record calls run _ _ hopen _ ih =>
    cases forged with
    | nil => simp at hlen
    | cons f forged =>
      rw [zip_cons_cons] at hforged
      have htail := ih (by simpa using hlen) fun g hg => hforged g (by simp [hg])
      have hf : ∀ x ∈ f, ¬ Seals A k x := hforged (f, k, record) (by simp)
      simp only [zip_cons_cons, flatMap_cons, append_assoc,
        singleton_append, unsealAll_forged hA hf, RecordKeys.unsealAll, hopen, htail]

end SealRun

/-- **A faithful channel.** Fewer than 2⁶⁴ records are sealed without a panic under pairwise
distinct nonces, each with its length in its header. An opener with equal keys gets what was
sealed, whatever it is given in between that was not sealed under its current nonce. -/
theorem record_channel (hA : A.Authentic) (suite : CipherSuite) (key : ByteArr suite.keyLen)
    (iv : ByteArr 12) (calls : List Sealing) (hcount : calls.length < 18446744073709551616) :
    ∃ run, (RecordKeys.new suite key iv).sealCalls A calls = some run ∧
      (∀ s ∈ run, recordLen s.2 + 5 = s.2.length) ∧
      (run.map fun s => s.1.nonce).Nodup ∧
      (∀ forged : List (List Bytes), forged.length = run.length →
        (∀ f ∈ forged.zip run, ∀ x ∈ f.1, ¬ Seals A f.2.1 x) →
          ((RecordKeys.new suite key iv).unsealAll A
              ((forged.zip run).flatMap fun f => f.1 ++ [f.2.2])).2 =
            (forged.zip calls).flatMap fun f =>
              List.replicate f.1.length none ++ [some (f.2.contentType, f.2.plaintext)]) ∧
      ∀ (k : RecordKeys) (record : Bytes),
        (¬ Seals A k record → k.unseal A record = (k, none)) ∧
          k.unseal A record =
            ((k.openInPlace A record).1, (k.openInPlace A record).2.2.map fun r =>
              (r.1, ((k.openInPlace A record).2.1.take r.2).drop 5)) := by
  obtain ⟨run, hrun⟩ := SealRun.exists hA.toLawful (RecordKeys.new suite key iv) calls
  exact ⟨run, hrun.sealCalls, hrun.recordLen_eq, hrun.nodup (by omega),
    fun forged hlen hforged => hrun.unsealAll hA hlen hforged,
    fun k record => ⟨unseal_of_not_seals hA, unseal_eq_openInPlace hA k record⟩⟩

/-- Content that ends in zeros, with padding behind it, and then no content. -/
def sampleCalls : List Sealing :=
  [⟨23, [1, 0, 0], 2, by decide, by decide⟩, ⟨22, [], 0, by decide, by decide⟩]

theorem record_channel_tagged :
    ∃ run, (RecordKeys.new .aes128GcmSha256 (zeros 16) (zeros 12)).sealCalls .tagged sampleCalls =
      some run ∧ (run.map fun s => s.1.nonce).Nodup := by
  obtain ⟨run, hseal, -, hnodup, -⟩ := record_channel Aead.tagged_authentic .aes128GcmSha256
    (zeros 16) (zeros 12) sampleCalls (by decide)
  exact ⟨run, hseal, hnodup⟩

end Xhttp.Tls
