import RustXhttp.Encryption.Xor

/-!
# The encrypting writer (`src/dispatcher.rs`, `ProtocolWriter`)

`ProtocolWriter::send` in its encrypted mode cuts the bytes into chunks of 8192, seals each one
and applies the header transform to the record, under the lock of the state. The records go to the
download channel; here the channel takes every record.

* `Opens`: records that open, one after the other, to a list of chunks.
* `sendChunks_spec`: what is sent opens to what was passed to `send`, once the header transform is
  undone.
-/

namespace Xhttp.Dispatch

open Encryption List

/-- The errors of `DispatchError` that `send` can return. -/
inductive SendError where
  | encryptionRecord (e : RecordError)
  | encryptionXor (e : RecordError)
  | downloadClosed
  deriving DecidableEq, Repr

structure EncryptState where
  cipher : RecordCipher
  xor : Option HeaderXor
  deriving DecidableEq

section

variable (C : Crypto)

/-- One round of the loop of `send` up to the channel: seal a chunk and transform the record. -/
def EncryptState.sealChunk (st : EncryptState) (chunk : Bytes) :
    EncryptState × Except SendError Bytes :=
  match st.cipher.seal C chunk with
  | (c, .error e) => ({ st with cipher := c }, .error (.encryptionRecord e))
  | (c, .ok record) =>
    match st.xor with
    | none => (⟨c, none⟩, .ok record)
    | some x =>
      match x.apply C record with
      | (x, .error e) => (⟨c, some x⟩, .error (.encryptionXor e))
      | (x, .ok record) => (⟨c, some x⟩, .ok record)

/-- The loop of `send`: the state after it, the records sent, and the result. -/
def EncryptState.sendChunks (st : EncryptState) :
    List Bytes → EncryptState × List Bytes × Except SendError Unit
  | [] => (st, [], .ok ())
  | chunk :: chunks =>
    match st.sealChunk C chunk with
    | (st, .error e) => (st, [], .error e)
    | (st, .ok record) =>
      let r := sendChunks st chunks
      (r.1, record :: r.2.1, r.2.2)

/-- `ProtocolWriter::send`. -/
def EncryptState.send (st : EncryptState) (bytes : Bytes) :
    EncryptState × List Bytes × Except SendError Unit :=
  st.sendChunks C (chunks 8192 bytes)

/-- A sequence of `send` calls, up to the first error. -/
def EncryptState.sendAll (st : EncryptState) :
    List Bytes → EncryptState × List Bytes × Except SendError Unit
  | [] => (st, [], .ok ())
  | m :: ms =>
    match st.send C m with
    | (st, records, .error e) => (st, records, .error e)
    | (st, records, .ok ()) =>
      let r := sendAll st ms
      (r.1, records ++ r.2.1, r.2.2)

end

/-! ## Records that open -/

/-- The records open, in order and under the cipher `c`, to the chunks, and leave `c'`. -/
inductive Opens (C : Crypto) : RecordCipher → List Bytes → List Bytes → RecordCipher → Prop where
  | nil (c : RecordCipher) : Opens C c [] [] c
  | cons {c d c' : RecordCipher} {header ct chunk : Bytes} {records chunks : List Bytes}
      (hl : header.length = 5) (hd : decodeHeader header = .ok ct.length)
      (hu : c.unseal C header ct = (d, .ok chunk)) (h : Opens C d records chunks c') :
      Opens C c ((header ++ ct) :: records) (chunk :: chunks) c'

theorem Opens.append {C : Crypto} {c d e : RecordCipher} {rs rs' cs cs' : List Bytes}
    (h : Opens C c rs cs d) (h' : Opens C d rs' cs' e) : Opens C c (rs ++ rs') (cs ++ cs') e := by
  induction h with
  | nil => exact h'
  | cons hl hd hu _ ih => exact .cons hl hd hu (ih h')

/-! ## The header transform of a writer -/

/-- An outbound transform that is at the start of a header. -/
def AtHeader (xor : Option HeaderXor) : Prop :=
  ∀ x, xor = some x → x.decrypt = false ∧ x.skip = 0 ∧ x.header = []

/-- A transform that a writer starts with. -/
theorem atHeader_outbound (xor : Option (Bytes × ByteArr 16)) :
    AtHeader (xor.map fun k => HeaderXor.outbound k.1 k.2 0) := by
  intro x hx
  obtain ⟨k, -, rfl⟩ := Option.map_eq_some_iff.mp hx
  exact ⟨rfl, rfl, rfl⟩

/-- The reader's transform is the mirror of the writer's. -/
theorem mirror_outbound (xor : Option (Bytes × ByteArr 16)) :
    (xor.map fun k => HeaderXor.outbound k.1 k.2 0).map HeaderXor.mirror =
      xor.map fun k => HeaderXor.inbound k.1 k.2 0 := by
  rw [Option.map_map]
  rfl

/-- The transform, if there is one, takes `bs` to `out` and then is `xor'`. -/
def Transforms (C : Crypto) (xor : Option HeaderXor) (bs : Bytes) (xor' : Option HeaderXor)
    (out : Bytes) : Prop :=
  match xor, xor' with
  | none, none => out = bs
  | some x, some y => x.applyBytes C bs = (y, .ok out)
  | _, _ => False

section

variable {C : Crypto} {xor xor' xor'' : Option HeaderXor} {as bs out out' : Bytes}

theorem Transforms.refl : Transforms C xor [] xor [] := by
  cases xor <;> rfl

theorem Transforms.append (h : Transforms C xor as xor' out)
    (h' : Transforms C xor' bs xor'' out') : Transforms C xor (as ++ bs) xor'' (out ++ out') := by
  match xor, xor', xor'', h, h' with
  | none, none, none, h, h' =>
    simp only [Transforms] at h h' ⊢
    rw [h, h']
  | some _, some _, some _, h, h' =>
    simp only [Transforms] at h h' ⊢
    rw [HeaderXor.applyBytes_append h, h']
    rfl

end

section

variable {C : Crypto} (hC : C.Lawful)

include hC

/-- A chunk becomes a record that opens to it, and the transform is again at a header. -/
theorem sealChunk_spec {st : EncryptState} {chunk : Bytes} (h0 : 0 < chunk.length)
    (h : chunk.length ≤ 8192) (hx : AtHeader st.xor) :
    ∃ st' plain record, st.sealChunk C chunk = (st', .ok record) ∧
      Opens C st.cipher [plain] [chunk] st'.cipher ∧
      Transforms C st.xor plain st'.xor record ∧ AtHeader st'.xor ∧
      plain.length = record.length := by
  obtain ⟨c, header, ct, hseal, hl, hd, hu⟩ := open_seal hC st.cipher h0 h
  have hopens : Opens C st.cipher [header ++ ct] [chunk] c := .cons hl hd hu (.nil c)
  simp only [EncryptState.sealChunk, hseal]
  rcases hxor : st.xor with _ | x
  · exact ⟨⟨c, none⟩, header ++ ct, header ++ ct, rfl, hopens, rfl, by simp [AtHeader], rfl⟩
  · obtain ⟨hdec, hs, hh⟩ := hx x hxor
    obtain ⟨out, hout⟩ : ∃ out, x.applyBytes C (header ++ ct) =
        ({ x with pos := x.pos + 5 }, .ok out) :=
      ⟨_, HeaderXor.applyBytes_record hdec hs hh hl hd⟩
    have happly : x.apply C (header ++ ct) = ({ x with pos := x.pos + 5 }, .ok out) :=
      (x.apply_eq _ (by rw [hh]; exact Nat.succ_pos 4)).trans hout
    refine ⟨⟨c, some { x with pos := x.pos + 5 }⟩, header ++ ct, out, ?_, hopens, hout, ?_,
      (HeaderXor.length_applyBytes hout).symm⟩
    · simp only [happly]
    · rintro _ ⟨⟩
      exact ⟨hdec, hs, hh⟩

/-- The loop of `send` over chunks of one to 8192 bytes. -/
theorem sendChunks_spec (st : EncryptState) (cs : List Bytes)
    (hcs : ∀ chunk ∈ cs, 0 < chunk.length ∧ chunk.length ≤ 8192) (hx : AtHeader st.xor) :
    ∃ st' plain records, st.sendChunks C cs = (st', records, .ok ()) ∧
      Opens C st.cipher plain cs st'.cipher ∧
      Transforms C st.xor plain.flatten st'.xor records.flatten ∧ AtHeader st'.xor ∧
      plain.map List.length = records.map List.length := by
  induction cs generalizing st with
  | nil => exact ⟨st, [], [], rfl, .nil _, .refl, hx, rfl⟩
  | cons chunk cs ih =>
    obtain ⟨h0, h⟩ := hcs chunk (mem_cons_self ..)
    obtain ⟨st₁, plain, record, hseal, hopen, htr, hx₁, hlen⟩ := sealChunk_spec hC h0 h hx
    obtain ⟨st₂, plains, records, hsend, hopens, htrs, hx₂, hlens⟩ :=
      ih st₁ (fun c hc => hcs c (mem_cons_of_mem _ hc)) hx₁
    refine ⟨st₂, plain :: plains, record :: records, ?_, hopen.append hopens, htr.append htrs, hx₂,
      ?_⟩
    · simp only [EncryptState.sendChunks, hseal, hsend]
    · rw [map_cons, map_cons, hlen, hlens]

/-- A sequence of `send` calls is one loop over all chunks. -/
theorem sendAll_spec (st : EncryptState) (ms : List Bytes) (hx : AtHeader st.xor) :
    ∃ st' plain records, st.sendAll C ms = (st', records, .ok ()) ∧
      Opens C st.cipher plain (ms.flatMap (chunks 8192)) st'.cipher ∧
      Transforms C st.xor plain.flatten st'.xor records.flatten ∧ AtHeader st'.xor ∧
      plain.map List.length = records.map List.length := by
  induction ms generalizing st with
  | nil => exact ⟨st, [], [], rfl, .nil _, .refl, hx, rfl⟩
  | cons m ms ih =>
    obtain ⟨st₁, plain, records, hsend, hopen, htr, hx₁, hlen⟩ := sendChunks_spec hC st
      (chunks 8192 m) (fun _ hc => length_of_mem_chunks (by decide) hc) hx
    obtain ⟨st₂, plains, recordss, hsends, hopens, htrs, hx₂, hlens⟩ := ih st₁ hx₁
    refine ⟨st₂, plain ++ plains, records ++ recordss, ?_, hopen.append hopens, ?_, hx₂, ?_⟩
    · simp only [EncryptState.sendAll, EncryptState.send, hsend, hsends]
    · rw [flatten_append, flatten_append]
      exact htr.append htrs
    · rw [map_append, map_append, hlen, hlens]

end

end Xhttp.Dispatch
