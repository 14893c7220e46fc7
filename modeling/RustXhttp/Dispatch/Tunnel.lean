import RustXhttp.Dispatch.Pump
import RustXhttp.Encryption.Transparent
import RustXhttp.Vision.Grammar

/-!
# A TCP session from end to end (`src/dispatcher.rs`, `serve_tcp`)

`serve_tcp` puts the layers together: the uplink is read through the decryption of the session and
through Vision when the flow says so, and what the target sends goes through the same layers back.

* `Layer`: the ciphers of one direction; `Sent`: records that a sender with them made.
* `rest_of_seals`: a reader over records has exactly their pieces to give.
* `FlowReader`: the reader of `pump_tcp`, with or without Vision.
* `uplink_reaches_target`, `downlink_reaches_client`: for every client, fragmentation and
  interleaving, the bytes of each direction arrive in order and complete.
-/

namespace Xhttp.Dispatch

open Encryption Vision List

/-! ## Records and what is read from them -/

/-- The cipher and the sender's header transform of one direction of an encrypted session, at the
start of a record: the first one, or any later one. -/
structure Layer where
  cipher : RecordCipher
  xor : Option HeaderXor
  atHeader : AtHeader xor

namespace Layer

/-- The writer of a session. -/
def writer : Option Layer → ProtocolWriter
  | none => .plain
  | some l => .encrypted ⟨l.cipher, l.xor⟩

/-- The reader at the other end, which has read as many records. -/
def reader (C : Crypto) : Option Layer → Source → ClientReader C
  | none, source => .plain source
  | some l, source => .encrypted (.new source l.cipher (l.xor.map HeaderXor.mirror))

end Layer

/-- The pieces that a sender takes at a time; without encryption they are of any size. -/
def Pieces (l : Option Layer) (cs : List Bytes) : Prop :=
  l.isSome = true → ∀ c ∈ cs, 0 < c.length ∧ c.length ≤ 8192

section Records

variable {C : Crypto}

variable {w w' : ProtocolWriter} {pieces records : List Bytes}

/-- What an encrypting writer put into the channel opens to the pieces. -/
theorem seals_opens (hC : C.Lawful) (h : Outputs (Pump.Seals C) w pieces w' records)
    (hpieces : ∀ c ∈ pieces, 0 < c.length ∧ c.length ≤ 8192) {st : EncryptState}
    (hw : w = .encrypted st) (hx : AtHeader st.xor) :
    ∃ st' plain, w' = .encrypted st' ∧ AtHeader st'.xor ∧
      Opens C st.cipher plain pieces st'.cipher ∧
      Transforms C st.xor plain.flatten st'.xor records.flatten ∧
      plain.map List.length = records.map List.length := by
  induction h generalizing st with
  | nil w => exact ⟨st, [], hw, hx, .nil _, .refl, rfl⟩
  | @cons w₀ w₁ w₂ c cs rs rs' hseals _ ih =>
    subst hw
    obtain ⟨h0, h1⟩ := hpieces c mem_cons_self
    obtain ⟨st₁, plain, record, hseal, hopen, htr, hx₁, hlen⟩ := sealChunk_spec hC h0 h1 hx
    obtain ⟨record', hseal', rfl⟩ := hseals
    simp only [ProtocolWriter.sealChunk, hseal] at hseal'
    obtain ⟨rfl, hrec⟩ := Prod.mk.inj hseal'
    cases hrec
    have hne : record ≠ [] := by
      rintro rfl
      cases hopen with
      | cons hl => rw [length_append, hl] at hlen; simp at hlen
    obtain ⟨st₂, plains, hw₂, hx₂, hopens, htrs, hlens⟩ :=
      ih (fun c' hc' => hpieces c' (mem_cons_of_mem _ hc')) rfl hx₁
    rw [if_neg hne]
    refine ⟨st₂, plain :: plains, hw₂, hx₂, hopen.append hopens, ?_, ?_⟩
    · exact htr.append htrs
    · rw [singleton_append, map_cons, map_cons, hlen, hlens]

theorem seals_plain (h : Outputs (Pump.Seals C) w pieces w' records) (hw : w = .plain) :
    records.flatten = pieces.flatten := by
  induction h with
  | nil => rfl
  | @cons w₀ w₁ w₂ c cs rs rs' hseals _ ih =>
    subst hw
    obtain ⟨record, hseal, rfl⟩ := hseals
    cases hseal
    rw [flatten_append, ih rfl, flatten_cons]
    split
    case isTrue h => rw [h]; rfl
    case isFalse => simp

/-- A reader at the start of a transport. -/
theorem encryptedReader_new (cipher : RecordCipher) {xor : Option HeaderXor} {wire plain : Bytes}
    (hwire : unXor C xor wire = some plain) (hheader : ∀ x, xor = some x → x.header.length < 5)
    (cuts : List Nat) :
    (EncryptedReader.new (Source.mk wire cuts) cipher xor).Ok C ∧
      (EncryptedReader.new (Source.mk wire cuts) cipher xor).rest C =
        openStream C cipher plain := by
  refine ⟨⟨?_, hheader, fun _ h => by cases h⟩, ?_⟩
  · simp [EncryptedReader.new, hwire]
  · simp [EncryptedReader.rest, EncryptedReader.unopened, EncryptedReader.new, hwire]

/-- A reader over some of the records, from the first on, has pieces of the sender to give, from the
first on, and ends cleanly. -/
theorem rest_of_seals (hC : C.Lawful) {l : Option Layer}
    (h : Outputs (Pump.Seals C) (Layer.writer l) pieces w records) (hpieces : Pieces l pieces)
    {taken : List Bytes} (htaken : taken <+: records) (cuts : List Nat) :
    ∃ got, (Layer.reader C l (Source.mk taken.flatten cuts)).Ok ∧
      (Layer.reader C l (Source.mk taken.flatten cuts)).rest = (got, .eof) ∧
      got <+: pieces.flatten ∧ (taken = records → got = pieces.flatten) := by
  cases l with
  | none =>
    have hflat := seals_plain h rfl
    refine ⟨taken.flatten, trivial, rfl, ?_, fun hall => by rw [hall, hflat]⟩
    obtain ⟨more, rfl⟩ := htaken
    rw [← hflat, flatten_append]
    exact prefix_append ..
  | some l =>
    obtain ⟨st, plain, -, -, hopens, htr, hlens⟩ := seals_opens hC h (hpieces rfl) rfl l.atHeader
    have hlength : records.flatten.length = plain.flatten.length := by
      rw [length_flatten, length_flatten, hlens]
    obtain ⟨more, rfl⟩ := htaken
    have hwire := unXor_take htr l.atHeader taken.flatten.length
    rw [flatten_append, take_left] at hwire
    obtain ⟨hok, hrest⟩ := encryptedReader_new l.cipher hwire (by
      intro x hx
      obtain ⟨y, hy, rfl⟩ := Option.map_eq_some_iff.mp hx
      show y.header.length < 5
      rw [(l.atHeader y hy).2.2]
      exact Nat.succ_pos 4) cuts
    obtain ⟨got, fin, hopen, ⟨later, hgot⟩, hall, heof, -⟩ := openStream_take hopens
      taken.flatten.length (by rw [← hlength, flatten_append, length_append]; omega)
    -- the part ends with a record
    obtain rfl := heof.mpr ⟨taken.length, by
      rw [length_flatten_take hlens, take_left]⟩
    refine ⟨got, hok, hrest.trans hopen, ⟨later, hgot.symm⟩, fun heq => hall ?_⟩
    rw [← hlength, ← heq]

end Records

/-! ## The reader of the pump -/

/-- The reader that `serve_tcp` gives to `pump_tcp`. -/
inductive FlowReader (C : Crypto) where
  | none (reader : ClientReader C)
  | vision (reader : VisionReader (ClientReader C))

namespace FlowReader

variable {C : Crypto}

def new (visionUuid : Option (ByteArr 16)) (reader : ClientReader C) : FlowReader C :=
  match visionUuid with
  | .some uuid => .vision (VisionReader.new reader uuid)
  | .none => .none reader

/-- One iteration of `poll_read`. -/
def pollStep : FlowReader C → Nat → Loop (FlowReader C) PollRead
  | .none reader, n => (once AsyncRead.pollRead reader n).map .none
  | .vision reader, n => (reader.pollStep n).map .vision

def Ok : FlowReader C → Prop
  | .none reader => reader.Ok
  | .vision reader => reader.OkOver ClientReader.pollSpec

def rest : FlowReader C → Bytes × ReadEnd
  | .none reader => reader.rest
  | .vision reader => reader.restOver ClientReader.pollSpec

def measure : FlowReader C → Nat
  | .none reader => reader.measure
  | .vision reader => reader.measureOver ClientReader.pollSpec

def roomSpec : RoomSpec (pollStep (C := C)) where
  ok := Ok
  rest := rest
  measure := measure
  follows r n hn hok := by
    cases r with
    | none reader =>
      show Follows Ok rest measure (.none reader) n ((once AsyncRead.pollRead reader n).map .none)
      exact (ClientReader.pollSpec.follows reader n hn hok).image FlowReader.none
        (fun _ h => h) (fun _ => rfl) (fun _ => rfl)
    | vision reader =>
      exact (VisionReader.follows_over hn hok).image FlowReader.vision (fun _ h => h) (fun _ => rfl)
        (fun _ => rfl)

/-- A caller with room in its buffers reads what is left. -/
theorem reads {r : FlowReader C} {whole : Bytes × ReadEnd} (hok : r.Ok) (hrest : r.rest = whole)
    {sizes : List Nat} (hsizes : ∀ n ∈ sizes, n ≠ 0) :
    ∃ bound, ∀ fuel, bound < fuel → readToEnd pollStep fuel r sizes = some whole :=
  ⟨_, fun _ hf => hrest ▸ roomSpec.readToEnd_eq hok hsizes hf⟩

/-- What is read through the layer of the flow. -/
def decode (visionUuid : Option (ByteArr 16)) (w : Bytes) : Bytes × ReadEnd :=
  match visionUuid with
  | .some uuid => decodeWire uuid.val w
  | .none => (w, .eof)

theorem rest_new (visionUuid : Option (ByteArr 16)) {reader : ClientReader C} {w : Bytes}
    (hok : reader.Ok) (hrest : reader.rest = (w, .eof)) :
    (new visionUuid reader).Ok ∧ (new visionUuid reader).rest = decode visionUuid w := by
  cases visionUuid with
  | none => exact ⟨hok, hrest⟩
  | some uuid =>
    have hflat : (VisionReader.new reader uuid).flat ClientReader.pollSpec =
        VisionReader.new (Source.mk w []) uuid := by
      show VisionReader.mk (Source.mk reader.rest.1 []) _ _ _ _ _ = _
      rw [hrest]
      rfl
    refine ⟨⟨hok, ?_, ?_⟩, ?_⟩
    · exact congrArg Prod.snd hrest
    · rw [hflat]
      exact VisionReader.ok_start
    · show VisionReader.rest ((VisionReader.new reader uuid).flat ClientReader.pollSpec) = _
      rw [hflat]
      rfl

end FlowReader

/-! ## Both directions -/

/-- `serve_tcp` once the target is connected: the layers of the flow around those of the session. -/
def serveTcp (C : Crypto) (reader : ClientReader C) (visionUuid : Option (ByteArr 16))
    (writer : ProtocolWriter) (capacity : Nat) : Machine (Pump (FlowReader C)) PumpAction :=
  pumpTcp FlowReader.pollStep C (.new visionUuid reader) (visionUuid.map VisionWriter.new) writer
    capacity

/-- What a client sends behind its request: bytes, or a Vision stream that carries them. -/
inductive Payload where
  | plain (data : Bytes)
  | vision (stream : Stream)

namespace Payload

def wire : Payload → Bytes
  | .plain data => data
  | .vision stream => stream.wire

def data : Payload → Bytes
  | .plain data => data
  | .vision stream => stream.data

def visionUuid : Payload → Option (ByteArr 16)
  | .plain _ => none
  | .vision stream => some stream.uuid

theorem decode_wire (p : Payload) : FlowReader.decode p.visionUuid p.wire = (p.data, .eof) := by
  cases p with
  | plain data => rfl
  | vision stream =>
    show decodeWire stream.uuid.val stream.wire = _
    rw [Stream.wire, decodeWire_append, decodeFrames_framesWire]
    rfl

end Payload

/-- The records in which a sender with the ciphers of `l` put `bytes`. -/
def Sent (C : Crypto) (l : Option Layer) (bytes : Bytes) (records : List Bytes) : Prop :=
  ∃ pieces w, pieces.flatten = bytes ∧ Pieces l pieces ∧
    Outputs (Pump.Seals C) (Layer.writer l) pieces w records

section Ends

variable {C : Crypto}

theorem pieces_cut (l : Option Layer) (messages : List Bytes) :
    Pieces l (messages.flatMap (Layer.writer l).cut) := by
  intro hl c hc
  obtain ⟨l, rfl⟩ := Option.isSome_iff_exists.mp hl
  obtain ⟨m, -, hc⟩ := mem_flatMap.mp hc
  exact length_of_mem_chunks (by decide) hc

variable {l : Option Layer} {messages slices : List Bytes} {v : Option VisionWriter}
  {visionUuid : Option (ByteArr 16)} {r : ClientReader C} {capacity : Nat} {acts : List PumpAction}
  {t : Pump (FlowReader C)}

/-- No record fails to be made. -/
theorem sealable (hC : C.Lawful) {R : Type} (s : Pump R) (h : s.Downloaded C v (Layer.writer l)) :
    s.Sealable C := by
  intro chunk cs ms hd
  obtain ⟨-, messages, pieces, left, hand, v', w, -, hcut, hseals, hat⟩ := h
  simp only [Pump.At, hd] at hat
  obtain ⟨rfl, rfl, -, rfl⟩ := hat
  cases l with
  | none =>
    have hplain : s.writer = .plain := by
      refine hseals.inv (I := fun w => w = .plain) ?_ rfl
      rintro _ c t bs rfl ⟨record, hseal, -⟩
      exact (congrArg Prod.fst hseal).symm
    exact ⟨.plain, chunk, by rw [hplain]; rfl⟩
  | some l =>
    have hsizes := pieces_cut (some l) messages rfl
    rw [hcut] at hsizes
    obtain ⟨st, -, hw, hx, -⟩ := seals_opens hC hseals
      (fun c hc => hsizes c (mem_append_left _ hc)) rfl l.atHeader
    obtain ⟨h0, h1⟩ := hsizes chunk (by simp)
    obtain ⟨st', -, record, hseal, -⟩ := sealChunk_spec hC h0 h1 hx
    exact ⟨.encrypted st', record, by rw [hw]; simp only [ProtocolWriter.sealChunk, hseal]⟩

/-- **The uplink reaches the target.** A client sends its request and a payload, encrypted or not;
the records arrive in any fragmentation, and `r` is the reader after the request was read. In every
state `t` of every interleaving the target has a part of the payload's bytes from the start; when
its socket is shut down, it has them all; the upload has not failed to read; and while the pump
runs, the upload can go on to its end. -/
theorem uplink_reaches_target (hC : C.Lawful) (l : Option Layer) (request : Bytes) (p : Payload)
    (records : List Bytes) (hsent : Sent C l (request ++ p.wire) records) (cuts : List Nat)
    (r : ClientReader C)
    (hrequest : PollSpec.Took AsyncRead.pollRead (Layer.reader C l ⟨records.flatten, cuts⟩) request
      r)
    (back : Option Layer) (capacity : Nat) (acts : List PumpAction) (t : Pump (FlowReader C))
    (h : (serveTcp C r p.visionUuid (Layer.writer back) capacity).run acts = some t) :
    t.toTarget <+: p.data ∧ (t.shut = true → t.toTarget = p.data) ∧
      (∀ e, t.upload ≠ .ended (.error (.io e))) ∧
      (t.result = none → ∃ more u,
        (serveTcp C r p.visionUuid (Layer.writer back) capacity).runFrom t more = some u ∧
          u.toTarget = p.data ∧ u.shut = true) := by
  obtain ⟨pieces, w, hbytes, hpieces, hseals⟩ := hsent
  obtain ⟨got, hok, hrest, -, hall⟩ := rest_of_seals hC hseals hpieces (prefix_refl _) cuts
  obtain ⟨hok', htook⟩ := hrequest.rest ClientReader.pollSpec hok
  -- what is left behind the request is the payload
  have hleft : r.rest = (p.wire, .eof) := by
    have heq : ((request ++ p.wire, .eof) : Bytes × ReadEnd) = prepend request r.rest := by
      rw [← hbytes, ← hall rfl, ← hrest]
      exact htook
    rcases hr : r.rest with ⟨w', fin⟩
    rw [hr] at heq
    obtain ⟨hw, rfl⟩ := Prod.mk.inj heq
    rw [append_cancel_left hw]
  obtain ⟨hflow, hdecode⟩ := FlowReader.rest_new p.visionUuid hok' hleft
  have hup := Pump.uploaded_run (S := FlowReader.roomSpec) hflow h
  rw [show FlowReader.roomSpec.rest _ = (p.data, .eof) from hdecode.trans p.decode_wire] at hup
  refine ⟨hup.prefix_whole, fun hs => ?_, fun e he => ?_, fun hr => ?_⟩
  · exact (congrArg Prod.fst (hup.of_shut hs)).symm
  · simp only [Pump.Uploaded, he] at hup
    cases (Prod.mk.inj hup.2).2
  · exact hup.completes (sealable hC) rfl (Pump.inv_run (sealable hC) h) hr

/-! A client that sends a request of one byte and the stream of `sampleStream` in its third record,
which arrives in three parts. -/

def sampleLayer : Layer where
  cipher := .new [] [] .aes256Gcm
  xor := some ⟨⟨List.replicate 32 0, rfl⟩, ⟨List.replicate 16 0, rfl⟩, 10, 0, [], false⟩
  atHeader := by rintro x ⟨⟩; exact ⟨rfl, rfl, rfl⟩

def sampleRecord : Bytes :=
  ((Layer.writer (some sampleLayer)).sealChunk Crypto.tagged
    ([9] ++ sampleStream.wire)).2.toOption.getD []

theorem sent_sampleRecord :
    Sent Crypto.tagged (some sampleLayer) ([9] ++ sampleStream.wire) [sampleRecord] := by
  have hseals : Pump.Seals Crypto.tagged (Layer.writer (some sampleLayer))
      ([9] ++ sampleStream.wire) ((Layer.writer (some sampleLayer)).sealChunk Crypto.tagged
        ([9] ++ sampleStream.wire)).1 [sampleRecord] := ⟨sampleRecord, rfl, rfl⟩
  exact ⟨[[9] ++ sampleStream.wire], _, rfl, fun _ => by decide, .cons hseals (.nil _)⟩

def sampleStart : ClientReader Crypto.tagged :=
  Layer.reader Crypto.tagged (some sampleLayer) ⟨[sampleRecord].flatten, [5, 0, 700]⟩

/-- The reader after two polls for the request. -/
def sampleReader : ClientReader Crypto.tagged := ((sampleStart.pollRead 1).1.pollRead 1).1

theorem took_sampleReader : PollSpec.Took AsyncRead.pollRead sampleStart [9] sampleReader := by
  refine .pending (n := 1) (t := sampleReader) (by decide) rfl ?_
  exact @PollSpec.Took.got _ AsyncRead.pollRead _ sampleReader _ 1 9 [] [] (by decide) rfl (.refl _)

/-- The target takes two bytes of the first frame. -/
theorem uplink_reaches_target_vision : ∃ t,
    (serveTcp Crypto.tagged sampleReader (some sampleStream.uuid) .plain 1).run
      [.poll, .poll, .poll, .write 2] = some t ∧ t.toTarget <+: sampleStream.data :=
  ⟨_, rfl, (uplink_reaches_target Crypto.tagged_lawful (some sampleLayer) [9]
    (.vision sampleStream) [sampleRecord] sent_sampleRecord [5, 0, 700] sampleReader
    took_sampleReader none 1 [.poll, .poll, .poll, .write 2] _ rfl).1⟩

/-! ### The downlink -/

theorem flatten_cut (w : ProtocolWriter) (messages : List Bytes) :
    (messages.flatMap w.cut).flatten = messages.flatten := by
  induction messages with
  | nil => rfl
  | cons m ms ih =>
    have hm : (w.cut m).flatten = m := by
      cases w with
      | plain => exact append_nil m
      | encrypted => exact flatten_chunks (by decide) m
    rw [flatMap_cons, flatten_append, ih, hm, flatten_cons]

/-- What goes to the client for the slices: themselves, or their Vision frames. -/
def Framing (vision : Option VisionWriter) (slices messages : List Bytes) : Prop :=
  match vision with
  | none => messages = slices
  | some w => ∃ draws, w.encodeAll draws slices = .ok messages

theorem framing_of_frames {v' : Option VisionWriter}
    (h : Outputs Pump.Frames v slices v' messages) : Framing v slices messages := by
  induction h with
  | nil v =>
    cases v with
    | none => rfl
    | some w => exact ⟨fun _ _ => 0, rfl⟩
  | @cons v v₁ _ data slices ms ms' hstep _ ih =>
    obtain ⟨draw, hframe⟩ := hstep
    cases v with
    | none =>
      cases hframe
      exact congrArg (data :: ·) ih
    | some w =>
      rcases henc : w.encode draw data with ⟨r, w'⟩
      simp only [frameSlice, henc] at hframe
      obtain ⟨rfl, rfl⟩ := Prod.mk.inj hframe
      obtain ⟨draws, hall⟩ := ih
      refine ⟨fun i => if i = 0 then draw else draws (i - 1), ?_⟩
      simp only [VisionWriter.encodeAll, ↓reduceIte, henc, Nat.add_one_ne_zero, Nat.add_sub_cancel,
        hall]

/-- What a run of the session put into the channel. -/
theorem sent_of_run (hC : C.Lawful)
    (h : (serveTcp C r visionUuid (Layer.writer l) capacity).run acts = some t) :
    ∃ messages pieces hand w, Framing (visionUuid.map VisionWriter.new) t.slices messages ∧
      pieces <+: messages.flatMap (Layer.writer l).cut ∧
      Outputs (Pump.Seals C) (Layer.writer l) pieces w (t.sent ++ hand) ∧
      (t.result = some (.ok ()) → pieces = messages.flatMap (Layer.writer l).cut ∧ hand = []) := by
  have hinv := Pump.inv_run (sealable hC) h
  obtain ⟨-, messages, pieces, left, hand, v, w, hframes, hcut, hseals, hat⟩ := hinv.downloaded
  refine ⟨messages, pieces, hand, w, framing_of_frames hframes, ⟨left, hcut.symm⟩, hseals,
    fun hres => ?_⟩
  have hsettled := hinv.settled
  simp only [Pump.Settled, hres] at hsettled
  simp only [Pump.At, hsettled] at hat
  rw [hcut, hat.1, append_nil]
  exact ⟨rfl, hat.2⟩

/-- What the client has to read from what it was delivered. -/
theorem delivered_rest (hC : C.Lawful)
    (h : (serveTcp C r visionUuid (Layer.writer l) capacity).run acts = some t) (cuts : List Nat) :
    ∃ messages got, Framing (visionUuid.map VisionWriter.new) t.slices messages ∧
      got <+: messages.flatten ∧
      (Layer.reader C l ⟨t.delivered.flatten, cuts⟩).Ok ∧
      (Layer.reader C l ⟨t.delivered.flatten, cuts⟩).rest = (got, .eof) ∧
      (t.result = some (.ok ()) → t.downlink.reader = true → t.downlink.queue = [] →
        got = messages.flatten) := by
  obtain ⟨messages, pieces, hand, w, hframing, ⟨left, hcut⟩, hseals, hdone⟩ := sent_of_run hC h
  obtain ⟨lost, hsent, hlost⟩ := (Pump.inv_run (sealable hC) h).delivered
  have hpieces : Pieces l pieces := fun hl c hc =>
    pieces_cut l messages hl c (hcut ▸ mem_append_left left hc)
  have htaken : t.delivered <+: t.sent ++ hand := by
    rw [hsent, append_assoc, append_assoc]
    exact prefix_append ..
  have hflat := flatten_cut (Layer.writer l) messages
  obtain ⟨got, hok, hrest, hgot, hall⟩ := rest_of_seals hC hseals hpieces htaken cuts
  refine ⟨messages, got, hframing, ?_, hok, hrest, fun hres hreader hqueue => ?_⟩
  · rw [← hflat, ← hcut, flatten_append]
    exact hgot.trans (prefix_append ..)
  · obtain ⟨hpieces, rfl⟩ := hdone hres
    rw [← hflat, ← hpieces]
    refine hall ?_
    rw [hsent, hlost hreader, hqueue, append_nil, append_nil, append_nil]

/-- What is read back from all the messages of the slices. -/
theorem decode_framing (h : Framing (visionUuid.map VisionWriter.new) slices messages) :
    ((FlowReader.decode visionUuid messages.flatten).1 = slices.flatten ↔
      (visionUuid.isSome = true → SwitchAligned [] slices)) ∧
    ((FlowReader.decode visionUuid messages.flatten).2 = .eof ↔
      (visionUuid.isSome = true → slices.flatten ≠ [])) := by
  cases visionUuid with
  | none =>
    obtain rfl : messages = slices := h
    exact ⟨⟨fun _ h => (by cases h), fun _ => rfl⟩, fun _ h => (by cases h), fun _ => rfl⟩
  | some uuid =>
    obtain ⟨draws, henc⟩ := h
    obtain ⟨frames, out, fin, henc', hdec, hback, hfin⟩ := decodeWire_encodeAll uuid draws slices
    cases henc.symm.trans henc'
    simp only [FlowReader.decode, hdec]
    refine ⟨⟨fun hout _ => ?_, fun haligned => hback.1 (haligned rfl)⟩,
      fun h _ => hfin.mp h, fun h => hfin.mpr (h rfl)⟩
    by_contra hn
    have hlt := hback.2 hn
    rw [hout] at hlt
    exact Nat.lt_irrefl _ hlt

/-- **The downlink reaches the client.** Whatever the uplink does, in every state `t` of every
interleaving: the metric has counted what the target sent, modulo `2 ^ 64`; the client reads, from
what it was delivered in any fragmentation, a part of the messages from the start, and ends cleanly;
when the pump has returned `Ok` and the channel is empty, it has read them all, and the flow's
reader gives the bytes of the target, with Vision exactly when its switch to raw is at the end of a
slice (and a clean end unless there was nothing to frame). An error of the pump is one of the
uplink's reader, of the target's socket or of a client that is gone. -/
theorem downlink_reaches_client (hC : C.Lawful) (l : Option Layer)
    (visionUuid : Option (ByteArr 16)) (r : ClientReader C) (capacity : Nat)
    (acts : List PumpAction) (t : Pump (FlowReader C))
    (h : (serveTcp C r visionUuid (Layer.writer l) capacity).run acts = some t)
    (cuts sizes : List Nat) (hsizes : ∀ n ∈ sizes, n ≠ 0) :
    t.downloadBytes = t.slices.flatten.length % 2 ^ 64 ∧
    (∃ messages got bound, Framing (visionUuid.map VisionWriter.new) t.slices messages ∧
      got <+: messages.flatten ∧
      (∀ fuel, bound < fuel → readToEnd FlowReader.pollStep fuel
        (.none (Layer.reader C l ⟨t.delivered.flatten, cuts⟩)) sizes = some (got, .eof)) ∧
      (t.result = some (.ok ()) → t.downlink.reader = true → t.downlink.queue = [] →
        got = messages.flatten)) ∧
    (t.result = some (.ok ()) → t.downlink.reader = true → t.downlink.queue = [] →
      ∃ out fin bound, (∀ fuel, bound < fuel → readToEnd FlowReader.pollStep fuel
          (.new visionUuid (Layer.reader C l ⟨t.delivered.flatten, cuts⟩)) sizes =
          some (out, fin)) ∧
        (out = t.slices.flatten ↔ (visionUuid.isSome = true → SwitchAligned [] t.slices)) ∧
        (fin = .eof ↔ (visionUuid.isSome = true → t.slices.flatten ≠ []))) ∧
    ∀ e, t.result = some (.error e) → Pump.FromOutside e := by
  have hinv := Pump.inv_run (sealable hC) h
  obtain ⟨messages, got, hframing, hgot, hok, hrest, hall⟩ := delivered_rest hC h cuts
  refine ⟨hinv.downloaded.1, ?_, fun hres hreader hqueue => ?_, fun e he => ?_⟩
  · obtain ⟨bound, hread⟩ := FlowReader.reads (r := .none _) hok hrest hsizes
    exact ⟨messages, got, bound, hframing, hgot, hread, hall⟩
  · rw [hall hres hreader hqueue] at hrest
    obtain ⟨hnew, hdecode⟩ := FlowReader.rest_new visionUuid hok hrest
    obtain ⟨bound, hread⟩ := FlowReader.reads hnew hdecode hsizes
    exact ⟨_, _, bound, hread, decode_framing hframing⟩
  · have hsettled := hinv.settled
    simp only [Pump.Settled, he] at hsettled
    exact hsettled

/-- The target sends two bytes and closes; the client takes the record in between. -/
def sampleDownload : List PumpAction :=
  [.target [1, 2] fun _ => 3, .send, .send, .send, .recv, .send, .target [] fun _ => 0]

theorem downlink_reaches_client_vision : ∃ t,
    (serveTcp Crypto.tagged sampleReader (some sampleStream.uuid) (Layer.writer (some sampleLayer))
      1).run sampleDownload = some t ∧ t.downloadBytes = t.slices.flatten.length % 2 ^ 64 :=
  ⟨_, rfl, (downlink_reaches_client Crypto.tagged_lawful (some sampleLayer)
    (some sampleStream.uuid) sampleReader 1 sampleDownload _ rfl [] [] (by simp)).1⟩

end Ends

end Xhttp.Dispatch
