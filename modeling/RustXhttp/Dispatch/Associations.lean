import RustXhttp.Dispatch.Writer
import RustXhttp.Lib.Machine

/-!
# Associations that share one encrypting writer (`src/dispatcher.rs`)

Every XUDP association sends its frames through a clone of one `ProtocolWriter::Encrypted`. `send`
seals a record under the lock of the state and then awaits the bounded download channel, so a
record can be sealed and not sent. The machine `writers` has one action for each stretch of code
between two await points:

* `call frame`, `acquire i`: a send waits at the lock; the `i`-th waiting one takes it and sends
  records until it returns or the channel is full (`Sending`).
* `resume`: the suspended send goes on.
* `cancelWaiting i`, `cancelHolder`: the idle timeout of an association drops its send at the lock,
  or in `sink.send`.
* `recv`, `dropReader`: the download takes a record, or ends.

Results:

* `frames_intact`: as long as no send is cancelled in `sink.send`, the records in the channel and
  at the reader decode, in order, to whole frames and the part already sent of the frame in flight.
* `cancelled_send_breaks`: one such cancellation, and the next record does not open.
-/

namespace Xhttp.Dispatch

open Encryption List

/-- A send that holds the lock and waits for room for `record`, the sealed `chunk`. -/
structure Sending where
  frame : Bytes
  chunk : Bytes
  record : Bytes
  rest : List Bytes
  deriving DecidableEq

/-- The shared writer, the download channel and the sends in flight, with the history: the sends
that returned and the records that reached the reader. -/
structure Writers where
  state : EncryptState
  queue : List Bytes
  readerAlive : Bool
  waiting : List Bytes
  holder : Option Sending
  returned : List (Bytes × Except SendError Unit)
  received : List Bytes

def Writers.new (state : EncryptState) : Writers where
  state := state
  queue := []
  readerAlive := true
  waiting := []
  holder := none
  returned := []
  received := []

/-- The frames whose send returned `Ok`, in order. -/
def Writers.sent (w : Writers) : List Bytes :=
  w.returned.filterMap fun x => match x.2 with | .ok () => some x.1 | .error _ => none

section

variable (C : Crypto) (capacity : Nat)

/-- The send of `frame` returns. -/
def Writers.finish (w : Writers) (frame : Bytes) (result : Except SendError Unit) : Writers :=
  { w with holder := none, returned := w.returned ++ [(frame, result)] }

/-- The loop of `send` over the chunks that are left, up to an await point that suspends. -/
def Writers.sendLoop (frame : Bytes) : List Bytes → Writers → Writers
  | [], w => w.finish frame (.ok ())
  | chunk :: rest, w =>
    match w.state.sealChunk C chunk with
    | (st, .error e) => { w with state := st }.finish frame (.error e)
    | (st, .ok record) =>
      let w := { w with state := st }
      if record = [] then sendLoop frame rest w
      else if ¬ w.readerAlive then w.finish frame (.error .downloadClosed)
      else if w.queue.length < max capacity 1 then
        sendLoop frame rest { w with queue := w.queue ++ [record] }
      else { w with holder := some ⟨frame, chunk, record, rest⟩ }

inductive SendAction where
  | call (frame : Bytes)
  | acquire (i : Nat)
  | resume
  | cancelWaiting (i : Nat)
  | cancelHolder
  | recv
  | dropReader
  deriving DecidableEq, Repr

def Writers.step (w : Writers) : SendAction → Option Writers
  | .call frame => some { w with waiting := w.waiting ++ [frame] }
  | .acquire i =>
    match w.holder, w.waiting[i]? with
    | none, some frame =>
      some ({ w with waiting := w.waiting.eraseIdx i }.sendLoop C capacity frame
        (chunks 8192 frame))
    | _, _ => none
  | .resume =>
    match w.holder with
    | none => none
    | some h =>
      if ¬ w.readerAlive then some (w.finish h.frame (.error .downloadClosed))
      else if w.queue.length < max capacity 1 then
        some ({ w with holder := none, queue := w.queue ++ [h.record] }.sendLoop C capacity
          h.frame h.rest)
      else none
  | .cancelWaiting i =>
    if i < w.waiting.length then some { w with waiting := w.waiting.eraseIdx i } else none
  -- the record is dropped; the cipher and the transform have advanced
  | .cancelHolder => w.holder.map fun _ => { w with holder := none }
  | .recv =>
    match w.readerAlive, w.queue with
    | true, record :: queue => some { w with queue := queue, received := w.received ++ [record] }
    | _, _ => none
  | .dropReader => if w.readerAlive then some { w with readerAlive := false, queue := [] } else none

/-- The associations of one connection under every schedule. -/
def writers (init : EncryptState) : Machine Writers SendAction where
  init := .new init
  step := Writers.step C capacity

/-! ## What the peer makes of the records -/

/-- `apply` of the transform, if there is one. -/
def applyXor : Option HeaderXor → Bytes → Option HeaderXor × Except RecordError Bytes
  | none, bytes => (none, .ok bytes)
  | some x, bytes => ((x.apply C bytes).1, (x.apply C bytes).2)

/-- The records decode, in order, to chunks: the header transform is undone and the record
opened. -/
def decodeRecords (c : RecordCipher) (xor : Option HeaderXor) :
    List Bytes → Except SendError (List Bytes)
  | [] => .ok []
  | record :: records =>
    match applyXor C xor record with
    | (_, .error e) => .error (.encryptionXor e)
    | (xor, .ok plain) =>
      match c.unseal C (plain.take 5) (plain.drop 5) with
      | (_, .error e) => .error (.encryptionRecord e)
      | (c, .ok chunk) => (decodeRecords c xor records).map (chunk :: ·)

end

section Decode

variable {C : Crypto}

/-- A part of records that decode. -/
theorem decodeRecords_append {c : RecordCipher} {xor : Option HeaderXor} {rs ss cs : List Bytes}
    (h : decodeRecords C c xor (rs ++ ss) = .ok cs) :
    decodeRecords C c xor rs = .ok (cs.take rs.length) := by
  induction rs generalizing c xor cs with
  | nil => rfl
  | cons r rs ih =>
    rw [cons_append, decodeRecords] at h
    rw [decodeRecords]
    rcases hx : applyXor C xor r with ⟨xor', e | plain⟩
    · rw [hx] at h; cases h
    rw [hx] at h
    rcases hu : c.unseal C (plain.take 5) (plain.drop 5) with ⟨c', e | chunk⟩
    · simp only [hu] at h; cases h
    simp only [hu] at h ⊢
    rcases hd : decodeRecords C c' xor' (rs ++ ss) with e | ts
    · rw [hd] at h; cases h
    rw [hd] at h
    cases h
    rw [ih hd]
    rfl

/-- The inbound transform undoes the outbound one on a record. -/
theorem applyXor_mirror {xor xor' : Option HeaderXor} {plain record : Bytes} (hx : AtHeader xor)
    (h : Transforms C xor plain xor' record) :
    applyXor C (xor.map HeaderXor.mirror) record = (xor'.map HeaderXor.mirror, .ok plain) := by
  match xor, xor', h with
  | none, none, h =>
    simp only [Transforms] at h
    rw [h]
    rfl
  | some x, some y, h =>
    obtain ⟨hd, -, hh⟩ := hx x rfl
    have hm := HeaderXor.applyBytes_mirror hd h
    have hl : x.mirror.header.length < 5 := by
      change x.header.length < 5
      rw [hh]
      exact Nat.succ_pos 4
    simp only [applyXor, Option.map_some, HeaderXor.apply_eq _ _ hl, hm]

/-- The chunks that `chunks(8192)` gives. -/
def Sized (chunk : Bytes) : Prop := 0 < chunk.length ∧ chunk.length ≤ 8192

/-- What the loop of `send` sends decodes to its chunks. -/
theorem decodeRecords_sendChunks (hC : C.Lawful) (st : EncryptState) (cs : List Bytes)
    (hcs : ∀ chunk ∈ cs, Sized chunk) (hx : AtHeader st.xor) :
    ∃ st' records, st.sendChunks C cs = (st', records, .ok ()) ∧ AtHeader st'.xor ∧
      decodeRecords C st.cipher (st.xor.map HeaderXor.mirror) records = .ok cs := by
  induction cs generalizing st with
  | nil => exact ⟨st, [], rfl, hx, rfl⟩
  | cons chunk cs ih =>
    obtain ⟨h0, h⟩ := hcs chunk (mem_cons_self ..)
    obtain ⟨st₁, plain, record, hseal, hopen, htr, hx₁, -⟩ := sealChunk_spec hC h0 h hx
    obtain ⟨st₂, records, hsend, hx₂, hdec⟩ :=
      ih st₁ (fun c hc => hcs c (mem_cons_of_mem _ hc)) hx₁
    refine ⟨st₂, record :: records, by simp only [EncryptState.sendChunks, hseal, hsend], hx₂, ?_⟩
    cases hopen with
    | @cons _ d _ header ct _ _ _ hl hd hu hnil =>
      cases hnil
      rw [decodeRecords, applyXor_mirror hx htr]
      simp only [take_left' hl, drop_left' hl, hu, hdec]
      rfl

/-- One more chunk. -/
theorem sendChunks_snoc {st st₁ st₂ : EncryptState} {cs records : List Bytes}
    {chunk record : Bytes} (h : st.sendChunks C cs = (st₁, records, .ok ()))
    (hs : st₁.sealChunk C chunk = (st₂, .ok record)) :
    st.sendChunks C (cs ++ [chunk]) = (st₂, records ++ [record], .ok ()) := by
  induction cs generalizing st records with
  | nil =>
    cases h
    simp only [nil_append, EncryptState.sendChunks, hs]
  | cons c cs ih =>
    simp only [EncryptState.sendChunks] at h
    rcases hc : st.sealChunk C c with ⟨st', e | r⟩
    · rw [hc] at h; cases h
    · rw [hc] at h
      simp only at h
      rcases hr : st'.sendChunks C cs with ⟨st'', rs, res⟩
      rw [hr] at h
      simp only [Prod.mk.injEq] at h
      obtain ⟨rfl, rfl, rfl⟩ := h
      simp only [cons_append, EncryptState.sendChunks, hc, ih hr]

end Decode

/-! ## The invariant -/

section Invariant

variable {C : Crypto} {capacity : Nat} {init : EncryptState}

/-- The records in the channel and at the reader are those of one loop over the chunks `cs`, which
are the frames sent and a part of the frame in flight. -/
structure InFlight (C : Crypto) (init : EncryptState) (w : Writers) (cs : List Bytes)
    (st : EncryptState) (part : Bytes) : Prop where
  records : init.sendChunks C cs = (st, w.received ++ w.queue, .ok ())
  sized : ∀ chunk ∈ cs, Sized chunk
  frames : cs.flatten = w.sent.flatten ++ part

/-- The send of `h` waits with the next record of its frame in hand. -/
structure Suspended (C : Crypto) (st : EncryptState) (part : Bytes) (w : Writers) (h : Sending) :
    Prop where
  sealed : st.sealChunk C h.chunk = (w.state, .ok h.record)
  frame : h.frame = part ++ (h.chunk ++ h.rest.flatten)
  sized : ∀ chunk ∈ h.chunk :: h.rest, Sized chunk

def WritersInv (C : Crypto) (init : EncryptState) (w : Writers) : Prop :=
  ∃ cs st part, InFlight C init w cs st part ∧
    match w.holder with
    | none => st = w.state ∧ part = []
    | some h => Suspended C st part w h

theorem sent_finish_ok (w : Writers) (frame : Bytes) :
    (w.finish frame (.ok ())).sent = w.sent ++ [frame] := by
  simp [Writers.sent, Writers.finish, filterMap_append]

variable {w w' : Writers} {cs : List Bytes} {part : Bytes} {a : SendAction}

/-- One more record goes into the channel. -/
theorem InFlight.snoc {st st₁ : EncryptState} {chunk record : Bytes}
    (h : InFlight C init w cs st part) (hs : st.sealChunk C chunk = (st₁, .ok record))
    (hc : Sized chunk) (hq : w'.received ++ w'.queue = w.received ++ w.queue ++ [record])
    (hr : w'.returned = w.returned) : InFlight C init w' (cs ++ [chunk]) st₁ (part ++ chunk) := by
  refine ⟨hq ▸ sendChunks_snoc h.records hs, ?_, ?_⟩
  · intro c hmem
    rcases mem_append.mp hmem with hmem | hmem
    · exact h.sized c hmem
    · rw [mem_singleton.mp hmem]
      exact hc
  · rw [flatten_append, h.frames, Writers.sent, Writers.sent, hr]
    simp

theorem sendLoop_inv (hC : C.Lawful) (hx : AtHeader init.xor) {frame : Bytes} {rest : List Bytes}
    (h : InFlight C init w cs w.state part) (hf : frame = part ++ rest.flatten)
    (hr : ∀ chunk ∈ rest, Sized chunk) (hh : w.holder = none) (ho : w.readerAlive = true) :
    WritersInv C init (w.sendLoop C capacity frame rest) := by
  induction rest generalizing w cs part with
  | nil =>
    refine ⟨cs, w.state, [], ⟨h.records, h.sized, ?_⟩, rfl, rfl⟩
    rw [Writers.sendLoop, sent_finish_ok, flatten_append, h.frames, hf]
    simp
  | cons chunk rest ih =>
    obtain ⟨st', records, hsend, hx', -⟩ := decodeRecords_sendChunks hC init cs h.sized hx
    rw [h.records] at hsend
    cases hsend
    have hc := hr chunk (mem_cons_self ..)
    obtain ⟨st₁, plain, record, hseal, hopen, -, -, hlen⟩ := sealChunk_spec hC hc.1 hc.2 hx'
    have hne : record ≠ [] := by
      rintro rfl
      cases hopen with
      | @cons _ _ _ header ct _ _ _ hl _ _ _ =>
        rw [length_append, hl] at hlen
        simp at hlen
    simp only [Writers.sendLoop, hseal, if_neg hne, ho, not_true_eq_false, if_false]
    split
    · -- the record goes into the channel, and the loop goes on
      refine ih (h.snoc hseal hc (append_assoc _ _ _).symm rfl) ?_
        (fun c hc => hr c (mem_cons_of_mem _ hc)) hh rfl
      rw [hf]
      simp
    · exact ⟨cs, w.state, part, ⟨h.records, h.sized, h.frames⟩, hseal, hf, hr⟩

theorem readerAlive_sendLoop (frame : Bytes) (rest : List Bytes) (w : Writers) :
    (w.sendLoop C capacity frame rest).readerAlive = w.readerAlive := by
  fun_induction Writers.sendLoop C capacity frame rest w
  case case3 ih => exact ih
  case case5 ih => exact ih
  all_goals rfl

/-- A reader that is gone does not come back. -/
theorem readerAlive_of_step (hs : w.step C capacity a = some w') (ho : w'.readerAlive = true) :
    w.readerAlive = true := by
  unfold Writers.step at hs
  split at hs
  case h_1 => cases hs; exact ho
  case h_2 =>
    split at hs
    · cases hs
      rwa [readerAlive_sendLoop] at ho
    · cases hs
  case h_3 =>
    split at hs
    · cases hs
    · split at hs
      · cases hs; exact ho
      case isFalse hopen => simpa using hopen
  case h_4 =>
    split at hs
    · cases hs; exact ho
    · cases hs
  case h_5 =>
    obtain ⟨h, -, rfl⟩ := Option.map_eq_some_iff.mp hs
    exact ho
  case h_6 =>
    split at hs
    case h_1 hopen _ => exact hopen
    case h_2 => cases hs
  case h_7 =>
    split at hs
    · cases hs; cases ho
    · cases hs

/-- The invariant depends on the records, the sends that returned and the one in flight. -/
theorem WritersInv.congr (h : WritersInv C init w) (hs : w'.state = w.state)
    (hq : w'.received ++ w'.queue = w.received ++ w.queue) (hh : w'.holder = w.holder)
    (hr : w'.returned = w.returned) : WritersInv C init w' := by
  obtain ⟨cs, st, part, hfl, hhold⟩ := h
  refine ⟨cs, st, part, ⟨hq ▸ hfl.records, hfl.sized, ?_⟩, ?_⟩
  · rw [Writers.sent, hr]
    exact hfl.frames
  · rw [hh]
    cases hw : w.holder with
    | none =>
      rw [hw] at hhold
      exact ⟨hhold.1.trans hs.symm, hhold.2⟩
    | some h =>
      rw [hw] at hhold
      exact ⟨hs ▸ hhold.sealed, hhold.frame, hhold.sized⟩

/-- Every step but a cancellation in `sink.send` keeps the invariant. -/
theorem WritersInv.step (hC : C.Lawful) (hx : AtHeader init.xor) (h : WritersInv C init w)
    (ha : a ≠ .cancelHolder) (hs : w.step C capacity a = some w') (ho : w'.readerAlive = true) :
    WritersInv C init w' := by
  have hw := readerAlive_of_step hs ho
  cases a with
  | call frame =>
    cases hs
    exact h.congr rfl rfl rfl rfl
  | acquire i =>
    simp only [Writers.step] at hs
    split at hs
    case h_2 => cases hs
    case h_1 frame hh _ =>
      cases hs
      obtain ⟨cs, st, part, hfl, hhold⟩ := h
      rw [hh] at hhold
      obtain ⟨rfl, rfl⟩ := hhold
      refine sendLoop_inv (w := { w with waiting := w.waiting.eraseIdx i }) hC hx
        ⟨hfl.records, hfl.sized, hfl.frames⟩ ?_ ?_ hh hw
      · rw [flatten_chunks (by decide), nil_append]
      · intro c hc
        exact length_of_mem_chunks (by decide) hc
  | resume =>
    simp only [Writers.step, hw, not_true_eq_false, if_false] at hs
    split at hs
    case h_1 => cases hs
    case h_2 s hh =>
      split at hs
      case isFalse => cases hs
      cases hs
      obtain ⟨cs, st, part, hfl, hhold⟩ := h
      rw [hh] at hhold
      have hc := hhold.sized _ (mem_cons_self ..)
      refine sendLoop_inv hC hx
        (hfl.snoc hhold.sealed hc (append_assoc _ _ _).symm rfl) ?_
        (fun c hc => hhold.sized c (mem_cons_of_mem _ hc)) rfl rfl
      rw [hhold.frame, append_assoc]
  | cancelWaiting i =>
    simp only [Writers.step] at hs
    split at hs
    · cases hs
      exact h.congr rfl rfl rfl rfl
    · cases hs
  | cancelHolder => exact absurd rfl ha
  | recv =>
    simp only [Writers.step] at hs
    split at hs
    case h_2 => cases hs
    case h_1 record queue _ hq =>
      cases hs
      refine h.congr rfl ?_ rfl rfl
      rw [hq, append_assoc]
      rfl
  | dropReader =>
    simp only [Writers.step] at hs
    rw [if_pos hw] at hs
    cases hs
    cases ho

/-- What has been handed to the download decodes, in order and from the writer's initial state, to
the frames sent and a part of the frame in flight. So does, up to where it is, what the reader has
received. -/
def FramesIntact (C : Crypto) (cipher : RecordCipher) (inbound : Option HeaderXor) (w : Writers) :
    Prop :=
  ∃ chunks part rest, decodeRecords C cipher inbound (w.received ++ w.queue) = .ok chunks ∧
    decodeRecords C cipher inbound w.received = .ok (chunks.take w.received.length) ∧
    chunks.flatten = w.sent.flatten ++ part ∧
    (w.holder.map Sending.frame).getD [] = part ++ rest

theorem WritersInv.framesIntact (hC : C.Lawful) (hx : AtHeader init.xor) (h : WritersInv C init w) :
    FramesIntact C init.cipher (init.xor.map HeaderXor.mirror) w := by
  obtain ⟨cs, st, part, hfl, hhold⟩ := h
  obtain ⟨st', records, hsend, -, hdec⟩ := decodeRecords_sendChunks hC init cs hfl.sized hx
  rw [hfl.records] at hsend
  cases hsend
  cases hw : w.holder with
  | none =>
    rw [hw] at hhold
    exact ⟨cs, part, [], hdec, decodeRecords_append hdec, hfl.frames, by rw [hw, hhold.2]; rfl⟩
  | some s =>
    rw [hw] at hhold
    exact ⟨cs, part, _, hdec, decodeRecords_append hdec, hfl.frames, by
      rw [hw]; exact hhold.frame⟩

end Invariant

/-- **Frames stay whole.** In every run of any number of sends over one writer in which no send is
cancelled while it is suspended in `sink.send`, as long as the reader is alive, the records decode
in order to whole frames, and a part of one frame more only while its send is in flight. -/
theorem frames_intact (C : Crypto) (hC : C.Lawful) (capacity : Nat) (cipher : RecordCipher)
    (xor : Option (Bytes × ByteArr 16)) (as : List SendAction) (w : Writers)
    (h : (writers C capacity ⟨cipher, xor.map fun k => HeaderXor.outbound k.1 k.2 0⟩).run as =
      some w)
    (hg : (writers C capacity ⟨cipher, xor.map fun k => HeaderXor.outbound k.1 k.2 0⟩).Along
      (fun _ a => a ≠ .cancelHolder) (.new ⟨cipher, xor.map fun k => HeaderXor.outbound k.1 k.2 0⟩)
      as)
    (ho : w.readerAlive = true) :
    FramesIntact C cipher (xor.map fun k => HeaderXor.inbound k.1 k.2 0) w := by
  have hx := atHeader_outbound xor
  have hinv : WritersInv C ⟨cipher, xor.map fun k => HeaderXor.outbound k.1 k.2 0⟩ w := by
    refine Machine.run_inv (I := fun w => w.readerAlive = true → WritersInv C _ w) ?_ ?_ hg h ho
    · intro _
      exact ⟨[], _, [], ⟨rfl, by simp, rfl⟩, rfl, rfl⟩
    · intro s a s' ha hi hs ho'
      exact (hi (readerAlive_of_step hs ho')).step hC hx ha hs ho'
  have hframes := hinv.framesIntact hC hx
  rwa [mirror_outbound] at hframes

/-- A cipher with an all-zero key. -/
def zeroCipher : RecordCipher :=
  ⟨⟨.aes256Gcm, (zeros 32), [], (zeros 12)⟩⟩

/-- One send is cancelled at the lock while another waits for room in a channel of one record. -/
theorem frames_intact_waiting : ∃ w,
    (writers Crypto.tagged 1 ⟨zeroCipher, none⟩).run
      [.call [1], .call [2], .call [3], .acquire 0, .acquire 0, .cancelWaiting 0, .recv] = some w ∧
    FramesIntact Crypto.tagged zeroCipher none w :=
  ⟨_, rfl, frames_intact Crypto.tagged Crypto.tagged_lawful 1 zeroCipher none [.call [1], .call [2],
    .call [3], .acquire 0, .acquire 0, .cancelWaiting 0, .recv] _ rfl (by simp [Machine.Along]) rfl⟩

/-- The second send seals its record, finds the channel full and is cancelled; the third one's
record reaches the reader and does not open. -/
theorem cancelled_send_breaks : ∃ w,
    (writers Crypto.tagged 1 ⟨zeroCipher, none⟩).run
      [.call [1], .call [2], .call [3], .acquire 0, .acquire 0, .cancelHolder, .recv, .acquire 0,
        .recv] = some w ∧
    w.readerAlive = true ∧
    decodeRecords Crypto.tagged zeroCipher none w.received =
      .error (.encryptionRecord .authentication) :=
  ⟨_, rfl, rfl, rfl⟩

end Xhttp.Dispatch
