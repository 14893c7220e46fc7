import RustXhttp.Dispatch.ClientReader
import RustXhttp.Dispatch.Writer
import RustXhttp.Vision.Transparent
import RustXhttp.Session.Downlink
import RustXhttp.Lib.Machine
import RustXhttp.Lib.Transducer
import RustXhttp.Lib.Word

/-!
# The pump of a TCP session (`src/dispatcher.rs`, `pump_tcp`)

`copy_upload` and `copy_download` run in one `select!`: the pump ends with the result of the
download, or with the error of the upload; an upload that is done leaves the download alone. Which
of them goes on, what the target's socket does and when the client takes a chunk are actions, so a
run is one interleaving.

* `Pump.pollUplink`, `Pump.write`, `Pump.shutdown`: the steps of `copy_upload`. The reader is given
  by the iterations of its loop.
* `Pump.readTarget`, `Pump.sendStep`: the steps of `copy_download`, with the writer that encrypts
  when the session does.
* `Uploaded`, `Downloaded`: where the bytes of each direction are, in every reachable state.
-/

namespace Xhttp.Dispatch

open Encryption Vision Session List

/-! ## The writer -/

/-- `ProtocolWriter`, without its channel. -/
inductive ProtocolWriter where
  | plain
  | encrypted (state : EncryptState)
  deriving DecidableEq

namespace ProtocolWriter

/-- The pieces that `send` gives to the channel one by one, before they are sealed. -/
def cut : ProtocolWriter → Bytes → List Bytes
  | .plain, bytes => [bytes]
  | .encrypted _, bytes => chunks 8192 bytes

/-- One piece, as it goes to the channel. -/
def sealChunk (C : Crypto) : ProtocolWriter → Bytes → ProtocolWriter × Except SendError Bytes
  | .plain, chunk => (.plain, .ok chunk)
  | .encrypted state, chunk =>
    let (state, r) := state.sealChunk C chunk
    (.encrypted state, r)

end ProtocolWriter

/-- The messages that `copy_download` sends for what it read, with the draws of the padding. -/
def frameSlice (vision : Option VisionWriter) (draw : Nat → Nat) (data : Bytes) :
    Except VisionError (List Bytes) × Option VisionWriter :=
  match vision with
  | none => (.ok [data], none)
  | some w =>
    let (r, w) := w.encode draw data
    (r, some w)

/-! ## The machine -/

/-- An error of the target's socket. -/
inductive SocketError where
  /-- `write_all` was told that no byte was written. -/
  | writeZero
  | os (code : Nat)
  deriving DecidableEq, Repr

/-- The errors of `DispatchError` that `pump_tcp` can return. -/
inductive PumpError where
  | io (e : IoError)
  | socket (e : SocketError)
  | vision (e : VisionError)
  | send (e : SendError)
  deriving DecidableEq, Repr

/-- Where `copy_upload` is. -/
inductive Upload where
  | reading
  | writing (rest : Bytes)
  | shutdown
  | ended (r : Except PumpError Unit)

/-- Where `copy_download` is; in `send` there are chunks of the message and later messages left. -/
inductive Download where
  | reading
  | sending (chunks messages : List Bytes)
  | putting (record : Bytes) (chunks messages : List Bytes)
  | ended (r : Except PumpError Unit)

structure Pump (R : Type) where
  upload : Upload
  reader : R
  /-- What the target's socket took. -/
  toTarget : Bytes
  /-- The write half of the target's socket is shut down. -/
  shut : Bool
  download : Download
  vision : Option VisionWriter
  writer : ProtocolWriter
  /-- The metric `download_bytes`, an `AtomicU64`. -/
  downloadBytes : Nat
  /-- What each read from the target returned. -/
  slices : List Bytes
  downlink : Downlink
  /-- What was put into the channel, and what the client took from it. -/
  sent : List Bytes
  delivered : List Bytes
  result : Option (Except PumpError Unit)

inductive PumpAction where
  /-- An iteration of the uplink's reader. -/
  | poll
  /-- The target takes at most this many bytes. -/
  | write (k : Nat)
  | writeError (code : Nat)
  | shutdown (r : Except Nat Unit)
  /-- A read from the target, and the draws for its frames. -/
  | target (got : Bytes) (draw : Nat → Nat)
  | targetError (code : Nat)
  /-- The download goes on with what it has to send. -/
  | send
  | recv
  /-- The client's `GET` is gone. -/
  | hangUp

/-- The buffers of both loops. -/
def pumpBuffer : Nat := 32 * 1024

namespace Pump

variable {R : Type} (body : R → Nat → Loop R PollRead) (C : Crypto)

/-- `select!` after the upload returned. -/
def endUpload (s : Pump R) : Except PumpError Unit → Pump R
  | .ok () => { s with upload := .ended (.ok ()) }
  | .error e => { s with upload := .ended (.error e), result := some (.error e) }

/-- `select!` after the download returned. -/
def endDownload (s : Pump R) (r : Except PumpError Unit) : Pump R :=
  { s with download := .ended r, result := some r }

/-- `reader.read(&mut buf)` of `copy_upload`. -/
def pollUplink (s : Pump R) : Pump R :=
  match body s.reader pumpBuffer with
  | .next reader => { s with reader }
  | .done reader .pending => { s with reader }
  | .done reader (.ready (.error e)) => { s with reader }.endUpload (.error (.io e))
  | .done reader (.ready (.ok [])) => { s with reader, upload := .shutdown }
  | .done reader (.ready (.ok (b :: got))) => { s with reader, upload := .writing (b :: got) }

/-- A `write` of `write_all`. -/
def write (s : Pump R) (rest : Bytes) (k : Nat) : Pump R :=
  if k = 0 then s.endUpload (.error (.socket .writeZero))
  else
    { s with
      toTarget := s.toTarget ++ rest.take k
      upload := if rest.drop k = [] then .reading else .writing (rest.drop k) }

/-- `writer.shutdown()`. -/
def shutdown (s : Pump R) : Except Nat Unit → Pump R
  | .ok () => { s with shut := true }.endUpload (.ok ())
  | .error code => s.endUpload (.error (.socket (.os code)))

/-- `copy_download` after its read. -/
def readTarget (s : Pump R) (got : Bytes) (draw : Nat → Nat) : Pump R :=
  if got = [] then s.endDownload (.ok ())
  else
    let s := { s with
      downloadBytes := wrappingAdd s.downloadBytes got.length
      slices := s.slices ++ [got] }
    match frameSlice s.vision draw got with
    | (.error e, vision) => { s with vision }.endDownload (.error (.vision e))
    | (.ok messages, vision) => { s with vision, download := .sending [] messages }

/-- `send` up to the channel. -/
def sealNext (s : Pump R) (chunk : Bytes) (chunks messages : List Bytes) : Pump R :=
  match s.writer.sealChunk C chunk with
  | (writer, .error e) => { s with writer }.endDownload (.error (.send e))
  | (writer, .ok record) => { s with writer, download := .putting record chunks messages }

/-- The channel of `send`; `none` while it waits. -/
def put (s : Pump R) (record : Bytes) (chunks messages : List Bytes) : Option (Pump R) :=
  match s.downlink.send record with
  | none => none
  | some (_, .error ()) => some (s.endDownload (.error (.send .downloadClosed)))
  | some (downlink, .ok ()) =>
    some { s with
      downlink
      sent := if record = [] then s.sent else s.sent ++ [record]
      download := .sending chunks messages }

/-- One step of the loop over the messages. -/
def sendStep (s : Pump R) : Option (Pump R) :=
  match s.download with
  | .sending [] [] => some { s with download := .reading }
  | .sending [] (m :: messages) => some { s with download := .sending (s.writer.cut m) messages }
  | .sending (chunk :: chunks) messages => some (s.sealNext C chunk chunks messages)
  | .putting record chunks messages => s.put record chunks messages
  | _ => none

/-- A step of the client: it takes a chunk or goes away. Both are possible when the pump has
ended. -/
def clientStep (s : Pump R) : PumpAction → Option (Pump R)
  | .recv => s.downlink.recv.map fun (downlink, b) =>
    { s with downlink, delivered := s.delivered ++ [b] }
  | .hangUp => some { s with downlink := s.downlink.close }
  | _ => none

/-- A step of `copy_upload`. -/
def uploadStep (s : Pump R) (a : PumpAction) : Option (Pump R) :=
  match s.upload, a with
  | .reading, .poll => some (s.pollUplink body)
  | .writing rest, .write k => some (s.write rest k)
  | .writing _, .writeError code => some (s.endUpload (.error (.socket (.os code))))
  | .shutdown, .shutdown r => some (s.shutdown r)
  | _, _ => none

/-- A step of `copy_download`. -/
def downloadStep (s : Pump R) : PumpAction → Option (Pump R)
  | .target got draw =>
    match s.download with
    | .reading => if got.length ≤ pumpBuffer then some (s.readTarget got draw) else none
    | _ => none
  | .targetError code =>
    match s.download with
    | .reading => some (s.endDownload (.error (.socket (.os code))))
    | _ => none
  | .send => s.sendStep C
  | _ => none

def step (s : Pump R) (a : PumpAction) : Option (Pump R) :=
  match s.clientStep a with
  | some s' => some s'
  | none =>
    if s.result.isSome then none
    else
      match s.uploadStep body a with
      | some s' => some s'
      | none => s.downloadStep C a

def start (reader : R) (vision : Option VisionWriter) (writer : ProtocolWriter) (capacity : Nat) :
    Pump R where
  upload := .reading
  reader := reader
  toTarget := []
  shut := false
  download := .reading
  vision := vision
  writer := writer
  downloadBytes := 0
  slices := []
  downlink := .new capacity
  sent := []
  delivered := []
  result := none

end Pump

/-- `pump_tcp`. -/
def pumpTcp {R : Type} (body : R → Nat → Loop R PollRead) (C : Crypto)
    (reader : R) (vision : Option VisionWriter) (writer : ProtocolWriter) (capacity : Nat) :
    Machine (Pump R) PumpAction where
  init := .start reader vision writer capacity
  step := Pump.step body C

/-! ## The upload -/

namespace Pump

section Uplink

variable {R : Type} {body : R → Nat → Loop R PollRead} {C : Crypto}

/-- What the steps of the upload leave as it is. -/
structure SameUpload (s s' : Pump R) : Prop where
  upload : s'.upload = s.upload
  reader : s'.reader = s.reader
  toTarget : s'.toTarget = s.toTarget
  shut : s'.shut = s.shut

/-- Where the bytes of the uplink are, of which the reader had `whole` to give. -/
def Uploaded (S : RoomSpec body) (whole : Bytes × ReadEnd) (s : Pump R) : Prop :=
  match s.upload with
  | .reading => s.shut = false ∧ S.ok s.reader ∧ whole = prepend s.toTarget (S.rest s.reader)
  | .writing rest =>
    s.shut = false ∧ S.ok s.reader ∧ whole = prepend (s.toTarget ++ rest) (S.rest s.reader)
  | .shutdown => s.shut = false ∧ whole = (s.toTarget, .eof)
  | .ended (.ok ()) => s.shut = true ∧ whole = (s.toTarget, .eof)
  | .ended (.error (.io e)) => s.shut = false ∧ whole = (s.toTarget, .error e)
  | .ended (.error _) => s.shut = false ∧ s.toTarget <+: whole.1

variable {S : RoomSpec body} {whole : Bytes × ReadEnd} {s s' : Pump R}

theorem Uploaded.congr (h : s.Uploaded S whole) (hs : SameUpload s s') : s'.Uploaded S whole := by
  unfold Uploaded at h ⊢
  rw [hs.upload, hs.reader, hs.toTarget, hs.shut]
  exact h

/-- The target has a part of the uplink from its start. -/
theorem Uploaded.prefix_whole (h : s.Uploaded S whole) : s.toTarget <+: whole.1 := by
  unfold Uploaded at h
  split at h
  · rw [h.2.2]
    exact prefix_append ..
  · rw [h.2.2, prepend, append_assoc]
    exact prefix_append ..
  · obtain ⟨-, rfl⟩ := h
    exact prefix_refl _
  · obtain ⟨-, rfl⟩ := h
    exact prefix_refl _
  · obtain ⟨-, rfl⟩ := h
    exact prefix_refl _
  · exact h.2

/-- The write half is shut down after the whole uplink only. -/
theorem Uploaded.of_shut (h : s.Uploaded S whole) (hs : s.shut = true) :
    whole = (s.toTarget, .eof) := by
  unfold Uploaded at h
  split at h
  case h_4 => exact h.2
  all_goals exact absurd (hs.symm.trans h.1) (by decide)

/-- An error of the uplink's reader, of the target's socket or of a client that is gone. -/
def FromOutside (e : PumpError) : Prop :=
  (∃ i, e = .io i) ∨ (∃ k, e = .socket k) ∨ e = .send .downloadClosed

/-- What a step of the upload can do. -/
inductive Uploads (body : R → Nat → Loop R PollRead) (s : Pump R) :
    Pump R → Prop
  | polled {reader : R} (hu : s.upload = .reading)
      (hb : body s.reader pumpBuffer = .next reader ∨
        body s.reader pumpBuffer = .done reader .pending) :
      Uploads body s { s with reader := reader }
  | readError {reader : R} {e : IoError} (hu : s.upload = .reading)
      (hb : body s.reader pumpBuffer = .done reader (.ready (.error e))) :
      Uploads body s ({ s with reader := reader }.endUpload (.error (.io e)))
  | eof {reader : R} (hu : s.upload = .reading)
      (hb : body s.reader pumpBuffer = .done reader (.ready (.ok []))) :
      Uploads body s { s with reader := reader, upload := .shutdown }
  | got {reader : R} {b : UInt8} {got : Bytes} (hu : s.upload = .reading)
      (hb : body s.reader pumpBuffer = .done reader (.ready (.ok (b :: got)))) :
      Uploads body s { s with reader := reader, upload := .writing (b :: got) }
  | wrote {rest : Bytes} (k : Nat) (hu : s.upload = .writing rest) :
      Uploads body s { s with
        toTarget := s.toTarget ++ rest.take k
        upload := if rest.drop k = [] then .reading else .writing (rest.drop k) }
  | fails (e : SocketError) (hu : (∃ rest, s.upload = .writing rest) ∨ s.upload = .shutdown) :
      Uploads body s (s.endUpload (.error (.socket e)))
  | shutdown (hu : s.upload = .shutdown) :
      Uploads body s ({ s with shut := true }.endUpload (.ok ()))

theorem uploadStep_cases {a : PumpAction} (h : s.uploadStep body a = some s') :
    Uploads body s s' := by
  unfold uploadStep at h
  split at h
  case h_1 hu =>
    cases h
    unfold pollUplink
    split
    case h_1 hb => exact .polled hu (.inl hb)
    case h_2 hb => exact .polled hu (.inr hb)
    case h_3 hb => exact .readError hu hb
    case h_4 hb => exact .eof hu hb
    case h_5 hb => exact .got hu hb
  case h_2 rest k hu =>
    cases h
    unfold write
    split
    · exact .fails _ (.inl ⟨_, hu⟩)
    · exact .wrote k hu
  case h_3 hu =>
    cases h
    exact .fails _ (.inl ⟨_, hu⟩)
  case h_4 r hu =>
    cases h
    cases r with
    | ok => exact .shutdown hu
    | error code => exact .fails _ (.inr hu)
  case h_5 => cases h

theorem Uploaded.step (h : s.Uploaded S whole) (hs : Uploads body s s') : s'.Uploaded S whole := by
  have hpre := h.prefix_whole
  cases hs with
  | polled hu hb =>
    simp only [Uploaded, hu] at h ⊢
    have hfol := S.follows s.reader pumpBuffer (by decide) h.2.1
    obtain ⟨hok, hrest⟩ : S.ok _ ∧ S.rest _ = S.rest s.reader := by
      rcases hb with hb | hb
      · rw [hb] at hfol
        exact ⟨hfol.1, hfol.2.1⟩
      · rw [hb] at hfol
        exact ⟨hfol.1, hfol.2.1⟩
    exact ⟨h.1, hok, by rw [hrest]; exact h.2.2⟩
  | @readError reader e hu hb =>
    simp only [Uploaded, hu] at h
    have hfol := S.follows s.reader pumpBuffer (by decide) h.2.1
    rw [hb] at hfol
    refine ⟨h.1, h.2.2.trans ?_⟩
    rw [show S.rest s.reader = ([], .error e) from hfol, prepend, append_nil]
    rfl
  | eof hu hb =>
    simp only [Uploaded, hu] at h
    have hfol := S.follows s.reader pumpBuffer (by decide) h.2.1
    rw [hb] at hfol
    refine ⟨h.1, h.2.2.trans ?_⟩
    rw [hfol.1 (by decide), prepend, append_nil]
  | got hu hb =>
    simp only [Uploaded, hu] at h
    have hfol := S.follows s.reader pumpBuffer (by decide) h.2.1
    rw [hb] at hfol
    refine ⟨h.1, hfol.1, h.2.2.trans ?_⟩
    rw [hfol.2.1, prepend_prepend]
  | @wrote rest k hu =>
    simp only [Uploaded, hu] at h
    have hsplit : s.toTarget ++ rest = s.toTarget ++ rest.take k ++ rest.drop k := by
      rw [append_assoc, take_append_drop]
    rw [hsplit] at h
    by_cases hd : rest.drop k = []
    · rw [if_pos hd]
      rw [hd, append_nil] at h
      exact h
    · rw [if_neg hd]
      exact h
  | fails e hu =>
    have hshut : s.shut = false := by
      rcases hu with ⟨rest, hu⟩ | hu <;> simp only [Uploaded, hu] at h <;> exact h.1
    exact ⟨hshut, hpre⟩
  | shutdown hu =>
    simp only [Uploaded, hu] at h
    exact ⟨rfl, h.2⟩

end Uplink

/-! ## The download -/

section Downlink

variable {R : Type} {C : Crypto}

/-- What `copy_download` does with a slice. -/
def Frames (v : Option VisionWriter) (data : Bytes) (v' : Option VisionWriter)
    (messages : List Bytes) : Prop :=
  ∃ draw, frameSlice v draw data = (.ok messages, v')

/-- What goes to the channel for a piece of a message. -/
def Seals (C : Crypto) (w : ProtocolWriter) (chunk : Bytes) (w' : ProtocolWriter)
    (records : List Bytes) : Prop :=
  ∃ record, w.sealChunk C chunk = (w', .ok record) ∧
    records = if record = [] then [] else [record]

theorem cut_sealChunk (w : ProtocolWriter) (chunk : Bytes) :
    (w.sealChunk C chunk).1.cut = w.cut := by
  cases w <;> rfl

theorem cut_of_seals {w w' : ProtocolWriter} {pieces records : List Bytes}
    (h : Outputs (Seals C) w pieces w' records) : w'.cut = w.cut := by
  refine h.inv (I := fun x => x.cut = w.cut) ?_ rfl
  rintro x c y bs hx ⟨record, hseal, -⟩
  rw [← hx, ← cut_sealChunk x c, hseal]

/-- The chunks of a slice are short enough for a frame. -/
theorem encodeChunks_framed (w : VisionWriter) (draw : Nat → Nat) (cs : List Bytes)
    (hcs : ∀ c ∈ cs, c.length ≤ maxFrameContent) :
    ∃ frames w', w.encodeChunks draw cs = (.ok frames, w') := by
  induction cs generalizing w draw with
  | nil => exact ⟨[], w, rfl⟩
  | cons c cs ih =>
    have hknown : ∀ ends : Bool, knownCommand (if ends then commandEnd else commandContinue) := by
      decide
    obtain ⟨frames, w', hrest⟩ := ih
      { uuid := none, filter := w.filter.observe c,
        padding := w.padding && !(w.filter.observe c).ends c }
      (fun i => draw (i + 1)) (fun c' hc' => hcs c' (mem_cons_of_mem _ hc'))
    obtain ⟨frame, hframe⟩ : ∃ frame, encodeFrame (draw 0) c
        (if (w.filter.observe c).ends c then commandEnd else commandContinue) w.uuid
        (w.filter.observe c).isTls = .ok frame :=
      ⟨_, encodeFrame_ok (draw 0) w.uuid _ (hknown _) (hcs c mem_cons_self)⟩
    exact ⟨frame :: frames, w', by simp only [VisionWriter.encodeChunks, hframe, hrest]⟩

/-- No slice fails to be framed. -/
theorem frames_ok (v : Option VisionWriter) (draw : Nat → Nat) (data : Bytes) :
    ∃ messages v', frameSlice v draw data = (.ok messages, v') := by
  cases v with
  | none => exact ⟨_, _, rfl⟩
  | some w =>
    by_cases hp : w.padding = true
    · obtain ⟨frames, w', h⟩ := encodeChunks_framed w draw (chunks maxFrameContent data)
        fun c hc => (length_of_mem_chunks (by decide) hc).2
      refine ⟨frames, some w', ?_⟩
      simp only [frameSlice, VisionWriter.encode, hp, Bool.not_true, Bool.false_eq_true, ↓reduceIte,
        h]
    · refine ⟨[data], some w, ?_⟩
      simp only [frameSlice, VisionWriter.encode, hp, Bool.not_false, ↓reduceIte]

/-- The pieces that the download still has to seal, and what it sealed and has not put into the
channel, in each place of its loop; `v` and `w` are the states of its writers there. -/
def At (w₀ : ProtocolWriter) (left hand : List Bytes) (v : Option VisionWriter)
    (w : ProtocolWriter) (s : Pump R) : Prop :=
  match s.download with
  | .reading => left = [] ∧ hand = [] ∧ v = s.vision ∧ w = s.writer
  | .sending cs ms => left = cs ++ ms.flatMap w₀.cut ∧ hand = [] ∧ v = s.vision ∧ w = s.writer
  | .putting r cs ms => left = cs ++ ms.flatMap w₀.cut ∧
      hand = (if r = [] then [] else [r]) ∧ v = s.vision ∧ w = s.writer
  | .ended (.ok ()) => left = [] ∧ hand = []
  | .ended (.error _) => True

/-- Where the bytes of the target are: framed, cut, sealed and put into the channel in order. -/
def Downloaded (C : Crypto) (v₀ : Option VisionWriter) (w₀ : ProtocolWriter) (s : Pump R) : Prop :=
  s.downloadBytes = s.slices.flatten.length % 2 ^ 64 ∧
  ∃ messages pieces left hand v w, Outputs Frames v₀ s.slices v messages ∧
    messages.flatMap w₀.cut = pieces ++ left ∧
    Outputs (Seals C) w₀ pieces w (s.sent ++ hand) ∧ s.At w₀ left hand v w

/-- What a step of the download can do. -/
inductive Downloads (C : Crypto) (s : Pump R) : Pump R → Prop
  | eof (hd : s.download = .reading) : Downloads C s (s.endDownload (.ok ()))
  | framed {got : Bytes} {draw : Nat → Nat} {messages : List Bytes} {vision : Option VisionWriter}
      (hd : s.download = .reading) (hgot : got ≠ [])
      (hframe : frameSlice s.vision draw got = (.ok messages, vision)) :
      Downloads C s { s with
        downloadBytes := wrappingAdd s.downloadBytes got.length
        slices := s.slices ++ [got]
        vision := vision
        download := .sending [] messages }
  | again (hd : s.download = .sending [] []) : Downloads C s { s with download := .reading }
  | message {m : Bytes} {ms : List Bytes} (hd : s.download = .sending [] (m :: ms)) :
      Downloads C s { s with download := .sending (s.writer.cut m) ms }
  | fails {writer : ProtocolWriter} {e : PumpError} (he : FromOutside e ∨
        ∃ chunk chunks ms e, s.download = .sending (chunk :: chunks) ms ∧
          s.writer.sealChunk C chunk = (writer, .error e)) :
      Downloads C s ({ s with writer := writer }.endDownload (.error e))
  | sealed {chunk record : Bytes} {chunks ms : List Bytes} {writer : ProtocolWriter}
      (hd : s.download = .sending (chunk :: chunks) ms)
      (hseal : s.writer.sealChunk C chunk = (writer, .ok record)) :
      Downloads C s { s with writer := writer, download := .putting record chunks ms }
  | put {record : Bytes} {chunks ms : List Bytes} {downlink : Session.Downlink}
      (hd : s.download = .putting record chunks ms)
      (hsend : s.downlink.send record = some (downlink, .ok ())) :
      Downloads C s { s with
        downlink := downlink
        sent := if record = [] then s.sent else s.sent ++ [record]
        download := .sending chunks ms }

variable {v₀ : Option VisionWriter} {w₀ : ProtocolWriter} {s s' : Pump R}

theorem downloadStep_cases {a : PumpAction} (h : s.downloadStep C a = some s') :
    Downloads C s s' := by
  unfold downloadStep at h
  split at h
  case h_1 got draw =>
    split at h
    case h_1 hd =>
      split at h
      · cases h
        unfold readTarget
        split
        · exact .eof hd
        case isFalse hgot =>
          obtain ⟨messages, vision, hframe⟩ := frames_ok s.vision draw got
          simp only [hframe]
          exact .framed hd hgot hframe
      · cases h
    case h_2 => cases h
  case h_2 code =>
    split at h
    · cases h
      exact .fails (.inl (.inr (.inl ⟨_, rfl⟩)))
    · cases h
  case h_3 =>
    unfold sendStep at h
    split at h
    case h_1 hd =>
      cases h
      exact .again hd
    case h_2 hd =>
      cases h
      exact .message hd
    case h_3 hd =>
      cases h
      unfold sealNext
      split
      case h_1 hseal => exact .fails (.inr ⟨_, _, _, _, hd, hseal⟩)
      case h_2 hseal => exact .sealed hd hseal
    case h_4 hd =>
      unfold put at h
      split at h
      · cases h
      · cases h
        exact .fails (.inl (.inr (.inr rfl)))
      case h_3 hsend =>
        cases h
        exact .put hd hsend
    case h_5 => cases h
  case h_4 => cases h

/-- A step of the download touches nothing of the upload. -/
theorem Downloads.same (h : Downloads C s s') : SameUpload s s' := by
  cases h <;> exact ⟨rfl, rfl, rfl, rfl⟩

theorem Downloaded.step (h : s.Downloaded C v₀ w₀) (hs : Downloads C s s') :
    s'.Downloaded C v₀ w₀ := by
  obtain ⟨hbytes, messages, pieces, left, hand, v, w, hframes, hcut, hseals, hat⟩ := h
  cases hs with
  | eof hd =>
    simp only [At, hd] at hat
    exact ⟨hbytes, messages, pieces, left, hand, v, w, hframes, hcut, hseals, hat.1, hat.2.1⟩
  | fails => exact ⟨hbytes, messages, pieces, left, hand, v, w, hframes, hcut, hseals, trivial⟩
  | @framed got draw more vision hd hgot hframe =>
    simp only [At, hd] at hat
    obtain ⟨rfl, rfl, rfl, rfl⟩ := hat
    refine ⟨?_, messages ++ more, pieces, more.flatMap w₀.cut, [], vision, s.writer,
      hframes.snoc ⟨draw, hframe⟩, ?_, hseals, rfl, rfl, rfl, rfl⟩
    · simp only [hbytes, wrappingAdd, flatten_append, flatten_singleton,
        length_append, Nat.mod_add_mod]
    · rw [flatMap_append, hcut, append_nil]
  | again hd =>
    simp only [At, hd] at hat
    obtain ⟨rfl, rfl, rfl, rfl⟩ := hat
    exact ⟨hbytes, messages, pieces, [], [], _, _, hframes, hcut, hseals, rfl, rfl, rfl, rfl⟩
  | message hd =>
    simp only [At, hd] at hat
    obtain ⟨rfl, rfl, rfl, rfl⟩ := hat
    refine ⟨hbytes, messages, pieces, _, [], _, _, hframes, hcut, hseals, ?_, rfl, rfl, rfl⟩
    rw [cut_of_seals hseals]
    rfl
  | @sealed chunk record chunks ms writer hd hseal =>
    simp only [At, hd] at hat
    obtain ⟨rfl, rfl, rfl, rfl⟩ := hat
    refine ⟨hbytes, messages, pieces ++ [chunk], chunks ++ ms.flatMap w₀.cut, _, _, writer, hframes,
      ?_, ?_, rfl, rfl, rfl, rfl⟩
    · rw [hcut, append_assoc]
      rfl
    · rw [append_nil] at hseals
      exact hseals.snoc ⟨record, hseal, rfl⟩
  | @put record chunks ms downlink hd hsend =>
    simp only [At, hd] at hat
    obtain ⟨rfl, rfl, rfl, rfl⟩ := hat
    refine ⟨hbytes, messages, pieces, _, [], _, _, hframes, hcut, ?_, rfl, rfl, rfl, rfl⟩
    have hsent : (if record = [] then s.sent else s.sent ++ [record]) ++ [] =
        s.sent ++ if record = [] then [] else [record] := by
      split <;> simp
    dsimp only
    rw [hsent]
    exact hseals

end Downlink

/-! ## Runs -/

section Runs

variable {R : Type} {body : R → Nat → Loop R PollRead} {C : Crypto}

/-- What the steps of the upload leave as it is. -/
structure SameDownload (s s' : Pump R) : Prop where
  download : s'.download = s.download
  vision : s'.vision = s.vision
  writer : s'.writer = s.writer
  downloadBytes : s'.downloadBytes = s.downloadBytes
  slices : s'.slices = s.slices
  sent : s'.sent = s.sent

/-- What was sent is delivered or in the channel, unless the client has gone. -/
def Delivered (s : Pump R) : Prop :=
  ∃ lost, s.sent = s.delivered ++ s.downlink.queue ++ lost ∧ (s.downlink.reader = true → lost = [])

/-- The result of the pump is that of one of its loops, and comes from outside if it is an error. -/
def Settled (s : Pump R) : Prop :=
  match s.result with
  | none => (∀ e, s.upload ≠ .ended (.error e)) ∧ ∀ r, s.download ≠ .ended r
  | some (.ok ()) => s.download = .ended (.ok ())
  | some (.error e) => FromOutside e

/-- What the download is about to seal can be sealed. -/
def Sealable (C : Crypto) (s : Pump R) : Prop :=
  ∀ chunk cs ms, s.download = .sending (chunk :: cs) ms →
    ∃ w record, s.writer.sealChunk C chunk = (w, .ok record)

variable {s s' : Pump R} {a : PumpAction}

theorem SameDownload.downloaded {v₀ : Option VisionWriter} {w₀ : ProtocolWriter}
    (hs : SameDownload s s') (h : s.Downloaded C v₀ w₀) : s'.Downloaded C v₀ w₀ := by
  unfold Downloaded At at h ⊢
  rw [hs.download, hs.vision, hs.writer, hs.downloadBytes, hs.slices, hs.sent]
  exact h

/-- Every step is one of the client, of the upload or of the download. -/
theorem step_cases (h : s.step body C a = some s') :
    s.clientStep a = some s' ∨ s.result = none ∧ Uploads body s s' ∨
      s.result = none ∧ Downloads C s s' := by
  unfold step at h
  split at h
  case h_1 hc =>
    cases h
    exact .inl hc
  case h_2 =>
    split at h
    · cases h
    case isFalse hr =>
      have hr : s.result = none := by simpa using hr
      split at h
      case h_1 hu =>
        cases h
        exact .inr (.inl ⟨hr, uploadStep_cases hu⟩)
      case h_2 => exact .inr (.inr ⟨hr, downloadStep_cases h⟩)

theorem clientStep_cases (h : s.clientStep a = some s') :
    (∃ d b, s.downlink.recv = some (d, b) ∧
      s' = { s with downlink := d, delivered := s.delivered ++ [b] }) ∨
      s' = { s with downlink := s.downlink.close } := by
  unfold clientStep at h
  split at h
  · obtain ⟨⟨d, b⟩, hrecv, rfl⟩ := Option.map_eq_some_iff.mp h
    exact .inl ⟨d, b, hrecv, rfl⟩
  · cases h
    exact .inr rfl
  · cases h

theorem clientStep_same (h : s.clientStep a = some s') :
    SameUpload s s' ∧ SameDownload s s' ∧ s'.result = s.result := by
  rcases clientStep_cases h with ⟨d, b, -, rfl⟩ | rfl
  · exact ⟨⟨rfl, rfl, rfl, rfl⟩, ⟨rfl, rfl, rfl, rfl, rfl, rfl⟩, rfl⟩
  · exact ⟨⟨rfl, rfl, rfl, rfl⟩, ⟨rfl, rfl, rfl, rfl, rfl, rfl⟩, rfl⟩

/-- A step of the upload touches nothing of the download. -/
theorem Uploads.same (h : Uploads body s s') :
    SameDownload s s' ∧ s'.downlink = s.downlink ∧ s'.delivered = s.delivered := by
  cases h <;> exact ⟨⟨rfl, rfl, rfl, rfl, rfl, rfl⟩, rfl, rfl⟩

theorem Delivered.step (h : s.Delivered) (hs : s.step body C a = some s') : s'.Delivered := by
  obtain ⟨lost, hsent, hlost⟩ := h
  rcases step_cases hs with hc | ⟨-, hu⟩ | ⟨-, hd⟩
  · rcases clientStep_cases hc with ⟨d, b, hrecv, rfl⟩ | rfl
    · obtain ⟨hr, hq⟩ := Downlink.recv_cases hrecv
      refine ⟨lost, ?_, fun _ => hlost hr⟩
      show s.sent = s.delivered ++ [b] ++ d.queue ++ lost
      rw [hsent, hq, append_assoc s.delivered [b]]
      rfl
    · refine ⟨s.downlink.queue ++ lost, ?_, fun h => by cases h⟩
      show s.sent = s.delivered ++ [] ++ (s.downlink.queue ++ lost)
      rw [hsent, append_nil, append_assoc]
  · obtain ⟨hsame, hdown, hdel⟩ := hu.same
    refine ⟨lost, ?_, ?_⟩
    · rw [hsame.sent, hdown, hdel, hsent]
    · rwa [hdown]
  · cases hd with
    | @put record chunks ms d hd hsend =>
      by_cases hr : record = []
      · subst hr
        cases hsend
        exact ⟨lost, hsent, hlost⟩
      · rcases Downlink.send_cases hr hsend with ⟨-, -, h⟩ | ⟨hreader, rfl, -⟩
        · cases h
        · obtain rfl := hlost hreader
          refine ⟨[], ?_, fun _ => rfl⟩
          dsimp only
          rw [if_neg hr, hsent, append_nil, append_nil, append_assoc]
    | _ => exact ⟨lost, hsent, hlost⟩

theorem Settled.step (h : s.Settled) (hseal : s.Sealable C) (hs : s.step body C a = some s') :
    s'.Settled := by
  rcases step_cases hs with hc | ⟨hr, hu⟩ | ⟨hr, hd⟩
  · obtain ⟨hup, hdown, hres⟩ := clientStep_same hc
    unfold Settled at h ⊢
    rwa [hres, hup.upload, hdown.download]
  · simp only [Settled, hr] at h
    obtain ⟨hup, hdown⟩ := h
    cases hu with
    | readError => exact .inl ⟨_, rfl⟩
    | fails => exact .inr (.inl ⟨_, rfl⟩)
    | polled => simpa only [Settled, hr] using ⟨hup, hdown⟩
    | eof | got => simpa [Settled, hr] using hdown
    | wrote k =>
      simp only [Settled, hr]
      refine ⟨fun e he => ?_, hdown⟩
      split at he <;> cases he
    | shutdown => simpa [Settled, endUpload, hr] using hdown
  · simp only [Settled, hr] at h
    cases hd with
    | eof => rfl
    | fails he =>
      rcases he with he | ⟨_, _, _, _, hd, hfail⟩
      · exact he
      · obtain ⟨w, record, hok⟩ := hseal _ _ _ hd
        cases hfail.symm.trans hok
    | framed | again | message | sealed | put => simpa [Settled, hr] using h.1

/-- What holds in every state of the pump, whatever the uplink is. -/
structure Inv (C : Crypto) (v₀ : Option VisionWriter) (w₀ : ProtocolWriter) (s : Pump R) :
    Prop where
  downloaded : s.Downloaded C v₀ w₀
  delivered : s.Delivered
  settled : s.Settled

variable {v₀ : Option VisionWriter} {w₀ : ProtocolWriter}

theorem Inv.step (h : Inv C v₀ w₀ s) (hseal : s.Sealable C) (hs : s.step body C a = some s') :
    Inv C v₀ w₀ s' := by
  refine ⟨?_, h.delivered.step hs, h.settled.step hseal hs⟩
  rcases step_cases hs with hc | ⟨-, hu⟩ | ⟨-, hd⟩
  · exact (clientStep_same hc).2.1.downloaded h.downloaded
  · exact hu.same.1.downloaded h.downloaded
  · exact h.downloaded.step hd

theorem inv_start (reader : R) (capacity : Nat) : Inv C v₀ w₀ (start reader v₀ w₀ capacity) := by
  refine ⟨⟨rfl, [], [], [], [], v₀, w₀, .nil _, rfl, .nil _, rfl, rfl, rfl, rfl⟩,
    ⟨[], rfl, fun _ => rfl⟩, ?_⟩
  simp [Settled, start]

variable {reader : R} {capacity : Nat} {acts : List PumpAction} {t : Pump R} {S : RoomSpec body}
  {data : Bytes}

/-- **Every run of the pump.** -/
theorem inv_run (hseal : ∀ s : Pump R, s.Downloaded C v₀ w₀ → s.Sealable C)
    (h : (pumpTcp body C reader v₀ w₀ capacity).run acts = some t) : Inv C v₀ w₀ t :=
  Machine.run_inv (inv_start reader capacity)
    (fun s _ _ _ hs h => hs.step (hseal s hs.downloaded) h) (Machine.along_true _ _) h

theorem Uploaded.keep {whole : Bytes × ReadEnd} (h : s.Uploaded S whole)
    (hs : s.step body C a = some s') : s'.Uploaded S whole := by
  rcases step_cases hs with hc | ⟨-, hu⟩ | ⟨-, hd⟩
  · exact h.congr (clientStep_same hc).1
  · exact h.step hu
  · exact h.congr hd.same

/-- Every run of the pump with a reader of which is known what it has to give. -/
theorem uploaded_run (hok : S.ok reader)
    (h : (pumpTcp body C reader v₀ w₀ capacity).run acts = some t) :
    t.Uploaded S (S.rest reader) := by
  refine Machine.run_inv_all ?_ (fun _ _ _ hs h => hs.keep h) h
  exact ⟨rfl, hok, rfl⟩

/-! ### The upload comes to its end -/

/-- A bound on the steps of the upload from here. -/
def uploadWeight (S : RoomSpec body) (s : Pump R) : Nat :=
  match s.upload with
  | .reading => 2 * S.measure s.reader + 2
  | .writing _ => 2 * S.measure s.reader + 3
  | .shutdown => 1
  | .ended _ => 0

theorem step_upload (hr : s.result = none) (hc : s.clientStep a = none)
    (hu : s.uploadStep body a = some s') : s.step body C a = some s' := by
  simp [Pump.step, hc, hr, hu]

/-- While the pump runs and the uplink ends cleanly, the upload has a step towards its end. -/
theorem Uploaded.advance (h : s.Uploaded S (data, .eof)) (hr : s.result = none)
    (hlive : ∀ r, s.upload ≠ .ended r) :
    ∃ a s', s.step body C a = some s' ∧ s'.result = none ∧
      uploadWeight S s' < uploadWeight S s := by
  match hu : s.upload with
  | .ended r => exact absurd hu (hlive r)
  | .reading =>
    refine ⟨.poll, s.pollUplink body, step_upload hr rfl (by simp [uploadStep, hu]), ?_⟩
    simp only [Uploaded, hu] at h
    have hfol := S.follows s.reader pumpBuffer (by decide) h.2.1
    unfold pollUplink
    match hb : body s.reader pumpBuffer with
    | .next r =>
      rw [hb] at hfol
      simp only [uploadWeight, hu]
      exact ⟨hr, by have := hfol.2.2; omega⟩
    | .done r .pending =>
      rw [hb] at hfol
      simp only [uploadWeight, hu]
      exact ⟨hr, by have := hfol.2.2; omega⟩
    | .done r (.ready (.error e)) =>
      rw [hb] at hfol
      have := h.2.2
      rw [show S.rest s.reader = ([], .error e) from hfol] at this
      cases this
    | .done r (.ready (.ok [])) =>
      simp only [uploadWeight, hu]
      exact ⟨hr, by omega⟩
    | .done r (.ready (.ok (b :: got))) =>
      rw [hb] at hfol
      simp only [uploadWeight, hu]
      exact ⟨hr, by have := hfol.2.2; omega⟩
  | .writing rest =>
    -- the target takes all that is offered
    refine ⟨.write (rest.length + 1), s.write rest (rest.length + 1),
      step_upload hr rfl (by simp [uploadStep, hu]), ?_⟩
    have hd : rest.drop (rest.length + 1) = [] := drop_of_length_le (Nat.le_succ _)
    simp only [write, Nat.add_one_ne_zero, hd, ↓reduceIte, uploadWeight, hu]
    exact ⟨hr, by omega⟩
  | .shutdown =>
    refine ⟨.shutdown (.ok ()), s.shutdown (.ok ()),
      step_upload hr rfl (by simp [uploadStep, hu]), ?_⟩
    simp only [shutdown, endUpload, uploadWeight, hu]
    exact ⟨hr, by omega⟩

/-- **No deadlock of the upload.** -/
theorem Uploaded.completes (hseal : ∀ s : Pump R, s.Downloaded C v₀ w₀ → s.Sealable C)
    {M : Machine (Pump R) PumpAction} (hM : M.step = Pump.step body C)
    (h : s.Uploaded S (data, .eof)) (hinv : Inv C v₀ w₀ s) (hr : s.result = none) :
    ∃ acts t, M.runFrom s acts = some t ∧ t.toTarget = data ∧ t.shut = true := by
  induction hw : uploadWeight S s using Nat.strongRecOn generalizing s with
  | _ n ih =>
    by_cases hlive : ∀ r, s.upload ≠ .ended r
    · obtain ⟨a, s', hs, hr', hlt⟩ := h.advance (C := C) hr hlive
      obtain ⟨acts, t, hrun, hend⟩ :=
        ih _ (hw ▸ hlt) (h.keep hs) (hinv.step (hseal s hinv.downloaded) hs) hr' rfl
      refine ⟨a :: acts, t, ?_, hend⟩
      rw [Machine.runFrom, hM, hs]
      exact hrun
    · have hok : s.upload = .ended (.ok ()) := by
        have hsettled := hinv.settled
        simp only [Settled, hr] at hsettled
        obtain ⟨r, hu⟩ := Classical.not_forall.mp hlive
        cases r with
        | error e => exact absurd (Classical.not_not.mp hu) (hsettled.1 e)
        | ok => exact Classical.not_not.mp hu
      simp only [Uploaded, hok] at h
      exact ⟨[], s, rfl, (congrArg Prod.fst h.2).symm, h.1⟩

end Runs

end Pump

end Xhttp.Dispatch
