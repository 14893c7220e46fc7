import RustXhttp.Lib.Source

/-!
# The Vision codec (`src/vless/vision.rs`)

A Vision stream is the user's UUID followed by frames: a command byte, the lengths of content and
padding as big-endian `u16`, the content, the padding. After a frame whose command is not
`COMMAND_CONTINUE` the stream is raw.

* **Writer.** `VisionWriter.encode` cuts the data into chunks of at most `MAX_FRAME_CONTENT` bytes
  and frames each of them until `TlsFilter` has seen enough packets or application data of a TLS
  stream. The random numbers it draws are arguments: `gen_range(0..n)` of a draw `d` is `d % n`.
* **Reader.** `VisionReader.pollStep` is one iteration of the loop of `poll_read`, over any inner
  reader. The arrays `prefix` and `bytes` with their fill counts are the lists of the bytes read
  so far.
-/

namespace Xhttp.Vision

/-- `COMMAND_CONTINUE`. -/
def commandContinue : UInt8 := 0

/-- `COMMAND_END`. -/
def commandEnd : UInt8 := 1

/-- `COMMAND_DIRECT`. -/
def commandDirect : UInt8 := 2

/-- `MAX_FRAME_CONTENT`. -/
def maxFrameContent : Nat := 8192 - 21

/-- `matches!(command, COMMAND_CONTINUE | COMMAND_END | COMMAND_DIRECT)`. -/
def knownCommand (command : UInt8) : Bool :=
  command == commandContinue || command == commandEnd || command == commandDirect

inductive VisionError where
  | command (c : UInt8)
  | contentLength (n : Nat)
  deriving DecidableEq, Repr

/-- The length of the padding of a frame, from the draw of `gen_range`. -/
def paddingLen (draw contentLen : Nat) (longPadding : Bool) : Nat :=
  let wanted :=
    if contentLen < 900 ∧ longPadding then draw % 500 + 900 - contentLen else draw % 256
  min wanted (maxFrameContent - contentLen)

/-- The bytes of a frame after the UUID, with `padding` bytes of padding. -/
def frameBytes (content : Bytes) (command : UInt8) (padding : Nat) : Bytes :=
  command :: (be16 content.length ++ be16 padding ++ content ++ List.replicate padding 0)

def encodeFrame (draw : Nat) (content : Bytes) (command : UInt8) (userUuid : Option (ByteArr 16))
    (longPadding : Bool) : Except VisionError Bytes :=
  if ¬ knownCommand command then .error (.command command)
  else if content.length > maxFrameContent ∨ content.length > 65535 then
    .error (.contentLength content.length)
  else .ok (userUuid.elim [] (·.val) ++
    frameBytes content command (paddingLen draw content.length longPadding))

/-! ## Writer -/

structure TlsFilter where
  packetsLeft : Nat
  isTls : Bool
  deriving DecidableEq, Repr

def TlsFilter.new : TlsFilter := ⟨8, false⟩

/-- The condition under which `observe` takes the stream for TLS: a handshake or an application
data record header. -/
def looksTls (data : Bytes) : Bool :=
  6 ≤ data.length &&
    ((data.getD 0 0 == 0x16 && data.getD 1 0 == 0x03) ||
      (data.getD 0 0 == 0x17 && (data.drop 1).take 2 == [0x03, 0x03]))

def TlsFilter.observe (f : TlsFilter) (data : Bytes) : TlsFilter :=
  { packetsLeft := f.packetsLeft - 1, isTls := f.isTls || looksTls data }

/-- `application_data` of `encode`. -/
def applicationData (chunk : Bytes) : Bool :=
  5 ≤ chunk.length && chunk.take 3 == [0x17, 0x03, 0x03]

structure VisionWriter where
  uuid : Option (ByteArr 16)
  filter : TlsFilter
  padding : Bool
  deriving DecidableEq, Repr

def VisionWriter.new (uuid : ByteArr 16) : VisionWriter := ⟨some uuid, .new, true⟩

/-- The chunk that the filter has just observed ends the padding. -/
def TlsFilter.ends (f : TlsFilter) (chunk : Bytes) : Bool :=
  (f.isTls && applicationData chunk) || f.packetsLeft == 0

/-- The loop of `encode`: `draw i` is drawn for the `i`-th chunk. -/
def VisionWriter.encodeChunks (w : VisionWriter) (draw : Nat → Nat) :
    List Bytes → Except VisionError (List Bytes) × VisionWriter
  | [] => (.ok [], w)
  | chunk :: rest =>
    let filter := w.filter.observe chunk
    let ends := filter.ends chunk
    let w' := { uuid := none, filter, padding := w.padding && !ends }
    let command := if ends then commandEnd else commandContinue
    match encodeFrame (draw 0) chunk command w.uuid filter.isTls with
    | .error e => (.error e, w')
    | .ok frame =>
      match encodeChunks w' (fun i => draw (i + 1)) rest with
      | (.ok frames, w'') => (.ok (frame :: frames), w'')
      | (.error e, w'') => (.error e, w'')

def VisionWriter.encode (w : VisionWriter) (draw : Nat → Nat) (data : Bytes) :
    Except VisionError (List Bytes) × VisionWriter :=
  if !w.padding then (.ok [data], w)
  else w.encodeChunks draw (chunks maxFrameContent data)

/-- The frames of a sequence of `encode` calls on one writer (`copy_download`), up to the first
error. `draws i` are the draws of the `i`-th call. -/
def VisionWriter.encodeAll (w : VisionWriter) (draws : Nat → Nat → Nat) :
    List Bytes → Except VisionError (List Bytes)
  | [] => .ok []
  | data :: rest =>
    match w.encode (draws 0) data with
    | (.error e, _) => .error e
    | (.ok frames, w') =>
      match w'.encodeAll (fun i => draws (i + 1)) rest with
      | .error e => .error e
      | .ok more => .ok (frames ++ more)

/-! ## Reader -/

inductive ReadState where
  | header (bytes : Bytes)
  | content (remaining padding : Nat) (command : UInt8)
  | padding (remaining : Nat) (command : UInt8)
  deriving DecidableEq, Repr

structure VisionReader (R : Type) where
  inner : R
  uuid : ByteArr 16
  prefixBytes : Bytes
  raw : Bool
  state : ReadState
  output : Bytes

def VisionReader.new {R : Type} (inner : R) (uuid : ByteArr 16) : VisionReader R :=
  ⟨inner, uuid, [], false, .header [], []⟩

def prefixTruncated : IoError := ⟨.unexpectedEof, "Vision UUID prefix truncated"⟩
def prefixMismatch : IoError := ⟨.invalidData, "Vision UUID prefix mismatch"⟩
def unknownCommand : IoError := ⟨.invalidData, "unknown Vision command"⟩
def contentTruncated : IoError := ⟨.unexpectedEof, "Vision content truncated"⟩
def paddingTruncated : IoError := ⟨.unexpectedEof, "Vision padding truncated"⟩

section Reader

variable {R : Type} [AsyncRead R]

/-- The `ReadState::Header` arm. An inner reader at its end ends the stream here, also inside a
header. -/
def VisionReader.pollHeader (r : VisionReader R) (bytes : Bytes) : Loop (VisionReader R) PollRead :=
  match AsyncRead.pollRead r.inner (5 - bytes.length) with
  | (inner, .pending) => .done { r with inner } .pending
  | (inner, .ready (.error e)) => .done { r with inner } (.ready (.error e))
  | (inner, .ready (.ok [])) => .done { r with inner } (.ready (.ok []))
  | (inner, .ready (.ok (b :: got))) =>
    let bytes := bytes ++ b :: got
    if bytes.length < 5 then .next { r with inner, state := .header bytes }
    else
      let command := bytes.getD 0 0
      if ¬ knownCommand command then
        .done { r with inner, state := .header bytes } (.ready (.error unknownCommand))
      else
        .next { r with
          inner
          state := .content (ofBe16 (bytes.getD 1 0) (bytes.getD 2 0))
            (ofBe16 (bytes.getD 3 0) (bytes.getD 4 0)) command }

/-- The `ReadState::Content` arm. -/
def VisionReader.pollContent (r : VisionReader R) (remaining padding : Nat) (command : UInt8) :
    Loop (VisionReader R) PollRead :=
  if remaining = 0 then .next { r with state := .padding padding command }
  else
    match AsyncRead.pollRead r.inner (min remaining (32 * 1024)) with
    | (inner, .pending) => .done { r with inner } .pending
    | (inner, .ready (.error e)) => .done { r with inner } (.ready (.error e))
    | (inner, .ready (.ok [])) => .done { r with inner } (.ready (.error contentTruncated))
    | (inner, .ready (.ok (b :: got))) =>
      .next { r with
        inner
        state := .content (remaining - (b :: got).length) padding command
        output := b :: got }

/-- The `ReadState::Padding` arm. -/
def VisionReader.pollPadding (r : VisionReader R) (remaining : Nat) (command : UInt8) :
    Loop (VisionReader R) PollRead :=
  if remaining = 0 then
    if command = commandContinue then .next { r with state := .header [] }
    else .next { r with raw := true }
  else
    match AsyncRead.pollRead r.inner (min remaining 8192) with
    | (inner, .pending) => .done { r with inner } .pending
    | (inner, .ready (.error e)) => .done { r with inner } (.ready (.error e))
    | (inner, .ready (.ok [])) => .done { r with inner } (.ready (.error paddingTruncated))
    | (inner, .ready (.ok (b :: got))) =>
      .next { r with inner, state := .padding (remaining - (b :: got).length) command }

/-- The `match &mut this.state` of the loop. -/
def VisionReader.pollState (r : VisionReader R) : Loop (VisionReader R) PollRead :=
  match r.state with
  | .header bytes => r.pollHeader bytes
  | .content remaining padding command => r.pollContent remaining padding command
  | .padding remaining command => r.pollPadding remaining command

/-- One iteration of the loop of `poll_read`, with `n` bytes left in `dst`. -/
def VisionReader.pollStep (r : VisionReader R) (n : Nat) : Loop (VisionReader R) PollRead :=
  if r.output ≠ [] then
    .done { r with output := r.output.drop n } (.ready (.ok (r.output.take n)))
  else if r.raw then
    let (inner, p) := AsyncRead.pollRead r.inner n
    .done { r with inner } p
  else if r.prefixBytes.length < 16 then
    match AsyncRead.pollRead r.inner (16 - r.prefixBytes.length) with
    | (inner, .pending) => .done { r with inner } .pending
    | (inner, .ready (.error e)) => .done { r with inner } (.ready (.error e))
    | (inner, .ready (.ok [])) => .done { r with inner } (.ready (.error prefixTruncated))
    | (inner, .ready (.ok (b :: got))) =>
      let r := { r with inner, prefixBytes := r.prefixBytes ++ b :: got }
      if r.prefixBytes.length < 16 then .next r
      else if r.prefixBytes ≠ r.uuid.val then .done r (.ready (.error prefixMismatch))
      -- the last byte of the UUID falls through to the state machine
      else r.pollState
  else r.pollState

end Reader

end Xhttp.Vision
