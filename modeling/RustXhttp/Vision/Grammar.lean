import RustXhttp.Vision.Decode

/-!
# The Vision grammar

A `Stream` is what a peer may send: the UUID, frames with `COMMAND_CONTINUE`, and then the end or a
frame with `COMMAND_END` or `COMMAND_DIRECT` and raw bytes. Contents and paddings are of any length
that a `u16` holds, and the padding bytes are arbitrary.

* `reads_stream`: a reader yields the contents and the raw bytes, however the wire is cut.
* `Stream.place`: where in the stream a cut is; `decodeWire_take`: what a reader makes of a stream
  that ends there.
* `truncation_reported_iff`: it tells a truncated stream from a complete one except inside a frame
  header, where it reports a clean end.
-/

namespace Xhttp.Vision

open List

/-- A frame, without its command. -/
structure Frame where
  content : Bytes
  padding : Bytes
  content_lt : content.length < 65536
  padding_lt : padding.length < 65536
  deriving DecidableEq

/-- The frame on the wire. -/
def Frame.bytes (f : Frame) (command : UInt8) : Bytes :=
  command :: (be16 f.content.length ++ be16 f.padding.length ++ (f.content ++ f.padding))

/-- The commands after which a stream is raw. -/
inductive Switch where
  | ends
  | direct
  deriving DecidableEq, Repr

def Switch.command : Switch → UInt8
  | .ends => commandEnd
  | .direct => commandDirect

/-- The frame that switches to raw, and the raw bytes after it. -/
structure Last where
  switch : Switch
  frame : Frame
  raw : Bytes
  deriving DecidableEq

structure Stream where
  uuid : ByteArr 16
  frames : List Frame
  last : Option Last
  deriving DecidableEq

def Last.wire (l : Last) : Bytes := l.frame.bytes l.switch.command ++ l.raw

/-- The wire from the frames `fs` on. -/
def framesWire (last : Option Last) (fs : List Frame) : Bytes :=
  fs.flatMap (fun f => f.bytes commandContinue) ++ last.elim [] Last.wire

def Stream.wire (s : Stream) : Bytes := s.uuid.val ++ framesWire s.last s.frames

/-- What the stream carries. -/
def Stream.data (s : Stream) : Bytes :=
  s.frames.flatMap Frame.content ++ s.last.elim [] fun l => l.frame.content ++ l.raw

/-! ## Whole streams -/

section Frame

variable (f : Frame) (command : UInt8)

theorem Frame.length_bytes : (f.bytes command).length =
    5 + f.content.length + f.padding.length := by
  simp [Frame.bytes, be16]
  omega

/-- A header, and whatever of the frame and the stream is there after it. -/
theorem Frame.decodeFrames_header (hk : knownCommand command) (w : Bytes) :
    decodeFrames (command :: (be16 f.content.length ++ be16 f.padding.length ++ w)) =
      decodeContent f.content.length f.padding.length command w := by
  rw [Vision.decodeFrames_header (by simp [be16]) (by simpa using hk)]
  simp [be16, ofBe16_ofNat f.content_lt, ofBe16_ofNat f.padding_lt]

/-- The content, and then what follows the padding. -/
theorem Frame.decodeFrames_bytes (hk : knownCommand command) (w : Bytes) :
    decodeFrames (f.bytes command ++ w) = prepend f.content
      (if command = commandContinue then decodeFrames w else (w, .eof)) := by
  have hsplit : f.bytes command ++ w = command :: (be16 f.content.length ++
      be16 f.padding.length ++ (f.content ++ (f.padding ++ w))) := by
    simp [Frame.bytes]
  rw [hsplit, f.decodeFrames_header command hk, decodeContent_append (Nat.le_refl _), Nat.sub_self,
    decodeContent_zero, decodePadding_append (Nat.le_refl _)]
  simp [decodePadding]

end Frame

theorem Switch.known (sw : Switch) : knownCommand sw.command := by
  cases sw <;> decide

theorem Switch.command_ne (sw : Switch) : sw.command ≠ commandContinue := by
  cases sw <;> decide

theorem Last.decodeFrames_wire (l : Last) :
    decodeFrames l.wire = (l.frame.content ++ l.raw, .eof) := by
  rw [Last.wire, l.frame.decodeFrames_bytes _ l.switch.known, if_neg l.switch.command_ne]
  rfl

theorem decodeFrames_framesWire (last : Option Last) (fs : List Frame) :
    decodeFrames (framesWire last fs) =
      (fs.flatMap Frame.content ++ last.elim [] (fun l => l.frame.content ++ l.raw), .eof) := by
  induction fs with
  | nil =>
    cases last with
    | none => exact decodeFrames_short (by decide)
    | some l => exact l.decodeFrames_wire
  | cons f fs ih =>
    have hcons : framesWire last (f :: fs) = f.bytes commandContinue ++ framesWire last fs := by
      simp [framesWire]
    rw [hcons, f.decodeFrames_bytes _ (by decide), if_pos rfl, ih]
    simp [prepend]

theorem decodeWire_append (uuid : ByteArr 16) (w : Bytes) :
    decodeWire uuid.val (uuid.val ++ w) = decodeFrames w := by
  have h16 : uuid.val.length = 16 := uuid.property
  rw [decodeWire, if_neg (by rw [length_append]; omega), take_left' h16,
    if_neg (fun h => h rfl), drop_left' h16]

/-- **A reader decodes the whole grammar**: for every stream, every fragmentation of its wire with
pending polls anywhere, and every sequence of buffers. -/
theorem reads_stream (s : Stream) (cuts sizes : List Nat) (fuel : Nat)
    (hf : 4 * s.wire.length + cuts.length + sizes.length < fuel) :
    readToEnd VisionReader.pollStep fuel (VisionReader.new (Source.mk s.wire cuts) s.uuid) sizes =
      some (s.data, .eof) := by
  rw [VisionReader.readToEnd_new s.uuid s.wire cuts sizes hf, Stream.wire, decodeWire_append,
    decodeFrames_framesWire]
  rfl

/-- Two frames without content or without padding, and raw bytes. -/
def sampleStream : Stream where
  uuid := ⟨List.replicate 16 7, rfl⟩
  frames := [⟨[1, 2, 3], [], by decide, by decide⟩, ⟨[], [9, 9], by decide, by decide⟩]
  last := some ⟨.direct, ⟨[4], [0], by decide, by decide⟩, [5, 6]⟩

theorem reads_stream_sample :
    readToEnd VisionReader.pollStep 1000
      (VisionReader.new (Source.mk sampleStream.wire [0, 5, 0, 12, 3, 1]) sampleStream.uuid)
      [2, 1, 3] = some ([1, 2, 3, 4, 5, 6], .eof) :=
  reads_stream sampleStream [0, 5, 0, 12, 3, 1] [2, 1, 3] 1000 (by decide)

/-! ## Cut streams -/

/-- Where a stream is cut: in the UUID, in a part of a frame, between two frames, or after the
switch to raw. -/
inductive Place where
  | uuid | header | content | padding | boundary | raw
  deriving DecidableEq, Repr

/-- The place of a cut after `n` bytes of a frame: `none` after its end. -/
def Frame.place (f : Frame) (n : Nat) : Option Place :=
  if n = 0 then some .boundary
  else if n < 5 then some .header
  else if n < 5 + f.content.length then some .content
  else if n < 5 + f.content.length + f.padding.length then some .padding
  else none

def framesPlace (last : Option Last) : List Frame → Nat → Place
  | [], n => last.elim .boundary fun l => (l.frame.place n).getD .raw
  | f :: fs, n => (f.place n).getD (framesPlace last fs (n - (f.bytes commandContinue).length))

/-- The place of a cut after `n` bytes of a stream. -/
def Stream.place (s : Stream) (n : Nat) : Place :=
  if n < 16 then .uuid else framesPlace s.last s.frames (n - 16)

/-- How a read to the end of a cut stream stops. -/
def Place.ending : Place → ReadEnd
  | .uuid => .error prefixTruncated
  | .content => .error contentTruncated
  | .padding => .error paddingTruncated
  | .header | .boundary | .raw => .eof

/-- A frame that is cut. -/
theorem Frame.decodeFrames_take (f : Frame) {command : UInt8} (hk : knownCommand command) {n : Nat}
    {p : Place} (hp : f.place n = some p) (w : Bytes) :
    (decodeFrames ((f.bytes command ++ w).take n)).2 = p.ending := by
  have hshort : n < 5 → (decodeFrames ((f.bytes command ++ w).take n)).2 = .eof := by
    intro h5
    rw [decodeFrames_short (by rw [length_take]; omega)]
  unfold Frame.place at hp
  split at hp
  case isTrue h0 =>
    cases hp
    exact hshort (by omega)
  split at hp
  case isTrue h5 =>
    cases hp
    exact hshort h5
  case isFalse h5 =>
  -- the header is there, and `m` bytes after it
  obtain ⟨m, rfl⟩ : ∃ m, n = m + 5 := ⟨n - 5, by omega⟩
  have hhead : (f.bytes command ++ w).take (m + 5) = command :: (be16 f.content.length ++
      be16 f.padding.length ++ (f.content ++ (f.padding ++ w)).take m) := by
    simp [Frame.bytes, be16]
  rw [hhead, f.decodeFrames_header command hk]
  split at hp
  case isTrue hcontent =>
    cases hp
    rw [decodeContent, if_pos (by rw [length_take]; omega)]
    rfl
  split at hp
  case isTrue hpadding =>
    cases hp
    obtain ⟨k, rfl⟩ : ∃ k, m = f.content.length + k := ⟨m - f.content.length, by omega⟩
    rw [take_length_add_append, decodeContent_append (Nat.le_refl _), Nat.sub_self,
      decodeContent_zero, decodePadding, if_pos (by rw [length_take]; omega)]
    rfl
  case isFalse => cases hp

/-- The end of the frame is at the cut or before it. -/
theorem Frame.length_le_of_place {f : Frame} {n : Nat} (h : f.place n = none) (command : UInt8) :
    (f.bytes command).length ≤ n := by
  rw [f.length_bytes]
  grind [Frame.place]

theorem decodeFrames_take (last : Option Last) (fs : List Frame) (n : Nat) :
    (decodeFrames ((framesWire last fs).take n)).2 = (framesPlace last fs n).ending := by
  induction fs generalizing n with
  | nil =>
    cases last with
    | none =>
      have hnil : (framesWire none []).take n = [] := by simp [framesWire]
      rw [hnil, decodeFrames_short (by decide)]
      rfl
    | some l =>
      show (decodeFrames ((l.frame.bytes l.switch.command ++ l.raw).take n)).2 =
        ((l.frame.place n).getD .raw).ending
      cases hp : l.frame.place n with
      | some p => exact l.frame.decodeFrames_take l.switch.known hp l.raw
      | none =>
        rw [take_append, take_of_length_le (Frame.length_le_of_place hp _),
          l.frame.decodeFrames_bytes _ l.switch.known, if_neg l.switch.command_ne]
        rfl
  | cons f fs ih =>
    have hcons : framesWire last (f :: fs) = f.bytes commandContinue ++ framesWire last fs := by
      simp [framesWire]
    rw [hcons, framesPlace]
    cases hp : f.place n with
    | some p => exact f.decodeFrames_take (by decide) hp _
    | none =>
      rw [take_append, take_of_length_le (Frame.length_le_of_place hp _),
        f.decodeFrames_bytes _ (by decide), if_pos rfl]
      exact ih (n - (f.bytes commandContinue).length)

theorem decodeWire_take (s : Stream) (n : Nat) :
    (decodeWire s.uuid.val (s.wire.take n)).2 = (s.place n).ending := by
  have h16 : s.uuid.val.length = 16 := s.uuid.property
  rw [Stream.place]
  split
  case isTrue h =>
    rw [decodeWire, if_pos (by rw [length_take]; omega)]
    rfl
  case isFalse h =>
    have htake : s.wire.take n = s.uuid.val ++ (framesWire s.last s.frames).take (n - 16) := by
      rw [Stream.wire, take_append, take_of_length_le (by omega), h16]
    rw [htake, decodeWire_append]
    exact decodeFrames_take s.last s.frames (n - 16)

/-- **What a reader makes of a stream that ends early**: for every stream, every cut, every
fragmentation and every sequence of buffers. Inside the UUID, a content or a padding it reports an
unexpected end. At a frame boundary, after the switch to raw, and inside a header, it reports a
clean one. -/
theorem truncation_reported_iff (s : Stream) (n : Nat) (cuts sizes : List Nat) (fuel : Nat)
    (hf : 4 * (s.wire.take n).length + cuts.length + sizes.length < fuel) :
    ∃ out fin, readToEnd VisionReader.pollStep fuel
        (VisionReader.new (Source.mk (s.wire.take n) cuts) s.uuid) sizes = some (out, fin) ∧
      ((∃ e, fin = .error e ∧ e.kind = .unexpectedEof) ↔
        s.place n = .uuid ∨ s.place n = .content ∨ s.place n = .padding) ∧
      (fin = .eof ↔ s.place n = .boundary ∨ s.place n = .raw ∨ s.place n = .header) := by
  have hread := VisionReader.readToEnd_new s.uuid (s.wire.take n) cuts sizes hf
  have hend := decodeWire_take s n
  generalize decodeWire s.uuid.val (s.wire.take n) = r at hread hend
  obtain ⟨out, fin⟩ := r
  obtain rfl : fin = (s.place n).ending := hend
  refine ⟨out, _, hread, ?_⟩
  cases s.place n <;> simp [Place.ending, prefixTruncated, contentTruncated, paddingTruncated]

theorem truncation_reported_iff_sample :
    ∃ out fin, readToEnd VisionReader.pollStep 1000
        (VisionReader.new (Source.mk (sampleStream.wire.take 22) [3, 0]) sampleStream.uuid) [] =
          some (out, fin) ∧ ∃ e, fin = .error e ∧ e.kind = .unexpectedEof := by
  obtain ⟨out, fin, hread, herror, -⟩ :=
    truncation_reported_iff sampleStream 22 [3, 0] [] 1000 (by decide)
  exact ⟨out, fin, hread, herror.mpr (.inr (.inl (by decide)))⟩

/-- A stream that is cut after the first byte of a frame header: a clean end. -/
theorem header_cut_is_clean :
    sampleStream.place 17 = .header ∧ sampleStream.place 25 = .header ∧
      readToEnd VisionReader.pollStep 100
        (VisionReader.new (Source.mk (sampleStream.wire.take 17) []) sampleStream.uuid) [] =
          some ([], .eof) ∧
      readToEnd VisionReader.pollStep 100
        (VisionReader.new (Source.mk (sampleStream.wire.take 25) []) sampleStream.uuid) [] =
          some ([1, 2, 3], .eof) := by
  decide +kernel

end Xhttp.Vision
