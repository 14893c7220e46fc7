import RustXhttp.Vision.Grammar
import Mathlib.Tactic.ByContra

/-!
# When Vision framing is transparent

A sequence of `encode` calls on one writer, read back through a `VisionReader` with the same UUID,
gives the data back exactly when the writer switches to raw at the end of a slice
(`reads_back_iff`). `encode` cuts a slice into chunks and goes on framing the chunks that follow
the one it marked `COMMAND_END`, but the reader is raw from there on and passes their headers and
padding through.

* `EndsPadding seen chunk`: `chunk`, after the chunks `seen`, is the one marked `COMMAND_END`: the
  eighth chunk, or application data once a chunk that looks like TLS was seen.
* `SwitchAligned seen slices`: the first such chunk is the last one of its slice, or there is none.
-/

namespace Xhttp.Vision

open List

/-- `chunk`, after the chunks `seen`, ends the padding. -/
def EndsPadding (seen : List Bytes) (chunk : Bytes) : Bool :=
  7 ≤ seen.length || ((seen ++ [chunk]).any looksTls && applicationData chunk)

/-- The chunks that follow the first one that ends the padding. -/
def afterEnd (seen : List Bytes) : List Bytes → Option (List Bytes)
  | [] => none
  | c :: cs => if EndsPadding seen c then some cs else afterEnd (seen ++ [c]) cs

/-- The first chunk that ends the padding, if any, is the last chunk of its slice. -/
def SwitchAligned (seen : List Bytes) : List Bytes → Prop
  | [] => True
  | data :: rest =>
    match afterEnd seen (chunks maxFrameContent data) with
    | none => SwitchAligned (seen ++ chunks maxFrameContent data) rest
    | some after => after = []

/-! ## Frames -/

section

variable {content : Bytes} {command : UInt8} {w : VisionWriter} {cs seen : List Bytes}

/-- The content, and then what follows the padding. -/
theorem decodeFrames_frame {padding : Nat} (w : Bytes) (hk : knownCommand command)
    (hc : content.length < 65536) (hp : padding < 65536) :
    decodeFrames (frameBytes content command padding ++ w) =
      prepend content (if command = commandContinue then decodeFrames w else (w, .eof)) := by
  let f : Frame := ⟨content, List.replicate padding 0, hc, by simpa using hp⟩
  have hbytes : frameBytes content command padding = f.bytes command := by
    simp [frameBytes, Frame.bytes, f]
  rw [hbytes]
  exact f.decodeFrames_bytes command hk w

theorem paddingLen_lt (draw contentLen : Nat) (long : Bool) :
    paddingLen draw contentLen long < 65536 := by
  have h : paddingLen draw contentLen long ≤ maxFrameContent - contentLen := Nat.min_le_right _ _
  have hmax : maxFrameContent = 8171 := rfl
  omega

theorem encodeFrame_ok (draw : Nat) (uuid : Option (ByteArr 16)) (long : Bool)
    (hk : knownCommand command) (hc : content.length ≤ maxFrameContent) :
    encodeFrame draw content command uuid long =
      .ok (uuid.elim [] (·.val) ++
        frameBytes content command (paddingLen draw content.length long)) := by
  have hmax : maxFrameContent = 8171 := rfl
  rw [encodeFrame, if_neg (fun h => h hk), if_neg (by omega)]

/-! ## One slice -/

/-- The filter after it has observed the chunks `seen`. -/
def filterAfter (seen : List Bytes) : TlsFilter := ⟨8 - seen.length, seen.any looksTls⟩

theorem observe_filterAfter (seen : List Bytes) (c : Bytes) :
    (filterAfter seen).observe c = filterAfter (seen ++ [c]) := by
  simp [filterAfter, TlsFilter.observe]
  omega

theorem ends_filterAfter (seen : List Bytes) (c : Bytes) :
    (filterAfter (seen ++ [c])).ends c = EndsPadding seen c := by
  simp only [filterAfter, TlsFilter.ends, EndsPadding]
  have hleft : (8 - (seen ++ [c]).length == 0) = decide (7 ≤ seen.length) := by
    rw [Bool.eq_iff_iff, beq_iff_eq, decide_eq_true_iff, length_append, length_singleton]
    omega
  rw [hleft, Bool.or_comm]

def commandFor (seen : List Bytes) (c : Bytes) : UInt8 :=
  if EndsPadding seen c then commandEnd else commandContinue

theorem known_commandFor (seen : List Bytes) (c : Bytes) : knownCommand (commandFor seen c) := by
  unfold commandFor
  split <;> decide

/-- The frames of the chunks that follow `seen`, without the UUID. -/
def framesOf (seen : List Bytes) (draw : Nat → Nat) : List Bytes → Bytes
  | [] => []
  | c :: cs =>
    frameBytes c (commandFor seen c) (paddingLen (draw 0) c.length ((seen ++ [c]).any looksTls)) ++
      framesOf (seen ++ [c]) (fun i => draw (i + 1)) cs

/-- The UUID in front of the first frame. -/
def uuidBytes (uuid : Option (ByteArr 16)) (cs : List Bytes) : Bytes :=
  if cs = [] then [] else uuid.elim [] (·.val)

/-- The frame of the chunk `c` after the chunks `seen`. -/
def frameFor (seen : List Bytes) (draw : Nat) (uuid : Option (ByteArr 16)) (c : Bytes) : Bytes :=
  uuid.elim [] (·.val) ++
    frameBytes c (commandFor seen c) (paddingLen draw c.length ((seen ++ [c]).any looksTls))

/-- One chunk of the loop of `encode`. -/
theorem encodeChunks_cons {frames : List Bytes} {c : Bytes} {w' : VisionWriter} {draw : Nat → Nat}
    (hw : w.filter = filterAfter seen) (hc : c.length ≤ maxFrameContent)
    (hrest : VisionWriter.encodeChunks
      ⟨none, filterAfter (seen ++ [c]), w.padding && !EndsPadding seen c⟩
      (fun i => draw (i + 1)) cs = (.ok frames, w')) :
    w.encodeChunks draw (c :: cs) = (.ok (frameFor seen (draw 0) w.uuid c :: frames), w') := by
  have hobs : w.filter.observe c = filterAfter (seen ++ [c]) := by rw [hw, observe_filterAfter]
  have hframe : encodeFrame (draw 0) c (if EndsPadding seen c then commandEnd else commandContinue)
      w.uuid (filterAfter (seen ++ [c])).isTls = .ok (frameFor seen (draw 0) w.uuid c) :=
    encodeFrame_ok _ _ _ (known_commandFor seen c) hc
  rw [VisionWriter.encodeChunks]
  simp only [hobs, ends_filterAfter, hframe, hrest]

theorem encodeChunks_ok (draw : Nat → Nat) (hw : w.filter = filterAfter seen)
    (hcs : ∀ c ∈ cs, c.length ≤ maxFrameContent) :
    ∃ frames w', w.encodeChunks draw cs = (.ok frames, w') ∧
      frames.flatten = uuidBytes w.uuid cs ++ framesOf seen draw cs ∧
      w'.filter = filterAfter (seen ++ cs) ∧
      w'.uuid = (if cs = [] then w.uuid else none) ∧
      w'.padding = (w.padding && (afterEnd seen cs).isNone) := by
  induction cs generalizing seen w draw with
  | nil => exact ⟨[], w, rfl, rfl, by rw [hw, append_nil], rfl, by simp [afterEnd]⟩
  | cons c cs ih =>
    obtain ⟨frames, w', henc, hfl, hfil, hu, hp⟩ :=
      ih (w := ⟨none, filterAfter (seen ++ [c]), w.padding && !EndsPadding seen c⟩)
        (fun i => draw (i + 1)) rfl fun d hd => hcs d (mem_cons_of_mem c hd)
    refine ⟨_, w', encodeChunks_cons hw (hcs c mem_cons_self) henc, ?_, ?_, ?_, ?_⟩
    · have hnone : uuidBytes none cs = [] := by unfold uuidBytes; split <;> rfl
      rw [flatten_cons, hfl, hnone, nil_append]
      simp only [frameFor, uuidBytes, reduceCtorEq, ↓reduceIte, framesOf, append_assoc]
    · rw [hfil, append_assoc, singleton_append]
    · rw [hu, if_neg (cons_ne_nil c cs)]
      split <;> rfl
    · rw [hp, afterEnd]
      cases EndsPadding seen c <;> simp

/-- Frames of chunks that do not end the padding decode to their contents. -/
theorem decodeFrames_framesOf (draw : Nat → Nat) (tail : Bytes)
    (hcs : ∀ c ∈ cs, c.length ≤ maxFrameContent) (h : afterEnd seen cs = none) :
    decodeFrames (framesOf seen draw cs ++ tail) = prepend cs.flatten (decodeFrames tail) := by
  induction cs generalizing seen draw with
  | nil => rfl
  | cons c cs ih =>
    have hmax : maxFrameContent = 8171 := rfl
    have hlen := hcs c mem_cons_self
    have hno : ¬ EndsPadding seen c := fun he => by simp [afterEnd, he] at h
    have hcont : commandFor seen c = commandContinue := if_neg hno
    rw [framesOf, append_assoc, decodeFrames_frame _ (known_commandFor seen c) (by omega)
      (paddingLen_lt _ _ _), if_pos hcont,
      ih _ (fun d hd => hcs d (mem_cons_of_mem c hd)) (by simpa [afterEnd, hno] using h),
      prepend_prepend, flatten_cons]

/-- A frame is longer than its content. -/
theorem length_framesOf (seen : List Bytes) (draw : Nat → Nat) (cs : List Bytes) :
    cs.flatten.length + cs.length ≤ (framesOf seen draw cs).length := by
  induction cs generalizing seen draw with
  | nil => exact Nat.le_refl _
  | cons c cs ih =>
    have := ih (seen ++ [c]) (fun i => draw (i + 1))
    simp only [framesOf, frameBytes, be16, flatten_cons, length_append, length_cons,
      length_replicate, length_nil]
    omega

/-- After the chunk that ends the padding the reader is raw: it passes the frames of the chunks
`after` through, `junk`, which are longer than their contents. -/
theorem decodeFrames_framesOf_end {after : List Bytes} (draw : Nat → Nat)
    (hcs : ∀ c ∈ cs, c.length ≤ maxFrameContent) (h : afterEnd seen cs = some after) :
    ∃ head junk, cs = head ++ after ∧
      (∀ tail, decodeFrames (framesOf seen draw cs ++ tail) =
        (head.flatten ++ (junk ++ tail), .eof)) ∧
      (after = [] → junk = []) ∧ after.flatten.length + after.length ≤ junk.length := by
  induction cs generalizing seen draw with
  | nil => cases h
  | cons c cs ih =>
    have hmax : maxFrameContent = 8171 := rfl
    have hlen := hcs c mem_cons_self
    by_cases he : EndsPadding seen c
    · have hend : commandFor seen c = commandEnd := if_pos he
      obtain rfl : cs = after := by simpa [afterEnd, he] using h
      refine ⟨[c], framesOf (seen ++ [c]) (fun i => draw (i + 1)) cs, rfl, fun tail => ?_, ?_,
        length_framesOf _ _ _⟩
      · rw [framesOf, append_assoc, decodeFrames_frame _ (known_commandFor seen c) (by omega)
          (paddingLen_lt _ _ _), hend, if_neg (by decide)]
        simp [prepend]
      · rintro rfl; rfl
    · have hcont : commandFor seen c = commandContinue := if_neg he
      obtain ⟨head, junk, rfl, hdec, hnil, hjunk⟩ :=
        ih (fun i => draw (i + 1)) (fun d hd => hcs d (mem_cons_of_mem c hd))
          (by simpa [afterEnd, he] using h)
      refine ⟨c :: head, junk, rfl, fun tail => ?_, hnil, hjunk⟩
      rw [framesOf, append_assoc, decodeFrames_frame _ (known_commandFor seen c) (by omega)
        (paddingLen_lt _ _ _), if_pos hcont, hdec]
      simp [prepend]

/-! ## All slices -/

theorem encodeAll_raw (h : w.padding = false) (draws : Nat → Nat → Nat) (slices : List Bytes) :
    w.encodeAll draws slices = .ok slices := by
  induction slices generalizing draws with
  | nil => rfl
  | cons data rest ih =>
    rw [VisionWriter.encodeAll]
    simp only [VisionWriter.encode, h, Bool.not_false, ↓reduceIte, ih, singleton_append]

theorem chunks_eq_nil_iff {data : Bytes} : chunks maxFrameContent data = [] ↔ data = [] := by
  refine ⟨fun h => ?_, fun h => h ▸ rfl⟩
  rw [← flatten_chunks (n := maxFrameContent) (by decide) data, h]
  rfl

/-- `out`, read back from the frames of `slices`, is their concatenation when the switch to raw is
at the end of a slice, and longer than it otherwise. -/
def ReadsBack (seen slices : List Bytes) (out : Bytes) : Prop :=
  (SwitchAligned seen slices → out = slices.flatten) ∧
    (¬ SwitchAligned seen slices → slices.flatten.length < out.length)

theorem encodeAll_ok (seen : List Bytes) (draws : Nat → Nat → Nat) (slices : List Bytes)
    (hw : w.filter = filterAfter seen) (hp : w.padding = true) :
    ∃ frames body out, w.encodeAll draws slices = .ok frames ∧
      frames.flatten = (if slices.flatten = [] then [] else w.uuid.elim [] (·.val)) ++ body ∧
      (slices.flatten = [] → body = []) ∧
      decodeFrames body = (out, .eof) ∧ ReadsBack seen slices out := by
  induction slices generalizing seen w draws with
  | nil =>
    exact ⟨[], [], [], rfl, rfl, fun _ => rfl, decodeFrames_short (by decide), fun _ => rfl,
      fun h => absurd trivial h⟩
  | cons data rest ih =>
    have hlen : ∀ c ∈ chunks maxFrameContent data, c.length ≤ maxFrameContent := fun c hc =>
      (length_of_mem_chunks (by decide) hc).2
    have hdata := flatten_chunks (n := maxFrameContent) (by decide) data
    obtain ⟨frames, w', henc, hfl, hfil, hu, hpad⟩ := encodeChunks_ok (draws 0) hw hlen
    have hencode : w.encode (draws 0) data = (.ok frames, w') := by
      rw [VisionWriter.encode, hp]
      exact henc
    cases hend : afterEnd seen (chunks maxFrameContent data) with
    | none =>
      rw [hp, hend] at hpad
      obtain ⟨more, body, out, hall, hmore, hnil, hdec, hback⟩ :=
        ih _ (fun i => draws (i + 1)) hfil hpad
      refine ⟨frames ++ more, framesOf seen (draws 0) (chunks maxFrameContent data) ++ body,
        data ++ out, ?_, ?_, ?_, ?_, ?_, ?_⟩
      · rw [VisionWriter.encodeAll]
        simp only [hencode, hall]
      · rw [flatten_append, hfl, hmore, hu, flatten_cons]
        by_cases hd : data = []
        · subst hd
          simp [uuidBytes, framesOf]
        · have hcs : chunks maxFrameContent data ≠ [] := mt chunks_eq_nil_iff.mp hd
          simp [uuidBytes, hcs, hd]
      · intro h
        obtain ⟨rfl, hrest⟩ := append_eq_nil_iff.mp h
        rw [hnil hrest]
        rfl
      · rw [decodeFrames_framesOf _ _ hlen hend, hdec, hdata]
        rfl
      · simp only [SwitchAligned, hend, flatten_cons]
        intro h
        rw [hback.1 h]
      · simp only [SwitchAligned, hend, flatten_cons, length_append]
        intro h
        have := hback.2 h
        omega
    | some after =>
      rw [hend] at hpad
      obtain ⟨head, junk, hcs, hdec, hnil, hjunk⟩ := decodeFrames_framesOf_end (draws 0) hlen hend
      have hne : data ≠ [] := by
        rintro rfl
        cases hend
      have hlong : data.length = head.flatten.length + after.flatten.length := by
        rw [← hdata, hcs, flatten_append, length_append]
      refine ⟨frames ++ rest, framesOf seen (draws 0) (chunks maxFrameContent data) ++ rest.flatten,
        head.flatten ++ (junk ++ rest.flatten), ?_, ?_, ?_, hdec _, ?_, ?_⟩
      · rw [VisionWriter.encodeAll]
        simp only [hencode, encodeAll_raw (by rw [hpad]; simp : w'.padding = false)]
      · have hcs : chunks maxFrameContent data ≠ [] := mt chunks_eq_nil_iff.mp hne
        rw [flatten_append, hfl, flatten_cons]
        simp [uuidBytes, hcs, hne]
      · intro h
        exact absurd (append_eq_nil_iff.mp h).1 hne
      · simp only [SwitchAligned, hend]
        rintro rfl
        rw [hnil rfl, flatten_cons, ← hdata, hcs, append_nil, nil_append]
      · simp only [SwitchAligned, hend, flatten_cons, length_append]
        intro h
        have := length_pos_iff.mpr h
        omega

end

/-! ## Reading back -/

/-- The wire of a writer decodes to `out`; it ends in an error only if nothing was written. -/
theorem decodeWire_encodeAll (uuid : ByteArr 16) (draws : Nat → Nat → Nat) (slices : List Bytes) :
    ∃ frames out fin, (VisionWriter.new uuid).encodeAll draws slices = .ok frames ∧
      decodeWire uuid.val frames.flatten = (out, fin) ∧ ReadsBack [] slices out ∧
      (fin = .eof ↔ slices.flatten ≠ []) := by
  obtain ⟨frames, body, out, henc, hfl, hnil, hdec, hback⟩ :=
    encodeAll_ok [] (w := VisionWriter.new uuid) draws slices rfl rfl
  by_cases hs : slices.flatten = []
  · rw [if_pos hs, hnil hs] at hfl
    rw [hnil hs, decodeFrames_short (by decide)] at hdec
    cases hdec
    exact ⟨frames, [], _, henc, by rw [hfl]; rfl, hback, by simp [hs]⟩
  · rw [if_neg hs] at hfl
    refine ⟨frames, out, .eof, henc, ?_, hback, by simp [hs]⟩
    rw [hfl, show (VisionWriter.new uuid).uuid.elim [] (·.val) = uuid.val from rfl,
      decodeWire_append, hdec]

/-- **Vision framing is transparent exactly when the switch to raw is at the end of a slice.** For
every UUID, sequence of slices, draws, fragmentation of the frames and sequence of buffers: no
`encode` call fails, the reader reaches the end of the stream, and the bytes that it yields are the
concatenation of the slices if and only if `SwitchAligned`. The stream ends with an error instead
of a clean EOF if and only if every slice is empty: the reader misses the UUID. -/
theorem reads_back_iff (uuid : ByteArr 16) (draws : Nat → Nat → Nat) (slices : List Bytes)
    (cuts sizes : List Nat) :
    ∃ frames out fin, (VisionWriter.new uuid).encodeAll draws slices = .ok frames ∧
      (∀ fuel, 4 * frames.flatten.length + cuts.length + sizes.length < fuel →
        readToEnd VisionReader.pollStep fuel
          (VisionReader.new (Source.mk frames.flatten cuts) uuid) sizes = some (out, fin)) ∧
      (out = slices.flatten ↔ SwitchAligned [] slices) ∧
      (fin = .eof ↔ slices.flatten ≠ []) := by
  obtain ⟨frames, out, fin, henc, hdec, hback, hfin⟩ := decodeWire_encodeAll uuid draws slices
  refine ⟨frames, out, fin, henc, fun fuel hf => ?_, ⟨fun h => ?_, hback.1⟩, hfin⟩
  · rw [VisionReader.readToEnd_new _ _ _ _ hf, hdec]
  · by_contra hn
    have := hback.2 hn
    rw [h] at this
    omega

/-- A slice of two chunks whose first chunk is a TLS application data record. -/
def applicationSlice : Bytes := [0x17, 0x03, 0x03] ++ List.replicate 8169 0

theorem not_switchAligned : ¬ SwitchAligned [] [applicationSlice] := by
  have hafter :
      (afterEnd [] (chunks maxFrameContent applicationSlice)).any (!·.isEmpty) = true := by
    decide +kernel
  obtain ⟨after, hend, hne⟩ := (Option.any_eq_true _ _).mp hafter
  rw [SwitchAligned, hend]
  rintro rfl
  cases hne

/-- The reader of one slice that `copy_download` can read yields more than the slice. -/
theorem applicationSlice_not_transparent :
    applicationSlice.length ≤ 32 * 1024 ∧
    ∃ frames out, (VisionWriter.new (zeros 16)).encodeAll (fun _ _ => 0)
        [applicationSlice] = .ok frames ∧
      (∀ fuel, 4 * frames.flatten.length < fuel →
        readToEnd VisionReader.pollStep fuel
          (VisionReader.new (Source.mk frames.flatten []) (zeros 16)) [] =
            some (out, .eof)) ∧
      out ≠ [applicationSlice].flatten := by
  have hlen : applicationSlice.length = 8172 := by decide +kernel
  obtain ⟨frames, out, fin, henc, hdec, hback, hfin⟩ :=
    decodeWire_encodeAll (zeros 16) (fun _ _ => 0) [applicationSlice]
  obtain rfl : fin = .eof :=
    hfin.mpr (by rw [flatten_singleton]; exact cons_ne_nil _ _)
  refine ⟨by omega, frames, out, henc, fun fuel hf => ?_, ?_⟩
  · rw [VisionReader.readToEnd_new _ _ _ _ (by simpa using hf), hdec]
  · intro h
    have := hback.2 not_switchAligned
    rw [h] at this
    omega

end Xhttp.Vision
