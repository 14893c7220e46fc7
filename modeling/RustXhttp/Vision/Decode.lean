import RustXhttp.Vision.Codec
import Mathlib.Data.List.GetD

/-!
# What a Vision reader yields

`decodeWire uuid w` is what a caller reads from a `VisionReader` when the inner stream delivers
exactly `w`: a function of the bytes alone. `VisionReader.spec` proves it for `poll_read`: neither
the fragmentation of the inner stream nor the caller's buffers matter (`readToEnd_new`).
-/

namespace Xhttp.Vision

open List

/-- What is read after the UUID, from the start of a frame. -/
def decodeFrames (w : Bytes) : Bytes × ReadEnd :=
  if w.length < 5 then ([], .eof)
  else if ¬ knownCommand (w.getD 0 0) then ([], .error unknownCommand)
  else
    let content := ofBe16 (w.getD 1 0) (w.getD 2 0)
    let padding := ofBe16 (w.getD 3 0) (w.getD 4 0)
    let body := w.drop 5
    if body.length < content then (body, .error contentTruncated)
    else if (body.drop content).length < padding then (body.take content, .error paddingTruncated)
    else if w.getD 0 0 = commandContinue then
      prepend (body.take content) (decodeFrames ((body.drop content).drop padding))
    else (body.take content ++ (body.drop content).drop padding, .eof)
termination_by w.length
decreasing_by simp only [length_drop]; omega

/-- What is read from a frame with `remaining` bytes of padding left. -/
def decodePadding (remaining : Nat) (command : UInt8) (w : Bytes) : Bytes × ReadEnd :=
  if w.length < remaining then ([], .error paddingTruncated)
  else if command = commandContinue then decodeFrames (w.drop remaining)
  else (w.drop remaining, .eof)

/-- What is read from a frame with `remaining` bytes of content left. -/
def decodeContent (remaining padding : Nat) (command : UInt8) (w : Bytes) : Bytes × ReadEnd :=
  if w.length < remaining then (w, .error contentTruncated)
  else prepend (w.take remaining) (decodePadding padding command (w.drop remaining))

/-- What a caller reads from the whole stream `w`. -/
def decodeWire (uuid w : Bytes) : Bytes × ReadEnd :=
  if w.length < 16 then ([], .error prefixTruncated)
  else if w.take 16 ≠ uuid then ([], .error prefixMismatch)
  else decodeFrames (w.drop 16)

/-! ## Reading piece by piece -/

section

variable {got w : Bytes} {command : UInt8} {remaining : Nat}

theorem decodeFrames_short (h : w.length < 5) : decodeFrames w = ([], .eof) := by
  rw [decodeFrames, if_pos h]

theorem decodeFrames_unknown (h : 5 ≤ w.length) (hk : ¬ knownCommand (w.getD 0 0)) :
    decodeFrames w = ([], .error unknownCommand) := by
  rw [decodeFrames, if_neg (by omega), if_pos hk]

theorem decodeFrames_header (h : 5 ≤ w.length) (hk : knownCommand (w.getD 0 0)) :
    decodeFrames w = decodeContent (ofBe16 (w.getD 1 0) (w.getD 2 0))
      (ofBe16 (w.getD 3 0) (w.getD 4 0)) (w.getD 0 0) (w.drop 5) := by
  rw [decodeFrames, if_neg (by omega), if_neg (fun h => h hk)]
  simp only [decodeContent, decodePadding]
  split
  · rfl
  · split
    · simp [prepend]
    · split <;> simp [prepend]

theorem decodeContent_zero (padding : Nat) (command : UInt8) (w : Bytes) :
    decodeContent 0 padding command w = decodePadding padding command w := by
  simp [decodeContent]

theorem decodeContent_append {padding : Nat} (h : got.length ≤ remaining) :
    decodeContent remaining padding command (got ++ w) =
      prepend got (decodeContent (remaining - got.length) padding command w) := by
  simp only [decodeContent, length_append]
  by_cases hw : w.length < remaining - got.length
  · rw [if_pos hw, if_pos (by omega)]; rfl
  · rw [if_neg hw, if_neg (by omega), prepend_prepend, take_append, drop_append,
      take_of_length_le h, drop_of_length_le h, nil_append]

theorem decodePadding_append (h : got.length ≤ remaining) :
    decodePadding remaining command (got ++ w) =
      decodePadding (remaining - got.length) command w := by
  simp only [decodePadding, length_append]
  by_cases hw : w.length < remaining - got.length
  · rw [if_pos hw, if_pos (by omega)]
  · rw [if_neg hw, if_neg (by omega), drop_append, drop_of_length_le h, nil_append]

end

/-! ## The reader -/

/-- What is read from the bytes `w` in the state `st`. -/
def decodeState (st : ReadState) (w : Bytes) : Bytes × ReadEnd :=
  match st with
  | .header bytes => decodeFrames (bytes ++ w)
  | .content remaining padding command => decodeContent remaining padding command w
  | .padding remaining command => decodePadding remaining command w

/-- The place of a state among those that a frame passes without a byte read. -/
def ReadState.rank : ReadState → Nat
  | .content _ _ _ => 2
  | .padding _ _ => 1
  | .header _ => 0

namespace VisionReader

/-- The states that `poll_read` reaches without an error. -/
def Ok (r : VisionReader Source) : Prop :=
  (r.prefixBytes.length < 16 → r.output = [] ∧ r.raw = false ∧ r.state = .header []) ∧
    ∀ bytes, r.state = .header bytes → bytes.length < 5

/-- What a caller still reads. -/
def rest (r : VisionReader Source) : Bytes × ReadEnd :=
  if r.raw then (r.output ++ r.inner.bytes, .eof)
  else if r.prefixBytes.length < 16 then decodeWire r.uuid.val (r.prefixBytes ++ r.inner.bytes)
  else prepend r.output (decodeState r.state r.inner.bytes)

/-- Bytes that are still to be read count four times, so that reading one pays for the output it
becomes and for the states up to the next read. -/
def measure (r : VisionReader Source) : Nat :=
  4 * r.inner.bytes.length + r.inner.cuts.length + r.output.length +
    if r.raw then 0 else r.state.rank

/-! A reader past the UUID and before the switch to raw is `⟨inner, uuid, pre, false, st, out⟩`. -/

section Framed

variable {inner : Source} {uuid : ByteArr 16} {pre out : Bytes} {st : ReadState}

theorem ok_framed (hpre : 16 ≤ pre.length) (hst : ∀ bytes, st = .header bytes → bytes.length < 5) :
    Ok ⟨inner, uuid, pre, false, st, out⟩ :=
  ⟨fun h => absurd h (Nat.not_lt.mpr hpre), hst⟩

theorem rest_framed (hpre : 16 ≤ pre.length) :
    rest ⟨inner, uuid, pre, false, st, out⟩ = prepend out (decodeState st inner.bytes) := by
  rw [rest, if_neg Bool.false_ne_true, if_neg (Nat.not_lt.mpr hpre)]

theorem measure_framed : measure ⟨inner, uuid, pre, false, st, out⟩ =
    4 * inner.bytes.length + inner.cuts.length + out.length + st.rank := rfl

variable {inner' : Source} {n remaining : Nat} {command : UInt8}

/-- A pending inner poll leaves everything but a cut as it is. -/
theorem follows_pending (hpre : 16 ≤ pre.length)
    (hst : ∀ bytes, st = .header bytes → bytes.length < 5) (hb : inner'.bytes = inner.bytes)
    (hc : inner'.cuts.length < inner.cuts.length) :
    Follows Ok rest measure ⟨inner, uuid, pre, false, st, out⟩ n
      (.done ⟨inner', uuid, pre, false, st, out⟩ .pending) := by
  refine ⟨ok_framed hpre hst, ?_, ?_⟩
  · rw [rest_framed hpre, rest_framed hpre, hb]
  · rw [measure_framed, measure_framed, hb]; omega

/-- An iteration that takes at least one byte from the inner reader and goes round. -/
theorem follows_next {st' : ReadState} {got : Bytes} (hpre : 16 ≤ pre.length)
    (hst : ∀ bytes, st' = .header bytes → bytes.length < 5)
    (hb : inner.bytes = got ++ inner'.bytes) (hc : inner'.cuts.length ≤ inner.cuts.length)
    (hgot : got ≠ []) (hout : out.length ≤ got.length)
    (hdec : decodeState st inner.bytes = prepend out (decodeState st' inner'.bytes)) :
    Follows Ok rest measure ⟨inner, uuid, pre, false, st, []⟩ n
      (.next ⟨inner', uuid, pre, false, st', out⟩) := by
  refine ⟨ok_framed hpre hst, ?_, ?_⟩
  · rw [rest_framed hpre, rest_framed hpre, hdec, prepend_nil]
  · have hg := length_pos_iff.mpr hgot
    have hr : st'.rank ≤ 2 := by cases st' <;> simp [ReadState.rank]
    rw [measure_framed, measure_framed, hb, length_append]
    omega

theorem follows_header {bytes : Bytes} (n : Nat) (hpre : 16 ≤ pre.length) (hlt : bytes.length < 5) :
    Follows Ok rest measure ⟨inner, uuid, pre, false, .header bytes, []⟩ n
      (pollHeader ⟨inner, uuid, pre, false, .header bytes, []⟩ bytes) := by
  have hst : ∀ bs, ReadState.header bytes = .header bs → bs.length < 5 := by
    rintro bs ⟨⟩; exact hlt
  rcases Source.pollRead_room inner (Nat.sub_ne_zero_of_lt hlt) with
    ⟨inner', hp, hb, hc⟩ | ⟨inner', hp, hend, hend', hc⟩ | ⟨inner', b, got, hp, hb, hl, hc⟩
  · simp only [pollHeader, hp]
    exact follows_pending hpre hst hb hc
  · simp only [pollHeader, hp]
    have heof : decodeFrames (bytes ++ []) = ([], .eof) := by
      rw [append_nil, decodeFrames_short hlt]
    refine ⟨fun _ => ?_, fun _ => ⟨ok_framed hpre hst, ?_, ?_⟩⟩
    · rw [rest_framed hpre, prepend_nil, decodeState, hend, heof]
    · rw [rest_framed hpre, rest_framed hpre, hend, hend']
    · rw [measure_framed, measure_framed, hend, hend']; omega
  · have hsplit : bytes ++ inner.bytes = (bytes ++ b :: got) ++ inner'.bytes := by
      rw [hb, append_assoc]
    simp only [pollHeader, hp]
    split
    · rename_i hshort
      refine follows_next hpre ?_ hb hc (cons_ne_nil b got) (Nat.zero_le _) ?_
      · rintro bs ⟨⟩; exact hshort
      · simp only [decodeState, prepend_nil, hsplit]
    · rename_i hfull
      have h5 : (bytes ++ b :: got).length = 5 := by
        rw [length_append] at hfull ⊢
        omega
      have hw : 5 ≤ ((bytes ++ b :: got) ++ inner'.bytes).length := by
        rw [length_append]; omega
      have hget : ∀ i, i < 5 → ((bytes ++ b :: got) ++ inner'.bytes).getD i 0 =
          (bytes ++ b :: got).getD i 0 := fun i hi =>
        getD_append _ _ _ _ (by omega)
      split
      · rename_i hk
        show rest _ = _
        rw [rest_framed hpre, prepend_nil, decodeState, hsplit,
          decodeFrames_unknown hw (by rw [hget 0 (by omega)]; exact hk)]
      · rename_i hk
        refine follows_next hpre (by rintro bs ⟨⟩) hb hc (cons_ne_nil b got)
          (Nat.zero_le _) ?_
        simp only [decodeState, prepend_nil]
        rw [hsplit, decodeFrames_header hw (by rw [hget 0 (by omega)]; simpa using hk),
          hget 0 (by omega), hget 1 (by omega), hget 2 (by omega), hget 3 (by omega),
          hget 4 (by omega), drop_append_of_le_length (by omega),
          drop_of_length_le (by omega), nil_append]

theorem follows_content {padding : Nat} (n : Nat) (hpre : 16 ≤ pre.length) :
    Follows Ok rest measure ⟨inner, uuid, pre, false, .content remaining padding command, []⟩ n
      (pollContent ⟨inner, uuid, pre, false, .content remaining padding command, []⟩ remaining
        padding command) := by
  unfold pollContent
  split
  · rename_i h0
    refine ⟨ok_framed hpre (by rintro bs ⟨⟩), ?_, Nat.lt_succ_self _⟩
    rw [rest_framed hpre, rest_framed hpre, h0]
    simp only [decodeState, decodeContent_zero]
  · rename_i h0
    have hroom : min remaining (32 * 1024) ≠ 0 := by omega
    rcases Source.pollRead_room inner hroom with
      ⟨inner', hp, hb, hc⟩ | ⟨inner', hp, hend, -, -⟩ | ⟨inner', b, got, hp, hb, hl, hc⟩
    · simp only [hp]
      exact follows_pending hpre (by rintro bs ⟨⟩) hb hc
    · simp only [hp]
      show rest _ = _
      rw [rest_framed hpre, hend, decodeState, decodeContent,
        if_pos (by simpa using Nat.pos_of_ne_zero h0)]
      rfl
    · simp only [hp]
      refine follows_next hpre (by rintro bs ⟨⟩) hb hc (cons_ne_nil b got) (Nat.le_refl _) ?_
      simp only [decodeState]
      rw [hb, decodeContent_append (by omega)]

theorem follows_padding (n : Nat) (hpre : 16 ≤ pre.length) :
    Follows Ok rest measure ⟨inner, uuid, pre, false, .padding remaining command, []⟩ n
      (pollPadding ⟨inner, uuid, pre, false, .padding remaining command, []⟩ remaining
        command) := by
  unfold pollPadding
  split
  · rename_i h0
    subst h0
    split
    · rename_i hcont
      refine ⟨ok_framed hpre (by rintro bs ⟨⟩; decide), ?_, Nat.lt_succ_self _⟩
      rw [rest_framed hpre, rest_framed hpre]
      simp [decodeState, decodePadding, hcont]
    · rename_i hcont
      refine ⟨⟨fun h => absurd h (Nat.not_lt.mpr hpre), by rintro bs ⟨⟩⟩, ?_, Nat.lt_succ_self _⟩
      rw [rest_framed hpre]
      simp [rest, decodeState, decodePadding, hcont]
  · rename_i h0
    have hroom : min remaining 8192 ≠ 0 := by omega
    rcases Source.pollRead_room inner hroom with
      ⟨inner', hp, hb, hc⟩ | ⟨inner', hp, hend, -, -⟩ | ⟨inner', b, got, hp, hb, hl, hc⟩
    · simp only [hp]
      exact follows_pending hpre (by rintro bs ⟨⟩) hb hc
    · simp only [hp]
      show rest _ = _
      rw [rest_framed hpre, hend, decodeState, decodePadding,
        if_pos (by simpa using Nat.pos_of_ne_zero h0)]
      rfl
    · simp only [hp]
      refine follows_next hpre (by rintro bs ⟨⟩) hb hc (cons_ne_nil b got) (Nat.zero_le _) ?_
      simp only [decodeState, prepend_nil]
      rw [hb, decodePadding_append (by omega)]

theorem follows_state (n : Nat) (hpre : 16 ≤ pre.length)
    (hst : ∀ bytes, st = .header bytes → bytes.length < 5) :
    Follows Ok rest measure ⟨inner, uuid, pre, false, st, []⟩ n
      (pollState ⟨inner, uuid, pre, false, st, []⟩) := by
  cases st with
  | header bytes => exact follows_header n hpre (hst bytes rfl)
  | content remaining padding command => exact follows_content n hpre
  | padding remaining command => exact follows_padding n hpre

end Framed

section

variable {inner : Source} {uuid : ByteArr 16} {pre : Bytes} {r : VisionReader Source}

/-- The prefix stage, up to the byte that completes the UUID. -/
theorem rest_start (h : pre.length < 16) :
    rest ⟨inner, uuid, pre, false, .header [], []⟩ = decodeWire uuid.val (pre ++ inner.bytes) := by
  rw [rest, if_neg Bool.false_ne_true, if_pos h]

theorem ok_start : Ok ⟨inner, uuid, pre, false, .header [], []⟩ :=
  ⟨fun _ => ⟨rfl, rfl, rfl⟩, by rintro bs ⟨⟩; decide⟩

theorem follows_start (n : Nat) (h : pre.length < 16) :
    Follows Ok rest measure ⟨inner, uuid, pre, false, .header [], []⟩ n
      (pollStep ⟨inner, uuid, pre, false, .header [], []⟩ n) := by
  simp only [pollStep, ne_eq, not_true_eq_false, ↓reduceIte, Bool.false_eq_true, h]
  rcases Source.pollRead_room inner (Nat.sub_ne_zero_of_lt h) with
    ⟨inner', hp, hb, hc⟩ | ⟨inner', hp, hend, -, -⟩ | ⟨inner', b, got, hp, hb, hl, hc⟩
  · simp only [hp]
    refine ⟨ok_start, ?_, ?_⟩
    · rw [rest_start h, rest_start h, hb]
    · rw [measure_framed, measure_framed, hb]; omega
  · simp only [hp]
    show rest _ = _
    rw [rest_start h, hend, append_nil, decodeWire, if_pos h]
  · have hsplit : pre ++ inner.bytes = (pre ++ b :: got) ++ inner'.bytes := by
      rw [hb, append_assoc]
    have hmeas : measure ⟨inner', uuid, pre ++ b :: got, false, .header [], []⟩ <
        measure ⟨inner, uuid, pre, false, .header [], []⟩ := by
      rw [measure_framed, measure_framed, hb, length_append, length_cons]
      omega
    simp only [hp]
    split
    · rename_i hshort
      refine ⟨ok_start, ?_, hmeas⟩
      rw [rest_start h, rest_start hshort, hsplit]
    · rename_i hfull
      have h16 : (pre ++ b :: got).length = 16 := by
        rw [length_append] at hfull ⊢
        omega
      have hlong : ¬ ((pre ++ b :: got) ++ inner'.bytes).length < 16 := by
        rw [length_append]; omega
      have htake : ((pre ++ b :: got) ++ inner'.bytes).take 16 = pre ++ b :: got := by
        rw [← h16, take_left]
      split
      · rename_i hne
        show rest _ = _
        rw [rest_start h, hsplit, decodeWire, if_neg hlong, if_pos (by rw [htake]; exact hne)]
      · rename_i heq
        -- the rest of the iteration runs from the reader whose UUID is complete
        refine Follows.of_later ?_ (Nat.le_of_lt hmeas)
          (follows_state n (by omega) (by rintro bs ⟨⟩; decide))
        rw [rest_framed (by omega), rest_start h, hsplit, decodeWire, if_neg hlong,
          if_neg (by rw [htake]; exact heq), ← h16, drop_left]
        rfl

theorem follows_output (n : Nat) (hok : r.Ok) (hout : r.output ≠ []) :
    Follows Ok rest measure r n
      (.done { r with output := r.output.drop n } (.ready (.ok (r.output.take n)))) := by
  have hpre : 16 ≤ r.prefixBytes.length := Nat.not_lt.mp fun h => hout (hok.1 h).1
  have hok' : Ok { r with output := r.output.drop n } :=
    ⟨fun h => absurd h (Nat.not_lt.mpr hpre), hok.2⟩
  have hrest : r.rest = prepend (r.output.take n) (rest { r with output := r.output.drop n }) := by
    simp only [rest]
    split
    · simp only [prepend, ← append_assoc, take_append_drop]
    · rw [if_neg (Nat.not_lt.mpr hpre), if_neg (Nat.not_lt.mpr hpre), prepend_prepend,
        take_append_drop]
  cases n with
  | zero => exact ⟨fun h => absurd rfl h, fun _ => ⟨hok', hrest.symm, Nat.le_refl _⟩⟩
  | succ n =>
    cases ho : r.output with
    | nil => exact absurd ho hout
    | cons b out =>
      rw [ho] at hok' hrest
      refine ⟨hok', hrest, ?_⟩
      simp only [measure, ho, drop_succ_cons, length_drop, length_cons]
      omega

theorem follows_raw (n : Nat) (hok : r.Ok) (hout : r.output = []) (hraw : r.raw = true) :
    Follows Ok rest measure r n (r.pollStep n) := by
  obtain ⟨inner, uuid, pre, raw, st, out⟩ := r
  cases hraw
  cases hout
  have hpre : ¬ pre.length < 16 := fun h => by cases (hok.1 h).2.1
  have hok' : ∀ inner', Ok ⟨inner', uuid, pre, true, st, []⟩ := fun _ =>
    ⟨fun h => absurd h hpre, hok.2⟩
  simp only [pollStep, ne_eq, not_true_eq_false, ↓reduceIte]
  rcases Source.pollRead_cases inner n with
    ⟨inner', hp, hb, hc⟩ | ⟨inner', got, hp, hb, hl, hnil, hc⟩
  · rw [hp]
    refine ⟨hok' _, ?_, ?_⟩
    · simp only [rest, hb]
    · simp only [measure, hb]; omega
  · rw [hp]
    cases got with
    | nil =>
      refine ⟨fun hn => ?_, fun _ => ⟨hok' _, ?_, ?_⟩⟩
      · simp [rest, (hnil rfl).resolve_left hn]
      · simp only [rest, hb, nil_append]
      · simp only [measure, hb, nil_append]; omega
    | cons b got =>
      refine ⟨hok' _, ?_, ?_⟩
      · simp only [rest, hb, prepend, ↓reduceIte, nil_append]
      · simp only [measure, hb, length_append, length_cons]; omega

end

theorem follows_step (r : VisionReader Source) (n : Nat) (hok : r.Ok) :
    Follows Ok rest measure r n (r.pollStep n) := by
  by_cases hout : r.output = []
  · cases hraw : r.raw with
    | true => exact follows_raw n hok hout hraw
    | false =>
      obtain ⟨inner, uuid, pre, raw, st, out⟩ := r
      cases hout
      cases hraw
      by_cases hpre : pre.length < 16
      · obtain ⟨-, -, rfl⟩ := hok.1 hpre
        exact follows_start n hpre
      · have hstep : pollStep ⟨inner, uuid, pre, false, st, []⟩ n =
            pollState ⟨inner, uuid, pre, false, st, []⟩ := by
          simp only [pollStep, ne_eq, not_true_eq_false, ↓reduceIte, Bool.false_eq_true, hpre]
        rw [hstep]
        exact follows_state n (Nat.not_lt.mp hpre) hok.2
  · rw [pollStep, if_pos hout]
    exact follows_output n hok hout

/-- `poll_read` over a fragmented stream follows `rest`. -/
def spec : ReadSpec (pollStep (R := Source)) := ⟨Ok, rest, measure, follows_step⟩

/-- **A Vision reader yields `decodeWire` of its bytes**, for every fragmentation of the inner
stream and every sequence of buffers. -/
theorem readToEnd_new (uuid : ByteArr 16) (wire : Bytes) (cuts sizes : List Nat) {fuel : Nat}
    (hf : 4 * wire.length + cuts.length + sizes.length < fuel) :
    readToEnd pollStep fuel (new (Source.mk wire cuts) uuid) sizes =
      some (decodeWire uuid.val wire) := by
  have hok : spec.ok (new (Source.mk wire cuts) uuid) := ok_start
  have hm : spec.measure (new (Source.mk wire cuts) uuid) = 4 * wire.length + cuts.length := rfl
  rw [spec.readToEnd_eq hok (by omega)]
  rfl

end VisionReader

end Xhttp.Vision
