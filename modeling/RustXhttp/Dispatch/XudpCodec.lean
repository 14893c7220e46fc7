import RustXhttp.Vless.Address

/-!
# The codec of XUDP frames (`src/xudp.rs`)

A frame is a length, as many bytes of metadata, and, if the data option is on, a payload with its
length. Which parts the metadata have depends on the status, on the option, on how long they are,
and on the byte at offset 4.

* `readFrame_noPanic`: no index or slice of `read_frame` is out of range.
* `readFrame_encode`, `readFrame_ok`: what is encoded is read, and what is read can be encoded.
* `decoding_stable`: a frame that was read is encoded to bytes that are read as the same frame.
* `encode_faithful_iff`: a frame that `encode_frame` accepts is read back, exactly if its target
  is no domain that is empty or longer than 255 bytes.
* `long_domain_misread`: the length of a domain of 257 bytes is written as 1.
-/

namespace Xhttp.Xudp

open AsyncRead Vless List
open Exec (noPanic_bind noPanic_pure returns_bind returns_failIf returns_ofExcept returns_orPanic
  returns_pure)

def networkUdp : UInt8 := 2
def maxMetadataLen : Nat := 512

/-! ## The codec -/

/-- The target and the global id of the metadata. -/
def readTarget (metadata : Bytes) (status option : UInt8) :
    Exec FrameError (Option Target × Option (ByteArr 8)) := do
  if status = statusNew ∨ (status = statusKeep ∧ metadata[4]? = some networkUdp) then
    failIf (metadata[4]? ≠ some networkUdp) (.network (metadata[4]?.getD 0))
    let rest ← Exec.orPanic (slice? metadata 5 metadata.length)
    let (port, address, consumed) ← (parsePortThenAddress rest).mapError .address
    let tail ← Exec.orPanic (slice? metadata (5 + consumed) metadata.length)
    if status = statusNew ∧ option &&& optionData ≠ 0 ∧ tail.length ≥ 8 then
      let id ← Exec.orPanic ((slice? tail 0 8).bind (toArr? 8))
      return (some ⟨address, port⟩, some id)
    else return (some ⟨address, port⟩, none)
  else return (none, none)

def readPayload (option : UInt8) (w : Bytes) : Except FrameError (Bytes × Bytes) :=
  if option &&& optionData ≠ 0 then do
    let (payloadLen, w) ← readU16 .io w
    readExact .io payloadLen w
  else .ok ([], w)

def readFrame (w : Bytes) : Exec FrameError (Frame × Bytes) := do
  let (metadataLen, w) ← Exec.ofExcept (readU16 .io w)
  failIf (¬ (4 ≤ metadataLen ∧ metadataLen ≤ maxMetadataLen)) (.metadataLength metadataLen)
  let (metadata, w) ← Exec.ofExcept (readExact .io metadataLen w)
  let a ← Exec.index metadata 0
  let b ← Exec.index metadata 1
  let status ← Exec.index metadata 2
  let option ← Exec.index metadata 3
  failIf (status ∉ [statusNew, statusKeep, statusEnd, statusKeepAlive]) (.status status)
  let (target, globalId) ← readTarget metadata status option
  let (payload, w) ← Exec.ofExcept (readPayload option w)
  return (⟨word16 a b, status, option, target, globalId, payload⟩, w)

/-- The bytes of a target, with the global id of a NEW frame. -/
def targetBytes (f : Frame) : Bytes :=
  match f.target with
  | none => []
  | some t =>
    networkUdp :: writePortThenAddress t.port t.address ++
      if f.status = statusNew then (f.globalId.map Subtype.val).getD [] else []

def metadataOf (f : Frame) : Bytes :=
  be16 f.sessionId.toNat ++ f.status :: f.option :: targetBytes f

/-- The payload with its length, if the data option is on. -/
def payloadBytes (f : Frame) : Bytes :=
  if f.option &&& optionData ≠ 0 then be16 f.payload.length ++ f.payload else []

def encodeFrame (f : Frame) : Except FrameError Bytes :=
  let metadata := metadataOf f
  if metadata.length > maxMetadataLen then .error (.metadataLength metadata.length)
  else if f.payload.length > 65535 then .error (.payloadLength f.payload.length)
  else .ok (be16 metadata.length ++ metadata ++ payloadBytes f)

/-! ## Indices and slices -/

theorem readTarget_noPanic (metadata : Bytes) (status option : UInt8) :
    (readTarget metadata status option).NoPanic := by
  unfold readTarget
  split
  · refine noPanic_bind Exec.noPanic_failIf fun _ hnet => ?_
    have hlen : 5 ≤ metadata.length := by
      have hnet := Classical.not_not.mp (returns_failIf.mp hnet)
      exact (List.getElem?_eq_some_iff.mp hnet).1
    have hrest := slice?_to_end hlen
    refine noPanic_bind (Exec.noPanic_orPanic hrest) fun rest hr => ?_
    cases hrest.symm.trans (returns_orPanic.mp hr)
    refine noPanic_bind (Exec.noPanic_mapError (parsePortThenAddress_noPanic _)) ?_
    rintro ⟨port, address, consumed⟩ hp
    have hconsumed := (parsePortThenAddress_ok (Exec.returns_mapError.mp hp)).2
    rw [length_drop] at hconsumed
    refine noPanic_bind (Exec.noPanic_orPanic (slice?_to_end (by omega))) fun tail _ => ?_
    split
    case isTrue hid =>
      have h8 : (tail.take 8).length = 8 := length_take_of_le hid.2.2
      have hslice : slice? tail 0 (0 + 8) = some ((tail.drop 0).take 8) :=
        slice?_add (by have := hid.2.2; omega)
      refine noPanic_bind (Exec.noPanic_orPanic (a := ⟨tail.take 8, h8⟩) ?_)
        fun _ _ => noPanic_pure _
      rw [Nat.zero_add] at hslice
      rw [hslice]
      exact toArr?_eq h8
    case isFalse => exact noPanic_pure _
  · exact noPanic_pure _

theorem readFrame_noPanic (w : Bytes) : (readFrame w).NoPanic := by
  refine noPanic_bind (Exec.noPanic_ofExcept _) fun ⟨metadataLen, w⟩ _ => ?_
  refine noPanic_bind Exec.noPanic_failIf fun _ hlen => ?_
  have hlen := Classical.not_not.mp (returns_failIf.mp hlen)
  refine noPanic_bind (Exec.noPanic_ofExcept _) fun ⟨metadata, w⟩ hmeta => ?_
  obtain ⟨_, hmeta⟩ := readExact_ok (returns_ofExcept.mp hmeta)
  have hindex : ∀ i < 4, (Exec.index metadata i : Exec FrameError UInt8).NoPanic := fun i hi =>
    Exec.noPanic_orPanic (getElem?_eq_getElem (show i < metadata.length by omega))
  refine noPanic_bind (hindex 0 (by decide)) fun a _ => ?_
  refine noPanic_bind (hindex 1 (by decide)) fun b _ => ?_
  refine noPanic_bind (hindex 2 (by decide)) fun status _ => ?_
  refine noPanic_bind (hindex 3 (by decide)) fun option _ => ?_
  refine noPanic_bind Exec.noPanic_failIf fun _ _ => ?_
  refine noPanic_bind (readTarget_noPanic metadata status option) fun ⟨target, id⟩ _ => ?_
  exact noPanic_bind (Exec.noPanic_ofExcept _) fun ⟨payload, w⟩ _ => noPanic_pure _

/-! ## What is read -/

/-- The target of the frame is not cut by the writer. -/
def Frame.TargetWritable (f : Frame) : Prop := ∀ t, f.target = some t → Writable t.address

structure TargetRead (status option : UInt8) (target : Option Target)
    (globalId : Option (ByteArr 8)) : Prop where
  new : status = statusNew → target.isSome
  only : target.isSome → status ∈ [statusNew, statusKeep]
  globalId : globalId.isSome → status = statusNew ∧ option &&& optionData ≠ 0
  writable : ∀ t, target = some t → Writable t.address

theorem readTarget_ok {metadata : Bytes} {status option : UInt8} {target : Option Target}
    {globalId : Option (ByteArr 8)}
    (h : (readTarget metadata status option).Returns (target, globalId)) :
    TargetRead status option target globalId := by
  unfold readTarget at h
  split at h
  case isTrue hhas =>
    obtain ⟨_, _, h⟩ := returns_bind.mp h
    obtain ⟨rest, _, h⟩ := returns_bind.mp h
    obtain ⟨⟨port, address, consumed⟩, hp, h⟩ := returns_bind.mp h
    obtain ⟨tail, _, h⟩ := returns_bind.mp h
    have hw := (parsePortThenAddress_ok (Exec.returns_mapError.mp hp)).1
    have hstatus : status ∈ [statusNew, statusKeep] := by
      rcases hhas with h | h
      · simp [h]
      · simp [h.1]
    split at h
    case isTrue hid =>
      obtain ⟨id, _, h⟩ := returns_bind.mp h
      cases returns_pure.mp h
      exact ⟨fun _ => rfl, fun _ => hstatus, fun _ => ⟨hid.1, hid.2.1⟩, by rintro t ⟨⟩; exact hw⟩
    case isFalse =>
      cases returns_pure.mp h
      exact ⟨fun _ => rfl, fun _ => hstatus, by rintro ⟨⟩, by rintro t ⟨⟩; exact hw⟩
  case isFalse hhas =>
    cases returns_pure.mp h
    exact ⟨fun hnew => absurd (.inl hnew) hhas, by rintro ⟨⟩, by rintro ⟨⟩, by rintro t ⟨⟩⟩

theorem readPayload_ok {option : UInt8} {w payload rest : Bytes}
    (h : readPayload option w = .ok (payload, rest)) :
    (option &&& optionData = 0 → payload = []) ∧ payload.length < 65536 := by
  unfold readPayload at h
  split at h
  case isTrue hdata =>
    obtain ⟨⟨len, w'⟩, hlen, h⟩ := except_bind_ok.mp h
    obtain ⟨_, hlt⟩ := readU16_ok hlen
    obtain ⟨_, hpayload⟩ := readExact_ok h
    exact ⟨fun h0 => absurd h0 hdata, by omega⟩
  case isFalse =>
    cases h
    exact ⟨fun _ => rfl, by decide⟩

/-- The frames that are read. -/
theorem readFrame_ok {w rest : Bytes} {f : Frame} (h : (readFrame w).Returns (f, rest)) :
    f.WellFormed ∧ f.TargetWritable := by
  obtain ⟨⟨metadataLen, w⟩, _, h⟩ := returns_bind.mp h
  obtain ⟨_, _, h⟩ := returns_bind.mp h
  obtain ⟨⟨metadata, w⟩, _, h⟩ := returns_bind.mp h
  obtain ⟨a, _, h⟩ := returns_bind.mp h
  obtain ⟨b, _, h⟩ := returns_bind.mp h
  obtain ⟨status, _, h⟩ := returns_bind.mp h
  obtain ⟨option, _, h⟩ := returns_bind.mp h
  obtain ⟨_, hstatus, h⟩ := returns_bind.mp h
  obtain ⟨⟨target, globalId⟩, htarget, h⟩ := returns_bind.mp h
  obtain ⟨⟨payload, w⟩, hpayload, h⟩ := returns_bind.mp h
  cases returns_pure.mp h
  have ht := readTarget_ok htarget
  obtain ⟨hempty, hlen⟩ := readPayload_ok (returns_ofExcept.mp hpayload)
  refine ⟨⟨⟨Classical.not_not.mp (returns_failIf.mp hstatus), ht.new, ht.only, ?_, ?_⟩, hlen⟩,
    ht.writable⟩
  · intro hid
    exact ⟨(ht.globalId hid).1, by simpa [Frame.hasData] using (ht.globalId hid).2⟩
  · intro hdata
    exact hempty (by simpa [Frame.hasData] using hdata)

/-! ## What is encoded -/

section

variable {f : Frame}

theorem encodeFrame_ok {e : Bytes} : encodeFrame f = .ok e ↔
    (metadataOf f).length ≤ maxMetadataLen ∧ f.payload.length ≤ 65535 ∧
      be16 (metadataOf f).length ++ metadataOf f ++ payloadBytes f = e := by
  unfold encodeFrame
  by_cases hmeta : (metadataOf f).length > maxMetadataLen
  · rw [if_pos hmeta]
    exact ⟨nofun, fun h => absurd h.1 (by omega)⟩
  rw [if_neg hmeta]
  by_cases hpayload : f.payload.length > 65535
  · rw [if_pos hpayload]
    exact ⟨nofun, fun h => absurd h.2.1 (by omega)⟩
  rw [if_neg hpayload]
  exact ⟨fun h => ⟨by omega, by omega, Except.ok.inj h⟩, fun h => congrArg _ h.2.2⟩

/-- The target and the global id behind it. -/
theorem readTarget_some (h : f.Sendable) {t : Target} (ht : f.target = some t)
    (hw : Writable t.address) :
    (readTarget (metadataOf f) f.status f.option).Returns (f.target, f.globalId) := by
  have hstatus := h.targetOnly (by rw [ht]; rfl)
  let id := if f.status = statusNew then (f.globalId.map Subtype.val).getD [] else []
  have hmeta : metadataOf f = be16 f.sessionId.toNat ++ f.status :: f.option :: networkUdp ::
      (writePortThenAddress t.port t.address ++ id) := by
    rw [metadataOf, targetBytes, ht]
    rfl
  have hnet : (metadataOf f)[4]? = some networkUdp := by rw [hmeta]; rfl
  have hslice : slice? (metadataOf f) 5 (metadataOf f).length =
      some (writePortThenAddress t.port t.address ++ id) := by
    rw [slice?_to_end (by simp [hmeta]; omega)]
    rw [hmeta]
    rfl
  have htail : slice? (metadataOf f) (5 + (writePortThenAddress t.port t.address).length)
      (metadataOf f).length = some id := by
    rw [slice?_to_end (by simp [hmeta]; omega), ← drop_drop]
    rw [hmeta]
    exact congrArg some (drop_left)
  have hhas : f.status = statusNew ∨ f.status = statusKeep ∧
      (metadataOf f)[4]? = some networkUdp := by
    simpa [hnet] using hstatus
  unfold readTarget
  rw [if_pos hhas]
  refine returns_bind.mpr ⟨(), returns_failIf.mpr (Classical.not_not.mpr hnet), ?_⟩
  refine returns_bind.mpr ⟨_, returns_orPanic.mpr hslice, ?_⟩
  refine returns_bind.mpr
    ⟨_, Exec.returns_mapError.mpr (parsePortThenAddress_write t.port hw id), ?_⟩
  refine returns_bind.mpr ⟨id, returns_orPanic.mpr htail, ?_⟩
  cases hg : f.globalId with
  | none =>
    have hid : id.length = 0 := by simp [id, hg]
    rw [if_neg (by omega), ht]
    exact returns_pure.mpr rfl
  | some g =>
    obtain ⟨hnew, hdata⟩ := h.globalId (by rw [hg]; rfl)
    have hid : id = g.val := by simp [id, hg, hnew]
    have hlen : id.length = 8 := by rw [hid, g.property]
    have harr : (slice? id 0 8).bind (toArr? 8) = some g := by
      have hall := slice?_to_end (Nat.zero_le g.val.length)
      rw [g.property] at hall
      rw [hid, hall]
      exact toArr?_eq g.property
    rw [if_pos ⟨hnew, by simpa [Frame.hasData] using hdata, Nat.le_of_eq hlen.symm⟩, ht]
    exact returns_bind.mpr ⟨g, returns_orPanic.mpr harr, returns_pure.mpr rfl⟩

theorem readTarget_none (h : f.Sendable) (ht : f.target = none) :
    (readTarget (metadataOf f) f.status f.option).Returns (f.target, f.globalId) := by
  have hnew : ¬ f.status = statusNew := by
    intro hs
    have := h.targetNew hs
    rw [ht] at this
    cases this
  have hid : f.globalId = none := by
    cases hg : f.globalId with
    | none => rfl
    | some id => exact absurd (h.globalId (by rw [hg]; rfl)).1 hnew
  have hmeta : (metadataOf f)[4]? = none := by
    rw [metadataOf, targetBytes, ht]
    rfl
  rw [readTarget, hmeta, if_neg (by simp [hnew]), ht, hid]
  exact returns_pure.mpr rfl

theorem readPayload_encode (h : f.Sendable) (hlen : f.payload.length ≤ 65535) (rest : Bytes) :
    readPayload f.option (payloadBytes f ++ rest) = .ok (f.payload, rest) := by
  unfold readPayload payloadBytes
  by_cases hdata : f.option &&& optionData ≠ 0
  · rw [if_pos hdata, if_pos hdata, append_assoc, readU16_append (by omega)]
    exact readExact_append rfl rest
  · rw [if_neg hdata, if_neg hdata, h.payload (by simpa [Frame.hasData] using hdata)]
    rfl

/-- What is encoded is read, whatever is behind it. -/
theorem readFrame_encode (h : f.Sendable) (hw : f.TargetWritable) {e : Bytes}
    (he : encodeFrame f = .ok e) (rest : Bytes) : (readFrame (e ++ rest)).Returns (f, rest) := by
  obtain ⟨hmeta, hpayload, rfl⟩ := encodeFrame_ok.mp he
  have hlen : 4 ≤ (metadataOf f).length ∧ (metadataOf f).length ≤ maxMetadataLen :=
    ⟨by simp [metadataOf]; omega, hmeta⟩
  have hlt : (metadataOf f).length < 65536 := Nat.lt_of_le_of_lt hmeta (by decide)
  have htarget : (readTarget (metadataOf f) f.status f.option).Returns (f.target, f.globalId) := by
    cases ht : f.target with
    | none => exact ht ▸ readTarget_none h ht
    | some t => exact ht ▸ readTarget_some h ht (hw t ht)
  rw [append_assoc, append_assoc]
  refine returns_bind.mpr ⟨_, returns_ofExcept.mpr (readU16_append hlt _), ?_⟩
  refine returns_bind.mpr ⟨(), returns_failIf.mpr (Classical.not_not.mpr hlen), ?_⟩
  refine returns_bind.mpr ⟨_, returns_ofExcept.mpr (readExact_append rfl _), ?_⟩
  refine returns_bind.mpr ⟨_, returns_orPanic.mpr rfl, ?_⟩
  refine returns_bind.mpr ⟨_, returns_orPanic.mpr rfl, ?_⟩
  refine returns_bind.mpr ⟨_, returns_orPanic.mpr rfl, ?_⟩
  refine returns_bind.mpr ⟨_, returns_orPanic.mpr rfl, ?_⟩
  refine returns_bind.mpr ⟨(), returns_failIf.mpr (Classical.not_not.mpr h.status), ?_⟩
  refine returns_bind.mpr ⟨_, htarget, ?_⟩
  refine returns_bind.mpr
    ⟨_, returns_ofExcept.mpr (readPayload_encode h hpayload rest), ?_⟩
  rw [returns_pure, word16_be16]

theorem length_writeAddress {addr : Address} (h : Writable addr) :
    (writeAddress addr).length ≤ 257 := by
  cases addr with
  | ipv4 octets | ipv6 octets => simp [writeAddress, octets.property]
  | domain d utf8 =>
    have := h.2
    simp only [writeAddress, length_cons]
    omega

/-- No target that can be read comes near the bound of the metadata. -/
theorem length_metadataOf (hw : f.TargetWritable) : (metadataOf f).length ≤ maxMetadataLen := by
  have hhead : (metadataOf f).length = 4 + (targetBytes f).length := by
    simp [metadataOf]
    omega
  have hid : ((f.globalId.map Subtype.val).getD []).length ≤ 8 := by
    cases f.globalId with
    | none => exact Nat.zero_le _
    | some g => exact Nat.le_of_eq g.property
  have htarget : (targetBytes f).length ≤ 268 := by
    unfold targetBytes
    cases ht : f.target with
    | none => exact Nat.zero_le _
    | some t =>
      have haddr := length_writeAddress (hw t ht)
      simp only [length_append, length_cons, writePortThenAddress, length_be16]
      split
      · omega
      · simp only [length_nil]
        omega
  rw [hhead, maxMetadataLen]
  omega

end

/-- **Re-encoding.** No input makes `read_frame` index out of range. A frame that it reads is
accepted by `encode_frame`, and its bytes are read as the same frame, with the rest unread. -/
theorem decoding_stable (w : Bytes) :
    (readFrame w).NoPanic ∧
    ∀ f r, (readFrame w).Returns (f, r) → ∃ e, encodeFrame f = .ok e ∧
      ∀ r', (readFrame (e ++ r')).Returns (f, r') := by
  refine ⟨readFrame_noPanic w, fun f r h => ?_⟩
  obtain ⟨hwf, hw⟩ := readFrame_ok h
  have he := encodeFrame_ok.mpr ⟨length_metadataOf hw, Nat.le_of_lt_succ hwf.payloadLen, rfl⟩
  exact ⟨_, he, readFrame_encode hwf.toSendable hw he⟩

/-- A KEEP frame with a tail that the reader ignores. -/
def keepTail : Bytes := [0, 7, 0, 9, 2, 0, 1, 0xAA, 0xBB]

def keepFrame : Frame := ⟨9, statusKeep, 0, none, none, []⟩

/-- A NEW frame with a target, a global id and a payload. -/
def newFrame : Frame :=
  ⟨1, statusNew, optionData, some ⟨.ipv4 ⟨[8, 8, 8, 8], rfl⟩, 53⟩, some (zeros 8), [0x42]⟩

def newBytes : Bytes :=
  [0, 20, 0, 1, 1, 1, 2, 0, 53, 1, 8, 8, 8, 8] ++ List.replicate 8 0 ++ [0, 1, 0x42]

theorem decoding_stable_keep :
    (readFrame keepTail).Returns (keepFrame, []) ∧
    (∃ e, encodeFrame keepFrame = .ok e ∧
      ∀ r', (readFrame (e ++ r')).Returns (keepFrame, r')) ∧
    (readFrame (newBytes ++ [7])).Returns (newFrame, [7]) ∧
    ∃ e, encodeFrame newFrame = .ok e ∧
      ∀ r', (readFrame (e ++ r')).Returns (newFrame, r') := by
  have hkeep : (readFrame keepTail).Returns (keepFrame, []) := Exec.returns_of_value? (by decide)
  have hnew : (readFrame (newBytes ++ [7])).Returns (newFrame, [7]) :=
    Exec.returns_of_value? (by decide)
  exact ⟨hkeep, (decoding_stable keepTail).2 keepFrame [] hkeep, hnew,
    (decoding_stable _).2 newFrame [7] hnew⟩

/-- **Encoding.** A frame that `encode_frame` accepts is read back, with everything behind it
unread, exactly if its target is no domain that is empty or longer than 255 bytes. -/
theorem encode_faithful_iff (f : Frame) (e : Bytes) (h : f.Sendable) (he : encodeFrame f = .ok e) :
    (∀ r, (readFrame (e ++ r)).Returns (f, r)) ↔ f.TargetWritable := by
  constructor
  · intro hread
    exact (readFrame_ok (hread [])).2
  · intro hw
    exact readFrame_encode h hw he

/-- The first packet of session 1, to a domain of `n` letters. -/
def toLetters (n : Nat) (utf8 : validUtf8 (List.replicate n 97) = true) : Frame where
  sessionId := 1
  status := statusNew
  option := optionData
  target := some ⟨.domain (List.replicate n 97) utf8, 53⟩
  globalId := none
  payload := [0x42]

theorem toLetters_sendable (n : Nat) (utf8 : validUtf8 (List.replicate n 97) = true) :
    (toLetters n utf8).Sendable where
  status := by simp [toLetters]
  targetNew _ := rfl
  targetOnly _ := by simp [toLetters]
  globalId := nofun
  payload h := absurd h (by simp [Frame.hasData, toLetters, optionData])

theorem encode_faithful_iff_letters : ∃ e, encodeFrame (toLetters 3 (by decide)) = .ok e ∧
    ∀ r, (readFrame (e ++ r)).Returns (toLetters 3 (by decide), r) := by
  have h := toLetters_sendable 3 (by decide)
  refine ⟨_, rfl, (encode_faithful_iff _ _ h rfl).mpr ?_⟩
  rintro t ⟨⟩
  decide

theorem letters_utf8 : validUtf8 (List.replicate 257 97) = true := by decide +kernel

/-- What is read of the 257 letters: one of them is the domain, eight the global id. -/
def misread : Frame :=
  { toLetters 1 (by decide) with
    globalId := some ⟨List.replicate 8 97, length_replicate⟩ }

/-- The length byte of a domain of 257 letters is 1. -/
theorem long_domain_misread :
    (toLetters 257 letters_utf8).Sendable ∧ ∃ e, encodeFrame (toLetters 257 letters_utf8) = .ok e ∧
      (readFrame e).Returns (misread, []) ∧ misread ≠ toLetters 257 letters_utf8 := by
  have hmeta : (metadataOf (toLetters 257 letters_utf8)).length ≤ maxMetadataLen := by
    decide +kernel
  have he := encodeFrame_ok.mpr ⟨hmeta, by decide, rfl⟩
  refine ⟨toLetters_sendable 257 letters_utf8, _, he, ?_, ?_⟩
  · exact Exec.returns_of_value? (by decide +kernel)
  · intro h
    cases congrArg Frame.globalId h

end Xhttp.Xudp
