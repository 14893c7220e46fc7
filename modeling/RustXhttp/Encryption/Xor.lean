import RustXhttp.Encryption.Record

/-!
# The header transform (`src/vless/encryption/xor.rs`)

In random mode the five-byte record headers are XORed with an AES-CTR keystream and the bodies are
left alone. The transform has to know where the headers are: it collects the plain header, from
its input when it encrypts and from its output when it decrypts, and skips the length that it
announces. `apply` works on whatever piece of the stream is at hand.

* `apply_eq`: the loop of `apply` is `applyBytes`, one step of a transducer a byte, so that how
  the stream is cut into calls does not matter.
* `applyBytes_mirror`: the inbound transform inverts the outbound one and stays in step with it.
* `applyBytes_record`: a record passes the outbound transform, which is then again at a header.
-/

namespace Xhttp.Encryption

open List

/-- `HeaderXor`; the cipher is its key, its iv and its position in the keystream. -/
structure HeaderXor where
  key : ByteArr 32
  iv : ByteArr 16
  pos : Nat
  skip : Nat
  header : Bytes
  decrypt : Bool
  deriving DecidableEq

/-- The context of the header key: `VLESS`. -/
def vless : Bytes := [0x56, 0x4c, 0x45, 0x53, 0x53]

namespace HeaderXor

def new (unitedKey : Bytes) (iv : ByteArr 16) (skip : Nat) (decrypt : Bool) : HeaderXor where
  key := deriveKey vless unitedKey
  iv := iv
  pos := 0
  skip := skip
  header := []
  decrypt := decrypt

def outbound (unitedKey : Bytes) (iv : ByteArr 16) (skip : Nat) : HeaderXor :=
  new unitedKey iv skip false

def inbound (unitedKey : Bytes) (iv : ByteArr 16) (skip : Nat) : HeaderXor :=
  new unitedKey iv skip true

variable (C : Crypto)

/-- `apply_keystream` to a piece of a header: the piece after it, and the state. -/
def applyKeystream (x : HeaderXor) (piece : Bytes) : HeaderXor × Bytes :=
  let out := xorStream (C.keystream x.key x.iv) x.pos piece
  ({ x with
      pos := x.pos + piece.length
      header := x.header ++ if x.decrypt then out else piece }, out)

/-- A complete header sets what to skip. -/
def endHeader (x : HeaderXor) : Except RecordError HeaderXor :=
  if x.header.length = 5 then
    (decodeHeader x.header).map fun n => { x with skip := n, header := [] }
  else .ok x

/-- `apply`, with more fuel than bytes: the state after it and the bytes in place. -/
def applyLoop : Nat → HeaderXor → Bytes → HeaderXor × Except RecordError Bytes
  | 0, x, _ => (x, .ok [])
  | fuel + 1, x, bytes =>
    if bytes = [] then (x, .ok [])
    else
      let skipped := min x.skip bytes.length
      let x := { x with skip := x.skip - skipped }
      let rest := bytes.drop skipped
      if rest = [] then (x, .ok (bytes.take skipped))
      else
        let needed := 5 - x.header.length
        let (x, out) := x.applyKeystream C (rest.take needed)
        match x.endHeader with
        | .error e => (x, .error e)
        | .ok x =>
          match applyLoop fuel x (rest.drop needed) with
          | (x, .error e) => (x, .error e)
          | (x, .ok tail) => (x, .ok (bytes.take skipped ++ out ++ tail))

def apply (x : HeaderXor) (bytes : Bytes) : HeaderXor × Except RecordError Bytes :=
  applyLoop C (bytes.length + 1) x bytes

/-! ## One byte at a time -/

/-- The transform of one byte. -/
def applyByte (x : HeaderXor) (b : UInt8) : HeaderXor × Except RecordError UInt8 :=
  if x.skip ≠ 0 then ({ x with skip := x.skip - 1 }, .ok b)
  else
    let out := b ^^^ C.keystream x.key x.iv x.pos
    let x := { x with pos := x.pos + 1, header := x.header ++ [if x.decrypt then out else b] }
    match x.endHeader with
    | .error e => (x, .error e)
    | .ok x => (x, .ok out)

/-- The transform byte by byte, up to the first error. -/
def applyBytes (x : HeaderXor) : Bytes → HeaderXor × Except RecordError Bytes
  | [] => (x, .ok [])
  | b :: bs =>
    match x.applyByte C b with
    | (x, .error e) => (x, .error e)
    | (x, .ok o) =>
      match applyBytes x bs with
      | (x, .error e) => (x, .error e)
      | (x, .ok os) => (x, .ok (o :: os))

variable {C}

section

variable {x y : HeaderXor} {b o : UInt8} {bs header os : Bytes} {e : RecordError}

theorem applyBytes_cons_ok (h : x.applyByte C b = (y, .ok o)) (bs : Bytes) :
    x.applyBytes C (b :: bs) = ((y.applyBytes C bs).1, (y.applyBytes C bs).2.map (o :: ·)) := by
  simp only [applyBytes, h]
  rcases y.applyBytes C bs with ⟨z, e | os⟩ <;> rfl

theorem applyBytes_cons_error (h : x.applyByte C b = (y, .error e)) (bs : Bytes) :
    x.applyBytes C (b :: bs) = (y, .error e) := by
  simp only [applyBytes, h]

/-- The first step of a transform without an error. -/
theorem applyBytes_cons_inv (h : x.applyBytes C (b :: bs) = (y, .ok os)) :
    ∃ z o ts, x.applyByte C b = (z, .ok o) ∧ z.applyBytes C bs = (y, .ok ts) ∧ os = o :: ts := by
  rcases hb : x.applyByte C b with ⟨z, e | o⟩
  · rw [applyBytes_cons_error hb] at h
    cases h
  · rw [applyBytes_cons_ok hb] at h
    rcases hz : z.applyBytes C bs with ⟨w, e | ts⟩
    · rw [hz] at h
      cases h
    · rw [hz] at h
      cases h
      exact ⟨z, o, ts, rfl, hz, rfl⟩

/-- A piece that is transformed without an error, and what follows it. -/
theorem applyBytes_append (h : x.applyBytes C bs = (y, .ok os)) (cs : Bytes) :
    x.applyBytes C (bs ++ cs) =
      ((y.applyBytes C cs).1, (y.applyBytes C cs).2.map (os ++ ·)) := by
  induction bs generalizing x os with
  | nil =>
    simp only [applyBytes, Prod.mk.injEq, Except.ok.injEq] at h
    obtain ⟨rfl, rfl⟩ := h
    rw [nil_append]
    rcases x.applyBytes C cs with ⟨z, e | os⟩ <;> rfl
  | cons b bs ih =>
    obtain ⟨z, o, ts, hb, hz, rfl⟩ := applyBytes_cons_inv h
    rw [cons_append, applyBytes_cons_ok hb, ih hz]
    rcases y.applyBytes C cs with ⟨v, e | us⟩ <;> rfl

/-- The first error ends the transform. -/
theorem applyBytes_append_error (h : x.applyBytes C bs = (y, .error e)) (cs : Bytes) :
    x.applyBytes C (bs ++ cs) = (y, .error e) := by
  induction bs generalizing x with
  | nil => cases h
  | cons b bs ih =>
    rcases hb : x.applyByte C b with ⟨z, e' | o⟩
    · rw [applyBytes_cons_error hb] at h
      rw [cons_append, applyBytes_cons_error hb, h]
    · rw [applyBytes_cons_ok hb] at h
      rcases hz : z.applyBytes C bs with ⟨w, e' | ts⟩
      · rw [hz] at h
        cases h
        rw [cons_append, applyBytes_cons_ok hb, ih hz]
        rfl
      · rw [hz] at h
        cases h

/-! ## The loop of `apply` -/

theorem applyBytes_skip (x : HeaderXor) (bs : Bytes) (h : bs.length ≤ x.skip) :
    x.applyBytes C bs = ({ x with skip := x.skip - bs.length }, .ok bs) := by
  induction bs generalizing x with
  | nil => rfl
  | cons b bs ih =>
    rw [length_cons] at h
    have hb : x.applyByte C b = ({ x with skip := x.skip - 1 }, .ok b) := by
      rw [applyByte, if_pos (by omega)]
    rw [applyBytes_cons_ok hb, ih _ (by simp only; omega)]
    simp only [Except.map, length_cons, Nat.sub_sub, Nat.add_comm 1]

theorem applyKeystream_cons (x : HeaderXor) (b : UInt8) (bs : Bytes) :
    x.applyKeystream C (b :: bs) =
      (((x.applyKeystream C [b]).1.applyKeystream C bs).1,
        (b ^^^ C.keystream x.key x.iv x.pos) ::
          ((x.applyKeystream C [b]).1.applyKeystream C bs).2) := by
  by_cases hd : x.decrypt = true
  · simp [applyKeystream, xorStream, hd, Nat.add_assoc, Nat.add_comm 1]
  · simp [applyKeystream, xorStream, hd, Nat.add_assoc, Nat.add_comm 1]

/-- A piece of a header, up to its end. -/
theorem applyBytes_header (x : HeaderXor) (piece : Bytes) (hs : x.skip = 0) (hp : piece ≠ [])
    (hl : x.header.length + piece.length ≤ 5) :
    x.applyBytes C piece =
      match (x.applyKeystream C piece).1.endHeader with
      | .error e => ((x.applyKeystream C piece).1, .error e)
      | .ok y => (y, .ok (x.applyKeystream C piece).2) := by
  induction piece generalizing x with
  | nil => exact absurd rfl hp
  | cons b bs ih =>
    have hb : x.applyByte C b =
        match (x.applyKeystream C [b]).1.endHeader with
        | .error e => ((x.applyKeystream C [b]).1, .error e)
        | .ok y => (y, .ok (b ^^^ C.keystream x.key x.iv x.pos)) := by
      simp only [applyByte, hs, applyKeystream, xorStream]
      by_cases hd : x.decrypt = true <;> simp [hd]
    by_cases hbs : bs = []
    · subst hbs
      rcases he : (x.applyKeystream C [b]).1.endHeader with e | y
      · rw [he] at hb
        rw [applyBytes_cons_error hb]
      · rw [he] at hb
        rw [applyBytes_cons_ok hb]
        rfl
    · -- the header is not complete after the first byte
      have hpos := length_pos_iff.mpr hbs
      rw [length_cons] at hl
      have hlen : (x.applyKeystream C [b]).1.header.length = x.header.length + 1 := by
        simp only [applyKeystream]
        split <;> simp
      have he : (x.applyKeystream C [b]).1.endHeader = .ok (x.applyKeystream C [b]).1 := by
        rw [endHeader, if_neg (by omega)]
      rw [he] at hb
      rw [applyBytes_cons_ok hb, ih (x.applyKeystream C [b]).1 hs hbs (by omega),
        applyKeystream_cons x b bs]
      rcases ((x.applyKeystream C [b]).1.applyKeystream C bs).1.endHeader with e | y <;> rfl

theorem endHeader_ok (hl : x.header.length ≤ 5) (h : x.endHeader = .ok y) :
    y.header.length < 5 := by
  unfold endHeader at h
  split at h
  · rcases hd : decodeHeader x.header with e | n
    · rw [hd] at h; cases h
    · rw [hd] at h
      cases h
      exact Nat.succ_pos 4
  · cases h
    omega

theorem applyLoop_eq (fuel : Nat) (x : HeaderXor) (bytes : Bytes) (hh : x.header.length < 5)
    (hf : bytes.length < fuel) : applyLoop C fuel x bytes = x.applyBytes C bytes := by
  induction fuel generalizing x bytes with
  | zero => omega
  | succ fuel ih =>
    unfold applyLoop
    by_cases hb : bytes = []
    · subst hb; rfl
    rw [if_neg hb]
    have hskip := applyBytes_skip (C := C) x (bytes.take (min x.skip bytes.length))
      (by rw [length_take]; omega)
    have hlen : (bytes.take (min x.skip bytes.length)).length = min x.skip bytes.length := by
      rw [length_take]; omega
    rw [hlen] at hskip
    have hsplit := take_append_drop (min x.skip bytes.length) bytes
    simp only
    by_cases hrest : bytes.drop (min x.skip bytes.length) = []
    · rw [if_pos hrest, ← hskip, ← append_nil (bytes.take _), ← hrest, hsplit]
    rw [if_neg hrest]
    have hbytes := applyBytes_append hskip (bytes.drop (min x.skip bytes.length))
    rw [hsplit] at hbytes
    rw [hbytes]
    -- what is not skipped starts in the header
    generalize hx' : ({ x with skip := x.skip - min x.skip bytes.length } : HeaderXor) = x'
    have hs : x'.skip = 0 := by
      rw [← hx']
      have : ¬ bytes.length ≤ min x.skip bytes.length := fun h => hrest (drop_eq_nil_iff.mpr h)
      simp only
      omega
    have hxh : x.header.length = x'.header.length := by rw [← hx']
    have hh' : x'.header.length < 5 := hxh ▸ hh
    rw [hxh]
    have hrl : (bytes.drop (min x.skip bytes.length)).length ≤ bytes.length := by
      rw [length_drop]; omega
    generalize bytes.drop (min x.skip bytes.length) = rest at hrest hrl
    have hpiece : rest.take (5 - x'.header.length) ≠ [] := by
      rw [Ne, take_eq_nil_iff]
      rintro (h | h)
      · omega
      · exact hrest h
    have hpl : x'.header.length + (rest.take (5 - x'.header.length)).length ≤ 5 := by
      rw [length_take]; omega
    have hhead := applyBytes_header (C := C) x' _ hs hpiece hpl
    have hrs := take_append_drop (5 - x'.header.length) rest
    rcases he : (x'.applyKeystream C (rest.take (5 - x'.header.length))).1.endHeader with e | y
    · rw [he] at hhead
      have := applyBytes_append_error hhead (rest.drop (5 - x'.header.length))
      rw [hrs] at this
      rw [this]
      rfl
    · rw [he] at hhead
      have := applyBytes_append hhead (rest.drop (5 - x'.header.length))
      rw [hrs] at this
      rw [this]
      have hy : y.header.length < 5 := by
        refine endHeader_ok ?_ he
        simp only [applyKeystream]
        split <;> simp only [length_append, length_xorStream] <;> exact hpl
      have hdl : (rest.drop (5 - x'.header.length)).length < fuel := by
        have := length_pos_iff.mpr hrest
        rw [length_drop]
        omega
      simp only [ih y _ hy hdl]
      rcases y.applyBytes C (rest.drop (5 - x'.header.length)) with ⟨z, e | os⟩
      · rfl
      · simp [Except.map, append_assoc]

/-- How the stream is cut into calls of `apply` does not matter: it works byte by byte. -/
theorem apply_eq (x : HeaderXor) (bytes : Bytes) (hh : x.header.length < 5) :
    x.apply C bytes = x.applyBytes C bytes :=
  applyLoop_eq _ x bytes hh (Nat.lt_succ_self _)

theorem applyByte_ok_header (hh : x.header.length < 5) (h : x.applyByte C b = (y, .ok o)) :
    y.header.length < 5 := by
  simp only [applyByte] at h
  split at h
  · cases h
    exact hh
  · split at h
    · cases h
    case h_2 z hz =>
      cases h
      refine endHeader_ok ?_ hz
      rw [length_append, length_singleton]
      omega

theorem applyBytes_ok_header (hh : x.header.length < 5) (h : x.applyBytes C bs = (y, .ok os)) :
    y.header.length < 5 := by
  induction bs generalizing x os with
  | nil => cases h; exact hh
  | cons b bs ih =>
    obtain ⟨z, o, ts, hb, hz, rfl⟩ := applyBytes_cons_inv h
    exact ih (applyByte_ok_header hh hb) hz

/-- A part of a stream that is transformed without an error. -/
theorem applyBytes_take (h : x.applyBytes C bs = (y, .ok os)) (n : Nat) :
    ∃ z, x.applyBytes C (bs.take n) = (z, .ok (os.take n)) := by
  induction bs generalizing x os n with
  | nil =>
    simp only [applyBytes, Prod.mk.injEq, Except.ok.injEq] at h
    obtain ⟨rfl, rfl⟩ := h
    exact ⟨x, by simp [applyBytes]⟩
  | cons b bs ih =>
    obtain ⟨z, o, ts, hb, hz, rfl⟩ := applyBytes_cons_inv h
    cases n with
    | zero => exact ⟨x, rfl⟩
    | succ n =>
      obtain ⟨v, hv⟩ := ih hz n
      refine ⟨v, ?_⟩
      rw [take_succ_cons, applyBytes_cons_ok hb, hv]
      rfl

/-- A stream that is transformed without an error, cut in two. -/
theorem applyBytes_append_inv {as : Bytes} (h : x.applyBytes C (as ++ bs) = (y, .ok os)) :
    ∃ z os₁ os₂, x.applyBytes C as = (z, .ok os₁) ∧ z.applyBytes C bs = (y, .ok os₂) ∧
      os = os₁ ++ os₂ := by
  obtain ⟨z, hz⟩ := applyBytes_take h as.length
  rw [take_left] at hz
  rw [applyBytes_append hz] at h
  rcases hb : z.applyBytes C bs with ⟨w, e | ts⟩
  · rw [hb] at h
    cases h
  · rw [hb] at h
    obtain ⟨rfl, hos⟩ := Prod.mk.inj h
    exact ⟨z, _, ts, hz, hb, (Except.ok.inj hos).symm⟩

theorem length_applyBytes (h : x.applyBytes C bs = (y, .ok os)) : os.length = bs.length := by
  induction bs generalizing x os with
  | nil => cases h; rfl
  | cons b bs ih =>
    obtain ⟨z, o, ts, -, hz, rfl⟩ := applyBytes_cons_inv h
    rw [length_cons, length_cons, ih hz]

/-! ## Both directions -/

/-- The inbound transform in the state of an outbound one. -/
def mirror (x : HeaderXor) : HeaderXor := { x with decrypt := true }

theorem mirror_endHeader (h : x.endHeader = .ok y) : x.mirror.endHeader = .ok y.mirror := by
  simp only [endHeader] at h ⊢
  split at h
  case isTrue hl =>
    rw [if_pos (show x.mirror.header.length = 5 from hl)]
    rcases hd : decodeHeader x.header with e | n
    · rw [hd] at h
      cases h
    · rw [hd] at h
      cases h
      rw [show x.mirror.header = x.header from rfl, hd]
      rfl
  case isFalse hl =>
    rw [if_neg (show ¬ x.mirror.header.length = 5 from hl)]
    cases h
    rfl

theorem endHeader_decrypt (h : x.endHeader = .ok y) : y.decrypt = x.decrypt := by
  simp only [endHeader] at h
  split at h
  · rcases hd : decodeHeader x.header with e | n
    · rw [hd] at h; cases h
    · rw [hd] at h; cases h; rfl
  · cases h; rfl

theorem applyByte_mirror (hd : x.decrypt = false) (h : x.applyByte C b = (y, .ok o)) :
    x.mirror.applyByte C o = (y.mirror, .ok b) ∧ y.decrypt = false := by
  simp only [applyByte, hd] at h
  by_cases hs : x.skip = 0
  · rw [if_neg (not_not_intro hs)] at h
    split at h
    · cases h
    case h_2 z hz =>
      cases h
      have hm := mirror_endHeader hz
      refine ⟨?_, (endHeader_decrypt hz).trans rfl⟩
      -- the keystream byte cancels, so both sides collect the same plain header
      simp only [applyByte, mirror, hs, ne_eq, not_true_eq_false, if_false, if_true, xor_xor_cancel]
      simp only [mirror, hs, Bool.false_eq_true, if_false] at hm
      rw [hm]
  · rw [if_pos hs] at h
    cases h
    refine ⟨?_, rfl⟩
    rw [applyByte, if_pos (show x.mirror.skip ≠ 0 from hs)]
    rfl

/-- The inbound transform inverts the outbound one, and both are again in the same state. -/
theorem applyBytes_mirror (hd : x.decrypt = false) (h : x.applyBytes C bs = (y, .ok os)) :
    x.mirror.applyBytes C os = (y.mirror, .ok bs) := by
  induction bs generalizing x os with
  | nil =>
    cases h
    rfl
  | cons b bs ih =>
    obtain ⟨z, o, ts, hb, hz, rfl⟩ := applyBytes_cons_inv h
    obtain ⟨hm, hd'⟩ := applyByte_mirror hd hb
    rw [applyBytes_cons_ok hm, ih hd' hz]
    rfl

/-- A header that announces `n` bytes. -/
theorem applyBytes_whole_header {n : Nat} (hd : x.decrypt = false) (hs : x.skip = 0)
    (hh : x.header = []) (hl : header.length = 5) (hdec : decodeHeader header = .ok n) :
    x.applyBytes C header = ({ x with pos := x.pos + 5, skip := n },
      .ok (xorStream (C.keystream x.key x.iv) x.pos header)) := by
  have hne : header ≠ [] := by
    rintro rfl
    cases hl
  rw [applyBytes_header x header hs hne (by rw [hh, hl]; exact Nat.le_refl _)]
  simp [applyKeystream, endHeader, hd, hh, hl, hdec, Except.map]

/-- A record passes the outbound transform, which is at the next header after it. -/
theorem applyBytes_record {body : Bytes} (hd : x.decrypt = false) (hs : x.skip = 0)
    (hh : x.header = []) (hl : header.length = 5) (hdec : decodeHeader header = .ok body.length) :
    x.applyBytes C (header ++ body) = ({ x with pos := x.pos + 5 },
      .ok (xorStream (C.keystream x.key x.iv) x.pos header ++ body)) := by
  have hskip := applyBytes_skip (C := C) { x with pos := x.pos + 5, skip := body.length } body
    (Nat.le_refl _)
  rw [applyBytes_append (applyBytes_whole_header hd hs hh hl hdec), hskip]
  simp only [Nat.sub_self, Except.map, hs]

end

end HeaderXor

end Xhttp.Encryption
