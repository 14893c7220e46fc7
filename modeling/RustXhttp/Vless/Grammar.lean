import RustXhttp.Lib.Protobuf
import RustXhttp.Vless.Addons

/-!
# The decoder of the addons against the protobuf grammar

`decode_addons_body` takes one byte as the tag, and knows the wire types 0 and 2 only.

* `readVarint_append`, `readVarint_found`, `readVarint_cut`: `read_varint` reads the varints of the
  grammar, and nothing that is cut off.
* `Reading body read`: the body, taken as fields with tags of one byte, is the fields `read`.
* `decode_ok_iff`: the decoder accepts the bodies that have a reading, and no others.
* `addons_grammar`: the decoder follows the grammar on messages whose tags are one byte and that
  have no field of a fixed size; one of those makes it fail. A message that ends inside of a field
  fails, unless it ends inside of the content of an unknown field. A message with longer tags is
  decoded right exactly if it also has a reading, with the same flow and seed.
* `fixed_field_rejected`: an unknown field of four bytes is not skipped, and an unknown field that
  is cut off is accepted.
-/

namespace Xhttp.Vless

open Protobuf List

/-! ## Varints -/

/-- Seven more bits above the ones that are there. -/
theorem or_shiftLeft {a : UInt64} {x : UInt8} {s : Nat} (hs : s < 64) (ha : a.toNat < 2 ^ s) :
    a ||| (x.toUInt64 <<< UInt64.ofNat s) = UInt64.ofNat (a.toNat + 2 ^ s * x.toNat) := by
  apply UInt64.toNat_inj.mp
  have hshift : s % 2 ^ 64 % 64 = s := by omega
  have hpow : a.toNat % 2 ^ 64 = a.toNat := Nat.mod_eq_of_lt a.toNat_lt
  rw [UInt64.toNat_or, UInt64.toNat_shiftLeft, UInt8.toNat_toUInt64, UInt64.toNat_ofNat',
    UInt64.toNat_ofNat', hshift]
  have hor := Nat.shiftLeft_add_eq_or_of_lt ha x.toNat
  rw [Nat.shiftLeft_eq] at hor ⊢
  calc a.toNat ||| x.toNat * 2 ^ s % 2 ^ 64
      = (a.toNat ||| x.toNat * 2 ^ s) % 2 ^ 64 := by rw [Nat.or_mod_two_pow, hpow]
    _ = (a.toNat + 2 ^ s * x.toNat) % 2 ^ 64 := by
      rw [Nat.or_comm, ← hor, Nat.add_comm, Nat.mul_comm]

theorem toNat_and_7f (b : UInt8) : (b &&& 0x7f).toNat = b.toNat % 128 := by
  rw [UInt8.toNat_and]
  exact Nat.and_two_pow_sub_one_eq_mod b.toNat 7

section

variable {b : UInt8} {bs p : Bytes} {adv i n : Nat} {result v : UInt64} {f : Field}

/-- The continuation bit. -/
theorem and_80_eq_zero : b &&& 0x80 = 0 ↔ b < 128 := by
  have h : ∀ n : Fin 256, n.val &&& 128 = 0 ↔ n.val < 128 := by decide +kernel
  rw [← UInt8.toNat_inj, UInt8.lt_iff_toNat_lt, UInt8.toNat_and]
  exact h ⟨b.toNat, b.toNat_lt⟩

theorem readVarintFrom_append (hd : delimited bs = true) (rest : Bytes) {k : Nat}
    (hk : k + bs.length ≤ 10) (hr : result.toNat < 2 ^ (7 * k)) :
    readVarintFrom (7 * k) result i (bs ++ rest) =
      some (UInt64.ofNat (result.toNat + 2 ^ (7 * k) * varintValue bs), i + bs.length) := by
  induction bs generalizing k i result with
  | nil => cases hd
  | cons b bs ih =>
    rw [length_cons] at hk
    rw [cons_append, readVarintFrom, if_neg (by omega), or_shiftLeft (by omega) hr, toNat_and_7f]
    rcases delimited_cons.mp hd with ⟨hb, rfl⟩ | ⟨hb, hrest⟩
    · rw [if_pos (and_80_eq_zero.mpr hb)]
      simp [varintValue]
    · -- a byte with more to come is not the tenth, so its seven bits fit
      have hpos := length_pos_iff.mpr (delimited_ne_nil hrest)
      have hpow : 2 ^ (7 * (k + 1)) = 2 ^ (7 * k) * 128 := by
        rw [Nat.mul_succ, Nat.pow_add]
      have hle : 2 ^ (7 * (k + 1)) ≤ 2 ^ 63 := Nat.pow_le_pow_right (by decide) (by omega)
      have hbits : 2 ^ (7 * k) * (b.toNat % 128) ≤ 2 ^ (7 * k) * 127 :=
        Nat.mul_le_mul_left _ (by omega)
      have hnat : (UInt64.ofNat (result.toNat + 2 ^ (7 * k) * (b.toNat % 128))).toNat =
          result.toNat + 2 ^ (7 * k) * (b.toNat % 128) := by
        rw [UInt64.toNat_ofNat']
        exact Nat.mod_eq_of_lt (by omega)
      rw [if_neg fun h => absurd (and_80_eq_zero.mp h) (by simpa using hb)]
      have hnext : 7 * k + 7 = 7 * (k + 1) := by omega
      rw [hnext, ih hrest (by omega) (by rw [hnat]; omega), hnat, varintValue, hpow]
      congr 2
      · congr 1
        rw [Nat.mul_add, Nat.mul_assoc]
        omega
      · rw [length_cons]
        omega

/-- A varint that `read_varint` accepts: the bits above the 64th are dropped. -/
structure Scanned (bs : Bytes) (n : Nat) : Prop where
  delimited : delimited bs = true
  length : bs.length ≤ 10
  value : varintValue bs % 2 ^ 64 = n

theorem scanned_of_isVarint (h : IsVarint bs n) : Scanned bs n :=
  ⟨h.delimited, h.length, by rw [h.value, Nat.mod_eq_of_lt h.fits]⟩

theorem Scanned.toNat (h : Scanned bs n) : (UInt64.ofNat n).toNat = n := by
  rw [UInt64.toNat_ofNat', ← h.value, Nat.mod_mod]

theorem readVarint_append (h : Scanned bs n) (rest : Bytes) :
    readVarint (bs ++ rest) = some (UInt64.ofNat n, bs.length) := by
  have hread := readVarintFrom_append h.delimited rest (k := 0) (i := 0)
    (by have := h.length; omega) (show (0 : UInt64).toNat < 2 ^ (7 * 0) by decide)
  have hn : UInt64.ofNat (varintValue bs) = UInt64.ofNat n := by
    rw [← UInt64.toNat_inj, h.toNat, UInt64.toNat_ofNat', h.value]
  rw [readVarint, ← Nat.mul_zero 7, hread]
  simp [hn]

theorem readVarintFrom_found {shift : Nat} {b : Bytes}
    (h : readVarintFrom shift result i b = some (v, adv)) :
    ∃ bs rest, b = bs ++ rest ∧ delimited bs = true ∧ shift + 7 * bs.length < 71 ∧
      adv = i + bs.length := by
  induction b generalizing shift result i with
  | nil => cases h
  | cons byte b ih =>
    simp only [readVarintFrom] at h
    split at h
    · cases h
    · split at h
      case isTrue hlast =>
        cases h
        exact ⟨[byte], b, rfl, delimited_cons.mpr (.inl ⟨and_80_eq_zero.mp hlast, rfl⟩),
          by simp only [length_singleton]; omega, rfl⟩
      case isFalse hmore =>
        obtain ⟨bs, rest, rfl, hd, hlen, rfl⟩ := ih h
        have hbyte : 128 ≤ byte := by simpa using mt and_80_eq_zero.mpr hmore
        refine ⟨byte :: bs, rest, rfl, delimited_cons.mpr (.inr ⟨hbyte, hd⟩), ?_, ?_⟩
        all_goals
          rw [length_cons]
          omega

/-- What `read_varint` reads is a varint. -/
theorem readVarint_found {b : Bytes} (h : readVarint b = some (v, adv)) :
    ∃ bs rest, b = bs ++ rest ∧ Scanned bs v.toNat ∧ adv = bs.length := by
  obtain ⟨bs, rest, rfl, hd, hlen, rfl⟩ := readVarintFrom_found h
  have hscanned : Scanned bs (varintValue bs % 2 ^ 64) := ⟨hd, by omega, rfl⟩
  have hv := (readVarint_append hscanned rest).symm.trans h
  refine ⟨bs, rest, rfl, ?_, Nat.zero_add _⟩
  rw [← (Prod.mk.inj (Option.some.inj hv)).1, hscanned.toNat]
  exact hscanned

/-- Bytes that all have the continuation bit are no varint. -/
theorem readVarintFrom_cut (hp : ∀ b ∈ p, 128 ≤ b) (shift i : Nat) (result : UInt64) :
    readVarintFrom shift result i p = none := by
  induction p generalizing shift i result with
  | nil => rfl
  | cons b p ih =>
    have hb : ¬ b &&& 0x80 = 0 := fun h =>
      absurd (and_80_eq_zero.mp h) (by simpa using hp b (mem_cons_self ..))
    rw [readVarintFrom, if_neg hb, ih fun c hc => hp c (mem_cons_of_mem _ hc), ite_self]

theorem readVarint_cut {q : Bytes} (h : Scanned bs n) (hp : bs = p ++ q) (hq : q ≠ []) :
    readVarint p = none :=
  readVarintFrom_cut (fun _ hb => le_of_mem_take h.delimited hp hq hb) 0 0 0

/-! ## Tags of one byte -/

theorem field_eq {n : UInt8} : b >>> 3 = n ↔ b.toNat / 8 = n.toNat := by
  rw [← UInt8.toNat_inj, UInt8.toNat_shiftRight, Nat.shiftRight_eq_div_pow]
  rfl

theorem wire_eq {w : UInt8} : b &&& 0x7 = w ↔ b.toNat % 8 = w.toNat := by
  rw [← UInt8.toNat_inj, UInt8.toNat_and]
  exact iff_of_eq (congrArg (· = w.toNat) (Nat.and_two_pow_sub_one_eq_mod b.toNat 3))

theorem isKnown_iff : isKnown b = true ↔ (b.toNat / 8 = 1 ∨ b.toNat / 8 = 2) ∧ b.toNat % 8 = 2 := by
  rw [isKnown, decide_eq_true_iff, field_eq, field_eq, wire_eq]
  rfl

/-! ## Fields -/

/-- A field of four or of eight bytes. -/
def isFixed (f : Field) : Bool :=
  match f.value with
  | .fixed64 _ | .fixed32 _ => true
  | .varint _ | .bytes _ _ => false

/-- What the message `Addons` allows: the flow is a text, the seed is bytes. -/
structure IsAddonsField (f : Field) : Prop where
  wellFormed : f.WellFormed
  flow : f.number = 1 → ∃ len content, f.value = .bytes len content ∧ validUtf8 content = true
  seed : f.number = 2 → ∃ len content, f.value = .bytes len content

/-- What the decoder takes for a value. -/
def Scans : Value → Prop
  | .varint raw => ∃ n, Scanned raw n
  | .bytes len content => Scanned len content.length
  | _ => True

/-- What the decoder takes for a field: the tag is any byte. -/
structure IsByteField (f : Field) : Prop where
  tag : ∃ b : UInt8, f.tag = [b] ∧ b.toNat = f.number * 8 + f.value.wireType
  value : Scans f.value

/-- The flow, if the field is one, is a text. -/
def flowIsText (f : Field) : Bool :=
  match f.value with
  | .bytes _ content => f.number != 1 || validUtf8 content
  | _ => true

/-- A field that the decoder reads as a whole. -/
structure IsRead (f : Field) : Prop extends IsByteField f where
  flow : flowIsText f = true

theorem scans_of_wellFormed {v : Value} (h : v.WellFormed) : Scans v := by
  cases v with
  | varint raw => exact Exists.imp (fun _ => scanned_of_isVarint) h
  | bytes len content => exact scanned_of_isVarint h
  | fixed64 raw => trivial
  | fixed32 raw => trivial

theorem isByteField_of_tag (hf : f.WellFormed) (htag : f.tag.length = 1) : IsByteField f := by
  obtain ⟨b, hb⟩ := length_eq_one_iff.mp htag
  have hv := hf.tag
  rw [hb] at hv
  have hsmall : b < 128 := by simpa [delimited] using hv.delimited
  have hvalue : b.toNat % 128 + 128 * 0 = f.number * 8 + f.value.wireType := hv.value
  have : b.toNat < 128 := UInt8.lt_iff_toNat_lt.mp hsmall
  exact ⟨⟨b, hb, by omega⟩, scans_of_wellFormed hf.value⟩

theorem IsAddonsField.isRead (h : IsAddonsField f) (htag : f.tag.length = 1) : IsRead f := by
  refine ⟨isByteField_of_tag h.wellFormed htag, ?_⟩
  by_cases h1 : f.number = 1
  · obtain ⟨len, content, hv, hutf8⟩ := h.flow h1
    simp [flowIsText, hv, hutf8]
  · cases hv : f.value <;> simp [flowIsText, hv, h1]

/-- What a field does to the addons. -/
def store (addons : Addons) (f : Field) : Addons :=
  match f.value with
  | .bytes _ content =>
    if f.number = 1 then
      if utf8 : validUtf8 content = true then { addons with flow := ⟨content, utf8⟩ } else addons
    else if f.number = 2 then { addons with seed := content }
    else addons
  | _ => addons

/-- The tag of the field `f` is the byte at the cursor `i`, and its value comes next. -/
structure AtTag (body : Bytes) (i : Nat) (f : Field) (tag : UInt8) : Prop where
  at_cursor : body[i]? = some tag
  eq : tag.toNat = f.number * 8 + f.value.wireType

/-- The cursor is at a field. -/
theorem atTag {body rest : Bytes} (hf : IsByteField f) (hd : body.drop i = f.tag ++ rest) :
    ∃ tag, AtTag body i f tag ∧ body.drop (i + 1) = rest := by
  obtain ⟨tag, htag, heq⟩ := hf.tag
  rw [htag, singleton_append] at hd
  refine ⟨tag, ⟨?_, heq⟩, ?_⟩
  · have := congrArg List.head? hd
    rwa [head?_drop] at this
  · rw [← drop_drop, hd]
    rfl

theorem IsByteField.tag_length (h : IsByteField f) : f.tag.length = 1 := by
  obtain ⟨b, hb, _⟩ := h.tag
  rw [hb]
  rfl

end

section

variable {body rest : Bytes} {i : Nat} {f : Field} {tag : UInt8} {addons : Addons}

theorem AtTag.field (h : AtTag body i f tag) : tag.toNat / 8 = f.number := by
  have := f.value.wireType_lt
  have := h.eq
  omega

theorem AtTag.wire (h : AtTag body i f tag) : tag.toNat % 8 = f.value.wireType := by
  have := f.value.wireType_lt
  have := h.eq
  omega

/-- A turn at a field: a varint is skipped, a field of a fixed size is refused, and of the
length-delimited ones the known are stored and the others skipped. -/
theorem turn_atTag (hlen : body.length ≤ 255) (h : AtTag body i f tag) :
    turn body i addons =
      match f.value with
      | .varint _ =>
        onVarint (readVarint (body.drop (i + 1))) fun _ adv => .goesOn (i + 1 + adv) addons
      | .bytes _ _ =>
        onVarint (readVarint (body.drop (i + 1))) fun len adv =>
          if f.number = 1 ∨ f.number = 2 then
            knownField body (tag >>> 3) addons (i + 1 + adv) len
          else .goesOn (wrappingAdd (i + 1) (wrappingAdd adv len)) addons
      | _ => .fails .badWire := by
  have hk : isKnown tag = true ↔ (f.number = 1 ∨ f.number = 2) ∧ f.value.wireType = 2 := by
    rw [isKnown_iff, h.field, h.wire]
  have h0 : tag &&& 0x7 = 0 ↔ f.value.wireType = 0 := by
    rw [wire_eq, h.wire]
    rfl
  have h2 : tag &&& 0x7 = 2 ↔ f.value.wireType = 2 := by
    rw [wire_eq, h.wire]
    rfl
  simp only [turn_eq hlen h.at_cursor, hk, h0, h2]
  cases hv : f.value with
  | bytes len content =>
    by_cases hknown : f.number = 1 ∨ f.number = 2 <;> simp [Value.wireType, hknown]
  | varint raw | fixed64 raw | fixed32 raw => simp [Value.wireType]

theorem turn_fixed (hlen : body.length ≤ 255) (h : AtTag body i f tag) (hf : isFixed f = true) :
    turn body i addons = .fails .badWire := by
  rw [turn_atTag hlen h]
  cases hv : f.value <;> simp [isFixed, hv] at hf ⊢

variable {content cut len part : Bytes} {fields : List Field}

/-- A known field that is there as a whole is stored, unless it is a flow that is no text. -/
theorem knownField_store (hat : AtTag body i f tag) (hv : f.value = .bytes len content)
    (hknown : f.number = 1 ∨ f.number = 2) {pos : Nat} (hd : body.drop pos = content ++ rest)
    (hpos : pos ≤ body.length) (hlen : body.length ≤ 255) :
    knownField body (tag >>> 3) addons pos content.length =
      if flowIsText f then .goesOn (pos + content.length) (store addons f)
      else .fails .badUtf8 := by
  have hl := congrArg List.length hd
  rw [length_drop, length_append] at hl
  have hslice : (body.drop pos).take content.length = content := by rw [hd, take_left]
  rw [knownField_fits (by omega), if_neg (by omega)]
  by_cases h1 : f.number = 1
  · have hfield : tag >>> 3 = 1 := field_eq.mpr (hat.field.trans h1)
    by_cases hutf8 : validUtf8 content = true <;>
      simp [hslice, hfield, hutf8, flowIsText, store, hv, h1]
  · have h2 : f.number = 2 := hknown.resolve_left h1
    have hfield : ¬ tag >>> 3 = 1 := fun hf => h1 (hat.field.symm.trans (field_eq.mp hf))
    simp [hslice, hfield, flowIsText, store, hv, h2]

/-- The decoder takes a whole field, unless it is a flow that is no text. -/
theorem turn_field (hlen : body.length ≤ 255) (h : IsByteField f) (hfixed : isFixed f = false)
    (hd : body.drop i = f.encode ++ rest) :
    turn body i addons =
      if flowIsText f then .goesOn (i + f.encode.length) (store addons f)
      else .fails .badUtf8 := by
  rw [Field.encode, append_assoc] at hd
  obtain ⟨tag, hat, hrest⟩ := atTag h hd
  have hi : i < body.length := (List.getElem?_eq_some_iff.mp hat.at_cursor).1
  have hl := congrArg List.length hrest
  rw [length_drop, length_append] at hl
  have hscans := h.value
  rw [turn_atTag hlen hat, Field.encode, length_append, h.tag_length]
  cases hv : f.value with
  | varint raw =>
    rw [hv] at hrest hscans
    obtain ⟨n, hn⟩ := hscans
    simp [hrest, Value.encode, readVarint_append hn, onVarint, flowIsText, store, hv, Nat.add_assoc]
  | fixed64 raw | fixed32 raw => simp [isFixed, hv] at hfixed
  | bytes len content =>
    rw [hv] at hrest hl hscans
    have hrest' : body.drop (i + 1) = len ++ (content ++ rest) := by
      rw [hrest, Value.encode, append_assoc]
    rw [Value.encode, length_append] at hl
    simp only [hrest', readVarint_append hscans, onVarint, hscans.toNat, Value.encode,
      length_append]
    by_cases hknown : f.number = 1 ∨ f.number = 2
    · have hpos : body.drop (i + 1 + len.length) = content ++ rest := by
        rw [← drop_drop, hrest', drop_left]
      rw [if_pos hknown, knownField_store hat hv hknown hpos (by omega) hlen]
      simp only [Nat.add_assoc]
    · have h1 : ¬ f.number = 1 := fun h => hknown (.inl h)
      have h2 : ¬ f.number = 2 := fun h => hknown (.inr h)
      have hskip : wrappingAdd len.length content.length = len.length + content.length :=
        wrappingAdd_of_lt (by omega)
      rw [if_neg hknown, hskip, wrappingAdd_of_lt (by omega)]
      simp [flowIsText, store, hv, h1, h2, Nat.add_assoc]

theorem encodeFields_cons (f : Field) (fields : List Field) :
    encodeFields (f :: fields) = f.encode ++ encodeFields fields := flatMap_cons ..

/-- The fields before the one at the cursor are taken, unless one of them has a fixed size. -/
theorem decodeFrom_fields (hlen : body.length ≤ 255) (hf : ∀ f ∈ fields, IsRead f)
    (hd : body.drop i = encodeFields fields ++ rest) (fuel : Nat) (addons : Addons) :
    decodeFrom body (fields.length + fuel) i addons =
      if fields.any isFixed then some (.returned (.error .badWire))
      else decodeFrom body fuel (i + (encodeFields fields).length) (fields.foldl store addons) := by
  induction fields generalizing i addons with
  | nil => simp [encodeFields]
  | cons f fields ih =>
    rw [encodeFields, flatMap_cons, append_assoc] at hd
    have hfield := hf f (mem_cons_self ..)
    have hi : i < body.length := by
      have hl := congrArg List.length hd
      rw [length_drop, length_append, Field.encode, length_append, hfield.tag_length] at hl
      omega
    rw [length_cons, Nat.add_right_comm, decodeFrom, if_pos hi, any_cons]
    cases hfix : isFixed f with
    | true =>
      obtain ⟨tag, hat, _⟩ := atTag hfield.toIsByteField
        (hd.trans (by rw [Field.encode, append_assoc]))
      rw [turn_fixed hlen hat hfix]
      rfl
    | false =>
      rw [turn_field hlen hfield.toIsByteField hfix hd, if_pos hfield.flow]
      have hnext : body.drop (i + f.encode.length) = encodeFields fields ++ rest := by
        rw [← drop_drop, hd, drop_left]
        rfl
      have := ih (fun f hm => hf f (mem_cons_of_mem _ hm)) hnext (store addons f)
      simp only [this, Bool.false_or, encodeFields, flatMap_cons, length_append,
        foldl_cons, Nat.add_assoc]

/-- A message, and perhaps something behind it. -/
theorem decode_fields (hlen : (encodeFields fields ++ part).length ≤ 255)
    (hf : ∀ f ∈ fields, IsRead f) (fuel : Nat) :
    decodeAddonsBody (fields.length + fuel) (encodeFields fields ++ part) =
      if fields.any isFixed then some (.returned (.error .badWire))
      else decodeFrom (encodeFields fields ++ part) fuel (encodeFields fields).length
        (fields.foldl store .default) := by
  rw [decodeAddonsBody, decodeFrom_fields hlen hf (drop_zero ..), Nat.zero_add]

/-- A message that ends there. -/
theorem decode_message (hlen : (encodeFields fields).length ≤ 255) (hf : ∀ f ∈ fields, IsRead f)
    {fuel : Nat} (hfuel : fields.length < fuel) :
    decodeAddonsBody fuel (encodeFields fields) =
      if fields.any isFixed then some (.returned (.error .badWire))
      else some (.returned (.ok (fields.foldl store .default))) := by
  obtain ⟨k, rfl⟩ : ∃ k, fuel = fields.length + (k + 1) := ⟨fuel - fields.length - 1, by omega⟩
  have hnil : (encodeFields fields ++ []).length ≤ 255 := by rwa [append_nil]
  have hdec := decode_fields hnil hf (k + 1)
  rw [append_nil] at hdec
  rw [hdec, decodeFrom, if_neg (Nat.lt_irrefl _)]

/-! ## Messages that are cut off -/

/-- The message ends inside of the content of a field that is skipped. -/
def endsInSkipped (f : Field) (part : Bytes) : Bool :=
  match f.value with
  | .bytes len _ => f.number != 1 && f.number != 2 && f.tag.length + len.length ≤ part.length
  | _ => false

/-- A part of two strings ends in the first or in the second. -/
theorem append_cut {x y : Bytes} (h : x ++ y = part ++ cut) :
    (∃ p, part = x ++ p ∧ y = p ++ cut) ∨ ∃ q, q ≠ [] ∧ x = part ++ q ∧ cut = q ++ y := by
  rcases append_eq_append_iff.mp h with ⟨p, hp, hy⟩ | ⟨q, hx, hc⟩
  · exact .inl ⟨p, hp, hy⟩
  · by_cases hq : q = []
    · subst hq
      exact .inl ⟨[], by simpa using hx.symm, by simpa using hc.symm⟩
    · exact .inr ⟨q, hq, hx, hc⟩

/-- A turn at a length-delimited field with the bytes `p` of its value. -/
theorem turn_bytes_cut (hlen : body.length ≤ 255) (hat : AtTag body i f tag)
    (hv : f.value = .bytes len content) (hwf : Scanned len content.length) {p : Bytes}
    (hp : len ++ content = p ++ cut) (hcut : cut ≠ [])
    (hfits : i + 1 + len.length + content.length < 2 ^ 64) (hd : body.drop (i + 1) = p)
    (addons : Addons) :
    if f.number ≠ 1 ∧ f.number ≠ 2 ∧ len.length ≤ p.length then
      ∃ i', body.length ≤ i' ∧ turn body i addons = .goesOn i' addons
    else ∃ e, turn body i addons = .fails e := by
  have hi : i < body.length := (List.getElem?_eq_some_iff.mp hat.at_cursor).1
  have hl := congrArg List.length hd
  have hpos := length_pos_iff.mpr hcut
  rw [length_drop] at hl
  rw [turn_atTag hlen hat, hd]
  simp only [hv]
  rcases append_cut hp with ⟨c, rfl, hc⟩ | ⟨q, hq, hx, _⟩
  · have hcl := congrArg List.length hc
    rw [length_append] at hcl hl
    rw [readVarint_append hwf]
    simp only [onVarint, hwf.toNat]
    by_cases hknown : f.number = 1 ∨ f.number = 2
    · rw [if_pos hknown, if_neg (by omega), knownField_fits (by omega), if_pos (by omega)]
      exact ⟨_, rfl⟩
    · have hskip : wrappingAdd len.length content.length = len.length + content.length :=
        wrappingAdd_of_lt (by omega)
      have hle : len.length ≤ (len ++ c).length := by simp
      rw [if_neg hknown, if_pos ⟨by omega, by omega, hle⟩, hskip, wrappingAdd_of_lt (by omega)]
      exact ⟨_, by omega, rfl⟩
  · have hxl := congrArg List.length hx
    have := length_pos_iff.mpr hq
    rw [length_append] at hxl
    rw [readVarint_cut hwf hx hq, if_neg (by omega)]
    exact ⟨_, rfl⟩

/-- A turn at a field that is cut off. -/
theorem turn_cut (hlen : body.length ≤ 255) (h : IsByteField f) (hf : f.encode = part ++ cut)
    (hpart : part ≠ []) (hcut : cut ≠ []) (hfits : i + f.encode.length < 2 ^ 64)
    (hd : body.drop i = part) (addons : Addons) :
    if endsInSkipped f part then
      ∃ i', body.length ≤ i' ∧ turn body i addons = .goesOn i' addons
    else ∃ e, turn body i addons = .fails e := by
  obtain ⟨p, rfl, hp⟩ : ∃ p, part = f.tag ++ p ∧ f.value.encode = p ++ cut := by
    rcases append_cut hf with hp | ⟨q, hq, hx, _⟩
    · exact hp
    · -- the tag is one byte, and that one is there
      have hxl := congrArg List.length hx
      have := length_pos_iff.mpr hq
      have := length_pos_iff.mpr hpart
      rw [length_append, h.tag_length] at hxl
      omega
  obtain ⟨tag, hat, hrest⟩ := atTag h hd
  have hscans := h.value
  cases hv : f.value with
  | varint raw =>
    rw [hv] at hp hscans
    obtain ⟨n, hn⟩ := hscans
    rw [turn_atTag hlen hat, hrest]
    simp only [hv, readVarint_cut hn hp hcut, endsInSkipped]
    exact ⟨_, rfl⟩
  | fixed64 raw | fixed32 raw =>
    rw [turn_fixed hlen hat (by simp [isFixed, hv])]
    simp only [endsInSkipped, hv]
    exact ⟨_, rfl⟩
  | bytes len content =>
    rw [hv] at hp hscans
    rw [Field.encode, hv, Value.encode, length_append, length_append, h.tag_length] at hfits
    have := turn_bytes_cut hlen hat hv hscans hp hcut (by omega) hrest addons
    simp only [endsInSkipped, hv, length_append, Nat.add_le_add_iff_left, bne_iff_ne,
      Bool.and_eq_true, decide_eq_true_eq, and_assoc]
    exact this

end

section

variable {fields : List Field} {f : Field} {fuel i : Nat} {addons addons' : Addons} {body : Bytes}

/-- A message that is cut off inside of a further field. -/
theorem decode_cut {part cut : Bytes} (hlen : (encodeFields fields ++ part).length ≤ 255)
    (hf : ∀ f ∈ fields, IsRead f) (h : IsByteField f) (henc : f.encode = part ++ cut)
    (hpart : part ≠ []) (hcut : cut ≠ [])
    (hfits : (encodeFields fields).length + f.encode.length < 2 ^ 64)
    (hfuel : fields.length + 1 < fuel) :
    if fields.any isFixed = false ∧ endsInSkipped f part = true then
      decodeAddonsBody fuel (encodeFields fields ++ part) =
        some (.returned (.ok (fields.foldl store .default)))
    else ∃ e, decodeAddonsBody fuel (encodeFields fields ++ part) =
      some (.returned (.error e)) := by
  obtain ⟨k, rfl⟩ : ∃ k, fuel = fields.length + (k + 2) := ⟨fuel - fields.length - 2, by omega⟩
  have hi : (encodeFields fields).length < (encodeFields fields ++ part).length := by
    have := length_pos_iff.mpr hpart
    rw [length_append]
    omega
  have hturn := turn_cut hlen h henc hpart hcut hfits drop_left (fields.foldl store .default)
  rw [decode_fields hlen hf]
  cases fields.any isFixed with
  | true => exact ⟨_, rfl⟩
  | false =>
    simp only [Bool.false_eq_true, if_false, true_and]
    rw [decodeFrom, if_pos hi]
    by_cases hskip : endsInSkipped f part = true
    · rw [if_pos hskip] at hturn ⊢
      obtain ⟨i', hend, ht⟩ := hturn
      rw [ht]
      show decodeFrom _ (k + 1) i' _ = _
      rw [decodeFrom, if_neg (by omega)]
    · rw [if_neg hskip] at hturn ⊢
      obtain ⟨e, ht⟩ := hturn
      rw [ht]
      exact ⟨e, rfl⟩

theorem store_last (hf : IsRead f) (addons : Addons) :
    (store addons f).flow.val =
        (if f.number = 1 then f.content?.getD addons.flow.val else addons.flow.val) ∧
      (store addons f).seed =
        (if f.number = 2 then f.content?.getD addons.seed else addons.seed) := by
  cases hv : f.value with
  | bytes len content =>
    have hflow := hf.flow
    by_cases h1 : f.number = 1
    · have hutf8 : validUtf8 content = true := by simpa [flowIsText, hv, h1] using hflow
      simp [store, Field.content?, hv, h1, hutf8]
    · by_cases h2 : f.number = 2
      · simp [store, Field.content?, hv, h2]
      · simp [store, hv, h1, h2]
  | varint raw | fixed64 raw | fixed32 raw => simp [store, Field.content?, hv]

/-- The fields that are stored are the last ones. -/
theorem foldl_store (hf : ∀ f ∈ fields, IsRead f) (addons : Addons) :
    (fields.foldl store addons).flow.val =
        fields.foldl (fun last f => if f.number = 1 then f.content?.getD last else last)
          addons.flow.val ∧
      (fields.foldl store addons).seed =
        fields.foldl (fun last f => if f.number = 2 then f.content?.getD last else last)
          addons.seed := by
  induction fields generalizing addons with
  | nil => exact ⟨rfl, rfl⟩
  | cons f fields ih =>
    have htail := ih (fun f hm => hf f (mem_cons_of_mem _ hm)) (store addons f)
    have hstep := store_last (hf f (mem_cons_self ..)) addons
    rw [hstep.1, hstep.2] at htail
    exact htail

/-! ## Readings -/

/-- The body is the fields `read`, with tags of one byte and without fields of a fixed size, and
perhaps a field that is skipped and whose content is cut off. -/
structure Reading (body : Bytes) (read : List Field) : Prop where
  fields : ∀ f ∈ read, IsRead f ∧ isFixed f = false
  bytes : ∃ part, body = encodeFields read ++ part ∧ (part = [] ∨ ∃ f cut, IsByteField f ∧
    f.encode = part ++ cut ∧ part ≠ [] ∧ cut ≠ [] ∧ f.encode.length + 255 < 2 ^ 64 ∧
    endsInSkipped f part = true)

/-- No length behind a byte with the wire type of bytes takes the cursor to the end of `usize`. -/
def NoWrap (body : Bytes) : Prop :=
  ∀ (i : Nat) tag v adv, body[i]? = some tag → tag &&& 0x7 = 2 →
    readVarint (body.drop (i + 1)) = some (v, adv) → v.toNat + 512 < 2 ^ 64

/-- Where a turn goes on there is a field, and perhaps the end of its content is cut off. -/
theorem field_of_goesOn (hlen : body.length ≤ 255) (hwrap : NoWrap body) {i' : Nat}
    (hi : i < body.length) (h : turn body i addons = .goesOn i' addons') :
    ∃ f, IsByteField f ∧ isFixed f = false ∧ ((∃ rest, body.drop i = f.encode ++ rest) ∨
      ∃ cut, f.encode = body.drop i ++ cut ∧ cut ≠ [] ∧ f.encode.length + 255 < 2 ^ 64) := by
  obtain ⟨tag, htag⟩ : ∃ tag, body[i]? = some tag := ⟨_, getElem?_eq_getElem hi⟩
  have hdrop : body.drop i = tag :: body.drop (i + 1) := by
    rw [drop_eq_getElem_cons hi, getElem?_eq_getElem hi] at *
    rw [Option.some.inj htag]
  cases hv : readVarint (body.drop (i + 1)) with
  | none => simp [turn_eq hlen htag, hv, onVarint] at h
  | some r =>
    obtain ⟨v, adv⟩ := r
    obtain ⟨raw, rest, hraw, hscanned, rfl⟩ := readVarint_found hv
    rw [hraw] at hdrop
    by_cases h2 : tag &&& 0x7 = 2
    · have htag2 : tag.toNat = tag.toNat / 8 * 8 + 2 := by
        have : tag.toNat % 8 = 2 := wire_eq.mp h2
        omega
      by_cases hend : v.toNat ≤ rest.length
      · refine ⟨⟨_, [tag], .bytes raw (rest.take v.toNat)⟩, ⟨⟨tag, rfl, htag2⟩, ?_⟩, rfl,
          .inl ⟨rest.drop v.toNat, ?_⟩⟩
        · rw [← length_take_of_le hend] at hscanned
          exact hscanned
        · simp [hdrop, Field.encode, Value.encode]
      · have hlong : (rest ++ List.replicate (v.toNat - rest.length) 0).length = v.toNat := by
          rw [length_append, length_replicate]
          omega
        have hfits := hwrap i tag v _ htag h2 hv
        have := hscanned.length
        rw [← hlong] at hscanned
        refine ⟨⟨_, [tag], .bytes raw _⟩, ⟨⟨tag, rfl, htag2⟩, hscanned⟩, rfl,
          .inr ⟨List.replicate (v.toNat - rest.length) 0, ?_, ?_, ?_⟩⟩
        · simp [hdrop, Field.encode, Value.encode]
        · exact ne_nil_of_length_pos (by rw [length_replicate]; omega)
        · rw [Field.encode, Value.encode, length_append, length_append, hlong, length_singleton]
          omega
    · have hk : ¬ isKnown tag = true := fun hk => h2 (isKnown_wire hk)
      by_cases h0 : tag &&& 0x7 = 0
      · have htag0 : tag.toNat = tag.toNat / 8 * 8 + 0 := by
          have : tag.toNat % 8 = 0 := wire_eq.mp h0
          omega
        exact ⟨⟨_, [tag], .varint raw⟩, ⟨⟨tag, rfl, htag0⟩, _, hscanned⟩, rfl, .inl ⟨rest, hdrop⟩⟩
      · rw [turn_eq hlen htag, if_neg hk, if_neg h0, if_neg h2] at h
        cases h

/-- What the loop accepts from a cursor on has a reading. -/
theorem reading_of_decodeFrom (hlen : body.length ≤ 255) (hwrap : NoWrap body)
    (h : decodeFrom body fuel i addons = some (.returned (.ok addons'))) :
    ∃ read, Reading (body.drop i) read ∧ addons' = read.foldl store addons := by
  induction fuel generalizing i addons with
  | zero => cases h
  | succ fuel ih =>
    rw [decodeFrom] at h
    by_cases hend : i < body.length
    · rw [if_pos hend] at h
      cases ht : turn body i addons with
      | fails e | panics => rw [ht] at h; cases h
      | goesOn i' next =>
        rw [ht] at h
        obtain ⟨f, hf, hfixed, ⟨rest, hd⟩ | ⟨cut, henc, hcut, hfits⟩⟩ :=
          field_of_goesOn hlen hwrap hend ht
        · rw [turn_field hlen hf hfixed hd] at ht
          by_cases htext : flowIsText f = true
          · rw [if_pos htext] at ht
            cases ht
            obtain ⟨read, ⟨hread, part, hpart, hrest⟩, rfl⟩ := ih h
            rw [← drop_drop, hd, drop_left] at hpart
            refine ⟨f :: read, ⟨?_, part, ?_, hrest⟩, rfl⟩
            · exact forall_mem_cons.mpr ⟨⟨⟨hf, htext⟩, hfixed⟩, hread⟩
            · rw [hd, hpart, encodeFields_cons, append_assoc]
          · rw [if_neg htext] at ht
            cases ht
        · have hne : body.drop i ≠ [] := fun hnil => by
            have := drop_eq_nil_iff.mp hnil
            omega
          have hturn := turn_cut hlen hf henc hne hcut (by omega) rfl addons
          by_cases hskip : endsInSkipped f (body.drop i) = true
          · -- the cursor is behind the end
            rw [if_pos hskip, ht] at hturn
            obtain ⟨_, hi', ⟨⟩⟩ := hturn
            have hstop : decodeFrom body fuel i' addons = some (.returned (.ok addons')) := h
            cases fuel with
            | zero => cases hstop
            | succ fuel =>
              rw [decodeFrom, if_neg (by omega)] at hstop
              cases hstop
              refine ⟨[], ⟨forall_mem_nil _, _, rfl, .inr ?_⟩, rfl⟩
              exact ⟨f, cut, hf, henc, hne, hcut, hfits, hskip⟩
          · rw [if_neg hskip, ht] at hturn
            obtain ⟨_, ⟨⟩⟩ := hturn
    · rw [if_neg hend] at h
      cases h
      have hnil : body.drop i = [] := drop_of_length_le (by omega)
      exact ⟨[], ⟨forall_mem_nil _, [], hnil, .inl rfl⟩, rfl⟩

theorem length_le_encodeFields {read : List Field} (h : ∀ f ∈ read, IsByteField f) :
    read.length ≤ (encodeFields read).length := by
  induction read with
  | nil => exact Nat.le_refl 0
  | cons f read ih =>
    have := ih fun f hm => h f (mem_cons_of_mem _ hm)
    have htag := (h f (mem_cons_self ..)).tag_length
    rw [encodeFields_cons, length_append, Field.encode, length_append, length_cons]
    omega

/-- **Acceptance.** The decoder accepts the bodies with a reading, and gives the last flow and the
last seed of it. -/
theorem decode_ok_iff (hlen : body.length ≤ 255) (hwrap : NoWrap body)
    (hfuel : body.length < fuel) (addons : Addons) :
    decodeAddonsBody fuel body = some (.returned (.ok addons)) ↔
      ∃ read, Reading body read ∧ addons = read.foldl store .default := by
  constructor
  · exact reading_of_decodeFrom hlen hwrap
  · rintro ⟨read, ⟨hread, part, rfl, hpart⟩, rfl⟩
    have hfields : ∀ f ∈ read, IsRead f := fun f hm => (hread f hm).1
    have hfixed : read.any isFixed = false :=
      any_eq_false.mpr fun f hm => by simp [(hread f hm).2]
    have hcount := length_le_encodeFields fun f hm => (hfields f hm).toIsByteField
    rw [length_append] at hfuel
    rcases hpart with rfl | ⟨f, cut, hf, henc, hne, hcut, hfits, hskip⟩
    · rw [append_nil] at hlen ⊢
      rw [decode_message hlen hfields (by omega), hfixed, if_neg Bool.false_ne_true]
    · have := length_pos_iff.mpr hne
      have hturns : read.length + 1 < fuel := by omega
      rw [length_append] at hlen
      have hdec := decode_cut (by rwa [length_append]) hfields hf henc hne hcut (by omega)
        hturns
      rwa [if_pos ⟨hfixed, hskip⟩] at hdec

/-- Without lengths that wrap the decoder returns. -/
theorem decode_returns (hlen : body.length ≤ 255) (hwrap : NoWrap body)
    (hfuel : body.length < fuel) : ∃ r, decodeAddonsBody fuel body = some (.returned r) := by
  refine decodeFrom_returns (fun i addons _ hi => (advances_iff hlen hi addons).mpr ?_) .start
    (by omega) hfuel
  intro tag v adv htag hwire hv
  have hfits := hwrap i tag v adv htag hwire hv
  have hadv := (readVarint_length hv).2
  rw [length_drop] at hadv
  exact .inl (by omega)

end

/-- **The grammar.** For every message of `Addons` whose tags are one byte, with any fields in any
order: the decoder gives the last flow and the last seed, unless there is a field of a fixed size,
which it refuses. A message that is cut off inside of a field is refused, unless the cut is inside
of the content of a field that is skipped. With tags of any length, a message is decoded right
exactly if it has a reading with the same flow and the same seed, and one that is cut off is refused
exactly if it has no reading. -/
theorem addons_grammar (fields : List Field) (hf : ∀ f ∈ fields, IsAddonsField f) :
    ((∀ f ∈ fields, f.tag.length = 1) → (encodeFields fields).length ≤ 255 →
      ∀ fuel, fields.length < fuel →
        if fields.any isFixed then
          decodeAddonsBody fuel (encodeFields fields) = some (.returned (.error .badWire))
        else ∃ addons, decodeAddonsBody fuel (encodeFields fields) = some (.returned (.ok addons)) ∧
          addons.flow.val = lastOf 1 fields ∧ addons.seed = lastOf 2 fields) ∧
    ((∀ f ∈ fields, f.tag.length = 1) → ∀ f part cut, f.WellFormed → f.tag.length = 1 →
      f.encode = part ++ cut → part ≠ [] → cut ≠ [] → f.encode.length + 255 < 2 ^ 64 →
      (encodeFields fields ++ part).length ≤ 255 → ∀ fuel, fields.length + 1 < fuel →
        if fields.any isFixed = false ∧ endsInSkipped f part = true then
          ∃ addons, decodeAddonsBody fuel (encodeFields fields ++ part) =
            some (.returned (.ok addons))
        else ∃ e, decodeAddonsBody fuel (encodeFields fields ++ part) =
          some (.returned (.error e))) ∧
    ((encodeFields fields).length ≤ 255 → NoWrap (encodeFields fields) →
      ∀ fuel, (encodeFields fields).length < fuel →
        ((∃ addons, decodeAddonsBody fuel (encodeFields fields) = some (.returned (.ok addons)) ∧
            addons.flow.val = lastOf 1 fields ∧ addons.seed = lastOf 2 fields) ↔
          ∃ read, Reading (encodeFields fields) read ∧ lastOf 1 read = lastOf 1 fields ∧
            lastOf 2 read = lastOf 2 fields)) ∧
    ∀ (f : Field) (part cut : Bytes), f.WellFormed → f.encode = part ++ cut → part ≠ [] →
      cut ≠ [] → (encodeFields fields ++ part).length ≤ 255 →
      NoWrap (encodeFields fields ++ part) → ∀ fuel, (encodeFields fields ++ part).length < fuel →
        ((∃ e, decodeAddonsBody fuel (encodeFields fields ++ part) =
            some (.returned (.error e))) ↔
          ¬ ∃ read, Reading (encodeFields fields ++ part) read) := by
  refine ⟨fun htags hlen fuel hfuel => ?_, fun htags f part cut hwf htag henc hpart hcut hfits hlen
    fuel hfuel => ?_, fun hlen hwrap fuel hfuel => ?_, fun f part cut _ _ _ _ hlen hwrap fuel
    hfuel => ?_⟩
  · have hread : ∀ f ∈ fields, IsRead f := fun f hm => (hf f hm).isRead (htags f hm)
    rw [decode_message hlen hread hfuel]
    cases fields.any isFixed with
    | true => rfl
    | false => exact ⟨fields.foldl store .default, rfl, foldl_store hread .default⟩
  · have hread : ∀ f ∈ fields, IsRead f := fun f hm => (hf f hm).isRead (htags f hm)
    have hle : (encodeFields fields).length ≤ 255 := by
      rw [length_append] at hlen
      omega
    have hdec := decode_cut hlen hread (isByteField_of_tag hwf htag) henc hpart hcut (by omega)
      hfuel
    split at hdec
    case isTrue h => exact (if_pos h).mpr ⟨_, hdec⟩
    case isFalse h => exact (if_neg h).mpr hdec
  · constructor
    · rintro ⟨addons, hdec, hflow, hseed⟩
      obtain ⟨read, hread, rfl⟩ := (decode_ok_iff hlen hwrap hfuel addons).mp hdec
      have hlast := foldl_store (fun f hm => (hread.fields f hm).1) .default
      exact ⟨read, hread, hlast.1.symm.trans hflow, hlast.2.symm.trans hseed⟩
    · rintro ⟨read, hread, hflow, hseed⟩
      have hlast := foldl_store (fun f hm => (hread.fields f hm).1) .default
      exact ⟨_, (decode_ok_iff hlen hwrap hfuel _).mpr ⟨read, hread, rfl⟩,
        hlast.1.trans hflow, hlast.2.trans hseed⟩
  · obtain ⟨r, hr⟩ := decode_returns hlen hwrap hfuel
    have hok := decode_ok_iff hlen hwrap hfuel
    constructor
    · rintro ⟨e, he⟩ ⟨read, hread⟩
      cases he.symm.trans ((hok _).mpr ⟨read, hread, rfl⟩)
    · intro hnone
      cases r with
      | error e => exact ⟨e, hr⟩
      | ok addons =>
        obtain ⟨read, hread, _⟩ := (hok addons).mp hr
        exact absurd ⟨read, hread⟩ hnone

/-- A flow, a varint and a seed. -/
def sampleFields : List Field :=
  [⟨1, [0x0a], .bytes [0x02] [0x68, 0x69]⟩, ⟨5, [0x28], .varint [0x96, 0x01]⟩,
    ⟨2, [0x12], .bytes [0x01] [0x07]⟩]

theorem isAddonsField_sample : ∀ f ∈ sampleFields, IsAddonsField f := by
  have hflow : IsVarint [0x02] 2 := by decide
  have hvarint : IsVarint [0x96, 0x01] 150 := by decide
  have hseed : IsVarint [0x01] 1 := by decide
  simp only [sampleFields, forall_mem_cons, not_mem_nil, false_imp_iff, implies_true, and_true]
  refine ⟨⟨⟨by decide, by decide, by decide, hflow⟩, fun _ => ⟨_, _, rfl, by decide⟩, nofun⟩,
    ⟨⟨by decide, by decide, by decide, ⟨_, hvarint⟩⟩, nofun, nofun⟩,
    ⟨⟨by decide, by decide, by decide, hseed⟩, nofun, fun _ => ⟨_, _, rfl⟩⟩⟩

/-- A field 16, whose tag has two bytes and whose varint is not of the shortest form. -/
def longTag : List Field := [⟨16, [0x80, 0x01], .varint [0x88, 0x00]⟩]

/-- The same bytes, taken as two fields. -/
theorem reading_longTag : Reading (encodeFields longTag)
    [⟨16, [0x80], .varint [0x01]⟩, ⟨17, [0x88], .varint [0x00]⟩] := by
  have hone : Scanned [0x01] 1 := ⟨rfl, by decide, rfl⟩
  have hzero : Scanned [0x00] 0 := ⟨rfl, by decide, rfl⟩
  refine ⟨?_, [], rfl, .inl rfl⟩
  simp only [forall_mem_cons, not_mem_nil, false_imp_iff, implies_true, and_true]
  exact ⟨⟨⟨⟨⟨0x80, rfl, rfl⟩, _, hone⟩, rfl⟩, rfl⟩, ⟨⟨⟨⟨0x88, rfl, rfl⟩, _, hzero⟩, rfl⟩, rfl⟩⟩

theorem addons_grammar_sample :
    (∃ addons, decodeAddonsBody 4 (encodeFields sampleFields) = some (.returned (.ok addons)) ∧
      addons.flow.val = [0x68, 0x69] ∧ addons.seed = [0x07]) ∧
    ∃ addons, decodeAddonsBody 5 [0x80, 0x01, 0x88, 0x00] = some (.returned (.ok addons)) ∧
      addons.flow.val = [] ∧ addons.seed = [] := by
  have hvarint : IsVarint [0x88, 0x00] 8 := by decide
  have hlong : ∀ f ∈ longTag, IsAddonsField f := by
    rw [longTag, forall_mem_singleton]
    exact ⟨⟨by decide, by decide, by decide, ⟨_, hvarint⟩⟩, nofun, nofun⟩
  have hwrap : NoWrap (encodeFields longTag) := by
    intro i tag v adv htag hwire
    have hall : (encodeFields longTag).all (fun b => b &&& 0x7 != 2) = true := rfl
    exact absurd hwire (by simpa using all_eq_true.mp hall tag (mem_of_getElem? htag))
  exact ⟨(addons_grammar sampleFields isAddonsField_sample).1 (by decide) (by decide) 4 (by decide),
    ((addons_grammar longTag hlong).2.2.1 (by decide) hwrap 5 (by decide)).mpr
      ⟨_, reading_longTag, rfl, rfl⟩⟩

/-- A field 3 of four bytes, with its tag. -/
def fixedField : Field := ⟨3, [0x1d], .fixed32 ⟨[0, 0, 0, 0], rfl⟩⟩

/-- An unknown field of four bytes is refused. Of an unknown field of five bytes the tag and the
length are enough. A tag of two bytes (field 16) is taken for two tags. -/
theorem fixed_field_rejected :
    fixedField.WellFormed ∧
    decodeAddonsBody 2 (encodeFields [fixedField]) = some (.returned (.error .badWire)) ∧
    decodeAddonsBody 2 [0x1a, 0x05] = some (.returned (.ok .default)) ∧
    IsVarint [0x80, 0x01] (16 * 8) ∧
    decodeAddonsBody 3 [0x80, 0x01, 0x02] = some (.returned (.error .badWire)) :=
  ⟨⟨by decide, by decide, by decide, trivial⟩, rfl, rfl, by decide, rfl⟩

end Xhttp.Vless
