import RustXhttp.Lib.Utf8
import RustXhttp.Origin.Xhttp

/-!
# The two padding checks (`src/xhttp/padding.rs`)

The request path only counts the bytes of the decoded padding (`extractPaddingLen`). The reference
check builds the padding with a decoder of its own (`percentDecode`), which ends in a lossy
conversion to UTF-8, and takes the length of that text as a `u32`.

* `length_percentBytes`: the two decoders agree on the number of bytes.
* `padding_checks_agree_iff`: the two checks agree for all ranges exactly if the decoded bytes are
  fewer than `2 ^ 32` and the replacement of their ill-formed parts adds nothing modulo `2 ^ 32`, as
  it does for bytes that are UTF-8.
* `escaped_byte_grows`: the padding `%FF` is one byte, and three after the conversion.
-/

namespace Xhttp.Http

/-! ## The reference check -/

/-- `char::to_digit(16)` of a byte. -/
def toDigit16 (b : UInt8) : Option Nat :=
  if 48 ≤ b ∧ b ≤ 57 then some (b.toNat - 48)
  else if 97 ≤ b ∧ b ≤ 102 then some (b.toNat - 97 + 10)
  else if 65 ≤ b ∧ b ≤ 70 then some (b.toNat - 65 + 10)
  else none

/-- The loop of `percent_decode`. -/
def percentBytes : Bytes → Bytes
  | [] => []
  | b :: h :: l :: rest =>
    if b = 37 then
      match toDigit16 h, toDigit16 l with
      | some hi, some lo => UInt8.ofNat (hi * 16 + lo) :: percentBytes rest
      | _, _ => 37 :: percentBytes (h :: l :: rest)
    else (if b = 43 then 32 else b) :: percentBytes (h :: l :: rest)
  | b :: rest => (if b = 43 then 32 else b) :: percentBytes rest

def percentDecode (s : Bytes) : Bytes := fromUtf8Lossy (percentBytes s)

def queryParam (query key : Bytes) : Option Bytes := (queryParamRef query key).map percentDecode

def queryValue (url key : Bytes) : Option Bytes := (queryValueRef url key).map percentDecode

def extractPadding (headers : HeaderMap) (uri : Uri) : Bytes :=
  match (headers.get (ascii "referer")).bind toStr with
  | some (b :: referer) => (queryValue (b :: referer) (ascii "x_padding")).getD []
  | _ =>
    match uri.query with
    | some q => (queryParam q (ascii "x_padding")).getD []
    | none => []

def isPaddingValid (value : Bytes) (paddingFrom paddingTo : Nat) : Bool :=
  if value.isEmpty then false
  else
    let n := value.length % 2 ^ 32
    paddingFrom ≤ n && n ≤ paddingTo

/-! ## One lookup, two decoders -/

/-- The padding before it is decoded. -/
def rawPadding (headers : HeaderMap) (uri : Uri) : Option Bytes :=
  match (headers.get (ascii "referer")).bind toStr with
  | some (b :: referer) => queryValueRef (b :: referer) (ascii "x_padding")
  | _ => uri.query.bind fun query => queryParamRef query (ascii "x_padding")

theorem extractPaddingLen_eq (headers : HeaderMap) (uri : Uri) :
    extractPaddingLen headers uri = (rawPadding headers uri).map percentDecodedLen := by
  unfold extractPaddingLen rawPadding
  rcases (headers.get (ascii "referer")).bind toStr with _ | _ | _ <;> rfl

theorem extractPadding_eq (headers : HeaderMap) (uri : Uri) :
    extractPadding headers uri = ((rawPadding headers uri).map percentDecode).getD [] := by
  unfold extractPadding rawPadding
  rcases (headers.get (ascii "referer")).bind toStr with _ | _ | _
  · cases uri.query <;> rfl
  · cases uri.query <;> rfl
  · rfl

theorem isSome_toDigit16 (b : UInt8) : (toDigit16 b).isSome = (hexValue b).isSome := by
  unfold toDigit16 hexValue
  split
  · rfl
  · split
    · rfl
    · split <;> rfl

/-- The two decoders agree on what an escape is. -/
theorem length_percentBytes (s : Bytes) : (percentBytes s).length = percentDecodedLen s := by
  fun_induction percentBytes s with
  | case1 => rfl
  | case2 h l rest hi lo hl hh ih =>
    have hhex : (hexValue h).isSome ∧ (hexValue l).isSome := by
      rw [← isSome_toDigit16, ← isSome_toDigit16, hl, hh]
      exact ⟨rfl, rfl⟩
    rw [percentDecodedLen, if_pos ⟨rfl, hhex⟩, List.length_cons, ih, Nat.add_comm]
  | case3 h l rest hno ih =>
    have hhex : ¬ ((hexValue h).isSome ∧ (hexValue l).isSome) := by
      rw [← isSome_toDigit16, ← isSome_toDigit16]
      rintro ⟨hh, hl⟩
      obtain ⟨hi, hh⟩ := Option.isSome_iff_exists.mp hh
      obtain ⟨lo, hl⟩ := Option.isSome_iff_exists.mp hl
      exact hno hi lo hh hl
    rw [percentDecodedLen, if_neg fun h => hhex h.2, List.length_cons, ih, Nat.add_comm]
  | case4 b h l rest hb ih =>
    have hno : ¬ (b = 37 ∧ (hexValue h).isSome ∧ (hexValue l).isSome) := fun h => hb h.1
    rw [List.length_cons, ih, percentDecodedLen, if_neg hno, Nat.add_comm]
  | case5 b rest hshort ih =>
    rw [List.length_cons, ih, percentDecodedLen, Nat.add_comm]
    exact hshort

/-! ## The two checks -/

/-- The decoded bytes are fewer than `2 ^ 32`, and their ill-formed parts lack no byte to three
each, up to a multiple of `2 ^ 32`. -/
def LengthKept (headers : HeaderMap) (uri : Uri) : Prop :=
  ∀ raw, rawPadding headers uri = some raw →
    (percentBytes raw).length < 2 ^ 32 ∧ growth (illFormed (percentBytes raw)) % 2 ^ 32 = 0

theorem length_percentDecode_mod {raw : Bytes} :
    (percentDecode raw).length % 2 ^ 32 = (percentBytes raw).length ↔
      (percentBytes raw).length < 2 ^ 32 ∧ growth (illFormed (percentBytes raw)) % 2 ^ 32 = 0 := by
  rw [percentDecode, length_fromUtf8Lossy]
  omega

theorem isPaddingLenValid_iff {n a b : Nat} :
    isPaddingLenValid (some n) a b = true ↔ n ≠ 0 ∧ a ≤ n ∧ n ≤ b := by
  simp [isPaddingLenValid, and_assoc]

theorem isPaddingValid_iff {value : Bytes} {a b : Nat} :
    isPaddingValid value a b = true ↔
      value ≠ [] ∧ a ≤ value.length % 2 ^ 32 ∧ value.length % 2 ^ 32 ≤ b := by
  cases value with
  | nil => simp [isPaddingValid]
  | cons c value => simp [isPaddingValid]

/-- A length and a text pass the same ranges exactly if the length is that of the text. -/
theorem ranges_agree_iff {value : Bytes} {n : Nat} (hnil : value = [] ↔ n = 0) :
    (∀ a b : UInt32, a ≤ b →
      isPaddingLenValid (some n) a.toNat b.toNat = isPaddingValid value a.toNat b.toNat) ↔
    value.length % 2 ^ 32 = n := by
  constructor
  · intro h
    by_cases hv : value = []
    · rw [hnil.mp hv, hv]
      rfl
    · -- the range with the length of the text only
      let m := UInt32.ofNat (value.length % 2 ^ 32)
      have hm : m.toNat = value.length % 2 ^ 32 :=
        UInt32.toNat_ofNat_of_lt' (Nat.mod_lt _ (by decide))
      have hvalid : isPaddingValid value m.toNat m.toNat = true :=
        isPaddingValid_iff.mpr ⟨hv, Nat.le_of_eq hm, Nat.le_of_eq hm.symm⟩
      have hlen := (h m m (UInt32.le_refl m)).trans hvalid
      obtain ⟨_, hle, hge⟩ := isPaddingLenValid_iff.mp hlen
      omega
  · intro h a b _
    rw [Bool.eq_iff_iff, isPaddingLenValid_iff, isPaddingValid_iff, h]
    exact and_congr_left' (not_congr hnil.symm)

/-- **Agreement.** For all header maps and URIs, the two checks agree on every range exactly if the
padding has fewer than `2 ^ 32` bytes and its ill-formed parts together lack a multiple of `2 ^ 32`
to three bytes each. They lack nothing if the padding is UTF-8. -/
theorem padding_checks_agree_iff (headers : HeaderMap) (uri : Uri) :
    ((∀ paddingFrom paddingTo : UInt32, paddingFrom ≤ paddingTo →
        isPaddingLenValid (extractPaddingLen headers uri) paddingFrom.toNat paddingTo.toNat =
          isPaddingValid (extractPadding headers uri) paddingFrom.toNat paddingTo.toNat) ↔
      LengthKept headers uri) ∧
    ((∀ raw, rawPadding headers uri = some raw →
        validUtf8 (percentBytes raw) = true ∧ (percentBytes raw).length < 2 ^ 32) →
      LengthKept headers uri) := by
  constructor
  · rw [LengthKept, extractPaddingLen_eq, extractPadding_eq]
    cases hraw : rawPadding headers uri with
    | none => exact iff_of_true (fun _ _ _ => rfl) nofun
    | some raw =>
      have hnil : percentDecode raw = [] ↔ (percentBytes raw).length = 0 := by
        rw [← List.length_eq_zero_iff, percentDecode, length_fromUtf8Lossy, Nat.add_eq_zero_iff,
          and_iff_left_iff_imp, List.length_eq_zero_iff]
        intro h
        rw [h]
        rfl
      simp only [Option.map_some, Option.getD_some, Option.some.injEq, forall_eq',
        ← length_percentBytes]
      exact (ranges_agree_iff hnil).trans length_percentDecode_mod
  · intro h raw hraw
    obtain ⟨hutf8, hlt⟩ := h raw hraw
    rw [illFormed_of_valid hutf8]
    exact ⟨hlt, rfl⟩

/-- A request for `/` with the padding in its query. -/
def paddedUri (raw : String) : Uri :=
  ⟨none, some ⟨ascii "/", some (ascii "x_padding=" ++ ascii raw)⟩⟩

theorem padding_checks_agree_iff_plain :
    isPaddingLenValid (extractPaddingLen [] (paddedUri "X%58+")) 3 3 =
      isPaddingValid (extractPadding [] (paddedUri "X%58+")) 3 3 := by
  have hagree := padding_checks_agree_iff [] (paddedUri "X%58+")
  have hraw : rawPadding [] (paddedUri "X%58+") = some (ascii "X%58+") := by decide
  refine hagree.1.mpr (hagree.2 ?_) 3 3 (UInt32.le_refl 3)
  rintro raw h
  cases hraw.symm.trans h
  decide

/-- One byte that is no UTF-8 has three bytes after the conversion. -/
theorem escaped_byte_grows :
    isPaddingLenValid (extractPaddingLen [] (paddedUri "%FF")) 1 1 = true ∧
    isPaddingValid (extractPadding [] (paddedUri "%FF")) 1 1 = false := by
  decide

end Xhttp.Http
