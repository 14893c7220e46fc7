import RustXhttp.Lib.Bytes

/-!
# Texts

A `str` is its bytes, so the methods of `str` that take an ASCII character are functions of
bytes: `str::split` is `List.splitOn`, `starts_with` is `List.isPrefixOf`.

`IsNumber s n`: `s` is a number in base ten without a sign that fits into 64 bits.
`parseU64_eq_some`: what `parse::<u64>()` accepts is such a number, or one after a plus sign.
-/

namespace Xhttp

open List

/-- `split_once`. -/
def splitOnce (sep : UInt8) (s : Bytes) : Option (Bytes × Bytes) :=
  match s.span (· != sep) with
  | (k, _ :: v) => some (k, v)
  | (_, []) => none

/-- `split(sep).next()`. -/
def firstSegment (sep : UInt8) (s : Bytes) : Bytes := (s.splitOn sep).headD s

/-- `strip_prefix`. -/
def stripPrefix (base s : Bytes) : Option Bytes :=
  if base.isPrefixOf s then some (s.drop base.length) else none

/-- `strip_suffix` of one character. -/
def stripSuffix (b : UInt8) (s : Bytes) : Option Bytes :=
  if s.getLast? = some b then some s.dropLast else none

/-- `contains`. -/
def containsText : Bytes → Bytes → Bool
  | [], text => text.isEmpty
  | b :: s, text => text.isPrefixOf (b :: s) || containsText s text

def asciiLower (b : UInt8) : UInt8 := if 65 ≤ b ∧ b ≤ 90 then b + 32 else b

/-- `to_ascii_lowercase`. -/
def lowercase (s : Bytes) : Bytes := s.map asciiLower

def eqIgnoreAsciiCase (s t : Bytes) : Bool := lowercase s == lowercase t

/-- `trim` of a text without line breaks and without characters beyond ASCII. -/
def trimBlank (s : Bytes) : Bytes :=
  let blank := fun b : UInt8 => b == 32 || b == 9
  ((s.dropWhile blank).reverse.dropWhile blank).reverse

/-- The decimal digits of `n`. -/
def decimal (n : Nat) : Bytes := ascii (toString n)

/-- The digits of `parse::<u64>()`, after `acc`. -/
def parseDigits : Nat → Bytes → Option Nat
  | acc, [] => some acc
  | acc, b :: rest =>
    if 48 ≤ b ∧ b ≤ 57 then
      let acc' := acc * 10 + (b - 48).toNat
      if acc' < 18446744073709551616 then parseDigits acc' rest else none
    else none

/-- `parse::<u64>()`: digits, with an optional plus sign in front. -/
def parseU64 : Bytes → Option Nat
  | [] => none
  | 43 :: [] => none
  | 43 :: rest => parseDigits 0 rest
  | s => parseDigits 0 s

/-- `parse::<u16>()`. The text of a smaller number has no part that is a larger one. -/
def parseU16 (s : Bytes) : Option Nat := (parseU64 s).filter (· < 65536)

/-- `parse::<u32>()`. -/
def parseU32 (s : Bytes) : Option Nat := (parseU64 s).filter (· < 4294967296)

/-! ## Numbers -/

/-- The value of digits after `acc`. -/
def decimalFrom (acc : Nat) (s : Bytes) : Nat :=
  s.foldl (fun acc b => acc * 10 + (b - 48).toNat) acc

structure IsNumber (s : Bytes) (n : Nat) : Prop where
  nonempty : s ≠ []
  digits : ∀ b ∈ s, 48 ≤ b ∧ b ≤ 57
  value : decimalFrom 0 s = n
  fits : n < 18446744073709551616

theorem le_decimalFrom (acc : Nat) (s : Bytes) : acc ≤ decimalFrom acc s := by
  induction s generalizing acc with
  | nil => exact Nat.le_refl acc
  | cons b s ih =>
    have := ih (acc * 10 + (b - 48).toNat)
    rw [decimalFrom, foldl_cons]
    show acc ≤ decimalFrom (acc * 10 + (b - 48).toNat) s
    omega

section

variable {s : Bytes} {n : Nat}

theorem parseDigits_eq_some {acc : Nat} (hacc : acc < 18446744073709551616) :
    parseDigits acc s = some n ↔
      (∀ b ∈ s, 48 ≤ b ∧ b ≤ 57) ∧ decimalFrom acc s = n ∧ n < 18446744073709551616 := by
  induction s generalizing acc with
  | nil =>
    constructor
    · rintro ⟨⟩
      exact ⟨nofun, rfl, hacc⟩
    · rintro ⟨_, rfl, _⟩
      rfl
  | cons b s ih =>
    have hfold : decimalFrom acc (b :: s) = decimalFrom (acc * 10 + (b - 48).toNat) s := rfl
    rw [parseDigits, forall_mem_cons, hfold]
    by_cases hb : 48 ≤ b ∧ b ≤ 57
    · rw [if_pos hb]
      by_cases hfits : acc * 10 + (b - 48).toNat < 18446744073709551616
      · rw [if_pos hfits, ih hfits]
        exact ⟨fun ⟨hd, hv⟩ => ⟨⟨hb, hd⟩, hv⟩, fun ⟨hd, hv⟩ => ⟨hd.2, hv⟩⟩
      · -- the value only grows with more digits
        rw [if_neg hfits]
        refine ⟨nofun, fun ⟨_, hv, hn⟩ => ?_⟩
        have := le_decimalFrom (acc * 10 + (b - 48).toNat) s
        omega
    · rw [if_neg hb]
      exact ⟨nofun, fun h => absurd h.1.1 hb⟩

theorem parseDigits_eq_some_iff_isNumber (hs : s ≠ []) :
    parseDigits 0 s = some n ↔ IsNumber s n := by
  rw [parseDigits_eq_some (by decide)]
  exact ⟨fun ⟨hd, hv, hf⟩ => ⟨hs, hd, hv, hf⟩, fun h => ⟨h.digits, h.value, h.fits⟩⟩

theorem not_isNumber_plus : ¬ IsNumber (43 :: s) n := by
  intro h
  exact absurd (h.digits 43 (mem_cons_self ..)).1 (by decide)

theorem parseU64_eq_some :
    parseU64 s = some n ↔ IsNumber s n ∨ ∃ t, s = 43 :: t ∧ IsNumber t n := by
  unfold parseU64
  split
  · exact ⟨nofun, fun h => h.elim (fun h => absurd rfl h.nonempty) (fun ⟨_, h, _⟩ => nomatch h)⟩
  · refine ⟨nofun, fun h => h.elim (fun h => absurd h not_isNumber_plus) ?_⟩
    rintro ⟨_, ⟨⟩, h⟩
    exact absurd rfl h.nonempty
  case h_3 rest hrest =>
    rw [parseDigits_eq_some_iff_isNumber fun h => hrest h]
    constructor
    · exact fun h => .inr ⟨rest, rfl, h⟩
    · rintro (h | ⟨_, ⟨⟩, h⟩)
      · exact absurd h not_isNumber_plus
      · exact h
  case h_4 hnil _ hplus =>
    rw [parseDigits_eq_some_iff_isNumber fun h => hnil h]
    exact ⟨.inl, fun h => h.elim id fun ⟨t, ht, _⟩ => (hplus t ht).elim⟩

theorem stripPrefix_append (base s : Bytes) : stripPrefix base (base ++ s) = some s := by
  rw [stripPrefix, if_pos (by simp), drop_left]

/-! ## Digits of a number -/

theorem decimal_eq (n : Nat) :
    decimal n = (Nat.toDigits 10 n).map fun c => UInt8.ofNat c.toNat := by
  rw [decimal, ascii, Nat.toString_eq_ofList_toDigits, String.toList_ofList]

theorem digit_byte {c : Char} (h : c ∈ Nat.toDigits 10 n) :
    (UInt8.ofNat c.toNat).toNat = c.toNat ∧ 48 ≤ c.toNat ∧ c.toNat ≤ 57 := by
  have hdigit : 48 ≤ c.toNat ∧ c.toNat ≤ 57 :=
    Char.isDigit_iff_toNat.mp (Nat.isDigit_of_mem_toDigits (by decide) (by decide) h)
  exact ⟨UInt8.toNat_ofNat_of_lt' (show c.toNat < 256 by omega), hdigit⟩

theorem mem_decimal {b : UInt8} (h : b ∈ decimal n) : 48 ≤ b ∧ b ≤ 57 := by
  rw [decimal_eq] at h
  obtain ⟨c, hc, rfl⟩ := mem_map.mp h
  obtain ⟨hnat, hdigit⟩ := digit_byte hc
  rw [UInt8.le_iff_toNat_le, UInt8.le_iff_toNat_le, hnat]
  exact hdigit

theorem decimal_injective {m : Nat} (h : decimal n = decimal m) : n = m := by
  -- the digits are read back from the bytes
  have hback : ∀ k, (decimal k).map (fun b => Char.ofNat b.toNat) = Nat.toDigits 10 k := by
    intro k
    rw [decimal_eq, map_map]
    refine (map_congr_left fun c hc => ?_).trans (map_id _)
    show Char.ofNat (UInt8.ofNat c.toNat).toNat = c
    rw [(digit_byte hc).1, Char.ofNat_toNat]
  have hdigits : Nat.toDigits 10 n = Nat.toDigits 10 m := by rw [← hback n, h, hback m]
  rw [← @Nat.ofDigitChars_ten_toDigits n, hdigits, Nat.ofDigitChars_ten_toDigits]

end

theorem lowercase_append (s t : Bytes) : lowercase (s ++ t) = lowercase s ++ lowercase t :=
  map_append

theorem lowercase_decimal (n : Nat) : lowercase (decimal n) = decimal n := by
  refine (map_congr_left fun b hb => if_neg fun hupper => ?_).trans (map_id _)
  have hle : (65 : UInt8) ≤ 57 := UInt8.le_trans hupper.1 (mem_decimal hb).2
  exact absurd hle (by decide)

end Xhttp
