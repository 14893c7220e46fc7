import RustXhttp.Lib.Bytes
import Mathlib.Data.List.Forall2

/-!
# Percent-encoding and paths of segments

`encode keep` writes the bytes that `keep` does not list as `%` and two hexadecimal digits, and
`decode allowed` reads a text back in which a byte may stand for itself only if it is `allowed`.
A path is a separator before each of its segments.

- `decode_encode`: an encoding reads back, whatever the bytes are.
- `joinPath_inj`: segments without the separator are read back from their path.
- `Spells allowed sep p cs`: the segments of the path `p` decode to `cs`. A path spells at most one
  list (`Spells.unique`), and the encodings of a list are one of its spellings (`spells_encode`).
-/

namespace Xhttp.Percent

open List Option

/-- The digit `n` in base sixteen, with capital letters. -/
def hexDigit (n : Nat) : UInt8 := if n < 10 then UInt8.ofNat (48 + n) else UInt8.ofNat (55 + n)

/-- The value of a digit in base sixteen, with letters of either case. -/
def digitValue (b : UInt8) : Option Nat :=
  if 48 ≤ b ∧ b ≤ 57 then some (b.toNat - 48)
  else if 65 ≤ b ∧ b ≤ 70 then some (b.toNat - 55)
  else if 97 ≤ b ∧ b ≤ 102 then some (b.toNat - 87)
  else none

theorem digitValue_hexDigit {n : Nat} (h : n < 16) : digitValue (hexDigit n) = some n := by
  decide +revert

/-! ## Encoding -/

section Encode

variable (keep allowed : UInt8 → Bool)

/-- One byte: itself, or a percent sign and its two digits. -/
def encodeByte (b : UInt8) : Bytes :=
  if keep b then [b] else [37, hexDigit (b.toNat / 16), hexDigit (b.toNat % 16)]

def encode (bytes : Bytes) : Bytes := bytes.flatMap (encodeByte keep)

def decode : Bytes → Option Bytes
  | [] => some []
  | c :: rest =>
    if c = 37 then
      match rest with
      | hi :: lo :: rest =>
        (digitValue hi).bind fun h => (digitValue lo).bind fun l =>
          (decode rest).map fun bytes => UInt8.ofNat (16 * h + l) :: bytes
      | _ => none
    else if allowed c then (decode rest).map fun bytes => c :: bytes
    else none

end Encode

section Laws

variable {keep allowed : UInt8 → Bool}

/-- A byte that stands for itself. -/
theorem decode_plain {c : UInt8} (hc : c ≠ 37) (rest : Bytes) :
    decode allowed (c :: rest) =
      if allowed c then (decode allowed rest).map fun bytes => c :: bytes else none := by
  conv => lhs; unfold decode
  rw [if_neg hc]

theorem decode_escape (hi lo : UInt8) (rest : Bytes) :
    decode allowed (37 :: hi :: lo :: rest) =
      (digitValue hi).bind fun h => (digitValue lo).bind fun l =>
        (decode allowed rest).map fun bytes => UInt8.ofNat (16 * h + l) :: bytes := by
  conv => lhs; unfold decode
  rw [if_pos rfl]

theorem encode_cons (b : UInt8) (bytes : Bytes) :
    encode keep (b :: bytes) = encodeByte keep b ++ encode keep bytes := rfl

/-- A byte reads back, whatever follows it. -/
theorem decode_encodeByte (hpercent : keep 37 = false)
    (hkeep : ∀ b, keep b = true → allowed b = true) (b : UInt8) (rest : Bytes) :
    decode allowed (encodeByte keep b ++ rest) =
      (decode allowed rest).map fun bytes => b :: bytes := by
  by_cases hb : keep b = true
  · have hne : b ≠ 37 := by
      rintro rfl
      rw [hpercent] at hb
      cases hb
    rw [encodeByte, if_pos hb, singleton_append, decode_plain hne, if_pos (hkeep b hb)]
  · have hlt := b.toNat_lt
    have hvalue : UInt8.ofNat (16 * (b.toNat / 16) + b.toNat % 16) = b := by
      rw [Nat.div_add_mod, UInt8.ofNat_toNat]
    have hhigh : digitValue (hexDigit (b.toNat / 16)) = some (b.toNat / 16) :=
      digitValue_hexDigit (by omega)
    have hlow : digitValue (hexDigit (b.toNat % 16)) = some (b.toNat % 16) :=
      digitValue_hexDigit (by omega)
    rw [encodeByte, if_neg hb, cons_append, cons_append, singleton_append,
      decode_escape, hhigh, hlow]
    simp only [bind_some, hvalue]

theorem decode_encode (hpercent : keep 37 = false) (hkeep : ∀ b, keep b = true → allowed b = true)
    (bytes : Bytes) : decode allowed (encode keep bytes) = some bytes := by
  induction bytes with
  | nil => rfl
  | cons b bytes ih =>
    rw [encode_cons, decode_encodeByte hpercent hkeep, ih, map_some]

/-- What a text that decodes starts with, and how the rest of it decodes. -/
theorem decode_cons {c : UInt8} {rest bytes : Bytes} (h : decode allowed (c :: rest) = some bytes) :
    (allowed c = true ∧ ∃ more, decode allowed rest = some more ∧ bytes = c :: more) ∨
      ∃ hi lo rest' x y more, c = 37 ∧ rest = hi :: lo :: rest' ∧ digitValue hi = some x ∧
        digitValue lo = some y ∧ decode allowed rest' = some more ∧
        bytes = UInt8.ofNat (16 * x + y) :: more := by
  by_cases hc : c = 37
  · subst hc
    rcases rest with _ | ⟨hi, _ | ⟨lo, rest⟩⟩
    · cases h
    · cases h
    · rw [decode_escape] at h
      obtain ⟨x, hx, h⟩ := bind_eq_some_iff.mp h
      obtain ⟨y, hy, h⟩ := bind_eq_some_iff.mp h
      obtain ⟨more, hmore, rfl⟩ := map_eq_some_iff.mp h
      exact .inr ⟨hi, lo, rest, x, y, more, rfl, rfl, hx, hy, hmore, rfl⟩
  · rw [decode_plain hc] at h
    obtain ⟨hallowed, h⟩ := ite_none_right_eq_some.mp h
    obtain ⟨more, hmore, rfl⟩ := map_eq_some_iff.mp h
    exact .inl ⟨hallowed, more, hmore, rfl⟩

/-- A text that decodes has no other bytes than percent signs, digits and allowed ones. -/
theorem not_mem_of_decode {sep : UInt8} (hpercent : sep ≠ 37) (hdigit : digitValue sep = none)
    (hsep : allowed sep = false) {text bytes : Bytes} (h : decode allowed text = some bytes) :
    sep ∉ text := by
  induction hl : text.length using Nat.strongRecOn generalizing text bytes with
  | ind n ih =>
    cases text with
    | nil => exact not_mem_nil
    | cons c rest =>
      rw [length_cons] at hl
      obtain ⟨hallowed, more, hmore, -⟩ | ⟨hi, lo, rest', x, y, more, rfl, rfl, hx, hy, hmore, -⟩ :=
        decode_cons h
      · have hne : sep ≠ c := by
          rintro rfl
          rw [hsep] at hallowed
          cases hallowed
        have htail := ih rest.length (by omega) hmore rfl
        simp [hne, htail]
      · have hnehi : sep ≠ hi := by
          rintro rfl
          rw [hdigit] at hx
          cases hx
        have hnelo : sep ≠ lo := by
          rintro rfl
          rw [hdigit] at hy
          cases hy
        rw [length_cons, length_cons] at hl
        have htail := ih rest'.length (by omega) hmore rfl
        simp [hpercent, hnehi, hnelo, htail]

end Laws

/-! ## Paths -/

/-- A path: a separator before each segment. -/
def joinPath (sep : UInt8) (segments : List Bytes) : Bytes :=
  segments.flatMap fun segment => sep :: segment

section Paths

variable {sep : UInt8}

theorem joinPath_cons (segment : Bytes) (segments : List Bytes) :
    joinPath sep (segment :: segments) = sep :: (segment ++ joinPath sep segments) := rfl

/-- The first segment is what is before the next separator. -/
theorem takeWhile_joinPath {segment : Bytes} (h : sep ∉ segment) (segments : List Bytes) :
    (segment ++ joinPath sep segments).takeWhile (· ≠ sep) = segment := by
  induction segment with
  | nil => cases segments <;> simp [joinPath]
  | cons b segment ih =>
    rw [mem_cons, not_or] at h
    have hb : b ≠ sep := Ne.symm h.1
    rw [cons_append, takeWhile_cons, if_pos (decide_eq_true hb), ih h.2]

theorem joinPath_inj {xs ys : List Bytes} (hx : ∀ s ∈ xs, sep ∉ s) (hy : ∀ s ∈ ys, sep ∉ s)
    (h : joinPath sep xs = joinPath sep ys) : xs = ys := by
  induction xs generalizing ys with
  | nil =>
    cases ys with
    | nil => rfl
    | cons y ys => cases h
  | cons x xs ih =>
    cases ys with
    | nil => cases h
    | cons y ys =>
      rw [joinPath_cons, joinPath_cons, List.cons.injEq] at h
      have hfirst : x = y := by
        rw [← takeWhile_joinPath (hx x (by simp)) xs, h.2, takeWhile_joinPath (hy y (by simp)) ys]
      subst hfirst
      have hrest := append_cancel_left h.2
      rw [ih (fun s hs => hx s (by simp [hs])) (fun s hs => hy s (by simp [hs])) hrest]

/-! ## Spellings -/

/-- The segments of the path `p` decode to `cs`. -/
def Spells (allowed : UInt8 → Bool) (sep : UInt8) (p : Bytes) (cs : List Bytes) : Prop :=
  ∃ segments, p = joinPath sep segments ∧
    List.Forall₂ (fun segment c => decode allowed segment = some c) segments cs

variable {keep allowed : UInt8 → Bool}

theorem not_mem_of_forall₂ (hpercent : sep ≠ 37) (hdigit : digitValue sep = none)
    (hsep : allowed sep = false) {segments cs : List Bytes}
    (h : List.Forall₂ (fun segment c => decode allowed segment = some c) segments cs) :
    ∀ s ∈ segments, sep ∉ s := by
  induction h with
  | nil => exact nofun
  | cons hc _ ih =>
    exact forall_mem_cons.mpr ⟨not_mem_of_decode hpercent hdigit hsep hc, ih⟩

/-- A path spells at most one list. -/
theorem Spells.unique (hpercent : sep ≠ 37) (hdigit : digitValue sep = none)
    (hsep : allowed sep = false) {p : Bytes} {cs cs' : List Bytes} (h : Spells allowed sep p cs)
    (h' : Spells allowed sep p cs') : cs = cs' := by
  obtain ⟨segments, rfl, hs⟩ := h
  obtain ⟨segments', hp, hs'⟩ := h'
  obtain rfl := joinPath_inj (not_mem_of_forall₂ hpercent hdigit hsep hs)
    (not_mem_of_forall₂ hpercent hdigit hsep hs') hp
  exact right_unique_forall₂' (fun _ _ _ hc hc' => Option.some.inj (hc.symm.trans hc')) hs hs'

/-- The encodings of a list are one of its spellings. -/
theorem spells_encode (hpercent : keep 37 = false) (hkeep : ∀ b, keep b = true → allowed b = true)
    (cs : List Bytes) : Spells allowed sep (joinPath sep (cs.map (encode keep))) cs := by
  refine ⟨cs.map (encode keep), rfl, ?_⟩
  rw [forall₂_map_left_iff]
  exact forall₂_same.mpr fun c _ => decode_encode hpercent hkeep c

end Paths

end Xhttp.Percent
