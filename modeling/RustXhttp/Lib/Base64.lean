import RustXhttp.Lib.Bytes

/-!
# Base64 for URLs, without padding

Three bytes are four letters, and one or two bytes at the end are two or three. `length_encode` is
the number of letters, and `isLetter_of_mem_encode` says which bytes they are.
-/

namespace Xhttp.Base64

open List

def letter (n : Nat) : UInt8 :=
  if n < 26 then UInt8.ofNat (65 + n)
  else if n < 52 then UInt8.ofNat (97 + (n - 26))
  else if n < 62 then UInt8.ofNat (48 + (n - 52))
  else if n = 62 then 45
  else 95

def encode : Bytes → Bytes
  | [] => []
  | [a] => [letter (a.toNat / 4), letter (a.toNat % 4 * 16)]
  | [a, b] =>
    [letter (a.toNat / 4), letter (a.toNat % 4 * 16 + b.toNat / 16), letter (b.toNat % 16 * 4)]
  | a :: b :: c :: rest =>
    letter (a.toNat / 4) :: letter (a.toNat % 4 * 16 + b.toNat / 16) ::
      letter (b.toNat % 16 * 4 + c.toNat / 64) :: letter (c.toNat % 64) :: encode rest

/-- The letters, the digits, the dash and the underscore. -/
def isLetter (b : UInt8) : Bool :=
  (65 ≤ b && b ≤ 90) || (97 ≤ b && b ≤ 122) || (48 ≤ b && b ≤ 57) || b == 45 || b == 95

theorem isLetter_letter (n : Nat) : isLetter (letter n) = true := by
  by_cases h : n < 64
  · have hall : ∀ n : Fin 64, isLetter (letter n.val) = true := by decide
    exact hall ⟨n, h⟩
  · have hlast : letter n = 95 := by
      unfold letter
      rw [if_neg (by omega), if_neg (by omega), if_neg (by omega), if_neg (by omega)]
    rw [hlast]
    rfl

theorem isLetter_of_mem_encode {bs : Bytes} {b : UInt8} (h : b ∈ encode bs) :
    isLetter b = true := by
  fun_induction encode bs with
  | case1 => cases h
  | case2 a =>
    simp only [mem_cons, not_mem_nil, or_false] at h
    rcases h with rfl | rfl <;> exact isLetter_letter _
  | case3 a c =>
    simp only [mem_cons, not_mem_nil, or_false] at h
    rcases h with rfl | rfl | rfl <;> exact isLetter_letter _
  | case4 a c d rest ih =>
    simp only [mem_cons] at h
    rcases h with rfl | rfl | rfl | rfl | h
    · exact isLetter_letter _
    · exact isLetter_letter _
    · exact isLetter_letter _
    · exact isLetter_letter _
    · exact ih h

theorem length_encode (bs : Bytes) : (encode bs).length = (4 * bs.length + 2) / 3 := by
  fun_induction encode bs with
  | case1 => rfl
  | case2 => simp
  | case3 => simp
  | case4 a b c rest ih =>
    simp only [length_cons, ih]
    omega

theorem encode_eq_nil {bs : Bytes} : encode bs = [] ↔ bs = [] := by
  rw [← length_eq_zero_iff, length_encode, ← length_eq_zero_iff]
  omega

end Xhttp.Base64
