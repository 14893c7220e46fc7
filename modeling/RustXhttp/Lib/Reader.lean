import RustXhttp.Lib.Bytes

/-!
# Reading a stream

`AsyncReadExt` over a stream whose bytes are all known: a read returns what it reads and what is
left of the stream, or the error `eof` at its end. `readExact_append` and its like run a read on
an encoding with something behind it, `readExact_ok` and its like tell what a read has seen.
-/

namespace Xhttp.AsyncRead

open List

section

variable {E : Type} (eof : E)

/-- `read_exact` into a vector of `n` bytes. -/
def readExact (n : Nat) (w : Bytes) : Except E (Bytes × Bytes) :=
  if w.length < n then .error eof else .ok (w.take n, w.drop n)

/-- `read_exact` into `[u8; n]`. -/
def readArr (n : Nat) (w : Bytes) : Except E (ByteArr n × Bytes) :=
  if short : w.length < n then .error eof
  else .ok (⟨w.take n, length_take_of_le (Nat.le_of_not_lt short)⟩, w.drop n)

def readU8 : Bytes → Except E (UInt8 × Bytes)
  | b :: w => .ok (b, w)
  | [] => .error eof

/-- `read_u16`, as a number. -/
def readU16 : Bytes → Except E (Nat × Bytes)
  | a :: b :: w => .ok (ofBe16 a b, w)
  | _ => .error eof

variable {eof} {n : Nat} {w rest : Bytes}

theorem readExact_append {x : Bytes} (h : x.length = n) (rest : Bytes) :
    readExact eof n (x ++ rest) = .ok (x, rest) := by
  subst h
  rw [readExact, if_neg (by simp), take_left, drop_left]

theorem readExact_ok {x : Bytes} (h : readExact eof n w = .ok (x, rest)) :
    w = x ++ rest ∧ x.length = n := by
  unfold readExact at h
  split at h
  · cases h
  case isFalse hn =>
    cases h
    exact ⟨(take_append_drop n w).symm, length_take_of_le (Nat.le_of_not_lt hn)⟩

theorem readArr_append (x : ByteArr n) (rest : Bytes) :
    readArr eof n (x.val ++ rest) = .ok (x, rest) := by
  obtain ⟨x, rfl⟩ := x
  rw [readArr, dif_neg (by simp)]
  congr 2
  · exact Subtype.ext take_left
  · exact drop_left

theorem readArr_ok {x : ByteArr n} (h : readArr eof n w = .ok (x, rest)) : w = x.val ++ rest := by
  unfold readArr at h
  split at h
  · cases h
  · cases h
    exact (take_append_drop n w).symm

theorem readU16_append {m : Nat} (h : m < 65536) (rest : Bytes) :
    readU16 eof (be16 m ++ rest) = .ok (m, rest) := by
  show Except.ok (ofBe16 (UInt8.ofNat (m / 256)) (UInt8.ofNat m), rest) = _
  rw [ofBe16_ofNat h]

theorem readU16_ok {m : Nat} (h : readU16 eof w = .ok (m, rest)) :
    w = be16 m ++ rest ∧ m < 65536 := by
  unfold readU16 at h
  split at h
  case h_1 a b w =>
    cases h
    exact ⟨by rw [be16_ofBe16]; rfl, ofBe16_lt a b⟩
  case h_2 => cases h

theorem readU8_ok {b : UInt8} (h : readU8 eof w = .ok (b, rest)) : w = b :: rest := by
  unfold readU8 at h
  split at h
  · cases h
    rfl
  · cases h

end

end Xhttp.AsyncRead
