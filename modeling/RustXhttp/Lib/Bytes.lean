/-!
# Byte strings

A Rust slice, `Vec<u8>` or `Bytes` is a list of bytes and `[u8; n]` a list of length `n`. The
operations that the wire formats share are here: the big-endian `u16` (`u16::to_be_bytes`,
`u16::from_be_bytes`), 24-bit lengths, ASCII texts, concatenations of self-delimiting encodings,
`slice::chunks`, and XOR with a keystream.
-/

namespace Xhttp

open List

/-- A byte string. -/
abbrev Bytes := List UInt8

/-- `[u8; n]`. -/
abbrev ByteArr (n : Nat) := { bs : Bytes // bs.length = n }

section

variable {n start : Nat} {bs : Bytes}

theorem ByteArr.length_val (a : ByteArr n) : a.val.length = n := a.property

/-- `[0; n]`. -/
def zeros (n : Nat) : ByteArr n := ⟨List.replicate n 0, length_replicate⟩

/-- `as_bytes` of an ASCII text. -/
def ascii (s : String) : Bytes := s.toList.map fun c => UInt8.ofNat c.toNat

/-- `&bs[start..stop]`, or a panic. -/
def slice? (bs : Bytes) (start stop : Nat) : Option Bytes :=
  if start ≤ stop ∧ stop ≤ bs.length then some ((bs.take stop).drop start) else none

/-- `&bs[start..]`. -/
theorem slice?_to_end (h : start ≤ bs.length) :
    slice? bs start bs.length = some (bs.drop start) := by
  rw [slice?, if_pos ⟨h, Nat.le_refl _⟩, take_length]

theorem slice?_eq_none {stop : Nat} (h : stop < start) : slice? bs start stop = none := by
  rw [slice?, if_neg]
  omega

/-- `&bs[start..start + len]`. -/
theorem slice?_add {len : Nat} (h : start + len ≤ bs.length) :
    slice? bs start (start + len) = some ((bs.drop start).take len) := by
  rw [slice?, if_pos ⟨Nat.le_add_right _ _, h⟩, drop_take, Nat.add_sub_cancel_left]

/-! ## Big-endian `u16` -/

/-- `(n as u16).to_be_bytes()`: the low sixteen bits of `n`, the high byte first. -/
def be16 (n : Nat) : Bytes := [UInt8.ofNat (n / 256), UInt8.ofNat n]

/-- `u16::from_be_bytes([a, b]) as usize`. -/
def ofBe16 (a b : UInt8) : Nat := a.toNat * 256 + b.toNat

@[simp] theorem length_be16 (n : Nat) : (be16 n).length = 2 := rfl

theorem ofBe16_lt (a b : UInt8) : ofBe16 a b < 65536 := by
  have ha := a.toNat_lt
  have hb := b.toNat_lt
  unfold ofBe16
  omega

theorem ofBe16_ofNat (h : n < 65536) : ofBe16 (UInt8.ofNat (n / 256)) (UInt8.ofNat n) = n := by
  simp only [ofBe16, UInt8.toNat_ofNat']
  omega

theorem be16_inj {m : Nat} (hm : m < 65536) (hn : n < 65536) (h : be16 m = be16 n) : m = n := by
  simp only [be16, List.cons.injEq, and_true] at h
  rw [← ofBe16_ofNat hm, ← ofBe16_ofNat hn, h.1, h.2]

theorem be16_ofBe16 (a b : UInt8) : be16 (ofBe16 a b) = [a, b] := by
  have hb := b.toNat_lt
  have hdiv : (a.toNat * 256 + b.toNat) / 256 = a.toNat := by omega
  have hlow : UInt8.ofNat (a.toNat * 256 + b.toNat) = b := by
    apply UInt8.toNat_inj.mp
    rw [UInt8.toNat_ofNat']
    omega
  rw [be16, ofBe16, hdiv, hlow, UInt8.ofNat_toNat]

/-- `u16::from_be_bytes([a, b])`. -/
def word16 (a b : UInt8) : UInt16 := UInt16.ofNat (ofBe16 a b)

theorem be16_word16 (a b : UInt8) : be16 (word16 a b).toNat = [a, b] := by
  have hlt := ofBe16_lt a b
  rw [word16, UInt16.toNat_ofNat', Nat.mod_eq_of_lt hlt, be16_ofBe16]

theorem word16_be16 (n : UInt16) :
    word16 (UInt8.ofNat (n.toNat / 256)) (UInt8.ofNat n.toNat) = n := by
  rw [word16, ofBe16_ofNat n.toNat_lt, UInt16.ofNat_toNat]

/-! ## Big-endian 24-bit numbers -/

/-- The low 24 bits of `n`, the high byte first. -/
def be24 (n : Nat) : Bytes := [UInt8.ofNat (n / 65536), UInt8.ofNat (n / 256), UInt8.ofNat n]

/-- `u32::from_be_bytes([0, a, b, c]) as usize`. -/
def ofBe24 (a b c : UInt8) : Nat := a.toNat * 65536 + b.toNat * 256 + c.toNat

@[simp] theorem length_be24 (n : Nat) : (be24 n).length = 3 := rfl

theorem ofBe24_ofNat (h : n < 16777216) :
    ofBe24 (UInt8.ofNat (n / 65536)) (UInt8.ofNat (n / 256)) (UInt8.ofNat n) = n := by
  simp only [ofBe24, UInt8.toNat_ofNat']
  omega

end

theorem be24_ofBe24 (a b c : UInt8) : be24 (ofBe24 a b c) = [a, b, c] := by
  have hb := b.toNat_lt
  have hc := c.toNat_lt
  have hhigh : (a.toNat * 65536 + b.toNat * 256 + c.toNat) / 65536 = a.toNat := by omega
  have hmid : UInt8.ofNat ((a.toNat * 65536 + b.toNat * 256 + c.toNat) / 256) = b := by
    apply UInt8.toNat_inj.mp
    rw [UInt8.toNat_ofNat']
    omega
  have hlow : UInt8.ofNat (a.toNat * 65536 + b.toNat * 256 + c.toNat) = c := by
    apply UInt8.toNat_inj.mp
    rw [UInt8.toNat_ofNat']
    omega
  rw [be24, ofBe24, hhigh, hmid, hlow, UInt8.ofNat_toNat]

/-! ## Self-delimiting encodings -/

/-- No encoding of a value in `p` is empty, and the first encoding of a byte string is unique. -/
structure PrefixFree {α : Type} (p : α → Prop) (enc : α → Bytes) : Prop where
  ne_nil : ∀ a, p a → enc a ≠ []
  cancel : ∀ a b x y, p a → p b → enc a ++ x = enc b ++ y → a = b ∧ x = y

/-- What starts like a concatenation of encodings and is followed by more of them. -/
theorem PrefixFree.flatMap_cancel {α : Type} {p : α → Prop} {enc : α → Bytes}
    (h : PrefixFree p enc) {as bs : List α} {x : Bytes} (has : ∀ a ∈ as, p a)
    (hbs : ∀ b ∈ bs, p b) (he : as.flatMap enc ++ x = bs.flatMap enc) :
    ∃ cs, bs = as ++ cs ∧ x = cs.flatMap enc := by
  induction as generalizing bs with
  | nil => exact ⟨bs, rfl, he⟩
  | cons a as ih =>
    have ha := has a (by simp)
    cases bs with
    | nil =>
      have hnil := (append_eq_nil_iff.mp (append_eq_nil_iff.mp he).1).1
      exact absurd hnil (h.ne_nil a ha)
    | cons b bs =>
      rw [flatMap_cons, flatMap_cons, append_assoc] at he
      obtain ⟨rfl, htail⟩ := h.cancel a b _ _ ha (hbs b (by simp)) he
      obtain ⟨cs, rfl, hx⟩ := ih (fun a ha => has a (by simp [ha]))
        (fun b hb => hbs b (by simp [hb])) htail
      exact ⟨cs, rfl, hx⟩

/-- A part of a concatenation that has the length of the first pieces consists of them. -/
theorem length_eq_take_iff {α : Type} {pieces : List (List α)} {pre suf : List α}
    (h : pieces.flatten = pre ++ suf) :
    (∃ k, pre.length = (pieces.take k).flatten.length) ↔ ∃ k, pre = (pieces.take k).flatten := by
  refine ⟨fun ⟨k, hk⟩ => ⟨k, ?_⟩, fun ⟨k, hk⟩ => ⟨k, by rw [hk]⟩⟩
  have hsplit : (pieces.take k).flatten ++ (pieces.drop k).flatten = pre ++ suf := by
    rw [← flatten_append, take_append_drop, h]
  exact (append_inj hsplit hk.symm).1.symm

/-! ## `slice::chunks` -/

section Chunks

variable {α : Type}

/-- `chunks`, with the length of the slice as fuel. -/
def chunksFuel (n : Nat) : Nat → List α → List (List α)
  | 0, _ => []
  | _ + 1, [] => []
  | fuel + 1, x :: xs => (x :: xs).take n :: chunksFuel n fuel ((x :: xs).drop n)

/-- `xs.chunks(n)`: consecutive pieces of `n` items, the last one possibly shorter. -/
def chunks (n : Nat) (xs : List α) : List (List α) := chunksFuel n xs.length xs

@[simp] theorem chunks_nil (n : Nat) : chunks n ([] : List α) = [] := rfl

variable {n : Nat} {xs : List α}

theorem chunksFuel_eq (hn : 0 < n) (fuel fuel' : Nat) (h : xs.length ≤ fuel)
    (h' : xs.length ≤ fuel') : chunksFuel n fuel xs = chunksFuel n fuel' xs := by
  induction fuel generalizing fuel' xs with
  | zero =>
    obtain rfl := length_eq_zero_iff.mp (Nat.le_zero.mp h)
    cases fuel' <;> rfl
  | succ fuel ih =>
    cases xs with
    | nil => cases fuel' <;> rfl
    | cons x xs =>
      cases fuel' with
      | zero => simp at h'
      | succ fuel' =>
        simp only [chunksFuel]
        rw [ih fuel']
        · simp only [length_drop, length_cons] at h ⊢; omega
        · simp only [length_drop, length_cons] at h' ⊢; omega

theorem chunks_of_ne_nil (hn : 0 < n) (h : xs ≠ []) :
    chunks n xs = xs.take n :: chunks n (xs.drop n) := by
  cases xs with
  | nil => exact absurd rfl h
  | cons x xs =>
    simp only [chunks, length_cons, chunksFuel]
    rw [chunksFuel_eq hn xs.length ((x :: xs).drop n).length]
    · simp only [length_drop, length_cons]; omega
    · exact Nat.le_refl _

/-- An induction over the chunks of a slice. -/
theorem chunks_induction (hn : 0 < n) {P : List α → Prop} (hnil : P [])
    (hcons : ∀ xs, xs ≠ [] → P (xs.drop n) → P xs) (xs : List α) : P xs := by
  induction hl : xs.length using Nat.strongRecOn generalizing xs with
  | ind l ih =>
    by_cases hx : xs = []
    · exact hx ▸ hnil
    · refine hcons xs hx (ih (xs.drop n).length ?_ _ rfl)
      have := length_pos_iff.mpr hx
      rw [length_drop]
      omega

theorem flatten_chunks (hn : 0 < n) (xs : List α) : (chunks n xs).flatten = xs := by
  induction xs using chunks_induction hn with
  | hnil => rfl
  | hcons xs hx ih => rw [chunks_of_ne_nil hn hx, flatten_cons, ih, take_append_drop]

/-- Every chunk is non-empty and has at most `n` items. -/
theorem length_of_mem_chunks (hn : 0 < n) {c : List α} (h : c ∈ chunks n xs) :
    0 < c.length ∧ c.length ≤ n := by
  induction xs using chunks_induction hn with
  | hnil => cases h
  | hcons xs hx ih =>
    rw [chunks_of_ne_nil hn hx] at h
    rcases mem_cons.mp h with rfl | h
    · have := length_pos_iff.mpr hx
      rw [length_take]
      omega
    · exact ih h

end Chunks

/-! ## XOR with a keystream -/

/-- The bytes XORed with the keystream `ks` from position `pos` on. -/
def xorStream (ks : Nat → UInt8) : Nat → Bytes → Bytes
  | _, [] => []
  | pos, b :: bs => (b ^^^ ks pos) :: xorStream ks (pos + 1) bs

theorem xor_xor_cancel (a b : UInt8) : a ^^^ b ^^^ b = a := by
  rw [UInt8.xor_assoc, UInt8.xor_self, UInt8.xor_zero]

section Keystream

variable (ks : Nat → UInt8)

@[simp] theorem length_xorStream (pos : Nat) (bs : Bytes) :
    (xorStream ks pos bs).length = bs.length := by
  induction bs generalizing pos with
  | nil => rfl
  | cons b bs ih => simp [xorStream, ih]

/-- The keystream is the same in both directions. -/
theorem xorStream_xorStream (pos : Nat) (bs : Bytes) :
    xorStream ks pos (xorStream ks pos bs) = bs := by
  induction bs generalizing pos with
  | nil => rfl
  | cons b bs ih => rw [xorStream, xorStream, xor_xor_cancel, ih]

end Keystream

end Xhttp
