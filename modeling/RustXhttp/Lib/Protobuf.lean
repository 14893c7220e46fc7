import RustXhttp.Lib.Bytes
import RustXhttp.Lib.Word

/-!
# The protobuf wire format

A message is a sequence of fields. A field is a tag, which is a varint with the field number and
the wire type in it, and a value, whose size follows from the wire type: a varint, eight bytes, a
length and as many bytes, or four bytes. A varint need not be of the shortest form.

* `IsVarint bs n`: `bs` is a varint of at most 64 bits with the value `n`.
* `Field.WellFormed`, `encodeFields`: the fields and their bytes.
* `lastOf number fields`: the content of the last length-delimited field with that number, which
  is the one that counts.
-/

namespace Xhttp.Protobuf

/-! ## Varints -/

/-- Seven bits of each byte, the low ones first. -/
def varintValue : Bytes → Nat
  | [] => 0
  | b :: bs => b.toNat % 128 + 128 * varintValue bs

/-- All bytes but the last have the continuation bit. -/
def delimited : Bytes → Bool
  | [] => false
  | [b] => b < 128
  | b :: bs => 128 ≤ b && delimited bs

structure IsVarint (bs : Bytes) (n : Nat) : Prop where
  delimited : delimited bs = true
  length : bs.length ≤ 10
  value : varintValue bs = n
  fits : n < 2 ^ 64

instance {bs : Bytes} {n : Nat} : Decidable (IsVarint bs n) :=
  decidable_of_iff
    (delimited bs = true ∧ bs.length ≤ 10 ∧ varintValue bs = n ∧ n < 2 ^ 64)
    ⟨fun ⟨h₁, h₂, h₃, h₄⟩ => ⟨h₁, h₂, h₃, h₄⟩, fun ⟨h₁, h₂, h₃, h₄⟩ => ⟨h₁, h₂, h₃, h₄⟩⟩

theorem delimited_cons {b : UInt8} {bs : Bytes} :
    delimited (b :: bs) = true ↔ (b < 128 ∧ bs = []) ∨ (128 ≤ b ∧ delimited bs = true) := by
  cases bs with
  | nil => simp [delimited]
  | cons c cs => simp [delimited]

theorem delimited_ne_nil {bs : Bytes} (h : delimited bs = true) : bs ≠ [] := by
  rintro rfl
  cases h

/-- Every byte of a proper part of a varint has the continuation bit. -/
theorem le_of_mem_take {bs p q : Bytes} (h : delimited bs = true) (hp : bs = p ++ q) (hq : q ≠ [])
    {b : UInt8} (hb : b ∈ p) : 128 ≤ b := by
  induction p generalizing bs with
  | nil => cases hb
  | cons c cs ih =>
    rw [List.cons_append] at hp
    rw [hp] at h
    rcases delimited_cons.mp h with ⟨_, hnil⟩ | ⟨hc, hrest⟩
    · exact absurd (List.append_eq_nil_iff.mp hnil).2 hq
    · rcases List.mem_cons.mp hb with rfl | hb
      · exact hc
      · exact ih hrest rfl hb

/-! ## Fields -/

inductive Value where
  | varint (raw : Bytes)
  | fixed64 (raw : ByteArr 8)
  /-- `len` is the encoding of the length. -/
  | bytes (len content : Bytes)
  | fixed32 (raw : ByteArr 4)
  deriving DecidableEq

namespace Value

def wireType : Value → Nat
  | .varint _ => 0
  | .fixed64 _ => 1
  | .bytes _ _ => 2
  | .fixed32 _ => 5

theorem wireType_lt (v : Value) : v.wireType < 8 := by
  cases v <;> simp [wireType]

def encode : Value → Bytes
  | .varint raw => raw
  | .fixed64 raw => raw.val
  | .bytes len content => len ++ content
  | .fixed32 raw => raw.val

def WellFormed : Value → Prop
  | .varint raw => ∃ n, IsVarint raw n
  | .fixed64 _ => True
  | .bytes len content => IsVarint len content.length
  | .fixed32 _ => True

end Value

/-- A field, with the encoding of its tag. -/
structure Field where
  number : Nat
  tag : Bytes
  value : Value
  deriving DecidableEq

namespace Field

variable (f : Field)

def encode : Bytes := f.tag ++ f.value.encode

structure WellFormed : Prop where
  positive : 0 < f.number
  number : f.number < 2 ^ 29
  tag : IsVarint f.tag (f.number * 8 + f.value.wireType)
  value : f.value.WellFormed

/-- The content of a length-delimited field. -/
def content? : Option Bytes :=
  match f.value with
  | .bytes _ content => some content
  | _ => none

end Field

def encodeFields (fields : List Field) : Bytes := fields.flatMap Field.encode

/-- The content of the last field with the number, or nothing. -/
def lastOf (number : Nat) (fields : List Field) : Bytes :=
  fields.foldl (fun last f => if f.number = number then f.content?.getD last else last) []

end Xhttp.Protobuf
