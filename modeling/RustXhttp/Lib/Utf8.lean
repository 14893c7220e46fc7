import RustXhttp.Lib.Bytes

/-!
# UTF-8

`validUtf8` is `std::str::from_utf8(..).is_ok()`: the byte sequences of table 3-7 of the Unicode
standard, as an automaton. A Rust `String` is the bytes of its UTF-8 encoding.

`utf8Parts` are its characters and what is between them: each longest part that begins a character
and cannot be completed, and each byte that begins none. `fromUtf8Lossy` replaces these ill-formed
parts by U+FFFD, and `length_fromUtf8Lossy` says what that adds; `illFormed_of_valid`: nothing, if
the bytes are valid.
-/

namespace Xhttp

open List

/-- Where the automaton is within a character. -/
inductive Utf8State where
  | start
  | tails (n : Nat)
  | afterE0 | afterED | afterF0 | afterF4
  deriving DecidableEq, Repr

def Utf8State.step (s : Utf8State) (b : UInt8) : Option Utf8State :=
  match s with
  | .start =>
    if b < 0x80 then some .start
    else if 0xC2 ≤ b ∧ b ≤ 0xDF then some (.tails 0)
    else if b = 0xE0 then some .afterE0
    else if b = 0xED then some .afterED
    else if 0xE1 ≤ b ∧ b ≤ 0xEF then some (.tails 1)
    else if b = 0xF0 then some .afterF0
    else if 0xF1 ≤ b ∧ b ≤ 0xF3 then some (.tails 2)
    else if b = 0xF4 then some .afterF4
    else none
  | .tails 0 => if 0x80 ≤ b ∧ b ≤ 0xBF then some .start else none
  | .tails (n + 1) => if 0x80 ≤ b ∧ b ≤ 0xBF then some (.tails n) else none
  | .afterE0 => if 0xA0 ≤ b ∧ b ≤ 0xBF then some (.tails 0) else none
  | .afterED => if 0x80 ≤ b ∧ b ≤ 0x9F then some (.tails 0) else none
  | .afterF0 => if 0x90 ≤ b ∧ b ≤ 0xBF then some (.tails 1) else none
  | .afterF4 => if 0x80 ≤ b ∧ b ≤ 0x8F then some (.tails 1) else none

def Utf8State.run : Utf8State → Bytes → Option Utf8State
  | s, [] => some s
  | s, b :: bs => (s.step b).bind fun s' => s'.run bs

def validUtf8 (bs : Bytes) : Bool := Utf8State.start.run bs = some .start

/-- A Rust `String`. -/
abbrev Str := { bs : Bytes // validUtf8 bs = true }

/-! ## Parts of a byte string -/

/-- A whole character, or a longest part that begins one and cannot be completed, or a byte that
begins none. -/
structure Utf8Part where
  bytes : Bytes
  whole : Bool

/-- `b` after the bytes `pending` of a character that is not complete: the parts that end here, the
state and the new pending bytes. -/
def partsStep (s : Utf8State) (pending : Bytes) (b : UInt8) : List Utf8Part × Utf8State × Bytes :=
  match s.step b with
  | some .start => ([⟨pending ++ [b], true⟩], .start, [])
  | some s' => ([], s', pending ++ [b])
  | none =>
    if s = .start then ([⟨[b], false⟩], .start, [])
    else
      -- the pending bytes are a part, and `b` may begin a character
      match Utf8State.start.step b with
      | some .start => ([⟨pending, false⟩, ⟨[b], true⟩], .start, [])
      | some s' => ([⟨pending, false⟩], s', [b])
      | none => ([⟨pending, false⟩, ⟨[b], false⟩], .start, [])

def partsFrom : Utf8State → Bytes → Bytes → List Utf8Part
  | s, pending, [] => if s = .start then [] else [⟨pending, false⟩]
  | s, pending, b :: bs =>
    (partsStep s pending b).1 ++
      partsFrom (partsStep s pending b).2.1 (partsStep s pending b).2.2 bs

def utf8Parts (bs : Bytes) : List Utf8Part := partsFrom .start [] bs

/-- The maximal parts that are ill-formed. -/
def illFormed (bs : Bytes) : List Bytes := ((utf8Parts bs).filter (!·.whole)).map (·.bytes)

/-- U+FFFD. -/
def replacement : Bytes := [0xEF, 0xBF, 0xBD]

/-- `String::from_utf8_lossy`. -/
def fromUtf8Lossy (bs : Bytes) : Bytes :=
  (utf8Parts bs).flatMap fun part => if part.whole then part.bytes else replacement

/-- The bytes that a character still needs, at most. -/
def Utf8State.left : Utf8State → Nat
  | .start => 0
  | .tails n => n + 1
  | .afterE0 | .afterED => 2
  | .afterF0 | .afterF4 => 3

section

variable {s s' : Utf8State} {b : UInt8} {bs pending : Bytes}

theorem Utf8State.left_step (h : s.step b = some s') :
    s = .start ∧ s'.left ≤ 3 ∨ s'.left + 1 ≤ s.left := by
  unfold step at h
  repeat' split at h
  all_goals cases h <;> simp [left]

/-- The pending bytes are those of the character that the state is in. -/
structure Held (s : Utf8State) (pending : Bytes) : Prop where
  nil : s = .start → pending = []
  bound : pending.length + s.left ≤ 4

theorem Held.short (h : Held s pending) (hs : s ≠ .start) : pending.length ≤ 3 := by
  have hpos : 0 < s.left := by
    cases s with
    | start => exact absurd rfl hs
    | _ => exact Nat.succ_pos _
  have := h.bound
  omega

theorem held_start : Held .start [] := ⟨fun _ => rfl, Nat.zero_le 4⟩

theorem Held.step (h : Held s pending) (hstep : s.step b = some s') (hs' : s' ≠ .start) :
    Held s' (pending ++ [b]) := by
  refine ⟨fun he => absurd he hs', ?_⟩
  have hbound := h.bound
  rw [length_append, length_singleton]
  rcases Utf8State.left_step hstep with ⟨rfl, hleft⟩ | hleft
  · rw [h.nil rfl, length_nil]
    omega
  · omega

/-- A step loses no byte, and an ill-formed part has at most three. -/
theorem partsStep_spec (h : Held s pending) (b : UInt8) :
    (partsStep s pending b).1.flatMap Utf8Part.bytes ++ (partsStep s pending b).2.2 =
        pending ++ [b] ∧
      (∀ part ∈ (partsStep s pending b).1, part.whole = false → part.bytes.length ≤ 3) ∧
      Held (partsStep s pending b).2.1 (partsStep s pending b).2.2 := by
  unfold partsStep
  split
  case h_1 => exact ⟨by simp, by simp, held_start⟩
  case h_2 s' hs' hstep => exact ⟨by simp, by simp, h.step hstep hs'⟩
  case h_3 =>
    split
    case isTrue hs => exact ⟨by simp [h.nil hs], by simp, held_start⟩
    case isFalse hs =>
      have hshort := h.short hs
      split
      case h_1 => exact ⟨by simp, by simp [hshort], held_start⟩
      case h_2 s' hs' hstep => exact ⟨by simp, by simp [hshort], held_start.step hstep hs'⟩
      case h_3 => exact ⟨by simp, by simp [hshort], held_start⟩

theorem partsFrom_spec (h : Held s pending) (bs : Bytes) :
    (partsFrom s pending bs).flatMap Utf8Part.bytes = pending ++ bs ∧
      ∀ part ∈ partsFrom s pending bs, part.whole = false → part.bytes.length ≤ 3 := by
  induction bs generalizing s pending with
  | nil =>
    unfold partsFrom
    split
    case isTrue hs => exact ⟨by simp [h.nil hs], by simp⟩
    case isFalse hs => exact ⟨by simp, by simp [h.short hs]⟩
  | cons b bs ih =>
    obtain ⟨hbytes, hshort, hheld⟩ := partsStep_spec h b
    obtain ⟨hrest, hshort'⟩ := ih hheld
    constructor
    · rw [partsFrom, flatMap_append, hrest, ← append_assoc, hbytes, append_assoc]
      rfl
    · intro part hpart
      rcases mem_append.mp hpart with hpart | hpart
      · exact hshort part hpart
      · exact hshort' part hpart

/-- What U+FFFD is longer than the parts that it replaces. -/
def growth : List Bytes → Nat
  | [] => 0
  | part :: parts => 3 - part.length + growth parts

theorem length_replaced {parts : List Utf8Part}
    (h : ∀ part ∈ parts, part.whole = false → part.bytes.length ≤ 3) :
    (parts.flatMap fun part => if part.whole then part.bytes else replacement).length =
      (parts.flatMap Utf8Part.bytes).length +
        growth ((parts.filter (!·.whole)).map (·.bytes)) := by
  induction parts with
  | nil => rfl
  | cons part parts ih =>
    have hrest := ih fun p hp => h p (mem_cons_of_mem _ hp)
    rw [flatMap_cons, flatMap_cons, length_append, length_append, hrest]
    cases hw : part.whole with
    | true =>
      rw [filter_cons_of_neg (by simp [hw]), if_pos rfl]
      omega
    | false =>
      have hshort := h part mem_cons_self hw
      have hthree : replacement.length = 3 := rfl
      rw [filter_cons_of_pos (by simp [hw]), if_neg (by decide), map_cons, growth]
      omega

theorem length_fromUtf8Lossy (bs : Bytes) :
    (fromUtf8Lossy bs).length = bs.length + growth (illFormed bs) := by
  obtain ⟨hbytes, hshort⟩ := partsFrom_spec held_start bs
  rw [fromUtf8Lossy, utf8Parts, length_replaced hshort, hbytes]
  rfl

/-- Valid bytes have no ill-formed part. -/
theorem filter_partsFrom_of_run (h : s.run bs = some .start) :
    (partsFrom s pending bs).filter (!·.whole) = [] := by
  induction bs generalizing s pending with
  | nil =>
    cases h
    rfl
  | cons b bs ih =>
    obtain ⟨s', hstep, hrun⟩ := Option.bind_eq_some_iff.mp h
    have hout : (partsStep s pending b).1.filter (!·.whole) = [] ∧
        (partsStep s pending b).2.1 = s' := by
      rw [partsStep, hstep]
      cases s' <;> exact ⟨rfl, rfl⟩
    rw [partsFrom, filter_append, hout.1, hout.2, ih hrun]
    rfl

theorem illFormed_of_valid (h : validUtf8 bs = true) : illFormed bs = [] := by
  rw [illFormed, utf8Parts, filter_partsFrom_of_run (of_decide_eq_true h)]
  rfl

end

end Xhttp
