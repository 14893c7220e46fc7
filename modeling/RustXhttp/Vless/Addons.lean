import RustXhttp.Lib.Utf8
import RustXhttp.Lib.Word

/-!
# Header addons (`src/vless/addons.rs`)

The addons of a VLESS header are a protobuf message with a flow and a seed. `decode_addons_body` is
a loop with a cursor into the body; the cursor is a `usize` whose additions wrap around, and the
lengths that are added to it come from the client.

* `turn`: one turn of the loop. It goes on, fails, or panics at an index or a slice.
* `decodeAddonsBody fuel body`: the loop with at most `fuel` turns.
* `addons_advance_iff`: no turn panics and each one moves the cursor forward, exactly if no length
  that the loop meets takes the cursor round the end of `usize`. The loop then ends.
* `huge_lengths_break_decoder`: a length near 2^64 in a known field makes a slice panic, and in
  an unknown one sends the cursor back to the tag for ever.
-/

namespace Xhttp.Vless

/-- `XRV`. -/
def xrv : Bytes := ascii "xtls-rprx-vision"

structure Addons where
  flow : Str
  seed : Bytes
  deriving DecidableEq

/-- `Addons::default()`. -/
def Addons.default : Addons := ⟨⟨[], by decide⟩, []⟩

inductive AddonsError where
  | truncated
  | tooLong (n : Nat)
  | badWire
  | badUtf8
  deriving DecidableEq, Repr

/-! ## Varints -/

/-- The loop of `read_varint`, with `i` bytes read. -/
def readVarintFrom (shift : Nat) (result : UInt64) (i : Nat) : Bytes → Option (UInt64 × Nat)
  | [] => none
  | byte :: rest =>
    if shift ≥ 64 then none
    else
      let result := result ||| ((byte &&& 0x7f).toUInt64 <<< UInt64.ofNat shift)
      if byte &&& 0x80 = 0 then some (result, i + 1)
      else readVarintFrom (shift + 7) result (i + 1) rest

def readVarint (b : Bytes) : Option (UInt64 × Nat) := readVarintFrom 0 0 0 b

theorem readVarintFrom_length {shift i : Nat} {result v : UInt64} {b : Bytes} {adv : Nat}
    (h : readVarintFrom shift result i b = some (v, adv)) : i < adv ∧ adv ≤ i + b.length := by
  induction b generalizing shift result i with
  | nil => cases h
  | cons byte rest ih =>
    simp only [readVarintFrom] at h
    split at h
    · cases h
    · split at h
      · cases h
        simp only [List.length_cons]
        omega
      · have := ih h
        simp only [List.length_cons]
        omega

/-- A varint has at least one byte, and its bytes are there. -/
theorem readVarint_length {b : Bytes} {v : UInt64} {adv : Nat} (h : readVarint b = some (v, adv)) :
    0 < adv ∧ adv ≤ b.length := by
  have := readVarintFrom_length h
  omega

/-! ## The loop of `decode_addons_body` -/

inductive Turn where
  | goesOn (i : Nat) (addons : Addons)
  | fails (e : AddonsError)
  | panics
  deriving DecidableEq

/-- `.ok_or(AddonsError::BadWire)?` of a varint and what follows. -/
def onVarint (r : Option (UInt64 × Nat)) (next : Nat → Nat → Turn) : Turn :=
  match r with
  | none => .fails .badWire
  | some (v, adv) => next v.toNat adv

/-- `read_varint(&body[i..])` with a question mark and what follows. -/
def withVarint (body : Bytes) (i : Nat) (next : Nat → Nat → Turn) : Turn :=
  match slice? body i body.length with
  | none => .panics
  | some rest => onVarint (readVarint rest) next

/-- The content of a flow or a seed: `i` is after the length. -/
def knownField (body : Bytes) (field : UInt8) (addons : Addons) (i len : Nat) : Turn :=
  if wrappingAdd i len > body.length then .fails .truncated
  else
    match slice? body i (wrappingAdd i len) with
    | none => .panics
    | some slice =>
      if field = 1 then
        if utf8 : validUtf8 slice = true then
          .goesOn (wrappingAdd i len) { addons with flow := ⟨slice, utf8⟩ }
        else .fails .badUtf8
      else .goesOn (wrappingAdd i len) { addons with seed := slice }

/-- The fields that are stored. -/
def isKnown (tag : UInt8) : Bool := (tag >>> 3 = 1 ∨ tag >>> 3 = 2) ∧ tag &&& 0x7 = 2

def turn (body : Bytes) (i : Nat) (addons : Addons) : Turn :=
  match body[i]? with
  | none => .panics
  | some tag =>
    let i := wrappingAdd i 1
    if isKnown tag then
      withVarint body i fun len adv => knownField body (tag >>> 3) addons (wrappingAdd i adv) len
    else if tag &&& 0x7 = 0 then
      withVarint body i fun _ adv => .goesOn (wrappingAdd i adv) addons
    else if tag &&& 0x7 = 2 then
      withVarint body i fun len adv => .goesOn (wrappingAdd i (wrappingAdd adv len)) addons
    else .fails .badWire

inductive Ended where
  | panicked
  | returned (r : Except AddonsError Addons)

/-- The loop from the cursor `i` on; `none` if it has not ended after `fuel` turns. -/
def decodeFrom (body : Bytes) : Nat → Nat → Addons → Option Ended
  | 0, _, _ => none
  | fuel + 1, i, addons =>
    if i < body.length then
      match turn body i addons with
      | .goesOn i addons => decodeFrom body fuel i addons
      | .fails e => some (.returned (.error e))
      | .panics => some .panicked
    else some (.returned (.ok addons))

def decodeAddonsBody (fuel : Nat) (body : Bytes) : Option Ended :=
  decodeFrom body fuel 0 .default

/-! ## What a turn does -/

section

variable {body : Bytes} {fuel i len : Nat} {field tag : UInt8} {addons : Addons}

/-- The cursor is inside of the body: the slices after the tag are there. -/
theorem turn_eq (hlen : body.length ≤ 255) (hi : body[i]? = some tag) (addons : Addons) :
    turn body i addons =
      if isKnown tag then
        onVarint (readVarint (body.drop (i + 1))) fun len adv =>
          knownField body (tag >>> 3) addons (i + 1 + adv) len
      else if tag &&& 0x7 = 0 then
        onVarint (readVarint (body.drop (i + 1))) fun _ adv => .goesOn (i + 1 + adv) addons
      else if tag &&& 0x7 = 2 then
        onVarint (readVarint (body.drop (i + 1))) fun len adv =>
          .goesOn (wrappingAdd (i + 1) (wrappingAdd adv len)) addons
      else .fails .badWire := by
  have hlt : i < body.length := (List.getElem?_eq_some_iff.mp hi).1
  have hone : wrappingAdd i 1 = i + 1 := wrappingAdd_of_lt (by omega)
  have hadv : ∀ v adv, readVarint (body.drop (i + 1)) = some (v, adv) →
      wrappingAdd (i + 1) adv = i + 1 + adv := by
    intro v adv h
    have := (readVarint_length h).2
    rw [List.length_drop] at this
    exact wrappingAdd_of_lt (by omega)
  simp only [turn, hi, hone, withVarint, slice?_to_end (show i + 1 ≤ body.length by omega)]
  cases hv : readVarint (body.drop (i + 1)) with
  | none => rfl
  | some r => simp only [onVarint, hadv r.1 r.2 hv]

/-- A content that ends in the body is there; one that ends behind `usize` makes the slice panic. -/
theorem knownField_wraps (hi : i ≤ body.length) (hlen : body.length ≤ 255) (hl : len < 2 ^ 64)
    (hwrap : 2 ^ 64 ≤ i + len) : knownField body field addons i len = .panics := by
  have hstop : wrappingAdd i len = i + len - 2 ^ 64 := wrappingAdd_of_le (by omega) hl hwrap
  rw [knownField, hstop, if_neg (by omega), slice?_eq_none (by omega)]

theorem knownField_fits (hfits : i + len < 2 ^ 64) :
    knownField body field addons i len =
      if i + len > body.length then .fails .truncated
      else if field = 1 then
        if utf8 : validUtf8 ((body.drop i).take len) = true then
          .goesOn (i + len) { addons with flow := ⟨(body.drop i).take len, utf8⟩ }
        else .fails .badUtf8
      else .goesOn (i + len) { addons with seed := (body.drop i).take len } := by
  rw [knownField, wrappingAdd_of_lt hfits]
  split
  · rfl
  case isFalse h => simp only [slice?_add (Nat.le_of_not_lt h)]

/-! ## Whole runs -/

/-- The turns of the loop. -/
inductive Reached (body : Bytes) : Nat → Addons → Prop where
  | start : Reached body 0 .default
  | next {i i' : Nat} {addons addons' : Addons} (h : Reached body i addons)
    (hi : i < body.length) (ht : turn body i addons = .goesOn i' addons') : Reached body i' addons'

/-- The turn does not panic, and it moves the cursor forward if it goes on. -/
def Advances (body : Bytes) (i : Nat) (addons : Addons) : Prop :=
  match turn body i addons with
  | .goesOn i' _ => i < i'
  | .fails _ => True
  | .panics => False

/-- The length after the tag, if there is one, does not take the cursor round the end of `usize`;
that of an unknown field may take it back into its own encoding. -/
def LengthFits (body : Bytes) (i : Nat) : Prop :=
  ∀ tag v adv, body[i]? = some tag → tag &&& 0x7 = 2 →
    readVarint (body.drop (i + 1)) = some (v, adv) →
    i + 1 + adv + v.toNat < 2 ^ 64 ∨ isKnown tag = false ∧ 2 ^ 64 ≤ adv + v.toNat

theorem isKnown_wire (h : isKnown tag = true) : tag &&& 0x7 = 2 := by
  simp only [isKnown, decide_eq_true_eq] at h
  exact h.2

/-- A known field is safe exactly if its content does not wrap around. -/
theorem advances_knownField (hlen : body.length ≤ 255) {pos : Nat} (hi : i < pos)
    (hpos : pos ≤ body.length) (hl : len < 2 ^ 64) :
    (match knownField body field addons pos len with
      | .goesOn i' _ => i < i'
      | .fails _ => True
      | .panics => False) ↔ pos + len < 2 ^ 64 := by
  by_cases hfits : pos + len < 2 ^ 64
  · refine iff_of_true ?_ hfits
    rw [knownField_fits hfits]
    by_cases hend : pos + len > body.length
    · rw [if_pos hend]
      trivial
    · rw [if_neg hend]
      by_cases hf : field = 1
      · rw [if_pos hf]
        split
        case h_1 heq =>
          split at heq
          · cases heq
            omega
          · cases heq
        · trivial
        case h_3 heq => split at heq <;> cases heq
      · rw [if_neg hf]
        show i < pos + len
        omega
  · rw [knownField_wraps hpos hlen hl (by omega)]
    exact iff_of_false id hfits

theorem advances_iff (hlen : body.length ≤ 255) (hi : i < body.length) (addons : Addons) :
    Advances body i addons ↔ LengthFits body i := by
  obtain ⟨tag, htag⟩ : ∃ tag, body[i]? = some tag := ⟨_, List.getElem?_eq_getElem hi⟩
  have hfits : ∀ v adv, readVarint (body.drop (i + 1)) = some (v, adv) →
      (LengthFits body i ↔ (tag &&& 0x7 = 2 → i + 1 + adv + v.toNat < 2 ^ 64 ∨
        isKnown tag = false ∧ 2 ^ 64 ≤ adv + v.toNat)) := by
    intro v adv hv
    constructor
    · intro h hwire
      exact h tag v adv htag hwire hv
    · intro h tag' v' adv' htag' hwire hv'
      rw [htag] at htag'
      rw [hv] at hv'
      cases htag'
      cases hv'
      exact h hwire
  rw [Advances, turn_eq hlen htag]
  cases hv : readVarint (body.drop (i + 1)) with
  | none =>
    -- every branch reads a varint, so the turn fails
    refine iff_of_true ?_ fun _ v adv _ _ h => by rw [hv] at h; cases h
    simp only [onVarint, ite_self]
  | some r =>
    obtain ⟨v, adv⟩ := r
    have hadv := readVarint_length hv
    have hv64 := v.toNat_lt
    rw [List.length_drop] at hadv
    rw [hfits v adv hv]
    by_cases hk : isKnown tag = true
    · have hwire := isKnown_wire hk
      simp only [hk, if_true, hwire, true_imp_iff, onVarint]
      rw [advances_knownField hlen (by omega) (by omega) hv64]
      simp
    · rw [if_neg hk]
      by_cases h0 : tag &&& 0x7 = 0
      · rw [if_pos h0]
        refine iff_of_true (show i < i + 1 + adv by omega) fun h2 => ?_
        rw [h0] at h2
        cases h2
      · rw [if_neg h0]
        by_cases h2 : tag &&& 0x7 = 2
        · rw [if_pos h2]
          have hk : isKnown tag = false := by simpa using hk
          show i < wrappingAdd (i + 1) (wrappingAdd adv v.toNat) ↔ _
          simp only [h2, true_imp_iff, hk, true_and, wrappingAdd]
          omega
        · rw [if_neg h2]
          exact iff_of_true trivial fun h => absurd h h2

/-- More turns do not change how the loop ends. -/
theorem decodeFrom_mono {fuel' : Nat} {e : Ended} (h : decodeFrom body fuel i addons = some e)
    (hle : fuel ≤ fuel') : decodeFrom body fuel' i addons = some e := by
  induction fuel generalizing fuel' i addons with
  | zero => cases h
  | succ fuel ih =>
    obtain ⟨k, rfl⟩ : ∃ k, fuel' = k + 1 := ⟨fuel' - 1, by omega⟩
    rw [decodeFrom] at h ⊢
    by_cases hi : i < body.length
    · rw [if_pos hi] at h ⊢
      cases ht : turn body i addons with
      | goesOn i' addons' =>
        rw [ht] at h
        exact ih h (by omega)
      | fails x | panics =>
        rw [ht] at h
        exact h
    · rw [if_neg hi] at h ⊢
      exact h

/-- A loop whose turns all advance ends with a result after at most one turn for each byte. -/
theorem decodeFrom_returns
    (hadv : ∀ i addons, Reached body i addons → i < body.length → Advances body i addons)
    (hr : Reached body i addons) (hpos : 0 < fuel) (hfuel : body.length < fuel + i) :
    ∃ r, decodeFrom body fuel i addons = some (.returned r) := by
  induction fuel generalizing i addons with
  | zero => omega
  | succ fuel ih =>
    by_cases hi : i < body.length
    · have ha := hadv i addons hr hi
      simp only [decodeFrom, if_pos hi]
      rw [Advances] at ha
      cases ht : turn body i addons with
      | goesOn i' addons' =>
        rw [ht] at ha
        have : i < i' := ha
        exact ih (.next hr hi ht) (by omega) (by omega)
      | fails e => exact ⟨_, rfl⟩
      | panics =>
        rw [ht] at ha
        exact ha.elim
    · exact ⟨.ok addons, by rw [decodeFrom, if_neg hi]⟩

end

/-- **Totality.** For every body that the one-byte length admits: all turns of the loop are free of
panics and move the cursor forward, exactly if the lengths that they meet fit; and then the loop
returns, after at most one turn for each byte. -/
theorem addons_advance_iff (body : Bytes) (hlen : body.length ≤ 255) :
    ((∀ i addons, Reached body i addons → i < body.length → Advances body i addons) ↔
      ∀ i addons, Reached body i addons → i < body.length → LengthFits body i) ∧
    ((∀ i addons, Reached body i addons → i < body.length → LengthFits body i) →
      ∃ r, ∀ fuel, body.length < fuel → decodeAddonsBody fuel body = some (.returned r)) := by
  have hturn : ∀ i addons, Reached body i addons → i < body.length →
      (Advances body i addons ↔ LengthFits body i) :=
    fun i addons _ hi => advances_iff hlen hi addons
  refine ⟨⟨fun h i addons hr hi => (hturn i addons hr hi).mp (h i addons hr hi),
    fun h i addons hr hi => (hturn i addons hr hi).mpr (h i addons hr hi)⟩, fun h => ?_⟩
  obtain ⟨r, hr⟩ := decodeFrom_returns
    (fun i addons hr hi => (hturn i addons hr hi).mpr (h i addons hr hi)) .start
    (Nat.succ_pos body.length) (by omega)
  exact ⟨r, fun fuel hfuel => decodeFrom_mono hr hfuel⟩

/-- The flow of the encoder, with its length. -/
def sampleBody : Bytes := [0x0a, 16] ++ xrv

theorem addons_advance_iff_sample : sampleBody.length ≤ 255 ∧
    ∃ r, ∀ fuel, sampleBody.length < fuel →
      decodeAddonsBody fuel sampleBody = some (.returned r) := by
  refine ⟨by decide, (addons_advance_iff sampleBody (by decide)).2 fun i addons hr hi => ?_⟩
  have hstart : i = 0 := by
    induction hr with
    | start => rfl
    | @next i i' addons addons' _ hi' ht ih =>
      -- one turn takes the cursor to the end
      cases ih hi'
      have hend : ∀ a, turn sampleBody 0 a = .goesOn 18 { a with flow := ⟨xrv, by decide⟩ } :=
        fun _ => rfl
      rw [hend] at ht
      cases ht
      exact absurd hi (by decide)
  rintro tag v adv - - hv
  have hread : readVarint (sampleBody.drop 1) = some (16, 1) := by decide
  rw [hstart, hread] at hv
  cases hv
  rw [hstart]
  exact .inl (by decide)

/-- `2^64 - 1` and `2^64 - 11` as varints. -/
def maxVarint : Bytes := List.replicate 9 0xff ++ [0x01]
def nearMaxVarint : Bytes := 0xf5 :: List.replicate 8 0xff ++ [0x01]

/-- A flow of the length `2^64 - 1` makes the slice panic. A field 3 of the length `2^64 - 11`
sends the cursor back to its own tag. -/
theorem huge_lengths_break_decoder :
    decodeAddonsBody 1 (0x0a :: maxVarint) = some .panicked ∧
    ∀ fuel, decodeAddonsBody fuel (0x1a :: nearMaxVarint) = none := by
  refine ⟨rfl, fun fuel => ?_⟩
  have hturn : turn (0x1a :: nearMaxVarint) 0 .default = .goesOn 0 .default := by decide
  induction fuel with
  | zero => rfl
  | succ fuel ih =>
    simp only [decodeAddonsBody, decodeFrom, hturn]
    exact ih

end Xhttp.Vless
