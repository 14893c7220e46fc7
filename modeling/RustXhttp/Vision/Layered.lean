import RustXhttp.Vision.Decode
import RustXhttp.Lib.Polls

/-!
# A Vision reader over any reader

`VisionReader` is known over a transport. Over a reader whose own stream ends cleanly (a reader of
encrypted records) each of its iterations is one over a transport with the same bytes
(`pollStep_mirrors`), so what it reads is known there as well.

* `Mirrors`: the two iterations agree, and the polls they made are paid for by the inner reader.
* `follows_over`: what a Vision reader reads over another reader.
-/

namespace Xhttp.Vision.VisionReader

variable {R : Type} [AsyncRead R]

/-- The same reader over another inner one. -/
def withInner {R' : Type} (r : VisionReader R) (inner : R') : VisionReader R' :=
  ⟨inner, r.uuid, r.prefixBytes, r.raw, r.state, r.output⟩

/-- A poll that a caller with a buffer of `n` bytes does not continue after. -/
def Ends (n : Nat) (p : PollRead) : Prop :=
  (∃ e, p = .ready (.error e)) ∨ n ≠ 0 ∧ p = .ready (.ok [])

variable (S : PollSpec (AsyncRead.pollRead (R := R)))

/-- The inner reader has `w` left, and `u` of the `m` polls it may still make are made. -/
structure Left (m u : Nat) (inner : R) (w : Bytes) : Prop where
  ok : S.ok inner
  rest : S.rest inner = (w, .eof)
  paid : S.measure inner + u ≤ m

/-- An iteration over `R` that polled it at most `u` times, and one over a transport that has no
cuts left afterwards. -/
inductive Mirrors (m n u : Nat) : Loop (VisionReader R) PollRead →
    Loop (VisionReader Source) PollRead → Prop
  | next {r w} (h : Left S m u r.inner w) : Mirrors m n u (.next r) (.next (r.withInner ⟨w, []⟩))
  | done {r w p} (h : Left S m u r.inner w) :
      Mirrors m n u (.done r p) (.done (r.withInner ⟨w, []⟩) p)
  | ends {r q p} (h : Ends n p) : Mirrors m n u (.done r p) (.done q p)

variable {S} {r : VisionReader R} {w : Bytes} {n : Nat}

theorem Mirrors.after {m m' u : Nat} {l : Loop (VisionReader R) PollRead}
    {l' : Loop (VisionReader Source) PollRead} (h : Mirrors S m' n u l l')
    (hm : m' < m) : Mirrors S m n (u + 1) l l' := by
  have hleft : ∀ {i v}, Left S m' u i v → Left S m (u + 1) i v := fun hl =>
    ⟨hl.ok, hl.rest, by have := hl.paid; omega⟩
  cases h with
  | next h => exact .next (hleft h)
  | done h => exact .done (hleft h)
  | ends h => exact .ends h

/-- The `ReadState::Header` arm. -/
theorem pollHeader_mirrors (hok : S.ok r.inner) (hrest : S.rest r.inner = (w, .eof)) (hn : n ≠ 0)
    {bytes : Bytes} (hlt : bytes.length < 5) :
    ∃ used : List Nat, Mirrors S (S.measure r.inner) n used.length (r.pollHeader bytes)
      ((r.withInner (Source.mk w used)).pollHeader bytes) := by
  have hroom : 5 - bytes.length ≠ 0 := by omega
  rcases S.poll_cases hok hrest hroom with
    ⟨i, hp, hok', hrest', hm, hsrc⟩ | ⟨i, hp, hsrc⟩ | ⟨i, b, got, w', hp, hok', hrest', hm, hsrc⟩
  · refine ⟨[0], ?_⟩
    simp only [pollHeader, hp, withInner, hsrc]
    exact .done (r := { r with inner := i }) ⟨hok', hrest', hm⟩
  · refine ⟨[], ?_⟩
    simp only [pollHeader, hp, withInner, hsrc]
    exact .ends (.inr ⟨hn, rfl⟩)
  · refine ⟨[(b :: got).length], ?_⟩
    have hleft : Left S (S.measure r.inner) 1 i w' := ⟨hok', hrest', hm⟩
    simp only [pollHeader, hp, withInner, hsrc]
    split
    · exact .next (r := { r with inner := i, state := .header (bytes ++ b :: got) }) hleft
    · split
      · exact .ends (.inl ⟨_, rfl⟩)
      · exact .next (r := { r with inner := i, state := _ }) hleft

/-- The `ReadState::Content` arm. -/
theorem pollContent_mirrors (hok : S.ok r.inner) (hrest : S.rest r.inner = (w, .eof))
    (remaining padding : Nat) (command : UInt8) :
    ∃ used : List Nat, Mirrors S (S.measure r.inner) n used.length
      (r.pollContent remaining padding command)
      ((r.withInner (Source.mk w used)).pollContent remaining padding command) := by
  unfold pollContent
  split
  · exact ⟨[], .next (r := { r with state := _ }) ⟨hok, hrest, Nat.le_refl _⟩⟩
  · have hroom : min remaining (32 * 1024) ≠ 0 := by omega
    rcases S.poll_cases hok hrest hroom with
      ⟨i, hp, hok', hrest', hm, hsrc⟩ | ⟨i, hp, hsrc⟩ |
      ⟨i, b, got, w', hp, hok', hrest', hm, hsrc⟩
    · refine ⟨[0], ?_⟩
      simp only [hp, withInner, hsrc]
      exact .done (r := { r with inner := i }) ⟨hok', hrest', hm⟩
    · refine ⟨[], ?_⟩
      simp only [hp, withInner, hsrc]
      exact .ends (.inl ⟨_, rfl⟩)
    · refine ⟨[(b :: got).length], ?_⟩
      simp only [hp, withInner, hsrc]
      exact .next (r := { r with inner := i, state := _, output := b :: got }) ⟨hok', hrest', hm⟩

/-- The `ReadState::Padding` arm. -/
theorem pollPadding_mirrors (hok : S.ok r.inner) (hrest : S.rest r.inner = (w, .eof))
    (remaining : Nat) (command : UInt8) :
    ∃ used : List Nat, Mirrors S (S.measure r.inner) n used.length (r.pollPadding remaining command)
      ((r.withInner (Source.mk w used)).pollPadding remaining command) := by
  unfold pollPadding
  split
  · have hleft : Left S (S.measure r.inner) 0 r.inner w := ⟨hok, hrest, Nat.le_refl _⟩
    split
    · exact ⟨[], .next (r := { r with state := .header [] }) hleft⟩
    · exact ⟨[], .next (r := { r with raw := true }) hleft⟩
  · have hroom : min remaining 8192 ≠ 0 := by omega
    rcases S.poll_cases hok hrest hroom with
      ⟨i, hp, hok', hrest', hm, hsrc⟩ | ⟨i, hp, hsrc⟩ |
      ⟨i, b, got, w', hp, hok', hrest', hm, hsrc⟩
    · refine ⟨[0], ?_⟩
      simp only [hp, withInner, hsrc]
      exact .done (r := { r with inner := i }) ⟨hok', hrest', hm⟩
    · refine ⟨[], ?_⟩
      simp only [hp, withInner, hsrc]
      exact .ends (.inl ⟨_, rfl⟩)
    · refine ⟨[(b :: got).length], ?_⟩
      simp only [hp, withInner, hsrc]
      exact .next (r := { r with inner := i, state := _ }) ⟨hok', hrest', hm⟩

theorem pollState_mirrors (hok : S.ok r.inner) (hrest : S.rest r.inner = (w, .eof)) (hn : n ≠ 0)
    (hheader : ∀ bytes, r.state = .header bytes → bytes.length < 5) :
    ∃ used : List Nat, Mirrors S (S.measure r.inner) n used.length r.pollState
      (r.withInner (Source.mk w used)).pollState := by
  obtain ⟨inner, uuid, pre, raw, st, out⟩ := r
  cases st with
  | header bytes => exact pollHeader_mirrors hok hrest hn (hheader bytes rfl)
  | content remaining padding command => exact pollContent_mirrors hok hrest _ _ _
  | padding remaining command => exact pollPadding_mirrors hok hrest _ _

/-- The arm that reads the UUID: with its last byte the state machine runs in the same iteration. -/
theorem pollUuid_mirrors {inner : R} {uuid : ByteArr 16} {pre : Bytes} {st : ReadState}
    (hok : S.ok inner) (hrest : S.rest inner = (w, .eof)) (hn : n ≠ 0) (hpre : pre.length < 16)
    (hheader : ∀ bytes, st = .header bytes → bytes.length < 5) :
    ∃ used : List Nat, Mirrors S (S.measure inner) n used.length
      (pollStep ⟨inner, uuid, pre, false, st, []⟩ n)
      (pollStep ⟨Source.mk w used, uuid, pre, false, st, []⟩ n) := by
  have hroom : 16 - pre.length ≠ 0 := by omega
  simp only [pollStep, ne_eq, not_true_eq_false, ↓reduceIte, Bool.false_eq_true, hpre]
  rcases S.poll_cases hok hrest hroom with
    ⟨i, hp, hok', hrest', hm, hsrc⟩ | ⟨i, hp, hsrc⟩ | ⟨i, b, got, w', hp, hok', hrest', hm, hsrc⟩
  · refine ⟨[0], ?_⟩
    rw [hp, hsrc]
    exact .done ⟨hok', hrest', hm⟩
  · refine ⟨[], ?_⟩
    rw [hp, hsrc]
    exact .ends (.inl ⟨_, rfl⟩)
  · by_cases hlen : (pre ++ b :: got).length < 16
    · refine ⟨[(b :: got).length], ?_⟩
      rw [hp, hsrc]
      dsimp only
      rw [if_pos hlen, if_pos hlen]
      exact .next ⟨hok', hrest', hm⟩
    -- one cut for this poll, and those of the state machine after it
    · obtain ⟨used, hstate⟩ := pollState_mirrors (r := ⟨i, uuid, pre ++ b :: got, false, st, []⟩)
        hok' hrest' hn hheader
      refine ⟨(b :: got).length :: used, ?_⟩
      rw [hp, hsrc]
      dsimp only
      rw [if_neg hlen, if_neg hlen]
      split
      · exact .ends (.inl ⟨_, rfl⟩)
      · exact hstate.after hm

/-- One iteration of the loop. -/
theorem pollStep_mirrors (hok : S.ok r.inner) (hrest : S.rest r.inner = (w, .eof)) (hn : n ≠ 0)
    (hheader : ∀ bytes, r.state = .header bytes → bytes.length < 5) :
    ∃ used : List Nat, Mirrors S (S.measure r.inner) n used.length (r.pollStep n)
      ((r.withInner (Source.mk w used)).pollStep n) := by
  obtain ⟨inner, uuid, pre, raw, st, out⟩ := r
  by_cases hout : out = []
  · subst hout
    cases raw with
    | true =>
      simp only [pollStep, withInner, ne_eq, not_true_eq_false, ↓reduceIte]
      rcases S.poll_cases hok hrest hn with
        ⟨i, hp, hok', hrest', hm, hsrc⟩ | ⟨i, hp, hsrc⟩ |
        ⟨i, b, got, w', hp, hok', hrest', hm, hsrc⟩
      · refine ⟨[0], ?_⟩
        rw [hp, hsrc]
        exact .done ⟨hok', hrest', hm⟩
      · refine ⟨[], ?_⟩
        rw [hp, hsrc]
        exact .ends (.inr ⟨hn, rfl⟩)
      · refine ⟨[(b :: got).length], ?_⟩
        rw [hp, hsrc]
        exact .done ⟨hok', hrest', hm⟩
    | false =>
      by_cases hpre : pre.length < 16
      · exact pollUuid_mirrors hok hrest hn hpre hheader
      · simp only [pollStep, withInner, ne_eq, not_true_eq_false, ↓reduceIte, Bool.false_eq_true,
          hpre]
        exact pollState_mirrors (r := ⟨inner, uuid, pre, false, st, []⟩) hok hrest hn hheader
  · refine ⟨[], ?_⟩
    simp only [pollStep, withInner, ne_eq, hout, not_false_eq_true, ↓reduceIte]
    exact .done ⟨hok, hrest, Nat.le_refl _⟩

/-! ## What is read -/

section Over

variable (S)

/-- The reader over a transport that has what the inner reader has left, in one piece. -/
def flat (r : VisionReader R) : VisionReader Source := r.withInner ⟨(S.rest r.inner).1, []⟩

def OkOver (r : VisionReader R) : Prop :=
  S.ok r.inner ∧ (S.rest r.inner).2 = .eof ∧ Ok (r.flat S)

def restOver (r : VisionReader R) : Bytes × ReadEnd := rest (r.flat S)

def measureOver (r : VisionReader R) : Nat := measure (r.flat S) + S.measure r.inner

variable {S}

/-- A state after an iteration, with what is left of the inner reader. -/
theorem over_of_left {m u : Nat} (h : Left S m u r.inner w) (hok : Ok (r.withInner ⟨w, []⟩)) :
    r.OkOver S ∧ r.restOver S = rest (r.withInner ⟨w, []⟩) ∧
      r.measureOver S + u ≤ measure (r.withInner ⟨w, []⟩) + m := by
  have hflat : r.flat S = r.withInner ⟨w, []⟩ := by rw [flat, h.rest]
  have hpaid := h.paid
  refine ⟨⟨h.ok, by rw [h.rest], by rwa [hflat]⟩, by rw [restOver, hflat], ?_⟩
  rw [measureOver, hflat]
  omega

/-- What follows over the transport follows over the reader: the measure of the transport counts the
cuts that the iteration used. -/
theorem Mirrors.follows {u : Nat} {q : VisionReader Source} {l : Loop (VisionReader R) PollRead}
    {l' : Loop (VisionReader Source) PollRead} (h : Mirrors S (S.measure r.inner) n u l l')
    (hn : n ≠ 0) (hfol : Follows Ok rest measure q n l') (hrest : rest q = r.restOver S)
    (hmeasure : measure q = measure (r.flat S) + u) :
    Follows (OkOver S) (restOver S) (measureOver S) r n l := by
  have hr : r.measureOver S = measure (r.flat S) + S.measure r.inner := rfl
  cases h with
  | next hleft =>
    obtain ⟨hok, hrest', hm⟩ := hfol
    obtain ⟨hok', hover, hpaid⟩ := over_of_left hleft hok
    exact ⟨hok', (hover.trans hrest').trans hrest, by omega⟩
  | @done t v p hleft =>
    match p, hfol with
    | .pending, hfol =>
      obtain ⟨hok, hrest', hm⟩ := hfol
      obtain ⟨hok', hover, hpaid⟩ := over_of_left hleft hok
      exact ⟨hok', (hover.trans hrest').trans hrest, by omega⟩
    | .ready (.error e), hfol => exact hrest.symm.trans hfol
    | .ready (.ok []), hfol => exact ⟨fun _ => hrest.symm.trans (hfol.1 hn), fun h => absurd h hn⟩
    | .ready (.ok (b :: got)), hfol =>
      obtain ⟨hok, hrest', hm⟩ := hfol
      obtain ⟨hok', hover, hpaid⟩ := over_of_left hleft hok
      refine ⟨hok', ?_, by omega⟩
      rw [hover]
      exact hrest.symm.trans hrest'
  | ends hends =>
    rcases hends with ⟨e, rfl⟩ | ⟨-, rfl⟩
    · exact hrest.symm.trans hfol
    · exact ⟨fun _ => hrest.symm.trans (hfol.1 hn), fun h => absurd h hn⟩

/-- **A Vision reader over another reader** reads what it reads over a transport with the same
bytes. -/
theorem follows_over (hn : n ≠ 0) (hok : r.OkOver S) :
    Follows (OkOver S) (restOver S) (measureOver S) r n (r.pollStep n) := by
  obtain ⟨hinner, heof, hvision⟩ := hok
  have hrest : S.rest r.inner = ((S.rest r.inner).1, .eof) := Prod.ext rfl heof
  obtain ⟨used, hmirrors⟩ := pollStep_mirrors hinner hrest hn hvision.2
  have hmeasure : measure (r.withInner ⟨(S.rest r.inner).1, used⟩) =
      measure (r.flat S) + used.length := by
    show 4 * (S.rest r.inner).1.length + used.length + r.output.length +
        (if r.raw then 0 else r.state.rank) =
      4 * (S.rest r.inner).1.length + 0 + r.output.length +
        (if r.raw then 0 else r.state.rank) + used.length
    omega
  exact hmirrors.follows hn (follows_step _ n hvision) rfl hmeasure

end Over

end Xhttp.Vision.VisionReader
