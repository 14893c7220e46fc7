import RustXhttp.Encryption.Stream
import RustXhttp.Vision.Layered

/-!
# The reader of a session (`src/dispatcher.rs`, `ClientReader`)

The uplink of a session is read as it comes, or through an `EncryptedReader` when the server is
configured with encryption. Its bytes arrive in pieces that nothing here depends on.

* `ClientReader.pollSpec`: what is left to read, also for a reader around it.
-/

namespace Xhttp

namespace Encryption.EncryptedReader

variable {C : Crypto}

/-- Reading moves bytes from the transport, which count twice, to the buffer, and opening takes them
from there. -/
def iterations (r : EncryptedReader Source) : Nat := r.encrypted.length + 2 * r.inner.bytes.length

section

variable {r r' : EncryptedReader Source} {n : Nat}

theorem iterations_readMore (hheader : ∀ x, r.xor = some x → x.header.length < 5)
    (h : readMore C r = .next r') : r'.iterations < r.iterations := by
  rcases r.inner.pollRead_cases 8192 with ⟨s, hp, -, -⟩ | ⟨s, got, hp, hb, -, -, -⟩
  · simp only [readMore, hp] at h
    cases h
  · cases got with
    | nil =>
      simp only [readMore, hp] at h
      split at h <;> cases h
    | cons b got =>
      simp only [readMore, hp] at h
      rcases hx : r.xor with _ | x
      · rw [hx] at h
        cases h
        simp only [iterations, hb, List.length_append, List.length_cons]
        omega
      · rw [hx] at h
        have heq := x.apply_eq (C := C) (b :: got) (hheader x hx)
        rcases ha : x.apply C (b :: got) with ⟨y, e | out⟩
        · simp only [ha] at h
          cases h
        · have hlen := HeaderXor.length_applyBytes (heq.symm.trans ha)
          simp only [ha] at h
          cases h
          simp only [iterations, hb, List.length_append, hlen, List.length_cons]
          omega

theorem iterations_openRecord {length : Nat} (hl : 5 + length ≤ r.encrypted.length)
    (h : openRecord C r length = .next r') : r'.iterations < r.iterations := by
  simp only [openRecord] at h
  split at h
  · cases h
  · cases h
    simp only [iterations, List.length_drop]
    omega

theorem iterations_next (hr : r.Ok C) (h : pollStep C r n = .next r') :
    r'.iterations < r.iterations := by
  unfold pollStep at h
  split at h
  · cases h
  · split at h
    · cases h
    · exact iterations_readMore hr.header h
    case h_3 length hexpect =>
      dsimp only at h
      split at h
      case isTrue hl =>
        exact iterations_openRecord (r := { r with expected := some length }) hl h
      case isFalse =>
        exact iterations_readMore (r := { r with expected := some length }) hr.header h

/-- No poll returns more than its buffer holds. -/
theorem pollStep_room {got : Bytes} (h : pollStep C r n = .done r' (.ready (.ok got))) :
    got.length ≤ n := by
  have hmore : ∀ q : EncryptedReader Source, readMore C q = .done r' (.ready (.ok got)) →
      got.length ≤ n := by
    intro q hq
    simp only [readMore] at hq
    repeat' split at hq
    all_goals cases hq
    exact Nat.zero_le n
  unfold pollStep at h
  split at h
  · cases h
    rw [List.length_take]
    exact Nat.min_le_left ..
  · split at h
    · cases h
    · exact hmore r h
    · dsimp only at h
      split at h
      · simp only [openRecord] at h
        split at h <;> cases h
      · exact hmore _ h

end

end Encryption.EncryptedReader

namespace Dispatch

open Encryption Vision

inductive ClientReader (C : Crypto) where
  | plain (reader : Source)
  | encrypted (reader : EncryptedReader Source)

namespace ClientReader

variable {C : Crypto}

def pollRead : ClientReader C → Nat → ClientReader C × PollRead
  | .plain reader, n =>
    let (reader, p) := AsyncRead.pollRead reader n
    (.plain reader, p)
  | .encrypted reader, n =>
    let (reader, p) := pollLoop (EncryptedReader.pollStep C) (reader.iterations + 1) reader n
    (.encrypted reader, p)

instance : AsyncRead (ClientReader C) := ⟨pollRead⟩

def Ok : ClientReader C → Prop
  | .plain _ => True
  | .encrypted reader => reader.Ok C

def rest : ClientReader C → Bytes × ReadEnd
  | .plain reader => reader.rest
  | .encrypted reader => reader.rest C

def measure : ClientReader C → Nat
  | .plain reader => reader.measure
  | .encrypted reader => reader.measure C

theorem pollRead_follows (r : ClientReader C) (n : Nat) (hn : n ≠ 0) (hok : r.Ok) :
    Follows Ok rest measure r n (once AsyncRead.pollRead r n) := by
  cases r with
  | plain reader =>
    show Follows Ok rest measure _ n ((once AsyncRead.pollRead reader n).map .plain)
    exact (reader.pollRead_follows hn).image ClientReader.plain (fun _ _ => trivial)
      (fun _ => rfl) (fun _ => rfl)
  | encrypted reader =>
    have hfol := (EncryptedReader.spec C).pollLoop_follows EncryptedReader.iterations
      (fun _ _ _ hr h => EncryptedReader.iterations_next hr h) n hok (Nat.lt_succ_self _)
    show Follows Ok rest measure _ n
      ((once (pollLoop (EncryptedReader.pollStep C) (reader.iterations + 1)) reader n).map
        .encrypted)
    exact hfol.image ClientReader.encrypted (fun _ h => h) (fun _ => rfl) (fun _ => rfl)

theorem pollRead_room (r : ClientReader C) (n : Nat) (got : Bytes)
    (h : (r.pollRead n).2 = .ready (.ok got)) : got.length ≤ n := by
  cases r with
  | plain reader =>
    rcases reader.pollRead_cases n with ⟨s, hp, -⟩ | ⟨s, got', hp, -, hl, -⟩
    · simp only [pollRead, hp] at h
      cases h
    · simp only [pollRead, hp] at h
      cases h
      exact hl
  | encrypted reader =>
    have hroom : ∀ r r', EncryptedReader.pollStep C r n = .done r' (.ready (.ok got)) →
        got.length ≤ n := fun _ _ h => EncryptedReader.pollStep_room h
    exact pollLoop_room hroom (reader.iterations + 1) reader h

/-- What is left to read from a session. -/
def pollSpec : PollSpec (AsyncRead.pollRead (R := ClientReader C)) where
  ok := Ok
  rest := rest
  measure := measure
  follows := pollRead_follows
  room := pollRead_room

end ClientReader

end Dispatch

end Xhttp
