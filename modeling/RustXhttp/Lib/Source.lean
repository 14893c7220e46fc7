import RustXhttp.Lib.Bytes

/-!
# Asynchronous readers

`AsyncRead R` is `tokio::io::AsyncRead`: one poll of a reader with a buffer of `n` bytes is pending,
fails, or fills some of the buffer. A reader that is a loop around another reader (unframing,
decryption) is given by one iteration of its loop (`Loop`).

* `Source`: bytes that arrive in pieces. `cuts` fixes how the transport delivers them, poll by
  poll: `0` is a pending poll, `n + 1` a poll that has at most `n + 1` bytes. A list of cuts is one
  fragmentation; when it is used up, every later poll has all that is left.
* `readToEnd`: a caller that polls a looping reader until the end of the stream or an error,
  with buffers of the given sizes (`1` when they are used up).
* `ReadSpec`: what is left to read from each state of a reader, with which every iteration agrees
  (`Follows`). `ReadSpec.readToEnd_eq`: a caller reads exactly that, whatever its buffers.
* `readToEnd_inv`: the rule for a relation between what was read and the state (`Guards`), when what
  is left to read is not known.
-/

namespace Xhttp

open List

/-- `std::io::ErrorKind`, as far as the readers use it. -/
inductive ErrorKind where
  | unexpectedEof | invalidData
  deriving DecidableEq, Repr

/-- `std::io::Error`: its kind and its message. -/
structure IoError where
  kind : ErrorKind
  message : String
  deriving DecidableEq, Repr

/-- `std::task::Poll`. -/
inductive Poll (α : Type) where
  | pending
  | ready (a : α)
  deriving DecidableEq, Repr

/-- What `poll_read` returns, with the bytes that it put into the buffer. -/
abbrev PollRead := Poll (Except IoError Bytes)

/-- `tokio::io::AsyncRead`: a poll with a buffer of `n` bytes. -/
class AsyncRead (R : Type) where
  pollRead : R → Nat → R × PollRead

/-! ## Bytes that arrive in pieces -/

/-- The bytes still to come, and how they are cut. -/
structure Source where
  bytes : Bytes
  cuts : List Nat
  deriving DecidableEq, Repr

namespace Source

/-- One poll of the transport with a buffer of `n` bytes. -/
def pollRead (s : Source) (n : Nat) : Source × PollRead :=
  match s.cuts with
  | [] => ({ s with bytes := s.bytes.drop n }, .ready (.ok (s.bytes.take n)))
  | 0 :: cuts => ({ s with cuts }, .pending)
  | (k + 1) :: cuts =>
    ({ bytes := s.bytes.drop (min n (k + 1)), cuts },
      .ready (.ok (s.bytes.take (min n (k + 1)))))

instance : AsyncRead Source := ⟨pollRead⟩

/-- What a poll can do: it is pending and uses up a cut, or it takes a piece of the bytes, which
is empty only when the buffer or the source is. -/
theorem pollRead_cases (s : Source) (n : Nat) :
    (∃ s', AsyncRead.pollRead s n = (s', .pending) ∧ s'.bytes = s.bytes ∧
      s'.cuts.length < s.cuts.length) ∨
    (∃ s' got, AsyncRead.pollRead s n = (s', .ready (.ok got)) ∧ s.bytes = got ++ s'.bytes ∧
      got.length ≤ n ∧ (got = [] → n = 0 ∨ s.bytes = []) ∧
      s'.cuts.length ≤ s.cuts.length) := by
  obtain ⟨bytes, cuts⟩ := s
  have take_nil : ∀ m, bytes.take m = [] → m = 0 ∨ bytes = [] := by
    intro m h
    cases bytes with
    | nil => exact .inr rfl
    | cons b bs => cases m with
      | zero => exact .inl rfl
      | succ m => cases h
  cases cuts with
  | nil =>
    refine .inr ⟨_, _, rfl, (take_append_drop n bytes).symm, ?_, take_nil n, Nat.le_refl _⟩
    rw [length_take]; omega
  | cons k cuts =>
    cases k with
    | zero => exact .inl ⟨_, rfl, rfl, Nat.lt_succ_self _⟩
    | succ k =>
      refine .inr ⟨_, _, rfl, (take_append_drop _ bytes).symm, ?_, fun h => ?_,
        Nat.le_succ _⟩
      · rw [length_take]; omega
      · rcases take_nil _ h with h | h
        · exact .inl (by omega)
        · exact .inr h

/-- With room for a byte, a poll that is not pending takes one or is at the end. -/
theorem pollRead_room (s : Source) {n : Nat} (hn : n ≠ 0) :
    (∃ s', AsyncRead.pollRead s n = (s', .pending) ∧ s'.bytes = s.bytes ∧
      s'.cuts.length < s.cuts.length) ∨
    (∃ s', AsyncRead.pollRead s n = (s', .ready (.ok [])) ∧ s.bytes = [] ∧ s'.bytes = [] ∧
      s'.cuts.length ≤ s.cuts.length) ∨
    (∃ s' b got, AsyncRead.pollRead s n = (s', .ready (.ok (b :: got))) ∧
      s.bytes = (b :: got) ++ s'.bytes ∧ (b :: got).length ≤ n ∧
      s'.cuts.length ≤ s.cuts.length) := by
  rcases pollRead_cases s n with hpending | ⟨s', got, hp, hb, hl, hnil, hc⟩
  · exact .inl hpending
  cases got with
  | nil =>
    have hend : s.bytes = [] := (hnil rfl).resolve_left hn
    exact .inr (.inl ⟨s', hp, hend, hb.symm.trans hend, hc⟩)
  | cons b got => exact .inr (.inr ⟨s', b, got, hp, hb, hl, hc⟩)

end Source

/-! ## Readers that loop -/

/-- One iteration of a loop: go round again, or return. -/
inductive Loop (σ ρ : Type) where
  | next (s : σ)
  | done (s : σ) (r : ρ)
  deriving DecidableEq, Repr

/-- How a read to the end stops. -/
inductive ReadEnd where
  | eof
  | error (e : IoError)
  deriving DecidableEq, Repr

section ReadToEnd

variable {σ : Type}

/-- A caller that polls until the end of the stream: the bytes it got, and how it stopped. A poll
that returns no byte into a buffer with room is the end of the stream. The fuel bounds the
iterations of all polls together. -/
def readToEnd (body : σ → Nat → Loop σ PollRead) :
    Nat → σ → List Nat → Option (Bytes × ReadEnd)
  | 0, _, _ => none
  | fuel + 1, s, sizes =>
    match body s (sizes.headD 1) with
    | .next s' => readToEnd body fuel s' sizes
    | .done s' .pending => readToEnd body fuel s' sizes.tail
    | .done _ (.ready (.error e)) => some ([], .error e)
    | .done s' (.ready (.ok got)) =>
      if got = [] ∧ sizes.headD 1 ≠ 0 then some ([], .eof)
      else (readToEnd body fuel s' sizes.tail).map fun r => (got ++ r.1, r.2)

/-- `bs`, and then what `r` says. -/
def prepend (bs : Bytes) (r : Bytes × ReadEnd) : Bytes × ReadEnd := (bs ++ r.1, r.2)

@[simp] theorem prepend_nil (r : Bytes × ReadEnd) : prepend [] r = r := rfl

theorem prepend_prepend (as bs : Bytes) (r : Bytes × ReadEnd) :
    prepend as (prepend bs r) = prepend (as ++ bs) r := by
  simp only [prepend, append_assoc]

/-- One iteration from `s`, with a buffer of `n` bytes, agrees with `rest`, what a caller still
reads from each state, and decreases `measure` unless it ends the read. -/
def Follows (ok : σ → Prop) (rest : σ → Bytes × ReadEnd) (measure : σ → Nat) (s : σ) (n : Nat) :
    Loop σ PollRead → Prop
  | .next s' => ok s' ∧ rest s' = rest s ∧ measure s' < measure s
  | .done s' .pending => ok s' ∧ rest s' = rest s ∧ measure s' < measure s
  | .done _ (.ready (.error e)) => rest s = ([], .error e)
  | .done s' (.ready (.ok [])) =>
    (n ≠ 0 → rest s = ([], .eof)) ∧
      (n = 0 → ok s' ∧ rest s' = rest s ∧ measure s' ≤ measure s)
  | .done s' (.ready (.ok (b :: got))) =>
    ok s' ∧ rest s = prepend (b :: got) (rest s') ∧ measure s' < measure s

variable {ok : σ → Prop} {rest : σ → Bytes × ReadEnd} {measure : σ → Nat} {s : σ} {fuel n : Nat}
  {l : Loop σ PollRead} {body : σ → Nat → Loop σ PollRead}
  {P : Nat → Prop} {sofar : Bytes} {sizes : List Nat}

/-- An iteration that went through the state `t` before it went round or returned. -/
theorem Follows.of_later {t : σ} (hr : rest t = rest s) (hm : measure t ≤ measure s)
    (h : Follows ok rest measure t n l) : Follows ok rest measure s n l := by
  match l, h with
  | .next _, h => exact ⟨h.1, h.2.1.trans hr, Nat.lt_of_lt_of_le h.2.2 hm⟩
  | .done _ .pending, h => exact ⟨h.1, h.2.1.trans hr, Nat.lt_of_lt_of_le h.2.2 hm⟩
  | .done _ (.ready (.error _)), h => exact hr.symm.trans h
  | .done _ (.ready (.ok [])), h =>
    refine ⟨fun hn => hr.symm.trans (h.1 hn), fun hn => ?_⟩
    obtain ⟨ho, hr', hm'⟩ := h.2 hn
    exact ⟨ho, hr'.trans hr, Nat.le_trans hm' hm⟩
  | .done _ (.ready (.ok (_ :: _))), h =>
    exact ⟨h.1, hr.symm.trans h.2.1, Nat.lt_of_lt_of_le h.2.2 hm⟩

/-- A reader serves a caller from the bytes `plain` that it has at hand. -/
theorem Follows.serve {s' : σ} {plain : Bytes} (hp : plain ≠ []) (hok : ok s')
    (hr : rest s = prepend (plain.take n) (rest s'))
    (hm : measure s = (plain.take n).length + measure s') :
    Follows ok rest measure s n (.done s' (.ready (.ok (plain.take n)))) := by
  match ht : plain.take n with
  | [] =>
    have hn : n = 0 := (take_eq_nil_iff.mp ht).resolve_right hp
    rw [ht, prepend_nil] at hr
    rw [ht, length_nil, Nat.zero_add] at hm
    exact ⟨fun h => absurd hn h, fun _ => ⟨hok, hr.symm, Nat.le_of_eq hm.symm⟩⟩
  | b :: got =>
    rw [ht] at hr hm
    refine ⟨hok, hr, ?_⟩
    rw [hm, length_cons]
    omega

/-- One iteration from `s`, with a buffer of `n` bytes, keeps `I`, a relation of what the caller has
read so far and the state, and decreases `measure`; the read ends in `Q` only. -/
def Guards (I : Bytes → σ → Prop) (Q : Bytes × ReadEnd → Prop) (measure : σ → Nat) (sofar : Bytes)
    (s : σ) (n : Nat) : Loop σ PollRead → Prop
  | .next s' => I sofar s' ∧ measure s' < measure s
  | .done s' .pending => I sofar s' ∧ measure s' < measure s
  | .done _ (.ready (.error e)) => Q (sofar, .error e)
  | .done s' (.ready (.ok [])) =>
    (n ≠ 0 → Q (sofar, .eof)) ∧ (n = 0 → I sofar s' ∧ measure s' ≤ measure s)
  | .done s' (.ready (.ok (b :: got))) => I (sofar ++ b :: got) s' ∧ measure s' < measure s

/-- An invariant of what a caller has read and the state, for buffers of sizes in `P`: every read to
the end ends, and in `Q`. -/
theorem readToEnd_inv {I : Bytes → σ → Prop} {Q : Bytes × ReadEnd → Prop} (h1 : P 1)
    (hbody : ∀ sofar s n, P n → I sofar s → Guards I Q measure sofar s n (body s n))
    (hs : I sofar s) (hsizes : ∀ n ∈ sizes, P n) (hf : measure s + sizes.length < fuel) :
    ∃ r, readToEnd body fuel s sizes = some r ∧ Q (prepend sofar r) := by
  induction fuel generalizing sofar s sizes with
  | zero => omega
  | succ fuel ih =>
    have htail : sizes.tail.length ≤ sizes.length := by rw [length_tail]; omega
    have hhead : P (sizes.headD 1) := by
      cases sizes with
      | nil => exact h1
      | cons n => exact hsizes n mem_cons_self
    have hrest : ∀ n ∈ sizes.tail, P n := fun n hn => hsizes n (mem_of_mem_tail hn)
    have hguard := hbody sofar s (sizes.headD 1) hhead hs
    match hb : body s (sizes.headD 1) with
    | .next s' =>
      rw [hb] at hguard
      simp only [readToEnd, hb]
      exact ih hguard.1 hsizes (by have := hguard.2; omega)
    | .done s' .pending =>
      rw [hb] at hguard
      simp only [readToEnd, hb]
      exact ih hguard.1 hrest (by have := hguard.2; omega)
    | .done _ (.ready (.error e)) =>
      rw [hb] at hguard
      simp only [readToEnd, hb]
      refine ⟨_, rfl, ?_⟩
      rw [prepend, append_nil]
      exact hguard
    | .done s' (.ready (.ok [])) =>
      rw [hb] at hguard
      simp only [readToEnd, hb]
      by_cases hn : sizes.headD 1 = 0
      · -- a buffer without room: nothing is read, and the caller polls again
        obtain ⟨hI, hm⟩ := hguard.2 hn
        have hlt : sizes.tail.length < sizes.length := by
          cases sizes with
          | nil => cases hn
          | cons => exact Nat.lt_succ_self _
        obtain ⟨r, hr, hQ⟩ := ih hI hrest (show _ + sizes.tail.length < fuel by omega)
        rw [if_neg fun h => h.2 hn, hr]
        exact ⟨r, rfl, hQ⟩
      · rw [if_pos ⟨trivial, hn⟩]
        refine ⟨_, rfl, ?_⟩
        rw [prepend, append_nil]
        exact hguard.1 hn
    | .done s' (.ready (.ok (b :: got))) =>
      rw [hb] at hguard
      obtain ⟨hI, hm⟩ := hguard
      have hne : ¬ (b :: got = [] ∧ sizes.headD 1 ≠ 0) := fun h => cons_ne_nil b got h.1
      obtain ⟨r, hr, hQ⟩ := ih hI hrest (show _ + sizes.tail.length < fuel by omega)
      rw [readToEnd, hb]
      simp only [if_neg hne, hr]
      refine ⟨_, rfl, ?_⟩
      rw [← prepend_prepend] at hQ
      exact hQ

/-- What a caller has read, and what is left, are the whole. -/
theorem Follows.guards (h : Follows ok rest measure s n l) {whole : Bytes × ReadEnd}
    (hs : prepend sofar (rest s) = whole) :
    Guards (fun sofar t => ok t ∧ prepend sofar (rest t) = whole) (· = whole) measure sofar s n
      l := by
  match l, h with
  | .next t, h => exact ⟨⟨h.1, by rw [h.2.1, hs]⟩, h.2.2⟩
  | .done t .pending, h => exact ⟨⟨h.1, by rw [h.2.1, hs]⟩, h.2.2⟩
  | .done t (.ready (.error e)), h =>
    rw [show rest s = _ from h, prepend, append_nil] at hs
    exact hs
  | .done t (.ready (.ok [])), h =>
    refine ⟨fun hn => ?_, fun hn => ?_⟩
    · rw [h.1 hn, prepend, append_nil] at hs
      exact hs
    · obtain ⟨ho, hr, hm⟩ := h.2 hn
      exact ⟨⟨ho, by rw [hr, hs]⟩, hm⟩
  | .done t (.ready (.ok (b :: got))), h =>
    rw [h.2.1, prepend_prepend] at hs
    exact ⟨⟨h.1, hs⟩, h.2.2⟩

/-- A caller with buffers of the sizes in `P` reads exactly what is left. -/
theorem readToEnd_rest (h1 : P 1)
    (hbody : ∀ s n, P n → ok s → Follows ok rest measure s n (body s n)) (hs : ok s)
    (hsizes : ∀ n ∈ sizes, P n) (hf : measure s + sizes.length < fuel) :
    readToEnd body fuel s sizes = some (rest s) := by
  obtain ⟨r, hread, hr⟩ := readToEnd_inv h1 (fun _ t n hn h => (hbody t n hn h.1).guards h.2)
    ⟨hs, prepend_nil (rest s)⟩ hsizes hf
  rw [hread, ← hr, prepend_nil]

/-- What is left to read from each state of a looping reader. -/
structure ReadSpec (body : σ → Nat → Loop σ PollRead) where
  ok : σ → Prop
  rest : σ → Bytes × ReadEnd
  measure : σ → Nat
  follows : ∀ s n, ok s → Follows ok rest measure s n (body s n)

/-- A caller reads exactly what the specification says is left, with any buffer sizes. -/
theorem ReadSpec.readToEnd_eq (S : ReadSpec body) (hs : S.ok s)
    (hf : S.measure s + sizes.length < fuel) : readToEnd body fuel s sizes = some (S.rest s) :=
  readToEnd_rest (P := fun _ => True) trivial (fun s n _ => S.follows s n) hs (fun _ _ => trivial)
    hf

end ReadToEnd

end Xhttp
