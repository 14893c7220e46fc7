import RustXhttp.Lib.Source

/-!
# Readers around readers

A reader that is polled by another one is seen one poll at a time: what its own loop does inside a
poll does not matter.

* `pollLoop`: one poll of a looping reader, the iterations of its loop up to the one that returns.
* `RoomSpec`: what is left to read for callers that always offer some room;
  `RoomSpec.readToEnd_eq`: they read exactly that. `PollSpec` is that of a reader that is polled.
* `PollSpec.poll_cases`: a reader whose stream ends cleanly polls like a transport that has the same
  bytes, cut in one way; so what is known of an outer reader over every transport holds over it.
* `PollSpec.Took`: the states that a caller reaches by reading given bytes, as `read_exact` does.
-/

namespace Xhttp

section Polls

variable {σ : Type}

/-- The same iteration of a reader that is one variant of another. -/
def Loop.map {τ ρ : Type} (f : σ → τ) : Loop σ ρ → Loop τ ρ
  | .next s => .next (f s)
  | .done s r => .done (f s) r

/-- One poll of a looping reader: `fuel` bounds the iterations. -/
def pollLoop (body : σ → Nat → Loop σ PollRead) :
    Nat → σ → Nat → σ × PollRead
  | 0, s, _ => (s, .pending)
  | fuel + 1, s, n =>
    match body s n with
    | .next s' => pollLoop body fuel s' n
    | .done s' p => (s', p)

/-- A reader that does not loop. -/
def once (poll : σ → Nat → σ × PollRead) (s : σ) (n : Nat) : Loop σ PollRead :=
  .done (poll s n).1 (poll s n).2

variable {s : σ} {fuel n : Nat} {body : σ → Nat → Loop σ PollRead}

/-- An iteration of a reader that is one variant of another. -/
theorem Follows.image {τ : Type} {ok : σ → Prop} {rest : σ → Bytes × ReadEnd} {measure : σ → Nat}
    {ok' : τ → Prop} {rest' : τ → Bytes × ReadEnd} {measure' : τ → Nat} (f : σ → τ)
    (hok : ∀ s, ok s → ok' (f s)) (hrest : ∀ s, rest' (f s) = rest s)
    (hmeasure : ∀ s, measure' (f s) = measure s) {l : Loop σ PollRead}
    (h : Follows ok rest measure s n l) : Follows ok' rest' measure' (f s) n (l.map f) := by
  match l, h with
  | .next t, h =>
    exact ⟨hok t h.1, by rw [hrest, hrest, h.2.1], by rw [hmeasure, hmeasure]; exact h.2.2⟩
  | .done t .pending, h =>
    exact ⟨hok t h.1, by rw [hrest, hrest, h.2.1], by rw [hmeasure, hmeasure]; exact h.2.2⟩
  | .done _ (.ready (.error _)), h => exact (hrest s).trans h
  | .done t (.ready (.ok [])), h =>
    refine ⟨fun hn => (hrest s).trans (h.1 hn), fun hn => ?_⟩
    obtain ⟨ho, hr, hm⟩ := h.2 hn
    exact ⟨hok t ho, by rw [hrest, hrest, hr], by rw [hmeasure, hmeasure]; exact hm⟩
  | .done t (.ready (.ok (_ :: _))), h =>
    exact ⟨hok t h.1, by rw [hrest, hrest, h.2.1], by rw [hmeasure, hmeasure]; exact h.2.2⟩

/-- What is left to read from each state of a looping reader, by callers with some room. -/
structure RoomSpec (body : σ → Nat → Loop σ PollRead) where
  ok : σ → Prop
  rest : σ → Bytes × ReadEnd
  measure : σ → Nat
  follows : ∀ s n, n ≠ 0 → ok s → Follows ok rest measure s n (body s n)

/-- A caller with room in every buffer reads exactly what is left. -/
theorem RoomSpec.readToEnd_eq (S : RoomSpec body) (hs : S.ok s) {sizes : List Nat}
    (hsizes : ∀ n ∈ sizes, n ≠ 0) (hf : S.measure s + sizes.length < fuel) :
    readToEnd body fuel s sizes = some (S.rest s) :=
  readToEnd_rest (P := (· ≠ 0)) (by decide) S.follows hs hsizes hf

/-- That of a reader that is polled; no poll returns more than its buffer holds. -/
structure PollSpec (poll : σ → Nat → σ × PollRead) extends
    RoomSpec (once poll) where
  room : ∀ s n got, (poll s n).2 = .ready (.ok got) → got.length ≤ n

/-- The polls of a looping reader: `rank` bounds the iterations of one poll. -/
theorem ReadSpec.pollLoop_follows (S : ReadSpec body) (rank : σ → Nat)
    (hrank : ∀ s n s', S.ok s → body s n = .next s' → rank s' < rank s) (n : Nat) (hok : S.ok s)
    (hfuel : rank s < fuel) :
    Follows S.ok S.rest S.measure s n (once (pollLoop body fuel) s n) := by
  induction fuel generalizing s with
  | zero => omega
  | succ fuel ih =>
    have hfol := S.follows s n hok
    simp only [once, pollLoop]
    cases hb : body s n with
    | next s' =>
      rw [hb] at hfol
      have hlt := hrank s n s' hok hb
      exact (ih hfol.1 (by omega)).of_later hfol.2.1 (Nat.le_of_lt hfol.2.2)
    | done s' p =>
      rw [hb] at hfol
      exact hfol

theorem pollLoop_room {got : Bytes}
    (hroom : ∀ s s', body s n = .done s' (.ready (.ok got)) → got.length ≤ n) (fuel : Nat) (s : σ)
    (h : (pollLoop body fuel s n).2 = .ready (.ok got)) : got.length ≤ n := by
  induction fuel generalizing s with
  | zero => cases h
  | succ fuel ih =>
    rw [pollLoop] at h
    split at h
    · exact ih _ h
    case h_2 hb =>
      dsimp only at h
      subst h
      exact hroom _ _ hb

namespace Source

def rest (s : Source) : Bytes × ReadEnd := (s.bytes, .eof)

def measure (s : Source) : Nat := s.bytes.length + s.cuts.length

theorem pollRead_follows (s : Source) {n : Nat} (hn : n ≠ 0) :
    Follows (fun _ => True) rest measure s n (once AsyncRead.pollRead s n) := by
  rcases s.pollRead_room hn with ⟨s', hp, hb, hc⟩ | ⟨s', hp, hb, -⟩ | ⟨s', b, got, hp, hb, -, hc⟩
  · rw [once, hp]
    refine ⟨trivial, by rw [rest, hb, rest], ?_⟩
    simp only [measure, hb]
    omega
  · rw [once, hp]
    exact ⟨fun _ => by rw [rest, hb], fun h => absurd h hn⟩
  · rw [once, hp]
    refine ⟨trivial, by rw [rest, hb]; rfl, ?_⟩
    simp only [measure, hb, List.length_append, List.length_cons]
    omega

end Source

section Mimic

variable {poll : σ → Nat → σ × PollRead} (S : PollSpec poll) {s : σ} {w : Bytes}

/-- **Like a transport.** A poll does what a poll of a transport with the same bytes does, for some
cut of them. -/
theorem PollSpec.poll_cases (hok : S.ok s) (hrest : S.rest s = (w, .eof)) {n : Nat} (hn : n ≠ 0) :
    (∃ s', poll s n = (s', .pending) ∧ S.ok s' ∧ S.rest s' = (w, .eof) ∧
      S.measure s' < S.measure s ∧
      ∀ cuts, AsyncRead.pollRead (Source.mk w (0 :: cuts)) n = (⟨w, cuts⟩, .pending)) ∨
    (∃ s', poll s n = (s', .ready (.ok [])) ∧
      AsyncRead.pollRead (Source.mk w []) n = (⟨w, []⟩, .ready (.ok []))) ∨
    (∃ s' b got w', poll s n = (s', .ready (.ok (b :: got))) ∧ S.ok s' ∧
      S.rest s' = (w', .eof) ∧ S.measure s' < S.measure s ∧
      ∀ cuts, AsyncRead.pollRead (Source.mk w ((b :: got).length :: cuts)) n =
        (⟨w', cuts⟩, .ready (.ok (b :: got)))) := by
  have hfol := S.follows s n hn hok
  have hroom := S.room s n
  rw [once] at hfol
  match hp : poll s n with
  | (s', .pending) =>
    rw [hp] at hfol
    exact .inl ⟨s', rfl, hfol.1, hfol.2.1.trans hrest, hfol.2.2, fun cuts => rfl⟩
  | (s', .ready (.error e)) =>
    rw [hp] at hfol
    cases hrest.symm.trans hfol
  | (s', .ready (.ok [])) =>
    rw [hp] at hfol
    obtain rfl : w = [] := congrArg Prod.fst (hrest.symm.trans (hfol.1 hn))
    refine .inr (.inl ⟨s', rfl, ?_⟩)
    show ((⟨[].drop n, []⟩ : Source), Poll.ready (Except.ok ([].take n))) = _
    rw [List.drop_nil, List.take_nil]
  | (s', .ready (.ok (b :: got))) =>
    rw [hp] at hfol hroom
    obtain ⟨hok', hr, hm⟩ := hfol
    rw [hrest] at hr
    rcases hr' : S.rest s' with ⟨w', fin⟩
    rw [hr'] at hr
    obtain ⟨rfl, rfl⟩ := Prod.mk.inj hr
    refine .inr (.inr ⟨s', b, got, w', rfl, hok', hr', hm, fun cuts => ?_⟩)
    have hmin : min n (got.length + 1) = (b :: got).length := Nat.min_eq_right (hroom _ rfl)
    show ((⟨(b :: got ++ w').drop (min n (got.length + 1)), cuts⟩ : Source),
      Poll.ready (Except.ok ((b :: got ++ w').take (min n (got.length + 1))))) = _
    rw [hmin, List.drop_left, List.take_left]

/-- The states that a caller reaches from `s` by polls that return `bytes` altogether. -/
inductive PollSpec.Took (poll : σ → Nat → σ × PollRead) : σ → Bytes → σ → Prop
  | refl (s : σ) : Took poll s [] s
  | pending {s s' t : σ} {n : Nat} {bytes : Bytes} (hn : n ≠ 0) (hp : poll s n = (s', .pending))
      (h : Took poll s' bytes t) : Took poll s bytes t
  | got {s s' t : σ} {n : Nat} {b : UInt8} {got bytes : Bytes} (hn : n ≠ 0)
      (hp : poll s n = (s', .ready (.ok (b :: got)))) (h : Took poll s' bytes t) :
      Took poll s (b :: got ++ bytes) t

/-- What was read is no longer left. -/
theorem PollSpec.Took.rest {bytes : Bytes} {t : σ} (h : Took poll s bytes t) (hok : S.ok s) :
    S.ok t ∧ S.rest s = prepend bytes (S.rest t) := by
  induction h with
  | refl => exact ⟨hok, rfl⟩
  | @pending s s' t n bytes hn hp _ ih =>
    have hfol := S.follows s n hn hok
    rw [once, hp] at hfol
    obtain ⟨ht, hr⟩ := ih hfol.1
    exact ⟨ht, hfol.2.1.symm.trans hr⟩
  | @got s s' t n b got bytes hn hp _ ih =>
    have hfol := S.follows s n hn hok
    rw [once, hp] at hfol
    obtain ⟨ht, hr⟩ := ih hfol.1
    refine ⟨ht, ?_⟩
    rw [hfol.2.1, hr, prepend_prepend]

end Mimic

end Polls

end Xhttp
