/-!
# Programs with effects

A function that talks to its surroundings (a socket, a clock, a table behind a lock) is a tree of
requests: a **program** returns, fails, or makes a request and goes on with the reply. One program
then has several meanings, and all of them follow its text:

* `Prog.exec h s`: alone, against a handler `h` with state `s`.
* In a machine that holds many programs, one request of one of them at a time.
* `Prog.Obeys P s p Q`: whatever the replies are, the requests of `p` follow the protocol `P` from
  its state `s`, and `p` ends in `Q`. `obeys_bind` is the rule for sequences, `obeys_attempt` for a
  failure that is caught, and `obeys_of_calls` for an invariant of all requests.
* `Prog.ObeysVia P s p q f Q`: `p` is `q` and then `f`, and `Q` speaks of the end of `q` and the end
  of `p` in one run.
* `Prog.Visits P s p s'`: a point that a run of `p` passes, where it may be cut off. What `p` obeys
  in the protocol `P.watched I` holds with `I` at every such point (`Obeys.visits`).
-/

namespace Xhttp

/-- A program with requests `E`, replies `R`, errors `ε` and result `α`. -/
inductive Prog (E : Type) (R : E → Type) (ε α : Type) : Type where
  | done (a : α)
  | fail (x : ε)
  | call (e : E) (k : R e → Prog E R ε α)

namespace Prog

variable {E : Type} {R : E → Type} {ε α β σ S : Type}

def bind : Prog E R ε α → (α → Prog E R ε β) → Prog E R ε β
  | .done a, f => f a
  | .fail x, _ => .fail x
  | .call e k, f => .call e fun r => (k r).bind f

instance : Monad (Prog E R ε) where
  pure := .done
  bind := bind

/-- One request. -/
def perform (e : E) : Prog E R ε (R e) := .call e .done

/-- The result of a program that may fail, as a value. -/
def attempt : Prog E R ε α → Prog E R ε (Except ε α)
  | .done a => .done (.ok a)
  | .fail x => .done (.error x)
  | .call e k => .call e fun r => (k r).attempt

/-- A change of the errors of a program. -/
def mapError (f : ε → ε) : Prog E R ε α → Prog E R ε α
  | .done a => .done a
  | .fail x => .fail (f x)
  | .call e k => .call e fun r => (k r).mapError f

/-- A computation that makes no request. -/
def ofExcept : Except ε α → Prog E R ε α
  | .ok a => .done a
  | .error x => .fail x

/-! ## Running alone -/

def exec (h : σ → (e : E) → R e × σ) : σ → Prog E R ε α → Except ε α × σ
  | s, .done a => (.ok a, s)
  | s, .fail x => (.error x, s)
  | s, .call e k => exec h (h s e).2 (k (h s e).1)

/-- A sequence runs its second part where the first one ended. -/
theorem exec_bind {h : σ → (e : E) → R e × σ} {s s' : σ} {p : Prog E R ε α} {a : α}
    (hp : exec h s p = (.ok a, s')) (f : α → Prog E R ε β) :
    exec h s (p >>= f) = exec h s' (f a) := by
  induction p generalizing s with
  | done b => cases hp; rfl
  | fail x => cases hp
  | call e k ih => exact ih (h s e).1 hp

/-! ## Protocols -/

/-- Which requests are allowed in a state, and how a request and its reply change the state. -/
structure Protocol (E : Type) (R : E → Type) (S : Type) where
  guard : S → E → Prop
  next : S → (e : E) → R e → S → Prop

def Obeys (P : Protocol E R S) : S → Prog E R ε α → (Except ε α → S → Prop) → Prop
  | s, .done a, Q => Q (.ok a) s
  | s, .fail x, Q => Q (.error x) s
  | s, .call e k, Q => P.guard s e ∧ ∀ r s', P.next s e r s' → Obeys P s' (k r) Q

/-- What a sequence ends in, when its first part ends in `r`. -/
def AndThen (P : Protocol E R S) (f : α → Prog E R ε β) (Q : Except ε β → S → Prop)
    (r : Except ε α) (s : S) : Prop :=
  match r with
  | .ok a => Obeys P s (f a) Q
  | .error x => Q (.error x) s

section

variable {P : Protocol E R S} {s : S} {p : Prog E R ε α} {f : α → Prog E R ε β}
  {Q Q' Q₀ : Except ε α → S → Prop} {A : E → Prop} {I : S → Prop}

theorem obeys_bind {Q : Except ε β → S → Prop} (h : Obeys P s p (AndThen P f Q)) :
    Obeys P s (p >>= f) Q := by
  induction p generalizing s with
  | done a => exact h
  | fail x => exact h
  | call e k ih => exact ⟨h.1, fun r s' hn => ih r (h.2 r s' hn)⟩

/-- A sequence, by what is known of its first part. -/
theorem Obeys.bind {Q : Except ε β → S → Prop} (h : Obeys P s p Q₀)
    (herr : ∀ x s', Q₀ (.error x) s' → Q (.error x) s')
    (hok : ∀ a s', Q₀ (.ok a) s' → Obeys P s' (f a) Q) : Obeys P s (p >>= f) Q := by
  induction p generalizing s with
  | done a => exact hok a s h
  | fail x => exact herr x s h
  | call e k ih => exact ⟨h.1, fun r s' hn => ih r (h.2 r s' hn)⟩

/-- A request and what follows it. -/
theorem obeys_perform {e : E} {f : R e → Prog E R ε β} {Q : Except ε β → S → Prop}
    (hg : P.guard s e) (hn : ∀ r s', P.next s e r s' → Obeys P s' (f r) Q) :
    Obeys P s (perform e >>= f) Q :=
  ⟨hg, hn⟩

/-- A computation without requests and what follows it. -/
theorem obeys_ofExcept {r : Except ε α} {Q : Except ε β → S → Prop}
    (herr : ∀ x, r = .error x → Q (.error x) s) (h : ∀ a, r = .ok a → Obeys P s (f a) Q) :
    Obeys P s (ofExcept r >>= f) Q := by
  cases r with
  | ok a => exact h a rfl
  | error x => exact herr x rfl

/-- A program that runs alone is one of the runs: the handler's replies are replies of the protocol,
whose state is read off the handler's. -/
theorem Obeys.exec {h : σ → (e : E) → R e × σ} (view : σ → S)
    (hview : ∀ c e, P.next (view c) e (h c e).1 (view (h c e).2)) {c : σ}
    (hp : Obeys P (view c) p Q) : Q (Prog.exec h c p).1 (view (Prog.exec h c p).2) := by
  induction p generalizing c with
  | done a => exact hp
  | fail x => exact hp
  | call e k ih => exact ih (h c e).1 (hp.2 _ _ (hview c e))

/-- A program whose failure is caught and what follows it. -/
theorem obeys_attempt {f : Except ε α → Prog E R ε β} {Q : Except ε β → S → Prop}
    (h : Obeys P s p fun r s' => Obeys P s' (f r) Q) : Obeys P s (p.attempt >>= f) Q := by
  induction p generalizing s with
  | done a => exact h
  | fail x => exact h
  | call e k ih => exact ⟨h.1, fun r s' hn => ih r (h.2 r s' hn)⟩

theorem obeys_mapError {g : ε → ε} (h : Obeys P s p fun r s' => Q (r.mapError g) s') :
    Obeys P s (p.mapError g) Q := by
  induction p generalizing s with
  | done a => exact h
  | fail x => exact h
  | call e k ih => exact ⟨h.1, fun r s' hn => ih r (h.2 r s' hn)⟩

/-- Every request of the program, whatever the replies are, satisfies `A`. -/
def Calls (A : E → Prop) : Prog E R ε α → Prop
  | .done _ => True
  | .fail _ => True
  | .call e k => A e ∧ ∀ r, Calls A (k r)

theorem calls_bind (hp : p.Calls A) (hf : ∀ a, (f a).Calls A) : (p >>= f).Calls A := by
  induction p with
  | done a => exact hf a
  | fail x => trivial
  | call e k ih => exact ⟨hp.1, fun r => ih r (hp.2 r)⟩

theorem calls_attempt (hp : p.Calls A) : p.attempt.Calls A := by
  induction p with
  | done a => trivial
  | fail x => trivial
  | call e k ih => exact ⟨hp.1, fun r => ih r (hp.2 r)⟩

theorem Calls.imp {B : E → Prop} (hp : p.Calls A) (h : ∀ e, A e → B e) : p.Calls B := by
  induction p with
  | done a => trivial
  | fail x => trivial
  | call e k ih => exact ⟨h e hp.1, fun r => ih r (hp.2 r)⟩

/-- What every request of a program keeps holds at its end. -/
theorem obeys_of_calls {J : S → Prop} (hguard : ∀ s e, A e → J s → P.guard s e)
    (hstep : ∀ s e r s', A e → J s → P.next s e r s' → J s') (hp : p.Calls A) (hs : J s) :
    Obeys P s p fun _ s' => J s' := by
  induction p generalizing s with
  | done a => exact hs
  | fail x => exact hs
  | call e k ih =>
    exact ⟨hguard s e hp.1 hs, fun r s' hn => ih r (hp.2 r) (hstep s e r s' hp.1 hs hn)⟩

theorem Obeys.and (h : Obeys P s p Q) (h' : Obeys P s p Q') :
    Obeys P s p fun r s' => Q r s' ∧ Q' r s' := by
  induction p generalizing s with
  | done a => exact ⟨h, h'⟩
  | fail x => exact ⟨h, h'⟩
  | call e k ih => exact ⟨h.1, fun r s' hn => ih r (h.2 r s' hn) (h'.2 r s' hn)⟩

/-- A weaker end. -/
theorem Obeys.imp (h : Obeys P s p Q) (hQ : ∀ r s', Q r s' → Q' r s') : Obeys P s p Q' := by
  induction p generalizing s with
  | done a => exact hQ _ _ h
  | fail x => exact hQ _ _ h
  | call e k ih => exact ⟨h.1, fun r s' hn => ih r (h.2 r s' hn)⟩

/-! ## Two parts of one run -/

/-- The program is `q` and then `f`, and in every run `Q` relates what `q` returned, and the state
that it left, to the end of the run. -/
def ObeysVia (P : Protocol E R S) (s : S) (p : Prog E R ε β) (q : Prog E R ε α)
    (f : α → Prog E R ε β) (Q : Except ε α → S → Except ε β → S → Prop) : Prop :=
  p = q >>= f ∧ Obeys P s q fun r₁ s₁ =>
    match r₁ with
    | .ok a => Obeys P s₁ (f a) (Q (.ok a) s₁)
    | .error x => Q (.error x) s₁ (.error x) s₁

theorem Obeys.via {p : Prog E R ε β} {q : Prog E R ε α}
    {Q : Except ε α → S → Except ε β → S → Prop} (heq : p = q >>= f) (h : Obeys P s q Q₀)
    (herr : ∀ x s₁, Q₀ (.error x) s₁ → Q (.error x) s₁ (.error x) s₁)
    (hok : ∀ a s₁, Q₀ (.ok a) s₁ → Obeys P s₁ (f a) (Q (.ok a) s₁)) : ObeysVia P s p q f Q := by
  refine ⟨heq, h.imp fun r₁ s₁ h₁ => ?_⟩
  cases r₁ with
  | ok a => exact hok a s₁ h₁
  | error x => exact herr x s₁ h₁

/-! ## Every point of a run -/

/-- The protocol, with `I` in every state in which a request is made. -/
def Protocol.watched (P : Protocol E R S) (I : S → Prop) : Protocol E R S where
  guard s e := P.guard s e ∧ I s
  next := P.next

/-- A run of the program from `s` passes the state `s'`. -/
def Visits (P : Protocol E R S) : S → Prog E R ε α → S → Prop
  | s, .done _, s' => s' = s
  | s, .fail _, s' => s' = s
  | s, .call e k, s' => s' = s ∨ ∃ reply s₁, P.next s e reply s₁ ∧ Visits P s₁ (k reply) s'

theorem Obeys.visits {s' : S} (h : Obeys (P.watched I) s p Q) (hQ : ∀ r s', Q r s' → I s')
    (hv : Visits P s p s') : I s' := by
  induction p generalizing s with
  | done a | fail x =>
    cases hv
    exact hQ _ _ h
  | call e k ih =>
    rcases hv with rfl | ⟨reply, s₁, hn, hv⟩
    · exact h.1.2
    · exact ih reply (h.2 reply s₁ hn) hv

/-- What is known of the end of a program that is watched. -/
theorem Obeys.watched (h : Obeys P s p Q) (h' : Obeys (P.watched I) s p Q') :
    Obeys (P.watched I) s p fun r s' => Q r s' ∧ Q' r s' := by
  induction p generalizing s with
  | done a => exact ⟨h, h'⟩
  | fail x => exact ⟨h, h'⟩
  | call e k ih => exact ⟨h'.1, fun r s' hn => ih r (h.2 r s' hn) (h'.2 r s' hn)⟩

theorem Obeys.unwatched (h : Obeys (P.watched I) s p Q) : Obeys P s p Q := by
  induction p generalizing s with
  | done a => exact h
  | fail x => exact h
  | call e k ih => exact ⟨h.1.1, fun r s' hn => ih r (h.2 r s' hn)⟩

end

end Prog

end Xhttp
